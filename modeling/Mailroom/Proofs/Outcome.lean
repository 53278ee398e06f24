/-
Taking successful computations apart.

A computation with refusals succeeds when each of its steps does.

* `bind_eq_ok`, `mapError_eq_ok`, `mapError_bind` — one step, and a step whose refusal is reworded;
* `mapM_eq_ok`, `exists_mapM_eq_ok`, `mem_of_mapM_eq_ok` — one step for each element of a
  list;
* `mapM_eq_ok_iff_map` — reading what was written.
-/
import Mathlib.Data.List.Forall2

namespace Mailroom

variable {ε δ α β : Type}

@[simp] theorem bind_eq_ok {x : Except ε α} {f : α → Except ε β} {b : β} :
    x >>= f = .ok b ↔ ∃ a, x = .ok a ∧ f a = .ok b := by
  cases x <;> simp [bind, Except.bind]

@[simp] theorem pure_eq_ok {a b : α} : (pure a : Except ε α) = .ok b ↔ a = b := by
  simp [pure, Except.pure]

@[simp] theorem mapError_eq_ok {reword : ε → δ} {x : Except ε α} {a : α} :
    x.mapError reword = .ok a ↔ x = .ok a := by
  cases x with
  | error e => exact ⟨nofun, nofun⟩
  | ok b =>
    show (.ok b : Except δ α) = .ok a ↔ _
    rw [Except.ok.injEq, Except.ok.injEq]

/-- A refusal of a whole can be reworded in each of its steps. -/
theorem mapError_bind {reword : ε → δ} {x : Except ε α} {f : α → Except ε β} :
    (x >>= f).mapError reword = x.mapError reword >>= fun a => (f a).mapError reword := by
  cases x <;> rfl

theorem mapM_eq_ok {f : α → Except ε β} {as : List α} {bs : List β} :
    as.mapM f = .ok bs ↔ List.Forall₂ (fun a b => f a = .ok b) as bs := by
  induction as generalizing bs with
  | nil => simp [List.mapM_nil, pure, Except.pure, eq_comm]
  | cons a as ih =>
    rw [List.mapM_cons, List.forall₂_cons_left_iff]
    simp only [bind_eq_ok, pure_eq_ok, ih]
    constructor
    · rintro ⟨b, hb, bs', hbs', rfl⟩
      exact ⟨b, bs', hb, hbs', rfl⟩
    · rintro ⟨b, bs', hb, hbs', rfl⟩
      exact ⟨b, hb, bs', hbs', rfl⟩

theorem exists_mapM_eq_ok {f : α → Except ε β} {as : List α} :
    (∃ bs, as.mapM f = .ok bs) ↔ ∀ a ∈ as, ∃ b, f a = .ok b := by
  simp only [mapM_eq_ok]
  induction as with
  | nil => simp
  | cons a as ih =>
    simp only [List.forall₂_cons_left_iff, List.forall_mem_cons, ← ih]
    constructor
    · rintro ⟨_, b, bs, hb, hbs, rfl⟩
      exact ⟨⟨b, hb⟩, bs, hbs⟩
    · rintro ⟨⟨b, hb⟩, bs, hbs⟩
      exact ⟨_, b, bs, hb, hbs, rfl⟩

theorem mem_of_mapM_eq_ok {f : α → Except ε β} {as : List α} {bs : List β}
    (h : as.mapM f = .ok bs) (b : β) : b ∈ bs ↔ ∃ a ∈ as, f a = .ok b := by
  induction as generalizing bs with
  | nil => simp [List.forall₂_nil_left_iff.1 (mapM_eq_ok.1 h)]
  | cons a as ih =>
    obtain ⟨b', bs', hb', hbs', rfl⟩ := List.forall₂_cons_left_iff.1 (mapM_eq_ok.1 h)
    simp only [List.mem_cons, ih (mapM_eq_ok.2 hbs'), exists_eq_or_imp, hb', Except.ok.injEq,
      eq_comm (a := b)]

/-- What is read from a list is that from which it was written, if it is so for each element. -/
theorem mapM_eq_ok_iff_map {f : α → Except ε β} {g : β → α} (h : ∀ a b, f a = .ok b ↔ g b = a)
    {as : List α} {bs : List β} : as.mapM f = .ok bs ↔ bs.map g = as := by
  have hflip : (fun a b => f a = .ok b) = flip fun b a => g b = a := by
    funext a b
    exact propext (h a b)
  rw [mapM_eq_ok, hflip, ← List.forall₂_eq_eq_eq, List.forall₂_map_left_iff]
  exact ⟨List.Forall₂.flip, List.Forall₂.flip⟩

end Mailroom
