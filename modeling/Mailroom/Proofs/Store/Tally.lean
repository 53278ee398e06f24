/-
Counting the texts of a column.

A tally names each text of a column once, in order, and nothing else, with the number of its
occurrences. Statuses that are counted by such a tally add up to the number of all texts.

* `pairwise_tally`, `mem_tally_iff`, `sum_tally` — what a tally says;
* `least?_eq_some_iff`, `greatest?_eq_some_iff` — the ends of a column;
* `Statistics.count` — the number of messages of one status;
* `exists_foldlM_countStatus` — what counting statuses one after another comes to.
-/
import Mailroom.Proofs.Store.Rows
import Mailroom.Store.Statistics
import Mathlib.Algebra.BigOperators.Group.List.Lemmas
import Mathlib.Algebra.GroupWithZero.Nat
import Mathlib.Order.Bounds.Defs

namespace Mailroom

section

variable {texts : List String}

/-! ### Tallies -/

/-- Texts in order are in strict order without their duplicates. -/
theorem pairwise_lt_eraseDups (h : texts.Pairwise (· ≤ ·)) : texts.eraseDups.Pairwise (· < ·) := by
  induction hlength : texts.length using Nat.strong_induction_on generalizing texts with
  | _ n ih =>
    cases texts with
    | nil => exact List.Pairwise.nil
    | cons t texts =>
      obtain ⟨hle, hrest⟩ := List.pairwise_cons.1 h
      rw [List.eraseDups_cons, List.pairwise_cons]
      constructor
      · intro u hu
        obtain ⟨hmem, hne⟩ := List.mem_filter.1 (List.mem_eraseDups.1 hu)
        exact lt_of_le_of_ne (hle u hmem) fun heq => by simp [heq] at hne
      · refine ih _ ?_ (hrest.filter _) rfl
        rw [← hlength, List.length_cons]
        exact Nat.lt_succ_of_le (List.length_filter_le _ texts)

theorem map_fst_tally : (tally texts).map (·.1) = (texts.mergeSort fun a b => a ≤ b).eraseDups := by
  rw [tally, List.map_map]
  exact List.map_id _

theorem pairwise_tally : ((tally texts).map (·.1)).Pairwise (· < ·) := by
  rw [map_fst_tally]
  exact pairwise_lt_eraseDups (pairwise_mergeSort_text id texts)

theorem mem_map_fst_tally {t : String} : t ∈ (tally texts).map (·.1) ↔ t ∈ texts := by
  rw [map_fst_tally, List.mem_eraseDups, (List.mergeSort_perm ..).mem_iff]

theorem mem_tally_iff {t : String} {n : Nat} :
    (t, n) ∈ tally texts ↔ t ∈ texts ∧ n = texts.count t := by
  rw [← mem_map_fst_tally, map_fst_tally, tally, List.mem_map]
  constructor
  · rintro ⟨u, hu, heq⟩
    obtain ⟨rfl, rfl⟩ := Prod.mk.inj heq
    exact ⟨hu, rfl⟩
  · rintro ⟨ht, rfl⟩
    exact ⟨t, ht, rfl⟩

theorem lookup_tally (t : String) : ((tally texts).lookup t).getD 0 = texts.count t := by
  by_cases ht : t ∈ texts
  · have hmem : t ∈ (texts.mergeSort fun a b => a ≤ b).eraseDups :=
      map_fst_tally ▸ mem_map_fst_tally.2 ht
    rw [tally, List.lookup_graph _ hmem]
    rfl
  · have hnone : (tally texts).lookup t = none := by
      rw [List.lookup_eq_none_iff]
      rintro ⟨u, n⟩ hu
      rw [bne_iff_ne]
      rintro rfl
      exact ht (mem_tally_iff.1 hu).1
    rw [hnone, List.count_eq_zero_of_not_mem ht]
    rfl

/-- Every text of the column is counted once. -/
theorem sum_tally : ((tally texts).map (·.2)).sum = texts.length := by
  have hnodup : ((texts.mergeSort fun a b => a ≤ b).eraseDups).Nodup := by
    rw [← map_fst_tally]
    exact pairwise_tally.imp ne_of_lt
  have hperm : ((texts.mergeSort fun a b => a ≤ b).eraseDups).Perm texts.dedup := by
    refine (List.perm_ext_iff_of_nodup hnodup texts.nodup_dedup).2 fun t => ?_
    rw [← map_fst_tally, mem_map_fst_tally, List.mem_dedup]
  calc ((tally texts).map (·.2)).sum
      = ((texts.mergeSort fun a b => a ≤ b).eraseDups.map (texts.count ·)).sum := by
        rw [tally, List.map_map]
        rfl
    _ = (texts.dedup.map (texts.count ·)).sum := (hperm.map _).sum_eq
    _ = texts.length := List.sum_map_count_dedup_eq_length texts

/-! ### The ends of a column -/

/-- A search that keeps one of two texts at a time is a fold of this choice. -/
theorem foldl_chosen {choose : String → String → String}
    {step : Option String → String → Option String} (hfirst : ∀ t, step none t = some t)
    (hnext : ∀ b t, step (some b) t = some (choose b t)) (t : String) (texts : List String) :
    (t :: texts).foldl step none = some (texts.foldl choose t) := by
  rw [List.foldl_cons, hfirst]
  induction texts generalizing t with
  | nil => rfl
  | cons u texts ih => rw [List.foldl_cons, hnext, ih, List.foldl_cons]

theorem least?_eq_min? : least? texts = texts.min? := by
  cases texts with
  | nil => rfl
  | cons t texts =>
    rw [List.min?_cons']
    refine foldl_chosen (fun _ => rfl) (fun b u => ?_) t texts
    rw [min_comm, min_def_lt]

theorem greatest?_eq_max? : greatest? texts = texts.max? := by
  cases texts with
  | nil => rfl
  | cons t texts =>
    rw [List.max?_cons']
    refine foldl_chosen (fun _ => rfl) (fun b u => ?_) t texts
    rw [max_def_lt]

theorem least?_eq_some_iff {t : String} :
    least? texts = some t ↔ IsLeast {u | u ∈ texts} t := by
  rw [least?_eq_min?, List.min?_eq_some_iff]
  rfl

theorem greatest?_eq_some_iff {t : String} :
    greatest? texts = some t ↔ IsGreatest {u | u ∈ texts} t := by
  rw [greatest?_eq_max?, List.max?_eq_some_iff]
  rfl

theorem least?_eq_none_iff : least? texts = none ↔ texts = [] := by
  rw [least?_eq_min?, List.min?_eq_none_iff]

theorem greatest?_eq_none_iff : greatest? texts = none ↔ texts = [] := by
  rw [greatest?_eq_max?, List.max?_eq_none_iff]

end

/-! ### Counting statuses -/

/-- The number of messages of a status. -/
def Statistics.count (x : Statistics) : MessageStatus → Nat
  | .unread => x.unread
  | .read => x.read
  | .archived => x.archived

namespace Statistics

theorem count_add (x : Statistics) (status other : MessageStatus) (n : Nat) :
    (x.add status n).count other = if other = status then n else x.count other := by
  cases status <;> cases other <;> rfl

theorem total_add (x : Statistics) (status : MessageStatus) (n : Nat) :
    (x.add status n).total = x.total + n := by
  cases status <;> rfl

/-- Whether two statistics say the same of types and times. -/
def SameOtherwise (x y : Statistics) : Prop :=
  x.byType = y.byType ∧ x.oldest = y.oldest ∧ x.newest = y.newest

theorem sameOtherwise_add (x : Statistics) (status : MessageStatus) (n : Nat) :
    (x.add status n).SameOtherwise x := by
  cases status <;> exact ⟨rfl, rfl, rfl⟩

end Statistics

/-- Counts the messages of the status with some name. -/
def countStatus (x : Statistics) (entry : String × Nat) : Except StorageFault Statistics := do
  let status ← column 0 MessageStatus.parse entry.1
  return x.add status entry.2

theorem countStatus_name (x : Statistics) (status : MessageStatus) (n : Nat) :
    countStatus x (status.name, n) = .ok (x.add status n) := by
  have hstatus : column 0 MessageStatus.parse status.name = .ok status :=
    column_eq_ok_iff.2 (named_eq_ok_iff.2 (MessageStatus.ofName?_name status))
  rw [countStatus, bind_eq_ok]
  exact ⟨status, hstatus, rfl⟩

/-- Names that are counted one after another, none of them twice, add up in the total, and each
status has the number that stands beside its name. -/
theorem exists_foldlM_countStatus {entries : List (String × Nat)}
    (hnames : ∀ e ∈ entries, ∃ status : MessageStatus, status.name = e.1)
    (hdistinct : (entries.map (·.1)).Nodup) (start : Statistics) :
    ∃ x, entries.foldlM countStatus start = .ok x ∧
      x.total = start.total + (entries.map (·.2)).sum ∧
      (∀ status : MessageStatus,
        x.count status = (entries.lookup status.name).getD (start.count status)) ∧
      x.SameOtherwise start := by
  induction entries generalizing start with
  | nil => exact ⟨start, rfl, rfl, fun _ => rfl, rfl, rfl, rfl⟩
  | cons e entries ih =>
    obtain ⟨⟨status, hstatus⟩, hnamesRest⟩ := List.forall_mem_cons.1 hnames
    rw [List.map_cons, List.nodup_cons] at hdistinct
    obtain ⟨name, n⟩ := e
    obtain rfl : status.name = name := hstatus
    obtain ⟨x, hx, htotal, hcount, hsame⟩ := ih hnamesRest hdistinct.2 (start.add status n)
    have hrest := start.sameOtherwise_add status n
    refine ⟨x, ?_, ?_, fun other => ?_, hsame.1.trans hrest.1, hsame.2.1.trans hrest.2.1,
      hsame.2.2.trans hrest.2.2⟩
    · rw [List.foldlM_cons, countStatus_name]
      exact hx
    · rw [htotal, Statistics.total_add, List.map_cons, List.sum_cons, Nat.add_assoc]
    · rw [hcount, Statistics.count_add, List.lookup_cons]
      split
      · -- the name does not stand in the rest
        rename_i hother
        subst hother
        have hnone : entries.lookup other.name = none := by
          rw [List.lookup_eq_none_iff]
          intro e he
          rw [bne_iff_ne]
          exact fun heq => hdistinct.1 (List.mem_map.2 ⟨e, he, heq.symm⟩)
        rw [hnone, beq_self_eq_true]
        rfl
      · rename_i hother
        rw [beq_false_of_ne fun heq => hother (MessageStatus.name_injective heq)]

end Mailroom
