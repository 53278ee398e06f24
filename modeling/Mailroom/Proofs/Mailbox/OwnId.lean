/-
The id that an agent gives itself.

An agent that is given no id takes one from its branch, its folder or its process. What comes from
a branch or a folder is brought to the form of an id, and what the settings name has been checked,
so the id is never empty and can travel. But nothing keeps it from being the name for everyone: the
settings may name it, and so may a branch or a folder. Then the roster refuses the agent, and what
is sent to it goes to all.

* `idOfBranch?`, `idOfFolder?` — the ids that come from a branch and from a folder;
* `deriveAgentId_cases` — from where an id comes;
* `deriveAgentId_eq_everyone_iff` — when it is the name for everyone;
* `own_id_can_travel` — what this means for an agent with any configuration, anywhere;
* `branch_for_everyone` — an agent that the roster refuses.
-/
import Mailroom.Proofs.CommandLine.AdmittedDays
import Mailroom.Proofs.Mailbox.Broadcast
import Mailroom.Proofs.Mailbox.Letters
import Mailroom.Proofs.Sanitizing
import Mailroom.Proofs.Store.RosterSummary

namespace Mailroom

/-- The id that comes from a branch, unless the branch says nothing about who works on it. -/
def idOfBranch? (branch : Option String) : Option String :=
  (branch.filter fun b => !genericBranches.contains b).bind idIn?

/-- The id that comes from the name of a folder. -/
def idOfFolder? (folder : Option String) : Option String :=
  (folder.bind PathText.fileName?).bind idIn?

section

variable {given branch folder : Option String} {processId : Nat} {id : String}

theorem idIn?_eq_some_iff {s : String} : idIn? s = some id ↔ sanitize s = id ∧ id ≠ "" := by
  rw [idIn?, Option.filter_eq_some_iff, Option.some.injEq]
  refine and_congr_right ?_
  rintro rfl
  simp

theorem idIn?_eq_everyone_iff {s : String} : idIn? s = some everyone ↔ SaysOnly everyone s := by
  have hne : everyone ≠ "" := by decide
  have hword : ∀ c ∈ everyone.toList, isIdChar c = true := List.all_eq_true.1 (by decide)
  rw [idIn?_eq_some_iff, and_iff_left hne, sanitize_eq_iff hne hword]

theorem idOfBranch?_eq_some_iff : idOfBranch? branch = some id ↔
    ∃ b, branch = some b ∧ b ∉ genericBranches ∧ idIn? b = some id := by
  simp only [idOfBranch?, Option.bind_eq_some_iff, Option.filter_eq_some_iff, and_assoc,
    Bool.not_eq_true', List.contains_eq_mem, decide_eq_false_iff_not]

theorem idOfFolder?_eq_some_iff : idOfFolder? folder = some id ↔
    ∃ f name, folder = some f ∧ PathText.fileName? f = some name ∧ idIn? name = some id := by
  simp only [idOfFolder?, Option.bind_eq_some_iff]
  constructor
  · rintro ⟨name, ⟨f, hf, hname⟩, hid⟩
    exact ⟨f, name, hf, hname, hid⟩
  · rintro ⟨f, name, hf, hname, hid⟩
    exact ⟨name, ⟨f, hf, hname⟩, hid⟩

theorem deriveAgentId_eq (given branch folder : Option String) (processId : Nat) :
    deriveAgentId given branch folder processId =
      (((Text.nonBlank? given).or ((idOfBranch? branch).or (idOfFolder? folder))).getD
        ("agent-" ++ toString processId)) := rfl

/-- An id is the one given, or what a text was brought to, or that of a process. -/
theorem deriveAgentId_cases (given branch folder : Option String) (processId : Nat) :
    Text.nonBlank? given = some (deriveAgentId given branch folder processId) ∨
      (∃ s, idIn? s = some (deriveAgentId given branch folder processId)) ∨
      deriveAgentId given branch folder processId = "agent-" ++ toString processId := by
  rw [deriveAgentId_eq]
  cases Text.nonBlank? given with
  | some id => exact .inl rfl
  | none =>
    cases hbranch : idOfBranch? branch with
    | some id =>
      obtain ⟨b, -, -, hid⟩ := idOfBranch?_eq_some_iff.1 hbranch
      exact .inr (.inl ⟨b, hid⟩)
    | none =>
      cases hfolder : idOfFolder? folder with
      | some id =>
        obtain ⟨-, name, -, -, hid⟩ := idOfFolder?_eq_some_iff.1 hfolder
        exact .inr (.inl ⟨name, hid⟩)
      | none => exact .inr (.inr rfl)

theorem toList_processName (processId : Nat) :
    ("agent-" ++ toString processId).toList = "agent-".toList ++ Nat.toDigits 10 processId := by
  rw [String.toList_append, Nat.toString_eq_repr, Nat.toList_repr]

theorem deriveAgentId_ne_empty (given branch folder : Option String) (processId : Nat) :
    deriveAgentId given branch folder processId ≠ "" := by
  obtain h | ⟨s, h⟩ | h := deriveAgentId_cases given branch folder processId
  · exact ne_empty_of_nonBlank? h
  · exact (idIn?_eq_some_iff.1 h).2
  · rw [h]
    intro hempty
    have hnil := congrArg String.toList hempty
    rw [toList_processName] at hnil
    exact absurd hnil (by simp)

theorem isWireSafe_nonBlank? (hgiven : ∀ text, given = some text → isWireSafe text = true)
    (h : Text.nonBlank? given = some id) : isWireSafe id = true := by
  cases given with
  | none => exact absurd h nofun
  | some text =>
    obtain ⟨hid, -⟩ := Option.filter_eq_some_iff.1 h
    obtain rfl : Text.trimmed text = id := Option.some.inj hid
    rw [isWireSafe, Text.trimmed, String.toList_ofList, List.all_eq_true]
    exact fun c hc => List.all_eq_true.1 (hgiven text rfl) c (Text.trim_subset _ hc)

theorem isWireSafe_deriveAgentId (hgiven : ∀ text, given = some text → isWireSafe text = true)
    (branch folder : Option String) (processId : Nat) :
    isWireSafe (deriveAgentId given branch folder processId) = true := by
  obtain h | ⟨s, h⟩ | h := deriveAgentId_cases given branch folder processId
  · exact isWireSafe_nonBlank? hgiven h
  · obtain ⟨hid, -⟩ := idIn?_eq_some_iff.1 h
    rw [← hid]
    exact isWireSafe_sanitize s
  · rw [h, isWireSafe, toList_processName, List.all_append, Bool.and_eq_true]
    refine ⟨by decide, List.all_eq_true.2 fun c hc => ?_⟩
    -- a digit is none of the characters that cannot travel
    have hdigit : c.isDigit = true := Nat.isDigit_of_mem_toDigits (by decide) (by decide) hc
    have hne : ∀ d : Char, d.isDigit = false → c ≠ d := by
      rintro _ hd rfl
      exact absurd hdigit (by rw [hd]; decide)
    rw [Bool.and_eq_true, Bool.and_eq_true, bne_iff_ne, bne_iff_ne, bne_iff_ne]
    exact ⟨⟨hne _ rfl, hne _ rfl⟩, hne _ rfl⟩

/-- The id is the name for everyone if that is given, or if nothing is given and the branch says
it, or the folder where the branch gives no id. -/
theorem deriveAgentId_eq_everyone_iff : deriveAgentId given branch folder processId = everyone ↔
    Text.nonBlank? given = some everyone ∨ Text.nonBlank? given = none ∧
      ((∃ b, branch = some b ∧ b ∉ genericBranches ∧ SaysOnly everyone b) ∨
        idOfBranch? branch = none ∧ ∃ f name, folder = some f ∧
          PathText.fileName? f = some name ∧ SaysOnly everyone name) := by
  have hprocess : "agent-" ++ toString processId ≠ everyone := by
    intro h
    have hchars := congrArg String.toList h
    rw [toList_processName] at hchars
    exact absurd hchars (by simp [everyone])
  simp only [← idIn?_eq_everyone_iff, ← idOfBranch?_eq_some_iff, ← idOfFolder?_eq_some_iff]
  rw [deriveAgentId_eq]
  cases Text.nonBlank? given with
  | some id => simp
  | none =>
    cases idOfBranch? branch with
    | some id => simp
    | none =>
      cases idOfFolder? folder with
      | some id => simp
      | none => simpa using hprocess

end

/-! ### An agent anywhere -/

theorem agentId_resolve (given : Option String) (w : Surroundings) :
    (Identity.resolve given w).1.agentId =
      deriveAgentId given (Identity.resolve given w).1.branch (Identity.resolve given w).1.worktree
        (Identity.resolve given w).2.processId := by
  unfold Identity.resolve
  cases w.folderPath? with
  | none => rfl
  | some folder => rfl

theorem isWireSafe_of_load {home : String} {w : Surroundings} {c : Config}
    (h : Config.load home w = .ok c) :
    ∀ text, c.settings.agentId = some text → isWireSafe text = true := by
  obtain ⟨stored, settings, -, -, hcheck, rfl⟩ := load_eq_ok_iff.1 h
  exact (Settings.check_eq_ok_iff.1 hcheck).2.2

/-- Whatever the configuration, the branch, the folder and the process, an agent that is given no id
has one that is there and can travel. It can stand on the roster, and what is sent to it is no
broadcast for that, unless the id is the name for everyone; which it is if the settings name it, or
if they name none and the branch says it, or the folder where the branch gives no id. -/
theorem own_id_can_travel {home : String} {w₀ : Surroundings} {c : Config}
    (hload : Config.load home w₀ = .ok c) {w : Surroundings} {i : Identity}
    (hi : (Identity.resolve c.settings.agentId w).1 = i) :
    i.agentId ≠ "" ∧ isWireSafe i.agentId = true ∧
      (i.agentId = everyone ↔
        Text.nonBlank? c.settings.agentId = some everyone ∨
        Text.nonBlank? c.settings.agentId = none ∧
          ((∃ b, i.branch = some b ∧ b ∉ genericBranches ∧ SaysOnly everyone b) ∨
            idOfBranch? i.branch = none ∧ ∃ f name, i.worktree = some f ∧
              PathText.fileName? f = some name ∧ SaysOnly everyone name)) ∧
      (∀ (b : Mailbox Surroundings) (r : Registration) (time : String) (s : Store),
        b.identity = i → Text.nonBlank? r.id = none →
          (i.agentId ≠ everyone → ∃ a, (b.register r time s).1 = .ok a) ∧
          (i.agentId = everyone → b.register r time s =
            (.error (.input (.badAgentId everyone)), s))) ∧
      ∀ l : Letter, l.recipient = i.agentId →
        (l.isBroadcast = true ↔ i.agentId = everyone ∨ l.type = .broadcast) := by
  have hid : i.agentId = deriveAgentId c.settings.agentId i.branch i.worktree
      (Identity.resolve c.settings.agentId w).2.processId := by
    rw [← hi]
    exact agentId_resolve c.settings.agentId w
  have hsafe : isWireSafe i.agentId = true := by
    rw [hid]
    exact isWireSafe_deriveAgentId (isWireSafe_of_load hload) ..
  refine ⟨?_, hsafe, ?_, fun b r time s hb hr => ⟨fun hne => ?_, fun heq => ?_⟩, fun l hl => ?_⟩
  · rw [hid]
    exact deriveAgentId_ne_empty _ _ _ _
  · rw [hid]
    exact deriveAgentId_eq_everyone_iff
  · have hown : b.idOr r.id = i.agentId := by rw [Mailbox.idOr, hr, hb]; rfl
    have henrollable : isEnrollable (b.idOr r.id) = true := by
      rw [hown, isEnrollable, hsafe, Bool.and_true]
      exact bne_iff_ne.2 hne
    exact (perform_register s time henrollable).1
  · have hown : b.idOr r.id = everyone := by rw [Mailbox.idOr, hr, hb, ← heq]; rfl
    rw [Mailbox.register, hown]
    rfl
  · rw [Letter.isBroadcast_iff, hl]

/-! ### On a branch -/

/-- A program that prints a line. -/
def printing (line : String) : Contents :=
  .program fun _ => ⟨0, Text.encodeUtf8 (line ++ "\n"), []⟩

/-- An agent at work in a folder, on a branch. -/
def onBranch (branch : String) : Surroundings :=
  { Surroundings.bare with
    tree := ⟨[(["bin"], .folder), (["bin", "git"], .file ⟨printing branch, 0⟩),
      (["work"], .folder)]⟩
    folder := ["work"]
    searchPath := ["/bin"] }

/-- A mailbox of an agent that has no transports. -/
def mailboxOf (i : Identity) : Mailbox Surroundings := ⟨i, .empty, .here, none⟩

/-- What an agent says that says nothing about itself. -/
def Registration.plain : Registration := ⟨none, none, none, none⟩

theorem own_id_can_travel_login :
    Config.load "home" .bare = .ok ⟨"home", .default⟩ ∧
      (Identity.resolve none (onBranch "Feature/Login")).1 =
        ⟨"feature-login", some "Feature/Login", some "/work"⟩ ∧
      ∃ a, ((mailboxOf ⟨"feature-login", some "Feature/Login", some "/work"⟩).register .plain
        "2025-01-01T00:00:00.000Z" .empty).1 = .ok a := by
  have hload : Config.load "home" .bare = .ok ⟨"home", .default⟩ := by rfl
  have hi : (Identity.resolve none (onBranch "Feature/Login")).1 =
      ⟨"feature-login", some "Feature/Login", some "/work"⟩ := by decide +kernel
  obtain ⟨-, -, -, hregister, -⟩ := own_id_can_travel hload hi
  refine ⟨hload, hi, ?_⟩
  exact (hregister (mailboxOf _) .plain "2025-01-01T00:00:00.000Z" .empty rfl rfl).1 (by decide)

/-- On a branch `all`, an agent is everyone; the roster refuses it, and a request to it is a
broadcast. -/
theorem branch_for_everyone :
    Config.load "home" .bare = .ok ⟨"home", .default⟩ ∧
      (Identity.resolve Settings.default.agentId (onBranch "all")).1 =
        ⟨everyone, some "all", some "/work"⟩ ∧
      (mailboxOf ⟨everyone, some "all", some "/work"⟩).register .plain
        "2025-01-01T00:00:00.000Z" .empty =
          (.error (.input (.badAgentId everyone)), .empty) ∧
      (Letter.mk everyone "b" .request .normal noConvoy "hello" .here).isBroadcast = true := by
  refine ⟨by rfl, by decide +kernel, rfl, rfl⟩

end Mailroom
