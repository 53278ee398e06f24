/-
Which numbers of days come to a pruning.

They come from the command line or from the settings, and there from the settings file or from
the environment. Everywhere a number of days is one of 32 bits; only the settings refuse zero.

* `exists_days?_iff` — the numbers that can be written on a command line;
* `Settings.check_eq_ok_iff`, `load_eq_ok_iff` — what settings have to be and go through;
* `pruneDays_of_load` — the number in the settings that a home folder has;
* `exists_load_iff` — every number but zero is the one of some settings.
-/
import Mailroom.CommandLine.Words
import Mailroom.Proofs.EnvelopeLine
import Mailroom.Proofs.Outcome
import Mailroom.Proofs.Text.Numeral
import Mailroom.Proofs.Transport.Stream
import Mailroom.Settings

namespace Mailroom

/-! ### The command line -/

theorem days?_toDigits {n : Nat} (h : n ≤ Text.maxWord) :
    CommandLine.days? (Nat.toDigits 10 n) = some n := by
  unfold CommandLine.days?
  split
  · rename_i rest hrest
    exact absurd (congrArg List.head? hrest) (Text.head?_toDigits_ne (by decide) n)
  · exact Text.unsigned?_toDigits h

theorem exists_days?_iff {n : Nat} :
    (∃ cs, CommandLine.days? cs = some n) ↔ n ≤ Text.maxWord := by
  constructor
  · rintro ⟨cs, h⟩
    unfold CommandLine.days? at h
    split at h
    · -- with a minus sign it is zero
      obtain rfl := beq_iff_eq.1 (Option.filter_eq_some_iff.1 h).2
      exact Nat.zero_le _
    · exact Text.le_of_unsigned? h
  · exact fun h => ⟨_, days?_toDigits h⟩

/-! ### The settings -/

theorem asWord_le {v : Json.Value} {n : Nat} (h : Json.asWord v = .ok n) : n ≤ Text.maxWord := by
  cases v with
  | integer i =>
    rw [Json.asWord] at h
    split at h
    · rename_i hbounds
      obtain rfl := Except.ok.inj h
      omega
    · exact absurd h (by simp)
  | _ => exact absurd h (by simp [Json.asWord])

theorem pruneDays_of_ofValue {v : Json.Value} {s : Settings} (h : Settings.ofValue v = .ok s) :
    s.pruneDays ≤ Text.maxWord := by
  simp only [Settings.ofValue, bind_eq_ok, pure_eq_ok] at h
  obtain ⟨r, -, agentId, -, transport, -, days, hdays, memory, -, legacy, -, simplex, -, matrix, -,
    rfl⟩ := h
  rw [Json.Record.withDefault] at hdays
  split at hdays
  · exact asWord_le hdays
  · obtain rfl := Except.ok.inj hdays
    show Settings.default.pruneDays ≤ Text.maxWord
    decide

theorem pruneDays_of_readSettings {content : String} {s : Settings}
    (h : Config.readSettings content = .ok s) : s.pruneDays ≤ Text.maxWord := by
  rw [Config.readSettings] at h
  split at h
  · exact absurd h (by simp)
  · split at h
    · exact absurd h (by simp)
    · rename_i hread
      obtain rfl := Except.ok.inj h
      exact pruneDays_of_ofValue hread

theorem pruneDays_of_overlay {s s' : Settings} {lookup : String → Option String}
    (h : s.overlay lookup = .ok s') (hs : s.pruneDays ≤ Text.maxWord) :
    s'.pruneDays ≤ Text.maxWord := by
  unfold Settings.overlay at h
  simp only [] at h
  split at h
  · obtain rfl := Except.ok.inj h
    exact hs
  · split at h
    · rename_i hread
      obtain rfl := Except.ok.inj h
      exact Text.le_of_unsigned? hread
    · exact absurd h (by simp [bind, Except.bind])

/-- What settings have to be. -/
theorem Settings.check_eq_ok_iff {s : Settings} : s.check = .ok () ↔
    (∃ sel, Selector.ofName? s.transport = some sel) ∧ 1 ≤ s.pruneDays ∧
      ∀ id, s.agentId = some id → isWireSafe id = true := by
  rw [Settings.check, Settings.selector]
  cases htransport : Selector.ofName? s.transport with
  | none => exact ⟨nofun, fun h => absurd h.1 nofun⟩
  | some sel =>
    by_cases hzero : s.pruneDays = 0
    · rw [if_pos hzero]
      exact ⟨nofun, fun h => absurd h.2.1 (by omega)⟩
    · rw [if_neg hzero]
      have hdays : 1 ≤ s.pruneDays := Nat.one_le_iff_ne_zero.2 hzero
      cases hid : s.agentId with
      | none => exact ⟨fun _ => ⟨⟨sel, rfl⟩, hdays, nofun⟩, fun _ => rfl⟩
      | some id =>
        show (if (!isWireSafe id) = true then .error (.unsafeAgentId id) else .ok ()) =
          (.ok () : Except ConfigFault Unit) ↔ _
        cases hsafe : isWireSafe id with
        | true => exact ⟨fun _ => ⟨⟨sel, rfl⟩, hdays, fun _ hother => Option.some.inj hother ▸ hsafe⟩,
            fun _ => rfl⟩
        | false => exact ⟨nofun, fun h => absurd (hsafe.symm.trans (h.2.2 id rfl)) nofun⟩

/-- The settings in the file of a home folder. -/
def storedSettings (home : String) (w : Surroundings) : Except Error Settings :=
  if w.isThere (PathText.join home "settings.json") then
    match w.readText (PathText.join home "settings.json") with
    | .error e => .error (.file e)
    | .ok content => Config.readSettings content
  else .ok .default

/-- All that a configuration goes through. -/
theorem load_eq (home : String) (w : Surroundings) : Config.load home w = (do
    let stored ← storedSettings home w
    let settings ← (stored.overlay w.environmentValue?).mapError Error.config
    settings.check.mapError Error.config
    return ⟨home, settings⟩) := by
  unfold Config.load storedSettings
  by_cases hthere : w.isThere (PathText.join home "settings.json") = true
  · rw [if_pos hthere, if_pos hthere]
    cases w.readText (PathText.join home "settings.json") <;> rfl
  · rw [if_neg hthere, if_neg hthere]

theorem load_eq_ok_iff {home : String} {w : Surroundings} {c : Config} :
    Config.load home w = .ok c ↔ ∃ stored settings, storedSettings home w = .ok stored ∧
      stored.overlay w.environmentValue? = .ok settings ∧ settings.check = .ok () ∧
      ⟨home, settings⟩ = c := by
  rw [load_eq]
  simp only [bind_eq_ok, pure_eq_ok, mapError_eq_ok]
  constructor
  · rintro ⟨stored, hstored, settings, hover, ⟨⟩, hcheck, hc⟩
    exact ⟨stored, settings, hstored, hover, hcheck, hc⟩
  · rintro ⟨stored, settings, hstored, hover, hcheck, hc⟩
    exact ⟨stored, hstored, settings, hover, (), hcheck, hc⟩

theorem pruneDays_of_storedSettings {home : String} {w : Surroundings} {s : Settings}
    (h : storedSettings home w = .ok s) : s.pruneDays ≤ Text.maxWord := by
  rw [storedSettings] at h
  split at h
  · split at h
    · exact absurd h (by simp)
    · exact pruneDays_of_readSettings h
  · obtain rfl := Except.ok.inj h
    decide

theorem pruneDays_of_load {home : String} {w : Surroundings} {c : Config}
    (h : Config.load home w = .ok c) :
    1 ≤ c.settings.pruneDays ∧ c.settings.pruneDays ≤ Text.maxWord := by
  obtain ⟨stored, settings, hstored, hover, hcheck, rfl⟩ := load_eq_ok_iff.1 h
  exact ⟨(Settings.check_eq_ok_iff.1 hcheck).2.1,
    pruneDays_of_overlay hover (pruneDays_of_storedSettings hstored)⟩

/-! ### Settings with a given number -/

theorem nonBlank?_toString (n : Nat) : Text.nonBlank? (some (toString n)) = some (toString n) := by
  have hdigits : ∀ c ∈ (toString n).toList, c.isDigit = true := by
    rw [Nat.toString_eq_repr, Nat.toList_repr]
    exact fun c hc => Nat.isDigit_of_mem_toDigits (by decide) (by decide) hc
  have htrim : Text.trimmed (toString n) = toString n := by
    rw [Text.trimmed, Text.trim_eq_self, String.ofList_toList]
    · exact fun c hc => Text.isBlank_of_isDigit (hdigits c (List.mem_of_head? hc))
    · exact fun c hc => Text.isBlank_of_isDigit (hdigits c (List.mem_of_getLast? hc))
  have hsome : (toString n).isEmpty = false := by
    rw [Nat.toString_eq_repr, String.isEmpty_eq_false_iff]
    intro hempty
    have hnil := congrArg String.toList hempty
    rw [Nat.toList_repr] at hnil
    exact absurd hnil (by simp)
  rw [Text.nonBlank?, Option.map_some, htrim, Option.filter_some, hsome]
  rfl

/-- Surroundings with nothing but an environment that gives the number of days. -/
def withPruneDays (n : Nat) : Surroundings :=
  { Surroundings.bare with environment := [("AGENT_MAIL_PRUNE_DAYS", toString n)] }

theorem environmentValue?_withPruneDays (n : Nat) (name : String) :
    (withPruneDays n).environmentValue? name =
      if name = "AGENT_MAIL_PRUNE_DAYS" then some (toString n) else none := by
  by_cases hname : name = "AGENT_MAIL_PRUNE_DAYS"
  · rw [if_pos hname, hname]
    rfl
  · rw [if_neg hname, Surroundings.environmentValue?, withPruneDays,
      List.find?_cons_of_neg (by simpa using Ne.symm hname)]
    rfl

theorem load_withPruneDays {n : Nat} (hpos : 1 ≤ n) (hle : n ≤ Text.maxWord) :
    Config.load "home" (withPruneDays n) =
      .ok ⟨"home", { Settings.default with pruneDays := n }⟩ := by
  have hover : Settings.default.overlay (withPruneDays n).environmentValue? =
      .ok { Settings.default with pruneDays := n } := by
    have hread : Text.unsigned? Text.maxWord (toString n).toList = some n := by
      rw [Nat.toString_eq_repr, Nat.toList_repr, Text.unsigned?_toDigits hle]
    have hblank : Text.nonBlank? none = none := rfl
    simp only [Settings.overlay, environmentValue?_withPruneDays, nonBlank?_toString, hread, hblank,
      String.reduceEq, if_true, if_false]
    rfl
  have hcheck : Settings.check { Settings.default with pruneDays := n } = .ok () := by
    simp only [Settings.check, if_neg (show n ≠ 0 by omega)]
    rfl
  have hfile : (withPruneDays n).isThere (PathText.join "home" "settings.json") = false := by
    simp only [Surroundings.isThere, Surroundings.node?, Surroundings.locate, withPruneDays]
    decide
  refine load_eq_ok_iff.2 ⟨_, _, ?_, hover, hcheck, rfl⟩
  rw [storedSettings, hfile]
  rfl

theorem exists_load_iff {n : Nat} :
    (∃ home w c, Config.load home w = .ok c ∧ c.settings.pruneDays = n) ↔
      1 ≤ n ∧ n ≤ Text.maxWord := by
  constructor
  · rintro ⟨home, w, c, h, rfl⟩
    exact pruneDays_of_load h
  · rintro ⟨hpos, hle⟩
    exact ⟨_, _, _, load_withPruneDays hpos hle, rfl⟩

end Mailroom
