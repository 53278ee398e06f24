/-
Addresses of the web hold marks only where their parts meet.

What is read from a text is encoded, so that no slash, question mark or number sign is left in it,
and a host holds none of them from the beginning. Therefore every address of the web is read as it
was written.

* `ne_marks_of_eq_true` — characters with a property that no mark has;
* `hasNoMarks_encode`, `hasNoMarks_toDigits` — what texts and numbers are written as;
* `hasNoMarks_host`, `hasNoMarks_authority` — hosts and authorities;
* `mem_resolve`, `hasNoMarks_segmentsOf` — the segments of a path;
* `isClear_of_parse` — whole addresses.
-/
import Mailroom.Proofs.Outcome
import Mailroom.Proofs.Text.Percent
import Mailroom.Proofs.Url.Written
import Mailroom.Url.Parser

namespace Mailroom

namespace Url

/-! ### Encoded texts and numbers -/

theorem ne_of_hexDigit {n : Nat} (h : n < 16) : Text.Percent.hexDigit n ≠ '/' ∧
    Text.Percent.hexDigit n ≠ '?' ∧ Text.Percent.hexDigit n ≠ '#' := by
  have key : ∀ n < 16, Text.Percent.hexDigit n ≠ '/' ∧ Text.Percent.hexDigit n ≠ '?' ∧
      Text.Percent.hexDigit n ≠ '#' := by decide
  exact key n h

theorem ne_marks_of_eq_true {p : Char → Bool} (h : p '/' = false ∧ p '?' = false ∧ p '#' = false)
    {c : Char} (hc : p c = true) : c ≠ '/' ∧ c ≠ '?' ∧ c ≠ '#' := by
  obtain ⟨hslash, hquestion, hnumber⟩ := h
  refine ⟨?_, ?_, ?_⟩
  · rintro rfl
    exact Bool.false_ne_true (hslash.symm.trans hc)
  · rintro rfl
    exact Bool.false_ne_true (hquestion.symm.trans hc)
  · rintro rfl
    exact Bool.false_ne_true (hnumber.symm.trans hc)

theorem hasNoMarks_encode {keep : Char → Bool} {cs : List Char}
    (hkeep : ∀ c ∈ cs, keep c = true → c ≠ '/' ∧ c ≠ '?' ∧ c ≠ '#') :
    HasNoMarks (Text.Percent.encode keep cs) := by
  intro c hc
  obtain ⟨hmem, hkept⟩ | rfl | ⟨n, hn, rfl⟩ := Text.Percent.mem_encode hc
  · exact hkeep c hmem hkept
  · decide
  · exact ne_of_hexDigit hn

theorem hasNoMarks_toDigits {base : Nat} (hlow : 1 < base) (hhigh : base ≤ 16) (n : Nat) :
    HasNoMarks (Nat.toDigits base n) := by
  have hdigit : ∀ n < base, HasNoMarks [Nat.digitChar n] := by
    have key : ∀ n < 16, Nat.digitChar n ≠ '/' ∧ Nat.digitChar n ≠ '?' ∧
        Nat.digitChar n ≠ '#' := by decide
    intro n hn c hc
    rw [List.mem_singleton.1 hc]
    exact key n (by omega)
  induction n using Nat.strongRecOn with
  | _ n ih =>
    rcases Nat.lt_or_ge n base with hlt | hle
    · rw [Nat.toDigits_of_lt_base hlt]
      exact hdigit n hlt
    · rw [Nat.toDigits_of_base_le hlow hle]
      exact (ih _ (Nat.div_lt_self (by omega) hlow)).append
        (hdigit _ (Nat.mod_lt n (by omega)))

theorem hasNoMarks_intercalate {sep : Char} {parts : List (List Char)} (hsep : HasNoMarks [sep])
    (hparts : ∀ part ∈ parts, HasNoMarks part) : HasNoMarks ([sep].intercalate parts) := by
  intro c hc
  by_cases heq : c = sep
  · exact hsep c (List.mem_singleton.2 heq)
  · obtain ⟨part, hpart, hmem⟩ := (Text.mem_intercalate heq).1 hc
    exact hparts part hpart c hmem

/-! ### Users and hosts -/

theorem hasNoMarks_userinfoText (cs : List Char) : HasNoMarks (userinfoText cs).toList := by
  have hwritten : ∀ cs, HasNoMarks (Text.Percent.encode userKeep cs) :=
    fun cs => hasNoMarks_encode fun c _ => ne_marks_of_eq_true (by decide)
  have hcolon : HasNoMarks [':'] := by decide
  rw [userinfoText, String.toList_ofList]
  split
  · exact hwritten _
  · exact (hwritten _).append (hcolon.append (hwritten _))

theorem hasNoMarks_ipv4 (numbers : List Nat) : HasNoMarks (Host.ipv4 numbers).render.toList := by
  rw [Host.render, String.toList_intercalate, List.map_map]
  refine hasNoMarks_intercalate (by decide : HasNoMarks ['.']) ?_
  rw [List.forall_mem_map]
  intro n _
  show HasNoMarks (toString n).toList
  rw [Nat.toString_eq_repr, Nat.toList_repr]
  exact hasNoMarks_toDigits (by decide) (by decide) n

theorem hasNoMarks_ipv6 (pieces : List Nat) : HasNoMarks (Host.ipv6 pieces).render.toList := by
  have hhex : ∀ ps : List Nat, HasNoMarks
      (":".intercalate (ps.map fun p => String.ofList (Nat.toDigits 16 p))).toList := by
    intro ps
    rw [String.toList_intercalate, List.map_map]
    refine hasNoMarks_intercalate (by decide : HasNoMarks [':']) ?_
    rw [List.forall_mem_map]
    intro n _
    show HasNoMarks (String.ofList (Nat.toDigits 16 n)).toList
    rw [String.toList_ofList]
    exact hasNoMarks_toDigits (by decide) (by decide) n
  have hcolons : HasNoMarks "::".toList := by decide
  have htext : HasNoMarks (ipv6Text pieces).toList := by
    rw [ipv6Text]
    dsimp only
    split
    · exact hhex pieces
    · rw [String.toList_append, String.toList_append]
      exact ((hhex _).append hcolons).append (hhex _)
  have hopening : HasNoMarks "[".toList := by decide
  have hclosing : HasNoMarks "]".toList := by decide
  rw [Host.render, String.toList_append, String.toList_append]
  exact (hopening.append htext).append hclosing

theorem hasNoMarks_of_domainToAscii? {name ascii : List Char}
    (h : domainToAscii? name = some ascii) : HasNoMarks ascii := by
  simp only [domainToAscii?, Option.bind_eq_bind, Option.bind_eq_some_iff] at h
  obtain ⟨labels, -, h⟩ := h
  split at h
  · exact absurd h nofun
  · rename_i hallowed
    obtain rfl := Option.some.inj h
    rw [Bool.not_eq_true, List.any_eq_false] at hallowed
    intro c hc
    have hmarks : (!isForbidden '/') = false ∧ (!isForbidden '?') = false ∧
        (!isForbidden '#') = false := by decide
    exact ne_marks_of_eq_true (p := (!isForbidden ·)) hmarks (by simpa using hallowed c hc)

theorem hasNoMarks_host {cs : List Char} {host : Host} (h : Host.parse cs = .ok host) :
    HasNoMarks host.render.toList := by
  unfold Host.parse at h
  split at h
  · -- an address in brackets
    rw [Host.bracketed] at h
    split at h
    · exact absurd h nofun
    · split at h
      · obtain rfl := Except.ok.inj h
        exact hasNoMarks_ipv6 _
      · exact absurd h nofun
  · split at h
    · split at h
      · rename_i ascii hascii
        dsimp only at h
        split at h
        · exact absurd h nofun
        · split at h
          · split at h
            · obtain rfl := Except.ok.inj h
              exact hasNoMarks_ipv4 _
            · exact absurd h nofun
          · obtain rfl := Except.ok.inj h
            rw [Host.render, String.toList_ofList]
            exact hasNoMarks_of_domainToAscii? hascii
      · exact absurd h nofun
    · exact absurd h nofun

/-! ### Authorities -/

theorem toList_text_authority (a : Authority) :
    a.text.toList = a.userinfo.toList ++ (if a.userinfo.isEmpty then "" else "@").toList ++
      a.host.render.toList ++ (match a.port with
        | some p => ":" ++ toString p
        | none => "").toList := by
  rw [Authority.text, String.toList_ofList, Authority.render]
  simp only [String.toList_append]
  rfl

theorem hasNoMarks_authority {scheme : String} {followed : Bool} {cs : List Char} {a : Authority}
    (hspecial : isSpecial scheme = true) (h : readAuthority scheme followed cs = .ok a) :
    HasNoMarks a.text.toList := by
  unfold readAuthority at h
  dsimp only at h
  split at h
  · exact absurd h nofun
  · split at h
    · exact absurd h nofun
    · simp only [bind_eq_ok, pure_eq_ok] at h
      obtain ⟨host, hhost, port, -, rfl⟩ := h
      have hat : HasNoMarks (if (userinfoText ((cutLastAt? cs).getD ([], cs)).fst).isEmpty then ""
          else "@").toList := by
        split <;> decide
      have hport : HasNoMarks (match port with
          | some p => ":" ++ toString p
          | none => "").toList := by
        cases port with
        | none => exact List.forall_mem_nil _
        | some p =>
          have hcolon : HasNoMarks ":".toList := by decide
          rw [String.toList_append, Nat.toString_eq_repr, Nat.toList_repr]
          exact hcolon.append (hasNoMarks_toDigits (by decide) (by decide) p)
      rw [toList_text_authority]
      exact (((hasNoMarks_userinfoText _).append hat).append (hasNoMarks_host hhost)).append hport

/-! ### Paths -/

theorem climb_subset (done : List String) : climb done ⊆ done := by
  cases done with
  | nil => exact List.Subset.refl _
  | cons s rest =>
    rw [climb]
    split
    · exact List.Subset.refl _
    · exact List.subset_cons_self s rest

/-- Carrying out steps adds no segment but an empty one. -/
theorem mem_resolve {scheme : String} (hscheme : scheme ≠ "file") {done rest : List String}
    {part : String} (h : part ∈ resolve scheme done rest) :
    part = "" ∨ part ∈ done ∨ part ∈ rest := by
  have hplaced : ∀ done s, placed scheme done s = s := fun done s => if_neg fun h => hscheme h.1
  fun_induction resolve scheme done rest with
  | case1 done => exact .inr (.inl (List.mem_reverse.1 h))
  | case2 done last hup =>
    rw [List.mem_reverse, List.mem_cons] at h
    exact h.imp_right fun h => .inl (climb_subset done h)
  | case3 done last hup hhere =>
    rw [List.mem_reverse, List.mem_cons] at h
    exact h.imp_right .inl
  | case4 done last hup hhere =>
    rw [List.mem_reverse, List.mem_cons, hplaced] at h
    rcases h with rfl | h
    · exact .inr (.inr (List.mem_singleton_self _))
    · exact .inr (.inl h)
  | case5 done s rest hne hup ih =>
    rcases ih h with h | h | h
    · exact .inl h
    · exact .inr (.inl (climb_subset done h))
    · exact .inr (.inr (List.mem_cons_of_mem s h))
  | case6 done s rest hne hup hhere ih =>
    exact (ih h).imp_right (.imp_right (List.mem_cons_of_mem s))
  | case7 done s rest hne hup hhere ih =>
    rcases ih h with h | h | h
    · exact .inl h
    · rw [hplaced, List.mem_cons] at h
      rcases h with rfl | h
      · exact .inr (.inr List.mem_cons_self)
      · exact .inr (.inl h)
    · exact .inr (.inr (List.mem_cons_of_mem s h))

theorem resolve_ne_nil {scheme : String} {done rest : List String} (hne : rest ≠ []) :
    resolve scheme done rest ≠ [] := by
  fun_induction resolve scheme done rest with
  | case1 => exact absurd rfl hne
  | case2 => simp
  | case3 => simp
  | case4 => simp
  | case5 _ _ _ hrest _ ih => exact ih hrest
  | case6 _ _ _ hrest _ _ ih => exact ih hrest
  | case7 _ _ _ hrest _ _ ih => exact ih hrest

theorem hasNoMarks_segmentsOf {scheme : String} (hscheme : scheme ≠ "file") {cs : List Char} :
    ∀ part ∈ segmentsOf scheme cs, HasNoMarks part.toList := by
  intro part hpart
  rcases mem_resolve hscheme hpart with rfl | hdone | hread
  · exact List.forall_mem_nil _
  · exact absurd hdone List.not_mem_nil
  · obtain ⟨piece, hpiece, rfl⟩ := List.mem_map.1 hread
    rw [String.toList_ofList]
    refine hasNoMarks_encode fun c hc hkept => ⟨?_, ?_, ?_⟩
    · -- the slashes are where the path was cut
      rintro rfl
      have hslash := Text.forall_mem_splitOnP hpiece '/' hc
      exact absurd hslash (by simp [isSlash])
    all_goals
      rintro rfl
      exact absurd hkept (by decide)

/-! ### Whole addresses -/

/-- Whether an address is one of the web. -/
def IsWeb (u : Url) : Prop := u.scheme = "http" ∨ u.scheme = "https"

section

variable {u : Url}

theorem IsWeb.isSpecial (h : u.IsWeb) : Url.isSpecial u.scheme = true := by
  rcases h with h | h
  all_goals
    rw [h]
    decide

theorem IsWeb.ne_file (h : u.IsWeb) : u.scheme ≠ "file" := by
  rcases h with h | h
  all_goals
    rw [h]
    decide

theorem scheme_of_parseFile {cs : List Char} (h : parseFile cs = .ok u) : u.scheme = "file" := by
  unfold parseFile at h
  dsimp only at h
  split at h
  all_goals
    simp only [bind_eq_ok, pure_eq_ok] at h
    obtain ⟨host, -, rfl⟩ := h
    rfl

theorem scheme_of_parseSpecial {scheme : String} {cs : List Char}
    (h : parseSpecial scheme cs = .ok u) : u.scheme = scheme := by
  unfold parseSpecial at h
  simp only [bind_eq_ok, pure_eq_ok] at h
  obtain ⟨a, -, rfl⟩ := h
  rfl

theorem scheme_of_parsePlain {scheme : String} {cs : List Char} (h : parsePlain scheme cs = .ok u) :
    u.scheme = scheme := by
  unfold parsePlain at h
  dsimp only at h
  split at h
  · simp only [bind_eq_ok, pure_eq_ok] at h
    obtain ⟨a, -, rfl⟩ := h
    rfl
  · rw [← Except.ok.inj h]
  · rw [← Except.ok.inj h]

/-- An address of the web was read by the rules of its scheme. -/
theorem parseSpecial_of_parse {s : String} (h : Url.parse s = .ok u) (hweb : u.IsWeb) :
    ∃ cs, parseSpecial u.scheme cs = .ok u := by
  unfold Url.parse at h
  dsimp only at h
  split at h
  · rename_i scheme rest _
    split at h
    · exact absurd (scheme_of_parseFile h) hweb.ne_file
    · split at h
      · exact ⟨rest, (scheme_of_parseSpecial h).symm ▸ h⟩
      · rename_i hplain
        exact absurd (scheme_of_parsePlain h ▸ hweb.isSpecial) hplain
  · exact absurd h nofun

theorem pathAfterAuthority_ne_nil {scheme : String} (hspecial : Url.isSpecial scheme = true)
    (cs : List Char) : pathAfterAuthority scheme cs ≠ [] := by
  cases cs with
  | nil => simp [pathAfterAuthority, hspecial]
  | cons c rest =>
    refine resolve_ne_nil fun h => ?_
    exact List.splitOnP_ne_nil _ _ (List.map_eq_nil_iff.1 h)

theorem hasNoMarks_pathAfterAuthority {scheme : String} (hfile : scheme ≠ "file")
    (hspecial : Url.isSpecial scheme = true) (cs : List Char) :
    ∀ part ∈ pathAfterAuthority scheme cs, HasNoMarks part.toList := by
  cases cs with
  | nil =>
    rw [pathAfterAuthority, if_pos hspecial]
    exact List.forall_mem_singleton.2 (List.forall_mem_nil _)
  | cons c rest => exact hasNoMarks_segmentsOf hfile

/-- A query ends where the fragment begins. -/
theorem number_not_mem_query {special : Bool} {cs : List Char} {q : String}
    (h : (cutTail special cs).2.1 = some q) : '#' ∉ q.toList := by
  rw [cutTail] at h
  dsimp only at h
  split at h
  · exact absurd h nofun
  · rw [← Option.some.inj h, String.toList_ofList]
    intro hmem
    obtain ⟨-, hkept⟩ | heq | ⟨n, hn, heq⟩ := Text.Percent.mem_encode hmem
    · exact absurd hkept (by cases special <;> decide)
    · exact absurd heq (by decide)
    · exact (ne_of_hexDigit hn).2.2 heq.symm

/-- Marks stand in an address of the web only where its parts meet. -/
theorem isClear_of_parse {s : String} (h : Url.parse s = .ok u) (hweb : u.IsWeb) :
    ∃ a parts, u.IsClear a parts := by
  obtain ⟨cs, h⟩ := parseSpecial_of_parse h hweb
  have hspecial := hweb.isSpecial
  have hfile := hweb.ne_file
  have hscheme : HasNoMarks u.scheme.toList := by
    rcases hweb with hweb | hweb
    all_goals
      rw [hweb]
      decide
  unfold parseSpecial at h
  simp only [bind_eq_ok, pure_eq_ok] at h
  obtain ⟨a, ha, hu⟩ := h
  rw [← hu]
  exact ⟨a, _, rfl, rfl, pathAfterAuthority_ne_nil hspecial _, hscheme,
    hasNoMarks_authority hspecial ha, hasNoMarks_pathAfterAuthority hfile hspecial _,
    fun q hq => number_not_mem_query hq⟩

end

end Url

end Mailroom
