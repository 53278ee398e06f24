/-
Texts that are brought to the form of an id.

Letters and digits stay, in small letters, and everything between two runs of them becomes one
hyphen. So what is left of a text are its runs, from left to right, with single hyphens between
them, and a text that has this form already stays as it is.

* `isIdChar_iff` — the characters that may stand in an id;
* `HasRuns` — the runs of a text, each as long as it can be;
* `exists_hyphenate_eq`, `trimHyphens_eq` — what becomes of the runs, and of hyphens at the ends;
* `sanitizeChars_of_hasRuns` — what is left of a text;
* `HasRuns.unique`, `hasRuns_joined` — a text has its runs only, and joined words are its runs;
* `sanitize_eq_iff` — the texts that are brought to a given word;
* `isWireSafe_sanitize` — what a text is brought to can travel;
* `alike_lowerFinal` — the form that a capital sigma takes does not matter;
* `sanitize_joins_runs` — what any text is brought to.
-/
import Mailroom.Envelope
import Mailroom.Identity
import Mathlib.Data.List.Forall2

namespace Mailroom

section

variable {cs ds word : List Char} {words runs : List (List Char)}

/-- The characters that may stand in an id are the small letters and the digits. -/
theorem isIdChar_iff {c : Char} :
    isIdChar c = true ↔ c ∈ "abcdefghijklmnopqrstuvwxyz0123456789".toList := by
  constructor
  · intro h
    have key : ∀ n < 128, isIdChar (Char.ofNat n) = true →
        Char.ofNat n ∈ "abcdefghijklmnopqrstuvwxyz0123456789".toList := by decide
    have hascii : c.toNat < 128 := by
      simp only [isIdChar, Bool.or_eq_true, Bool.and_eq_true, decide_eq_true_eq, Char.le_def,
        UInt32.le_iff_toNat_le] at h
      have hchar : c.val.toNat ≤ 122 ∨ c.val.toNat ≤ 57 := h.imp And.right And.right
      show c.val.toNat < 128
      omega
    have hc : Char.ofNat c.toNat = c := Char.ofNat_toNat c
    rw [← hc] at h ⊢
    exact key c.toNat hascii h
  · have hall : "abcdefghijklmnopqrstuvwxyz0123456789".toList.all isIdChar = true := by decide
    exact fun h => List.all_eq_true.1 hall c h

/-- Hyphens alone. -/
def AreHyphens (cs : List Char) : Prop := ∀ c ∈ cs, c = '-'

/-- Characters that may all stand in an id. -/
def AreIdChars (cs : List Char) : Prop := ∀ c ∈ cs, isIdChar c = true

/-- Characters none of which may stand in an id. -/
def AreOthers (cs : List Char) : Prop := ∀ c ∈ cs, isIdChar c = false

theorem ne_of_isIdChar {c d : Char} (hc : isIdChar c = true) (hd : isIdChar d = false) :
    c ≠ d := by
  rintro rfl
  exact absurd hc (by rw [hd]; decide)

theorem ne_hyphen_of_isIdChar {c : Char} (h : isIdChar c = true) : c ≠ '-' :=
  ne_of_isIdChar h rfl

/-! ### Runs -/

/-- Whether a text begins with a character that may stand in an id. -/
def StartsRun (cs : List Char) : Prop := ∃ c ∈ cs.head?, isIdChar c = true

/-- The runs of characters that may stand in an id, from left to right. No run could be longer:
before and behind it stands another character, or the text ends. -/
inductive HasRuns : List Char → List (List Char) → Prop
  | nil : HasRuns [] []
  | other {c : Char} {cs : List Char} {runs : List (List Char)} (hc : isIdChar c = false)
      (h : HasRuns cs runs) : HasRuns (c :: cs) runs
  | run {c : Char} {word rest : List Char} {runs : List (List Char)} (hc : isIdChar c = true)
      (hword : AreIdChars word) (hend : ¬ StartsRun rest) (h : HasRuns rest runs) :
      HasRuns (c :: (word ++ rest)) ((c :: word) :: runs)

/-- Words whose characters may all stand in an id. -/
def AreWords (words : List (List Char)) : Prop := ∀ word ∈ words, word ≠ [] ∧ AreIdChars word

theorem exists_hasRuns (cs : List Char) : ∃ runs, HasRuns cs runs := by
  induction cs with
  | nil => exact ⟨[], .nil⟩
  | cons c cs ih =>
    obtain ⟨runs, h⟩ := ih
    cases hc : isIdChar c with
    | false => exact ⟨runs, .other hc h⟩
    | true =>
      cases h with
      | nil => exact ⟨[[c]], .run hc (List.forall_mem_nil _) (by simp [StartsRun]) .nil⟩
      | other hother h =>
        exact ⟨[c] :: runs, .run hc (List.forall_mem_nil _) (by simp [StartsRun, hother])
          (.other hother h)⟩
      | @run d word rest runs hd hword hend h =>
        -- the first run begins one place earlier
        exact ⟨(c :: d :: word) :: runs, .run hc (List.forall_mem_cons.2 ⟨hd, hword⟩) hend h⟩

theorem HasRuns.areWords (h : HasRuns cs runs) : AreWords runs := by
  induction h with
  | nil => exact List.forall_mem_nil _
  | other _ _ ih => exact ih
  | run hc hword _ _ ih =>
    exact List.forall_mem_cons.2
      ⟨⟨List.cons_ne_nil _ _, List.forall_mem_cons.2 ⟨hc, hword⟩⟩, ih⟩

theorem hasRuns_nil_iff : HasRuns cs [] ↔ AreOthers cs := by
  induction cs with
  | nil => exact iff_of_true .nil (List.forall_mem_nil _)
  | cons c cs ih =>
    rw [AreOthers, List.forall_mem_cons, ← AreOthers, ← ih]
    constructor
    · rintro ⟨⟩
      exact ⟨‹_›, ‹_›⟩
    · exact fun h => .other h.1 h.2

theorem hasRuns_others_append (hcs : AreOthers cs) (h : HasRuns ds runs) :
    HasRuns (cs ++ ds) runs := by
  induction cs with
  | nil => exact h
  | cons c cs ih =>
    obtain ⟨hc, hcs⟩ := List.forall_mem_cons.1 hcs
    exact .other hc (ih hcs)

/-- A text has one run if there is nothing around it that may stand in an id. -/
theorem hasRuns_singleton_iff (hne : word ≠ []) (hword : AreIdChars word) :
    HasRuns cs [word] ↔ ∃ front back, cs = front ++ word ++ back ∧ AreOthers front ∧
      AreOthers back := by
  constructor
  · intro h
    induction cs with
    | nil => cases h
    | cons c cs ih =>
      cases h with
      | other hc h =>
        obtain ⟨front, back, rfl, hfront, hback⟩ := ih h
        exact ⟨c :: front, back, rfl, List.forall_mem_cons.2 ⟨hc, hfront⟩, hback⟩
      | run hc _ _ h => exact ⟨[], _, rfl, List.forall_mem_nil _, hasRuns_nil_iff.1 h⟩
  · rintro ⟨front, back, rfl, hfront, hback⟩
    obtain ⟨c, word, rfl⟩ := List.exists_cons_of_ne_nil hne
    obtain ⟨hc, hword⟩ := List.forall_mem_cons.1 hword
    have hend : ¬ StartsRun back := by
      rintro ⟨d, hd, hid⟩
      exact absurd hid (by simp [hback d (List.mem_of_mem_head? hd)])
    rw [List.append_assoc]
    exact hasRuns_others_append hfront (.run hc hword hend (hasRuns_nil_iff.2 hback))

/-! ### Joined words -/

/-- Words with one hyphen between any two of them. -/
def joined (words : List (List Char)) : List Char := ['-'].intercalate words

theorem joined_cons_cons (v w : List Char) (words : List (List Char)) :
    joined (v :: w :: words) = v ++ '-' :: joined (w :: words) := by
  rw [joined, List.intercalate_cons_cons, List.append_assoc]
  rfl

theorem joined_singleton (word : List Char) : joined [word] = word := List.intercalate_singleton

theorem mem_joined {c : Char} (hwords : AreWords words) (h : c ∈ joined words) :
    isIdChar c = true ∨ c = '-' := by
  induction words with
  | nil => exact absurd h List.not_mem_nil
  | cons w words ih =>
    obtain ⟨⟨-, hw⟩, hwords⟩ := List.forall_mem_cons.1 hwords
    cases words with
    | nil =>
      rw [joined_singleton] at h
      exact .inl (hw c h)
    | cons v words =>
      rw [joined_cons_cons, List.mem_append, List.mem_cons] at h
      obtain h | h | h := h
      · exact .inl (hw c h)
      · exact .inr h
      · exact ih hwords h

theorem joined_eq_nil_iff (hwords : AreWords words) : joined words = [] ↔ words = [] := by
  cases words with
  | nil => exact iff_of_true rfl rfl
  | cons w words =>
    refine iff_of_false (fun h => ?_) (List.cons_ne_nil w words)
    cases words with
    | nil => exact (List.forall_mem_cons.1 hwords).1.1 (joined_singleton w ▸ h)
    | cons v words => simp [joined_cons_cons] at h

/-- Cutting at the hyphens gives the words back. -/
theorem joined_injective {others : List (List Char)} (hwords : AreWords words)
    (hothers : AreWords others) (h : joined words = joined others) : words = others := by
  have hcut : ∀ {l : List (List Char)}, AreWords l → l ≠ [] → (joined l).splitOn '-' = l :=
    fun hl hne => List.splitOn_intercalate '-'
      (fun word hword hmem => ne_hyphen_of_isIdChar ((hl word hword).2 _ hmem) rfl) hne
  by_cases hnil : words = []
  · rw [hnil] at h ⊢
    exact ((joined_eq_nil_iff hothers).1 h.symm).symm
  · have hnil' : others ≠ [] := fun heq =>
      hnil ((joined_eq_nil_iff hwords).1 (h.trans ((joined_eq_nil_iff hothers).2 heq)))
    rw [← hcut hwords hnil, h, hcut hothers hnil']

theorem head?_joined (hwords : AreWords words) : (joined words).head? ≠ some '-' := by
  cases words with
  | nil => exact nofun
  | cons w words =>
    obtain ⟨⟨hne, hw⟩, -⟩ := List.forall_mem_cons.1 hwords
    obtain ⟨c, w, rfl⟩ := List.exists_cons_of_ne_nil hne
    have hc : some c ≠ some '-' := fun h =>
      ne_hyphen_of_isIdChar (hw c List.mem_cons_self) (Option.some.inj h)
    cases words with
    | nil => exact hc
    | cons v words => exact hc

theorem getLast?_joined (hwords : AreWords words) : (joined words).getLast? ≠ some '-' := by
  induction words with
  | nil => exact nofun
  | cons w words ih =>
    obtain ⟨⟨-, hw⟩, hrest⟩ := List.forall_mem_cons.1 hwords
    cases words with
    | nil =>
      rw [joined_singleton]
      exact fun h => ne_hyphen_of_isIdChar (hw _ (List.mem_of_getLast? h)) rfl
    | cons v words =>
      have hne : joined (v :: words) ≠ [] := fun h =>
        List.cons_ne_nil v words ((joined_eq_nil_iff hrest).1 h)
      rw [joined_cons_cons, List.getLast?_append_of_ne_nil _ (List.cons_ne_nil _ _),
        List.getLast?_cons_of_ne_nil hne]
      exact ih hrest

/-- Joined words are the runs of the text that they make. -/
theorem hasRuns_joined (hwords : AreWords words) : HasRuns (joined words) words := by
  induction words with
  | nil => exact .nil
  | cons w words ih =>
    obtain ⟨⟨hne, hw⟩, hrest⟩ := List.forall_mem_cons.1 hwords
    obtain ⟨c, w, rfl⟩ := List.exists_cons_of_ne_nil hne
    obtain ⟨hc, hw⟩ := List.forall_mem_cons.1 hw
    cases words with
    | nil =>
      have h : HasRuns (c :: (w ++ [])) [c :: w] := .run hc hw (by simp [StartsRun]) .nil
      rw [List.append_nil] at h
      rwa [joined_singleton]
    | cons v words =>
      rw [joined_cons_cons]
      exact .run hc hw (by simp [StartsRun, isIdChar]) (.other rfl (ih hrest))

/-! ### Hyphens for what is between the runs -/

theorem areHyphens_hyphenate (inRun : Bool) (h : AreOthers cs) :
    AreHyphens (hyphenate inRun cs) := by
  induction cs generalizing inRun with
  | nil => exact List.forall_mem_nil _
  | cons c cs ih =>
    obtain ⟨hc, hcs⟩ := List.forall_mem_cons.1 h
    rw [hyphenate, hc, if_neg Bool.false_ne_true]
    split
    · exact ih _ hcs
    · exact List.forall_mem_cons.2 ⟨rfl, ih _ hcs⟩

theorem hyphenate_word (hword : AreIdChars word) (rest : List Char) :
    hyphenate false (word ++ rest) = word ++ hyphenate false rest := by
  induction word with
  | nil => rfl
  | cons c word ih =>
    obtain ⟨hc, hword⟩ := List.forall_mem_cons.1 hword
    rw [List.cons_append, hyphenate, if_pos hc, ih hword]
    rfl

/-- The hyphen that stands before the first run, unless there is one already, or the text begins
with the run. -/
def frontHyphen (inRun : Bool) (cs : List Char) : List Char :=
  if inRun || cs.head?.any isIdChar then [] else ['-']

theorem areHyphens_frontHyphen (inRun : Bool) (cs : List Char) :
    AreHyphens (frontHyphen inRun cs) := by
  rw [frontHyphen]
  split
  · exact List.forall_mem_nil _
  · exact List.forall_mem_cons.2 ⟨rfl, List.forall_mem_nil _⟩

/-- The runs are joined by single hyphens; others may be left at the ends. -/
theorem exists_hyphenate_eq (h : HasRuns cs runs) (hne : runs ≠ []) (inRun : Bool) :
    ∃ after, hyphenate inRun cs = frontHyphen inRun cs ++ joined runs ++ after ∧
      AreHyphens after := by
  induction h generalizing inRun with
  | nil => exact absurd rfl hne
  | @other c cs runs hc h ih =>
    obtain ⟨after, heq, hafter⟩ := ih hne true
    refine ⟨after, ?_, hafter⟩
    rw [hyphenate, hc, if_neg Bool.false_ne_true, heq]
    cases inRun <;> simp [frontHyphen, hc]
  | @run c word rest runs hc hword hend h ih =>
    have hfront : frontHyphen inRun (c :: (word ++ rest)) = [] := by simp [frontHyphen, hc]
    have hrun : hyphenate inRun (c :: (word ++ rest)) = c :: word ++ hyphenate false rest := by
      rw [hyphenate, if_pos hc, hyphenate_word hword]
      rfl
    rw [hfront, hrun, List.nil_append]
    cases runs with
    | nil =>
      rw [joined_singleton]
      exact ⟨_, rfl, areHyphens_hyphenate _ (hasRuns_nil_iff.1 h)⟩
    | cons v runs =>
      -- something stands between this run and the next one
      obtain ⟨after, heq, hafter⟩ := ih (List.cons_ne_nil v runs) false
      have hbetween : frontHyphen false rest = ['-'] := by
        refine if_neg fun hany => hend ?_
        rw [Bool.false_or, Option.any_eq_true] at hany
        exact hany
      refine ⟨after, ?_, hafter⟩
      rw [heq, hbetween, joined_cons_cons, List.append_assoc, List.append_assoc]
      rfl

theorem dropWhile_hyphens {hyphens rest : List Char} (h : AreHyphens hyphens) :
    (hyphens ++ rest).dropWhile (· == '-') = rest.dropWhile (· == '-') :=
  List.dropWhile_append_of_pos fun c hc => beq_iff_eq.2 (h c hc)

theorem dropWhile_eq_self (h : cs.head? ≠ some '-') : cs.dropWhile (· == '-') = cs := by
  cases cs with
  | nil => rfl
  | cons c cs =>
    have hc : (c == '-') = false := beq_false_of_ne fun heq => h (congrArg some heq)
    rw [List.dropWhile_cons, hc]
    rfl

/-- Hyphens around a text that neither begins nor ends with one are taken away. -/
theorem trimHyphens_eq (cs : List Char) {before after : List Char} (hhead : cs.head? ≠ some '-')
    (hlast : cs.getLast? ≠ some '-') (hbefore : AreHyphens before) (hafter : AreHyphens after) :
    trimHyphens (before ++ cs ++ after) = cs := by
  have hafter' : AreHyphens after.reverse := fun c hc => hafter c (List.mem_reverse.1 hc)
  have hback : (after.reverse ++ cs.reverse).dropWhile (· == '-') = cs.reverse := by
    rw [dropWhile_hyphens hafter', dropWhile_eq_self (List.head?_reverse ▸ hlast)]
  rw [trimHyphens, List.append_assoc, dropWhile_hyphens hbefore]
  by_cases hnil : cs = []
  · rw [hnil, List.nil_append, ← List.append_nil after, dropWhile_hyphens hafter]
    rfl
  · have hhead' : (cs ++ after).head? ≠ some '-' := by
      rwa [List.head?_append_of_ne_nil _ hnil]
    rw [dropWhile_eq_self hhead', List.reverse_append, hback, List.reverse_reverse]

theorem trimHyphens_hyphenate (h : HasRuns cs runs) :
    trimHyphens (hyphenate false cs) = joined runs := by
  by_cases hnil : runs = []
  · subst hnil
    have hhyphens := areHyphens_hyphenate false (hasRuns_nil_iff.1 h)
    exact trimHyphens_eq [] nofun nofun (List.forall_mem_nil _) hhyphens
  · obtain ⟨after, heq, hafter⟩ := exists_hyphenate_eq h hnil false
    rw [heq]
    exact trimHyphens_eq _ (head?_joined h.areWords) (getLast?_joined h.areWords)
      (areHyphens_frontHyphen false _) hafter

/-- What is left of a text are its runs in small letters, joined by single hyphens. -/
theorem sanitizeChars_of_hasRuns (h : HasRuns (Text.lower cs) runs) :
    sanitizeChars cs = joined runs :=
  trimHyphens_hyphenate h

theorem HasRuns.unique {others : List (List Char)} (h : HasRuns cs runs) (h' : HasRuns cs others) :
    runs = others :=
  joined_injective h.areWords h'.areWords
    ((trimHyphens_hyphenate h).symm.trans (trimHyphens_hyphenate h'))

/-! ### One word -/

/-- A text is brought to a word if it is this word in small letters, with nothing before and after
it that may stand in an id. -/
theorem sanitizeChars_eq_iff (hne : word ≠ []) (hword : AreIdChars word) :
    sanitizeChars cs = word ↔
      ∃ front back, Text.lower cs = front ++ word ++ back ∧ AreOthers front ∧ AreOthers back := by
  have hone : AreWords [word] := List.forall_mem_singleton.2 ⟨hne, hword⟩
  rw [← hasRuns_singleton_iff hne hword]
  constructor
  · intro h
    obtain ⟨runs, hruns⟩ := exists_hasRuns (Text.lower cs)
    rw [sanitizeChars_of_hasRuns hruns, ← joined_singleton word] at h
    rwa [joined_injective hruns.areWords hone h] at hruns
  · intro h
    rw [sanitizeChars_of_hasRuns h, joined_singleton]

end

/-- Whether a text says a word, with nothing around it that may stand in an id. -/
def SaysOnly (word text : String) : Prop :=
  ∃ front back, Text.lower text.toList = front ++ word.toList ++ back ∧ AreOthers front ∧
    AreOthers back

theorem sanitize_eq_iff {word text : String} (hne : word ≠ "") (hword : AreIdChars word.toList) :
    sanitize text = word ↔ SaysOnly word text := by
  have hchars : word.toList ≠ [] := fun h => hne (String.toList_inj.1 h)
  rw [SaysOnly, ← sanitizeChars_eq_iff hchars hword, sanitize]
  constructor
  · rintro rfl
    exact String.toList_ofList.symm
  · intro h
    rw [h, String.ofList_toList]

theorem isWireSafe_sanitize (s : String) : isWireSafe (sanitize s) = true := by
  obtain ⟨runs, h⟩ := exists_hasRuns (Text.lower s.toList)
  rw [isWireSafe, sanitize, String.toList_ofList, sanitizeChars_of_hasRuns h, List.all_eq_true]
  intro c hc
  rw [Bool.and_eq_true, Bool.and_eq_true, bne_iff_ne, bne_iff_ne, bne_iff_ne]
  rcases mem_joined h.areWords hc with hid | rfl
  · exact ⟨⟨ne_of_isIdChar hid rfl, ne_of_isIdChar hid rfl⟩, ne_of_isIdChar hid rfl⟩
  · decide

/-! ### Small letters -/

section

variable {cs ds word rest : List Char} {runs : List (List Char)}

/-- Two characters that are the same, or that may both not stand in an id. -/
def Alike (c d : Char) : Prop := c = d ∨ isIdChar c = false ∧ isIdChar d = false

theorem Alike.isIdChar_eq {c d : Char} (h : Alike c d) : isIdChar c = isIdChar d := by
  obtain rfl | ⟨hc, hd⟩ := h
  · rfl
  · rw [hc, hd]

theorem Alike.eq {c d : Char} (h : Alike c d) (hc : isIdChar c = true) : c = d :=
  h.resolve_right fun hother => absurd hc (by rw [hother.1]; decide)

theorem exists_append_of_alike (hword : AreIdChars word)
    (h : List.Forall₂ Alike (word ++ rest) ds) :
    ∃ rest', ds = word ++ rest' ∧ List.Forall₂ Alike rest rest' := by
  induction word generalizing ds with
  | nil => exact ⟨ds, rfl, h⟩
  | cons c word ih =>
    obtain ⟨hc, hword⟩ := List.forall_mem_cons.1 hword
    obtain ⟨d, ds', hd, hrest, rfl⟩ := List.forall₂_cons_left_iff.1 h
    obtain ⟨rest', rfl, hrest'⟩ := ih hword hrest
    exact ⟨rest', by rw [hd.eq hc]; rfl, hrest'⟩

theorem startsRun_congr (h : List.Forall₂ Alike cs ds) : StartsRun cs ↔ StartsRun ds := by
  cases h with
  | nil => exact Iff.rfl
  | cons hcd _ => simp [StartsRun, hcd.isIdChar_eq]

/-- Texts that differ in other characters only have the same runs. -/
theorem HasRuns.of_alike (h : HasRuns cs runs) (halike : List.Forall₂ Alike cs ds) :
    HasRuns ds runs := by
  induction h generalizing ds with
  | nil =>
    cases halike
    exact .nil
  | other hc _ ih =>
    obtain ⟨d, ds', hd, hrest, rfl⟩ := List.forall₂_cons_left_iff.1 halike
    exact .other (hd.isIdChar_eq ▸ hc) (ih hrest)
  | run hc hword hend _ ih =>
    obtain ⟨d, ds', hd, hrest, rfl⟩ := List.forall₂_cons_left_iff.1 halike
    obtain ⟨rest', rfl, hrest'⟩ := exists_append_of_alike hword hrest
    obtain rfl := hd.eq hc
    exact .run hc hword (mt (startsRun_congr hrest').2 hend) (ih hrest')

/-- The lower case of a text in which a capital sigma takes its final form where `ends` says that
a word ends, by what stands before (backwards) and behind. -/
def lowerFinal (ends : List Char → List Char → Bool) (before : List Char) : List Char → List Char
  | [] => []
  | c :: rest =>
    (if c = 'Σ' ∧ ends before rest then ['ς'] else Text.lowerChar c) ++
      lowerFinal ends (c :: before) rest

theorem alike_lowerFinal (ends : List Char → List Char → Bool) (before cs : List Char) :
    List.Forall₂ Alike (Text.lower cs) (lowerFinal ends before cs) := by
  induction cs generalizing before with
  | nil => exact .nil
  | cons c cs ih =>
    refine List.rel_append ?_ (ih (c :: before))
    split
    · rename_i hfinal
      have hsigma : Text.lowerChar 'Σ' = ['σ'] := by decide
      rw [hfinal.1, hsigma]
      exact .cons (.inr ⟨by decide, by decide⟩) .nil
    · exact List.forall₂_same.2 fun d _ => .inl rfl

theorem lowerChar_of_isIdChar {c : Char} (h : isIdChar c = true ∨ c = '-') :
    Text.lowerChar c = [c] := by
  have hall : "abcdefghijklmnopqrstuvwxyz0123456789-".toList.all
      (fun d => Text.lowerChar d == [d]) = true := by decide
  refine beq_iff_eq.1 (List.all_eq_true.1 hall c ?_)
  obtain h | rfl := h
  · exact List.mem_append_left ['-'] (isIdChar_iff.1 h)
  · decide

theorem lower_eq_self (h : ∀ c ∈ cs, isIdChar c = true ∨ c = '-') : Text.lower cs = cs := by
  induction cs with
  | nil => rfl
  | cons c cs ih =>
    obtain ⟨hc, hcs⟩ := List.forall_mem_cons.1 h
    rw [Text.lower, List.flatMap_cons, lowerChar_of_isIdChar hc]
    exact congrArg (c :: ·) (ih hcs)

/-- The texts that stay as they are are words with single hyphens between them. -/
theorem sanitizeChars_eq_self_iff :
    sanitizeChars cs = cs ↔ ∃ words, AreWords words ∧ joined words = cs := by
  constructor
  · intro h
    obtain ⟨runs, hruns⟩ := exists_hasRuns (Text.lower cs)
    exact ⟨runs, hruns.areWords, (sanitizeChars_of_hasRuns hruns).symm.trans h⟩
  · rintro ⟨words, hwords, rfl⟩
    refine sanitizeChars_of_hasRuns ?_
    rw [lower_eq_self fun c hc => mem_joined hwords hc]
    exact hasRuns_joined hwords

end

/-! ### Any text -/

theorem sanitize_eq_self_iff {s : String} :
    sanitize s = s ↔ ∃ words, AreWords words ∧ joined words = s.toList := by
  rw [← sanitizeChars_eq_self_iff, sanitize]
  constructor
  · intro h
    rw [← String.toList_inj, String.toList_ofList] at h
    exact h
  · intro h
    rw [h, String.ofList_toList]

theorem toList_intercalate (words : List (List Char)) :
    ("-".intercalate (words.map String.ofList)).toList = joined words := by
  have hback : String.toList ∘ String.ofList = id := funext fun _ => String.toList_ofList
  rw [String.toList_intercalate, List.map_map, hback, List.map_id]
  rfl

/-- What a text is brought to are the runs of its lower case, each as long as it can be, joined by
single hyphens in their order, whatever form the capital sigmas take. Nothing is left if the lower
case has no character that may stand in an id, and what is left stays as it is from then on. -/
theorem sanitize_joins_runs (raw : String) (ends : List Char → List Char → Bool) :
    ∃ runs, (∀ other, HasRuns (lowerFinal ends [] raw.toList) other ↔ other = runs) ∧
      AreWords runs ∧
      sanitize raw = "-".intercalate (runs.map String.ofList) ∧
      (sanitize raw = "" ↔ AreOthers (lowerFinal ends [] raw.toList)) ∧
      sanitize (sanitize raw) = sanitize raw := by
  obtain ⟨runs, hlower⟩ := exists_hasRuns (Text.lower raw.toList)
  have hruns : HasRuns (lowerFinal ends [] raw.toList) runs :=
    hlower.of_alike (alike_lowerFinal ends [] raw.toList)
  have hwords := hruns.areWords
  have hchars : (sanitize raw).toList = joined runs := by
    rw [sanitize, String.toList_ofList, sanitizeChars_of_hasRuns hlower]
  refine ⟨runs, fun other => ⟨fun h => h.unique hruns, fun h => h ▸ hruns⟩, hwords, ?_, ?_, ?_⟩
  · rw [← String.toList_inj, hchars, toList_intercalate]
  · rw [← String.toList_inj, hchars, ← hasRuns_nil_iff]
    refine (joined_eq_nil_iff hwords).trans ⟨fun h => h ▸ hruns, fun h => hruns.unique h⟩
  · exact sanitize_eq_self_iff.2 ⟨runs, hwords, hchars.symm⟩

/-- Capitals count as the letters that they are, and a capital sigma as none in either form. -/
theorem sanitize_joins_runs_feature :
    sanitize "--Feature/Σ/X--" = "feature-x" ∧
      (∀ runs, HasRuns (lowerFinal (fun _ _ => true) [] "--Feature/Σ/X--".toList) runs ↔
        runs = ["feature".toList, "x".toList]) ∧
      sanitize (sanitize "--Feature/Σ/X--") = "feature-x" := by
  have htext : sanitize "--Feature/Σ/X--" = "feature-x" := by decide
  have hones : AreWords ["feature".toList, "x".toList] :=
    List.forall_mem_cons.2 ⟨⟨by decide, List.all_eq_true.1 (by decide)⟩,
      List.forall_mem_singleton.2 ⟨by decide, List.all_eq_true.1 (by decide)⟩⟩
  obtain ⟨runs, hruns, hwords, hjoined, -, hself⟩ :=
    sanitize_joins_runs "--Feature/Σ/X--" (fun _ _ => true)
  have heq : runs = ["feature".toList, "x".toList] := by
    refine joined_injective hwords hones ?_
    rw [← toList_intercalate runs, ← hjoined, htext]
    rfl
  exact ⟨htext, fun other => heq ▸ hruns other, hself.trans htext⟩

end Mailroom
