import Relay.Text.Plain

/-!
The string operations and the letter case. An operation that looks for
characters without a case, or for a class that has both cases of a letter, can
be made before or after a text is brought into lower case.
-/

namespace Relay.Text

/-! ### Characters -/

/-- Neither a capital nor a small letter. -/
def Caseless (c : Char) : Prop := c.isUpper = false ∧ c.isLower = false

instance (c : Char) : Decidable (Caseless c) :=
  inferInstanceAs (Decidable (c.isUpper = false ∧ c.isLower = false))

theorem isLower_toLower_of_isUpper {c : Char} (h : c.isUpper = true) :
    c.toLower.isLower = true := by
  obtain ⟨hlo, hhi, hlower⟩ := toNat_toLower_of_isUpper h
  rw [isLower_iff]
  omega

theorem Caseless.toLower_eq {c d : Char} (h : Caseless c) : d.toLower = c ↔ d = c := by
  cases hupper : d.isUpper with
  | false => rw [toLower_of_not_isUpper hupper]
  | true =>
      constructor
      · rintro rfl
        have hlower := h.2
        rw [isLower_toLower_of_isUpper hupper] at hlower
        cases hlower
      · rintro rfl
        have hsame := h.1
        rw [hupper] at hsame
        cases hsame

theorem Caseless.toLower_self {c : Char} (h : Caseless c) : c.toLower = c :=
  h.toLower_eq.mpr rfl

theorem Caseless.beq_toLower {c : Char} (h : Caseless c) (d : Char) :
    (d.toLower == c) = (d == c) := by
  rw [Bool.eq_iff_iff, beq_iff_eq, beq_iff_eq, h.toLower_eq]

theorem forall_caseless {cs : List Char} (h : (cs.all fun c => decide (Caseless c)) = true) :
    ∀ c ∈ cs, Caseless c := by simpa using h

/-- A test does not tell the cases of a letter apart. -/
def CaseBlind (p : Char → Bool) : Prop := ∀ c, p c.toLower = p c

theorem CaseBlind.comp {p : Char → Bool} (h : CaseBlind p) : p ∘ Char.toLower = p :=
  funext h

theorem Caseless.caseBlind {c : Char} (h : Caseless c) : CaseBlind (· == c) :=
  h.beq_toLower

theorem Caseless.caseBlind_ne {c : Char} (h : Caseless c) :
    CaseBlind fun d => decide (d ≠ c) := by
  intro d
  simp only [ne_eq, h.toLower_eq]

theorem caseBlind_contains {cs : List Char} (h : ∀ c ∈ cs, Caseless c) :
    CaseBlind cs.contains := by
  intro d
  rw [Bool.eq_iff_iff, List.contains_iff_mem, List.contains_iff_mem]
  constructor
  · intro hmem
    have hself : d = d.toLower := (h d.toLower hmem).toLower_eq.mp rfl
    rwa [← hself] at hmem
  · intro hmem
    rwa [(h d hmem).toLower_self]

/-- A test that no letter passes. -/
theorem caseBlind_of_not_letter {p : Char → Bool}
    (h : ∀ c, c.isUpper = true ∨ c.isLower = true → p c = false) : CaseBlind p := by
  intro c
  cases hupper : c.isUpper with
  | false => rw [toLower_of_not_isUpper hupper]
  | true => rw [h c (Or.inl hupper), h c.toLower (Or.inr (isLower_toLower_of_isUpper hupper))]

theorem caseBlind_isWhitespace : CaseBlind isWhitespace := by
  apply caseBlind_of_not_letter
  intro c hletter
  simp only [isUpper_iff, isLower_iff] at hletter
  unfold isWhitespace
  simp only [Bool.or_eq_false_iff, Bool.and_eq_false_iff, decide_eq_false_iff_not,
    beq_eq_false_iff_ne]
  omega

theorem caseBlind_isDigit : CaseBlind Char.isDigit := by
  apply caseBlind_of_not_letter
  intro c hletter
  simp only [isUpper_iff, isLower_iff] at hletter
  rw [← Bool.not_eq_true, isDigit_iff]
  omega

/-! ### Texts -/

@[simp] theorem toList_toAsciiLowercase (s : String) :
    (toAsciiLowercase s).toList = s.toList.map Char.toLower := by
  rw [toAsciiLowercase, String.toList_ofList]

theorem toAsciiLowercase_ofList (cs : List Char) :
    toAsciiLowercase (String.ofList cs) = String.ofList (cs.map Char.toLower) := by
  rw [toAsciiLowercase, String.toList_ofList]

theorem toAsciiLowercase_toAsciiLowercase (s : String) :
    toAsciiLowercase (toAsciiLowercase s) = toAsciiLowercase s :=
  toAsciiLowercase_eq_self (any_isUpper_toAsciiLowercase s)

theorem toAsciiLowercase_append (s t : String) :
    toAsciiLowercase (s ++ t) = toAsciiLowercase s ++ toAsciiLowercase t := by
  apply String.toList_injective
  simp

theorem toAsciiLowercase_eq_empty {s : String} : toAsciiLowercase s = "" ↔ s = "" := by
  rw [← String.toList_eq_nil_iff, toList_toAsciiLowercase, List.map_eq_nil_iff,
    String.toList_eq_nil_iff]

/-- A text is its own lower case only if it has no capital letters. -/
theorem toAsciiLowercase_eq_iff {s : String} :
    toAsciiLowercase s = s ↔ s.toList.any Char.isUpper = false := by
  constructor
  · intro h
    rw [← h]
    exact any_isUpper_toAsciiLowercase s
  · exact toAsciiLowercase_eq_self

theorem Caseless.mem_toAsciiLowercase {c : Char} (h : Caseless c) {s : String} :
    c ∈ (toAsciiLowercase s).toList ↔ c ∈ s.toList := by
  simp [h.toLower_eq]

theorem trimChars_map_toLower (cs : List Char) :
    trimChars (cs.map Char.toLower) = (trimChars cs).map Char.toLower := by
  simp only [trimChars, trimEndChars, trimStartChars, List.dropWhile_map,
    caseBlind_isWhitespace.comp, ← List.map_reverse]

theorem trim_toAsciiLowercase (s : String) :
    trim (toAsciiLowercase s) = toAsciiLowercase (trim s) := by
  rw [trim, trim, toList_toAsciiLowercase, toAsciiLowercase_ofList, trimChars_map_toLower]

theorem Caseless.trimEndMatches_toAsciiLowercase {c : Char} (h : Caseless c) (s : String) :
    trimEndMatches c (toAsciiLowercase s) = toAsciiLowercase (trimEndMatches c s) := by
  simp only [trimEndMatches, toList_toAsciiLowercase, toAsciiLowercase_ofList, ← List.map_reverse,
    List.dropWhile_map, h.caseBlind.comp]

theorem Caseless.beforeFirst_toAsciiLowercase {c : Char} (h : Caseless c) (s : String) :
    beforeFirst c (toAsciiLowercase s) = toAsciiLowercase (beforeFirst c s) := by
  simp only [beforeFirst, toList_toAsciiLowercase, toAsciiLowercase_ofList, List.takeWhile_map,
    h.caseBlind_ne.comp]

/-! ### Prefixes and parts -/

theorem stripPrefixChars_map_toLower {front : List Char} (h : ∀ c ∈ front, Caseless c)
    (cs : List Char) :
    stripPrefixChars front (cs.map Char.toLower) =
      (stripPrefixChars front cs).map (List.map Char.toLower) := by
  induction front generalizing cs with
  | nil => rfl
  | cons p front ih =>
      cases cs with
      | nil => rfl
      | cons c cs =>
          have hp := h p List.mem_cons_self
          have hiff : p = c.toLower ↔ p = c := by
            rw [eq_comm, hp.toLower_eq, eq_comm]
          rw [List.map_cons, stripPrefixChars, stripPrefixChars,
            ih fun d hd => h d (List.mem_cons_of_mem p hd)]
          simp only [hiff]
          split <;> rfl

theorem stripPrefix_toAsciiLowercase {front : String} (h : ∀ c ∈ front.toList, Caseless c)
    (s : String) :
    stripPrefix (toAsciiLowercase s) front = (stripPrefix s front).map toAsciiLowercase := by
  rw [stripPrefix, toList_toAsciiLowercase, stripPrefixChars_map_toLower h, stripPrefix,
    Option.map_map, Option.map_map]
  congr 1
  funext cs
  exact (toAsciiLowercase_ofList cs).symm

theorem startsWith_toAsciiLowercase {front : String} (h : ∀ c ∈ front.toList, Caseless c)
    (s : String) : startsWith (toAsciiLowercase s) front = startsWith s front := by
  rw [startsWith, toList_toAsciiLowercase, stripPrefixChars_map_toLower h, Option.isSome_map,
    startsWith]

theorem splitOnceChars_map_toLower {sep : List Char} (h : ∀ c ∈ sep, Caseless c)
    (cs : List Char) :
    splitOnceChars sep (cs.map Char.toLower) =
      (splitOnceChars sep cs).map (Prod.map (List.map Char.toLower) (List.map Char.toLower)) := by
  induction cs with
  | nil =>
      have hnil := stripPrefixChars_map_toLower h []
      rw [List.map_nil] at hnil ⊢
      rw [splitOnceChars]
      cases hstrip : stripPrefixChars sep [] with
      | none => rfl
      | some back =>
          rw [hstrip] at hnil
          have hback : back = back.map Char.toLower := Option.some.inj hnil
          simp only [Option.map_some, Prod.map, List.map_nil, ← hback]
  | cons c cs ih =>
      rw [List.map_cons, splitOnceChars, splitOnceChars, ← List.map_cons,
        stripPrefixChars_map_toLower h]
      cases stripPrefixChars sep (c :: cs) with
      | some back => rfl
      | none =>
          rw [Option.map_none, ih]
          cases splitOnceChars sep cs <;> rfl

theorem splitOnce_toAsciiLowercase {sep : String} (h : ∀ c ∈ sep.toList, Caseless c)
    (s : String) :
    splitOnce (toAsciiLowercase s) sep =
      (splitOnce s sep).map (Prod.map toAsciiLowercase toAsciiLowercase) := by
  rw [splitOnce, toList_toAsciiLowercase, splitOnceChars_map_toLower h, splitOnce]
  cases splitOnceChars sep.toList s.toList with
  | none => rfl
  | some parts => simp [Prod.map, toAsciiLowercase_ofList]

theorem contains_toAsciiLowercase {part : String} (h : ∀ c ∈ part.toList, Caseless c)
    (s : String) : contains (toAsciiLowercase s) part = contains s part := by
  rw [contains, toList_toAsciiLowercase, splitOnceChars_map_toLower h, Option.isSome_map,
    contains]

theorem splitOnP_map_toLower {p : Char → Bool} (h : CaseBlind p) (cs : List Char) :
    (cs.map Char.toLower).splitOnP p = (cs.splitOnP p).map (List.map Char.toLower) := by
  induction cs with
  | nil => rfl
  | cons c cs ih =>
      rw [List.map_cons, List.splitOnP_cons_eq_if_modifyHead, List.splitOnP_cons_eq_if_modifyHead,
        h c, ih]
      split
      · rfl
      · cases cs.splitOnP p <;> rfl

theorem Caseless.splitOn_map_toLower {c : Char} (h : Caseless c) (cs : List Char) :
    (cs.map Char.toLower).splitOn c = (cs.splitOn c).map (List.map Char.toLower) :=
  splitOnP_map_toLower h.caseBlind cs

theorem Caseless.splitChar_toAsciiLowercase {c : Char} (h : Caseless c) (s : String) :
    splitChar c (toAsciiLowercase s) = (splitChar c s).map toAsciiLowercase := by
  rw [splitChar, toList_toAsciiLowercase, h.splitOn_map_toLower, splitChar, List.map_map,
    List.map_map]
  congr 1
  funext cs
  exact (toAsciiLowercase_ofList cs).symm

theorem splitWhitespace_toAsciiLowercase (s : String) :
    splitWhitespace (toAsciiLowercase s) = (splitWhitespace s).map toAsciiLowercase := by
  have hfilter : ∀ parts : List (List Char),
      (parts.map (List.map Char.toLower)).filter (· ≠ []) =
        (parts.filter (· ≠ [])).map (List.map Char.toLower) := by
    intro parts
    rw [List.filter_map]
    congr 1
    apply List.filter_congr
    intro part _
    simp
  rw [splitWhitespace, toList_toAsciiLowercase, splitOnP_map_toLower caseBlind_isWhitespace,
    hfilter, splitWhitespace, List.map_map, List.map_map]
  congr 1
  funext cs
  exact (toAsciiLowercase_ofList cs).symm

end Relay.Text
