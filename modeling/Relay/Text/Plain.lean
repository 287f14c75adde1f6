import Mathlib.Data.List.DropRight
import Mathlib.Data.List.TakeWhile
import Relay.Text.Str
import Relay.Text.Utf8

/-!
What the string operations do with a text that has none of the characters they
look for, and with one that was put together from known parts.
-/

namespace Relay.Text

/-! ### Trimming -/

theorem dropWhile_eq_self {α : Type} {p : α → Bool} {xs : List α}
    (h : ∀ x ∈ xs.head?, p x = false) : xs.dropWhile p = xs := by
  cases xs with
  | nil => rfl
  | cons x xs =>
      have hx : ¬ p x = true := by simp [h x rfl]
      rw [List.dropWhile_cons, if_neg hx]

theorem not_isWhitespace_of_any {s : String} (h : s.toList.any isWhitespace = false) :
    ∀ c ∈ s.toList, isWhitespace c = false := by
  intro c hc
  rw [← Bool.not_eq_true]
  exact List.any_eq_false.mp h c hc

/-- A text without white space is not trimmed. -/
theorem trim_eq_self {s : String} (h : ∀ c ∈ s.toList, isWhitespace c = false) : trim s = s := by
  have hstart : s.toList.dropWhile isWhitespace = s.toList :=
    dropWhile_eq_self fun c hc => h c (List.mem_of_mem_head? hc)
  have hend : s.toList.reverse.dropWhile isWhitespace = s.toList.reverse :=
    dropWhile_eq_self fun c hc => h c (List.mem_reverse.mp (List.mem_of_mem_head? hc))
  rw [trim, trimChars, trimEndChars, trimStartChars, hstart, hend, List.reverse_reverse,
    String.ofList_toList]

theorem trimStartChars_append {front back : List Char} {c : Char} (h : isWhitespace c = false) :
    trimStartChars (front ++ c :: back) = trimStartChars front ++ c :: back := by
  induction front with
  | nil => exact dropWhile_eq_self fun d hd => Option.some.inj hd ▸ h
  | cons d front ih =>
      rw [List.cons_append, trimStartChars, trimStartChars, List.dropWhile_cons, List.dropWhile_cons]
      split
      · exact ih
      · rfl

theorem trimEndChars_append {front back : List Char} {c : Char} (h : isWhitespace c = false) :
    trimEndChars (front ++ c :: back) = front ++ c :: trimEndChars back := by
  have hstart : trimStartChars (back.reverse ++ c :: front.reverse) =
      trimStartChars back.reverse ++ c :: front.reverse := trimStartChars_append h
  rw [trimStartChars, trimStartChars] at hstart
  rw [trimEndChars, List.reverse_append, List.reverse_cons, List.append_assoc,
    List.singleton_append, hstart]
  simp [trimEndChars]

/-- A character that is no white space is in the way of both trims. -/
theorem trimChars_append {front back : List Char} {c : Char} (h : isWhitespace c = false) :
    trimChars (front ++ c :: back) = trimStartChars front ++ c :: trimEndChars back := by
  rw [trimChars, trimStartChars_append h, trimEndChars_append h]

theorem trimStartChars_eq_nil {cs : List Char} (h : ∀ c ∈ cs, isWhitespace c = true) :
    trimStartChars cs = [] :=
  List.dropWhile_eq_nil_iff.mpr h

theorem trimEndChars_eq_nil {cs : List Char} (h : ∀ c ∈ cs, isWhitespace c = true) :
    trimEndChars cs = [] := by
  have hstart : trimStartChars cs.reverse = [] :=
    trimStartChars_eq_nil fun c hc => h c (List.mem_reverse.mp hc)
  rw [trimEndChars, ← trimStartChars, hstart]
  rfl

theorem trimStartChars_trimStartChars (cs : List Char) :
    trimStartChars (trimStartChars cs) = trimStartChars cs := by
  rw [trimStartChars, trimStartChars, List.dropWhile_idempotent]

theorem trimEndChars_trimEndChars (cs : List Char) :
    trimEndChars (trimEndChars cs) = trimEndChars cs := by
  rw [trimEndChars, trimEndChars, List.reverse_reverse, List.dropWhile_idempotent]

theorem trimChars_trimStartChars (cs : List Char) :
    trimChars (trimStartChars cs) = trimChars cs := by
  rw [trimChars, trimChars, trimStartChars_trimStartChars]

/-- White space at the end does not matter to what is trimmed on both sides. -/
theorem trimChars_trimEndChars (cs : List Char) : trimChars (trimEndChars cs) = trimChars cs := by
  by_cases hall : ∀ c ∈ cs, isWhitespace c = true
  · rw [trimEndChars_eq_nil hall, trimChars, trimChars, trimStartChars_eq_nil hall]
    rfl
  · push Not at hall
    obtain ⟨c, hc, hspace⟩ := hall
    rw [ne_eq, Bool.not_eq_true] at hspace
    obtain ⟨front, back, rfl⟩ := List.append_of_mem hc
    rw [trimEndChars_append hspace, trimChars_append hspace, trimChars_append hspace,
      trimEndChars_trimEndChars]

theorem trimChars_trimChars (cs : List Char) : trimChars (trimChars cs) = trimChars cs := by
  rw [show trimChars cs = trimEndChars (trimStartChars cs) from rfl, trimChars_trimEndChars,
    trimChars_trimStartChars]
  rfl

/-- What is trimmed keeps every character that is no white space. -/
theorem mem_trimChars {cs : List Char} {c : Char} (h : isWhitespace c = false) :
    c ∈ trimChars cs ↔ c ∈ cs := by
  constructor
  · intro hmem
    have hstart : c ∈ trimStartChars cs := by
      apply List.mem_reverse.mp
      apply List.dropWhile_subset isWhitespace
      exact List.mem_reverse.mp hmem
    exact List.dropWhile_subset isWhitespace hstart
  · intro hmem
    obtain ⟨front, back, rfl⟩ := List.append_of_mem hmem
    rw [trimChars_append h]
    exact List.mem_append_right _ List.mem_cons_self

theorem trimEndMatches_eq_self {c : Char} {s : String} (h : s.toList.getLast? ≠ some c) :
    trimEndMatches c s = s := by
  have hend : s.toList.reverse.dropWhile (· == c) = s.toList.reverse := by
    apply dropWhile_eq_self
    intro d hd
    rw [List.head?_reverse] at hd
    rw [beq_eq_false_iff_ne]
    rintro rfl
    exact h hd
  rw [trimEndMatches, hend, List.reverse_reverse, String.ofList_toList]

/-- Only dots are trimmed from the end. -/
theorem toList_eq_trimEndDots_append (s : String) :
    ∃ dots, s.toList = (trimEndDots s).toList ++ dots ∧ ∀ c ∈ dots, c = '.' := by
  refine ⟨(s.toList.reverse.takeWhile (· == '.')).reverse, ?_, ?_⟩
  · rw [trimEndDots, String.toList_ofList, ← List.reverse_append, List.takeWhile_append_dropWhile,
      List.reverse_reverse]
  · intro c hc
    have hdot := List.mem_takeWhile_imp (List.mem_reverse.mp hc)
    simpa using hdot

theorem trimEndDots_trimEndDots (s : String) : trimEndDots (trimEndDots s) = trimEndDots s := by
  rw [trimEndDots, trimEndDots, String.toList_ofList, List.reverse_reverse,
    List.dropWhile_idempotent]

/-! ### Prefixes -/

theorem stripPrefixChars_append (front back : List Char) :
    stripPrefixChars front (front ++ back) = some back := by
  induction front with
  | nil => rfl
  | cons c front ih => rw [List.cons_append, stripPrefixChars, if_pos rfl, ih]

theorem stripPrefix_append (front back : String) : stripPrefix (front ++ back) front = some back := by
  rw [stripPrefix, String.toList_append, stripPrefixChars_append, Option.map_some,
    String.ofList_toList]

theorem stripPrefix_eq_some {s front rest : String} (h : stripPrefix s front = some rest) :
    s = front ++ rest := by
  obtain ⟨cs, hcs, rfl⟩ := Option.map_eq_some_iff.mp h
  apply String.toList_injective
  rw [stripPrefixChars_eq_some hcs, String.toList_append, String.toList_ofList]

theorem stripPrefixChars_eq_none {p : Char} {ps cs : List Char} (h : cs.head? ≠ some p) :
    stripPrefixChars (p :: ps) cs = none := by
  cases cs with
  | nil => rfl
  | cons c cs =>
      have hne : p ≠ c := by
        rintro rfl
        exact h rfl
      rw [stripPrefixChars, if_neg hne]

theorem stripPrefix_eq_none {s front : String} {p : Char} {ps : List Char}
    (hfront : front.toList = p :: ps) (h : s.toList.head? ≠ some p) :
    stripPrefix s front = none := by
  rw [stripPrefix, hfront, stripPrefixChars_eq_none h, Option.map_none]

theorem startsWith_eq_false {s front : String} {p : Char} {ps : List Char}
    (hfront : front.toList = p :: ps) (h : s.toList.head? ≠ some p) :
    startsWith s front = false := by
  rw [startsWith, hfront, stripPrefixChars_eq_none h, Option.isSome_none]

/-- A text lacks a prefix if it lacks one of the prefix's characters. -/
theorem stripPrefix_eq_none_of_not_mem {s front : String} {p : Char} (hfront : p ∈ front.toList)
    (h : p ∉ s.toList) : stripPrefix s front = none := by
  rw [stripPrefix, Option.map_eq_none_iff]
  cases hstrip : stripPrefixChars front.toList s.toList with
  | none => rfl
  | some rest =>
      exfalso
      apply h
      rw [stripPrefixChars_eq_some hstrip]
      exact List.mem_append_left rest hfront

/-! ### Splitting -/

theorem splitOnceChars_eq_none {p : Char} {ps cs : List Char} (h : p ∉ cs) :
    splitOnceChars (p :: ps) cs = none := by
  induction cs with
  | nil => rfl
  | cons c cs ih =>
      have hhead : (c :: cs).head? ≠ some p := by
        intro heq
        cases heq
        exact h List.mem_cons_self
      rw [splitOnceChars, stripPrefixChars_eq_none hhead, ih fun hmem => h (List.mem_cons_of_mem c hmem)]
      rfl

/-- The first separator is the one behind a text without its first character. -/
theorem splitOnceChars_front {p : Char} {front : List Char} (h : p ∉ front) (ps back : List Char) :
    splitOnceChars (p :: ps) (front ++ (p :: ps) ++ back) = some (front, back) := by
  induction front with
  | nil => rw [List.nil_append, List.cons_append, splitOnceChars, ← List.cons_append,
      stripPrefixChars_append]
  | cons c front ih =>
      have hhead : (c :: (front ++ (p :: ps) ++ back)).head? ≠ some p := by
        intro heq
        cases heq
        exact h List.mem_cons_self
      rw [List.cons_append, List.cons_append, splitOnceChars, stripPrefixChars_eq_none hhead,
        ih fun hmem => h (List.mem_cons_of_mem c hmem)]
      rfl

theorem splitOnceChars_append {p : Char} {front : List Char} (h : p ∉ front) (back : List Char) :
    splitOnceChars [p] (front ++ p :: back) = some (front, back) := by
  simpa using splitOnceChars_front h [] back

theorem splitOnce_eq_none {s sep : String} {p : Char} {ps : List Char}
    (hsep : sep.toList = p :: ps) (h : p ∉ s.toList) : splitOnce s sep = none := by
  rw [splitOnce, hsep, splitOnceChars_eq_none h, Option.map_none]

theorem splitOnce_append {front sep back : String} {p : Char} (hsep : sep.toList = [p])
    (h : p ∉ front.toList) : splitOnce (front ++ sep ++ back) sep = some (front, back) := by
  rw [splitOnce, String.toList_append, String.toList_append, hsep, List.append_assoc,
    List.singleton_append, splitOnceChars_append h, Option.map_some]
  simp only [String.ofList_toList]

/-- What stands before the separator, the separator, and what stands behind it. -/
theorem splitOnceChars_eq_some {sep cs front back : List Char}
    (h : splitOnceChars sep cs = some (front, back)) : cs = front ++ sep ++ back := by
  induction cs generalizing front with
  | nil =>
      obtain ⟨rest, hrest, heq⟩ := Option.map_eq_some_iff.mp h
      cases heq
      exact stripPrefixChars_eq_some hrest
  | cons c cs ih =>
      rw [splitOnceChars] at h
      split at h
      · rename_i rest hrest
        cases h
        exact stripPrefixChars_eq_some hrest
      · obtain ⟨⟨front', back'⟩, hrest, heq⟩ := Option.map_eq_some_iff.mp h
        cases heq
        rw [ih hrest]
        rfl

/-- A text lacks a part if it lacks one of the part's characters. -/
theorem contains_eq_false {s part : String} {p : Char} (hpart : p ∈ part.toList)
    (h : p ∉ s.toList) : contains s part = false := by
  rw [contains, Option.isSome_eq_false_iff, Option.isNone_iff_eq_none]
  cases hsplit : splitOnceChars part.toList s.toList with
  | none => rfl
  | some parts =>
      exfalso
      apply h
      rw [splitOnceChars_eq_some hsplit, List.append_assoc]
      exact List.mem_append_right _ (List.mem_append_left _ hpart)

/-- A text contains each of its characters. -/
theorem contains_of_mem {s part : String} {p : Char} (hpart : part.toList = [p])
    (h : p ∈ s.toList) : contains s part = true := by
  obtain ⟨front, back, hs, hfront⟩ := List.eq_append_cons_of_mem h
  rw [contains, hpart, hs, splitOnceChars_append hfront, Option.isSome_some]

theorem beforeFirst_eq_self {c : Char} {s : String} (h : c ∉ s.toList) : beforeFirst c s = s := by
  have hall : s.toList.takeWhile (· ≠ c) = s.toList := by
    rw [List.takeWhile_eq_self_iff]
    intro d hd
    rw [decide_eq_true_eq]
    rintro rfl
    exact h hd
  rw [beforeFirst, hall, String.ofList_toList]

/-- Everything up to the end of a text without the character is before the
first one. -/
theorem beforeFirst_append {c : Char} {cs : List Char} {front back : String}
    (hback : back.toList = c :: cs) (h : c ∉ front.toList) : beforeFirst c (front ++ back) = front := by
  have hall : ∀ d ∈ front.toList, decide (d ≠ c) = true := by
    intro d hd
    rw [decide_eq_true_eq]
    rintro rfl
    exact h hd
  rw [beforeFirst, String.toList_append, hback, List.takeWhile_append_of_pos hall]
  simp

theorem splitLast_eq_none {c : Char} {s : String} (h : c ∉ s.toList) : splitLast c s = none := by
  have hall : ∀ d ∈ s.toList.reverse, decide (d ≠ c) = true := by
    intro d hd
    rw [decide_eq_true_eq]
    rintro rfl
    exact h (List.mem_reverse.mp hd)
  simp only [splitLast, List.span_eq_takeWhile_dropWhile, List.dropWhile_eq_nil_iff.mpr hall]

/-- The last separator is the one before a text that has none. -/
theorem splitLast_append {c : Char} {front sep back : String} (hsep : sep.toList = [c])
    (h : c ∉ back.toList) : splitLast c (front ++ sep ++ back) = some (front, back) := by
  have hall : ∀ d ∈ back.toList.reverse, decide (d ≠ c) = true := by
    intro d hd
    rw [decide_eq_true_eq]
    rintro rfl
    exact h (List.mem_reverse.mp hd)
  have hreverse : (front ++ sep ++ back).toList.reverse =
      back.toList.reverse ++ c :: front.toList.reverse := by
    simp [hsep]
  simp only [splitLast, hreverse, List.span_eq_takeWhile_dropWhile,
    List.takeWhile_append_of_pos hall, List.dropWhile_append_of_pos hall]
  simp

theorem splitLast_of_mem {c : Char} {s : String} (h : c ∈ s.toList) :
    ∃ front back, splitLast c s = some (front, back) ∧
      s.toList = front.toList ++ c :: back.toList ∧ c ∉ back.toList := by
  obtain ⟨after, before, hreverse, hafter⟩ := List.eq_append_cons_of_mem (List.mem_reverse.mpr h)
  have hs : s.toList = before.reverse ++ c :: after.reverse := by
    rw [← List.reverse_reverse s.toList, hreverse]
    simp
  have htext : s = String.ofList before.reverse ++ String.singleton c ++
      String.ofList after.reverse := by
    apply String.toList_injective
    simp [hs]
  refine ⟨String.ofList before.reverse, String.ofList after.reverse, ?_, by simpa using hs,
    by simpa using hafter⟩
  rw [htext]
  exact splitLast_append (by simp) (by simpa using hafter)

theorem splitLast_eq_none_iff {c : Char} {s : String} : splitLast c s = none ↔ c ∉ s.toList := by
  refine ⟨?_, splitLast_eq_none⟩
  intro hnone hmem
  obtain ⟨front, back, hsome, -⟩ := splitLast_of_mem hmem
  rw [hnone] at hsome
  cases hsome

theorem splitLast_eq_some {c : Char} {s front back : String} (h : splitLast c s = some (front, back)) :
    s.toList = front.toList ++ c :: back.toList ∧ c ∉ back.toList := by
  have hmem : c ∈ s.toList := by
    by_contra hnone
    rw [splitLast_eq_none hnone] at h
    cases h
  obtain ⟨front', back', hsome, hparts⟩ := splitLast_of_mem hmem
  cases hsome.symm.trans h
  exact hparts

/-- A text without a line feed is one line. -/
theorem lines_eq_singleton {s : String} (hne : s ≠ "") (h : '\n' ∉ s.toList) : lines s = [s] := by
  have hrest : ∀ (cs current : List Char), '\n' ∉ cs → (current ≠ [] ∨ cs ≠ []) →
      linesOfChars current cs = [current.reverse ++ cs] := by
    intro cs
    induction cs with
    | nil =>
        intro current _ hsome
        have hcurrent : current ≠ [] := by simpa using hsome
        rw [linesOfChars, if_neg hcurrent, List.append_nil]
    | cons c cs ih =>
        intro current hmem _
        have hc : c ≠ '\n' := by
          rintro rfl
          exact hmem List.mem_cons_self
        rw [linesOfChars, if_neg hc, ih (c :: current) (fun hin => hmem (List.mem_cons_of_mem c hin))
          (Or.inl (List.cons_ne_nil c current))]
        simp
  have hcs : s.toList ≠ [] := by simpa using hne
  rw [lines, hrest s.toList [] h (Or.inr hcs)]
  simp

/-! ### Lengths -/

theorem utf8Size_eq_one {c : Char} (h : c.toNat < 128) : c.utf8Size = 1 := by
  have hle : c.val ≤ 0x7f := by
    rw [UInt32.le_iff_toNat_le]
    exact Nat.le_of_lt_succ h
  exact if_pos hle

theorem toNat_toLower_of_isUpper {c : Char} (h : c.isUpper = true) :
    65 ≤ c.toNat ∧ c.toNat ≤ 90 ∧ c.toLower.toNat = c.toNat + 32 := by
  have hnat : 65 ≤ c.val.toNat ∧ c.val.toNat ≤ 90 := isUpper_iff.mp h
  have hrange : c.val ≥ 'A'.val ∧ c.val ≤ 'Z'.val := hnat
  refine ⟨hnat.1, hnat.2, ?_⟩
  unfold Char.toLower
  rw [dif_pos hrange]
  have hshift : ('a'.val - 'A'.val).toNat = 32 := rfl
  change (c.val + ('a'.val - 'A'.val)).toNat = c.val.toNat + 32
  rw [UInt32.toNat_add, hshift]
  omega

theorem isUpper_toLower (c : Char) : c.toLower.isUpper = false := by
  cases hupper : c.isUpper with
  | false => rw [toLower_of_not_isUpper hupper, hupper]
  | true =>
      obtain ⟨hlo, hhi, hlower⟩ := toNat_toLower_of_isUpper hupper
      rw [← Bool.not_eq_true, isUpper_iff]
      omega

theorem any_isUpper_toAsciiLowercase (s : String) :
    (toAsciiLowercase s).toList.any Char.isUpper = false := by
  rw [toAsciiLowercase, String.toList_ofList, List.any_map, List.any_eq_false]
  intro c _
  rw [Function.comp_apply, isUpper_toLower]
  exact Bool.false_ne_true

/-- Lower case has the same number of bytes. -/
theorem octets_length_toAsciiLowercase (s : String) :
    (octets (toAsciiLowercase s)).length = (octets s).length := by
  have hsize : ∀ c : Char, c.toLower.utf8Size = c.utf8Size := by
    intro c
    cases hupper : c.isUpper with
    | false => rw [toLower_of_not_isUpper hupper]
    | true =>
        obtain ⟨hlo, hhi, hlower⟩ := toNat_toLower_of_isUpper hupper
        rw [utf8Size_eq_one (by omega), utf8Size_eq_one (by omega)]
  rw [octets_length, octets_length, toAsciiLowercase, String.toList_ofList, List.map_map]
  congr 1
  exact List.map_congr_left fun c _ => hsize c

end Relay.Text
