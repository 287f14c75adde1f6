import Relay.Text.Labels

/-!
Wildcard patterns: a star stands for any part of a text, and every other
element for itself. What a match has of its pattern, the parts of a text behind
a separator, and texts without an empty label.
-/

namespace Relay.Text

variable {α : Type} [DecidableEq α]

/-! ### Patterns -/

def Glob (star : α) : List α → List α → Prop
  | [], text => text = []
  | c :: pattern, text =>
      if c = star then ∃ front back, text = front ++ back ∧ Glob star pattern back
      else ∃ back, text = c :: back ∧ Glob star pattern back

variable {star : α} {pattern text : List α}

theorem glob_nil : Glob star [] text ↔ text = [] := Iff.rfl

theorem glob_star :
    Glob star (star :: pattern) text ↔ ∃ front back, text = front ++ back ∧ Glob star pattern back := by
  rw [Glob, if_pos rfl]

theorem glob_cons {c : α} (h : c ≠ star) :
    Glob star (c :: pattern) text ↔ ∃ back, text = c :: back ∧ Glob star pattern back := by
  rw [Glob, if_neg h]

theorem Glob.star_append (h : Glob star pattern text) (front : List α) :
    Glob star (star :: pattern) (front ++ text) :=
  glob_star.mpr ⟨front, text, rfl, h⟩

/-- Several stars stand for what one star does. -/
theorem glob_stars (k : Nat) :
    Glob star (List.replicate (k + 1) star ++ pattern) text ↔
      ∃ front back, text = front ++ back ∧ Glob star pattern back := by
  induction k generalizing text with
  | zero => exact glob_star
  | succ k ih =>
      rw [List.replicate_succ, List.cons_append, glob_star]
      constructor
      · rintro ⟨front, back, rfl, h⟩
        obtain ⟨front', back', rfl, h'⟩ := ih.mp h
        exact ⟨front ++ front', back', (List.append_assoc ..).symm, h'⟩
      · rintro ⟨front, back, rfl, h⟩
        exact ⟨[], front ++ back, rfl, ih.mpr ⟨front, back, rfl, h⟩⟩

omit [DecidableEq α] in
/-- A pattern starts with a number of stars. -/
theorem exists_stars (star : α) (pattern : List α) :
    ∃ k rest, pattern = List.replicate k star ++ rest ∧ rest.head? ≠ some star := by
  induction pattern with
  | nil => exact ⟨0, [], rfl, by simp⟩
  | cons c pattern ih =>
      by_cases hc : c = star
      · subst hc
        obtain ⟨k, rest, rfl, hrest⟩ := ih
        exact ⟨k + 1, rest, by simp [List.replicate_succ], hrest⟩
      · exact ⟨0, c :: pattern, rfl, by simpa using hc⟩

omit [DecidableEq α] in
/-- And with one number only. -/
theorem stars_unique {k m : Nat} {rest rest' : List α} (h : rest.head? ≠ some star)
    (h' : rest'.head? ≠ some star)
    (heq : List.replicate k star ++ rest = List.replicate m star ++ rest') :
    k = m ∧ rest = rest' := by
  induction k generalizing m with
  | zero =>
      cases m with
      | zero => exact ⟨rfl, heq⟩
      | succ m =>
          rw [List.replicate_zero, List.nil_append] at heq
          rw [heq] at h
          exact absurd rfl h
  | succ k ih =>
      cases m with
      | zero =>
          rw [List.replicate_zero, List.nil_append] at heq
          rw [← heq] at h'
          exact absurd rfl h'
      | succ m =>
          rw [List.replicate_succ, List.replicate_succ, List.cons_append, List.cons_append] at heq
          obtain ⟨rfl, hrest⟩ := ih (List.cons.inj heq).2
          exact ⟨rfl, hrest⟩

/-- The text starts as the pattern does, unless that is with a star. -/
theorem Glob.head? {c : α} (h : Glob star pattern (c :: text)) (hne : pattern.head? ≠ some star) :
    pattern.head? = some c := by
  cases pattern with
  | nil => cases glob_nil.mp h
  | cons d pattern =>
      have hd : d ≠ star := by simpa using hne
      obtain ⟨back, heq, _⟩ := (glob_cons hd).mp h
      rw [(List.cons.inj heq).1]
      rfl

/-- What the pattern says is in the text. -/
theorem Glob.mem (h : Glob star pattern text) {c : α} (hc : c ∈ pattern) (hne : c ≠ star) :
    c ∈ text := by
  induction pattern generalizing text with
  | nil => cases hc
  | cons d pattern ih =>
      by_cases hd : d = star
      · subst hd
        obtain ⟨front, back, rfl, hback⟩ := glob_star.mp h
        have hin : c ∈ pattern := by
          rcases List.mem_cons.mp hc with rfl | hin
          · exact absurd rfl hne
          · exact hin
        exact List.mem_append_right front (ih hback hin)
      · obtain ⟨back, rfl, hback⟩ := (glob_cons hd).mp h
        rcases List.mem_cons.mp hc with rfl | hin
        · exact List.mem_cons_self
        · exact List.mem_cons_of_mem d (ih hback hin)

/-- And as often. -/
theorem Glob.count_le (h : Glob star pattern text) {c : α} (hne : c ≠ star) :
    pattern.count c ≤ text.count c := by
  induction pattern generalizing text with
  | nil => simp
  | cons d pattern ih =>
      by_cases hd : d = star
      · subst hd
        obtain ⟨front, back, rfl, hback⟩ := glob_star.mp h
        have hle := ih hback
        rw [List.count_cons_of_ne hne.symm, List.count_append]
        omega
      · obtain ⟨back, rfl, hback⟩ := (glob_cons hd).mp h
        have hle := ih hback
        rw [List.count_cons, List.count_cons]
        omega

/-- The pattern with one element for every star. -/
def fill (star filler : α) (pattern : List α) : List α :=
  pattern.map fun c => if c = star then filler else c

theorem glob_fill (filler : α) (pattern : List α) : Glob star pattern (fill star filler pattern) := by
  induction pattern with
  | nil => exact glob_nil.mpr rfl
  | cons c pattern ih =>
      rw [fill, List.map_cons]
      by_cases hc : c = star
      · subst hc
        rw [if_pos rfl]
        exact ih.star_append [filler]
      · rw [if_neg hc]
        exact (glob_cons hc).mpr ⟨_, rfl, ih⟩

theorem mem_fill {filler c : α} (h : c ∈ fill star filler pattern) :
    c = filler ∨ (c ∈ pattern ∧ c ≠ star) := by
  obtain ⟨d, hd, rfl⟩ := List.mem_map.mp h
  by_cases hstar : d = star
  · exact Or.inl (if_pos hstar)
  · rw [if_neg hstar]
    exact Or.inr ⟨hd, hstar⟩

theorem count_fill {filler c : α} (hfiller : filler ≠ c) (hne : c ≠ star) :
    (fill star filler pattern).count c = pattern.count c := by
  induction pattern with
  | nil => rfl
  | cons d pattern ih =>
      rw [fill, List.map_cons, ← fill, List.count_cons, List.count_cons, ih]
      by_cases hd : d = star
      · subst hd
        simp [hfiller, hne.symm]
      · rw [if_neg hd]

/-! ### Behind a separator -/

/-- All of the text, or what stands behind one of its separators. -/
def AtBoundary (sep : α) (back text : List α) : Prop :=
  text = back ∨ ∃ front, text = front ++ sep :: back

variable {sep : α}

omit [DecidableEq α] in
theorem AtBoundary.append {back text : List α} (h : AtBoundary sep back text) (front : List α) :
    AtBoundary sep back (front ++ sep :: text) := by
  rcases h with rfl | ⟨front', rfl⟩
  · exact Or.inr ⟨front, rfl⟩
  · exact Or.inr ⟨front ++ sep :: front', by simp⟩

omit [DecidableEq α] in
theorem AtBoundary.trans {back middle text : List α} (h : AtBoundary sep middle text)
    (hback : AtBoundary sep back middle) : AtBoundary sep back text := by
  rcases h with rfl | ⟨front, rfl⟩
  · exact hback
  · exact hback.append front

omit [DecidableEq α] in
theorem AtBoundary.mem {back text : List α} (h : AtBoundary sep back text) {c : α}
    (hc : c ∈ back) : c ∈ text := by
  rcases h with rfl | ⟨front, rfl⟩
  · exact hc
  · exact List.mem_append_right front (List.mem_cons_of_mem sep hc)

/-- With as many separators it is all of the text. -/
theorem AtBoundary.eq_of_count_le {back text : List α} (h : AtBoundary sep back text)
    (hcount : text.count sep ≤ back.count sep) : back = text := by
  rcases h with rfl | ⟨front, rfl⟩
  · rfl
  · rw [List.count_append, List.count_cons_self] at hcount
    omega

theorem AtBoundary.count_le {back text : List α} (h : AtBoundary sep back text) :
    back.count sep ≤ text.count sep := by
  rcases h with rfl | ⟨front, rfl⟩
  · exact Nat.le_refl _
  · rw [List.count_append, List.count_cons_self]
    omega

/-- A pattern that starts with a star matches a text that it matches a part of. -/
theorem exists_boundary_star_iff :
    (∃ back, AtBoundary sep back text ∧ Glob star (star :: pattern) back) ↔
      Glob star (star :: pattern) text := by
  constructor
  · rintro ⟨back, rfl | ⟨front, rfl⟩, h⟩
    · exact h
    · obtain ⟨front', back', rfl, h'⟩ := glob_star.mp h
      exact glob_star.mpr ⟨front ++ sep :: front', back', by simp, h'⟩
  · intro h
    exact ⟨text, Or.inl rfl, h⟩

/-! ### Labels that are not empty -/

/-- No label is empty. -/
def FullLabels (sep : α) (text : List α) : Prop := ∀ label ∈ text.splitOn sep, label ≠ []

/-- The rest of a text whose last label has begun or not. -/
def FullFrom (sep : α) : Bool → List α → Prop
  | started, [] => started = true
  | started, c :: text =>
      if c = sep then started = true ∧ FullFrom sep false text else FullFrom sep true text

theorem fullFrom_iff (started : Bool) (text : List α) :
    FullFrom sep started text ↔
      ∃ head tail, text.splitOn sep = head :: tail ∧ (started = true ∨ head ≠ []) ∧
        ∀ label ∈ tail, label ≠ [] := by
  induction text generalizing started with
  | nil => simp [FullFrom]
  | cons c text ih =>
      obtain ⟨head, tail, hsplit⟩ := List.exists_cons_of_ne_nil (List.splitOn_ne_nil sep text)
      rw [FullFrom]
      by_cases hc : c = sep
      · subst hc
        rw [if_pos rfl, ih false, splitOn_cons_self, hsplit]
        simp
      · rw [if_neg hc, ih true, splitOn_cons_of_ne hc hsplit, hsplit]
        simp

theorem fullLabels_iff : FullLabels sep text ↔ FullFrom sep false text := by
  rw [fullFrom_iff, FullLabels]
  obtain ⟨head, tail, hsplit⟩ := List.exists_cons_of_ne_nil (List.splitOn_ne_nil sep text)
  rw [hsplit]
  simp

theorem FullFrom.begun {started : Bool} (h : FullFrom sep started text) :
    FullFrom sep true text := by
  cases text with
  | nil => rfl
  | cons c text =>
      rw [FullFrom] at h ⊢
      split at h
      · rename_i hc
        rw [if_pos hc]
        exact ⟨rfl, h.2⟩
      · rename_i hc
        rwa [if_neg hc]

theorem FullFrom.of_append {started : Bool} {front : List α}
    (h : FullFrom sep started (front ++ text)) : ∃ begun, FullFrom sep begun text := by
  induction front generalizing started with
  | nil => exact ⟨started, h⟩
  | cons c front ih =>
      rw [List.cons_append, FullFrom] at h
      split at h
      · exact ih h.2
      · exact ih h

/-- A pattern that matches a text without empty labels has none itself, with
an element that is no separator for every star. -/
theorem Glob.fullFrom_fill {filler : α} (hfiller : filler ≠ sep) {started : Bool}
    (h : Glob star pattern text) (hfull : FullFrom sep started text) :
    FullFrom sep started (fill star filler pattern) := by
  induction pattern generalizing text started with
  | nil =>
      rw [glob_nil.mp h] at hfull
      exact hfull
  | cons c pattern ih =>
      rw [fill, List.map_cons, ← fill]
      by_cases hc : c = star
      · subst hc
        obtain ⟨front, back, rfl, hback⟩ := glob_star.mp h
        obtain ⟨begun, hbegun⟩ := hfull.of_append
        rw [if_pos rfl, FullFrom, if_neg hfiller]
        exact (ih hback hbegun).begun
      · obtain ⟨back, rfl, hback⟩ := (glob_cons hc).mp h
        rw [FullFrom] at hfull
        rw [if_neg hc, FullFrom]
        split at hfull
        · rename_i hsep
          rw [if_pos hsep]
          exact ⟨hfull.1, ih hback hfull.2⟩
        · rename_i hsep
          rw [if_neg hsep]
          exact ih hback hfull

theorem Glob.fullLabels_fill {filler : α} (hfiller : filler ≠ sep) (h : Glob star pattern text)
    (hfull : FullLabels sep text) : FullLabels sep (fill star filler pattern) :=
  fullLabels_iff.mpr (h.fullFrom_fill hfiller (fullLabels_iff.mp hfull))

/-- The labels on both sides of a separator. -/
theorem fullLabels_append {front back : List α} :
    FullLabels sep (front ++ sep :: back) ↔ FullLabels sep front ∧ FullLabels sep back := by
  unfold FullLabels
  rw [List.splitOn_append_cons_self]
  simp only [List.mem_append, or_imp, forall_and]

theorem FullLabels.of_boundary {back : List α} (h : FullLabels sep text)
    (hback : AtBoundary sep back text) : FullLabels sep back := by
  rcases hback with rfl | ⟨front, rfl⟩
  · exact h
  · exact (fullLabels_append.mp h).2

theorem not_fullLabels_nil : ¬ FullLabels sep ([] : List α) := by
  intro h
  exact h [] (by simp) rfl

theorem FullLabels.getLast?_ne (h : FullLabels sep text) : text.getLast? ≠ some sep := by
  intro hlast
  obtain ⟨rest, rfl⟩ := List.getLast?_eq_some_iff.mp hlast
  exact not_fullLabels_nil (fullLabels_append.mp h).2

theorem fullLabels_singleton {c : α} (h : c ≠ sep) : FullLabels sep [c] := by
  rw [fullLabels_iff, FullFrom, if_neg h]
  rfl

/-- Everything up to a separator is its labels, each with the separator. -/
theorem FullLabels.terminated {front : List α} (h : FullLabels sep front) :
    ∃ labels, front ++ [sep] = terminated sep labels ∧ ∀ x ∈ labels, x ≠ [] ∧ sep ∉ x := by
  refine ⟨front.splitOn sep, ?_, fun x hx => ⟨h x hx, not_mem_of_mem_splitOn hx⟩⟩
  obtain ⟨head, tail, hsplit⟩ := List.exists_cons_of_ne_nil (List.splitOn_ne_nil sep front)
  have hjoin := intercalate_terminated sep head tail
  rw [← hsplit, List.intercalate_splitOn] at hjoin
  exact hjoin

omit [DecidableEq α] in
/-- Labels with their separators end in a separator. -/
theorem terminated_eq_nil_or (sep : α) (labels : List (List α)) :
    terminated sep labels = [] ∨ ∃ front, terminated sep labels = front ++ [sep] := by
  rcases List.eq_nil_or_concat labels with rfl | ⟨labels, last, rfl⟩
  · exact Or.inl rfl
  · refine Or.inr ⟨terminated sep labels ++ last, ?_⟩
    rw [List.concat_eq_append, terminated_append, terminated_cons, terminated_nil]
    simp

end Relay.Text
