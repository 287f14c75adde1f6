import Mathlib.Tactic

/-!
Label sequences: lists split at a separator and written with a terminator
after every label. A key written from the last label to the first has one key
as a prefix of another, label by label, exactly when one text is an aligned
suffix of the other.
-/

namespace Relay.Text

variable {α : Type}

/-- Every label followed by the separator. -/
def terminated (sep : α) (labels : List (List α)) : List α :=
  labels.flatMap (fun label => label ++ [sep])

@[simp] theorem terminated_nil (sep : α) : terminated sep [] = [] := rfl

@[simp] theorem terminated_cons (sep : α) (label : List α) (labels : List (List α)) :
    terminated sep (label :: labels) = label ++ sep :: terminated sep labels := by
  simp [terminated]

theorem terminated_append (sep : α) (xs ys : List (List α)) :
    terminated sep (xs ++ ys) = terminated sep xs ++ terminated sep ys := by
  simp [terminated]

variable [DecidableEq α]

omit [DecidableEq α] in
theorem intercalate_terminated (sep : α) (label : List α) (labels : List (List α)) :
    [sep].intercalate (label :: labels) ++ [sep] = terminated sep (label :: labels) := by
  induction labels generalizing label with
  | nil => simp
  | cons next rest ih =>
      rw [List.intercalate_cons_cons, List.append_assoc, ih, terminated_cons]
      simp

theorem splitOn_cons_of_ne {sep c : α} {cs head : List α} {tail : List (List α)}
    (hne : c ≠ sep) (h : cs.splitOn sep = head :: tail) :
    (c :: cs).splitOn sep = (c :: head) :: tail := by
  rw [List.splitOn_cons_eq_if_modifyHead, if_neg (by simpa using hne), h, List.modifyHead_cons]

theorem splitOn_cons_self (sep : α) (cs : List α) :
    (sep :: cs).splitOn sep = [] :: cs.splitOn sep := by
  rw [List.splitOn_cons_eq_if_modifyHead, if_pos (beq_self_eq_true sep)]

/-- The first label starts as the text does, unless a separator is in front. -/
theorem head?_of_splitOn {sep : α} {cs head : List α} {tail : List (List α)}
    (h : cs.splitOn sep = head :: tail) :
    head.head? = if cs.head? = some sep then none else cs.head? := by
  cases cs with
  | nil =>
      rw [List.splitOn_nil] at h
      cases h
      rfl
  | cons c cs =>
      by_cases hc : c = sep
      · subst hc
        rw [splitOn_cons_self] at h
        cases h
        simp
      · obtain ⟨first, parts, hsplit⟩ := List.exists_cons_of_ne_nil (List.splitOn_ne_nil sep cs)
        rw [splitOn_cons_of_ne hc hsplit] at h
        cases h
        simp [hc]

theorem not_mem_of_mem_splitOn {sep : α} {xs label : List α}
    (h : label ∈ xs.splitOn sep) : sep ∉ label := by
  induction xs generalizing label with
  | nil =>
      simp only [List.splitOn_nil, List.mem_singleton] at h
      simp [h]
  | cons x xs ih =>
      obtain ⟨head, tail, hsplit⟩ := List.exists_cons_of_ne_nil (List.splitOn_ne_nil sep xs)
      by_cases hx : x = sep
      · subst hx
        rw [splitOn_cons_self, List.mem_cons] at h
        rcases h with rfl | h
        · simp
        · exact ih h
      · rw [splitOn_cons_of_ne hx hsplit, List.mem_cons] at h
        rcases h with rfl | h
        · have hhead : sep ∉ head := ih (by simp [hsplit])
          simp [hhead, Ne.symm hx]
        · exact ih (by simp [hsplit, h])

/-- Labels without the separator can be read off their terminated form. -/
theorem terminated_injective {sep : α} {xs ys : List (List α)}
    (hx : ∀ label ∈ xs, sep ∉ label) (hy : ∀ label ∈ ys, sep ∉ label)
    (h : terminated sep xs = terminated sep ys) : xs = ys := by
  induction xs generalizing ys with
  | nil =>
      cases ys with
      | nil => rfl
      | cons y ys => simp at h
  | cons x xs ih =>
      cases ys with
      | nil => simp at h
      | cons y ys =>
          simp only [terminated_cons] at h
          have hsplit := congrArg (List.splitOn sep) h
          rw [List.splitOn_append_cons_self_of_not_mem (hx x (by simp)),
            List.splitOn_append_cons_self_of_not_mem (hy y (by simp))] at hsplit
          have hhead : x = y := (List.cons.inj hsplit).1
          subst hhead
          have htail : terminated sep xs = terminated sep ys := by
            simpa using h
          rw [ih (fun l hl => hx l (by simp [hl])) (fun l hl => hy l (by simp [hl])) htail]

/-- The labels of `s` end the labels of `d` exactly when `d` is `s` or ends
with the separator and `s`. -/
theorem splitOn_suffix_iff (sep : α) (s d : List α) :
    s.splitOn sep <:+ d.splitOn sep ↔ d = s ∨ (sep :: s) <:+ d := by
  constructor
  · rintro ⟨front, hfront⟩
    have hd : [sep].intercalate (front ++ s.splitOn sep) = d := by
      rw [hfront, List.intercalate_splitOn]
    cases hcase : front with
    | nil =>
        left
        rw [hcase, List.nil_append, List.intercalate_splitOn] at hd
        exact hd.symm
    | cons label rest =>
        right
        refine ⟨[sep].intercalate (label :: rest), ?_⟩
        obtain ⟨head, tail, hsplit⟩ := List.exists_cons_of_ne_nil (List.splitOn_ne_nil sep s)
        have hs : [sep].intercalate (head :: tail) = s := by
          rw [← hsplit, List.intercalate_splitOn]
        rw [← hd, hcase, hsplit, ← hs]
        clear hd hfront hcase hsplit hs
        induction rest generalizing label with
        | nil => simp [List.intercalate_cons_cons]
        | cons next rest ih =>
            rw [List.intercalate_cons_cons, List.cons_append, List.cons_append,
              List.intercalate_cons_cons, List.append_assoc, ih next]
            simp
  · rintro (rfl | ⟨front, rfl⟩)
    · exact List.suffix_refl _
    · rw [List.splitOn_append_cons_self]
      exact List.suffix_append _ _

/-- Codes of one positive length can be told apart in a row. -/
theorem flatMap_injective_of_length {α β : Type} {code : α → List β} {n : Nat} (hpos : 0 < n)
    (hlength : ∀ a, (code a).length = n) (hcode : Function.Injective code) :
    Function.Injective (List.flatMap code) := by
  intro xs ys h
  induction xs generalizing ys with
  | nil =>
      cases ys with
      | nil => rfl
      | cons y ys =>
          have hlengths := congrArg List.length h
          simp [hlength] at hlengths
          omega
  | cons x xs ih =>
      cases ys with
      | nil =>
          have hlengths := congrArg List.length h
          simp [hlength] at hlengths
          omega
      | cons y ys =>
          rw [List.flatMap_cons, List.flatMap_cons] at h
          obtain ⟨hhead, htail⟩ := List.append_inj h ((hlength x).trans (hlength y).symm)
          rw [hcode hhead, ih htail]

end Relay.Text
