import Mathlib.Computability.Language
import Relay.Text.Labels

/-!
Regular expressions over classes of characters: the language of an expression,
an executable matcher by derivatives, and what the stars of a class and of a
label with its separator stand for.
-/

namespace Relay.Text

open Computability

inductive Regex (α : Type) where
  | never
  | empty
  /-- One character of a class. -/
  | one (accepts : α → Bool)
  | append (r s : Regex α)
  | alt (r s : Regex α)
  | many (r : Regex α)

namespace Regex

variable {α : Type}

def optional (r : Regex α) : Regex α := .alt .empty r

/-- One or more. -/
def plus (r : Regex α) : Regex α := .append r (.many r)

def language : Regex α → Language α
  | .never => 0
  | .empty => 1
  | .one accepts => {text | ∃ c, accepts c = true ∧ text = [c]}
  | .append r s => r.language * s.language
  | .alt r s => r.language + s.language
  | .many r => r.language∗

/-! ### Matching -/

def nullable : Regex α → Bool
  | .never => false
  | .empty => true
  | .one _ => false
  | .append r s => r.nullable && s.nullable
  | .alt r s => r.nullable || s.nullable
  | .many _ => true

/-- What is left of the expression behind the character. -/
def derive (c : α) : Regex α → Regex α
  | .never => .never
  | .empty => .never
  | .one accepts => if accepts c then .empty else .never
  | .append r s =>
      if r.nullable then .alt (.append (r.derive c) s) (s.derive c)
      else .append (r.derive c) s
  | .alt r s => .alt (r.derive c) (s.derive c)
  | .many r => .append (r.derive c) (.many r)

def accepts (r : Regex α) : List α → Bool
  | [] => r.nullable
  | c :: text => (r.derive c).accepts text

theorem mem_append {r s : Regex α} {text : List α} :
    text ∈ (append r s).language ↔
      ∃ front back, text = front ++ back ∧ front ∈ r.language ∧ back ∈ s.language := by
  constructor
  · rintro ⟨front, hfront, back, hback, rfl⟩
    exact ⟨front, back, rfl, hfront, hback⟩
  · rintro ⟨front, back, rfl, hfront, hback⟩
    exact ⟨front, hfront, back, hback, rfl⟩

theorem mem_one {p : α → Bool} {text : List α} :
    text ∈ (one p).language ↔ ∃ c, p c = true ∧ text = [c] := Iff.rfl

theorem mem_optional {r : Regex α} {text : List α} :
    text ∈ (optional r).language ↔ text = [] ∨ text ∈ r.language := Iff.rfl

theorem nullable_iff (r : Regex α) : r.nullable = true ↔ [] ∈ r.language := by
  induction r with
  | never => simp [nullable, language]
  | empty => simp [nullable, language]
  | one p => simp [nullable, mem_one]
  | append r s ihr ihs =>
      rw [nullable, Bool.and_eq_true, ihr, ihs, mem_append]
      constructor
      · rintro ⟨hr, hs⟩
        exact ⟨[], [], rfl, hr, hs⟩
      · rintro ⟨front, back, hnil, hr, hs⟩
        obtain ⟨rfl, rfl⟩ := List.append_eq_nil_iff.mp hnil.symm
        exact ⟨hr, hs⟩
  | alt r s ihr ihs =>
      rw [nullable, Bool.or_eq_true, ihr, ihs]
      exact Iff.rfl
  | many r _ => simp [nullable, language, Language.nil_mem_kstar]

/-- A repetition that starts with the character starts with one repeated text. -/
theorem cons_mem_many {r : Regex α} {c : α} {text : List α} :
    c :: text ∈ (many r).language ↔
      ∃ front back, text = front ++ back ∧ c :: front ∈ r.language ∧ back ∈ (many r).language := by
  constructor
  · intro h
    obtain ⟨parts, hparts, hmem⟩ := Language.mem_kstar_iff_exists_nonempty.mp h
    cases parts with
    | nil => cases hparts
    | cons part parts =>
        obtain ⟨hpart, hne⟩ := hmem part List.mem_cons_self
        obtain ⟨d, front, rfl⟩ := List.exists_cons_of_ne_nil hne
        rw [List.flatten_cons, List.cons_append, List.cons.injEq] at hparts
        obtain ⟨rfl, rfl⟩ := hparts
        exact ⟨front, parts.flatten, rfl, hpart, Language.join_mem_kstar fun y hy =>
          (hmem y (List.mem_cons_of_mem _ hy)).1⟩
  · rintro ⟨front, back, rfl, hfront, hback⟩
    obtain ⟨parts, rfl, hmem⟩ := Language.mem_kstar.mp hback
    apply Language.mem_kstar.mpr
    refine ⟨(c :: front) :: parts, rfl, ?_⟩
    intro y hy
    rcases List.mem_cons.mp hy with rfl | hy
    · exact hfront
    · exact hmem y hy

theorem mem_derive {c : α} {r : Regex α} {text : List α} :
    text ∈ (r.derive c).language ↔ c :: text ∈ r.language := by
  induction r generalizing text with
  | never => simp [derive, language]
  | empty => simp [derive, language]
  | one p =>
      rw [derive, mem_one]
      cases hc : p c with
      | true => simp [language, hc]
      | false => simp [language, hc]
  | append r s ihr ihs =>
      have hsplit : c :: text ∈ (append r s).language ↔
          ([] ∈ r.language ∧ c :: text ∈ s.language) ∨
            ∃ front back, text = front ++ back ∧ c :: front ∈ r.language ∧ back ∈ s.language := by
        rw [mem_append]
        constructor
        · rintro ⟨front, back, htext, hfront, hback⟩
          cases front with
          | nil =>
              rw [htext]
              exact Or.inl ⟨hfront, hback⟩
          | cons d front =>
              rw [List.cons_append, List.cons.injEq] at htext
              obtain ⟨rfl, rfl⟩ := htext
              exact Or.inr ⟨front, back, rfl, hfront, hback⟩
        · rintro (⟨hnil, hback⟩ | ⟨front, back, rfl, hfront, hback⟩)
          · exact ⟨[], c :: text, rfl, hnil, hback⟩
          · exact ⟨c :: front, back, rfl, hfront, hback⟩
      have hfirst : text ∈ (append (r.derive c) s).language ↔
          ∃ front back, text = front ++ back ∧ c :: front ∈ r.language ∧ back ∈ s.language := by
        rw [mem_append]
        simp only [ihr]
      rw [hsplit, derive]
      cases hnull : r.nullable with
      | true =>
          have hnil := (nullable_iff r).mp hnull
          have halt : text ∈ (alt (append (r.derive c) s) (s.derive c)).language ↔
              text ∈ (append (r.derive c) s).language ∨ text ∈ (s.derive c).language := Iff.rfl
          rw [if_pos rfl, halt, hfirst, ihs, or_comm]
          simp only [hnil, true_and]
      | false =>
          have hnil : [] ∉ r.language := by
            rw [← nullable_iff, hnull]
            exact Bool.false_ne_true
          rw [if_neg Bool.false_ne_true, hfirst]
          simp only [hnil, false_and, false_or]
  | alt r s ihr ihs => exact or_congr ihr ihs
  | many r ih =>
      rw [derive, mem_append, cons_mem_many]
      simp only [ih]

theorem accepts_iff (r : Regex α) (text : List α) :
    r.accepts text = true ↔ text ∈ r.language := by
  induction text generalizing r with
  | nil => exact nullable_iff r
  | cons c text ih =>
      rw [accepts, ih]
      exact mem_derive

/-! ### Repetitions -/

/-- Any text of a class. -/
theorem mem_many_one {p : α → Bool} {text : List α} :
    text ∈ (many (one p)).language ↔ ∀ c ∈ text, p c = true := by
  induction text with
  | nil => exact iff_of_true (Language.nil_mem_kstar _) (by simp)
  | cons c text ih =>
      rw [cons_mem_many]
      constructor
      · rintro ⟨front, back, rfl, ⟨d, hd, hone⟩, hback⟩
        rw [List.cons.injEq] at hone
        obtain ⟨rfl, rfl⟩ := hone
        intro e he
        rcases List.mem_cons.mp he with rfl | he
        · exact hd
        · exact ih.mp hback e he
      · intro h
        exact ⟨[], text, rfl, ⟨c, h c List.mem_cons_self, rfl⟩,
          ih.mpr fun d hd => h d (List.mem_cons_of_mem c hd)⟩

variable [DecidableEq α]

/-- A label that is not empty, with the separator behind it. -/
def label (sep : α) : Regex α :=
  .append (.plus (.one fun c => decide (c ≠ sep))) (.one fun c => decide (c = sep))

theorem mem_label {sep : α} {text : List α} :
    text ∈ (label sep).language ↔ ∃ x, x ≠ [] ∧ sep ∉ x ∧ text = x ++ [sep] := by
  have hclass : ∀ x : List α, x ∈ (Regex.plus (.one fun c => decide (c ≠ sep))).language ↔
      x ≠ [] ∧ sep ∉ x := by
    intro x
    rw [Regex.plus, mem_append]
    constructor
    · rintro ⟨front, back, rfl, ⟨c, hc, rfl⟩, hback⟩
      refine ⟨by simp, ?_⟩
      intro hmem
      rcases List.mem_cons.mp hmem with rfl | hmem
      · simp at hc
      · simpa using mem_many_one.mp hback sep hmem
    · rintro ⟨hne, hmem⟩
      obtain ⟨c, back, rfl⟩ := List.exists_cons_of_ne_nil hne
      refine ⟨[c], back, rfl, ⟨c, ?_, rfl⟩, mem_many_one.mpr ?_⟩
      · rw [decide_eq_true_eq]
        rintro rfl
        exact hmem List.mem_cons_self
      · intro d hd
        rw [decide_eq_true_eq]
        rintro rfl
        exact hmem (List.mem_cons_of_mem c hd)
  rw [label, mem_append]
  constructor
  · rintro ⟨x, back, rfl, hx, ⟨c, hc, rfl⟩⟩
    obtain ⟨hne, hmem⟩ := (hclass x).mp hx
    rw [of_decide_eq_true hc]
    exact ⟨x, hne, hmem, rfl⟩
  · rintro ⟨x, hne, hmem, rfl⟩
    exact ⟨x, [sep], rfl, (hclass x).mpr ⟨hne, hmem⟩, sep, decide_eq_true rfl, rfl⟩

/-- Labels that are not empty, each with the separator behind it. -/
theorem mem_many_label {sep : α} {text : List α} :
    text ∈ (many (label sep)).language ↔
      ∃ labels, text = terminated sep labels ∧ ∀ x ∈ labels, x ≠ [] ∧ sep ∉ x := by
  constructor
  · intro h
    obtain ⟨parts, rfl, hparts⟩ := Language.mem_kstar.mp h
    clear h
    induction parts with
    | nil => exact ⟨[], rfl, by simp⟩
    | cons part parts ih =>
        obtain ⟨labels, hlabels, hmem⟩ := ih fun y hy => hparts y (List.mem_cons_of_mem _ hy)
        obtain ⟨x, hne, hsep, rfl⟩ := mem_label.mp (hparts part List.mem_cons_self)
        refine ⟨x :: labels, ?_, ?_⟩
        · rw [List.flatten_cons, hlabels, terminated_cons]
          simp
        · intro y hy
          rcases List.mem_cons.mp hy with rfl | hy
          · exact ⟨hne, hsep⟩
          · exact hmem y hy
  · rintro ⟨labels, rfl, hlabels⟩
    apply Language.mem_kstar.mpr
    refine ⟨labels.map fun x => x ++ [sep], rfl, ?_⟩
    intro y hy
    obtain ⟨x, hx, rfl⟩ := List.mem_map.mp hy
    exact mem_label.mpr ⟨x, (hlabels x hx).1, (hlabels x hx).2, rfl⟩

/-! ### Sequences -/

/-- One expression behind the other. -/
def sequence (rs : List (Regex α)) : Regex α := rs.foldr .append .empty

omit [DecidableEq α] in
theorem mem_sequence_cons {r : Regex α} {rs : List (Regex α)} {text : List α} :
    text ∈ (sequence (r :: rs)).language ↔
      ∃ front back, text = front ++ back ∧ front ∈ r.language ∧ back ∈ (sequence rs).language :=
  mem_append

end Regex

end Relay.Text
