import Mathlib.Tactic

/-!
Tables with one entry for each key, each the latest that was written. A write
replaces the entry of its key in place, or adds one at the end.
-/

namespace Relay.Logic

variable {α κ : Type} (key : α → κ)

/-- Replace the first entry with the key of `x`, or push `x`. -/
def updateOrPush [DecidableEq κ] (x : α) : List α → List α
  | [] => [x]
  | y :: ys => if key y = key x then x :: ys else y :: updateOrPush x ys

/-- The last entry with its key. -/
def LastOf (xs : List α) (x : α) : Prop :=
  ∃ front back, xs = front ++ x :: back ∧ ∀ y ∈ back, key y ≠ key x

variable {key}

theorem mem_updateOrPush [DecidableEq κ] {x y : α} {table : List α} (h : (table.map key).Nodup) :
    y ∈ updateOrPush key x table ↔ y = x ∨ y ∈ table ∧ key y ≠ key x := by
  induction table with
  | nil => simp [updateOrPush]
  | cons z zs ih =>
      rw [List.map_cons, List.nodup_cons] at h
      rw [updateOrPush]
      split
      case isTrue hz =>
        have hothers : ∀ w ∈ zs, key w ≠ key x := by
          intro w hw heq
          apply h.1
          rw [hz, ← heq]
          exact List.mem_map_of_mem hw
        constructor
        · intro hy
          rcases List.mem_cons.mp hy with rfl | hy
          · exact Or.inl rfl
          · exact Or.inr ⟨List.mem_cons_of_mem z hy, hothers y hy⟩
        · rintro (rfl | ⟨hy, hne⟩)
          · exact List.mem_cons_self
          · rcases List.mem_cons.mp hy with rfl | hy
            · exact absurd hz hne
            · exact List.mem_cons_of_mem x hy
      case isFalse hz =>
        rw [List.mem_cons, ih h.2, List.mem_cons]
        constructor
        · rintro (rfl | rfl | ⟨hy, hne⟩)
          · exact Or.inr ⟨Or.inl rfl, hz⟩
          · exact Or.inl rfl
          · exact Or.inr ⟨Or.inr hy, hne⟩
        · rintro (rfl | ⟨rfl | hy, hne⟩)
          · exact Or.inr (Or.inl rfl)
          · exact Or.inl rfl
          · exact Or.inr (Or.inr ⟨hy, hne⟩)

theorem nodup_updateOrPush [DecidableEq κ] {x : α} {table : List α} (h : (table.map key).Nodup) :
    ((updateOrPush key x table).map key).Nodup := by
  induction table with
  | nil => simp [updateOrPush]
  | cons z zs ih =>
      have hcons := List.nodup_cons.mp h
      rw [updateOrPush]
      split
      case isTrue hz =>
        rw [List.map_cons, ← hz]
        exact h
      case isFalse hz =>
        apply List.nodup_cons.mpr
        refine ⟨?_, ih hcons.2⟩
        intro hmem
        obtain ⟨y, hy, hkey⟩ := List.mem_map.mp hmem
        rcases (mem_updateOrPush hcons.2).mp hy with rfl | ⟨hy, _⟩
        · exact hz hkey.symm
        · exact hcons.1 (hkey ▸ List.mem_map_of_mem hy)

theorem lastOf_concat {xs : List α} {x y : α} :
    LastOf key (xs ++ [y]) x ↔ x = y ∨ LastOf key xs x ∧ key x ≠ key y := by
  constructor
  · rintro ⟨front, back, heq, hback⟩
    rcases List.eq_nil_or_concat' back with rfl | ⟨init, last, rfl⟩
    · exact Or.inl (List.singleton_inj.mp (List.append_inj_right' heq rfl)).symm
    · rw [← List.cons_append, ← List.append_assoc] at heq
      have hlast : y = last := List.singleton_inj.mp (List.append_inj_right' heq rfl)
      refine Or.inr ⟨⟨front, init, List.append_inj_left' heq rfl, ?_⟩, ?_⟩
      · intro z hz
        exact hback z (List.mem_append_left _ hz)
      · rw [hlast]
        exact (hback last (by simp)).symm
  · rintro (rfl | ⟨⟨front, back, rfl, hback⟩, hne⟩)
    · exact ⟨xs, [], rfl, fun z hz => by cases hz⟩
    · refine ⟨front, back ++ [y], by simp, ?_⟩
      intro z hz
      rcases List.mem_append.mp hz with hz | hz
      · exact hback z hz
      · rw [List.mem_singleton.mp hz]
        exact hne.symm

/-- Entries that are left out for their key change nothing for the others. -/
theorem lastOf_filter {p : κ → Bool} {xs : List α} {x : α} :
    LastOf key (xs.filter fun y => p (key y)) x ↔ LastOf key xs x ∧ p (key x) = true := by
  induction xs using List.reverseRecOn with
  | nil => simp [LastOf]
  | append_singleton xs y ih =>
      rw [List.filter_append, lastOf_concat]
      cases hy : p (key y)
      · rw [List.filter_singleton, hy, cond_false, List.append_nil, ih]
        constructor
        · rintro ⟨hlast, hx⟩
          refine ⟨Or.inr ⟨hlast, ?_⟩, hx⟩
          intro heq
          rw [heq, hy] at hx
          cases hx
        · rintro ⟨rfl | ⟨hlast, _⟩, hx⟩
          · rw [hy] at hx
            cases hx
          · exact ⟨hlast, hx⟩
      · rw [List.filter_singleton, hy, cond_true, lastOf_concat, ih]
        constructor
        · rintro (rfl | ⟨⟨hlast, hx⟩, hne⟩)
          · exact ⟨Or.inl rfl, hy⟩
          · exact ⟨Or.inr ⟨hlast, hne⟩, hx⟩
        · rintro ⟨rfl | ⟨hlast, hne⟩, hx⟩
          · exact Or.inl rfl
          · exact Or.inr ⟨⟨hlast, hx⟩, hne⟩

/-- After any writes to an empty table there is one entry for each key, the
last of those written for it. -/
theorem foldl_updateOrPush [DecidableEq κ] (key : α → κ) (xs : List α) :
    ((xs.foldl (fun table x => updateOrPush key x table) []).map key).Nodup ∧
      ∀ x, x ∈ xs.foldl (fun table x => updateOrPush key x table) [] ↔ LastOf key xs x := by
  induction xs using List.reverseRecOn with
  | nil => simp [LastOf]
  | append_singleton xs y ih =>
      rw [List.foldl_append]
      refine ⟨nodup_updateOrPush ih.1, ?_⟩
      intro x
      rw [lastOf_concat, ← ih.2 x]
      exact mem_updateOrPush ih.1

/-- Keys stay where they are in the table. -/
theorem keys_updateOrPush [DecidableEq κ] (x : α) (table : List α) :
    table.map key <+: (updateOrPush key x table).map key := by
  induction table with
  | nil => simp
  | cons y ys ih =>
      rw [updateOrPush]
      split
      case isTrue hy => simp [hy]
      case isFalse hy => simpa using ih

theorem updateOrPush_append [DecidableEq κ] {x : α} {front : List α}
    (h : ∀ y ∈ front, key y ≠ key x) (table : List α) :
    updateOrPush key x (front ++ table) = front ++ updateOrPush key x table := by
  induction front with
  | nil => rfl
  | cons y front ih =>
      have hne : key y ≠ key x := h y List.mem_cons_self
      have hrest := ih fun z hz => h z (List.mem_cons_of_mem y hz)
      simp [updateOrPush, hne, hrest]

/-- Writes that begin with the keys of the table, in its order, leave nothing
of it behind. -/
theorem foldl_updateOrPush_overwrites [DecidableEq κ] {front table xs : List α}
    (hnodup : ((front ++ xs).map key).Nodup) (hkeys : table.map key <+: xs.map key) :
    xs.foldl (fun table x => updateOrPush key x table) (front ++ table) = front ++ xs := by
  induction xs generalizing front table with
  | nil =>
      have hnil : table = [] := by simpa using hkeys
      simp [hnil]
  | cons x xs ih =>
      have hfresh : ∀ y ∈ front, key y ≠ key x := by
        intro y hy heq
        rw [List.map_append, List.nodup_append] at hnodup
        exact hnodup.2.2 (key y) (List.mem_map_of_mem hy) (key x) (by simp) heq
      have hrest : ∃ table', updateOrPush key x table = x :: table' ∧
          table'.map key <+: xs.map key := by
        cases table with
        | nil => exact ⟨[], rfl, List.nil_prefix⟩
        | cons y ys =>
            rw [List.map_cons, List.map_cons, List.cons_prefix_cons] at hkeys
            exact ⟨ys, if_pos hkeys.1, hkeys.2⟩
      obtain ⟨table', htable, hkeys'⟩ := hrest
      have hmove : front ++ x :: table' = (front ++ [x]) ++ table' := by simp
      rw [List.foldl_cons, updateOrPush_append hfresh, htable, hmove,
        ih (by simpa using hnodup) hkeys']
      simp

end Relay.Logic
