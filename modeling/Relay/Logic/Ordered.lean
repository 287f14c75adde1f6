import Mathlib.Data.List.Sort

/-!
Entries in the order of their keys, as an ordered map keeps them: two lists of
the same entries are the same list, and an entry that is taken out and put back
is where it was.
-/

namespace Relay.Logic

variable {κ β : Type} [LinearOrder κ]

/-- The entries of an ordered map: each key stands once, after the smaller ones. -/
def Ordered (entries : List (κ × β)) : Prop := entries.Pairwise fun entry other => entry.1 < other.1

/-- An old value is replaced, a new key comes in at its place. -/
def insertKey (key : κ) (value : β) : List (κ × β) → List (κ × β)
  | [] => [(key, value)]
  | entry :: entries =>
      if entry.1 < key then entry :: insertKey key value entries
      else if entry.1 = key then (key, value) :: entries
      else (key, value) :: entry :: entries

def removeKey (key : κ) (entries : List (κ × β)) : List (κ × β) :=
  entries.filter fun entry => entry.1 ≠ key

/-- Entries put in one after the other. -/
def orderEntries (entries : List (κ × β)) : List (κ × β) :=
  entries.foldl (fun ordered entry => insertKey entry.1 entry.2 ordered) []

theorem Ordered.eq_of_perm {entries entries' : List (κ × β)} (h : Ordered entries)
    (h' : Ordered entries') (hperm : entries.Perm entries') : entries = entries' := by
  unfold Ordered at h h'
  apply List.Perm.eq_of_pairwise _ h h' hperm
  intro entry other _ _ hlt hgt
  exact absurd hgt hlt.asymm

theorem Ordered.removeKey {entries : List (κ × β)} (h : Ordered entries) (key : κ) :
    Ordered (removeKey key entries) := List.Pairwise.filter _ h

theorem removeKey_eq_self {key : κ} {entries : List (κ × β)} (h : key ∉ entries.map Prod.fst) :
    removeKey key entries = entries := by
  apply List.filter_eq_self.mpr
  intro entry hentry
  rw [decide_eq_true_eq]
  rintro rfl
  exact h (List.mem_map_of_mem hentry)

theorem notMem_removeKey (key : κ) (entries : List (κ × β)) :
    key ∉ (removeKey key entries).map Prod.fst := by
  intro hmem
  obtain ⟨entry, hentry, rfl⟩ := List.mem_map.mp hmem
  have hne := (List.mem_filter.mp hentry).2
  simp at hne

theorem insertKey_perm {key : κ} (value : β) {entries : List (κ × β)}
    (h : key ∉ entries.map Prod.fst) : (insertKey key value entries).Perm ((key, value) :: entries) := by
  induction entries with
  | nil => exact .refl _
  | cons entry entries ih =>
      rw [List.map_cons, List.mem_cons, not_or] at h
      unfold insertKey
      split
      · exact ((ih h.2).cons entry).trans (List.Perm.swap _ _ _)
      · rw [if_neg (Ne.symm h.1)]

theorem Ordered.insertKey {entries : List (κ × β)} (h : Ordered entries) {key : κ} (value : β)
    (hnew : key ∉ entries.map Prod.fst) : Ordered (insertKey key value entries) := by
  induction entries with
  | nil => exact List.pairwise_singleton _ _
  | cons entry entries ih =>
      have hperm := insertKey_perm value fun hmem => hnew (List.mem_cons_of_mem _ hmem)
      rw [List.map_cons, List.mem_cons, not_or] at hnew
      obtain ⟨hfirst, hrest⟩ := List.pairwise_cons.mp h
      unfold Logic.insertKey
      split
      · rename_i hlt
        refine List.pairwise_cons.mpr ⟨?_, ih hrest hnew.2⟩
        intro other hother
        obtain rfl | hother := List.mem_cons.mp (hperm.mem_iff.mp hother)
        · exact hlt
        · exact hfirst other hother
      · rename_i hge
        have hlt : key < entry.1 := lt_of_le_of_ne (not_lt.mp hge) hnew.1
        rw [if_neg (Ne.symm hnew.1)]
        refine List.pairwise_cons.mpr ⟨?_, h⟩
        intro other hother
        obtain rfl | hother := List.mem_cons.mp hother
        · exact hlt
        · exact hlt.trans (hfirst other hother)

/-- What is put in is taken out again. -/
theorem Ordered.removeKey_insertKey {entries : List (κ × β)} (h : Ordered entries) {key : κ}
    (value : β) (hnew : key ∉ entries.map Prod.fst) :
    Logic.removeKey key (Logic.insertKey key value entries) = entries := by
  apply ((h.insertKey value hnew).removeKey key).eq_of_perm h
  have hperm := (insertKey_perm value hnew).filter fun entry => entry.1 ≠ key
  rw [List.filter_cons_of_neg (by simp)] at hperm
  exact hperm.trans (.of_eq (removeKey_eq_self hnew))

theorem Ordered.removeKey_perm {entries : List (κ × β)} (h : Ordered entries) {key : κ} {value : β}
    (hentry : (key, value) ∈ entries) :
    ((key, value) :: Logic.removeKey key entries).Perm entries := by
  induction entries with
  | nil => cases hentry
  | cons entry entries ih =>
      obtain ⟨hfirst, hrest⟩ := List.pairwise_cons.mp h
      obtain heq | hentry := List.mem_cons.mp hentry
      · have hnone : key ∉ entries.map Prod.fst := by
          intro hmem
          obtain ⟨other, hother, hkey⟩ := List.mem_map.mp hmem
          have hlt := hfirst other hother
          rw [← heq, hkey] at hlt
          exact lt_irrefl key hlt
        have hremoved : Logic.removeKey key (entry :: entries) = Logic.removeKey key entries :=
          List.filter_cons_of_neg (by simp [← heq])
        rw [hremoved, removeKey_eq_self hnone, heq]
      · have hne : entry.1 ≠ key := (hfirst _ hentry).ne
        have hkept : Logic.removeKey key (entry :: entries) =
            entry :: Logic.removeKey key entries := List.filter_cons_of_pos (by simpa using hne)
        rw [hkept]
        exact (List.Perm.swap _ _ _).trans ((ih hrest hentry).cons entry)

/-- What is taken out is put back. -/
theorem Ordered.insertKey_removeKey {entries : List (κ × β)} (h : Ordered entries) {key : κ}
    {value : β} (hentry : (key, value) ∈ entries) :
    Logic.insertKey key value (Logic.removeKey key entries) = entries := by
  have hnew := notMem_removeKey key entries
  apply ((h.removeKey key).insertKey value hnew).eq_of_perm h
  exact (insertKey_perm value hnew).trans (h.removeKey_perm hentry)

/-- Entries with different keys, put in order. -/
theorem orderEntries_spec {entries : List (κ × β)} (h : (entries.map Prod.fst).Nodup) :
    Ordered (orderEntries entries) ∧ (orderEntries entries).Perm entries := by
  have hfold : ∀ (entries ordered : List (κ × β)), Ordered ordered →
      ((ordered ++ entries).map Prod.fst).Nodup →
      Ordered (entries.foldl (fun ordered entry => insertKey entry.1 entry.2 ordered) ordered) ∧
        (entries.foldl (fun ordered entry => insertKey entry.1 entry.2 ordered) ordered).Perm
          (ordered ++ entries) := by
    intro entries
    induction entries with
    | nil =>
        intro ordered hordered _
        exact ⟨hordered, .of_eq (List.append_nil _).symm⟩
    | cons entry entries ih =>
        intro ordered hordered hnodup
        have hmiddle : (ordered ++ entry :: entries).Perm (entry :: ordered ++ entries) :=
          List.perm_middle
        have hnew : entry.1 ∉ ordered.map Prod.fst := by
          have hnodup' := (hmiddle.map Prod.fst).nodup hnodup
          rw [List.cons_append, List.map_cons, List.nodup_cons, List.map_append] at hnodup'
          exact fun hmem => hnodup'.1 (List.mem_append_left _ hmem)
        have hperm := (insertKey_perm entry.2 hnew).append_right entries
        obtain ⟨hstep, hall⟩ := ih _ (hordered.insertKey entry.2 hnew)
          (((hmiddle.trans hperm.symm).map Prod.fst).nodup hnodup)
        exact ⟨hstep, hall.trans (hperm.trans hmiddle.symm)⟩
  exact hfold entries [] List.Pairwise.nil h

/-- The order the entries came in does not matter. -/
theorem orderEntries_congr {entries entries' : List (κ × β)} (h : (entries.map Prod.fst).Nodup)
    (hperm : entries.Perm entries') : orderEntries entries = orderEntries entries' := by
  obtain ⟨hordered, hsame⟩ := orderEntries_spec h
  obtain ⟨hordered', hsame'⟩ := orderEntries_spec ((hperm.map Prod.fst).nodup h)
  exact hordered.eq_of_perm hordered' (hsame.trans (hperm.trans hsame'.symm))

end Relay.Logic
