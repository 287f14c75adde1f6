import Mathlib.Data.List.Sort
import Relay.Config.Yaml

/-!
Objects of the language as the panel's editors use them: `Object.entries` with
its order of the keys, and `Object.fromEntries`, where a later row of a name
takes the place of an earlier one.
-/

namespace Relay.Web

variable {α : Type}

/-- The number an array index stands for: its decimal digits, below `2^32 - 1`. -/
def arrayIndex (key : String) : Option Nat :=
  let n := key.toList.foldl (fun n c => 10 * n + (c.toNat - '0'.toNat)) 0
  if toString n = key ∧ n < 2 ^ 32 - 1 then some n else none

/-- `Object.entries`: the array indices in ascending order, then the other keys
in the order of insertion. -/
def objectEntries (obj : IndexMap α) : List (String × α) :=
  (obj.entries.filter fun entry => (arrayIndex entry.1).isSome).insertionSort
      (fun a b => (arrayIndex a.1).getD 0 ≤ (arrayIndex b.1).getD 0) ++
    obj.entries.filter fun entry => (arrayIndex entry.1).isNone

/-- `Object.fromEntries`. -/
def fromEntries (rows : List (String × α)) : IndexMap α :=
  rows.foldl (fun obj row => obj.insert row.1 row.2) .empty

theorem objectEntries_perm (obj : IndexMap α) : (objectEntries obj).Perm obj.entries := by
  unfold objectEntries
  have hsort := List.perm_insertionSort
    (fun a b : String × α => (arrayIndex a.1).getD 0 ≤ (arrayIndex b.1).getD 0)
    (obj.entries.filter fun entry => (arrayIndex entry.1).isSome)
  apply (hsort.append_right _).trans
  have hsplit := List.filter_append_perm (fun entry => (arrayIndex entry.1).isSome) obj.entries
  simpa using hsplit

theorem objectEntries_nodup (obj : IndexMap α) :
    ((objectEntries obj).map Prod.fst).Nodup :=
  ((objectEntries_perm obj).map Prod.fst).nodup_iff.mpr obj.nodup

theorem get_eq_some_iff_row {obj : IndexMap α} {key : String} {value : α} :
    obj.get key = some value ↔ (key, value) ∈ objectEntries obj := by
  rw [IndexMap.get_eq_some]
  exact (objectEntries_perm obj).mem_iff.symm

theorem mem_keys_insert {obj : IndexMap α} {key key' : String} {value : α} :
    key' ∈ (obj.insert key value).entries.map Prod.fst ↔
      key' = key ∨ key' ∈ obj.entries.map Prod.fst := by
  constructor
  · intro h
    obtain ⟨⟨_, value'⟩, hentry, rfl⟩ := List.mem_map.mp h
    rcases IndexMap.mem_insert.mp hentry with ⟨hkey, -⟩ | ⟨-, hold⟩
    · exact .inl hkey
    · exact .inr (List.mem_map_of_mem hold)
  · intro h
    by_cases hkey : key' = key
    · exact List.mem_map_of_mem (IndexMap.mem_insert.mpr (.inl ⟨hkey, rfl⟩))
    · obtain ⟨⟨_, value'⟩, hentry, rfl⟩ := List.mem_map.mp (h.resolve_left hkey)
      exact List.mem_map_of_mem (IndexMap.mem_insert.mpr (.inr ⟨hkey, hentry⟩))

/-- Rows with names of their own stay as they are. -/
theorem fromEntries_entries {rows : List (String × α)} (h : (rows.map Prod.fst).Nodup) :
    (fromEntries rows).entries = rows := by
  have hfold : ∀ (rows : List (String × α)) (obj : IndexMap α),
      ((obj.entries ++ rows).map Prod.fst).Nodup →
      (rows.foldl (fun obj row => obj.insert row.1 row.2) obj).entries = obj.entries ++ rows := by
    intro rows
    induction rows with
    | nil => simp
    | cons row rows ih =>
        intro obj hnodup
        have hnew : obj.containsKey row.1 = false := by
          rw [IndexMap.containsKey_eq_false]
          rw [List.map_append, List.nodup_append] at hnodup
          intro hmem
          exact hnodup.2.2 _ hmem _ List.mem_cons_self rfl
        have hentries := IndexMap.insert_entries hnew row.2
        rw [List.foldl_cons, ih, hentries, List.append_assoc, List.singleton_append]
        rw [hentries, List.append_assoc]
        exact hnodup
  exact hfold rows .empty h

theorem mem_keys_fromEntries {rows : List (String × α)} {key : String} :
    key ∈ (fromEntries rows).entries.map Prod.fst ↔ key ∈ rows.map Prod.fst := by
  have hfold : ∀ (rows : List (String × α)) (obj : IndexMap α),
      key ∈ (rows.foldl (fun obj row => obj.insert row.1 row.2) obj).entries.map Prod.fst ↔
        key ∈ obj.entries.map Prod.fst ∨ key ∈ rows.map Prod.fst := by
    intro rows
    induction rows with
    | nil => simp
    | cons row rows ih =>
        intro obj
        rw [List.foldl_cons, ih, mem_keys_insert, List.map_cons, List.mem_cons]
        tauto
  exact (hfold rows .empty).trans (or_iff_right List.not_mem_nil)

/-- Two rows of one name become one. -/
theorem nodup_of_length_fromEntries {rows : List (String × α)}
    (h : (objectEntries (fromEntries rows)).length = rows.length) : (rows.map Prod.fst).Nodup := by
  have hsame :
      ((fromEntries rows).entries.map Prod.fst).toFinset = (rows.map Prod.fst).toFinset := by
    apply Finset.ext
    intro key
    rw [List.mem_toFinset, List.mem_toFinset]
    exact mem_keys_fromEntries
  have hcard := congrArg Finset.card hsame
  rw [List.toFinset_card_of_nodup (fromEntries rows).nodup, List.length_map,
    ← (objectEntries_perm _).length_eq, h] at hcard
  have hcard : (Multiset.toFinset (rows.map Prod.fst : Multiset String)).card =
      Multiset.card (rows.map Prod.fst : Multiset String) := by
    simpa using hcard.symm
  exact Multiset.coe_nodup.mp (Multiset.toFinset_card_eq_card_iff_nodup.mp hcard)

end Relay.Web
