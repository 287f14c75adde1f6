import Mathlib.Data.List.AList
import Mathlib.Tactic

/-!
Maps whose entries are made on first use, and maps of 64-bit counters. A
counter is the number of its increments modulo 2^64, and so is the sum of all
of them.
-/

namespace Relay.Logic

section Upsert

variable {κ β γ : Type} [DecidableEq κ]

/-- Update the entry of the key, made from the default when there is none. -/
def upsert (initial : β) (update : β → β) (map : AList fun _ : κ => β) (key : κ) :
    AList fun _ : κ => β :=
  map.insert key (update ((map.lookup key).getD initial))

theorem lookup_upsert (initial : β) (update : β → β) (map : AList fun _ : κ => β)
    (key key' : κ) :
    (upsert initial update map key').lookup key =
      if key' = key then some (update ((map.lookup key).getD initial)) else map.lookup key := by
  unfold upsert
  split
  case isTrue h =>
    subst h
    exact AList.lookup_insert map
  case isFalse h => exact AList.lookup_insert_ne (Ne.symm h)

/-- An entry after many updates has had those of its own key, in their order. -/
theorem lookup_foldl_upsert (initial : β) (update : γ → β → β) (key : γ → κ)
    (records : List γ) (map : AList fun _ : κ => β) (k : κ) :
    (records.foldl (fun m r => upsert initial (update r) m (key r)) map).lookup k =
      if records.filter (fun r => key r = k) = [] then map.lookup k
      else some ((records.filter (fun r => key r = k)).foldl (fun v r => update r v)
        ((map.lookup k).getD initial)) := by
  induction records generalizing map with
  | nil => rfl
  | cons r records ih =>
      rw [List.foldl_cons, ih, lookup_upsert]
      by_cases hkey : key r = k
      · rw [List.filter_cons_of_pos (by simpa using hkey)]
        by_cases hrest : records.filter (fun r => key r = k) = []
        · simp [hkey, hrest]
        · simp [hkey, hrest]
      · rw [List.filter_cons_of_neg (by simpa using hkey)]
        simp [hkey]

end Upsert

/-! ### Counters -/

variable {κ : Type} [DecidableEq κ]

abbrev Tally (κ : Type) := AList fun _ : κ => BitVec 64

/-- Count one more. -/
def Tally.bump (tally : Tally κ) (key : κ) : Tally κ := upsert 0 (· + 1) tally key

/-- The sum of the counters, as a number. -/
def Tally.total (tally : Tally κ) : Nat := (tally.entries.map fun e => e.2.toNat).sum

/-- A counter that is incremented for some of the elements. -/
theorem foldl_count {γ : Type} (counted : γ → Bool) (records : List γ) (start : BitVec 64) :
    records.foldl (fun n r => if counted r then n + 1 else n) start =
      start + BitVec.ofNat 64 (records.countP counted) := by
  induction records generalizing start with
  | nil => simp
  | cons r records ih =>
      rw [List.foldl_cons, ih]
      cases hr : counted r with
      | false => rw [if_neg (by simp), List.countP_cons_of_neg (by simp [hr])]
      | true =>
          rw [if_pos rfl, List.countP_cons_of_pos hr, Nat.add_comm _ 1, BitVec.ofNat_add,
            BitVec.add_assoc]
          rfl

theorem foldl_succ {γ : Type} (records : List γ) (start : BitVec 64) :
    records.foldl (fun n _ => n + 1) start = start + BitVec.ofNat 64 records.length := by
  rw [← List.countP_true, ← foldl_count]
  rfl

/-- A counter is the number of increments of its own key. -/
theorem Tally.lookup_bumps (keys : List κ) (key : κ) :
    ((keys.foldl Tally.bump ∅).lookup key).getD 0 = BitVec.ofNat 64 (keys.count key) := by
  have hfold := lookup_foldl_upsert (0 : BitVec 64) (fun (_ : κ) n => n + 1) id keys ∅ key
  simp only [id] at hfold
  unfold Tally.bump
  rw [hfold]
  have hcount : (keys.filter fun k => decide (k = key)).length = keys.count key := by
    rw [← List.countP_eq_length_filter]
    rfl
  split
  · rename_i hnone
    rw [hnone] at hcount
    rw [← hcount]
    rfl
  · rw [Option.getD_some, foldl_succ, hcount]
    exact BitVec.zero_add _

/-- Taking an entry out takes its counter from the sum. -/
private theorem sum_kerase (key : κ) (entries : List (Sigma fun _ : κ => BitVec 64)) :
    ((entries.kerase key).map fun e => e.2.toNat).sum +
        ((entries.dlookup key).getD 0).toNat =
      (entries.map fun e => e.2.toNat).sum := by
  induction entries with
  | nil => rfl
  | cons e entries ih =>
      obtain ⟨k, v⟩ := e
      by_cases hkey : key = k
      · subst hkey
        have hrest : (⟨key, v⟩ :: entries : List (Sigma fun _ : κ => BitVec 64)).kerase key =
            entries := List.kerase_cons_eq rfl
        rw [hrest, List.dlookup_cons_eq, Option.getD_some, List.map_cons, List.sum_cons]
        exact Nat.add_comm _ _
      · rw [List.kerase_cons_ne hkey, List.dlookup_cons_ne _ _ hkey, List.map_cons,
          List.sum_cons, List.map_cons, List.sum_cons, ← ih]
        exact Nat.add_assoc _ _ _

theorem Tally.total_bump (tally : Tally κ) (key : κ) :
    (tally.bump key).total + ((tally.lookup key).getD 0).toNat =
      tally.total + ((tally.lookup key).getD 0 + 1).toNat := by
  have herase := sum_kerase key tally.entries
  unfold Tally.total Tally.bump upsert
  rw [AList.entries_insert, List.map_cons, List.sum_cons, ← herase]
  simp only [AList.lookup]
  omega

/-- The sum of the counters is the number of increments modulo 2^64, and never
more than it. -/
theorem Tally.total_bumps (keys : List κ) :
    (keys.foldl Tally.bump ∅).total ≡ keys.length [MOD 2 ^ 64] ∧
      (keys.foldl Tally.bump ∅).total ≤ keys.length := by
  have hfrom : ∀ tally : Tally κ,
      (keys.foldl Tally.bump tally).total ≡ tally.total + keys.length [MOD 2 ^ 64] ∧
        (keys.foldl Tally.bump tally).total ≤ tally.total + keys.length := by
    induction keys with
    | nil => exact fun tally => ⟨Nat.ModEq.refl _, Nat.le_refl _⟩
    | cons key keys ih =>
        intro tally
        obtain ⟨hmod, hle⟩ := ih (tally.bump key)
        have hstep := tally.total_bump key
        have hsucc : ((tally.lookup key).getD 0 + 1).toNat =
            (((tally.lookup key).getD 0).toNat + 1) % 2 ^ 64 := BitVec.toNat_add _ _
        have hlt := ((tally.lookup key).getD 0).isLt
        simp only [List.foldl_cons, List.length_cons]
        unfold Nat.ModEq at hmod ⊢
        constructor
        · omega
        · omega
  have hempty := hfrom ∅
  rwa [show (∅ : Tally κ).total = 0 from rfl, Nat.zero_add] at hempty

theorem Tally.total_bumps_of_lt {keys : List κ} (h : keys.length < 2 ^ 64) :
    (keys.foldl Tally.bump ∅).total = keys.length := by
  obtain ⟨hmod, hle⟩ := Tally.total_bumps keys
  unfold Nat.ModEq at hmod
  omega

end Relay.Logic
