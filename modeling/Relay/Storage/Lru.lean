import Mathlib.Tactic

/-!
A bounded map that evicts the entry used longest ago, as the list of its
entries with the most recently used first, and the crates that implement it.
-/

namespace Relay.Storage

variable {κ α : Type}

structure LruList (κ α : Type) where
  cap : Nat
  entries : List (κ × α) := []

variable [DecidableEq κ]

/-- A hit moves its entry to the front. -/
def LruList.get (cache : LruList κ α) (key : κ) : Option α × LruList κ α :=
  match cache.entries.find? (fun entry => entry.1 = key) with
  | none => (none, cache)
  | some entry =>
      (some entry.2,
        { cache with entries := entry :: cache.entries.filter (fun other => other.1 ≠ key) })

def LruList.pop (cache : LruList κ α) (key : κ) : LruList κ α :=
  { cache with entries := cache.entries.filter (fun entry => entry.1 ≠ key) }

/-- A new entry goes to the front; beyond the capacity the last one falls out. -/
def LruList.put (cache : LruList κ α) (key : κ) (value : α) : LruList κ α :=
  { cache with
    entries := ((key, value) :: cache.entries.filter (fun entry => entry.1 ≠ key)).take
      cache.cap }

@[simp] theorem LruList.cap_get (cache : LruList κ α) (key : κ) :
    (cache.get key).2.cap = cache.cap := by
  unfold LruList.get
  split <;> rfl

@[simp] theorem LruList.cap_pop (cache : LruList κ α) (key : κ) :
    (cache.pop key).cap = cache.cap := rfl

@[simp] theorem LruList.cap_put (cache : LruList κ α) (key : κ) (value : α) :
    (cache.put key value).cap = cache.cap := rfl

/-- The value under a key, and nothing moved. -/
def LruList.lookup (cache : LruList κ α) (key : κ) : Option α :=
  (cache.entries.find? (fun entry => entry.1 = key)).map Prod.snd

/-- The `lru` crate: its caches hold such lists, and do with them what the
lists do. -/
structure LruCrate (κ α : Type) [DecidableEq κ] where
  LruCache : Type
  view : LruCache → LruList κ α
  new : Nat → LruCache
  get : LruCache → κ → Option α × LruCache
  pop : LruCache → κ → LruCache
  put : LruCache → κ → α → LruCache
  view_new (cap : Nat) : view (new cap) = { cap := cap }
  get_fst (cache : LruCache) (key : κ) : (get cache key).1 = ((view cache).get key).1
  view_get (cache : LruCache) (key : κ) : view (get cache key).2 = ((view cache).get key).2
  view_pop (cache : LruCache) (key : κ) : view (pop cache key) = (view cache).pop key
  view_put (cache : LruCache) (key : κ) (value : α) :
    view (put cache key value) = (view cache).put key value

/-- The lists themselves. -/
def listLru : LruCrate κ α where
  LruCache := LruList κ α
  view := id
  new cap := { cap := cap }
  get := LruList.get
  pop := LruList.pop
  put := LruList.put
  view_new _ := rfl
  get_fst _ _ := rfl
  view_get _ _ := rfl
  view_pop _ _ := rfl
  view_put _ _ _ := rfl

theorem LruList.mem_of_mem_get {cache : LruList κ α} (key : κ) {entry : κ × α}
    (h : entry ∈ (cache.get key).2.entries) : entry ∈ cache.entries := by
  unfold LruList.get at h
  split at h
  · exact h
  · rename_i hit hfind
    rcases List.mem_cons.mp h with rfl | hmem
    · exact List.mem_of_find?_eq_some hfind
    · exact (List.mem_filter.mp hmem).1

theorem LruList.mem_of_mem_pop {cache : LruList κ α} {key : κ} {entry : κ × α}
    (h : entry ∈ (cache.pop key).entries) : entry ∈ cache.entries :=
  (List.mem_filter.mp h).1

theorem LruList.mem_of_mem_put {cache : LruList κ α} {key : κ} {value : α} {entry : κ × α}
    (h : entry ∈ (cache.put key value).entries) :
    entry = (key, value) ∨ entry ∈ cache.entries := by
  have hmem := List.mem_of_mem_take h
  rcases List.mem_cons.mp hmem with rfl | hold
  · exact Or.inl rfl
  · exact Or.inr (List.mem_filter.mp hold).1

/-! ### What is found under a key -/

theorem LruList.get_eq_lookup (cache : LruList κ α) (key : κ) :
    (cache.get key).1 = cache.lookup key := by
  unfold LruList.get LruList.lookup
  split
  · rename_i hnone
    simp [hnone]
  · rename_i entry hfind
    simp [hfind]

theorem LruList.mem_of_lookup {cache : LruList κ α} {key : κ} {value : α}
    (h : cache.lookup key = some value) : (key, value) ∈ cache.entries := by
  obtain ⟨entry, hfind, rfl⟩ := Option.map_eq_some_iff.mp h
  have hkey : entry.1 = key := by simpa using List.find?_some hfind
  rw [← hkey]
  exact List.mem_of_find?_eq_some hfind

theorem LruList.lookup_ne_none {cache : LruList κ α} {entry : κ × α}
    (h : entry ∈ cache.entries) : cache.lookup entry.1 ≠ none := by
  intro hnone
  have hfind := List.find?_eq_none.mp (Option.map_eq_none_iff.mp hnone) entry h
  exact hfind (decide_eq_true rfl)

/-- Dropping one key changes nothing under the others. -/
theorem LruList.find_filter_ne (entries : List (κ × α)) {key other : κ} (h : other ≠ key) :
    (entries.filter (fun entry => entry.1 ≠ key)).find? (fun entry => entry.1 = other) =
      entries.find? (fun entry => entry.1 = other) := by
  rw [List.find?_filter]
  congr 1
  funext entry
  have himp : entry.1 = other → entry.1 ≠ key := fun heq => heq ▸ h
  simpa using himp

@[simp] theorem LruList.lookup_get (cache : LruList κ α) (key other : κ) :
    (cache.get key).2.lookup other = cache.lookup other := by
  unfold LruList.get LruList.lookup
  split
  · rfl
  · rename_i hit hfind
    have hkey : hit.1 = key := by simpa using List.find?_some hfind
    rcases eq_or_ne other key with rfl | hne
    · simp [hkey, hfind]
    · rw [List.find?_cons_of_neg (by simpa [hkey] using hne.symm), find_filter_ne _ hne]

theorem LruList.lookup_pop_self (cache : LruList κ α) (key : κ) :
    (cache.pop key).lookup key = none := by
  simp [LruList.pop, LruList.lookup, List.find?_filter]

theorem LruList.lookup_pop_of_ne (cache : LruList κ α) {key other : κ} (h : other ≠ key) :
    (cache.pop key).lookup other = cache.lookup other :=
  congrArg (Option.map Prod.snd) (find_filter_ne cache.entries h)

/-- A removal only forgets. -/
theorem LruList.lookup_of_lookup_pop {cache : LruList κ α} {key other : κ} {value : α}
    (h : (cache.pop key).lookup other = some value) : cache.lookup other = some value := by
  rcases eq_or_ne other key with rfl | hne
  · simp [lookup_pop_self] at h
  · rwa [lookup_pop_of_ne cache hne] at h

/-- After an insertion a key has the new value, the value it had, or none: it may
be the one that fell out. -/
theorem LruList.lookup_of_lookup_put {cache : LruList κ α} {key other : κ} {new value : α}
    (h : (cache.put key new).lookup other = some value) :
    other = key ∧ value = new ∨ other ≠ key ∧ cache.lookup other = some value := by
  unfold LruList.put LruList.lookup at h
  obtain ⟨entry, hfind, hvalue⟩ := Option.map_eq_some_iff.mp h
  have hall := (List.take_prefix _ _).find?_eq_some hfind
  rcases eq_or_ne other key with rfl | hne
  · rw [List.find?_cons_of_pos (by simp)] at hall
    cases hall
    exact Or.inl ⟨rfl, hvalue.symm⟩
  · rw [List.find?_cons_of_neg (by simpa using hne.symm), find_filter_ne _ hne] at hall
    refine Or.inr ⟨hne, ?_⟩
    simp [LruList.lookup, hall, hvalue]

end Relay.Storage
