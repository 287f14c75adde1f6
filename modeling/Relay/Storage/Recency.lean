import Relay.Storage.Lru

/-!
How long an entry stays in a bounded map: as long as fewer other keys than it
has room for are used after it. The entries in front of it have keys that were
used since, and each of these only once.
-/

namespace Relay.Storage

variable {κ α : Type}

/-- The entry is there, behind entries of some of these other keys. -/
def LruList.Behind (cache : LruList κ α) (key : κ) (value : α) (others : List κ) : Prop :=
  ∃ front back, cache.entries = front ++ (key, value) :: back ∧ key ∉ others ∧
    (∀ entry ∈ front, entry.1 ∈ others) ∧ (front.map Prod.fst).Nodup

variable {cache : LruList κ α} {key : κ} {value : α} {others : List κ}

theorem LruList.Behind.mono (h : cache.Behind key value others) {more : List κ}
    (hsub : others ⊆ more) (hkey : key ∉ more) : cache.Behind key value more := by
  obtain ⟨front, back, hentries, _, hfront, hnodup⟩ := h
  exact ⟨front, back, hentries, hkey, fun entry hentry => hsub (hfront entry hentry), hnodup⟩

variable [DecidableEq κ]

/-- The entry is found under its key. -/
theorem LruList.Behind.lookup (h : cache.Behind key value others) :
    cache.lookup key = some value := by
  obtain ⟨front, back, hentries, hkey, hfront, _⟩ := h
  have hnone : front.find? (fun entry => entry.1 = key) = none := by
    rw [List.find?_eq_none]
    intro entry hentry hsame
    have hother := hfront entry hentry
    rw [of_decide_eq_true hsame] at hother
    exact hkey hother
  unfold LruList.lookup
  rw [hentries, List.find?_append, hnone]
  simp

/-- A hit puts the entry in front of all others. -/
theorem LruList.behind_get {value : α} (h : (cache.get key).1 = some value) :
    (cache.get key).2.Behind key value [] := by
  unfold LruList.get at h ⊢
  split at h
  · cases h
  · rename_i entry hfind
    cases h
    have hkey : entry.1 = key := by simpa using List.find?_some hfind
    refine ⟨[], cache.entries.filter fun other => other.1 ≠ key, ?_, List.not_mem_nil,
      List.forall_mem_nil _, List.nodup_nil⟩
    rw [← hkey]
    rfl

/-- So does an insertion, where there is room for one entry. -/
theorem LruList.behind_put (hcap : 0 < cache.cap) (value : α) :
    (cache.put key value).Behind key value [] := by
  obtain ⟨n, hn⟩ : ∃ n, cache.cap = n + 1 := ⟨cache.cap - 1, by omega⟩
  refine ⟨[], (cache.entries.filter fun entry => entry.1 ≠ key).take n, ?_, List.not_mem_nil,
    List.forall_mem_nil _, List.nodup_nil⟩
  unfold LruList.put
  rw [hn, List.take_succ_cons]
  rfl

/-- Taking another key out leaves the entry where it is. -/
private theorem filter_behind {front back : List (κ × α)} {other : κ} (hne : other ≠ key) :
    (front ++ (key, value) :: back).filter (fun entry => entry.1 ≠ other) =
      front.filter (fun entry => entry.1 ≠ other) ++
        (key, value) :: back.filter (fun entry => entry.1 ≠ other) := by
  rw [List.filter_append, List.filter_cons_of_pos (by simpa using Ne.symm hne)]

private theorem nodup_filter {front : List (κ × α)} (other : κ)
    (h : (front.map Prod.fst).Nodup) :
    ((front.filter fun entry => entry.1 ≠ other).map Prod.fst).Nodup :=
  h.sublist (List.Sublist.map _ List.filter_sublist)

theorem LruList.Behind.pop (h : cache.Behind key value others) {other : κ} (hne : other ≠ key) :
    (cache.pop other).Behind key value others := by
  obtain ⟨front, back, hentries, hkey, hfront, hnodup⟩ := h
  refine ⟨front.filter (fun entry => entry.1 ≠ other), back.filter (fun entry => entry.1 ≠ other),
    ?_, hkey, fun entry hentry => hfront entry (List.mem_of_mem_filter hentry),
    nodup_filter other hnodup⟩
  unfold LruList.pop
  rw [hentries, filter_behind hne]

/-- One more key comes to the front. -/
private theorem nodup_cons_filter {front : List (κ × α)} (entry : κ × α)
    (h : (front.map Prod.fst).Nodup) :
    ((entry :: front.filter fun other => other.1 ≠ entry.1).map Prod.fst).Nodup := by
  rw [List.map_cons, List.nodup_cons]
  refine ⟨?_, nodup_filter entry.1 h⟩
  intro hmem
  obtain ⟨other, hother, hsame⟩ := List.mem_map.mp hmem
  have hdiffers := (List.mem_filter.mp hother).2
  rw [hsame] at hdiffers
  simp at hdiffers

theorem LruList.Behind.get (h : cache.Behind key value others) {other : κ} (hne : other ≠ key)
    (hother : other ∈ others) : (cache.get other).2.Behind key value others := by
  obtain ⟨front, back, hentries, hkey, hfront, hnodup⟩ := h
  unfold LruList.get
  split
  · exact ⟨front, back, hentries, hkey, hfront, hnodup⟩
  · rename_i hit hfind
    have hhit : hit.1 = other := by simpa using List.find?_some hfind
    refine ⟨hit :: front.filter (fun entry => entry.1 ≠ hit.1),
      back.filter (fun entry => entry.1 ≠ hit.1), ?_, hkey, ?_, nodup_cons_filter hit hnodup⟩
    · rw [← hhit] at hne
      rw [hentries, ← hhit, filter_behind hne]
      rfl
    · intro entry hentry
      rcases List.mem_cons.mp hentry with rfl | hold
      · rw [hhit]
        exact hother
      · exact hfront entry (List.mem_of_mem_filter hold)

theorem LruList.Behind.put (h : cache.Behind key value others) {other : κ} (hne : other ≠ key)
    (hother : other ∈ others) (hfew : others.dedup.length < cache.cap) (new : α) :
    (cache.put other new).Behind key value others := by
  obtain ⟨front, back, hentries, hkey, hfront, hnodup⟩ := h
  have hahead : ∀ entry ∈ (other, new) :: front.filter (fun entry => entry.1 ≠ other),
      entry.1 ∈ others := by
    intro entry hentry
    rcases List.mem_cons.mp hentry with rfl | hold
    · exact hother
    · exact hfront entry (List.mem_of_mem_filter hold)
  have hahead' : (((other, new) :: front.filter (fun entry => entry.1 ≠ other)).map
      Prod.fst).Nodup := nodup_cons_filter (other, new) hnodup
  -- the keys in front are different ones of the others
  have hlength : ((other, new) :: front.filter (fun entry => entry.1 ≠ other)).length ≤
      others.dedup.length := by
    rw [← List.length_map (f := Prod.fst)]
    apply (hahead'.subperm ?_).length_le
    intro k hk
    obtain ⟨entry, hentry, rfl⟩ := List.mem_map.mp hk
    exact List.mem_dedup.mpr (hahead entry hentry)
  refine ⟨(other, new) :: front.filter (fun entry => entry.1 ≠ other),
    (back.filter (fun entry => entry.1 ≠ other)).take
      (cache.cap - (((other, new) :: front.filter (fun entry => entry.1 ≠ other)).length + 1)),
    ?_, hkey, hahead, hahead'⟩
  unfold LruList.put
  rw [hentries, filter_behind hne, ← List.cons_append, List.take_append,
    List.take_of_length_le (by omega)]
  obtain ⟨n, hn⟩ : ∃ n, cache.cap -
      ((other, new) :: front.filter (fun entry => entry.1 ≠ other)).length = n + 1 :=
    ⟨_, (Nat.succ_pred_eq_of_pos (by omega)).symm⟩
  rw [hn, List.take_succ_cons, Nat.sub_add_eq, hn]
  rfl

end Relay.Storage
