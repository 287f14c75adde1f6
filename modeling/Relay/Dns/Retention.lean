import Relay.Dns.Freshness
import Relay.Storage.Recency

/-!
What the cache does not forget: an answer that was just kept or served is
served again until its lifetime is over, unless as many other names and types
as the cache has room for come up in between.
-/

namespace Relay.Dns

open Storage

section

variable (U : UnicodeTables) {C : CacheCrate}

/-- The key that a call is about. -/
def CacheCall.key : CacheCall → String
  | .get name qtype _ => cacheKey U name qtype
  | .insert name qtype _ _ _ => cacheKey U name qtype

/-- The other keys that come up. -/
def otherKeys (key : String) (calls : List CacheCall) : List String :=
  (calls.map (CacheCall.key U)).filter (· ≠ key)

/-- The call keeps an answer under the key, or is served the one there is. -/
def DnsCache.Uses (cache : DnsCache C) (key : String) (call : CacheCall) : Prop :=
  call.key U = key ∧
    match call with
    | .get name qtype now => (cache.get U name qtype now).1.isSome = true
    | .insert _ _ message _ _ => cache.ttlFor message ≠ 0

end

variable {U : UnicodeTables} {C : CacheCrate} {cache : DnsCache C} {key : String}
  {entry : CacheEntry}

theorem DnsCache.cap_after (cache : DnsCache C) (call : CacheCall) :
    (cache.after U call).held.cap = cache.held.cap := by
  cases call with
  | get name qtype now =>
      rw [DnsCache.after]
      rcases cache.get_cases name qtype now with
        ⟨_, _, hheld⟩ | ⟨_, _, _, _, _, hheld⟩ | ⟨_, _, _, _, hheld⟩ <;> rw [hheld] <;> simp
  | insert name qtype message originalUpstream now =>
      rw [DnsCache.after]
      by_cases hkept : cache.ttlFor message = 0
      · rw [insert_of_ttl hkept]
      · rw [held_insert hkept, LruList.cap_put]

theorem DnsCache.cap_afterAll (cache : DnsCache C) (calls : List CacheCall) :
    (cache.afterAll U calls).held.cap = cache.held.cap := by
  induction calls using List.reverseRecOn with
  | nil => rfl
  | append_singleton calls call ih => rw [afterAll_snoc, cap_after, ih]

/-- The answer that is found and not over yet is served. -/
theorem DnsCache.get_of_lookup {name : String} {qtype : RecordType} {now : Nat}
    {remaining : BitVec 32} (hlookup : cache.held.lookup (cacheKey U name qtype) = some entry)
    (hremaining : entry.remainingTtl now = some remaining) :
    (cache.get U name qtype now).1 = some (entry.served remaining) ∧
      (cache.get U name qtype now).2.held = (cache.held.get (cacheKey U name qtype)).2 := by
  rcases cache.get_cases name qtype now with
    ⟨hnone, _, _⟩ | ⟨found, left, hfound, hleft, hserved, hheld⟩ | ⟨found, hfound, hover, _, _⟩
  · rw [hlookup] at hnone
    cases hnone
  · rw [hlookup] at hfound
    cases hfound
    rw [hremaining] at hleft
    cases hleft
    exact ⟨hserved, hheld⟩
  · rw [hlookup] at hfound
    cases hfound
    rw [hremaining] at hover
    cases hover

/-- A use of the key puts its answer in front. -/
theorem DnsCache.Uses.behind {call : CacheCall} (h : cache.Uses U key call)
    (hcap : 0 < cache.held.cap) :
    ∃ entry, (cache.after U call).held.Behind key entry [] := by
  obtain ⟨hkey, huse⟩ := h
  subst hkey
  cases call with
  | get name qtype now =>
      obtain ⟨served, hserved⟩ := Option.isSome_iff_exists.mp huse
      obtain ⟨entry, remaining, hlookup, hremaining, _⟩ := get_hit_lookup hserved
      refine ⟨entry, ?_⟩
      rw [DnsCache.after, CacheCall.key, (get_of_lookup hlookup hremaining).2]
      exact LruList.behind_get ((LruList.get_eq_lookup _ _).trans hlookup)
  | insert name qtype message originalUpstream now =>
      refine ⟨⟨message, now, cache.ttlFor message, originalUpstream⟩, ?_⟩
      rw [DnsCache.after, held_insert huse]
      exact LruList.behind_put hcap _

/-- A call on another key, or one that keeps nothing under this one, leaves the
answer among the first. -/
theorem DnsCache.behind_after {others : List String} (h : cache.held.Behind key entry others)
    (hfew : others.dedup.length < cache.held.cap) {call : CacheCall}
    (hquiet : call.key U = key → match call with
      | .get _ _ now => (entry.remainingTtl now).isSome = true
      | .insert _ _ message _ _ => cache.ttlFor message = 0)
    (hother : call.key U = key ∨ call.key U ∈ others) :
    (cache.after U call).held.Behind key entry others := by
  have hnot : key ∉ others := by
    obtain ⟨_, _, _, hnot, _⟩ := h
    exact hnot
  by_cases hsame : call.key U = key
  · have hcall := hquiet hsame
    subst hsame
    cases call with
    | get name qtype now =>
        obtain ⟨remaining, hremaining⟩ := Option.isSome_iff_exists.mp hcall
        have hfront := LruList.behind_get ((LruList.get_eq_lookup _ _).trans h.lookup)
        rw [DnsCache.after, (get_of_lookup h.lookup hremaining).2]
        exact hfront.mono (List.nil_subset _) hnot
    | insert name qtype message originalUpstream now =>
        rw [DnsCache.after, insert_of_ttl hcall]
        exact h
  · have hmem := hother.resolve_left hsame
    cases call with
    | get name qtype now =>
        have hget := h.get hsame hmem
        rw [DnsCache.after]
        rcases cache.get_cases name qtype now with
          ⟨_, _, hheld⟩ | ⟨_, _, _, _, _, hheld⟩ | ⟨_, _, _, _, hheld⟩
        · exact hheld ▸ hget
        · exact hheld ▸ hget
        · exact hheld ▸ hget.pop hsame
    | insert name qtype message originalUpstream now =>
        rw [DnsCache.after]
        by_cases hkept : cache.ttlFor message = 0
        · rw [insert_of_ttl hkept]
          exact h
        · rw [held_insert hkept]
          exact h.put hsame hmem hfew _

section

variable {size : Nat} {minTtl maxTtl : BitVec 32} {name : String} {qtype : RecordType}

/-- What keeps nothing under the key of the name has no lifetime, or is about another key. -/
theorem CacheCall.ttl_of_keeps {first : DnsCache C} {other : String} {otherType : RecordType}
    {message : Message} {originalUpstream : String} {now : Nat}
    (h : CacheCall.keeps U first name qtype (.insert other otherType message originalUpstream now) =
      none) (hkey : cacheKey U other otherType = cacheKey U name qtype) :
    first.ttlFor message = 0 := by
  obtain ⟨hname, htype⟩ := cacheKey_eq_iff.mp hkey
  by_contra hlive
  simp only [CacheCall.keeps] at h
  rw [if_pos ⟨hname, htype, hlive⟩] at h
  cases h

/-- A lifetime that is not over leaves its seconds. -/
theorem CacheEntry.remainingTtl_of_live {entry : CacheEntry} {now : Nat}
    (hspan : now < entry.insertedAt + 2 ^ 32 * 1000000000)
    (hlive : entry.elapsed now < entry.ttl.toNat) :
    ∃ remaining, entry.remainingTtl now = some remaining ∧
      remaining.toNat = entry.ttl.toNat - entry.elapsed now := by
  have httl := entry.ttl.isLt
  have hleft : (BitVec.ofNat 32 (entry.ttl.toNat - entry.elapsed now)).toNat =
      entry.ttl.toNat - entry.elapsed now := by
    rw [BitVec.toNat_ofNat, Nat.mod_eq_of_lt (by omega)]
  exact ⟨_, (CacheEntry.remainingTtl_eq_some hspan).mpr ⟨hlive, hleft⟩, hleft⟩

/-- Calls on fewer other keys than there is room for leave the answer among the
first, as long as it is not over. -/
theorem DnsCache.behind_afterAll {others : List String} {since : List CacheCall}
    (h : cache.held.Behind (cacheKey U name qtype) entry others)
    (hfew : others.dedup.length < cache.held.cap)
    (hothers : ∀ call ∈ since, call.key U = cacheKey U name qtype ∨ call.key U ∈ others)
    (hquiet : ∀ call ∈ since, call.keeps U cache name qtype = none)
    (hlive : ∀ call ∈ since, (entry.remainingTtl call.instant).isSome = true) :
    (cache.afterAll U since).held.Behind (cacheKey U name qtype) entry others := by
  induction since using List.reverseRecOn with
  | nil => exact h
  | append_singleton since call ih =>
      have hbefore := ih (fun c hc => hothers c (List.mem_append_left _ hc))
        (fun c hc => hquiet c (List.mem_append_left _ hc))
        (fun c hc => hlive c (List.mem_append_left _ hc))
      have hlast : call ∈ since ++ [call] := by simp
      rw [afterAll_snoc]
      apply DnsCache.behind_after hbefore
      · rw [cap_afterAll]
        exact hfew
      · intro hkey
        have hcall := hquiet call hlast
        cases call with
        | get other otherType now => exact hlive _ hlast
        | insert other otherType message originalUpstream now =>
            dsimp only
            rw [ttlFor_afterAll]
            exact CacheCall.ttl_of_keeps hcall hkey
      · exact hothers call hlast

/-- The latest answer for a name, just kept or served, is served once more while
its lifetime lasts, unless as many other keys as there is room for come up. -/
theorem DnsCache.stays_while_few_others {before since : List CacheCall} {use : CacheCall}
    {now : Nat} (hclock : MonotoneClock (before ++ use :: since ++ [.get name qtype now]))
    (huse : ((DnsCache.new C size minTtl maxTtl).afterAll U before).Uses U
      (cacheKey U name qtype) use)
    (hlatest : latestKept U (DnsCache.new C size minTtl maxTtl) name qtype
      (before ++ use :: since) = some entry)
    (hquiet : ∀ call ∈ since, call.keeps U (DnsCache.new C size minTtl maxTtl) name qtype = none)
    (hfew : (otherKeys U (cacheKey U name qtype) since).dedup.length < max size 1)
    (hlive : entry.elapsed now < entry.ttl.toNat) :
    ∃ remaining, (((DnsCache.new C size minTtl maxTtl).afterAll U (before ++ use :: since)).get U
        name qtype now).1 = some (entry.served remaining) ∧
      remaining.toNat = entry.ttl.toNat - entry.elapsed now := by
  have hsplit : before ++ use :: since = before ++ [use] ++ since := by simp
  have hcap : ∀ calls, ((DnsCache.new C size minTtl maxTtl).afterAll U calls).held.cap =
      max size 1 := by
    intro calls
    rw [cap_afterAll, held_new]
  -- the answer that the use puts in front is the latest one
  obtain ⟨front, hfront⟩ := huse.behind (by rw [hcap]; omega)
  rw [← afterAll_snoc] at hfront
  have hfirst := latest_afterAll (U := U) C size minTtl maxTtl (before ++ [use]) name qtype front
    hfront.lookup
  rw [hsplit, latestKept_append hquiet, hfirst, Option.some.injEq] at hlatest
  subst hlatest
  obtain ⟨kept, hkept, hinstant, _⟩ := latestKept_origin hfirst
  have hspan : now < front.insertedAt + 2 ^ 32 * 1000000000 := by
    rw [← hinstant]
    apply hclock.span kept _ (.get name qtype now) (by simp)
    rw [hsplit]
    exact List.mem_append_left _ (List.mem_append_left _ hkept)
  have hfresh : ∀ call ∈ since, (front.remainingTtl call.instant).isSome = true := by
    intro call hcall
    have horder : call.instant ≤ now :=
      (List.pairwise_append.mp hclock.ordered).2.2 call (by simp [hcall]) (.get name qtype now)
        (by simp)
    have helapsed := front.elapsed_mono horder
    obtain ⟨remaining, hremaining, _⟩ := CacheEntry.remainingTtl_of_live
      (by omega : call.instant < front.insertedAt + 2 ^ 32 * 1000000000) (by omega)
    rw [hremaining]
    rfl
  have hothers : ∀ call ∈ since, call.key U = cacheKey U name qtype ∨
      call.key U ∈ otherKeys U (cacheKey U name qtype) since := by
    intro call hcall
    rw [or_iff_not_imp_left]
    intro hdiffers
    exact List.mem_filter.mpr ⟨List.mem_map_of_mem hcall, by simpa using hdiffers⟩
  have hnot : cacheKey U name qtype ∉ otherKeys U (cacheKey U name qtype) since := by
    intro hmem
    simpa using (List.mem_filter.mp hmem).2
  have hbehind := DnsCache.behind_afterAll (hfront.mono (List.nil_subset _) hnot)
    (by rw [hcap]; exact hfew) hothers (by
      intro call hcall
      have hkeeps := hquiet call hcall
      unfold CacheCall.keeps at hkeeps ⊢
      rw [ttlFor_afterAll]
      exact hkeeps) hfresh
  obtain ⟨remaining, hremaining, hleft⟩ := CacheEntry.remainingTtl_of_live hspan hlive
  refine ⟨remaining, ?_, hleft⟩
  have hafter : (DnsCache.new C size minTtl maxTtl).afterAll U (before ++ use :: since) =
      ((DnsCache.new C size minTtl maxTtl).afterAll U (before ++ [use])).afterAll U since := by
    rw [hsplit]
    exact List.foldl_append
  rw [hafter]
  exact (get_of_lookup hbehind.lookup hremaining).1

end

/-- Room for two: the answer for `a.` outlives one for `b.`. -/
theorem DnsCache.stays_while_few_others_two :
    ∃ remaining, (((DnsCache.new listLru 2 60 600).afterAll asciiTables
        (addressKept ++ [.insert "b." .a addressAnswer "default" 0])).get asciiTables "a." .a
          5000000000).1 =
        some ((⟨addressAnswer, 0, 300, "default"⟩ : CacheEntry).served remaining) ∧
      remaining.toNat = 295 := by
  have huse : ((DnsCache.new listLru 2 60 600).afterAll asciiTables []).Uses asciiTables
      (cacheKey asciiTables "a." .a) (.insert "A." .a addressAnswer "default" 0) :=
    ⟨rfl, by decide⟩
  have hlatest : latestKept asciiTables (DnsCache.new listLru 2 60 600) "a." .a
      ([] ++ .insert "A." .a addressAnswer "default" 0 ::
        [.insert "b." .a addressAnswer "default" 0]) =
      some ⟨addressAnswer, 0, 300, "default"⟩ := rfl
  have hclock : MonotoneClock ([] ++ .insert "A." .a addressAnswer "default" 0 ::
      [.insert "b." .a addressAnswer "default" 0] ++ [.get "a." .a 5000000000]) := by
    constructor
    · simp [CacheCall.instant]
    · intro first hfirst second hsecond
      simp only [List.nil_append, List.cons_append, List.mem_cons, List.not_mem_nil, or_false]
        at hfirst hsecond
      rcases hfirst with rfl | rfl | rfl <;> rcases hsecond with rfl | rfl | rfl <;>
        simp [CacheCall.instant]
  have hfew : (otherKeys asciiTables (cacheKey asciiTables "a." .a)
      [.insert "b." .a addressAnswer "default" 0]).dedup.length < max 2 1 := by
    decide
  apply DnsCache.stays_while_few_others hclock huse hlatest _ hfew
  · decide
  · intro call hcall
    rw [List.mem_singleton.mp hcall]
    rfl

end Relay.Dns
