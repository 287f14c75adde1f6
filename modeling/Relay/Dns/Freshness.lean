import Relay.Dns.Cache

/-!
What a hit in the cache is, over any calls: the latest answer kept for the name
and the type, with the seconds it has left.
-/

namespace Relay.Dns

open Storage

/-- A call on the cache, at its instant. -/
inductive CacheCall where
  | get (name : String) (qtype : RecordType) (now : Nat)
  | insert (name : String) (qtype : RecordType) (message : Message) (originalUpstream : String)
      (now : Nat)

def CacheCall.instant : CacheCall → Nat
  | .get _ _ now => now
  | .insert _ _ _ _ now => now

/-- A clock that never goes back, over less than `2 ^ 32` seconds. -/
structure MonotoneClock (calls : List CacheCall) : Prop where
  ordered : calls.Pairwise fun first second => first.instant ≤ second.instant
  span : ∀ first ∈ calls, ∀ second ∈ calls,
    second.instant < first.instant + 2 ^ 32 * 1000000000

variable (U : UnicodeTables) {C : CacheCrate}

def DnsCache.after (cache : DnsCache C) : CacheCall → DnsCache C
  | .get name qtype now => (cache.get U name qtype now).2
  | .insert name qtype message originalUpstream now =>
      cache.insert U name qtype message originalUpstream now

/-- The cache after the calls, from the one first made. -/
def DnsCache.afterAll (cache : DnsCache C) (calls : List CacheCall) : DnsCache C :=
  calls.foldl (DnsCache.after U) cache

/-- What the call keeps for the name and the type: an answer with a lifetime, to
a name that is the same but for letter case. -/
def CacheCall.keeps (cache : DnsCache C) (name : String) (qtype : RecordType) :
    CacheCall → Option CacheEntry
  | .get _ _ _ => none
  | .insert other otherType message originalUpstream now =>
      if U.toLowercase other = U.toLowercase name ∧ otherType = qtype ∧
          cache.ttlFor message ≠ 0 then
        some ⟨message, now, cache.ttlFor message, originalUpstream⟩
      else none

/-- The latest answer that was kept for the name and the type. -/
def latestKept (cache : DnsCache C) (name : String) (qtype : RecordType)
    (calls : List CacheCall) : Option CacheEntry :=
  (calls.filterMap (CacheCall.keeps U cache name qtype)).getLast?

/-- The whole seconds since the answer was kept. -/
def CacheEntry.elapsed (entry : CacheEntry) (now : Nat) : Nat :=
  (now - entry.insertedAt) / 1000000000

/-- The smallest TTL of the answers and additionals; with none of these, the
default. -/
def SmallestTtl (default : Nat) (message : Message) (ttl : Nat) : Prop :=
  let ttls := (message.answers ++ message.additionals).map fun record => record.ttl.toNat
  ttls = [] ∧ ttl = default ∨ ttl ∈ ttls ∧ ∀ other ∈ ttls, ttl ≤ other

variable {U}

section

variable {cache : DnsCache C} {name : String} {qtype : RecordType}

theorem cacheKey_eq_iff {name other : String} {qtype otherType : RecordType} :
    cacheKey U other otherType = cacheKey U name qtype ↔
      U.toLowercase other = U.toLowercase name ∧ otherType = qtype := by
  constructor
  · intro h
    obtain ⟨hname, htype⟩ := Text.append_colon_number h
    exact ⟨hname, UInt16.toNat_inj.mp htype⟩
  · rintro ⟨hname, rfl⟩
    simp [cacheKey, hname]

/-- The bounds on lifetimes are those of the cache first made. -/
theorem DnsCache.ttlFor_after (cache : DnsCache C) (call : CacheCall) :
    (cache.after U call).ttlFor = cache.ttlFor := by
  cases call with
  | get name qtype now =>
      simp only [after, DnsCache.get]
      split
      · rfl
      · split
        · rfl
        · rfl
  | insert name qtype message originalUpstream now =>
      simp only [after, DnsCache.insert]
      split
      · rfl
      · rfl

theorem DnsCache.afterAll_snoc (cache : DnsCache C) (calls : List CacheCall) (call : CacheCall) :
    cache.afterAll U (calls ++ [call]) = (cache.afterAll U calls).after U call := by
  simp [afterAll]

theorem DnsCache.ttlFor_afterAll (cache : DnsCache C) (calls : List CacheCall) :
    (cache.afterAll U calls).ttlFor = cache.ttlFor := by
  induction calls using List.reverseRecOn with
  | nil => rfl
  | append_singleton calls call ih => rw [afterAll_snoc, ttlFor_after, ih]

theorem latestKept_of_keeps {calls : List CacheCall} {call : CacheCall} {entry : CacheEntry}
    (h : call.keeps U cache name qtype = some entry) :
    latestKept U cache name qtype (calls ++ [call]) = some entry := by
  simp [latestKept, List.filterMap_append, h]

/-- Calls that keep nothing for the name and the type leave the latest answer the
latest. -/
theorem latestKept_append {calls others : List CacheCall}
    (h : ∀ call ∈ others, call.keeps U cache name qtype = none) :
    latestKept U cache name qtype (calls ++ others) = latestKept U cache name qtype calls := by
  have hnone : others.filterMap (CacheCall.keeps U cache name qtype) = [] :=
    List.filterMap_eq_nil_iff.mpr h
  simp [latestKept, List.filterMap_append, hnone]

/-- Names that are the same but for letter case have the same latest answer. -/
theorem latestKept_congr {other : String} (h : U.toLowercase other = U.toLowercase name)
    (calls : List CacheCall) :
    latestKept U cache other qtype calls = latestKept U cache name qtype calls := by
  have hkeeps : CacheCall.keeps U cache other qtype = CacheCall.keeps U cache name qtype := by
    funext call
    cases call with
    | get => rfl
    | insert => simp only [CacheCall.keeps, h]
  simp only [latestKept, hkeeps]

/-- The latest answer was kept by one of the calls. -/
theorem latestKept_origin {calls : List CacheCall} {entry : CacheEntry}
    (h : latestKept U cache name qtype calls = some entry) :
    ∃ call ∈ calls, call.instant = entry.insertedAt ∧ entry.ttl = cache.ttlFor entry.message := by
  have hmem := List.mem_of_getLast? h
  obtain ⟨call, hcall, hkeeps⟩ := List.mem_filterMap.mp hmem
  cases call with
  | get => cases hkeeps
  | insert other otherType message originalUpstream now =>
      simp only [CacheCall.keeps] at hkeeps
      split at hkeeps
      · cases hkeeps
        exact ⟨_, hcall, rfl, rfl⟩
      · cases hkeeps

/-- Every entry is the latest answer kept under its name and type. -/
def DnsCache.Latest (cache : DnsCache C) (first : DnsCache C) (calls : List CacheCall) : Prop :=
  ∀ name qtype entry, cache.held.lookup (cacheKey U name qtype) = some entry →
    latestKept U first name qtype calls = some entry

/-- Asking only forgets. -/
theorem DnsCache.lookup_of_lookup_get {key : String} {now : Nat} {entry : CacheEntry}
    (h : (cache.get U name qtype now).2.held.lookup key = some entry) :
    cache.held.lookup key = some entry := by
  rcases cache.get_cases name qtype now with
    ⟨_, _, hheld⟩ | ⟨_, _, _, _, _, hheld⟩ | ⟨_, _, _, _, hheld⟩
  · rwa [hheld, LruList.lookup_get] at h
  · rwa [hheld, LruList.lookup_get] at h
  · rw [hheld] at h
    rw [← LruList.lookup_get cache.held (cacheKey U name qtype)]
    exact LruList.lookup_of_lookup_pop h

theorem DnsCache.Latest.after {first : DnsCache C} {calls : List CacheCall}
    (h : cache.Latest (U := U) first calls) (hbounds : cache.ttlFor = first.ttlFor)
    (call : CacheCall) : (cache.after U call).Latest (U := U) first (calls ++ [call]) := by
  intro name qtype entry hentry
  cases call with
  | get asked askedType now =>
      rw [latestKept_append (by simp [CacheCall.keeps])]
      exact h name qtype entry (lookup_of_lookup_get hentry)
  | insert other otherType message originalUpstream now =>
      rw [DnsCache.after] at hentry
      by_cases hlive : first.ttlFor message = 0
      · rw [insert_of_ttl (hbounds ▸ hlive)] at hentry
        rw [latestKept_append (by simp [CacheCall.keeps, hlive])]
        exact h name qtype entry hentry
      · rw [held_insert (hbounds ▸ hlive), hbounds] at hentry
        rcases LruList.lookup_of_lookup_put hentry with ⟨hkey, rfl⟩ | ⟨hkey, hold⟩
        · apply latestKept_of_keeps
          obtain ⟨hname, htype⟩ := cacheKey_eq_iff.mp hkey.symm
          simp only [CacheCall.keeps]
          exact if_pos ⟨hname, htype, hlive⟩
        · have hother : ¬ (U.toLowercase other = U.toLowercase name ∧ otherType = qtype) :=
            fun hsame => hkey (cacheKey_eq_iff.mpr hsame).symm
          have hnone : CacheCall.keeps U first name qtype
              (.insert other otherType message originalUpstream now) = none := by
            simp only [CacheCall.keeps]
            exact if_neg fun hsame => hother ⟨hsame.1, hsame.2.1⟩
          rw [latestKept_append (by simpa using hnone)]
          exact h name qtype entry hold

theorem DnsCache.latest_afterAll (C : CacheCrate) (size : Nat) (minTtl maxTtl : BitVec 32)
    (calls : List CacheCall) :
    ((DnsCache.new C size minTtl maxTtl).afterAll U calls).Latest (U := U)
      (DnsCache.new C size minTtl maxTtl) calls := by
  induction calls using List.reverseRecOn with
  | nil =>
      intro name qtype entry hentry
      rw [afterAll, List.foldl_nil, held_new] at hentry
      cases hentry
  | append_singleton calls call ih =>
      rw [afterAll_snoc]
      exact ih.after (ttlFor_afterAll _ calls) call

end

/-! ### Lifetimes -/

theorem smallestTtl_iff {default ttl : Nat} {message : Message} :
    SmallestTtl default message ttl ↔
      ((message.answers ++ message.additionals).map fun record =>
        record.ttl.toNat).min?.getD default = ttl := by
  unfold SmallestTtl
  dsimp only
  generalize (message.answers ++ message.additionals).map (fun record => record.ttl.toNat) = ttls
  cases hmin : ttls.min? with
  | none =>
      have hnil := List.min?_eq_none_iff.mp hmin
      subst hnil
      simp [eq_comm]
  | some least =>
      obtain ⟨hmem, hle⟩ := List.min?_eq_some_iff.mp hmin
      simp only [Option.getD_some]
      constructor
      · rintro (⟨rfl, _⟩ | ⟨httl, hleast⟩)
        · cases hmem
        · exact Nat.le_antisymm (hle _ httl) (hleast _ hmem)
      · rintro rfl
        exact Or.inr ⟨hmem, hle⟩

/-- The lifetime of an answer, clamped in a `u32`. -/
theorem DnsCache.ttlFor_toNat (cache : DnsCache C) {message : Message} {smallest : Nat}
    (h : SmallestTtl cache.minTtl.toNat message smallest) :
    (cache.ttlFor message).toNat =
      min (max smallest cache.minTtl.toNat) cache.maxTtl.toNat := by
  have hmax := cache.maxTtl.isLt
  unfold DnsCache.ttlFor
  dsimp only
  rw [smallestTtl_iff.mp h, BitVec.toNat_ofNat]
  apply Nat.mod_eq_of_lt
  omega

theorem exists_smallestTtl (default : Nat) (message : Message) :
    ∃ smallest, SmallestTtl default message smallest :=
  ⟨_, smallestTtl_iff.mpr rfl⟩

/-- Within `2 ^ 32` seconds the `u32` count of them is exact. -/
theorem CacheEntry.remainingTtl_eq_some {entry : CacheEntry} {now : Nat} {remaining : BitVec 32}
    (hspan : now < entry.insertedAt + 2 ^ 32 * 1000000000) :
    entry.remainingTtl now = some remaining ↔
      entry.elapsed now < entry.ttl.toNat ∧
        remaining.toNat = entry.ttl.toNat - entry.elapsed now := by
  have hlt : entry.elapsed now < 2 ^ 32 := by
    apply Nat.div_lt_of_lt_mul
    omega
  have hexact : (BitVec.ofNat 32 (entry.elapsed now)).toNat = entry.elapsed now := by
    simpa using hlt
  have hform : entry.remainingTtl now =
      if entry.ttl ≤ BitVec.ofNat 32 (entry.elapsed now) then none
      else some (entry.ttl - BitVec.ofNat 32 (entry.elapsed now)) := rfl
  rw [hform]
  split
  · rename_i hover
    rw [BitVec.le_def, hexact] at hover
    simp only [reduceCtorEq, false_iff, not_and]
    omega
  · rename_i hlive
    rw [BitVec.le_def, hexact, Nat.not_le] at hlive
    have hsub : (entry.ttl - BitVec.ofNat 32 (entry.elapsed now)).toNat =
        entry.ttl.toNat - entry.elapsed now := by
      rw [BitVec.toNat_sub_of_le (by rw [BitVec.le_def, hexact]; omega), hexact]
    simp only [Option.some.injEq, ← BitVec.toNat_inj, hsub, hlive, true_and]
    exact eq_comm

/-! ### Hits -/

section

variable {size : Nat} {minTtl maxTtl : BitVec 32} {before : List CacheCall} {name : String}
  {qtype : RecordType} {now : Nat} {served : Message × String}

/-- A hit is the latest answer kept, not yet over. -/
theorem DnsCache.hit_latest
    (hclock : MonotoneClock (before ++ [.get name qtype now]))
    (hhit : (((DnsCache.new C size minTtl maxTtl).afterAll U before).get U name qtype now).1 =
      some served) :
    ∃ entry remaining, latestKept U (DnsCache.new C size minTtl maxTtl) name qtype before =
        some entry ∧
      entry.elapsed now < entry.ttl.toNat ∧
      remaining.toNat = entry.ttl.toNat - entry.elapsed now ∧
      served = entry.served remaining := by
  have hlatest := latest_afterAll (U := U) C size minTtl maxTtl before
  obtain ⟨entry, remaining, hentry, hremaining, hserved⟩ := get_hit_lookup hhit
  have hkept := hlatest name qtype entry hentry
  obtain ⟨call, hcall, hinstant, _⟩ := latestKept_origin hkept
  have hspan := hclock.span call (by simp [hcall]) (.get name qtype now) (by simp)
  rw [hinstant] at hspan
  obtain ⟨hlive, hleft⟩ := (CacheEntry.remainingTtl_eq_some hspan).mp hremaining
  exact ⟨entry, remaining, hkept, hlive, hleft, hserved⟩

/-- What is kept lives from one to the greatest number of seconds. -/
theorem latestKept_lifetime {calls : List CacheCall} {entry : CacheEntry}
    (h : latestKept U (DnsCache.new C size minTtl maxTtl) name qtype calls = some entry) :
    ∃ smallest, SmallestTtl minTtl.toNat entry.message smallest ∧
      entry.ttl.toNat = min (max smallest minTtl.toNat) maxTtl.toNat := by
  obtain ⟨call, _, _, httl⟩ := latestKept_origin h
  obtain ⟨smallest, hsmallest⟩ := exists_smallestTtl minTtl.toNat entry.message
  refine ⟨smallest, hsmallest, ?_⟩
  rw [httl]
  exact DnsCache.ttlFor_toNat (DnsCache.new C size minTtl maxTtl) hsmallest

theorem CacheEntry.elapsed_mono (entry : CacheEntry) {first second : Nat}
    (h : first ≤ second) : entry.elapsed first ≤ entry.elapsed second :=
  Nat.div_le_div_right (Nat.sub_le_sub_right h entry.insertedAt)

theorem CacheEntry.served_ttl (entry : CacheEntry) (remaining : BitVec 32) :
    ∀ record ∈ (entry.served remaining).1.answers ++ (entry.served remaining).1.additionals,
      record.ttl = remaining := by
  simp only [CacheEntry.served, List.mem_append, List.mem_map]
  rintro record (⟨stored, _, rfl⟩ | ⟨stored, _, rfl⟩)
  · rfl
  · rfl

/-- A hit is the latest answer kept, within its lifetime, with the whole seconds
left in its answers and additionals; these do not grow until another answer is
kept. -/
theorem DnsCache.hit_fresh
    (hclock : MonotoneClock (before ++ [.get name qtype now]))
    (hhit : (((DnsCache.new C size minTtl maxTtl).afterAll U before).get U name qtype now).1 =
      some served) :
    ∃ entry smallest remaining,
      latestKept U (DnsCache.new C size minTtl maxTtl) name qtype before = some entry ∧
      SmallestTtl minTtl.toNat entry.message smallest ∧
      entry.ttl.toNat = min (max smallest minTtl.toNat) maxTtl.toNat ∧
      entry.elapsed now < entry.ttl.toNat ∧
      served = entry.served remaining ∧
      (∀ record ∈ served.1.answers ++ served.1.additionals, record.ttl = remaining) ∧
      remaining.toNat = entry.ttl.toNat - entry.elapsed now ∧
      1 ≤ remaining.toNat ∧ remaining ≤ maxTtl ∧
      ∀ between other later again,
        MonotoneClock (before ++ .get name qtype now :: between ++ [.get other qtype later]) →
        U.toLowercase other = U.toLowercase name →
        (∀ call ∈ between,
          call.keeps U (DnsCache.new C size minTtl maxTtl) name qtype = none) →
        (((DnsCache.new C size minTtl maxTtl).afterAll U
          (before ++ .get name qtype now :: between)).get U other qtype later).1 = some again →
        ∃ left, again = entry.served left ∧
          left.toNat = entry.ttl.toNat - entry.elapsed later ∧ left ≤ remaining := by
  obtain ⟨entry, remaining, hkept, hlive, hleft, hserved⟩ := hit_latest hclock hhit
  obtain ⟨smallest, hsmallest, httl⟩ := latestKept_lifetime hkept
  refine ⟨entry, smallest, remaining, hkept, hsmallest, httl, hlive, hserved, ?_, hleft, ?_, ?_, ?_⟩
  · rw [hserved]
    exact entry.served_ttl remaining
  · omega
  · rw [BitVec.le_def]
    omega
  · intro between other later again hclock' hname hquiet hagain
    obtain ⟨entry', left, hkept', _, hleft', hserved'⟩ := hit_latest hclock' hagain
    have hnothing : ∀ call ∈ CacheCall.get name qtype now :: between,
        call.keeps U (DnsCache.new C size minTtl maxTtl) name qtype = none := by
      simpa [CacheCall.keeps] using hquiet
    rw [latestKept_congr hname, latestKept_append hnothing, hkept] at hkept'
    cases hkept'
    refine ⟨left, hserved', hleft', ?_⟩
    have horder : now ≤ later := by
      have hpairs := List.pairwise_append.mp hclock'.ordered
      exact hpairs.2.2 (.get name qtype now) (by simp) (.get other qtype later) (by simp)
    have hgrows := entry.elapsed_mono horder
    rw [BitVec.le_def]
    omega

end

/-- An address that lives 300 seconds. -/
def addressAnswer : Message where
  messageType := .response
  answers := [{ name := { labels := [[97]] }, recordType := .a, ttl := 300, data := some (.a 1) }]

/-- One answer kept for `A.`, asked for as `a.` five seconds later. -/
def addressKept : List CacheCall := [.insert "A." .a addressAnswer "default" 0]

/-- Two calls five seconds apart. -/
theorem MonotoneClock.pair {first second : CacheCall} (hfirst : first.instant = 0)
    (hsecond : second.instant = 5000000000) : MonotoneClock [first, second] where
  ordered := by simp [hfirst, hsecond]
  span := by
    intro call hcall other hother
    simp only [List.mem_cons, List.not_mem_nil, or_false] at hcall hother
    rcases hcall with rfl | rfl <;> rcases hother with rfl | rfl <;> omega

theorem addressKept_clock : MonotoneClock (addressKept ++ [.get "a." .a 5000000000]) :=
  MonotoneClock.pair rfl rfl

private theorem address_hit :
    (((DnsCache.new listLru 16 60 600).afterAll asciiTables addressKept).get asciiTables "a." .a
      5000000000).1 = some ((⟨addressAnswer, 0, 300, "default"⟩ : CacheEntry).served 295) := by
  rfl

theorem DnsCache.hit_fresh_address :
    ∃ entry remaining, latestKept asciiTables (DnsCache.new listLru 16 60 600) "a." .a addressKept =
        some entry ∧
      (⟨addressAnswer, 0, 300, "default"⟩ : CacheEntry).served 295 = entry.served remaining ∧
      remaining.toNat = entry.ttl.toNat - entry.elapsed 5000000000 := by
  obtain ⟨entry, _, remaining, hkept, _, _, _, hserved, _, hleft, _⟩ :=
    DnsCache.hit_fresh addressKept_clock address_hit
  exact ⟨entry, remaining, hkept, hserved, hleft⟩

/-! ### The sections of a hit -/

def Message.records (message : Message) : List Record :=
  message.answers ++ message.nameServers ++ message.additionals

section

variable {size : Nat} {minTtl maxTtl : BitVec 32} {before : List CacheCall} {name : String}
  {qtype : RecordType} {now : Nat} {served : Message × String}

/-- No record of a hit outlives the entry exactly when no authority record of
the answer kept does: their TTLs are as they were. -/
theorem DnsCache.hit_ages_iff
    (hclock : MonotoneClock (before ++ [.get name qtype now]))
    (hhit : (((DnsCache.new C size minTtl maxTtl).afterAll U before).get U name qtype now).1 =
      some served) :
    ∃ entry, latestKept U (DnsCache.new C size minTtl maxTtl) name qtype before = some entry ∧
      ((∀ record ∈ served.1.records,
          record.ttl.toNat ≤ entry.ttl.toNat - entry.elapsed now) ↔
        ∀ record ∈ entry.message.nameServers,
          record.ttl.toNat ≤ entry.ttl.toNat - entry.elapsed now) := by
  obtain ⟨entry, remaining, hkept, _, hleft, rfl⟩ := hit_latest hclock hhit
  refine ⟨entry, hkept, ?_, ?_⟩
  · intro hall record hrecord
    apply hall
    simp [Message.records, CacheEntry.served, hrecord]
  · intro hauthority record hrecord
    have haged := entry.served_ttl remaining record
    simp only [Message.records, List.mem_append] at hrecord haged
    rcases hrecord with (hanswer | hserver) | hadditional
    · simp [haged (Or.inl hanswer), hleft]
    · exact hauthority record hserver
    · simp [haged (Or.inr hadditional), hleft]

end

/-- An address, with a name server that may be kept for as long as the entry. -/
def delegatedAnswer : Message :=
  { addressAnswer with
    nameServers :=
      [{ name := { labels := [[97]] }, recordType := 2, ttl := 295, data := some (.other []) }] }

def delegatedKept : List CacheCall := [.insert "a." .a delegatedAnswer "default" 0]

theorem delegatedKept_clock : MonotoneClock (delegatedKept ++ [.get "a." .a 5000000000]) :=
  MonotoneClock.pair rfl rfl

private theorem delegated_hit :
    (((DnsCache.new listLru 16 60 600).afterAll asciiTables delegatedKept).get asciiTables "a." .a
      5000000000).1 = some ((⟨delegatedAnswer, 0, 300, "default"⟩ : CacheEntry).served 295) := by
  rfl

/-- Five seconds into the entry's five minutes its name server is served with
the 295 seconds it had. -/
theorem DnsCache.hit_ages_delegated :
    ∃ entry, latestKept asciiTables (DnsCache.new listLru 16 60 600) "a." .a delegatedKept =
        some entry ∧
      ∀ record ∈ ((⟨delegatedAnswer, 0, 300, "default"⟩ : CacheEntry).served 295).1.records,
        record.ttl.toNat ≤ entry.ttl.toNat - entry.elapsed 5000000000 := by
  obtain ⟨entry, hkept, hiff⟩ := DnsCache.hit_ages_iff delegatedKept_clock delegated_hit
  refine ⟨entry, hkept, hiff.mpr ?_⟩
  have hentry : entry = ⟨delegatedAnswer, 0, 300, "default"⟩ :=
    Option.some.inj (hkept.symm.trans (by rfl))
  subst hentry
  decide

/-- No such name, with the SOA record it rests on. -/
def negativeAnswer : Message where
  messageType := .response
  responseCode := .nxDomain
  nameServers :=
    [{ name := { labels := [] }, recordType := 6, ttl := 3600, data := some (.other []) }]

def negativeKept : List CacheCall := [.insert "a." .a negativeAnswer "default" 0]

theorem negativeKept_clock : MonotoneClock (negativeKept ++ [.get "a." .a 5000000000]) :=
  MonotoneClock.pair rfl rfl

private theorem negative_hit :
    (((DnsCache.new listLru 4096 60 3600).afterAll asciiTables negativeKept).get asciiTables "a." .a
      5000000000).1 = some ((⟨negativeAnswer, 0, 60, "default"⟩ : CacheEntry).served 55) := by
  rfl

/-- The SOA record of a negative answer is served with its own 3600 seconds when
the entry has 55 left. -/
theorem DnsCache.negative_hit_keeps_soa_ttl :
    ¬ ∀ (U : UnicodeTables) (C : CacheCrate) (size : Nat) (minTtl maxTtl : BitVec 32)
        (before : List CacheCall) (name : String) (qtype : RecordType) (now : Nat)
        (served : Message × String) (entry : CacheEntry),
      MonotoneClock (before ++ [.get name qtype now]) →
      (((DnsCache.new C size minTtl maxTtl).afterAll U before).get U name qtype now).1 =
        some served →
      latestKept U (DnsCache.new C size minTtl maxTtl) name qtype before = some entry →
      ∀ record ∈ served.1.records,
        record.ttl.toNat ≤ entry.ttl.toNat - entry.elapsed now := by
  intro hclaim
  have hage := hclaim asciiTables listLru 4096 60 3600 negativeKept "a." .a 5000000000 _ _
    negativeKept_clock negative_hit rfl _ (List.mem_singleton_self _)
  exact absurd hage (by decide)

end Relay.Dns
