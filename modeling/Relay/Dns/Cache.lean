import Relay.Dns.Hosts
import Relay.Storage.Lru

/-!
`dns/cache.rs`: responses by lower-cased name and type, with a lifetime taken
from their records. Instants are nanoseconds of a monotone clock.
-/

namespace Relay.Dns

open Storage

structure CacheEntry where
  message : Message
  insertedAt : Nat
  ttl : BitVec 32
  originalUpstream : String

/-- The seconds left, counted in a `u32`; `none` once they are over. -/
def CacheEntry.remainingTtl (entry : CacheEntry) (now : Nat) : Option (BitVec 32) :=
  let elapsed := BitVec.ofNat 32 ((now - entry.insertedAt) / 1000000000)
  if entry.ttl ≤ elapsed then none else some (entry.ttl - elapsed)

/-- The `lru` crate at the cache's keys and entries. -/
abbrev CacheCrate := LruCrate String CacheEntry

structure DnsCache (C : CacheCrate) where
  inner : C.LruCache
  minTtl : BitVec 32
  maxTtl : BitVec 32

def DnsCache.new (C : CacheCrate) (size : Nat) (minTtl maxTtl : BitVec 32) : DnsCache C where
  inner := C.new (max size 1)
  minTtl := minTtl
  maxTtl := maxTtl

variable (U : UnicodeTables) {C : CacheCrate}

/-- The entries with the most recently used first. -/
def DnsCache.held (cache : DnsCache C) : LruList String CacheEntry := C.view cache.inner

def cacheKey (name : String) (qtype : RecordType) : String :=
  U.toLowercase name ++ ":" ++ toString qtype.toNat

def Record.setTtl (ttl : BitVec 32) (record : Record) : Record := { record with ttl := ttl }

/-- The stored message with its remaining lifetime in its answers and
additionals, and the upstream it came from. -/
def CacheEntry.served (entry : CacheEntry) (remaining : BitVec 32) : Message × String :=
  ({ entry.message with
    answers := entry.message.answers.map (Record.setTtl remaining)
    additionals := entry.message.additionals.map (Record.setTtl remaining) },
    entry.originalUpstream)

/-- An entry whose lifetime is over is dropped when it is asked for. -/
def DnsCache.get (cache : DnsCache C) (name : String) (qtype : RecordType) (now : Nat) :
    Option (Message × String) × DnsCache C :=
  let key := cacheKey U name qtype
  match C.get cache.inner key with
  | (none, inner) => (none, { cache with inner := inner })
  | (some entry, inner) =>
      match entry.remainingTtl now with
      | some remaining => (some (entry.served remaining), { cache with inner := inner })
      | none => (none, { cache with inner := C.pop inner key })

/-- The smallest TTL of the answers and additionals, raised to the minimum and
then lowered to the maximum; the minimum when there is no record. -/
def DnsCache.ttlFor (cache : DnsCache C) (message : Message) : BitVec 32 :=
  let ttls := (message.answers ++ message.additionals).map fun record => record.ttl.toNat
  let minRecordTtl := ttls.min?.getD cache.minTtl.toNat
  BitVec.ofNat 32 (min (max minRecordTtl cache.minTtl.toNat) cache.maxTtl.toNat)

def DnsCache.insert (cache : DnsCache C) (name : String) (qtype : RecordType) (message : Message)
    (originalUpstream : String) (now : Nat) : DnsCache C :=
  let ttl := cache.ttlFor message
  if ttl = 0 then cache
  else
    { cache with
      inner := C.put cache.inner (cacheKey U name qtype)
        { message := message
          insertedAt := now
          ttl := ttl
          originalUpstream := originalUpstream } }

/-- Every entry has a property together with its key. -/
def DnsCache.All (P : String → CacheEntry → Prop) (cache : DnsCache C) : Prop :=
  ∀ entry ∈ cache.held.entries, P entry.1 entry.2

/-- Every stored message satisfies a property of messages. -/
def DnsCache.Holds (P : Message → Prop) (cache : DnsCache C) : Prop :=
  ∀ entry ∈ cache.held.entries, P entry.2.message

variable {U}

theorem DnsCache.held_new (size : Nat) (minTtl maxTtl : BitVec 32) :
    (DnsCache.new C size minTtl maxTtl).held = { cap := max size 1 } :=
  C.view_new _

/-- What `get` finds, and what it leaves: nothing is there, a live entry is
served, or one whose lifetime is over is dropped. -/
theorem DnsCache.get_cases (cache : DnsCache C) (name : String) (qtype : RecordType) (now : Nat) :
    (cache.held.lookup (cacheKey U name qtype) = none ∧ (cache.get U name qtype now).1 = none ∧
        (cache.get U name qtype now).2.held = (cache.held.get (cacheKey U name qtype)).2) ∨
      (∃ entry remaining, cache.held.lookup (cacheKey U name qtype) = some entry ∧
        entry.remainingTtl now = some remaining ∧
          (cache.get U name qtype now).1 = some (entry.served remaining) ∧
            (cache.get U name qtype now).2.held = (cache.held.get (cacheKey U name qtype)).2) ∨
      ∃ entry, cache.held.lookup (cacheKey U name qtype) = some entry ∧
        entry.remainingTtl now = none ∧ (cache.get U name qtype now).1 = none ∧
          (cache.get U name qtype now).2.held =
            (cache.held.get (cacheKey U name qtype)).2.pop (cacheKey U name qtype) := by
  have hvalue := C.get_fst cache.inner (cacheKey U name qtype)
  have hview := C.view_get cache.inner (cacheKey U name qtype)
  rw [LruList.get_eq_lookup] at hvalue
  unfold DnsCache.get
  dsimp only
  rcases hget : C.get cache.inner (cacheKey U name qtype) with ⟨_ | entry, inner⟩ <;>
    rw [hget] at hvalue hview
  · exact Or.inl ⟨hvalue.symm, rfl, hview⟩
  · dsimp only
    cases hremaining : entry.remainingTtl now with
    | some remaining =>
        exact Or.inr (Or.inl ⟨entry, remaining, hvalue.symm, hremaining, rfl, hview⟩)
    | none =>
        refine Or.inr (Or.inr ⟨entry, hvalue.symm, hremaining, rfl, ?_⟩)
        exact (C.view_pop inner _).trans (congrArg (LruList.pop · _) hview)

/-- A message that is kept goes under its key. -/
theorem DnsCache.held_insert {cache : DnsCache C} {message : Message}
    (hkept : cache.ttlFor message ≠ 0) (name : String) (qtype : RecordType)
    (originalUpstream : String) (now : Nat) :
    (cache.insert U name qtype message originalUpstream now).held =
      cache.held.put (cacheKey U name qtype)
        ⟨message, now, cache.ttlFor message, originalUpstream⟩ := by
  unfold DnsCache.insert
  dsimp only
  rw [if_neg hkept]
  exact C.view_put cache.inner _ _

theorem DnsCache.insert_of_ttl {cache : DnsCache C} {message : Message}
    (hkept : cache.ttlFor message = 0) (name : String) (qtype : RecordType)
    (originalUpstream : String) (now : Nat) :
    cache.insert U name qtype message originalUpstream now = cache := by
  unfold DnsCache.insert
  exact if_pos hkept

section

variable {P : String → CacheEntry → Prop}

theorem DnsCache.All.get {cache : DnsCache C} (h : cache.All P) (name : String)
    (qtype : RecordType) (now : Nat) : (cache.get U name qtype now).2.All P := by
  intro entry hentry
  apply h
  apply LruList.mem_of_mem_get (cacheKey U name qtype)
  rcases cache.get_cases name qtype now with
    ⟨_, _, hheld⟩ | ⟨_, _, _, _, _, hheld⟩ | ⟨_, _, _, _, hheld⟩
  · exact hheld ▸ hentry
  · exact hheld ▸ hentry
  · exact LruList.mem_of_mem_pop (hheld ▸ hentry)

/-- An insertion is one new entry under the key of the name and the type, and
the entries there were. -/
theorem DnsCache.All.insert {cache : DnsCache C} (h : cache.All P) {name : String}
    {qtype : RecordType} {message : Message} {originalUpstream : String} {now : Nat}
    (hnew : ∀ ttl, P (cacheKey U name qtype) ⟨message, now, ttl, originalUpstream⟩) :
    (cache.insert U name qtype message originalUpstream now).All P := by
  by_cases hkept : cache.ttlFor message = 0
  · rw [DnsCache.insert_of_ttl hkept]
    exact h
  · intro entry hentry
    rw [DnsCache.held_insert hkept] at hentry
    rcases LruList.mem_of_mem_put hentry with rfl | hold
    · exact hnew _
    · exact h entry hold

/-- A hit is the live entry found under the key of the name and the type. -/
theorem DnsCache.get_hit_lookup {cache : DnsCache C} {name : String} {qtype : RecordType}
    {now : Nat} {served : Message × String}
    (hget : (cache.get U name qtype now).1 = some served) :
    ∃ entry remaining, cache.held.lookup (cacheKey U name qtype) = some entry ∧
      entry.remainingTtl now = some remaining ∧ served = entry.served remaining := by
  rcases cache.get_cases name qtype now with
    ⟨_, hnone, _⟩ | ⟨entry, remaining, hlookup, hremaining, hserved, _⟩ | ⟨_, _, _, hnone, _⟩
  · rw [hnone] at hget
    cases hget
  · rw [hserved] at hget
    exact ⟨entry, remaining, hlookup, hremaining, (Option.some.inj hget).symm⟩
  · rw [hnone] at hget
    cases hget

theorem DnsCache.get_hit {cache : DnsCache C} {name : String} {qtype : RecordType} {now : Nat}
    {served : Message × String} (hget : (cache.get U name qtype now).1 = some served) :
    ∃ entry remaining, (cacheKey U name qtype, entry) ∈ cache.held.entries ∧
      entry.remainingTtl now = some remaining ∧ served = entry.served remaining := by
  obtain ⟨entry, remaining, hlookup, hremaining, hserved⟩ := DnsCache.get_hit_lookup hget
  exact ⟨entry, remaining, LruList.mem_of_lookup hlookup, hremaining, hserved⟩

/-- A miss leaves no entry under the key: an expired one is dropped. -/
theorem DnsCache.get_miss {cache : DnsCache C} {name : String} {qtype : RecordType} {now : Nat}
    (hmiss : (cache.get U name qtype now).1 = none) :
    (cache.get U name qtype now).2.All fun key _ => key ≠ cacheKey U name qtype := by
  intro entry hentry hkey
  have hlookup := LruList.lookup_ne_none hentry
  rw [hkey] at hlookup
  rcases cache.get_cases name qtype now with
    ⟨hnone, _, hheld⟩ | ⟨_, _, _, _, hserved, _⟩ | ⟨_, _, _, _, hheld⟩
  · rw [hheld, LruList.lookup_get] at hlookup
    exact hlookup hnone
  · rw [hmiss] at hserved
    cases hserved
  · rw [hheld] at hlookup
    exact hlookup (LruList.lookup_pop_self _ _)

end

end Relay.Dns
