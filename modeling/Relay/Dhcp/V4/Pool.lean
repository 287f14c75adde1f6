import Relay.Dns.Hosts

/-!
`dhcp/v4/lease.rs` and `dhcp/v4/pool.rs`: the lease store and the address
pool. A step of the pool reads its clocks, the iteration order of the store's
`HashMap`, the answer of the ARP probe and the outcome of a write from an
environment.
-/

namespace Relay.Dhcp.V4

open Binary Dns

abbrev Mac := Vector UInt8 6

/-- `Ipv4Addr`, as the `u32` it converts to. -/
abbrev Ipv4Addr := BitVec 32

structure Lease where
  mac : Mac
  ip : Ipv4Addr
  hostname : Option String
  /-- Unix timestamp, a `u64`. -/
  expiresAt : Nat
  isStatic : Bool
  deriving DecidableEq

/-- What a step reads of the world around it. -/
structure Env where
  /-- `SystemTime::now()` in seconds since the epoch. -/
  unix : Nat
  /-- `Instant::now()` in nanoseconds. -/
  instant : Nat
  /-- The leases in the order in which the map iterates over them. -/
  order : List Lease
  /-- No ARP reply arrives for the address. -/
  arpFree : Ipv4Addr → Bool
  /-- The lease file is written. -/
  flushed : Bool

def Lease.isExpired (lease : Lease) (unix : Nat) : Bool :=
  if lease.isStatic then false else decide (lease.expiresAt ≤ unix)

/-- Why a lease is not granted or not released. -/
inductive LeaseError where
  | inUse (ip : Ipv4Addr)
  | notWritten
  deriving DecidableEq, Repr

/-! ### The lease store -/

/-- MAC address as a hex string → lease. -/
structure LeaseStore where
  leases : StringMap Lease

private def hexDigit (n : Nat) : Char :=
  if n < 10 then Char.ofNat (48 + n) else Char.ofNat (87 + n)

/-- `format!("{:02x}", b)`. -/
def hexByte (b : UInt8) : String :=
  String.ofList [hexDigit (b.toNat / 16), hexDigit (b.toNat % 16)]

def macKey (mac : Mac) : String := ":".intercalate (mac.toList.map hexByte)

private theorem hexDigit_injective : ∀ m < 16, ∀ n < 16, hexDigit m = hexDigit n → m = n := by
  decide

private theorem hexDigit_ne_colon : ∀ n < 16, ':' ≠ hexDigit n := by
  decide

theorem hexByte_injective : Function.Injective hexByte := by
  intro b c h
  have hb : b.toNat < 256 := b.toNat_lt
  have hc : c.toNat < 256 := c.toNat_lt
  have hchars := String.ofList_injective h
  simp only [List.cons.injEq, and_true] at hchars
  have hhigh := hexDigit_injective _ (by omega) _ (by omega) hchars.1
  have hlow := hexDigit_injective _ (by omega) _ (by omega) hchars.2
  apply UInt8.toNat_inj.mp
  omega

private theorem splitOn_macKey (mac : Mac) :
    List.splitOn ':' (macKey mac).toList = mac.toList.map (fun b => (hexByte b).toList) := by
  have hno : ∀ part ∈ mac.toList.map (fun b => (hexByte b).toList), ':' ∉ part := by
    intro part hpart
    obtain ⟨b, _, rfl⟩ := List.mem_map.mp hpart
    have hb : b.toNat < 256 := b.toNat_lt
    simp only [hexByte, String.toList_ofList, List.mem_cons, List.not_mem_nil, or_false, not_or]
    exact ⟨hexDigit_ne_colon _ (by omega), hexDigit_ne_colon _ (by omega)⟩
  have hne : mac.toList.map (fun b => (hexByte b).toList) ≠ [] := by
    intro hnil
    have hlength := congrArg List.length hnil
    simp at hlength
  rw [macKey, String.toList_intercalate, List.map_map]
  exact List.splitOn_intercalate ':' hno hne

/-- Two clients never share a key. -/
theorem macKey_injective : Function.Injective macKey := by
  intro mac mac' h
  have hparts := congrArg (fun s => List.splitOn ':' s.toList) h
  simp only [splitOn_macKey] at hparts
  have hinj : Function.Injective (fun b => (hexByte b).toList) := by
    intro b c hbc
    exact hexByte_injective (String.toList_injective hbc)
  exact Vector.toList_inj.mp (List.map_injective_iff.mpr hinj hparts)

def LeaseStore.getByMac (store : LeaseStore) (mac : Mac) : Option Lease :=
  store.leases.lookup (macKey mac)

/-- `get_by_ip`: the first lease on the address, in iteration order. -/
def getByIp (order : List Lease) (ip : Ipv4Addr) : Option Lease :=
  order.find? (fun lease => decide (lease.ip = ip))

/-- `flush`: the store in memory stays as it is when the write fails. -/
def flush (flushed : Bool) : Except LeaseError Unit :=
  if flushed then .ok () else .error .notWritten

/-- What a write that fails leaves: the file it did not open, or a torn one,
which decodes to nothing. -/
inductive Leftover where
  | untouched
  | torn
  deriving DecidableEq, Repr

/-- What the file holds after a write of `leases`. -/
def writtenFile {α : Type} (flushed : Bool) (leftover : Leftover) (file leases : StringMap α) :
    StringMap α :=
  if flushed then leases
  else match leftover with
    | .untouched => file
    | .torn => ∅

def LeaseStore.insert (store : LeaseStore) (lease : Lease) (flushed : Bool) :
    LeaseStore × Except LeaseError Unit :=
  (⟨store.leases.insert (macKey lease.mac) lease⟩, flush flushed)

def LeaseStore.removeByMac (store : LeaseStore) (mac : Mac) (flushed : Bool) :
    LeaseStore × Except LeaseError Unit :=
  (⟨store.leases.erase (macKey mac)⟩, flush flushed)

/-! ### The address pool -/

/-- The fields of `AddressPool` that never change. -/
structure AddressPool where
  start : Ipv4Addr
  finish : Ipv4Addr
  /-- `lease_duration.as_secs()`, a `u64`. -/
  leaseDuration : Nat
  arpProbe : Bool
  deriving DecidableEq, Repr

/-- The fields behind its two locks. -/
structure PoolState where
  /-- Addresses in OFFER state, with the instant of the offer. -/
  offered : List (Ipv4Addr × Nat)
  leases : LeaseStore

def AddressPool.isInRange (pool : AddressPool) (ip : Ipv4Addr) : Bool :=
  decide (pool.start ≤ ip ∧ ip ≤ pool.finish)

/-- The 30 seconds after which an offer lapses, in nanoseconds. -/
def offerCutoff : Nat := 30 * 1000000000

def PoolState.expireOffers (st : PoolState) (instant : Nat) : PoolState :=
  { st with offered := st.offered.filter (fun o => decide (instant - o.2 < offerCutoff)) }

def usedInLease (env : Env) (ip : Ipv4Addr) : Bool :=
  match getByIp env.order ip with
  | some lease => !lease.isExpired env.unix
  | none => false

def PoolState.isOffered (st : PoolState) (ip : Ipv4Addr) : Bool :=
  st.offered.any (fun o => decide (o.1 = ip))

def PoolState.isFree (st : PoolState) (env : Env) (ip : Ipv4Addr) : Bool :=
  !usedInLease env ip && !st.isOffered ip

/-- `start..=end`. -/
def AddressPool.addresses (pool : AddressPool) : List Ipv4Addr :=
  (List.range (pool.finish.toNat + 1 - pool.start.toNat)).map
    (fun i => BitVec.ofNat 32 (pool.start.toNat + i))

/-- The lease `allocate` returns at once: a static one, or one still active. -/
def LeaseStore.current (store : LeaseStore) (mac : Mac) (unix : Nat) : Option Ipv4Addr :=
  match store.getByMac mac with
  | some lease =>
      if lease.isStatic then some lease.ip
      else if !lease.isExpired unix then some lease.ip
      else none
  | none => none

/-- `allocate`: the MAC's own lease, else the requested address if it is free,
else the first free address of the pool. Lapsed offers are dropped first. -/
def AddressPool.allocate (pool : AddressPool) (env : Env) (st : PoolState) (mac : Mac)
    (requested : Option Ipv4Addr) : PoolState × Option Ipv4Addr :=
  let st := st.expireOffers env.instant
  let found :=
    match st.leases.current mac env.unix with
    | some ip => some ip
    | none =>
        match requested.filter (fun ip => pool.isInRange ip && st.isFree env ip) with
        | some ip => some ip
        | none => pool.addresses.find? (fun ip => !usedInLease env ip && !st.isOffered ip)
  (st, found)

/-- `offer`: a tentative allocation. -/
def PoolState.offer (st : PoolState) (env : Env) (ip : Ipv4Addr) : PoolState :=
  { st with offered := st.offered ++ [(ip, env.instant)] }

/-- The lease `confirm` creates. The expiry is a sum in `u64`. -/
def AddressPool.leaseFor (pool : AddressPool) (env : Env) (mac : Mac) (ip : Ipv4Addr)
    (hostname : Option String) : Lease where
  mac := mac
  ip := ip
  hostname := hostname
  expiresAt := (env.unix + pool.leaseDuration) % 2 ^ 64
  isStatic := false

/-- `confirm`: after the optional ARP probe the lease goes into the store, for
whatever address was asked. -/
def AddressPool.confirm (pool : AddressPool) (env : Env) (st : PoolState) (mac : Mac)
    (ip : Ipv4Addr) (hostname : Option String) : PoolState × Except LeaseError Lease :=
  if pool.arpProbe && !env.arpFree ip then (st, .error (.inUse ip))
  else
    let lease := pool.leaseFor env mac ip hostname
    let offered := st.offered.filter (fun o => decide (o.1 ≠ ip))
    let (leases, written) := st.leases.insert lease env.flushed
    ({ offered := offered, leases := leases }, written.map (fun _ => lease))

def PoolState.release (st : PoolState) (env : Env) (mac : Mac) :
    PoolState × Except LeaseError (Option Lease) :=
  match st.leases.getByMac mac with
  | some lease =>
      let (leases, written) := st.leases.removeByMac mac env.flushed
      ({ st with leases := leases }, written.map (fun _ => some lease))
  | none => (st, .ok none)

/-- `lease_seconds`: `as_secs() as u32`. -/
def AddressPool.leaseSeconds (pool : AddressPool) : BitVec 32 :=
  BitVec.ofNat 32 pool.leaseDuration

end Relay.Dhcp.V4
