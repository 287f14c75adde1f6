import Relay.Dhcp.V4.Serve
import Relay.Text.Labels

/-!
`dhcp/v6/lease.rs`: the leases of stateful DHCPv6, keyed by DUID, and the pool
whose addresses are a counter behind the prefix.
-/

namespace Relay.Dhcp.V6

open Binary Dns Text V4

abbrev Duid := Bytes

/-- `Ipv6Addr`, as the `u128` it converts to. -/
abbrev Ipv6Addr := BitVec 128

structure V6Lease where
  duid : Duid
  ip : Ipv6Addr
  hostname : Option String
  /-- Unix timestamp, a `u64`. -/
  expiresAt : Nat
  deriving DecidableEq

def V6Lease.isExpired (lease : V6Lease) (unix : Nat) : Bool := decide (lease.expiresAt ≤ unix)

/-- DUID as a hex string → lease. -/
structure V6LeaseStore where
  leases : StringMap V6Lease

def duidKey (duid : Duid) : String := String.join (duid.map hexByte)

def V6LeaseStore.getByDuid (store : V6LeaseStore) (duid : Duid) : Option V6Lease :=
  store.leases.lookup (duidKey duid)

def V6LeaseStore.insert (store : V6LeaseStore) (lease : V6Lease) (flushed : Bool) :
    V6LeaseStore × Except LeaseError Unit :=
  (⟨store.leases.insert (duidKey lease.duid) lease⟩, flush flushed)

/-- `remove`, which writes the file whether there was a lease or not. -/
def V6LeaseStore.remove (store : V6LeaseStore) (duid : Duid) (flushed : Bool) :
    V6LeaseStore × Except LeaseError Unit :=
  (⟨store.leases.erase (duidKey duid)⟩, flush flushed)

/-- `V6Pool`. -/
structure V6Pool where
  netPrefix : Ipv6Addr
  prefixLen : UInt8
  nextHost : BitVec 64
  leases : V6LeaseStore
  /-- `lease_duration.as_secs()`, a `u64`. -/
  leaseDuration : Nat

/-- The host part the counter starts from. -/
def firstHost : BitVec 64 := 0x100

def V6Pool.new (netPrefix : Ipv6Addr) (prefixLen : UInt8) (leaseDuration : Nat)
    (store : V6LeaseStore) : V6Pool where
  netPrefix := netPrefix
  prefixLen := prefixLen
  nextHost := firstHost
  leases := store
  leaseDuration := leaseDuration

/-- `make_addr`. The difference is one of `u8`, and a `u128` is shifted by the
last seven bits of the count. -/
def V6Pool.makeAddr (pool : V6Pool) (host : BitVec 64) : Ipv6Addr :=
  let shift := (128 - pool.prefixLen).toNat % 128
  let mask := ~~~((1 : BitVec 128) <<< shift - 1)
  (pool.netPrefix &&& mask) ||| host.setWidth 128

/-- The unexpired lease of the DUID. -/
def V6Pool.current (pool : V6Pool) (unix : Nat) (duid : Duid) : Option Ipv6Addr :=
  match pool.leases.getByDuid duid with
  | some l => if !l.isExpired unix then some l.ip else none
  | none => none

def V6Pool.allocate (pool : V6Pool) (unix : Nat) (duid : Duid) : V6Pool × Option Ipv6Addr :=
  match pool.current unix duid with
  | some ip => (pool, some ip)
  | none => ({ pool with nextHost := pool.nextHost + 1 }, some (pool.makeAddr pool.nextHost))

/-- The lease `confirm` creates. The expiry is a sum in `u64`. -/
def V6Pool.leaseFor (pool : V6Pool) (unix : Nat) (duid : Duid) (ip : Ipv6Addr)
    (hostname : Option String) : V6Lease where
  duid := duid
  ip := ip
  hostname := hostname
  expiresAt := (unix + pool.leaseDuration) % 2 ^ 64

def V6Pool.confirm (pool : V6Pool) (unix : Nat) (duid : Duid) (ip : Ipv6Addr)
    (hostname : Option String) (flushed : Bool) : V6Pool × Except LeaseError V6Lease :=
  let lease := pool.leaseFor unix duid ip hostname
  let (leases, written) := pool.leases.insert lease flushed
  ({ pool with leases := leases }, written.map (fun _ => lease))

def V6Pool.release (pool : V6Pool) (duid : Duid) (flushed : Bool) :
    V6Pool × Except LeaseError Unit :=
  let (leases, written) := pool.leases.remove duid flushed
  ({ pool with leases := leases }, written)

/-- `parse_v6_prefix`: an address and any length a `u8` holds. -/
def parseV6Prefix (T : NetText) (s : String) : Option (Ipv6Addr × UInt8) :=
  match splitChar '/' s with
  | [addr, len] => do
      let .v6 addr ← T.ipAddr addr | none
      let len ← parseUnsigned 255 len
      pure (addr, UInt8.ofNat len)
  | _ => none

/-! ### Keys and prefixes -/

/-- Two DUIDs never share a key. -/
theorem duidKey_injective : Function.Injective duidKey := by
  intro duid duid' h
  have hchars := congrArg String.toList h
  simp only [duidKey, String.toList_join, List.flatMap_map] at hchars
  have hcode : Function.Injective (fun b => (hexByte b).toList) := by
    intro b c hbc
    exact hexByte_injective (String.toList_injective hbc)
  have hlength : ∀ b, (hexByte b).toList.length = 2 := by
    intro b
    simp [hexByte]
  exact flatMap_injective_of_length Nat.two_pos hlength hcode hchars

/-- The address lies in the prefix: its first `prefix_len` bits are those of
the prefix. -/
def V6Pool.InPrefix (pool : V6Pool) (ip : Ipv6Addr) : Prop :=
  ip >>> (128 - pool.prefixLen.toNat) = pool.netPrefix >>> (128 - pool.prefixLen.toNat)

instance (pool : V6Pool) (ip : Ipv6Addr) : Decidable (pool.InPrefix ip) :=
  inferInstanceAs (Decidable (_ = _))

theorem getLsbD_hostBits {s : Nat} (hs : s < 128) (i : Nat) :
    ((1 : BitVec 128) <<< s - 1).getLsbD i = decide (i < s) := by
  have hpow : 2 ^ s < 2 ^ 128 := Nat.pow_lt_pow_right (by omega) hs
  have hpos : 0 < 2 ^ s := Nat.two_pow_pos s
  have hvalue : ((1 : BitVec 128) <<< s - 1).toNat = 2 ^ s - 1 := by
    have hone : ((1 : BitVec 128) <<< s).toNat = 2 ^ s := by
      rw [BitVec.toNat_shiftLeft, Nat.shiftLeft_eq]
      have hnat : (1 : BitVec 128).toNat = 1 := rfl
      rw [hnat, Nat.one_mul, Nat.mod_eq_of_lt hpow]
    rw [BitVec.toNat_sub_of_le, hone]
    · rfl
    · rw [BitVec.le_def, hone]
      exact hpos
  rw [BitVec.getLsbD, hvalue, Nat.testBit_two_pow_sub_one]

/-- With a prefix of 1 to 128 bits the difference is the count. -/
theorem V6Pool.shift_eq {pool : V6Pool} (hpos : 0 < pool.prefixLen.toNat)
    (hlen : pool.prefixLen.toNat ≤ 128) :
    (128 - pool.prefixLen).toNat % 128 = 128 - pool.prefixLen.toNat := by
  rw [UInt8.toNat_sub_of_le]
  · simp
    omega
  · rw [UInt8.le_iff_toNat_le]
    simpa using hlen

/-- The bits of an address: those of the prefix above the host part, or-ed with
those of the host number. -/
theorem V6Pool.getLsbD_makeAddr {pool : V6Pool} (hpos : 0 < pool.prefixLen.toNat)
    (hlen : pool.prefixLen.toNat ≤ 128) (host : BitVec 64) (i : Nat) :
    (pool.makeAddr host).getLsbD i =
      ((decide (128 - pool.prefixLen.toNat ≤ i) && pool.netPrefix.getLsbD i) ||
        host.getLsbD i) := by
  have hs : 128 - pool.prefixLen.toNat < 128 := by omega
  unfold V6Pool.makeAddr
  rw [V6Pool.shift_eq hpos hlen]
  simp only [BitVec.getLsbD_or, BitVec.getLsbD_and, BitVec.getLsbD_not,
    getLsbD_hostBits hs, BitVec.getLsbD_setWidth]
  by_cases hi : i < 128
  · by_cases hhost : 128 - pool.prefixLen.toNat ≤ i
    · have hhigh : ¬ i < 128 - pool.prefixLen.toNat := by omega
      simp [hi, hhost, hhigh]
    · have hlow : i < 128 - pool.prefixLen.toNat := by omega
      simp [hi, hhost, hlow]
  · have hclear : pool.netPrefix.getLsbD i = false :=
      BitVec.getLsbD_of_ge pool.netPrefix i (by omega)
    have hhost : host.getLsbD i = false := BitVec.getLsbD_of_ge host i (by omega)
    simp [hclear, hhost]

/-- An address is in the prefix when the prefix has every bit of the host
number that is above the host part. -/
theorem V6Pool.makeAddr_inPrefix_iff {pool : V6Pool} (hpos : 0 < pool.prefixLen.toNat)
    (hlen : pool.prefixLen.toNat ≤ 128) (host : BitVec 64) :
    pool.InPrefix (pool.makeAddr host) ↔
      ∀ i, 128 - pool.prefixLen.toNat ≤ i → host.getLsbD i = true →
        pool.netPrefix.getLsbD i = true := by
  unfold V6Pool.InPrefix
  constructor
  · intro h i hi hhost
    have hbit := congrArg (fun x => x.getLsbD (i - (128 - pool.prefixLen.toNat))) h
    simp only [BitVec.getLsbD_ushiftRight, V6Pool.getLsbD_makeAddr hpos hlen] at hbit
    rw [Nat.add_sub_cancel' hi, hhost, Bool.or_true] at hbit
    exact hbit.symm
  · intro h
    apply BitVec.eq_of_getLsbD_eq
    intro i _
    have hi : 128 - pool.prefixLen.toNat ≤ 128 - pool.prefixLen.toNat + i := Nat.le_add_right _ _
    simp only [BitVec.getLsbD_ushiftRight, V6Pool.getLsbD_makeAddr hpos hlen, hi, decide_true,
      Bool.true_and]
    cases hhost : host.getLsbD (128 - pool.prefixLen.toNat + i) with
    | false => exact Bool.or_false _
    | true => rw [Bool.or_true, h _ hi hhost]

/-- With a prefix of 1 to 128 bits every host number that fits behind it gives
an address in it. -/
theorem V6Pool.makeAddr_inPrefix {pool : V6Pool} {host : BitVec 64}
    (hpos : 0 < pool.prefixLen.toNat) (hlen : pool.prefixLen.toNat ≤ 128)
    (hhost : host.toNat < 2 ^ (128 - pool.prefixLen.toNat)) :
    pool.InPrefix (pool.makeAddr host) := by
  rw [V6Pool.makeAddr_inPrefix_iff hpos hlen]
  intro i hi hset
  have hlow : host.toNat < 2 ^ i := Nat.lt_of_lt_of_le hhost (Nat.pow_le_pow_right (by omega) hi)
  rw [BitVec.getLsbD, Nat.testBit_lt_two_pow hlow] at hset
  cases hset

end Relay.Dhcp.V6
