import Relay.Dhcp.V6.Pool

/-!
The addresses of a run of allocations. The counter is a `u64` that starts at
0x100 and knows nothing of the prefix: an address leaves the prefix as soon as
the counter has a bit above the host part which the prefix lacks, and behind a
prefix shorter than 64 bits the counter starts anew before the hosts are used
up.
-/

namespace Relay.Dhcp.V6

open Binary Dns Text V4

/-- `allocate` for one client after another: a time and a DUID each. -/
def V6Pool.allocateAll (pool : V6Pool) : List (Nat × Duid) → List (Option Ipv6Addr)
  | [] => []
  | (unix, duid) :: calls =>
      (pool.allocate unix duid).2 :: (pool.allocate unix duid).1.allocateAll calls

/-- The allocation at this place returned the address. -/
def V6Pool.Returned (pool : V6Pool) (calls : List (Nat × Duid)) (i : Nat) (ip : Ipv6Addr) :
    Prop :=
  (pool.allocateAll calls)[i]? = some (some ip)

/-- Neither `128 - prefix_len` in `u8` nor the shift of the `u128` overflows. -/
def V6Pool.ShiftFits (pool : V6Pool) : Prop :=
  pool.prefixLen.toNat ≤ 128 ∧ 128 - pool.prefixLen.toNat < 128

/-- The bits of the address behind the prefix. -/
def V6Pool.hostNumber (pool : V6Pool) (ip : Ipv6Addr) : Nat :=
  ip.toNat % 2 ^ (128 - pool.prefixLen.toNat)

/-- What is asked of the addresses. -/
structure V6Pool.AddressesRight (pool : V6Pool) (calls : List (Nat × Duid)) : Prop where
  shift_fits : calls ≠ [] → pool.ShiftFits
  inside : ∀ i ip, pool.Returned calls i ip → pool.InPrefix ip
  used_up : ∀ i j ip, i < j → pool.Returned calls i ip → pool.Returned calls j ip →
    ∀ host < 2 ^ (128 - pool.prefixLen.toNat),
      ∃ m < j, ∃ used, pool.Returned calls m used ∧ pool.hostNumber used = host

/-- The host number of the allocation at this place. -/
def hostAt (i : Nat) : BitVec 64 := firstHost + BitVec.ofNat 64 i

/-- The place of the first host number with this bit. -/
def firstWith (bit : Nat) : Nat := if bit < 8 then 2 ^ bit else 2 ^ bit - 0x100

/-- The counter stays within the host part, or the prefix has the bits it grows
into, and the counter does not start anew before the host part does. -/
structure V6Pool.Roomy (pool : V6Pool) (count : Nat) : Prop where
  len_pos : 0 < pool.prefixLen.toNat
  len_le : pool.prefixLen.toNat ≤ 128
  covers : ∀ bit < 64, 128 - pool.prefixLen.toNat ≤ bit → pool.netPrefix.getLsbD bit = false →
    count ≤ firstWith bit
  cycle : pool.prefixLen.toNat < 64 → count ≤ 2 ^ 64

/-! ### The counter -/

theorem hostAt_toNat (i : Nat) : (hostAt i).toNat = (0x100 + i) % 2 ^ 64 := by
  have hfirst : firstHost.toNat = 0x100 := rfl
  unfold hostAt
  rw [BitVec.toNat_add, BitVec.toNat_ofNat, hfirst, Nat.add_mod_mod]

theorem hostAt_add_cycle (i : Nat) : hostAt (i + 2 ^ 64) = hostAt i := by
  apply BitVec.eq_of_toNat_eq
  rw [hostAt_toNat, hostAt_toNat]
  omega

theorem hostAt_firstWith {bit : Nat} (hbit : bit < 64) :
    (hostAt (firstWith bit)).getLsbD bit = true := by
  have hpow : 2 ^ bit < 2 ^ 64 := Nat.pow_lt_pow_right (by omega) hbit
  rw [BitVec.getLsbD, hostAt_toNat]
  unfold firstWith
  split
  case isTrue hlow =>
    have hsmall : 2 ^ bit < 2 ^ 8 := Nat.pow_lt_pow_right (by omega) hlow
    rw [Nat.mod_eq_of_lt (by omega)]
    exact (Nat.testBit_two_pow_add_gt hlow _).trans Nat.testBit_two_pow_self
  case isFalse hhigh =>
    have hlarge : 2 ^ 8 ≤ 2 ^ bit := Nat.pow_le_pow_right (by omega) (by omega)
    rw [Nat.add_sub_cancel' (by omega), Nat.mod_eq_of_lt hpow]
    exact Nat.testBit_two_pow_self

/-- No host number before that place has the bit. -/
theorem hostAt_getLsbD_of_lt {i bit : Nat} (hbit : bit < 64) (hi : i < firstWith bit) :
    (hostAt i).getLsbD bit = false := by
  have hpow : 2 ^ bit < 2 ^ 64 := Nat.pow_lt_pow_right (by omega) hbit
  rw [BitVec.getLsbD, hostAt_toNat]
  unfold firstWith at hi
  split at hi
  case isTrue hlow =>
    have hsmall : 2 ^ bit < 2 ^ 8 := Nat.pow_lt_pow_right (by omega) hlow
    rw [Nat.mod_eq_of_lt (by omega)]
    exact (Nat.testBit_two_pow_add_gt hlow i).trans (Nat.testBit_lt_two_pow hi)
  case isFalse hhigh =>
    rw [Nat.mod_eq_of_lt (by omega)]
    exact Nat.testBit_lt_two_pow (by omega)

/-! ### The allocations -/

section Allocations

variable {pool : V6Pool} {calls : List (Nat × Duid)}

theorem V6Pool.allocateAll_length (pool : V6Pool) (calls : List (Nat × Duid)) :
    (pool.allocateAll calls).length = calls.length := by
  induction calls generalizing pool with
  | nil => rfl
  | cons call calls ih =>
      obtain ⟨unix, duid⟩ := call
      simp only [V6Pool.allocateAll, List.length_cons, ih]

/-- Every new client takes the counter's next value. -/
theorem V6Pool.allocateAll_getElem? (hnew : ∀ c ∈ calls, pool.current c.1 c.2 = none)
    {i : Nat} (hi : i < calls.length) :
    (pool.allocateAll calls)[i]? =
      some (some (pool.makeAddr (pool.nextHost + BitVec.ofNat 64 i))) := by
  induction calls generalizing pool i with
  | nil => cases hi
  | cons call calls ih =>
      obtain ⟨unix, duid⟩ := call
      have hfirst : pool.current unix duid = none := hnew _ List.mem_cons_self
      have hallocate : pool.allocate unix duid =
          ({ pool with nextHost := pool.nextHost + 1 },
            some (pool.makeAddr pool.nextHost)) := by
        simp only [V6Pool.allocate, hfirst]
      simp only [V6Pool.allocateAll, hallocate]
      cases i with
      | zero => simp
      | succ i =>
          have hrest : ∀ c ∈ calls,
              V6Pool.current { pool with nextHost := pool.nextHost + 1 } c.1 c.2 = none :=
            fun c hc => hnew c (List.mem_cons_of_mem _ hc)
          rw [List.getElem?_cons_succ, ih hrest (Nat.lt_of_succ_lt_succ hi)]
          have hnext : pool.nextHost + 1 + BitVec.ofNat 64 i =
              pool.nextHost + BitVec.ofNat 64 (i + 1) := by
            apply BitVec.eq_of_toNat_eq
            have hone : (1 : BitVec 64).toNat = 1 := rfl
            simp only [BitVec.toNat_add, BitVec.toNat_ofNat, hone]
            omega
          rw [← hnext]
          rfl

/-- What is returned where, from the initial counter on. -/
theorem V6Pool.returned_iff (hnew : ∀ c ∈ calls, pool.current c.1 c.2 = none)
    (hcounter : pool.nextHost = firstHost) (i : Nat) (ip : Ipv6Addr) :
    pool.Returned calls i ip ↔ i < calls.length ∧ ip = pool.makeAddr (hostAt i) := by
  unfold V6Pool.Returned
  by_cases hi : i < calls.length
  · rw [V6Pool.allocateAll_getElem? hnew hi, hcounter]
    simp only [hostAt, hi, true_and, Option.some.injEq]
    exact eq_comm
  · have hnone : (pool.allocateAll calls)[i]? = none := by
      rw [List.getElem?_eq_none_iff, V6Pool.allocateAll_length]
      omega
    simp [hnone, hi]

variable (hpos : 0 < pool.prefixLen.toNat) (hlen : pool.prefixLen.toNat ≤ 128)
include hpos hlen

theorem V6Pool.hostNumber_makeAddr (host : BitVec 64) :
    pool.hostNumber (pool.makeAddr host) = host.toNat % 2 ^ (128 - pool.prefixLen.toNat) := by
  unfold V6Pool.hostNumber
  apply Nat.eq_of_testBit_eq
  intro i
  rw [Nat.testBit_mod_two_pow, Nat.testBit_mod_two_pow, BitVec.testBit_toNat,
    BitVec.testBit_toNat, V6Pool.getLsbD_makeAddr hpos hlen]
  by_cases hi : i < 128 - pool.prefixLen.toNat
  · have hlow : ¬ 128 - pool.prefixLen.toNat ≤ i := by omega
    simp [hlow]
  · simp [hi]

/-- The addresses are inside exactly as long as the prefix has every bit the
counter has grown into. -/
theorem V6Pool.inside_iff (count : Nat) :
    (∀ i < count, pool.InPrefix (pool.makeAddr (hostAt i))) ↔
      ∀ bit < 64, 128 - pool.prefixLen.toNat ≤ bit → pool.netPrefix.getLsbD bit = false →
        count ≤ firstWith bit := by
  constructor
  · intro hinside bit hbit hhigh hclear
    by_contra hcount
    have hmember := hinside (firstWith bit) (by omega)
    rw [V6Pool.makeAddr_inPrefix_iff hpos hlen] at hmember
    rw [hmember bit hhigh (hostAt_firstWith hbit)] at hclear
    cases hclear
  · intro hcovers i hi
    rw [V6Pool.makeAddr_inPrefix_iff hpos hlen]
    intro bit hhigh hset
    have hbit : bit < 64 := BitVec.lt_of_getLsbD hset
    cases hprefix : pool.netPrefix.getLsbD bit with
    | true => rfl
    | false =>
        have hcount := hcovers bit hbit hhigh hprefix
        rw [hostAt_getLsbD_of_lt hbit (by omega)] at hset
        cases hset

/-- Behind a prefix of 64 bits or more an address comes back only once every
host number is used. -/
theorem V6Pool.used_up_of_long (hlong : 64 ≤ pool.prefixLen.toNat) {i j : Nat} (hij : i < j)
    (hsame : pool.makeAddr (hostAt i) = pool.makeAddr (hostAt j)) {host : Nat}
    (hhost : host < 2 ^ (128 - pool.prefixLen.toNat)) :
    ∃ m < j, pool.hostNumber (pool.makeAddr (hostAt m)) = host := by
  have hnumbers := congrArg pool.hostNumber hsame
  have hdvd : 2 ^ (128 - pool.prefixLen.toNat) ∣ 2 ^ 64 := Nat.pow_dvd_pow 2 (by omega)
  have hnumber : ∀ m, pool.hostNumber (pool.makeAddr (hostAt m)) =
      (0x100 + m) % 2 ^ (128 - pool.prefixLen.toNat) := by
    intro m
    rw [V6Pool.hostNumber_makeAddr hpos hlen, hostAt_toNat, Nat.mod_mod_of_dvd _ hdvd]
  rw [hnumber, hnumber] at hnumbers
  -- two places with one host number are a whole cycle apart
  have hcycle : 2 ^ (128 - pool.prefixLen.toNat) ∣ j - i := by
    have hsub : j - i = (0x100 + j) - (0x100 + i) := by omega
    rw [hsub]
    exact (Nat.modEq_iff_dvd' (by omega)).mp hnumbers
  have hfar : 2 ^ (128 - pool.prefixLen.toNat) ≤ j - i := Nat.le_of_dvd (by omega) hcycle
  have hsize : 0 < 2 ^ (128 - pool.prefixLen.toNat) := Nat.two_pow_pos _
  generalize 2 ^ (128 - pool.prefixLen.toNat) = size at *
  refine ⟨(host + (size - 0x100 % size)) % size, ?_, ?_⟩
  · have hlt := Nat.mod_lt (host + (size - 0x100 % size)) hsize
    omega
  · rw [hnumber, Nat.add_mod_mod]
    have hrest : 0x100 % size < size := Nat.mod_lt _ hsize
    have hsplit := Nat.div_add_mod 0x100 size
    have hsum : 0x100 + (host + (size - 0x100 % size)) = host + size * (0x100 / size + 1) := by
      rw [Nat.mul_add, Nat.mul_one]
      omega
    rw [hsum, Nat.add_mul_mod_self_left, Nat.mod_eq_of_lt hhost]

/-- Behind a shorter one the counter comes back to its first address with most
host numbers unused. -/
theorem V6Pool.unused_of_short (hshort : pool.prefixLen.toNat < 64) :
    (2 ^ 64 : Nat) < 2 ^ (128 - pool.prefixLen.toNat) ∧
      ∀ m, pool.hostNumber (pool.makeAddr (hostAt m)) ≠ 2 ^ 64 := by
  have hlarge : (2 ^ 64 : Nat) < 2 ^ (128 - pool.prefixLen.toNat) :=
    Nat.pow_lt_pow_right (by omega) (by omega)
  refine ⟨hlarge, ?_⟩
  intro m hm
  have hlt : (hostAt m).toNat < 2 ^ 64 := (hostAt m).isLt
  rw [V6Pool.hostNumber_makeAddr hpos hlen, Nat.mod_eq_of_lt (by omega)] at hm
  omega

end Allocations

/-- The shift fits, every address is in the prefix and none comes back before
the hosts are used up exactly when nothing is allocated, or the length is 1 to
128, the counter has grown into no bit that the prefix lacks, and it has not
started anew behind a prefix shorter than 64 bits. Any address and any length a
`u8` holds come from a text that `parse_v6_prefix` accepts. -/
theorem V6Pool.addressesRight_iff (netPrefix : Ipv6Addr) (prefixLen : UInt8) (duration : Nat)
    (store : V6LeaseStore) (calls : List (Nat × Duid))
    (hnew : ∀ c ∈ calls, (V6Pool.new netPrefix prefixLen duration store).current c.1 c.2 = none) :
    (V6Pool.new netPrefix prefixLen duration store).AddressesRight calls ↔
      calls = [] ∨ (V6Pool.new netPrefix prefixLen duration store).Roomy calls.length := by
  generalize hpool : V6Pool.new netPrefix prefixLen duration store = pool at hnew ⊢
  have hcounter : pool.nextHost = firstHost := by
    rw [← hpool]
    rfl
  have hreturned := V6Pool.returned_iff hnew hcounter
  constructor
  · intro hright
    by_cases hnil : calls = []
    · exact Or.inl hnil
    right
    obtain ⟨hle, hlt⟩ := hright.shift_fits hnil
    have hpos : 0 < pool.prefixLen.toNat := by omega
    refine ⟨hpos, hle, ?_, ?_⟩
    · apply (V6Pool.inside_iff hpos hle calls.length).mp
      intro i hi
      exact hright.inside i _ ((hreturned i _).mpr ⟨hi, rfl⟩)
    · intro hshort
      by_contra hcount
      obtain ⟨hlarge, hunused⟩ := V6Pool.unused_of_short hpos hle hshort
      have hfirst := (hreturned 0 _).mpr ⟨by omega, rfl⟩
      have hagain := (hreturned (0 + 2 ^ 64) _).mpr ⟨by omega, rfl⟩
      rw [hostAt_add_cycle] at hagain
      obtain ⟨m, _, used, hused, hnumber⟩ :=
        hright.used_up 0 (0 + 2 ^ 64) _ (by omega) hfirst hagain (2 ^ 64) hlarge
      rw [((hreturned m used).mp hused).2] at hnumber
      exact hunused m hnumber
  · rintro (rfl | hroomy)
    · have hnone : ∀ i ip, ¬ pool.Returned [] i ip := by
        intro i ip h
        simp [V6Pool.Returned, V6Pool.allocateAll] at h
      exact ⟨fun h => absurd rfl h, fun i ip h => absurd h (hnone i ip),
        fun i j ip _ h => absurd h (hnone i ip)⟩
    obtain ⟨hpos, hlen, hcovers, hcycle⟩ := hroomy
    refine ⟨fun _ => ⟨hlen, by omega⟩, ?_, ?_⟩
    · intro i ip h
      obtain ⟨hi, rfl⟩ := (hreturned i ip).mp h
      exact (V6Pool.inside_iff hpos hlen calls.length).mpr hcovers i hi
    · intro i j ip hij hi hj host hhost
      obtain ⟨_, hip⟩ := (hreturned i ip).mp hi
      obtain ⟨hjcount, hjp⟩ := (hreturned j ip).mp hj
      have hsame : pool.makeAddr (hostAt i) = pool.makeAddr (hostAt j) := hip.symm.trans hjp
      by_cases hlong : 64 ≤ pool.prefixLen.toNat
      · obtain ⟨m, hm, hnumber⟩ := V6Pool.used_up_of_long hpos hlen hlong hij hsame hhost
        exact ⟨m, hm, _, (hreturned m _).mpr ⟨by omega, rfl⟩, hnumber⟩
      · -- the counter has not started anew, so no host number comes twice
        have hcount := hcycle (by omega)
        have hnumbers := congrArg pool.hostNumber hsame
        have hpow : (2 ^ 64 : Nat) ≤ 2 ^ (128 - pool.prefixLen.toNat) :=
          Nat.pow_le_pow_right (by omega) (by omega)
        rw [V6Pool.hostNumber_makeAddr hpos hlen, V6Pool.hostNumber_makeAddr hpos hlen,
          Nat.mod_eq_of_lt (by have := (hostAt i).isLt; omega),
          Nat.mod_eq_of_lt (by have := (hostAt j).isLt; omega), hostAt_toNat,
          hostAt_toNat] at hnumbers
        omega

/-- A /64 has room for its first two clients. -/
theorem V6Pool.addressesRight_two :
    (V6Pool.new (0xfd00#128 <<< 112) 64 86400 ⟨∅⟩).AddressesRight [(0, [1]), (0, [2])] := by
  apply (V6Pool.addressesRight_iff _ 64 86400 ⟨∅⟩ _ ?_).mpr
  · right
    refine ⟨by decide, by decide, ?_, ?_⟩
    · intro bit hbit hhigh _
      have hlen : (64 : UInt8).toNat = 64 := rfl
      simp only [V6Pool.new, hlen] at hhigh
      omega
    · intro _
      simp
  · intro c _
    rfl

/-- `fd00::` is the one address it reads. -/
def fd00Text : NetText where
  socketAddr := fun _ => none
  ipAddr := fun s => if s = "fd00::" then some (.v6 (0xfd00#128 <<< 112)) else none
  validUrl := fun _ => false

/-- `parse_v6_prefix` accepts a /120, whose first address is outside of it. -/
theorem V6Pool.first_address_outside :
    parseV6Prefix fd00Text "fd00::/120" = some (0xfd00#128 <<< 112, 120) ∧
      (∀ c ∈ [(0, [1])],
        (V6Pool.new (0xfd00#128 <<< 112) 120 86400 ⟨∅⟩).current c.1 c.2 = none) ∧
      ¬ (V6Pool.new (0xfd00#128 <<< 112) 120 86400 ⟨∅⟩).AddressesRight [(0, [1])] := by
  refine ⟨by decide, ?_, ?_⟩
  · intro c _
    rfl
  · intro hright
    have hinside := hright.inside 0 _ rfl
    exact absurd hinside (by decide)

end Relay.Dhcp.V6
