import Relay.Dhcp.V4.Uniqueness
import Relay.Dhcp.V6.Server

/-!
The times of a lease, from the text in the configuration to the replies of both
servers. On the way are a product in `u64`, a sum with the clock in `u64`, a
cast to `u32` and a product in `u32`. The last one is the first to overflow, at
a little over nineteen years.
-/

namespace Relay.Dhcp

open Dns Text

/-- The number and the seconds of the unit behind it. -/
def splitUnit (s : String) : String × Nat :=
  let s := trim s
  match stripSuffixChar 'h' s with
  | some h => (h, 3600)
  | none =>
      match stripSuffixChar 'm' s with
      | some m => (m, 60)
      | none => ((stripSuffixChar 's' s).getD s, 1)

/-- The seconds a lease time that is accepted says, as a number without bound. -/
def saidSeconds (s : String) : Option Nat :=
  (parseUnsigned (2 ^ 64 - 1) (splitUnit s).1).map (fun n => n * (splitUnit s).2)

theorem parseUnsigned_le {largest n : Nat} {s : String} (h : parseUnsigned largest s = some n) :
    n ≤ largest := by
  unfold parseUnsigned at h
  obtain ⟨m, _, h⟩ := Option.bind_eq_some_iff.mp h
  split at h
  · rename_i hle
    cases h
    exact hle
  · cases h

/-- The parser accepts what says a number of seconds, and takes it modulo 2^64. -/
theorem parseLeaseTime_eq (s : String) :
    V4.parseLeaseTime s = (saidSeconds s).map (fun n => n % 2 ^ 64) := by
  have hone : ∀ number : String, parseUnsigned (2 ^ 64 - 1) number =
      ((parseUnsigned (2 ^ 64 - 1) number).map (fun n => n * 1)).map (fun n => n % 2 ^ 64) := by
    intro number
    cases hnumber : parseUnsigned (2 ^ 64 - 1) number with
    | none => rfl
    | some n =>
        have hle := parseUnsigned_le hnumber
        rw [Option.map_some, Option.map_some, Nat.mul_one, Nat.mod_eq_of_lt (by omega)]
  unfold V4.parseLeaseTime saidSeconds splitUnit
  dsimp only
  cases stripSuffixChar 'h' (trim s) with
  | some number => rw [Option.map_map]; rfl
  | none =>
      cases stripSuffixChar 'm' (trim s) with
      | some number => rw [Option.map_map]; rfl
      | none =>
          cases stripSuffixChar 's' (trim s) with
          | some number => exact hone number
          | none => exact hone (trim s)

/-- T1, T2 and the time of the lease, in a reply. -/
structure LeaseTimes where
  t1 : BitVec 32
  t2 : BitVec 32
  lease : BitVec 32

def V4.ReplyOptions.times (o : V4.ReplyOptions) : LeaseTimes := ⟨o.renewal, o.rebinding, o.leaseTime⟩

def V6.Iana.times (iana : V6.Iana) : LeaseTimes := ⟨iana.t1, iana.t2, iana.validLife⟩

/-- In order, and for a lease of `n` seconds. -/
def LeaseTimes.Right (times : LeaseTimes) (n : Nat) : Prop :=
  times.t1 ≤ times.t2 ∧ times.t2 ≤ times.lease ∧ times.lease.toNat = n

/-- Nothing overflows or is cut off on the way of `n` seconds to the replies, and
these advertise them in order. -/
structure TimersRight (cfg : V4.ServerConfig) (cfg6 : V6.ServerConfig) (pool6 : V6.V6Pool)
    (unix n : Nat) : Prop where
  /-- The duration that is parsed. -/
  parsed : cfg.pool.leaseDuration = n ∧ pool6.leaseDuration = n
  /-- The sums with the clock. -/
  expiry : ∀ env mac ip hostname, env.unix = unix →
    (cfg.pool.leaseFor env mac ip hostname).expiresAt = unix + n
  expiry6 : ∀ duid ip hostname, (pool6.leaseFor unix duid ip hostname).expiresAt = unix + n
  /-- The casts. -/
  seconds : cfg.pool.leaseSeconds.toNat = n ∧ cfg6.leaseSecs.toNat = n
  /-- The products in `build_reply`. -/
  product : (cfg.pool.leaseSeconds * 7).toNat = n * 7 ∧ (cfg6.leaseSecs * 7).toNat = n * 7
  replies : ∀ req type ip options, (V4.buildReply cfg req type ip).options = some options →
    options.times.Right n
  replies6 : ∀ xid client ip dns iana,
    (V6.buildReply xid client ip dns cfg6.leaseSecs).iana = some iana →
    iana.times.Right n ∧ iana.preferredLife.toNat = n

/-- Half and seven eighths of a time whose sevenfold fits are in order. -/
theorem times_right {lease : BitVec 32} (h : lease.toNat * 7 < 2 ^ 32) :
    (LeaseTimes.mk (lease / 2) (lease * 7 / 8) lease).Right lease.toNat := by
  have htwo : (2 : BitVec 32).toNat = 2 := rfl
  have hseven : (7 : BitVec 32).toNat = 7 := rfl
  have height : (8 : BitVec 32).toNat = 8 := rfl
  have hproduct : (lease * 7).toNat = lease.toNat * 7 := by
    rw [BitVec.toNat_mul, hseven, Nat.mod_eq_of_lt h]
  refine ⟨?_, ?_, rfl⟩
  · rw [BitVec.le_def, BitVec.toNat_udiv, BitVec.toNat_udiv, hproduct, htwo, height]
    omega
  · change (lease * 7 / 8).toNat ≤ lease.toNat
    rw [BitVec.toNat_udiv, hproduct, height]
    omega

/-- The timers of a lease time are right exactly when it is at most 613566756
seconds, and the clock leaves room for it. -/
theorem timersRight_iff {s : String} {n duration : Nat} (hsaid : saidSeconds s = some n)
    (hparsed : V4.parseLeaseTime s = some duration) (cfg : DhcpV4Config) (cfg6 : DhcpV6Config)
    (netPrefix : V6.Ipv6Addr) (prefixLen : UInt8) (store : V6.V6LeaseStore) (unix : Nat) :
    TimersRight (V4.serverConfig cfg duration) (V6.serverConfig cfg6 duration)
        (V6.V6Pool.new netPrefix prefixLen duration store) unix n ↔
      n ≤ 613566756 ∧ unix + n < 2 ^ 64 := by
  have hduration : duration = n % 2 ^ 64 := by
    rw [parseLeaseTime_eq, hsaid] at hparsed
    exact (Option.some.inj hparsed).symm
  constructor
  · intro h
    have hproduct : (BitVec.ofNat 32 duration * 7).toNat = n * 7 := h.product.1
    have hlt := (BitVec.ofNat 32 duration * 7).isLt
    have hexpiry : (unix + duration) % 2 ^ 64 = unix + n := h.expiry6 [] 0 none
    have hmod := Nat.mod_lt (unix + duration) (Nat.two_pow_pos 64)
    exact ⟨by omega, by omega⟩
  · rintro ⟨hle, hclock⟩
    have hsame : duration = n := by omega
    subst hsame
    have hsum : (unix + duration) % 2 ^ 64 = unix + duration := Nat.mod_eq_of_lt hclock
    have hseconds : (BitVec.ofNat 32 duration).toNat = duration := by
      rw [BitVec.toNat_ofNat]
      exact Nat.mod_eq_of_lt (by omega)
    have hfits : (BitVec.ofNat 32 duration).toNat * 7 < 2 ^ 32 := by omega
    have hproduct : (BitVec.ofNat 32 duration * 7).toNat = duration * 7 := by
      rw [BitVec.toNat_mul, hseconds]
      exact Nat.mod_eq_of_lt (by rw [← hseconds]; exact hfits)
    have hright := times_right hfits
    rw [hseconds] at hright
    refine ⟨⟨rfl, rfl⟩, ?_, fun _ _ _ => hsum, ⟨hseconds, hseconds⟩, ⟨hproduct, hproduct⟩, ?_, ?_⟩
    · rintro env mac ip hostname rfl
      exact hsum
    · intro req type ip options hoptions
      cases hoptions
      exact hright
    · intro xid client ip dns iana hiana
      obtain ⟨addr, _, rfl⟩ := Option.map_eq_some_iff.mp hiana
      exact ⟨hright, hseconds⟩

private def stateless : DhcpV6Config where
  interface := "br0"
  dns := []

theorem timersRight_one_day :
    TimersRight (V4.serverConfig { V4.smallConfig with leaseTime := "24h" } 86400)
      (V6.serverConfig { stateless with leaseTime := "24h" } 86400)
      (V6.V6Pool.new V6.defaultPrefix 64 86400 ⟨∅⟩) 1700000000 86400 :=
  (timersRight_iff (s := "24h") rfl rfl _ _ _ _ _ _).mpr ⟨by decide, by decide⟩

/-- For a lease of twenty years T2 comes before T1. -/
theorem twenty_years_misordered :
    ¬ ∀ (s : String) (n duration : Nat) (cfg : DhcpV4Config) (cfg6 : DhcpV6Config)
      (netPrefix : V6.Ipv6Addr) (prefixLen : UInt8) (store : V6.V6LeaseStore) (unix : Nat),
      saidSeconds s = some n → V4.parseLeaseTime s = some duration → cfg.leaseTime = s →
      cfg6.leaseTime = s → unix + n < 2 ^ 64 →
      TimersRight (V4.serverConfig cfg duration) (V6.serverConfig cfg6 duration)
        (V6.V6Pool.new netPrefix prefixLen duration store) unix n := by
  intro h
  have hright := h "175200h" 630720000 630720000 { V4.smallConfig with leaseTime := "175200h" }
    { stateless with leaseTime := "175200h" } V6.defaultPrefix 64 ⟨∅⟩ 0 rfl rfl rfl rfl (by decide)
  have hordered := (hright.replies6 0 none (some 0) [] _ rfl).1.1
  revert hordered
  decide

end Relay.Dhcp
