import Relay.Binary.OnesSum
import Relay.Dhcp.Ra.Builder

/-!
`build_ra_frame` of `dhcp/ra/builder.rs`: the Ethernet and IPv6 headers around
an advertisement, and its ICMPv6 checksum.
-/

namespace Relay.Dhcp.Ra

open Binary

variable {ε : Type}

/-- `ff02::1`. -/
def allNodes : Ipv6Addr := 0xff02_0000_0000_0000_0000_0000_0000_0001

/-- An addition of `u32`s, checked. -/
def checkedAdd32 (a b : Nat) : Run ε Nat :=
  if a + b < 2 ^ 32 then .ok (a + b) else panicked

/-- Add the big-endian words of `bytes`, the odd last byte shifted up. -/
def addWords (sum : Nat) : Bytes → Run ε Nat
  | a :: b :: rest => do
      let sum ← checkedAdd32 sum (a.toNat * 256 + b.toNat)
      addWords sum rest
  | [a] => checkedAdd32 sum (a.toNat <<< 8)
  | [] => .ok sum

/-- `while sum >> 16 != 0`: add the carries to the lower half. -/
def foldCarries (sum : Nat) : Run ε Nat :=
  if sum >>> 16 ≠ 0 then
    if (sum &&& 0xffff) + (sum >>> 16) < 2 ^ 32 then foldCarries ((sum &&& 0xffff) + (sum >>> 16))
    else panicked
  else .ok sum
termination_by sum
decreasing_by
  have hlow : sum &&& 0xffff = sum % 65536 := Nat.and_two_pow_sub_one_eq_mod sum 16
  rw [Nat.shiftRight_eq_div_pow] at *
  omega

def icmpv6Checksum (src dst : Ipv6Addr) (icmp : Bytes) : Run ε (BitVec 16) := do
  let sum ← addWords 0 (octets src)
  let sum ← addWords sum (octets dst)
  let sum ← checkedAdd32 sum (icmp.length % 2 ^ 32)
  let sum ← checkedAdd32 sum 58
  let sum ← addWords sum icmp
  let sum ← foldCarries sum
  .ok (~~~BitVec.ofNat 16 sum)

def buildIpv6Header (src dst : Ipv6Addr) (payloadLen : BitVec 16) : Bytes :=
  [0x60, 0x00, 0x00, 0x00] ++ toBe 2 payloadLen ++ [58] ++ [255] ++ octets src ++ octets dst

def buildEthHeader (srcMac : Vector UInt8 6) : Bytes :=
  [0x33, 0x33, 0x00, 0x00, 0x00, 0x01] ++ srcMac.toList ++ [0x86, 0xdd]

def buildRaFrame (p : RaParams) : Run ε Bytes := do
  let icmp := buildRaIcmpv6 p
  let checksum ← icmpv6Checksum p.srcIp allNodes icmp
  let icmp ← overwrite icmp 2 (toBe 2 checksum)
  let ip := buildIpv6Header p.srcIp allNodes (BitVec.ofNat 16 icmp.length) ++ icmp
  .ok (buildEthHeader p.srcMac ++ ip)

/-! ### What a receiver adds up -/

/-- The pseudo-header of an ICMPv6 message. -/
def pseudoHeader (src dst : Ipv6Addr) (length : Nat) : Bytes :=
  octets src ++ octets dst ++ beBytes 4 length ++ [0, 0, 0, 58]

/-- The parts of a frame behind its Ethernet header of 14 bytes. -/
def payloadLength (frame : Bytes) : Nat := ofBe ((frame.drop 18).take 2)

def nextHeader (frame : Bytes) : Option UInt8 := frame[20]?

def sourceOf (frame : Bytes) : Bytes := (frame.drop 22).take 16

def destinationOf (frame : Bytes) : Bytes := (frame.drop 38).take 16

def icmpOf (frame : Bytes) : Bytes := frame.drop 54

/-! ### The sum -/

private theorem checkedAdd32_ok {a b : Nat} (h : a + b < 2 ^ 32) :
    (checkedAdd32 a b : Run ε Nat) = .ok (a + b) := if_pos h

theorem addWords_ok {sum : Nat} {bytes : Bytes} (h : sum + (words bytes).sum < 2 ^ 32) :
    (addWords sum bytes : Run ε Nat) = .ok (sum + (words bytes).sum) := by
  fun_induction words bytes generalizing sum with
  | case1 a b rest ih =>
      rw [List.sum_cons, ← Nat.add_assoc] at h
      have hadd := checkedAdd32_ok (ε := ε) (Nat.lt_of_le_of_lt (Nat.le_add_right _ _) h)
      rw [addWords, hadd, run_ok_bind, ih h, List.sum_cons, Nat.add_assoc]
  | case2 a =>
      have hword : a.toNat <<< 8 = a.toNat * 256 := Nat.shiftLeft_eq _ 8
      rw [List.sum_singleton] at h
      rw [addWords, hword, List.sum_singleton]
      exact checkedAdd32_ok h
  | case3 => rfl

/-- The carries end, and bring the sum down to 16 bits. -/
theorem foldCarries_ok (sum : Nat) (h : sum < 2 ^ 32) :
    ∃ r, (foldCarries sum : Run ε Nat) = .ok r ∧ OnesOf sum r := by
  induction sum using Nat.strong_induction_on with
  | _ sum ih =>
      have hlow : sum &&& 0xffff = sum % 65536 := Nat.and_two_pow_sub_one_eq_mod sum 16
      have hhigh : sum >>> 16 = sum / 65536 := Nat.shiftRight_eq_div_pow sum 16
      rw [foldCarries, hlow, hhigh]
      split
      case isTrue hcarry =>
        obtain ⟨r, hr, hones⟩ := ih (sum % 65536 + sum / 65536) (by omega) (by omega)
        rw [if_pos (by omega)]
        refine ⟨r, hr, hones.lt, ?_, ?_⟩
        · rw [hones.modEq]
          omega
        · rw [hones.zero]
          omega
      case isFalse hcarry => exact ⟨sum, rfl, OnesOf.of_lt (by omega)⟩

/-- The words that are summed before the message's own. -/
theorem sum_pseudoHeader {src dst : Ipv6Addr} {length : Nat} (h : length < 65536) :
    (words (pseudoHeader src dst length)).sum =
      (words (octets src)).sum + (words (octets dst)).sum + length + 58 := by
  have hlength : words (beBytes 4 length) = [0, length] := by
    have hbytes : beBytes 4 length = [0, 0, UInt8.ofNat (length / 256), UInt8.ofNat length] := by
      simp only [beBytes, leBytes, List.reverse_cons, List.reverse_nil, List.nil_append,
        List.cons_append]
      have hthird : length / 256 / 256 = 0 := by omega
      rw [hthird]
      rfl
    rw [hbytes, words, words, words, UInt8.toNat_ofNat', UInt8.toNat_ofNat']
    congr 1
    congr 1
    omega
  rw [pseudoHeader, words_append _ (by simp), words_append _ (by simp),
    words_append _ (by simp), hlength]
  simp [words]
  omega

/-- The accumulator stays within 32 bits, and the checksum completes the sum of
everything else to a multiple of 65535. -/
theorem icmpv6Checksum_ok (src dst : Ipv6Addr) {icmp : Bytes} (hlen : icmp.length ≤ 65535) :
    ∃ checksum, (icmpv6Checksum src dst icmp : Run ε (BitVec 16)) = .ok checksum ∧
      ((words (pseudoHeader src dst icmp.length)).sum + (words icmp).sum + checksum.toNat) %
        65535 = 0 := by
  have hsrc := sum_words_le (octets src)
  have hdst := sum_words_le (octets dst)
  have hicmp := sum_words_le icmp
  rw [octets_length] at hsrc hdst
  have hmod : icmp.length % 2 ^ 32 = icmp.length := Nat.mod_eq_of_lt (by omega)
  obtain ⟨r, hr, hones⟩ := foldCarries_ok (ε := ε)
    (0 + (words (octets src)).sum + (words (octets dst)).sum + icmp.length + 58 +
      (words icmp).sum) (by omega)
  refine ⟨~~~BitVec.ofNat 16 r, ?_, ?_⟩
  · rw [icmpv6Checksum, addWords_ok (by omega), run_ok_bind, addWords_ok (by omega), run_ok_bind,
      hmod, checkedAdd32_ok (by omega), run_ok_bind, checkedAdd32_ok (by omega), run_ok_bind,
      addWords_ok (by omega), run_ok_bind, hr, run_ok_bind]
  · have hnot : (~~~BitVec.ofNat 16 r).toNat = 65535 - r := by
      rw [BitVec.toNat_not, BitVec.toNat_ofNat, Nat.mod_eq_of_lt hones.lt]
    have hmodEq := hones.modEq
    have hlt := hones.lt
    rw [sum_pseudoHeader (by omega), hnot]
    omega

/-- Writing the checksum over a zero field adds it to the words. -/
theorem sum_overwrite (a b : UInt8) (rest : Bytes) (checksum : BitVec 16) :
    ∃ icmp, (overwrite (a :: b :: 0 :: 0 :: rest) 2 (toBe 2 checksum) : Run ε Bytes) = .ok icmp ∧
      icmp = [a, b] ++ toBe 2 checksum ++ rest ∧
      (words icmp).sum = (words (a :: b :: 0 :: 0 :: rest)).sum + checksum.toNat := by
  have hbytes : toBe 2 checksum =
      [UInt8.ofNat (checksum.toNat / 256), UInt8.ofNat checksum.toNat] := rfl
  refine ⟨[a, b] ++ toBe 2 checksum ++ rest, ?_, rfl, ?_⟩
  · rw [overwrite, if_pos (by simp)]
    simp
  · have hlt := checksum.isLt
    rw [hbytes]
    simp only [List.cons_append, List.nil_append, words, List.sum_cons, UInt8.toNat_ofNat']
    simp
    omega

/-! ### The frame -/

/-- A frame with a message in it, taken apart again. -/
theorem frame_parts (srcMac : Vector UInt8 6) (src dst : Ipv6Addr) (payloadLen : BitVec 16)
    (icmp : Bytes) :
    let frame := buildEthHeader srcMac ++ (buildIpv6Header src dst payloadLen ++ icmp)
    payloadLength frame = payloadLen.toNat ∧ nextHeader frame = some 58 ∧
      sourceOf frame = octets src ∧ destinationOf frame = octets dst ∧ icmpOf frame = icmp := by
  have heth : (buildEthHeader srcMac).length = 14 := by simp [buildEthHeader]
  have hdrop : ∀ n, (buildEthHeader srcMac ++ (buildIpv6Header src dst payloadLen ++ icmp)).drop
      (14 + n) = (buildIpv6Header src dst payloadLen ++ icmp).drop n := by
    intro n
    rw [← List.drop_drop, List.drop_left' heth]
  have hlen : ofBe (toBe 2 payloadLen) = payloadLen.toNat := ofBe_beBytes_of_lt payloadLen.isLt
  have hip : (buildIpv6Header src dst payloadLen).length = 40 := by simp [buildIpv6Header]
  refine ⟨?_, ?_, ?_, ?_, ?_⟩
  · rw [payloadLength, hdrop 4, ← hlen]
    rfl
  · rw [nextHeader, ← List.head?_drop, hdrop 6]
    rfl
  · rw [sourceOf, hdrop 8]
    exact List.take_left' (octets_length src)
  · rw [destinationOf, hdrop 24]
    have hback : (buildIpv6Header src dst payloadLen ++ icmp).drop 24 = octets dst ++ icmp := by
      rw [buildIpv6Header, List.append_assoc]
      exact List.drop_left' (by simp)
    rw [hback]
    exact List.take_left' (octets_length dst)
  · rw [icmpOf, hdrop 40, List.drop_left' hip]

/-- The frame verifies at its receiver. -/
structure Verifies (p : RaParams) (frame : Bytes) : Prop where
  source : sourceOf frame = octets p.srcIp
  destination : destinationOf frame = octets allNodes
  next : nextHeader frame = some 58
  /-- The message is the body apart from the checksum. -/
  before : (icmpOf frame).take 2 = (buildRaIcmpv6 p).take 2
  behind : (icmpOf frame).drop 4 = (buildRaIcmpv6 p).drop 4
  length : (icmpOf frame).length = (buildRaIcmpv6 p).length
  payload : payloadLength frame = (buildRaIcmpv6 p).length
  sum : onesSum (pseudoHeader p.srcIp allNodes (icmpOf frame).length ++ icmpOf frame) = 0xFFFF

/-- An advertisement of at most 65535 bytes is framed without an overflow, and
its checksum verifies. -/
theorem buildRaFrame_verifies (p : RaParams) (hlen : (buildRaIcmpv6 p).length ≤ 65535) :
    ∃ frame, (buildRaFrame p : Run Empty Bytes) = .ok frame ∧ Verifies p frame := by
  obtain ⟨rest, hbody⟩ : ∃ rest, buildRaIcmpv6 p = 134 :: 0 :: 0 :: 0 :: rest := ⟨_, rfl⟩
  obtain ⟨checksum, hchecksum, hzero⟩ := icmpv6Checksum_ok (ε := Empty) p.srcIp allNodes hlen
  obtain ⟨icmp, hwrite, hicmp, hsum⟩ := sum_overwrite (ε := Empty) 134 0 rest checksum
  have hsame : icmp.length = (buildRaIcmpv6 p).length := by
    rw [hicmp, hbody]
    simp
    omega
  have hframe : (buildRaFrame p : Run Empty Bytes) =
      .ok (buildEthHeader p.srcMac ++ (buildIpv6Header p.srcIp allNodes
        (BitVec.ofNat 16 icmp.length) ++ icmp)) := by
    rw [← hbody] at hwrite
    rw [buildRaFrame, hchecksum, run_ok_bind, hwrite, run_ok_bind]
  obtain ⟨hpayload, hnext, hsource, hdestination, hmessage⟩ :=
    frame_parts p.srcMac p.srcIp allNodes (BitVec.ofNat 16 icmp.length) icmp
  have htotal : (words (pseudoHeader p.srcIp allNodes icmp.length ++ icmp)).sum =
      (words (pseudoHeader p.srcIp allNodes (buildRaIcmpv6 p).length)).sum +
        (words (buildRaIcmpv6 p)).sum + checksum.toNat := by
    rw [words_append _ (by simp [pseudoHeader]), List.sum_append, hsum, hsame, ← hbody,
      Nat.add_assoc]
  refine ⟨_, hframe, hsource, hdestination, hnext, ?_, ?_, ?_, ?_, ?_⟩
  · rw [hmessage, hicmp, hbody]
    rfl
  · rw [hmessage, hicmp, hbody]
    rfl
  · rw [hmessage, hsame]
  · rw [hpayload, BitVec.toNat_ofNat, hsame, Nat.mod_eq_of_lt (by omega)]
  · rw [hmessage]
    apply onesSum_eq_ffff
    · rw [htotal, sum_pseudoHeader (by omega)]
      omega
    · rw [htotal]
      exact hzero

/-- An advertisement of one prefix and an MTU. -/
private def onePrefix : RaParams where
  srcMac := Vector.replicate 6 2
  srcIp := 0xfe80_0000_0000_0000_0000_0000_0000_0001
  prefixes := [(0x2001_0db8_0000_0000_0000_0000_0000_0000, 64)]
  rdnss := []
  dnsLifetime := 600
  routerLifetime := 1800
  managed := false
  other := false
  preference := .medium
  mtu := some 1500

theorem onePrefix_verifies :
    ∃ frame, (buildRaFrame onePrefix : Run Empty Bytes) = .ok frame ∧ Verifies onePrefix frame :=
  buildRaFrame_verifies onePrefix (by decide)

end Relay.Dhcp.Ra
