import Relay.Dns.Upstream.EcsEdit
import Relay.Dns.Upstream.Url

/-!
The client-subnet option that `inject_client_subnet` adds, against the form
RFC 7871 gives it: as many address bytes as the prefix needs, and no bit of the
address behind the prefix.
-/

namespace Relay.Dns.Upstream

open Binary Sections

/-! ### Bits of an address -/

/-- Bit `i` of a byte string, the highest bit of the first byte first. -/
def bitAt (bytes : Bytes) (i : Nat) : Bool := (bytes.getD (i / 8) 0).toNat.testBit (7 - i % 8)

/-- Bit `i` of an address, the highest first. -/
def addrBit (addr : IpAddr) (i : Nat) : Bool :=
  match addr with
  | .v4 v4 => v4.getMsbD i
  | .v6 v6 => v6.getMsbD i

private theorem leBytes_getElem? {width k : Nat} (n : Nat) (h : k < width) :
    (leBytes width n)[k]? = some (UInt8.ofNat (n / 256 ^ k)) := by
  induction width generalizing n k with
  | zero => cases h
  | succ width ih =>
      rw [leBytes]
      cases k with
      | zero => simp
      | succ k =>
          rw [List.getElem?_cons_succ, ih (n / 256) (by omega), pow_succ', Nat.div_div_eq_div_mul]

/-- Big-endian bytes hold the bits in their order. -/
theorem bitAt_toBe {w width i : Nat} (x : BitVec w) (hw : w = 8 * width) (hi : i < w) :
    bitAt (toBe width x) i = x.getMsbD i := by
  have hbyte : (toBe width x)[i / 8]? = some (UInt8.ofNat (x.toNat / 256 ^ (width - 1 - i / 8))) := by
    rw [toBe, beBytes, List.getElem?_reverse (by rw [leBytes_length]; omega), leBytes_length]
    exact leBytes_getElem? _ (by omega)
  have hpow : 256 ^ (width - 1 - i / 8) = 2 ^ (8 * (width - 1 - i / 8)) :=
    (pow_mul 2 8 (width - 1 - i / 8)).symm
  have hindex : 8 * (width - 1 - i / 8) + (7 - i % 8) = w - 1 - i := by omega
  rw [bitAt, List.getD_eq_getElem?_getD, hbyte, Option.getD_some, UInt8.toNat_ofNat',
    Nat.testBit_mod_two_pow, hpow, Nat.testBit_div_two_pow, Nat.add_comm, hindex,
    BitVec.testBit_toNat, BitVec.getMsbD]
  have hlow : 7 - i % 8 < 8 := by omega
  simp [hi, hlow]

theorem bitAt_take {bytes : Bytes} {n i : Nat} (h : i < 8 * n) :
    bitAt (bytes.take n) i = bitAt bytes i := by
  rw [bitAt, bitAt, List.getD_eq_getElem?_getD, List.getD_eq_getElem?_getD,
    List.getElem?_take_of_lt (by omega)]

/-! ### The option -/

/-- FAMILY of an address. -/
def familyOf : IpAddr → BitVec 16
  | .v4 _ => 1
  | .v6 _ => 2

/-- `addr.octets()`. -/
def octetsOf : IpAddr → Bytes
  | .v4 v4 => toBe 4 v4
  | .v6 v6 => toBe 16 v6

/-- The longest prefix of an address of its family. -/
def largestPrefix : IpAddr → Nat
  | .v4 _ => 32
  | .v6 _ => 128

/-- The option `inject_client_subnet` builds for a configured subnet. -/
def addedOption (subnet : IpAddr × UInt8) : EdnsOption :=
  clientSubnet (familyOf subnet.1) subnet.2 ((octetsOf subnet.1).take
    (min (max ((subnet.2.toNat + 7) / 8) 1) (octetsOf subnet.1).length))

/-- An option on the wire. -/
def optionBytes (o : EdnsOption) : Bytes :=
  beBytes 2 o.code ++ beBytes 2 o.data.length ++ o.data

/-- `wire_inject_ecs` behind the block that builds its option. -/
def injectOption (msg optionData : Bytes) : Run QueryError Bytes :=
  if msg.length < 12 then fail .messageTooShort
  else do
    let qdcount ← wordAt msg 4
    let ancount ← wordAt msg 6
    let nscount ← wordAt msg 8
    let arcount ← wordAt msg 10
    let pos ← skipQuestions msg qdcount 12
    let pos ← skipRrs msg (ancount + nscount) pos
    let (opt, additionalEnd) ← scanAdditional msg arcount pos none
    match opt with
    | some opt => extendOpt msg optionData opt additionalEnd
    | none => appendOpt msg optionData arcount additionalEnd

/-- What RFC 7871 asks of the option for a subnet. -/
structure Rfc7871 (addr : IpAddr) (prefixLen : UInt8) (o : EdnsOption) : Prop where
  code : o.code = 8
  family : o.data.take 2 = toBe 2 (familyOf addr)
  sourcePrefix : o.data[2]? = some prefixLen
  scope : o.data[3]? = some 0
  /-- ADDRESS has as many bytes as the prefix begins. -/
  length : (o.data.drop 4).length = (prefixLen.toNat + 7) / 8
  /-- Its bits are those of the address within the prefix, and zero behind. -/
  bits : ∀ i < 8 * (o.data.drop 4).length,
    bitAt (o.data.drop 4) i = (decide (i < prefixLen.toNat) && addrBit addr i)

/-- The prefix is not empty, and the address has no bit behind it in the byte
where it ends. -/
def SubnetAligned (addr : IpAddr) (prefixLen : UInt8) : Prop :=
  0 < prefixLen.toNat ∧
    ∀ i, prefixLen.toNat ≤ i → i < 8 * ((prefixLen.toNat + 7) / 8) → addrBit addr i = false

theorem octetsOf_length (addr : IpAddr) : 8 * (octetsOf addr).length = largestPrefix addr := by
  cases addr <;> simp [octetsOf, largestPrefix]

theorem bitAt_octetsOf {addr : IpAddr} {i : Nat} (h : i < largestPrefix addr) :
    bitAt (octetsOf addr) i = addrBit addr i := by
  cases addr with
  | v4 v4 => exact bitAt_toBe v4 rfl h
  | v6 v6 => exact bitAt_toBe v6 rfl h

theorem optionBytes_clientSubnet (family : BitVec 16) (prefixLen : UInt8) (addr : Bytes) :
    optionBytes (clientSubnet family prefixLen addr) = ecsOption family.toNat prefixLen addr := by
  rw [optionBytes, clientSubnet_data_length]
  simp [ecsOption, clientSubnet, toBe]

/-- `inject_client_subnet` splices this option into every request. -/
theorem injectClientSubnet_eq (H : HickoryCrate) (request : Message) (subnet : IpAddr × UInt8) :
    injectClientSubnet H request subnet = (do
      let bytes ← encode H request
      let newBytes ← injectOption bytes (optionBytes (addedOption subnet))
      parseMessage H newBytes) := by
  rw [addedOption, optionBytes_clientSubnet]
  obtain ⟨addr, prefixLen⟩ := subnet
  cases addr <;> rfl

variable {T : NetText}

theorem parseClientSubnet_le {s : String} {addr : IpAddr} {prefixLen : UInt8}
    (h : parseClientSubnet T s = some (addr, prefixLen)) :
    prefixLen.toNat ≤ largestPrefix addr := by
  simp only [parseClientSubnet, Option.bind_eq_bind, Option.bind_eq_some_iff] at h
  obtain ⟨_, _, addr', _, n, hn, h⟩ := h
  have hle : n ≤ largestPrefix addr' ∧ (addr', UInt8.ofNat n) = (addr, prefixLen) := by
    cases addr' <;> simpa [largestPrefix] using h
  obtain ⟨hle, heq⟩ := hle
  cases heq
  rw [UInt8.toNat_ofNat']
  exact (Nat.mod_le n _).trans hle

/-- How many bytes of the address the option carries: one for an empty prefix,
else as many as the prefix begins. -/
theorem addedOption_length {addr : IpAddr} {prefixLen : UInt8}
    (h : prefixLen.toNat ≤ largestPrefix addr) :
    ((addedOption (addr, prefixLen)).data.drop 4).length = max ((prefixLen.toNat + 7) / 8) 1 := by
  have hlength := octetsOf_length addr
  have hpos : 0 < largestPrefix addr := by cases addr <;> simp [largestPrefix]
  rw [List.length_drop, addedOption, clientSubnet_data_length, List.length_take]
  dsimp only
  omega

/-- The bytes it carries are the address's own, host bits included. -/
theorem addedOption_bits {addr : IpAddr} {prefixLen : UInt8} {i : Nat}
    (h : i < 8 * ((addedOption (addr, prefixLen)).data.drop 4).length) :
    bitAt ((addedOption (addr, prefixLen)).data.drop 4) i = addrBit addr i := by
  have hlength := octetsOf_length addr
  rw [addedOption] at h ⊢
  rw [List.length_drop, clientSubnet_data_length, List.length_take] at h
  dsimp only at h
  rw [← bitAt_octetsOf (by omega)]
  apply bitAt_take
  dsimp only
  omega

/-- The option has the form of RFC 7871 exactly when the configured prefix is
not empty and the address is clear in the bits behind it. -/
theorem addedOption_rfc7871_iff {s : String} {addr : IpAddr} {prefixLen : UInt8}
    (h : parseClientSubnet T s = some (addr, prefixLen)) :
    (∀ (H : HickoryCrate) (request : Message),
      injectClientSubnet H request (addr, prefixLen) = (do
        let bytes ← encode H request
        let newBytes ← injectOption bytes (optionBytes (addedOption (addr, prefixLen)))
        parseMessage H newBytes)) ∧
    (Rfc7871 addr prefixLen (addedOption (addr, prefixLen)) ↔ SubnetAligned addr prefixLen) := by
  refine ⟨fun H request => injectClientSubnet_eq H request (addr, prefixLen), ?_⟩
  have hlength := addedOption_length (parseClientSubnet_le h)
  constructor
  · intro hrfc
    have hsize := hrfc.length
    refine ⟨by omega, ?_⟩
    intro i hlo hhi
    have hi : i < 8 * ((addedOption (addr, prefixLen)).data.drop 4).length := by omega
    have hbit := hrfc.bits i hi
    rw [addedOption_bits hi, decide_eq_false (Nat.not_lt.mpr hlo), Bool.false_and] at hbit
    exact hbit
  · rintro ⟨hpos, hclear⟩
    refine ⟨rfl, ?_, rfl, rfl, by omega, ?_⟩
    · exact List.take_left' (toBe_length 2 _)
    · intro i hi
      rw [addedOption_bits hi]
      by_cases hwithin : i < prefixLen.toNat
      · simp [hwithin]
      · rw [decide_eq_false hwithin, Bool.false_and]
        exact hclear i (by omega) (by omega)

/-- Knows one address. -/
private def oneAddress : NetText where
  socketAddr _ := none
  ipAddr s := if s = "1.2.3.255" then some (.v4 0x010203ff) else none
  validUrl _ := false

private theorem parseClientSubnet_oneAddress :
    parseClientSubnet oneAddress "1.2.3.255/24" = some (.v4 0x010203ff, 24) ∧
      parseClientSubnet oneAddress "1.2.3.255/25" = some (.v4 0x010203ff, 25) := by
  decide

theorem addedOption_rfc7871_third_byte :
    Rfc7871 (.v4 0x010203ff) 24 (addedOption (.v4 0x010203ff, 24)) ↔
      SubnetAligned (.v4 0x010203ff) 24 :=
  (addedOption_rfc7871_iff parseClientSubnet_oneAddress.1).2

/-- `1.2.3.255/25` sends the seven host bits of its last byte. -/
theorem host_bits_sent :
    ¬ ∀ (T : NetText) (s : String) (addr : IpAddr) (prefixLen : UInt8),
      parseClientSubnet T s = some (addr, prefixLen) →
        Rfc7871 addr prefixLen (addedOption (addr, prefixLen)) := by
  intro h
  have hrfc := h _ _ _ _ parseClientSubnet_oneAddress.2
  have hbit := hrfc.bits 25 (by decide)
  exact absurd hbit (by decide)

end Relay.Dns.Upstream
