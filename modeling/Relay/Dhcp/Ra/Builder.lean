import Relay.Binary.Tlv
import Relay.Dns.Message

/-!
`dhcp/ra/builder.rs`: the ICMPv6 body of a router advertisement, a header of
16 bytes and a row of options.
-/

namespace Relay.Dhcp.Ra

open Binary

abbrev Ipv6Addr := BitVec 128

/-- `Ipv6Addr::octets()`. -/
def octets (ip : Ipv6Addr) : Bytes := toBe 16 ip

inductive Preference where
  | low
  | medium
  | high
  deriving DecidableEq, Repr

def Preference.fromStr (s : String) : Preference :=
  match s with
  | "low" => low
  | "high" => high
  | _ => medium

/-- The bits of the flags byte it stands for. -/
def Preference.bits : Preference → UInt8
  | low => 0x18
  | medium => 0x00
  | high => 0x08

structure RaParams where
  srcMac : Vector UInt8 6
  /-- Link-local address of the interface. -/
  srcIp : Ipv6Addr
  prefixes : List (Ipv6Addr × UInt8)
  rdnss : List Ipv6Addr
  dnsLifetime : BitVec 32
  routerLifetime : BitVec 16
  managed : Bool
  other : Bool
  preference : Preference
  mtu : Option (BitVec 32)

/-- M, O and the preference. -/
def RaParams.flags (p : RaParams) : UInt8 :=
  (if p.managed then 0x80 else 0) ||| (if p.other then 0x40 else 0) ||| p.preference.bits

/-- Type, code, checksum placeholder, hop limit, flags and the three timers. -/
def raHeader (p : RaParams) : Bytes :=
  [134, 0] ++ [0, 0] ++ [64, p.flags] ++ toBe 2 p.routerLifetime ++ toBe 4 (0 : BitVec 32) ++
    toBe 4 (0 : BitVec 32)

/-- Source Link-Layer Address. -/
def sourceLinkOption (srcMac : Vector UInt8 6) : Bytes := [1, 1] ++ srcMac.toList

def mtuOption (mtu : BitVec 32) : Bytes := [5, 1] ++ [0, 0] ++ toBe 4 mtu

/-- Prefix Information: on-link and autonomous, valid for a day, preferred for
four hours. -/
def prefixOption (entry : Ipv6Addr × UInt8) : Bytes :=
  [3, 4, entry.2, 0xc0] ++ toBe 4 (86400 : BitVec 32) ++ toBe 4 (14400 : BitVec 32) ++
    [0, 0, 0, 0] ++ octets entry.1

/-- RDNSS. The length byte counts one unit for each address. -/
def rdnssOption (rdnss : List Ipv6Addr) (dnsLifetime : BitVec 32) : Bytes :=
  [25, UInt8.ofNat (1 + rdnss.length)] ++ [0, 0] ++ toBe 4 dnsLifetime ++ rdnss.flatMap octets

/-- `build_ra_icmpv6`. -/
def buildRaIcmpv6 (p : RaParams) : Bytes :=
  raHeader p ++ sourceLinkOption p.srcMac ++
    (match p.mtu with
    | some mtu => mtuOption mtu
    | none => []) ++
    p.prefixes.flatMap prefixOption ++
    (if p.rdnss = [] then [] else rdnssOption p.rdnss p.dnsLifetime)

/-- The options, one after another. -/
def raOptions (p : RaParams) : List Bytes :=
  [sourceLinkOption p.srcMac] ++ (p.mtu.map mtuOption).toList ++ p.prefixes.map prefixOption ++
    (if p.rdnss = [] then [] else [rdnssOption p.rdnss p.dnsLifetime])

@[simp] theorem octets_length (ip : Ipv6Addr) : (octets ip).length = 16 := toBe_length 16 ip

@[simp] theorem raHeader_length (p : RaParams) : (raHeader p).length = 16 := by
  simp [raHeader]

/-- The body is its header and the options up to its end. -/
theorem buildRaIcmpv6_eq (p : RaParams) :
    buildRaIcmpv6 p = raHeader p ++ (raOptions p).flatten := by
  unfold buildRaIcmpv6 raOptions
  have hmtu : (match p.mtu with
      | some mtu => mtuOption mtu
      | none => []) = (p.mtu.map mtuOption).toList.flatten := by
    cases p.mtu <;> simp
  have hrdnss : (if p.rdnss = [] then [] else rdnssOption p.rdnss p.dnsLifetime) =
      (if p.rdnss = [] then [] else [rdnssOption p.rdnss p.dnsLifetime]).flatten := by
    split <;> simp
  rw [hmtu, hrdnss]
  simp [List.flatMap_def]

theorem sourceLinkOption_sized (srcMac : Vector UInt8 6) : Sized 8 (sourceLinkOption srcMac) :=
  ⟨1, 1, srcMac.toList, rfl, by simp [sourceLinkOption]⟩

theorem mtuOption_sized (mtu : BitVec 32) : Sized 8 (mtuOption mtu) :=
  ⟨5, 1, [0, 0] ++ toBe 4 mtu, rfl, by simp [mtuOption]⟩

theorem prefixOption_sized (entry : Ipv6Addr × UInt8) : Sized 8 (prefixOption entry) :=
  ⟨3, 4, _, rfl, by simp [prefixOption]⟩

theorem rdnssOption_length (rdnss : List Ipv6Addr) (dnsLifetime : BitVec 32) :
    (rdnssOption rdnss dnsLifetime).length = 8 + 16 * rdnss.length := by
  have haddrs : (rdnss.flatMap octets).length = 16 * rdnss.length := by
    induction rdnss with
    | nil => rfl
    | cons ip rdnss ih =>
        rw [List.flatMap_cons, List.length_append, ih, octets_length, List.length_cons]
        omega
  simp only [rdnssOption, List.length_append, haddrs, toBe_length, List.length_cons,
    List.length_nil]

/-- An address takes two units and is counted as one, so an RDNSS option with
an address never declares its own length. -/
theorem rdnssOption_sized_iff (rdnss : List Ipv6Addr) (dnsLifetime : BitVec 32) :
    Sized 8 (rdnssOption rdnss dnsLifetime) ↔ rdnss = [] := by
  have hlength := rdnssOption_length rdnss dnsLifetime
  constructor
  · rintro ⟨ty, units, body, heq, hunits⟩
    have hsecond : units = UInt8.ofNat (1 + rdnss.length) := by
      simp only [rdnssOption, List.cons_append, List.cons.injEq] at heq
      exact heq.2.1.symm
    rw [hlength, hsecond, UInt8.toNat_ofNat'] at hunits
    have hle : (1 + rdnss.length) % 2 ^ 8 ≤ 1 + rdnss.length := Nat.mod_le _ _
    apply List.eq_nil_of_length_eq_zero
    omega
  · rintro rfl
    exact ⟨25, 1, [0, 0] ++ toBe 4 dnsLifetime, rfl, by simp [rdnssOption]⟩

/-- Every option declares its own length exactly when there is no RDNSS
address. -/
theorem raOptions_sized_iff (p : RaParams) :
    (∀ opt ∈ raOptions p, Sized 8 opt) ↔ p.rdnss = [] := by
  constructor
  · intro h
    by_contra hne
    have hmem : rdnssOption p.rdnss p.dnsLifetime ∈ raOptions p := by
      simp [raOptions, hne]
    exact hne ((rdnssOption_sized_iff p.rdnss p.dnsLifetime).mp (h _ hmem))
  · intro hnil opt hopt
    simp only [raOptions, hnil, if_true, List.append_nil, List.mem_append, List.mem_singleton,
      Option.mem_toList, Option.map_eq_some_iff, List.mem_map] at hopt
    rcases hopt with (rfl | ⟨mtu, _, rfl⟩) | ⟨entry, _, rfl⟩
    · exact sourceLinkOption_sized p.srcMac
    · exact mtuOption_sized mtu
    · exact prefixOption_sized entry

end Relay.Dhcp.Ra
