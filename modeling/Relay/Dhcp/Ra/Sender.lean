import Relay.Config.Types
import Relay.Dhcp.Ra.Checksum
import Relay.Dhcp.Ra.Learned
import Relay.Logic.Run

/-!
`dhcp/ra/sender.rs`: the broadcast loop of `serve` and `suppress_loop`, beside
the listener that fills the table of prefixes. A panic in any of them aborts the
program.
-/

namespace Relay.Dhcp.Ra

open Binary Logic

/-- A packet socket. It refuses what is longer than the MTU of its link and an
Ethernet header. -/
structure RawSock where
  mtu : BitVec 16

/-- `RawSock::send`, on a link that is `up` or not. -/
def RawSock.sends (sock : RawSock) (up : Bool) (frame : Bytes) : Bool :=
  up && decide (frame.length ≤ sock.mtu.toNat + 14)

/-- What `serve` has found out when its loops start. -/
structure RaService where
  cfg : RaConfig
  sock : RawSock
  srcMac : Vector UInt8 6
  srcIp : Ipv6Addr

/-- What `send_ra` advertises. -/
def RaService.params (r : RaService) (learned : List LearnedPrefix) : RaParams where
  srcMac := r.srcMac
  srcIp := r.srcIp
  prefixes := learned.map fun p => (p.netPrefix, p.prefixLen)
  rdnss := r.cfg.rdnss
  dnsLifetime := r.cfg.dnsLifetime.setWidth 32
  routerLifetime := r.cfg.routerLifetime
  managed := r.cfg.managed
  other := r.cfg.other
  preference := .fromStr r.cfg.preference
  mtu := none

/-- What `suppress_loop` advertises. -/
def RaService.suppressParams (r : RaService) : RaParams where
  srcMac := r.srcMac
  srcIp := r.srcIp
  prefixes := []
  rdnss := []
  dnsLifetime := 0
  routerLifetime := 0
  managed := false
  other := false
  preference := .low
  mtu := none

/-- The frame of an advertisement, if the socket takes it. -/
def RaService.send (r : RaService) (p : RaParams) (up : Bool) : Run Empty (Option Bytes) := do
  let frame ← buildRaFrame p
  .ok (if r.sock.sends up frame then some frame else none)

/-- A frame on the link, by the loop it is from and the prefixes that were
learned then. -/
structure SentRa where
  suppressing : Bool
  learned : List LearnedPrefix
  frame : Bytes

/-- Where `serve` is. -/
inductive Broadcasting where
  /-- It is about to send the first advertisement. -/
  | starting
  | ticking
  /-- It has returned an error. What it has spawned goes on. -/
  | ended
  deriving DecidableEq

structure RaState where
  broadcasting : Broadcasting := .starting
  aborted : Bool := false
  prefixes : List LearnedPrefix := []
  sent : List SentRa := []

inductive RaEvent where
  | receive (message : Bytes)
  | broadcast (up : Bool)
  | suppress (up : Bool)

variable (r : RaService)

/-- A step of one of the loops. `time::interval` panics at an interval of 0. -/
def RaState.next (s : RaState) (e : RaEvent) : Option RaState :=
  if s.aborted then none
  else
    match e with
    | .receive message =>
        match (receive s.prefixes (received message) : Run Empty _) with
        | .ok table => some { s with prefixes := table }
        | .error _ => some { s with aborted := true }
    | .broadcast up =>
        if s.broadcasting = .ended then none
        else
          match r.send (r.params s.prefixes) up with
          | .ok (some frame) =>
              some { s with
                sent := s.sent ++ [⟨false, s.prefixes, frame⟩]
                broadcasting := .ticking
                aborted := decide (s.broadcasting = .starting) && decide (r.cfg.interval = 0) }
          | .ok none =>
              some (if s.broadcasting = .starting then { s with broadcasting := .ended } else s)
          | .error _ => some { s with aborted := true }
    | .suppress up =>
        if r.cfg.suppressOtherRouters then
          match r.send r.suppressParams up with
          | .ok (some frame) => some { s with sent := s.sent ++ [⟨true, [], frame⟩] }
          | .ok none => some s
          | .error _ => some { s with aborted := true }
        else none

/-- The packets of a run, in the order they came, as long as they were received. -/
def packetsOf (trace : List RaEvent) : List Bytes :=
  trace.filterMap fun
    | .receive message => some (received message)
    | _ => none

/-! ### One step -/

/-- What the table is after an event. -/
def RaEvent.teach (table : List LearnedPrefix) : RaEvent → List LearnedPrefix
  | .receive message =>
      updatePrefixes table ((optionsIn (received message)).flatMap optionPrefixes)
  | _ => table

/-- The loop an advertisement is from, and what it says. -/
def SentRa.params (ra : SentRa) : RaParams :=
  if ra.suppressing then r.suppressParams else r.params ra.learned

/-- `e` has put `ra` on the link. -/
structure Sends (s : RaState) (e : RaEvent) (ra : SentRa) : Prop where
  loop : ∃ up, e = if ra.suppressing then .suppress up else .broadcast up
  learned : ra.learned = if ra.suppressing then [] else s.prefixes
  frame : (buildRaFrame (ra.params r) : Run Empty Bytes) = .ok ra.frame
  fits : ra.frame.length ≤ r.sock.mtu.toNat + 14

variable {r} {s s' : RaState} {e : RaEvent}

theorem RaService.send_eq_some {p : RaParams} {up : Bool} {frame : Bytes}
    (h : r.send p up = .ok (some frame)) :
    (buildRaFrame p : Run Empty Bytes) = .ok frame ∧ frame.length ≤ r.sock.mtu.toNat + 14 := by
  obtain ⟨built, hbuilt, hsent⟩ := run_bind_eq_ok.mp h
  have hif : (if r.sock.sends up built then some built else none) = some frame := by
    simpa using hsent
  obtain ⟨hsends, heq⟩ := Option.ite_none_right_eq_some.mp hif
  cases heq
  refine ⟨hbuilt, ?_⟩
  have hboth := (Bool.and_eq_true _ _).mp hsends
  simpa using hboth.2

/-- A step writes the table if it receives, and puts at most one frame on the
link. -/
theorem RaState.next_spec (h : s.next r e = some s') :
    s'.prefixes = e.teach s.prefixes ∧
      (s'.sent = s.sent ∨ ∃ ra, s'.sent = s.sent ++ [ra] ∧ Sends r s e ra) := by
  obtain ⟨_, h⟩ := Option.ite_none_left_eq_some.mp h
  cases e with
  | receive message =>
      dsimp only at h
      rw [receive_eq] at h
      cases h
      exact ⟨rfl, Or.inl rfl⟩
  | broadcast up =>
      obtain ⟨_, h⟩ := Option.ite_none_left_eq_some.mp h
      split at h
      · rename_i frame hsend
        cases h
        obtain ⟨hbuilt, hfits⟩ := RaService.send_eq_some hsend
        exact ⟨rfl, Or.inr ⟨_, rfl, ⟨up, rfl⟩, rfl, hbuilt, hfits⟩⟩
      · cases h
        split <;> exact ⟨rfl, Or.inl rfl⟩
      · cases h
        exact ⟨rfl, Or.inl rfl⟩
  | suppress up =>
      obtain ⟨_, h⟩ := Option.ite_none_right_eq_some.mp h
      split at h
      · rename_i frame hsend
        cases h
        obtain ⟨hbuilt, hfits⟩ := RaService.send_eq_some hsend
        exact ⟨rfl, Or.inr ⟨_, rfl, ⟨up, rfl⟩, rfl, hbuilt, hfits⟩⟩
      · cases h
        exact ⟨rfl, Or.inl rfl⟩
      · cases h
        exact ⟨rfl, Or.inl rfl⟩

/-! ### What a receiver reads of a frame -/

/-- The lifetime of the router, of the source of a frame. -/
def routerLifetimeOf (frame : Bytes) : Nat := ofBe (((icmpOf frame).drop 6).take 2)

theorem buildRaFrame_eq_ok {p : RaParams} {frame : Bytes}
    (h : (buildRaFrame p : Run Empty Bytes) = .ok frame) :
    ∃ checksum : BitVec 16, frame = buildEthHeader p.srcMac ++
      (buildIpv6Header p.srcIp allNodes (BitVec.ofNat 16 (buildRaIcmpv6 p).length) ++
        ([134, 0] ++ toBe 2 checksum ++ (buildRaIcmpv6 p).drop 4)) := by
  obtain ⟨rest, hbody⟩ : ∃ rest, buildRaIcmpv6 p = 134 :: 0 :: 0 :: 0 :: rest := ⟨_, rfl⟩
  obtain ⟨checksum, _, h⟩ := run_bind_eq_ok.mp h
  obtain ⟨icmp, hwrite, h⟩ := run_bind_eq_ok.mp h
  obtain ⟨icmp', hwrite', hicmp, _⟩ := sum_overwrite (ε := Empty) 134 0 rest checksum
  rw [hbody, hwrite'] at hwrite
  cases hwrite
  have hsame : icmp.length = (buildRaIcmpv6 p).length := by
    rw [hicmp, hbody]
    simp
    omega
  cases h
  refine ⟨checksum, ?_⟩
  rw [hsame, hicmp, hbody]
  rfl

theorem buildRaFrame_total {p : RaParams} (hlen : (buildRaIcmpv6 p).length ≤ 65535) :
    ∃ frame, (buildRaFrame p : Run Empty Bytes) = .ok frame := by
  obtain ⟨rest, hbody⟩ : ∃ rest, buildRaIcmpv6 p = 134 :: 0 :: 0 :: 0 :: rest := ⟨_, rfl⟩
  obtain ⟨checksum, hchecksum, _⟩ := icmpv6Checksum_ok (ε := Empty) p.srcIp allNodes hlen
  obtain ⟨icmp, hwrite, _⟩ := sum_overwrite (ε := Empty) 134 0 rest checksum
  rw [← hbody] at hwrite
  have hframe : (buildRaFrame p : Run Empty Bytes) = .ok (buildEthHeader p.srcMac ++
      (buildIpv6Header p.srcIp allNodes (BitVec.ofNat 16 icmp.length) ++ icmp)) := by
    rw [buildRaFrame, hchecksum, run_ok_bind, hwrite, run_ok_bind]
  exact ⟨_, hframe⟩

/-- The message of a frame is the advertisement but for its checksum. -/
structure Carries (p : RaParams) (frame : Bytes) : Prop where
  source : sourceOf frame = octets p.srcIp
  head : (icmpOf frame).head? = some 134
  length : (icmpOf frame).length = (buildRaIcmpv6 p).length
  behind : (icmpOf frame).drop 4 = (buildRaIcmpv6 p).drop 4
  payload : payloadLength frame = (buildRaIcmpv6 p).length % 65536
  whole : frame.length = 54 + (buildRaIcmpv6 p).length

theorem buildRaFrame_carries {p : RaParams} {frame : Bytes}
    (h : (buildRaFrame p : Run Empty Bytes) = .ok frame) : Carries p frame := by
  obtain ⟨checksum, rfl⟩ := buildRaFrame_eq_ok h
  obtain ⟨hpayload, _, hsource, _, hmessage⟩ := frame_parts p.srcMac p.srcIp allNodes
    (BitVec.ofNat 16 (buildRaIcmpv6 p).length)
    ([134, 0] ++ toBe 2 checksum ++ (buildRaIcmpv6 p).drop 4)
  have hlong : 4 ≤ (buildRaIcmpv6 p).length := by
    rw [buildRaIcmpv6_eq]
    simp
    omega
  have hlength : ([134, 0] ++ toBe 2 checksum ++ (buildRaIcmpv6 p).drop 4).length =
      (buildRaIcmpv6 p).length := by
    simp
    omega
  refine ⟨hsource, ?_, ?_, ?_, ?_, ?_⟩
  · rw [hmessage]
    rfl
  · rw [hmessage, hlength]
  · rw [hmessage]
    exact List.drop_left' (by simp)
  · rw [hpayload, BitVec.toNat_ofNat]
  · rw [List.length_append, List.length_append, hlength]
    simp [buildEthHeader, buildIpv6Header]
    omega

/-- The options of an advertisement that was cut behind its header. -/
theorem Carries.optionsIn_take {p : RaParams} {frame : Bytes} (h : Carries p frame) (n : Nat) :
    optionsIn ((icmpOf frame).take (16 + n)) =
      completeOptions 8 ((raOptions p).flatten.take n) := by
  have hbody := buildRaIcmpv6_eq p
  have hlong : 16 ≤ ((icmpOf frame).take (16 + n)).length := by
    rw [List.length_take, h.length, hbody, List.length_append, raHeader_length]
    omega
  have hbehind : (icmpOf frame).drop 16 = (raOptions p).flatten := by
    have hdrop := congrArg (List.drop 12) h.behind
    rw [List.drop_drop, List.drop_drop, hbody] at hdrop
    rw [hdrop]
    exact List.drop_left' (raHeader_length p)
  have hhead : ((icmpOf frame).take (16 + n)).head? = some 134 := by
    rw [List.head?_take, if_neg (by omega), h.head]
  have hadvert : isAdvertisement ((icmpOf frame).take (16 + n)) = true := by
    simp only [isAdvertisement, hlong, hhead, decide_true, Bool.and_self]
  rw [Ra.optionsIn, if_pos hadvert, List.drop_take, Nat.add_sub_cancel_left, hbehind]

theorem Carries.routerLifetime {p : RaParams} {frame : Bytes} (h : Carries p frame) :
    routerLifetimeOf frame = p.routerLifetime.toNat := by
  have hdrop := congrArg (List.drop 2) h.behind
  rw [List.drop_drop, List.drop_drop, buildRaIcmpv6_eq] at hdrop
  have hlt : p.routerLifetime.toNat < 256 ^ 2 := p.routerLifetime.isLt
  unfold routerLifetimeOf
  rw [hdrop, ← ofBe_beBytes_of_lt hlt]
  rfl

end Relay.Dhcp.Ra
