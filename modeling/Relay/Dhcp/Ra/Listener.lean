import Relay.Binary.Total
import Relay.Dhcp.Ra.Builder

/-!
The option walk of `listen_for_prefixes` in `dhcp/ra/listener.rs`, and what it
makes of the advertisements the builder sends.
-/

namespace Relay.Dhcp.Ra

open Binary

structure LearnedPrefix where
  netPrefix : Ipv6Addr
  prefixLen : UInt8
  validLifetime : BitVec 32
  preferredLifetime : BitVec 32
  deriving DecidableEq, Repr

/-- `Ipv6Addr::is_loopback`. -/
def isLoopback (ip : Ipv6Addr) : Bool := decide (ip = 1)

def isLinkLocal (ip : Ipv6Addr) : Bool :=
  match octets ip with
  | a :: b :: _ => decide (a = 0xfe) && decide (b &&& 0xc0 = 0x80)
  | _ => false

/-- Link-local and loopback prefixes are skipped. -/
def skipped (ip : Ipv6Addr) : Bool := isLoopback ip || isLinkLocal ip

variable {ε : Type}

/-- The fields of a Prefix Information option at offset `i`. -/
def readPrefix (packet : Bytes) (i : Nat) : Run ε LearnedPrefix := do
  let prefixLen ← byteAt packet (i + 2)
  let valid ← slice packet (i + 4) (i + 8)
  let preferred ← slice packet (i + 8) (i + 12)
  let bytes ← slice packet (i + 16) (i + 32)
  .ok {
    netPrefix := BitVec.ofNat 128 (ofBe bytes)
    prefixLen := prefixLen
    validLifetime := BitVec.ofNat 32 (ofBe valid)
    preferredLifetime := BitVec.ofNat 32 (ofBe preferred) }

def visitOption (packet : Bytes) (i : Nat) (ty : UInt8) (len : Nat)
    (learned : List LearnedPrefix) : Run ε (List LearnedPrefix) :=
  if ty = 3 ∧ len = 32 then do
    let lp ← readPrefix packet i
    if skipped lp.netPrefix then .ok learned else .ok (learned ++ [lp])
  else .ok learned

/-- What one received packet teaches. -/
def learnedPrefixes (packet : Bytes) : Run ε (List LearnedPrefix) :=
  if packet.length < 16 then .ok []
  else do
    let ty ← byteAt packet 0
    if ty ≠ 134 then .ok []
    else walkOptions 8 packet (visitOption packet) packet.length 16 []

/-! ### One option -/

/-- The fields of a Prefix Information option, read from its own bytes. -/
def prefixIn (opt : Bytes) : LearnedPrefix where
  netPrefix := BitVec.ofNat 128 (ofBe ((opt.drop 16).take 16))
  prefixLen := opt.getD 2 0
  validLifetime := BitVec.ofNat 32 (ofBe ((opt.drop 4).take 4))
  preferredLifetime := BitVec.ofNat 32 (ofBe ((opt.drop 8).take 4))

/-- What an option teaches, wherever it stands. -/
def optionPrefixes (opt : Bytes) : List LearnedPrefix :=
  if opt.head? = some 3 ∧ opt.length = 32 ∧ skipped (prefixIn opt).netPrefix = false then
    [prefixIn opt]
  else []

/-- Reads within an option do not see what is around it. -/
private theorem readPrefix_of_drop {packet opt back : Bytes} {i : Nat}
    (hdrop : packet.drop i = opt ++ back) (hi : i ≤ packet.length) (hlen : opt.length = 32) :
    (readPrefix packet i : Run ε LearnedPrefix) = .ok (prefixIn opt) := by
  have hlength := congrArg List.length hdrop
  simp only [List.length_drop, List.length_append] at hlength
  have hslice : ∀ a b, a ≤ b → b ≤ 32 →
      (slice packet (i + a) (i + b) : Run ε Bytes) = .ok ((opt.drop a).take (b - a)) := by
    intro a b hab hb
    rw [slice_of_le (by omega) (by omega), ← List.drop_drop, hdrop,
      List.drop_append_of_le_length (by omega), List.take_append_of_le_length]
    · rw [Nat.add_sub_add_left]
    · rw [List.length_drop]
      omega
  have hbyte : (byteAt packet (i + 2) : Run ε UInt8) = .ok (opt.getD 2 0) := by
    apply byteAt_of_drop
    rw [← List.drop_drop, hdrop, List.drop_append_of_le_length (by omega),
      List.drop_eq_getElem_cons (by omega : 2 < opt.length), List.getD_eq_getElem?_getD,
      List.getElem?_eq_getElem (by omega : 2 < opt.length)]
    rfl
  rw [readPrefix, hbyte, hslice 4 8 (by omega) (by omega), hslice 8 12 (by omega) (by omega),
    hslice 16 32 (by omega) (by omega)]
  rfl

theorem visitsOption (packet opt : Bytes) :
    VisitsOption (ε := ε) packet (visitOption packet)
      (fun learned opt => .ok (learned ++ optionPrefixes opt)) opt := by
  intro i ty rest back learned hopt hdrop hi
  have hhead : opt.head? = some ty := by rw [hopt]; rfl
  unfold visitOption
  dsimp only
  by_cases hlen : opt.length = 32
  · rw [optionPrefixes, readPrefix_of_drop hdrop hi hlen, run_ok_bind, hhead]
    by_cases hty : ty = 3
    · cases hskip : skipped (prefixIn opt).netPrefix <;> simp [hty, hlen]
    · simp [hty]
  · simp [optionPrefixes, hlen]

/-! ### Advertisements of the builder -/

/-- The prefixes a listener keeps of those a router advertises. -/
def kept (prefixes : List (Ipv6Addr × UInt8)) : List (Ipv6Addr × UInt8) :=
  prefixes.filter fun entry => !skipped entry.1

/-- The body is its header and a row of options, each as long as its second
byte says, and the walk reads the advertised prefixes back. -/
def ReadsBack (p : RaParams) : Prop :=
  buildRaIcmpv6 p = raHeader p ++ (raOptions p).flatten ∧
    (∀ opt ∈ raOptions p, Sized 8 opt) ∧
      ∃ learned, (learnedPrefixes (buildRaIcmpv6 p) : Run Empty _) = .ok learned ∧
        learned.map (fun lp => (lp.netPrefix, lp.prefixLen)) = kept p.prefixes

theorem optionPrefixes_prefixOption (entry : Ipv6Addr × UInt8) :
    (optionPrefixes (prefixOption entry)).map (fun lp => (lp.netPrefix, lp.prefixLen)) =
      kept [entry] := by
  have hnet : (prefixIn (prefixOption entry)).netPrefix = entry.1 := by
    have hbytes : ((prefixOption entry).drop 16).take 16 = octets entry.1 :=
      List.take_of_length_le (octets_length entry.1).le
    rw [prefixIn, hbytes]
    exact ofNat_ofBe_toBe 128 16 (by decide) entry.1
  have hlen : (prefixIn (prefixOption entry)).prefixLen = entry.2 := rfl
  have hsize : (prefixOption entry).length = 32 := by simp [prefixOption]
  have hhead : (prefixOption entry).head? = some 3 := rfl
  rw [optionPrefixes, hhead, hsize, hnet, kept, List.filter_singleton]
  cases hskip : skipped entry.1 <;> simp [hnet, hlen]

private theorem optionPrefixes_of_head {opt : Bytes} (h : opt.head? ≠ some 3) :
    optionPrefixes opt = [] :=
  if_neg fun ⟨hhead, _⟩ => h hhead

/-- Over the options of an advertisement without RDNSS only the prefix options
teach anything. -/
private theorem flatMap_optionPrefixes {p : RaParams} (hnil : p.rdnss = []) :
    ((raOptions p).flatMap optionPrefixes).map (fun lp => (lp.netPrefix, lp.prefixLen)) =
      kept p.prefixes := by
  have hsource : optionPrefixes (sourceLinkOption p.srcMac) = [] :=
    optionPrefixes_of_head (by simp [sourceLinkOption])
  have hmtu : (p.mtu.map mtuOption).toList.flatMap optionPrefixes = [] := by
    cases p.mtu with
    | none => rfl
    | some mtu =>
        have hnone : optionPrefixes (mtuOption mtu) = [] :=
          optionPrefixes_of_head (by simp [mtuOption])
        simp [hnone]
  rw [raOptions, if_pos hnil, List.append_nil, List.flatMap_append, List.flatMap_append, hmtu,
    List.append_nil, List.flatMap_singleton, hsource, List.nil_append, List.flatMap_map]
  induction p.prefixes with
  | nil => rfl
  | cons entry prefixes ih =>
      rw [List.flatMap_cons, List.map_append, ih, optionPrefixes_prefixOption, kept, kept, kept,
        ← List.filter_append, List.singleton_append]

theorem foldlM_optionPrefixes (opts : List Bytes) (learned : List LearnedPrefix) :
    opts.foldlM (fun learned opt => (.ok (learned ++ optionPrefixes opt) : Run ε _)) learned =
      .ok (learned ++ opts.flatMap optionPrefixes) := by
  induction opts generalizing learned with
  | nil => simp [pure, Except.pure]
  | cons opt opts ih =>
      rw [List.foldlM_cons, run_ok_bind, ih, List.flatMap_cons, List.append_assoc]

/-- When every option is as long as it says, the walk sees each in turn. -/
theorem learnedPrefixes_buildRaIcmpv6 {p : RaParams} (hsized : ∀ opt ∈ raOptions p, Sized 8 opt) :
    (learnedPrefixes (buildRaIcmpv6 p) : Run ε _) =
      .ok ((raOptions p).flatMap optionPrefixes) := by
  have hbody := buildRaIcmpv6_eq p
  have hlength := congrArg List.length hbody
  rw [List.length_append, raHeader_length] at hlength
  have hty : (byteAt (buildRaIcmpv6 p) 0 : Run ε UInt8) = .ok 134 := by
    rw [hbody]
    rfl
  have hwalk := walkOptions_flatten
    (fun learned opt => (.ok (learned ++ optionPrefixes opt) : Run ε _)) [] hbody hsized
    (fun opt _ => visitsOption _ opt)
  rw [raHeader_length, foldlM_optionPrefixes, List.nil_append] at hwalk
  rw [learnedPrefixes, if_neg (by omega), hty, run_ok_bind, if_neg (by decide), hwalk]

/-- An advertisement reads back exactly when it carries no RDNSS address. -/
theorem readsBack_iff (p : RaParams) : ReadsBack p ↔ p.rdnss = [] := by
  constructor
  · rintro ⟨_, hsized, _⟩
    exact (raOptions_sized_iff p).mp hsized
  · intro hnil
    have hsized := (raOptions_sized_iff p).mpr hnil
    exact ⟨buildRaIcmpv6_eq p, hsized, _, learnedPrefixes_buildRaIcmpv6 hsized,
      flatMap_optionPrefixes hnil⟩

/-- `2001:db8::1` is announced as the one name server. -/
private def oneServer : RaParams where
  srcMac := Vector.replicate 6 2
  srcIp := 0xfe80_0000_0000_0000_0000_0000_0000_0001
  prefixes := []
  rdnss := [0x2001_0db8_0000_0000_0000_0000_0000_0001]
  dnsLifetime := 600
  routerLifetime := 1800
  managed := false
  other := false
  preference := .medium
  mtu := none

/-- One name server takes 24 bytes and its option says 16. -/
theorem one_server_not_sized : ¬ ∀ p : RaParams, p.rdnss.length ≤ 127 → ReadsBack p := by
  intro h
  have hreads := h oneServer (by decide)
  have hserver : rdnssOption oneServer.rdnss oneServer.dnsLifetime ∈ raOptions oneServer := by
    simp [raOptions, oneServer]
  exact absurd (hreads.2.1 _ hserver) (by decide)

end Relay.Dhcp.Ra
