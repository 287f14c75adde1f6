import Relay.Dhcp.Ra.Sender

/-!
What the router advertisements say that `serve` and `suppress_loop` put on a
link, over every run of their loops: to another listener, and to a host that
picks its default routers.
-/

namespace Relay.Dhcp.Ra

open Binary Logic

/-! ### What one advertisement teaches -/

/-- An entry as the next listener has it. An advertisement says nothing of the
lifetimes that were learned. -/
def renewed (lp : LearnedPrefix) : LearnedPrefix :=
  { lp with
    validLifetime := 86400
    preferredLifetime := 14400 }

theorem optionPrefixes_of_prefix {lp : LearnedPrefix} (h : skipped lp.netPrefix = false) :
    optionPrefixes (prefixOption (lp.netPrefix, lp.prefixLen)) = [renewed lp] := by
  have hnet : BitVec.ofNat 128 (ofBe ((octets lp.netPrefix).take 16)) = lp.netPrefix := by
    rw [List.take_of_length_le (octets_length _).le]
    exact ofNat_ofBe_toBe 128 16 (by simp) lp.netPrefix
  have hlength : (prefixOption (lp.netPrefix, lp.prefixLen)).length = 32 := by simp [prefixOption]
  have hread : prefixIn (prefixOption (lp.netPrefix, lp.prefixLen)) = renewed lp := by
    change LearnedPrefix.mk _ _ (BitVec.ofNat 32 (ofBe (toBe 4 (86400 : BitVec 32))))
      (BitVec.ofNat 32 (ofBe (toBe 4 (14400 : BitVec 32)))) = _
    rw [ofNat_ofBe_toBe 32 4 (by simp), ofNat_ofBe_toBe 32 4 (by simp)]
    exact congrArg (fun ip => LearnedPrefix.mk ip lp.prefixLen 86400 14400) hnet
  unfold optionPrefixes
  rw [hread, hlength]
  exact if_pos ⟨rfl, rfl, h⟩

theorem optionPrefixes_eq_nil {opt : Bytes} (h : opt.head? ≠ some 3 ∨ opt.length ≠ 32) :
    optionPrefixes opt = [] := by
  apply if_neg
  rintro ⟨hhead, hlength, _⟩
  exact h.elim (absurd hhead) (absurd hlength)

/-- Less than a Prefix Information option teaches nothing. -/
theorem short_teaches_nothing {bytes : Bytes} (hshort : bytes.length < 32) :
    (completeOptions 8 bytes).flatMap optionPrefixes = [] := by
  apply List.flatMap_eq_nil_iff.mpr
  intro opt hopt
  have hle := length_le_of_mem_completeOptions (by omega) hopt
  exact optionPrefixes_eq_nil (Or.inr (by omega))

/-- What is read of an option for at most three name servers, cut or not, is no
prefix. -/
theorem rdnss_teaches_nothing {rdnss : List Ipv6Addr} (hservers : rdnss.length ≤ 3)
    (dnsLifetime : BitVec 32) (n : Nat) :
    (completeOptions 8 ((rdnssOption rdnss dnsLifetime).take n)).flatMap optionPrefixes = [] := by
  by_cases hshort : ((rdnssOption rdnss dnsLifetime).take n).length < 32
  · exact short_teaches_nothing hshort
  have hlength := rdnssOption_length rdnss dnsLifetime
  rw [List.length_take, hlength] at hshort
  obtain ⟨n, rfl⟩ : ∃ n', n = n' + 2 := ⟨n - 2, by omega⟩
  have hunits : (UInt8.ofNat (1 + rdnss.length)).toNat = 1 + rdnss.length := by
    rw [UInt8.toNat_ofNat']
    omega
  have hshape : ∃ body, rdnssOption rdnss dnsLifetime =
      25 :: UInt8.ofNat (1 + rdnss.length) :: body := ⟨_, rfl⟩
  obtain ⟨body, hbody⟩ := hshape
  have hbodyLength : body.length = 6 + 16 * rdnss.length := by
    rw [hbody] at hlength
    simp only [List.length_cons] at hlength
    omega
  rw [hbody, List.take_succ_cons, List.take_succ_cons, completeOptions, hunits,
    if_pos (by rw [List.length_cons, List.length_cons, List.length_take]; omega),
    List.flatMap_cons]
  have hfirst : optionPrefixes ((25 :: UInt8.ofNat (1 + rdnss.length) :: body.take n).take
      ((1 + rdnss.length) * 8)) = [] := by
    apply optionPrefixes_eq_nil
    left
    rw [List.head?_take, if_neg (by omega)]
    simp
  rw [hfirst, List.nil_append]
  -- half of each address is left, too little for a prefix option
  apply short_teaches_nothing
  rw [List.length_drop, List.length_cons, List.length_cons, List.length_take]
  omega

theorem prefixOptions_length (table : List LearnedPrefix) :
    (table.flatMap fun lp => prefixOption (lp.netPrefix, lp.prefixLen)).length =
      32 * table.length := by
  induction table with
  | nil => rfl
  | cons lp table ih =>
      rw [List.flatMap_cons, List.length_append, ih]
      simp [prefixOption]
      omega

variable {r : RaService}

/-- The options of a broadcast that was cut behind its first `k` prefixes, or
within the next one. -/
theorem params_teach {learned : List LearnedPrefix} (hservers : r.cfg.rdnss.length ≤ 3)
    (hkept : ∀ lp ∈ learned, skipped lp.netPrefix = false) (k : Nat) {m : Nat} (hm : m < 32) :
    (completeOptions 8 ((raOptions (r.params learned)).flatten.take (8 + 32 * k + m))).flatMap
      optionPrefixes = (learned.take k).map renewed := by
  let front := sourceLinkOption r.srcMac ::
    (learned.take k).map fun lp => prefixOption (lp.netPrefix, lp.prefixLen)
  let back := (learned.drop k).map fun lp => prefixOption (lp.netPrefix, lp.prefixLen)
  let rdnss := if r.cfg.rdnss = [] then [] else rdnssOption r.cfg.rdnss (r.cfg.dnsLifetime.setWidth 32)
  have hoptions : (raOptions (r.params learned)).flatten =
      front.flatten ++ (back.flatten ++ rdnss) := by
    have hall : (learned.map fun lp => prefixOption (lp.netPrefix, lp.prefixLen)) =
        (learned.take k).map (fun lp => prefixOption (lp.netPrefix, lp.prefixLen)) ++ back := by
      rw [← List.map_append, List.take_append_drop]
    simp only [raOptions, RaService.params, List.map_map, Function.comp_def, hall, front, rdnss]
    by_cases hnil : r.cfg.rdnss = [] <;> simp [hnil]
  have hsized : ∀ opt ∈ front, Sized 8 opt := by
    intro opt hopt
    rcases List.mem_cons.mp hopt with rfl | hopt
    · exact sourceLinkOption_sized r.srcMac
    · obtain ⟨lp, _, rfl⟩ := List.mem_map.mp hopt
      exact prefixOption_sized _
  have hfront : front.flatten.length = 8 + 32 * min k learned.length := by
    simp only [front, List.flatten_cons, List.length_append, ← List.flatMap_def,
      prefixOptions_length, List.length_take]
    simp [sourceLinkOption]
  have hrest : (completeOptions 8 ((back.flatten ++ rdnss).take
      (8 + 32 * k + m - front.flatten.length))).flatMap optionPrefixes = [] := by
    by_cases hcut : k ≤ learned.length
    · apply short_teaches_nothing
      rw [List.length_take]
      omega
    · have hback : back = [] := by
        rw [List.map_eq_nil_iff]
        exact List.drop_eq_nil_of_le (by omega)
      rw [hback, List.flatten_nil, List.nil_append]
      dsimp only [rdnss]
      split
      · rw [List.take_nil]
        exact short_teaches_nothing (by simp)
      · exact rdnss_teaches_nothing hservers _ _
  have htake : (raOptions (r.params learned)).flatten.take (8 + 32 * k + m) =
      front.flatten ++ (back.flatten ++ rdnss).take (8 + 32 * k + m - front.flatten.length) := by
    rw [hoptions, List.take_append, List.take_of_length_le (by omega)]
  have hsource : optionPrefixes (sourceLinkOption r.srcMac) = [] :=
    optionPrefixes_eq_nil (Or.inl (by simp [sourceLinkOption]))
  rw [htake, completeOptions_append hsized, List.flatMap_append, hrest, List.append_nil,
    List.flatMap_cons, hsource, List.nil_append, List.flatMap_map, List.map_eq_flatMap]
  exact List.flatMap_congr fun lp hlp =>
    optionPrefixes_of_prefix (hkept lp (List.mem_of_mem_take hlp))

theorem suppressParams_teach (n : Nat) :
    (completeOptions 8 ((raOptions r.suppressParams).flatten.take n)).flatMap optionPrefixes =
      [] := by
  apply short_teaches_nothing
  rw [List.length_take]
  change min n (sourceLinkOption r.srcMac ++ []).length < 32
  simp [sourceLinkOption]

/-! ### The table and the frames of a run -/

variable {trace : List RaEvent} {s s' : RaState} {e : RaEvent}

/-- The table of a listener: one entry for each prefix, none that is skipped. -/
structure TableKept (table : List LearnedPrefix) : Prop where
  nodup : (table.map LearnedPrefix.netPrefix).Nodup
  kept : ∀ lp ∈ table, skipped lp.netPrefix = false

/-- Prefixes stay where they are in the table. -/
def Extends (table later : List LearnedPrefix) : Prop :=
  table.map LearnedPrefix.netPrefix <+: later.map LearnedPrefix.netPrefix

theorem TableKept.updatePrefixes {table learned : List LearnedPrefix} (h : TableKept table)
    (hlearned : ∀ lp ∈ learned, skipped lp.netPrefix = false) :
    TableKept (updatePrefixes table learned) ∧ Extends table (updatePrefixes table learned) := by
  unfold Ra.updatePrefixes
  induction learned generalizing table with
  | nil => exact ⟨h, List.prefix_refl _⟩
  | cons lp learned ih =>
      have hstep : TableKept (updateOrPush LearnedPrefix.netPrefix lp table) := by
        refine ⟨nodup_updateOrPush h.nodup, ?_⟩
        intro other hother
        rcases (mem_updateOrPush h.nodup).mp hother with rfl | ⟨hother, _⟩
        · exact hlearned other List.mem_cons_self
        · exact h.kept other hother
      obtain ⟨hkept, hextends⟩ := ih hstep fun other hother =>
        hlearned other (List.mem_cons_of_mem lp hother)
      exact ⟨hkept, (keys_updateOrPush lp table).trans hextends⟩

theorem optionPrefixes_kept {opt : Bytes} {lp : LearnedPrefix} (h : lp ∈ optionPrefixes opt) :
    skipped lp.netPrefix = false := by
  unfold optionPrefixes at h
  split at h
  · rename_i hall
    cases List.mem_singleton.mp h
    exact hall.2.2
  · cases h

theorem TableKept.teach {table : List LearnedPrefix} (h : TableKept table) (e : RaEvent) :
    TableKept (e.teach table) ∧ Extends table (e.teach table) := by
  cases e with
  | receive message =>
      apply h.updatePrefixes
      intro lp hlp
      obtain ⟨opt, _, hopt⟩ := List.mem_flatMap.mp hlp
      exact optionPrefixes_kept hopt
  | _ => exact ⟨h, List.prefix_refl _⟩

theorem packetsOf_append (trace : List RaEvent) (e : RaEvent) :
    packetsOf (trace ++ [e]) = packetsOf trace ++ (match e with
      | .receive message => [received message]
      | _ => []) := by
  unfold packetsOf
  rw [List.filterMap_append]
  cases e <;> rfl

theorem listenForPrefixes_append {table : List LearnedPrefix}
    (h : (listenForPrefixes (packetsOf trace) : Run Empty _) = .ok table) (e : RaEvent) :
    (listenForPrefixes (packetsOf (trace ++ [e])) : Run Empty _) = .ok (e.teach table) := by
  rw [packetsOf_append]
  cases e with
  | receive message =>
      unfold listenForPrefixes at h ⊢
      rw [List.foldlM_append, h, run_ok_bind, List.foldlM_cons, receive_eq, run_ok_bind]
      rfl
  | _ =>
      rw [List.append_nil]
      exact h

/-- What the run says of a frame that it has put on the link. -/
structure SentRa.Sound (r : RaService) (trace : List RaEvent) (ra : SentRa) : Prop where
  origin : ∃ before after up,
    trace = before ++ (if ra.suppressing then .suppress up else .broadcast up) :: after ∧
      (ra.suppressing = false →
        (listenForPrefixes (packetsOf before) : Run Empty _) = .ok ra.learned)
  table : TableKept ra.learned
  carries : Carries (ra.params r) ra.frame
  fits : ra.frame.length ≤ r.sock.mtu.toNat + 14

def broadcasts (sent : List SentRa) : List SentRa := sent.filter fun ra => !ra.suppressing

structure RaState.Sound (r : RaService) (trace : List RaEvent) (s : RaState) : Prop where
  table : (listenForPrefixes (packetsOf trace) : Run Empty _) = .ok s.prefixes
  kept : TableKept s.prefixes
  sent : ∀ ra ∈ s.sent, ra.Sound r trace
  grows : (broadcasts s.sent).Pairwise fun ra later => Extends ra.learned later.learned
  upToNow : ∀ ra ∈ broadcasts s.sent, Extends ra.learned s.prefixes

theorem SentRa.Sound.append {ra : SentRa} (h : ra.Sound r trace) (e : RaEvent) :
    ra.Sound r (trace ++ [e]) := by
  obtain ⟨⟨before, after, up, rfl, hlearned⟩, htable, hcarries, hfits⟩ := h
  exact ⟨⟨before, after ++ [e], up, by simp, hlearned⟩, htable, hcarries, hfits⟩

theorem Sends.sound {ra : SentRa} (hsends : Sends r s e ra) (h : s.Sound r trace) :
    ra.Sound r (trace ++ [e]) := by
  obtain ⟨⟨up, rfl⟩, hlearned, hframe, hfits⟩ := hsends
  refine ⟨⟨trace, [], up, rfl, fun hbroadcast => ?_⟩, ?_, buildRaFrame_carries hframe, hfits⟩
  · rw [hlearned, hbroadcast]
    exact h.table
  · rw [hlearned]
    split
    · exact ⟨List.nodup_nil, fun lp hlp => by cases hlp⟩
    · exact h.kept

theorem RaState.Sound.step (h : s.Sound r trace) (hstep : s.next r e = some s') :
    s'.Sound r (trace ++ [e]) := by
  obtain ⟨hprefixes, hsent⟩ := next_spec hstep
  obtain ⟨hkept, hextends⟩ := h.kept.teach e
  rw [← hprefixes] at hkept hextends
  have htable : (listenForPrefixes (packetsOf (trace ++ [e])) : Run Empty _) = .ok s'.prefixes := by
    rw [hprefixes]
    exact listenForPrefixes_append h.table e
  have hearlier : ∀ ra ∈ broadcasts s.sent, Extends ra.learned s'.prefixes :=
    fun ra hra => (h.upToNow ra hra).trans hextends
  rcases hsent with hsame | ⟨ra, hmore, hsends⟩
  · rw [← hsame] at hearlier
    refine ⟨htable, hkept, ?_, by rw [hsame]; exact h.grows, hearlier⟩
    intro ra hra
    rw [hsame] at hra
    exact (h.sent ra hra).append e
  · have hall : ∀ other ∈ s'.sent, other.Sound r (trace ++ [e]) := by
      intro other hother
      rw [hmore] at hother
      rcases List.mem_append.mp hother with hother | hother
      · exact (h.sent other hother).append e
      · rw [List.mem_singleton.mp hother]
        exact hsends.sound h
    cases hsuppressing : ra.suppressing with
    | true =>
        have hsame : broadcasts s'.sent = broadcasts s.sent := by
          simp [broadcasts, hmore, hsuppressing]
        exact ⟨htable, hkept, hall, by rw [hsame]; exact h.grows, by rw [hsame]; exact hearlier⟩
    | false =>
        have hmore' : broadcasts s'.sent = broadcasts s.sent ++ [ra] := by
          simp [broadcasts, hmore, hsuppressing]
        have hlearned : ra.learned = s.prefixes := by simpa [hsuppressing] using hsends.learned
        refine ⟨htable, hkept, hall, ?_, ?_⟩
        · rw [hmore']
          refine List.pairwise_append.mpr ⟨h.grows, List.pairwise_singleton _ _, ?_⟩
          intro other hother last hlast
          rw [List.mem_singleton.mp hlast, hlearned]
          exact h.upToNow other hother
        · intro other hother
          rw [hmore'] at hother
          rcases List.mem_append.mp hother with hother | hother
          · exact hearlier other hother
          · rw [List.mem_singleton.mp hother, hlearned]
            exact hextends

theorem RaState.Sound.run (run : Steps (fun s e t => s.next r e = some t) {} trace s) :
    s.Sound r trace := by
  induction run with
  | done =>
      exact ⟨rfl, ⟨List.nodup_nil, fun _ h => by cases h⟩, (fun _ h => by cases h), .nil,
        (fun _ h => by cases h)⟩
  | next _ hstep ih => exact ih.step hstep

/-! ### The next listener -/

/-- A frame's message teaches the prefixes that are whole in what was read of
it. -/
theorem SentRa.Sound.teaches {ra : SentRa} (h : ra.Sound r trace)
    (hservers : r.cfg.rdnss.length ≤ 3) (k : Nat) {m : Nat} (hm : m < 32) :
    (optionsIn ((icmpOf ra.frame).take (24 + 32 * k + m))).flatMap optionPrefixes =
      if ra.suppressing then [] else (ra.learned.take k).map renewed := by
  rw [show 24 + 32 * k + m = 16 + (8 + 32 * k + m) by omega, h.carries.optionsIn_take,
    SentRa.params]
  split
  · exact suppressParams_teach _
  · exact params_teach hservers h.table.kept k hm

/-- How many prefixes a listener reads of one advertisement: behind the header
and the address of its source, as many as are whole in 1500 bytes. -/
def bufferedPrefixes : Nat := (1500 - 24) / 32

theorem SentRa.Sound.received_teaches {ra : SentRa} (h : ra.Sound r trace)
    (hservers : r.cfg.rdnss.length ≤ 3) :
    (optionsIn (received (icmpOf ra.frame))).flatMap optionPrefixes =
      if ra.suppressing then [] else (ra.learned.take bufferedPrefixes).map renewed :=
  h.teaches hservers bufferedPrefixes (m := 4) (by omega)

theorem SentRa.Sound.whole_teaches {ra : SentRa} (h : ra.Sound r trace)
    (hservers : r.cfg.rdnss.length ≤ 3) :
    (optionsIn (icmpOf ra.frame)).flatMap optionPrefixes =
      if ra.suppressing then [] else ra.learned.map renewed := by
  have hcut := h.teaches hservers ((icmpOf ra.frame).length + ra.learned.length) (m := 0) (by omega)
  rwa [List.take_of_length_le (by omega), List.take_of_length_le (by omega)] at hcut

theorem map_renewed_keys (table : List LearnedPrefix) :
    (table.map renewed).map LearnedPrefix.netPrefix = table.map LearnedPrefix.netPrefix := by
  rw [List.map_map]
  rfl

/-- What a listener reads of a broadcast. -/
def SentRa.heardPrefixes (ra : SentRa) : List LearnedPrefix :=
  (ra.learned.take bufferedPrefixes).map renewed

/-- A listener that hears some of the frames has the prefixes of the last
broadcast among them. -/
theorem heard_prefixes {heard : List SentRa} (hservers : r.cfg.rdnss.length ≤ 3)
    (hsound : ∀ ra ∈ heard, ra.Sound r trace)
    (hgrows : (broadcasts heard).Pairwise fun ra later => Extends ra.learned later.learned) :
    (listenForPrefixes (heard.map fun ra => received (icmpOf ra.frame)) : Run Empty _) =
      .ok (((broadcasts heard).getLast?.map SentRa.heardPrefixes).getD []) := by
  induction heard using List.reverseRecOn with
  | nil => rfl
  | append_singleton heard ra ih =>
      have hsplit : broadcasts (heard ++ [ra]) = broadcasts heard ++ broadcasts [ra] :=
        List.filter_append heard [ra]
      rw [hsplit] at hgrows ⊢
      obtain ⟨hfirst, _, hlater⟩ := List.pairwise_append.mp hgrows
      have hbefore := ih (fun other hother => hsound other (List.mem_append_left _ hother)) hfirst
      have hra : ra.Sound r trace := hsound ra (by simp)
      unfold listenForPrefixes at hbefore ⊢
      rw [List.map_append, List.foldlM_append, hbefore, run_ok_bind, List.map_singleton,
        List.foldlM_cons, receive_eq, run_ok_bind, hra.received_teaches hservers]
      cases hsuppressing : ra.suppressing with
      | true =>
          have hnone : broadcasts [ra] = [] := by simp [broadcasts, hsuppressing]
          rw [hnone, List.append_nil]
          rfl
      | false =>
          have hone : broadcasts [ra] = [ra] := by simp [broadcasts, hsuppressing]
          rw [hone] at hlater ⊢
          rw [List.getLast?_concat]
          have hkeys : (((broadcasts heard).getLast?.map
              SentRa.heardPrefixes).getD []).map LearnedPrefix.netPrefix <+:
                ra.heardPrefixes.map LearnedPrefix.netPrefix := by
            cases hlast : (broadcasts heard).getLast? with
            | none => exact List.nil_prefix
            | some other =>
                have hother := hlater other (List.mem_of_getLast? hlast) ra (by simp)
                have hcut := hother.take bufferedPrefixes
                rw [← List.map_take, ← List.map_take] at hcut
                rw [Option.map_some, Option.getD_some, SentRa.heardPrefixes,
                  SentRa.heardPrefixes, map_renewed_keys, map_renewed_keys]
                exact hcut
          have hnodup : (([] ++ ra.heardPrefixes).map LearnedPrefix.netPrefix).Nodup := by
            rw [List.nil_append, SentRa.heardPrefixes, map_renewed_keys, List.map_take]
            exact hra.table.nodup.sublist (List.take_sublist _ _)
          have hover := foldl_updateOrPush_overwrites hnodup hkeys
          rw [List.nil_append, List.nil_append] at hover
          exact congrArg Except.ok hover

/-- Every broadcast says exactly what the packets before it have taught, in the
order they first did, and a listener that hears any of the frames, the
suppressing ones or not, has in the end what it has read of the last broadcast
among them: all its prefixes or, of a longer table, as many as its buffer
holds, each for a day, even one whose own router has withdrawn it. -/
theorem prefixes_relayed (hservers : r.cfg.rdnss.length ≤ 3)
    (run : Steps (fun s e t => s.next r e = some t) {} trace s) :
    (∀ ra ∈ broadcasts s.sent, ∃ before after up,
      trace = before ++ .broadcast up :: after ∧
      (listenForPrefixes (packetsOf before) : Run Empty _) = .ok ra.learned ∧
      payloadLength ra.frame = (icmpOf ra.frame).length ∧
      (learnedPrefixes (icmpOf ra.frame) : Run Empty _) = .ok (ra.learned.map renewed)) ∧
    (∀ heard : List SentRa, heard.Sublist s.sent →
      (listenForPrefixes (heard.map fun ra => received (icmpOf ra.frame)) : Run Empty _) =
        .ok (((broadcasts heard).getLast?.map fun ra =>
          (ra.learned.take bufferedPrefixes).map renewed).getD [])) := by
  have hsound := RaState.Sound.run run
  constructor
  · intro ra hra
    obtain ⟨hsent, hnot⟩ := List.mem_filter.mp hra
    have hbroadcast : ra.suppressing = false := by simpa using hnot
    have hframe := hsound.sent ra hsent
    obtain ⟨before, after, up, htrace, hlearned⟩ := hframe.origin
    rw [hbroadcast] at htrace
    have hfits := hframe.fits
    have hmtu := r.sock.mtu.isLt
    have hteaches := hframe.whole_teaches hservers
    rw [hframe.carries.whole] at hfits
    refine ⟨before, after, up, htrace, hlearned hbroadcast, ?_, ?_⟩
    · rw [hframe.carries.payload, hframe.carries.length, Nat.mod_eq_of_lt (by omega)]
    · rw [learnedPrefixes_eq, hteaches, hbroadcast]
      rfl
  · intro heard hsub
    exact heard_prefixes hservers (fun ra hra => hsound.sent ra (hsub.subset hra))
      (hsound.grows.sublist (hsub.filter _))

/-! ### Too many prefixes -/

/-- How long a broadcast of this table is. -/
def broadcastLength (r : RaService) (table : List LearnedPrefix) : Nat :=
  78 + 32 * table.length + (if r.cfg.rdnss = [] then 0 else 8 + 16 * r.cfg.rdnss.length)

theorem buildRaIcmpv6_length (learned : List LearnedPrefix) :
    54 + (buildRaIcmpv6 (r.params learned)).length = broadcastLength r learned := by
  have hprefixes : ((r.params learned).prefixes.flatMap prefixOption).length =
      32 * learned.length := by
    change ((learned.map _).flatMap prefixOption).length = _
    rw [List.flatMap_map, prefixOptions_length]
  have hservers : (if r.cfg.rdnss = [] then [] else
      rdnssOption r.cfg.rdnss (r.cfg.dnsLifetime.setWidth 32)).length =
        if r.cfg.rdnss = [] then 0 else 8 + 16 * r.cfg.rdnss.length := by
    split
    · rfl
    · exact rdnssOption_length _ _
  have hsource : (sourceLinkOption r.srcMac).length = 8 := by simp [sourceLinkOption]
  unfold broadcastLength buildRaIcmpv6
  simp only [List.length_append, raHeader_length, hprefixes]
  change 54 + (16 + (sourceLinkOption r.srcMac).length + 0 + 32 * learned.length +
    (if r.cfg.rdnss = [] then [] else
      rdnssOption r.cfg.rdnss (r.cfg.dnsLifetime.setWidth 32)).length) = _
  rw [hservers, hsource]
  omega

theorem Extends.length {table later : List LearnedPrefix} (h : Extends table later) :
    broadcastLength r table ≤ broadcastLength r later := by
  have hle := List.IsPrefix.length_le h
  rw [List.length_map, List.length_map] at hle
  unfold broadcastLength
  omega

theorem Sends.broadcast_fits {ra : SentRa} (h : Sends r s e ra) (hra : ra.suppressing = false) :
    broadcastLength r s.prefixes ≤ r.sock.mtu.toNat + 14 := by
  have hfits := h.fits
  have hlearned : ra.learned = s.prefixes := by simpa [hra] using h.learned
  have hparams : ra.params r = r.params s.prefixes := by simp [SentRa.params, hra, hlearned]
  rw [(buildRaFrame_carries h.frame).whole, hparams, buildRaIcmpv6_length] at hfits
  exact hfits

/-- Where the table is too long nothing is broadcast, and it stays too long. -/
theorem outgrown_step (hkept : TableKept s.prefixes)
    (hlong : r.sock.mtu.toNat + 14 < broadcastLength r s.prefixes)
    (hstep : s.next r e = some s') :
    TableKept s'.prefixes ∧ r.sock.mtu.toNat + 14 < broadcastLength r s'.prefixes ∧
      broadcasts s'.sent = broadcasts s.sent := by
  obtain ⟨hprefixes, hsent⟩ := RaState.next_spec hstep
  obtain ⟨hkept', hextends⟩ := hkept.teach e
  rw [← hprefixes] at hkept' hextends
  refine ⟨hkept', Nat.lt_of_lt_of_le hlong hextends.length, ?_⟩
  rcases hsent with hsame | ⟨ra, hmore, hsends⟩
  · rw [hsame]
  · cases hra : ra.suppressing with
    | true => simp [broadcasts, hmore, hra]
    | false => exact absurd (hsends.broadcast_fits hra) (Nat.not_le_of_lt hlong)

/-- An advertisement that fits is framed, and a link that is up takes it. -/
theorem RaService.send_up {p : RaParams}
    (hfits : 54 + (buildRaIcmpv6 p).length ≤ r.sock.mtu.toNat + 14) :
    ∃ frame, r.send p true = .ok (some frame) := by
  have hmtu := r.sock.mtu.isLt
  obtain ⟨frame, hframe⟩ := buildRaFrame_total (p := p) (by omega)
  rw [← (buildRaFrame_carries hframe).whole] at hfits
  refine ⟨frame, ?_⟩
  unfold RaService.send RawSock.sends
  rw [hframe, run_ok_bind, Bool.true_and, if_pos (decide_eq_true hfits)]

theorem RaState.next_broadcast (hgoes : s.aborted = false) (hloop : s.broadcasting ≠ .ended)
    (hfits : broadcastLength r s.prefixes ≤ r.sock.mtu.toNat + 14) :
    ∃ frame t, s.next r (.broadcast true) = some t ∧
      t.sent = s.sent ++ [⟨false, s.prefixes, frame⟩] ∧ t.prefixes = s.prefixes ∧
      t.aborted = (decide (s.broadcasting = .starting) && decide (r.cfg.interval = 0)) := by
  rw [← buildRaIcmpv6_length] at hfits
  obtain ⟨frame, hframe⟩ := RaService.send_up hfits
  have hnext : s.next r (.broadcast true) = some { s with
      sent := s.sent ++ [⟨false, s.prefixes, frame⟩]
      broadcasting := .ticking
      aborted := decide (s.broadcasting = .starting) && decide (r.cfg.interval = 0) } := by
    simp [RaState.next, hgoes, hloop, hframe]
  exact ⟨frame, _, hnext, rfl, rfl, rfl⟩

theorem RaState.next_suppress (hgoes : s.aborted = false)
    (hon : r.cfg.suppressOtherRouters = true) (hmtu : 64 ≤ r.sock.mtu.toNat) :
    ∃ frame, s.next r (.suppress true) =
      some { s with sent := s.sent ++ [⟨true, [], frame⟩] } := by
  have hlength : (buildRaIcmpv6 r.suppressParams).length = 24 := by
    simp [buildRaIcmpv6, RaService.suppressParams, sourceLinkOption]
  obtain ⟨frame, hframe⟩ := RaService.send_up (r := r) (p := r.suppressParams) (by omega)
  refine ⟨frame, ?_⟩
  simp [RaState.next, hgoes, hon, hframe]

/-- A table that fits the link in one frame, and no other, is broadcast. As
prefixes are never forgotten, one that has outgrown it silences the broadcasts
for the rest of the run, whatever is received. -/
theorem outgrown_silences {before after : List RaEvent}
    (first : Steps (fun s e t => s.next r e = some t) {} before s)
    (second : Steps (fun s e t => s.next r e = some t) s after s') :
    (∀ ra ∈ broadcasts s'.sent, broadcastLength r ra.learned ≤ r.sock.mtu.toNat + 14) ∧
      (r.sock.mtu.toNat + 14 < broadcastLength r s.prefixes →
        broadcasts s'.sent = broadcasts s.sent) ∧
      (s.aborted = false → s.broadcasting ≠ .ended →
        broadcastLength r s.prefixes ≤ r.sock.mtu.toNat + 14 →
        ∃ frame t, s.next r (.broadcast true) = some t ∧
          t.sent = s.sent ++ [⟨false, s.prefixes, frame⟩]) := by
  refine ⟨?_, ?_, ?_⟩
  · intro ra hra
    obtain ⟨hsent, hnot⟩ := List.mem_filter.mp hra
    have hframe := (RaState.Sound.run (first.append second)).sent ra hsent
    have hfits := hframe.fits
    have hparams : ra.params r = r.params ra.learned := if_neg (by simpa using hnot)
    rw [hframe.carries.whole, hparams, buildRaIcmpv6_length] at hfits
    exact hfits
  · intro hlong
    have hend : TableKept s'.prefixes ∧
        r.sock.mtu.toNat + 14 < broadcastLength r s'.prefixes ∧
          broadcasts s'.sent = broadcasts s.sent := by
      have hkept := (RaState.Sound.run first).kept
      clear first
      induction second with
      | done => exact ⟨hkept, hlong, rfl⟩
      | next _ hstep ih =>
          obtain ⟨hkept', hlong', hsame⟩ := ih
          obtain ⟨hkept'', hlong'', hstill⟩ := outgrown_step hkept' hlong' hstep
          exact ⟨hkept'', hlong'', hstill.trans hsame⟩
    exact hend.2.2
  · intro hgoes hloop hfits
    obtain ⟨frame, t, hnext, hsent, _⟩ := RaState.next_broadcast hgoes hloop hfits
    exact ⟨frame, t, hnext, hsent⟩

/-! ### Default routers -/

/-- The lifetimes of the default routers of a host, by their addresses. -/
abbrev DefaultRouters := Bytes → Option Nat

/-- A host puts the source of an advertisement on its list, or removes it when
its lifetime is zero. -/
def DefaultRouters.hear (routers : DefaultRouters) (frame : Bytes) : DefaultRouters :=
  Function.update routers (sourceOf frame)
    (if routerLifetimeOf frame = 0 then none else some (routerLifetimeOf frame))

theorem DefaultRouters.hear_of_ne {frame source : Bytes} (h : sourceOf frame ≠ source)
    (routers : DefaultRouters) : routers.hear frame source = routers source :=
  Function.update_of_ne h.symm _ _

/-- An entry after a frame depends on the entry before it only. -/
theorem DefaultRouters.hear_congr {routers others : DefaultRouters} {source : Bytes}
    (h : routers source = others source) (frame : Bytes) :
    routers.hear frame source = others.hear frame source := by
  unfold hear
  rw [Function.update_apply, Function.update_apply, h]

theorem SentRa.Sound.source {ra : SentRa} (h : ra.Sound r trace) :
    sourceOf ra.frame = octets r.srcIp := by
  rw [h.carries.source, SentRa.params]
  split <;> rfl

/-- The entry of the relay after one of its frames. -/
theorem SentRa.Sound.hear {ra : SentRa} (h : ra.Sound r trace) (routers : DefaultRouters) :
    routers.hear ra.frame (octets r.srcIp) =
      if ra.suppressing = true ∨ r.cfg.routerLifetime = 0 then none
      else some r.cfg.routerLifetime.toNat := by
  rw [DefaultRouters.hear, h.source, Function.update_self, h.carries.routerLifetime, SentRa.params]
  cases ra.suppressing with
  | true => rfl
  | false =>
      change (if r.cfg.routerLifetime.toNat = 0 then none
        else some r.cfg.routerLifetime.toNat) = _
      simp [← BitVec.toNat_inj]

/-- An advertisement that a host hears: one of the run, or a frame of another
router. -/
abbrev Heard := SentRa ⊕ Bytes

def Heard.frame : Heard → Bytes := Sum.elim SentRa.frame id

/-- Suppression takes nothing from any other router: whatever a host hears of
the frames of a run, among whatever frames of others, each other router is on
its list as if it had heard none of the run's. The relay itself, if nobody else
advertises under its address, is on the list if the last of its frames that the
host has heard was a broadcast, and off it after each suppressing one. -/
theorem suppression_hits_relay {heard : List Heard}
    (run : Steps (fun s e t => s.next r e = some t) {} trace s)
    (hown : ∀ ra, Sum.inl ra ∈ heard → ra ∈ s.sent) (routers : DefaultRouters) :
    (∀ source, source ≠ octets r.srcIp →
      (heard.map Heard.frame).foldl DefaultRouters.hear routers source =
        (heard.filterMap Sum.getRight?).foldl DefaultRouters.hear routers source) ∧
    ((∀ frame, Sum.inr frame ∈ heard → sourceOf frame ≠ octets r.srcIp) →
      (heard.map Heard.frame).foldl DefaultRouters.hear routers (octets r.srcIp) =
        match (heard.filterMap Sum.getLeft?).getLast? with
        | none => routers (octets r.srcIp)
        | some ra =>
            if ra.suppressing = true ∨ r.cfg.routerLifetime = 0 then none
            else some r.cfg.routerLifetime.toNat) := by
  have hsound := RaState.Sound.run run
  induction heard using List.reverseRecOn with
  | nil => exact ⟨fun _ _ => rfl, fun _ => rfl⟩
  | append_singleton heard last ih =>
      obtain ⟨hothers, hself⟩ := ih fun ra hra => hown ra (List.mem_append_left _ hra)
      simp only [List.map_append, List.map_singleton, List.foldl_append, List.foldl_cons,
        List.foldl_nil, List.filterMap_append]
      cases last with
      | inl ra =>
          have hra := hsound.sent ra (hown ra (by simp))
          constructor
          · intro source hsource
            have hne : sourceOf ra.frame ≠ source := by
              rw [hra.source]
              exact hsource.symm
            change DefaultRouters.hear _ ra.frame source = _
            rw [DefaultRouters.hear_of_ne hne, hothers source hsource]
            rfl
          · intro _
            change DefaultRouters.hear _ ra.frame (octets r.srcIp) = _
            rw [hra.hear]
            simp
      | inr frame =>
          constructor
          · intro source hsource
            exact DefaultRouters.hear_congr (hothers source hsource) frame
          · intro hforeign
            change DefaultRouters.hear _ frame (octets r.srcIp) = _
            rw [DefaultRouters.hear_of_ne (hforeign frame (by simp)),
              hself fun other hother => hforeign other (List.mem_append_left _ hother)]
            simp

/-! ### One prefix on a link of 1500 bytes -/

def lanService : RaService where
  cfg := { interface := "br-lan", rdnss := [], suppressOtherRouters := true }
  sock := ⟨1500⟩
  srcMac := Vector.replicate 6 2
  srcIp := 0xfe80_0000_0000_0000_0000_0000_0000_0001

/-- `2001:db8::/64`, which its router has withdrawn. -/
def withdrawnPrefix : LearnedPrefix := ⟨0x2001_0db8_0000_0000_0000_0000_0000_0000, 64, 0, 0⟩

def withdrawal : Bytes :=
  [134, 0, 0, 0, 64, 0, 0, 0, 0, 0, 0, 0, 0, 0, 0, 0] ++
    [3, 4, 64, 0xc0, 0, 0, 0, 0, 0, 0, 0, 0, 0, 0, 0, 0] ++ octets withdrawnPrefix.netPrefix

/-- The prefix is learned, and broadcast. -/
theorem withdrawal_run : ∃ (learned s : RaState) (frame : Bytes),
    Steps (fun s e t => RaState.next lanService s e = some t) {} [.receive withdrawal] learned ∧
      Steps (fun s e t => RaState.next lanService s e = some t) learned [.broadcast true] s ∧
        learned = { prefixes := [withdrawnPrefix] } ∧
          s.sent = [⟨false, [withdrawnPrefix], frame⟩] ∧ s.aborted = false := by
  let learned : RaState := { prefixes := [withdrawnPrefix] }
  have hfirst : RaState.next lanService {} (.receive withdrawal) = some learned := rfl
  have hfits : broadcastLength lanService learned.prefixes ≤ lanService.sock.mtu.toNat + 14 := by
    simp [broadcastLength, lanService, learned]
  obtain ⟨frame, s, hsecond, hsent, _, haborted⟩ :=
    RaState.next_broadcast (r := lanService) (s := learned) rfl (by simp [learned]) hfits
  exact ⟨learned, s, frame, .single hfirst, .single hsecond, rfl, hsent, haborted⟩

theorem prefixes_relayed_withdrawn : ∃ (s : RaState) (frame : Bytes),
    Steps (fun s e t => RaState.next lanService s e = some t) {}
      ([.receive withdrawal] ++ [.broadcast true]) s ∧
    s.sent = [⟨false, [withdrawnPrefix], frame⟩] ∧
    (learnedPrefixes (icmpOf frame) : Run Empty _) = .ok [renewed withdrawnPrefix] ∧
    (listenForPrefixes [received (icmpOf frame)] : Run Empty _) =
      .ok [renewed withdrawnPrefix] := by
  obtain ⟨learned, s, frame, first, second, _, hsent, _⟩ := withdrawal_run
  have hservers : lanService.cfg.rdnss.length ≤ 3 := by simp [lanService]
  obtain ⟨hsaid, hheard⟩ := prefixes_relayed hservers (first.append second)
  rw [hsent] at hsaid hheard
  obtain ⟨_, _, _, _, _, _, hlearned⟩ := hsaid ⟨false, [withdrawnPrefix], frame⟩
    (by simp [broadcasts])
  exact ⟨s, frame, first.append second, hsent, hlearned, hheard _ (.refl _)⟩

theorem outgrown_silences_one : ∃ learned s : RaState,
    Steps (fun s e t => RaState.next lanService s e = some t) {} [.receive withdrawal] learned ∧
    Steps (fun s e t => RaState.next lanService s e = some t) learned [.broadcast true] s ∧
    (∀ ra ∈ broadcasts s.sent, broadcastLength lanService ra.learned ≤ 1514) ∧
    ∃ frame t, learned.next lanService (.broadcast true) = some t ∧
      t.sent = [⟨false, [withdrawnPrefix], frame⟩] := by
  obtain ⟨learned, s, _, first, second, rfl, _, _⟩ := withdrawal_run
  obtain ⟨hfit, _, hgoes⟩ := outgrown_silences first second
  have hshort : broadcastLength lanService [withdrawnPrefix] ≤ 1514 := by
    simp [broadcastLength, lanService]
  exact ⟨_, s, first, second, hfit, hgoes rfl (by simp) hshort⟩

/-- Another router of the link. -/
def neighbour : RaService :=
  { lanService with srcIp := 0xfe80_0000_0000_0000_0000_0000_0000_0002 }

/-- The relay takes itself off the list, and another router that has advertised
in between stays on it. -/
theorem suppression_hits_relay_own : ∃ (s : RaState) (broadcast suppressing foreign : Bytes),
    Steps (fun s e t => RaState.next lanService s e = some t) {}
      ([.receive withdrawal] ++ [.broadcast true] ++ [.suppress true]) s ∧
    s.sent = [⟨false, [withdrawnPrefix], broadcast⟩, ⟨true, [], suppressing⟩] ∧
    (buildRaFrame (neighbour.params []) : Run Empty Bytes) = .ok foreign ∧
    [broadcast, foreign, suppressing].foldl DefaultRouters.hear (fun _ => none)
      (octets lanService.srcIp) = none ∧
    [broadcast, foreign, suppressing].foldl DefaultRouters.hear (fun _ => none)
      (octets neighbour.srcIp) = some 1800 := by
  obtain ⟨_, s, broadcast, first, second, _, hsent, hgoes⟩ := withdrawal_run
  have hmtu : 64 ≤ lanService.sock.mtu.toNat := by simp [lanService]
  obtain ⟨suppressing, hthird⟩ := RaState.next_suppress hgoes rfl hmtu
  obtain ⟨foreign, hforeign⟩ := buildRaFrame_total (p := neighbour.params []) (by
    simp [buildRaIcmpv6, RaService.params, sourceLinkOption, neighbour, lanService])
  have hcarries := buildRaFrame_carries hforeign
  have run := (first.append second).append (.single hthird)
  let heard : List Heard :=
    [.inl ⟨false, [withdrawnPrefix], broadcast⟩, .inr foreign, .inl ⟨true, [], suppressing⟩]
  have hdistinct : octets neighbour.srcIp ≠ octets lanService.srcIp := by decide
  have hown : ∀ ra, Sum.inl ra ∈ heard → ra ∈ s.sent ++ [⟨true, [], suppressing⟩] := by
    simp [heard, hsent]
  obtain ⟨hothers, hself⟩ := suppression_hits_relay run hown fun _ => none
  refine ⟨_, broadcast, suppressing, foreign, run, by simp [hsent], hforeign, ?_, ?_⟩
  · apply hself
    intro frame hframe
    have hsame : frame = foreign := by simpa [heard] using hframe
    rw [hsame, hcarries.source]
    exact hdistinct
  · have hother := hothers (octets neighbour.srcIp) hdistinct
    have honly : heard.filterMap Sum.getRight? = [foreign] := rfl
    rw [honly, List.foldl_cons, List.foldl_nil, DefaultRouters.hear, hcarries.source,
      show (neighbour.params []).srcIp = neighbour.srcIp from rfl, Function.update_self,
      hcarries.routerLifetime] at hother
    exact hother

end Relay.Dhcp.Ra
