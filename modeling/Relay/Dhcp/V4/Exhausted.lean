import Relay.Dhcp.V4.Allocation

/-!
When a client gets no offer. The recorded offers carry no client, so a client's
own offers keep their addresses from it for as long as they live: it goes
without exactly when the others and its own offers together fill the pool.
-/

namespace Relay.Dhcp.V4

open Dns Logic

variable (U : UnicodeTables)

/-- The server between two packets, with the client of every recorded offer. -/
structure Offering where
  state : ServerState
  clock : Clock
  made : List Offer

/-- What becomes of the offers: a DISCOVER drops the lapsed ones and makes one, a
REQUEST that gets as far as its lease takes those on its address. -/
def offersAfter (cfg : ServerConfig) (env : Env) (made : List Offer) (msg : Packet)
    (reply : Option Reply) : List Offer :=
  match msg.msgType, macOf msg.chaddr with
  | some .discover, some mac =>
      made.filter (fun o => decide (o.Live env.instant)) ++
        (reply.map (fun r => Offer.mk mac r.yiaddr env.instant)).toList
  | some .request, some _ =>
      if msg.isForServer cfg.serverIp && !(cfg.pool.arpProbe && !env.arpFree msg.requestAddress) then
        made.filter (fun o => decide (o.ip ≠ msg.requestAddress))
      else made
  | _, _ => made

def Offering.afterPacket (cfg : ServerConfig) (w : Offering) (e : Env × Packet) : Offering where
  state := (handlePacket U cfg e.1 w.state e.2).1
  clock := ⟨e.1.unix, e.1.instant⟩
  made := offersAfter cfg e.1 w.made e.2 ((handlePacket U cfg e.1 w.state e.2).2.map Prod.fst)

/-- One packet, not before the last one, and with any iteration order of the
store's map. -/
def offeringStep (cfg : ServerConfig) (w : Offering) (e : Env × Packet) (w' : Offering) : Prop :=
  w.clock.NotAfter ⟨e.1.unix, e.1.instant⟩ ∧
    e.1.order.Perm (w.state.pool.leases.leases.entries.map (fun entry => entry.2)) ∧
    w' = w.afterPacket U cfg e

/-- The list the pool keeps is that of the offers without their clients. -/
def Offering.Recorded (w : Offering) : Prop :=
  w.state.pool.offered = w.made.map (fun o => (o.ip, o.instant))

variable {U}

/-- A DISCOVER drops the lapsed offers and records the one it makes. -/
theorem handlePacket_discover (cfg : ServerConfig) (env : Env) (st : ServerState) {msg : Packet}
    {mac : Mac} (htype : msg.msgType = some .discover) (hmac : macOf msg.chaddr = some mac) :
    let found := (cfg.pool.allocate env st.pool mac msg.requestedIp).2
    (handlePacket U cfg env st msg).1.pool.offered =
        (st.pool.expireOffers env.instant).offered ++
          (found.map (fun ip => (ip, env.instant))).toList ∧
      (handlePacket U cfg env st msg).2 =
        found.map (fun ip => (buildReply cfg msg .offer ip, replyAddress msg)) := by
  have hpool : (cfg.pool.allocate env st.pool mac msg.requestedIp).1 =
      st.pool.expireOffers env.instant := rfl
  dsimp only
  unfold handlePacket
  rw [htype, hmac]
  dsimp only
  rw [hpool]
  cases (cfg.pool.allocate env st.pool mac msg.requestedIp).2 with
  | none => exact ⟨(List.append_nil _).symm, rfl⟩
  | some ip => exact ⟨rfl, rfl⟩

/-- A REQUEST that gets as far as its lease takes the offers on its address. -/
theorem handlePacket_request_offered {cfg : ServerConfig} {env : Env} {st : ServerState}
    {msg : Packet} {mac : Mac} (htype : msg.msgType = some .request)
    (hmac : macOf msg.chaddr = some mac) :
    (handlePacket U cfg env st msg).1.pool.offered =
      if msg.isForServer cfg.serverIp && !(cfg.pool.arpProbe && !env.arpFree msg.requestAddress) then
        st.pool.offered.filter (fun o => decide (o.1 ≠ msg.requestAddress))
      else st.pool.offered := by
  unfold handlePacket
  rw [htype, hmac]
  dsimp only
  cases msg.isForServer cfg.serverIp with
  | false => rfl
  | true =>
      rw [if_pos rfl, AddressPool.confirm]
      cases cfg.pool.arpProbe && !env.arpFree msg.requestAddress with
      | true => rfl
      | false =>
          cases hflushed : env.flushed with
          | true => simp [LeaseStore.insert, flush, Except.map]
          | false => simp [LeaseStore.insert, flush, Except.map]

/-- Every packet keeps the two lists in step. -/
theorem Offering.Recorded.afterPacket {cfg : ServerConfig} {w : Offering} (h : w.Recorded)
    (e : Env × Packet) : (w.afterPacket U cfg e).Recorded := by
  obtain ⟨env, msg⟩ := e
  unfold Offering.Recorded at h ⊢
  unfold Offering.afterPacket offersAfter
  dsimp only
  cases htype : msg.msgType with
  | none =>
      dsimp only
      rw [← h, handlePacket, htype]
  | some ty =>
      cases hmac : macOf msg.chaddr with
      | none =>
          have hsame : (handlePacket U cfg env w.state msg).1 = w.state := by
            unfold handlePacket
            rw [htype, hmac]
            cases ty <;> rfl
          rw [hsame]
          cases ty <;> exact h
      | some mac =>
          cases ty with
          | discover =>
              obtain ⟨hoffered, hreply⟩ := handlePacket_discover (U := U) cfg env w.state htype hmac
              rw [hoffered, hreply]
              dsimp only
              rw [List.map_append, PoolState.expireOffers, h, List.filter_map]
              cases (cfg.pool.allocate env w.state.pool mac msg.requestedIp).2 <;> rfl
          | request =>
              rw [handlePacket_request_offered htype hmac, h]
              dsimp only
              split
              · rw [List.filter_map]
                rfl
              · rfl
          | release =>
              dsimp only
              unfold handlePacket
              rw [htype, hmac]
              dsimp only
              unfold PoolState.release
              cases w.state.pool.leases.getByMac mac <;> exact h
          | _ =>
              unfold handlePacket
              rw [htype, hmac]
              exact h

/-- A DISCOVER that gets no offer finds every address of the pool leased to
another client, or under a live offer to one. -/
def RefusedWhenFull (U : UnicodeTables) (cfg : ServerConfig) (w : Offering) (e : Env × Packet) :
    Prop :=
  ∀ mac, e.2.msgType = some .discover → macOf e.2.chaddr = some mac →
    (handlePacket U cfg e.1 w.state e.2).2 = none → ∀ ip, cfg.pool.isInRange ip = true →
      HeldByOther w.state.pool.leases e.1.unix mac ip ∨
        ∃ o ∈ w.made, o.Live e.1.instant ∧ o.ip = ip ∧ o.mac ≠ mac

/-- The client of a DISCOVER has a lease, or some address is free, or its own
offers keep no address busy that nothing else does. -/
def OwnOffersApart (cfg : ServerConfig) (w : Offering) (e : Env × Packet) : Prop :=
  ∀ mac, e.2.msgType = some .discover → macOf e.2.chaddr = some mac →
    (∃ ip, Holds w.state.pool.leases e.1.unix mac ip) ∨
    (∃ ip, cfg.pool.isInRange ip = true ∧
      (w.state.pool.expireOffers e.1.instant).isFree e.1 ip = true) ∨
    ∀ o ∈ w.made, o.mac = mac → o.Live e.1.instant → cfg.pool.isInRange o.ip = true →
      HeldByOther w.state.pool.leases e.1.unix mac o.ip ∨
        ∃ o' ∈ w.made, o'.Live e.1.instant ∧ o'.ip = o.ip ∧ o'.mac ≠ mac

/-- An address that `is_free` turns down is another client's, or offered. -/
theorem busy_of_not_isFree {env : Env} (st : PoolState) {mac : Mac} {ip : Ipv4Addr}
    (hiterates : env.order.Perm (st.leases.leases.entries.map (fun entry => entry.2)))
    (hnone : ∀ own, ¬ Holds st.leases env.unix mac own) (h : st.isFree env ip = false) :
    HeldByOther st.leases env.unix mac ip ∨ st.isOffered ip = true := by
  unfold PoolState.isFree at h
  rw [Bool.and_eq_false_iff, Bool.not_eq_false', Bool.not_eq_false'] at h
  refine h.imp_left ?_
  intro hused
  unfold usedInLease getByIp at hused
  cases hfind : env.order.find? (fun lease => decide (lease.ip = ip)) with
  | none =>
      rw [hfind] at hused
      cases hused
  | some lease =>
      rw [hfind, Bool.not_eq_true'] at hused
      obtain ⟨⟨key, lease'⟩, hentry, rfl⟩ :=
        List.mem_map.mp (hiterates.mem_iff.mp (List.mem_of_find?_eq_some hfind))
      have hlookup : st.leases.leases.lookup key = some lease' := AList.mem_lookup_iff.mpr hentry
      have hip : lease'.ip = ip := by simpa using List.find?_some hfind
      refine ⟨key, lease', ?_, hlookup, hused, hip⟩
      rintro rfl
      exact hnone ip ⟨lease', hlookup, hused, hip⟩

theorem isOffered_iff {w : Offering} (h : w.Recorded) {instant : Nat} {ip : Ipv4Addr} :
    (w.state.pool.expireOffers instant).isOffered ip = true ↔
      ∃ o ∈ w.made, o.Live instant ∧ o.ip = ip := by
  unfold PoolState.isOffered PoolState.expireOffers
  rw [h]
  simp only [List.any_eq_true, List.mem_filter, List.mem_map, decide_eq_true_eq]
  constructor
  · rintro ⟨_, ⟨⟨o, ho, rfl⟩, hlive⟩, hip⟩
    exact ⟨o, ho, hlive, hip⟩
  · rintro ⟨o, ho, hlive, hip⟩
    exact ⟨_, ⟨⟨o, ho, rfl⟩, hlive⟩, hip⟩

/-- A DISCOVER gets no offer exactly when its client has no lease and no address
is free. -/
theorem refused_iff {cfg : ServerConfig} {env : Env} {st : ServerState} {msg : Packet} {mac : Mac}
    (htype : msg.msgType = some .discover) (hmac : macOf msg.chaddr = some mac) :
    (handlePacket U cfg env st msg).2 = none ↔
      (∀ ip, ¬ Holds st.pool.leases env.unix mac ip) ∧
        ∀ ip, cfg.pool.isInRange ip = true →
          (st.pool.expireOffers env.instant).isFree env ip = false := by
  rw [(handlePacket_discover cfg env st htype hmac).2, Option.map_eq_none_iff, AddressPool.allocate_found,
    Option.or_eq_none_iff, List.find?_eq_none]
  refine and_congr ?_ ?_
  · rw [Option.eq_none_iff_forall_ne_some]
    exact forall_congr' fun ip => not_congr LeaseStore.current_eq_some
  · simp only [AddressPool.mem_candidates, Bool.not_eq_true]

/-- In every run: a DISCOVER is refused only because of other clients exactly
when its client's own offers are not what fills the pool. -/
theorem refusedWhenFull_iff {cfg : ServerConfig} {st : ServerState} {clock : Clock}
    (hbegin : st.pool.offered = []) {es : List (Env × Packet)} {w : Offering}
    (run : Steps (offeringStep U cfg) ⟨st, clock, []⟩ es w) {e : Env × Packet}
    (hiterates : e.1.order.Perm (w.state.pool.leases.leases.entries.map (fun entry => entry.2))) :
    RefusedWhenFull U cfg w e ↔ OwnOffersApart cfg w e := by
  have hrecorded : w.Recorded := by
    apply run.invariant hbegin
    rintro t e u ht ⟨_, _, rfl⟩
    exact ht.afterPacket e
  obtain ⟨env, msg⟩ := e
  constructor
  · intro h mac htype hmac
    by_contra hown
    obtain ⟨hnone, hbusy, hkept⟩ := not_or.mp hown |>.imp_right not_or.mp
    have hrefused : (handlePacket U cfg env w.state msg).2 = none := by
      apply (refused_iff htype hmac).mpr
      refine ⟨fun ip hholds => hnone ⟨ip, hholds⟩, ?_⟩
      intro ip hrange
      rw [← Bool.not_eq_true]
      exact fun hfree => hbusy ⟨ip, hrange, hfree⟩
    exact hkept fun o _ _ _ hrange => h mac htype hmac hrefused o.ip hrange
  · intro h mac htype hmac hrefused ip hrange
    obtain ⟨hnone, hbusy⟩ := (refused_iff htype hmac).mp hrefused
    rcases h mac htype hmac with ⟨own, hholds⟩ | ⟨free, hrange', hfree⟩ | hkept
    · exact absurd hholds (hnone own)
    · rw [hbusy free hrange'] at hfree
      cases hfree
    · rcases busy_of_not_isFree (w.state.pool.expireOffers env.instant) hiterates hnone
        (hbusy ip hrange) with hheld | hoffered
      · exact Or.inl hheld
      · obtain ⟨o, ho, hlive, rfl⟩ := (isOffered_iff hrecorded).mp hoffered
        by_cases hmine : o.mac = mac
        · exact hkept o ho hmine hlive hrange
        · exact Or.inr ⟨o, ho, hlive, rfl, hmine⟩

/-! ### A pool of one address -/

private def oneAddress : ServerConfig :=
  { smallPool with pool := { smallPool.pool with finish := 0x0a00000a } }

/-- A DISCOVER from the client whose address ends in `last`. -/
private def discoverFrom (last : UInt8) : Packet where
  msgType := some .discover
  chaddr := [2, 0, 0, 0, 0, last]

private def firstOffer : Offering :=
  Offering.afterPacket asciiTables oneAddress ⟨emptyServer, ⟨0, 0⟩, []⟩ (quietEnv 0 [], discoverFrom 1)

private theorem firstOffer_step :
    offeringStep asciiTables oneAddress ⟨emptyServer, ⟨0, 0⟩, []⟩ (quietEnv 0 [], discoverFrom 1)
      firstOffer :=
  ⟨Clock.notAfter_refl _, List.Perm.refl _, rfl⟩

private theorem firstOffer_made : firstOffer.made = [⟨clientMac 1, 0x0a00000a, 0⟩] := by
  rfl

/-- The second client is refused: the address is offered to the first one. -/
theorem refusedWhenFull_other_client :
    (handlePacket asciiTables oneAddress (quietEnv 1 []) firstOffer.state (discoverFrom 2)).2 =
        none ∧
      RefusedWhenFull asciiTables oneAddress firstOffer (quietEnv 1 [], discoverFrom 2) := by
  refine ⟨rfl, ?_⟩
  apply (refusedWhenFull_iff rfl (Steps.single firstOffer_step) (List.Perm.refl _)).mpr
  intro mac _ hmac
  have hsecond : mac = clientMac 2 := Option.some.inj (hmac.symm.trans rfl)
  right; right
  intro o ho hmine
  rw [firstOffer_made, List.mem_singleton] at ho
  subst ho
  rw [hsecond] at hmine
  exact absurd hmine (by decide)

/-- A client that repeats its DISCOVER is refused because of its own offer. -/
theorem client_refused_by_own_offer :
    ¬ ∀ (U : UnicodeTables) (cfg : ServerConfig) (st : ServerState) (clock : Clock)
      (es : List (Env × Packet)) (w : Offering) (e : Env × Packet), st.pool.offered = [] →
      Steps (offeringStep U cfg) ⟨st, clock, []⟩ es w →
      e.1.order.Perm (w.state.pool.leases.leases.entries.map (fun entry => entry.2)) →
      RefusedWhenFull U cfg w e := by
  intro h
  have hfull := h asciiTables oneAddress emptyServer ⟨0, 0⟩ _ firstOffer
    (quietEnv 1 [], discoverFrom 1) rfl (Steps.single firstOffer_step) (List.Perm.refl _)
    (clientMac 1) rfl rfl rfl 0x0a00000a (by decide)
  rcases hfull with ⟨key, lease, _, hlookup, _⟩ | ⟨o, ho, _, _, hother⟩
  · cases hlookup
  · rw [firstOffer_made, List.mem_singleton] at ho
    subst ho
    exact hother rfl

end Relay.Dhcp.V4
