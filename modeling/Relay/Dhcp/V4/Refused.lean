import Relay.Dhcp.V4.Allocation

/-!
What a refused lease leaves behind. The store in memory and the offers change
before the lease file is written, and a write that fails does not change them
back.
-/

namespace Relay.Dhcp.V4

open Dns Logic

/-- The leases and the offers are what they were. -/
structure PoolState.Unchanged (st st' : PoolState) : Prop where
  leases : ∀ key, st'.leases.leases.lookup key = st.leases.leases.lookup key
  offered : st'.offered = st.offered

theorem PoolState.Unchanged.refl (st : PoolState) : st.Unchanged st := ⟨fun _ => rfl, rfl⟩

/-- Whoever holds an address afterwards held it before. -/
theorem PoolState.Unchanged.holds {st st' : PoolState} (h : st.Unchanged st') {unix : Nat}
    {mac : Mac} {ip : Ipv4Addr} :
    Holds st'.leases unix mac ip ↔ Holds st.leases unix mac ip := by
  unfold Holds LeaseStore.getByMac
  rw [h.leases]

/-- An insertion that changes nothing puts in what is there. -/
theorem lookup_insert_same_iff {α : Type} {leases : StringMap α} {key : String} {lease : α} :
    (∀ k, (leases.insert key lease).lookup k = leases.lookup k) ↔
      leases.lookup key = some lease := by
  constructor
  · intro h
    rw [← h, AList.lookup_insert]
  · intro h k
    by_cases hk : k = key
    · rw [hk, AList.lookup_insert, h]
    · exact AList.lookup_insert_ne hk

theorem lookup_erase_same_iff {α : Type} {leases : StringMap α} {key : String} :
    (∀ k, (leases.erase key).lookup k = leases.lookup k) ↔ leases.lookup key = none := by
  constructor
  · intro h
    rw [← h, AList.lookup_erase]
  · intro h k
    by_cases hk : k = key
    · rw [hk, AList.lookup_erase, h]
    · exact AList.lookup_erase_ne hk

/-- A list of offers from which those on an address are taken stays as it is
when there are none. -/
theorem filter_offers_eq_iff {st : PoolState} {ip : Ipv4Addr} :
    st.offered.filter (fun o => decide (o.1 ≠ ip)) = st.offered ↔ st.isOffered ip = false := by
  unfold PoolState.isOffered
  rw [List.filter_eq_self, List.any_eq_false]
  simp only [decide_eq_true_eq]

/-! ### The two operations -/

/-- A `confirm` that fails changes nothing. -/
def ConfirmAtomic (pool : AddressPool) (env : Env) (st : PoolState) (mac : Mac) (ip : Ipv4Addr)
    (hostname : Option String) : Prop :=
  ∀ e, (pool.confirm env st mac ip hostname).2 = .error e →
    st.Unchanged (pool.confirm env st mac ip hostname).1

/-- A `release` that fails changes nothing. -/
def ReleaseAtomic (env : Env) (st : PoolState) (mac : Mac) : Prop :=
  ∀ e, (st.release env mac).2 = .error e → st.Unchanged (st.release env mac).1

/-- The probe finds the address in use, or the file is written, or the client
has this very lease already and the address is under no offer. -/
def ConfirmHarmless (pool : AddressPool) (env : Env) (st : PoolState) (mac : Mac) (ip : Ipv4Addr)
    (hostname : Option String) : Prop :=
  (pool.arpProbe && !env.arpFree ip) = true ∨ env.flushed = true ∨
    st.leases.getByMac mac = some (pool.leaseFor env mac ip hostname) ∧ st.isOffered ip = false

theorem confirmAtomic_iff {pool : AddressPool} {env : Env} {st : PoolState} {mac : Mac}
    {ip : Ipv4Addr} {hostname : Option String} :
    ConfirmAtomic pool env st mac ip hostname ↔ ConfirmHarmless pool env st mac ip hostname := by
  unfold ConfirmAtomic ConfirmHarmless AddressPool.confirm
  cases hprobe : pool.arpProbe && !env.arpFree ip with
  | true =>
      refine iff_of_true ?_ (Or.inl rfl)
      intro e _
      exact .refl st
  | false =>
      rw [if_neg Bool.false_ne_true]
      cases hflushed : env.flushed with
      | true =>
          refine iff_of_true ?_ (Or.inr (Or.inl rfl))
          intro e he
          cases he
      | false =>
          constructor
          · intro h
            have hsame := h .notWritten rfl
            exact Or.inr (Or.inr ⟨lookup_insert_same_iff.mp hsame.leases,
              filter_offers_eq_iff.mp hsame.offered⟩)
          · rintro (hconflict | hwritten | ⟨hlease, hoffered⟩) e _
            · cases hconflict
            · cases hwritten
            · exact ⟨lookup_insert_same_iff.mpr hlease, filter_offers_eq_iff.mpr hoffered⟩

theorem releaseAtomic_iff {env : Env} {st : PoolState} {mac : Mac} :
    ReleaseAtomic env st mac ↔ env.flushed = true ∨ st.leases.getByMac mac = none := by
  unfold ReleaseAtomic PoolState.release
  cases hlease : st.leases.getByMac mac with
  | none =>
      refine iff_of_true ?_ (Or.inr rfl)
      intro e he
      cases he
  | some lease =>
      cases hflushed : env.flushed with
      | true =>
          refine iff_of_true ?_ (Or.inl rfl)
          intro e he
          cases he
      | false =>
          refine iff_of_false ?_ (by simp)
          intro h
          have hsame := (h .notWritten rfl).leases
          have hgone : st.leases.getByMac mac = none := lookup_erase_same_iff.mp hsame
          rw [hlease] at hgone
          cases hgone

/-- A NAK goes out for a `confirm` that has failed, and the pool is as that one
has left it. -/
theorem handlePacket_nak {U : UnicodeTables} {cfg : ServerConfig} {env : Env} {st : ServerState}
    {msg : Packet} {mac : Mac} {reply : Reply} {dst : Ipv4Addr × Nat}
    (htype : msg.msgType = some .request) (hmac : macOf msg.chaddr = some mac)
    (hreply : (handlePacket U cfg env st msg).2 = some (reply, dst)) (hnak : reply.msgType = .nak) :
    let confirmed := cfg.pool.confirm env st.pool mac msg.requestAddress msg.hostname
    (∃ e, confirmed.2 = .error e) ∧ (handlePacket U cfg env st msg).1.pool = confirmed.1 := by
  unfold handlePacket at hreply ⊢
  rw [htype, hmac] at hreply ⊢
  dsimp only at hreply ⊢
  cases hfor : msg.isForServer cfg.serverIp with
  | false =>
      rw [hfor, if_neg Bool.false_ne_true] at hreply
      cases hreply
  | true =>
      rw [hfor, if_pos rfl] at hreply
      rw [if_pos rfl]
      cases hconfirmed : (cfg.pool.confirm env st.pool mac msg.requestAddress msg.hostname).2 with
      | error e => exact ⟨⟨e, rfl⟩, rfl⟩
      | ok lease =>
          rw [hconfirmed] at hreply
          cases hreply
          cases hnak

/-- A refused lease changes nothing exactly when it is refused by the probe, or
there is nothing to change; and then the client that gets the NAK holds what it
held before. -/
theorem refused_atomic_iff (U : UnicodeTables) (cfg : ServerConfig) (env : Env) (st : ServerState)
    (mac : Mac) (ip : Ipv4Addr) (hostname : Option String) :
    (ConfirmAtomic cfg.pool env st.pool mac ip hostname ↔
        ConfirmHarmless cfg.pool env st.pool mac ip hostname) ∧
      (ReleaseAtomic env st.pool mac ↔
        env.flushed = true ∨ st.pool.leases.getByMac mac = none) ∧
      (ConfirmHarmless cfg.pool env st.pool mac ip hostname →
        ∀ msg reply dst, msg.msgType = some .request → macOf msg.chaddr = some mac →
          msg.requestAddress = ip → msg.hostname = hostname →
          (handlePacket U cfg env st msg).2 = some (reply, dst) → reply.msgType = .nak →
          ∀ ip', Holds (handlePacket U cfg env st msg).1.pool.leases env.unix mac ip' ↔
            Holds st.pool.leases env.unix mac ip') := by
  refine ⟨confirmAtomic_iff, releaseAtomic_iff, ?_⟩
  rintro hharmless msg reply dst htype hmac rfl rfl hreply hnak ip'
  obtain ⟨⟨e, he⟩, hpool⟩ := handlePacket_nak htype hmac hreply hnak
  rw [hpool]
  exact (confirmAtomic_iff.mpr hharmless e he).holds

/-! ### A lease file that cannot be written -/

/-- A client's REQUEST is answered with a NAK, and the client holds the address
it was refused. -/
theorem lease_kept_after_nak :
    ¬ ∀ (U : UnicodeTables) (cfg : ServerConfig) (env : Env) (st : ServerState) (mac : Mac)
      (ip : Ipv4Addr) (hostname : Option String),
      ConfirmAtomic cfg.pool env st.pool mac ip hostname ∧ ReleaseAtomic env st.pool mac ∧
        ∀ msg reply dst, msg.msgType = some .request → macOf msg.chaddr = some mac →
          (handlePacket U cfg env st msg).2 = some (reply, dst) → reply.msgType = .nak →
          ∀ ip', Holds (handlePacket U cfg env st msg).1.pool.leases env.unix mac ip' ↔
            Holds st.pool.leases env.unix mac ip' := by
  intro h
  have hsame := (h asciiTables smallPool { quietEnv 100 [] with flushed := false } emptyServer
    (clientMac 1) 0x0a00000a none).2.2 (requestFrom 1 0x0a00000a) _ _ rfl rfl rfl rfl 0x0a00000a
  have hheld : Holds (handlePacket asciiTables smallPool { quietEnv 100 [] with flushed := false }
      emptyServer (requestFrom 1 0x0a00000a)).1.pool.leases 100 (clientMac 1) 0x0a00000a :=
    ⟨smallPool.pool.leaseFor (quietEnv 100 []) (clientMac 1) 0x0a00000a none, by rfl, by decide, rfl⟩
  obtain ⟨lease, hlookup, _⟩ := hsame.mp hheld
  cases hlookup

end Relay.Dhcp.V4
