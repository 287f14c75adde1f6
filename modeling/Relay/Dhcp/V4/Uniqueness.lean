import Relay.Dhcp.V4.Serve
import Relay.Logic.Run

/-!
No two clients hold one address. The store is keyed by client, so this is an
invariant of runs: releases and offers keep it, and a granted lease keeps it
exactly when no other client holds an unexpired lease on its address.
-/

namespace Relay.Dhcp.V4

open Dns Logic

/-- No two MAC addresses hold unexpired leases for one address. -/
def UniqueLeases (now : Nat) (store : LeaseStore) : Prop :=
  ∀ k₁ k₂ l₁ l₂, store.leases.lookup k₁ = some l₁ → store.leases.lookup k₂ = some l₂ →
    l₁.isExpired now = false → l₂.isExpired now = false → l₁.ip = l₂.ip → l₁.mac = l₂.mac

/-- No lease that stays beside the new one is an unexpired lease of another
client for its address. -/
def NoConflict (now : Nat) (store : LeaseStore) (lease : Lease) : Prop :=
  ∀ k l, k ≠ macKey lease.mac → store.leases.lookup k = some l → l.isExpired now = false →
    l.ip = lease.ip → l.mac = lease.mac

theorem Lease.isExpired_mono {lease : Lease} {now later : Nat} (h : now ≤ later)
    (hlater : lease.isExpired later = false) : lease.isExpired now = false := by
  unfold Lease.isExpired at hlater ⊢
  split at hlater
  · rename_i hstatic
    rw [if_pos hstatic]
  · rename_i hstatic
    rw [if_neg hstatic]
    simp only [decide_eq_false_iff_not] at hlater ⊢
    omega

/-- As time passes leases expire and none comes back. -/
theorem UniqueLeases.later {now later : Nat} {store : LeaseStore} (h : UniqueLeases now store)
    (hle : now ≤ later) : UniqueLeases later store := by
  intro k₁ k₂ l₁ l₂ h₁ h₂ hl₁ hl₂ hip
  exact h k₁ k₂ l₁ l₂ h₁ h₂ (Lease.isExpired_mono hle hl₁) (Lease.isExpired_mono hle hl₂) hip

theorem UniqueLeases.erase {now : Nat} {store : LeaseStore} (h : UniqueLeases now store)
    (key : String) : UniqueLeases now ⟨store.leases.erase key⟩ := by
  intro k₁ k₂ l₁ l₂ h₁ h₂ hl₁ hl₂ hip
  have hkept : ∀ {k l}, (store.leases.erase key).lookup k = some l →
      store.leases.lookup k = some l := by
    intro k l hlookup
    by_cases hk : k = key
    · subst hk
      rw [AList.lookup_erase] at hlookup
      cases hlookup
    · rwa [AList.lookup_erase_ne hk] at hlookup
  exact h k₁ k₂ l₁ l₂ (hkept h₁) (hkept h₂) hl₁ hl₂ hip

/-- Granting a lease keeps the property exactly when the lease is expired at
once or does not conflict. -/
theorem uniqueLeases_insert_iff {now : Nat} {store : LeaseStore} (h : UniqueLeases now store)
    (lease : Lease) :
    UniqueLeases now ⟨store.leases.insert (macKey lease.mac) lease⟩ ↔
      lease.isExpired now = true ∨ NoConflict now store lease := by
  constructor
  · intro hunique
    cases hexpired : lease.isExpired now with
    | true => exact Or.inl rfl
    | false =>
        right
        intro k l hk hlookup hl hip
        have hother : (store.leases.insert (macKey lease.mac) lease).lookup k = some l := by
          rwa [AList.lookup_insert_ne hk]
        exact hunique k (macKey lease.mac) l lease hother (AList.lookup_insert _) hl hexpired hip
  · intro hcase k₁ k₂ l₁ l₂ h₁ h₂ hl₁ hl₂ hip
    have hnew : ∀ l, (store.leases.insert (macKey lease.mac) lease).lookup (macKey lease.mac) =
        some l → l = lease := by
      intro l hlookup
      rw [AList.lookup_insert, Option.some.injEq] at hlookup
      exact hlookup.symm
    by_cases hk₁ : k₁ = macKey lease.mac
    · by_cases hk₂ : k₂ = macKey lease.mac
      · subst hk₁ hk₂
        rw [hnew l₁ h₁, hnew l₂ h₂]
      · subst hk₁
        rw [hnew l₁ h₁] at hl₁ hip ⊢
        simp only [AList.lookup_insert_ne hk₂] at h₂
        rcases hcase with hexpired | hfree
        · rw [hexpired] at hl₁
          cases hl₁
        · exact (hfree k₂ l₂ hk₂ h₂ hl₂ hip.symm).symm
    · simp only [AList.lookup_insert_ne hk₁] at h₁
      by_cases hk₂ : k₂ = macKey lease.mac
      · subst hk₂
        rw [hnew l₂ h₂] at hl₂ hip ⊢
        rcases hcase with hexpired | hfree
        · rw [hexpired] at hl₂
          cases hl₂
        · exact hfree k₁ l₁ hk₁ h₁ hl₁ hip
      · simp only [AList.lookup_insert_ne hk₂] at h₂
        exact h k₁ k₂ l₁ l₂ h₁ h₂ hl₁ hl₂ hip

/-! ### What a packet does to the store -/

/-- The lease a packet creates: of a REQUEST for this server whose address
passes the ARP probe, whatever the address is. -/
def createdLease (cfg : ServerConfig) (env : Env) (msg : Packet) : Option Lease :=
  match msg.msgType, macOf msg.chaddr with
  | some .request, some mac =>
      if msg.isForServer cfg.serverIp then
        if cfg.pool.arpProbe && !env.arpFree msg.requestAddress then none
        else some (cfg.pool.leaseFor env mac msg.requestAddress msg.hostname)
      else none
  | _, _ => none

/-- The lease a RELEASE removes, with its key. -/
def releasedLease (st : ServerState) (msg : Packet) : Option (String × Lease) :=
  match msg.msgType, macOf msg.chaddr with
  | some .release, some mac => (st.pool.leases.getByMac mac).map (fun lease => (macKey mac, lease))
  | _, _ => none

variable (U : UnicodeTables)

/-- What a packet does to the leases and the names. A packet that creates a
lease stores it and, when that was written, registers it; one that releases a
lease removes it and, when that was written, its names; no other packet touches
either. -/
theorem handlePacket_cases (cfg : ServerConfig) (env : Env) (st : ServerState) (msg : Packet) :
    let st' := (handlePacket U cfg env st msg).1
    (∃ lease, createdLease cfg env msg = some lease ∧ releasedLease st msg = none ∧
      st'.pool.leases = ⟨st.pool.leases.leases.insert (macKey lease.mac) lease⟩ ∧
      st'.hosts = if env.flushed then registerLease U st.hosts lease else st.hosts) ∨
    (∃ key lease, createdLease cfg env msg = none ∧ releasedLease st msg = some (key, lease) ∧
      st.pool.leases.leases.lookup key = some lease ∧
      st'.pool.leases = ⟨st.pool.leases.leases.erase key⟩ ∧
      st'.hosts = if env.flushed then unregisterLease U st.hosts lease else st.hosts) ∨
    (createdLease cfg env msg = none ∧ releasedLease st msg = none ∧
      st'.pool.leases = st.pool.leases ∧ st'.hosts = st.hosts) := by
  cases htype : msg.msgType with
  | none =>
      right; right
      simp [createdLease, releasedLease, handlePacket, htype]
  | some ty =>
      cases hmac : macOf msg.chaddr with
      | none =>
          right; right
          cases ty <;> simp [createdLease, releasedLease, handlePacket, htype, hmac]
      | some mac =>
          cases ty with
          | discover =>
              right; right
              refine ⟨by simp [createdLease, htype, hmac], by simp [releasedLease, htype, hmac],
                ?_⟩
              simp only [handlePacket, htype, hmac, AddressPool.allocate]
              split <;> exact ⟨rfl, rfl⟩
          | request =>
              have hnone : releasedLease st msg = none := by simp [releasedLease, htype, hmac]
              by_cases hfor : msg.isForServer cfg.serverIp = true
              · by_cases hprobe : (cfg.pool.arpProbe && !env.arpFree msg.requestAddress) = true
                · right; right
                  simp [createdLease, releasedLease, handlePacket, htype, hmac, hfor, hprobe,
                    AddressPool.confirm]
                · left
                  refine ⟨_, by simp only [createdLease, htype, hmac, hfor, hprobe]; rfl, hnone, ?_⟩
                  simp only [handlePacket, htype, hmac, hfor, AddressPool.confirm, hprobe,
                    LeaseStore.insert, flush]
                  cases env.flushed <;> exact ⟨rfl, rfl⟩
              · right; right
                simp [createdLease, releasedLease, handlePacket, htype, hmac, hfor]
          | release =>
              right
              have hnone : createdLease cfg env msg = none := by simp [createdLease, htype, hmac]
              simp only [handlePacket, releasedLease, htype, hmac, PoolState.release]
              cases hlease : st.pool.leases.getByMac mac with
              | none => exact Or.inr ⟨hnone, rfl, rfl, rfl⟩
              | some lease =>
                  left
                  refine ⟨macKey mac, lease, hnone, rfl, hlease, ?_⟩
                  simp only [LeaseStore.removeByMac, flush]
                  cases env.flushed <;> exact ⟨trivial, rfl⟩
          | _ =>
              right; right
              simp [createdLease, releasedLease, handlePacket, htype, hmac]

/-- A packet inserts the lease it creates, or erases its sender's lease, or
leaves the store as it was. -/
theorem handlePacket_leases (cfg : ServerConfig) (env : Env) (st : ServerState) (msg : Packet) :
    (∃ lease, createdLease cfg env msg = some lease ∧
      (handlePacket U cfg env st msg).1.pool.leases =
        ⟨st.pool.leases.leases.insert (macKey lease.mac) lease⟩) ∨
    (createdLease cfg env msg = none ∧
      ((∃ key, (handlePacket U cfg env st msg).1.pool.leases = ⟨st.pool.leases.leases.erase key⟩) ∨
        (handlePacket U cfg env st msg).1.pool.leases = st.pool.leases)) := by
  rcases handlePacket_cases U cfg env st msg with
    ⟨lease, hcreated, _, hstore, _⟩ | ⟨key, lease, hnone, _, _, hstore, _⟩ | ⟨hnone, _, hstore, _⟩
  · exact Or.inl ⟨lease, hcreated, hstore⟩
  · exact Or.inr ⟨hnone, Or.inl ⟨key, hstore⟩⟩
  · exact Or.inr ⟨hnone, Or.inr hstore⟩

/-! ### Runs -/

/-- The server between two packets: the time of the last one, and the leases
its REQUESTs have created so far. -/
structure World where
  state : ServerState
  now : Nat
  granted : List Lease

def World.afterPacket (cfg : ServerConfig) (w : World) (e : Env × Packet) : World where
  state := (handlePacket U cfg e.1 w.state e.2).1
  now := e.1.unix
  granted := w.granted ++ (createdLease cfg e.1 e.2).toList

/-- One packet, at a time not before the last and with any iteration order of
the store's map. -/
def packetStep (cfg : ServerConfig) (w : World) (e : Env × Packet) (w' : World) : Prop :=
  w.now ≤ e.1.unix ∧
    e.1.order.Perm (w.state.pool.leases.leases.entries.map (fun entry => entry.2)) ∧
    w' = w.afterPacket U cfg e

/-- A REQUEST that creates a lease asks for an address of the pool on which no
other client has an unexpired lease. -/
def RequestsFree (cfg : ServerConfig) (w : World) (e : Env × Packet) : Prop :=
  ∀ lease, createdLease cfg e.1 e.2 = some lease →
    cfg.pool.isInRange lease.ip = true ∧
      (lease.isExpired e.1.unix = true ∨ NoConflict e.1.unix w.state.pool.leases lease)

/-- What holds between two packets. -/
structure LeasesSound (cfg : ServerConfig) (w : World) : Prop where
  unique : UniqueLeases w.now w.state.pool.leases
  inRange : ∀ lease ∈ w.granted, cfg.pool.isInRange lease.ip = true

/-- A packet keeps both properties exactly when it requests a free address of
the pool. -/
theorem packetStep_sound_iff {cfg : ServerConfig} {w w' : World} {e : Env × Packet}
    (h : LeasesSound cfg w) (hstep : packetStep U cfg w e w') :
    LeasesSound cfg w' ↔ RequestsFree cfg w e := by
  obtain ⟨htime, _, rfl⟩ := hstep
  have hnow := h.unique.later htime
  rcases handlePacket_leases U cfg e.1 w.state e.2 with ⟨lease, hcreated, hstore⟩ | ⟨hnone, hstore⟩
  · have hgranted : w.granted ++ (createdLease cfg e.1 e.2).toList = w.granted ++ [lease] := by
      rw [hcreated]
      rfl
    constructor
    · intro hsound lease' hlease'
      rw [hcreated, Option.some.injEq] at hlease'
      subst hlease'
      refine ⟨hsound.inRange lease (by simp [World.afterPacket, hgranted]), ?_⟩
      have hunique := hsound.unique
      simp only [World.afterPacket, hstore] at hunique
      exact (uniqueLeases_insert_iff hnow lease).mp hunique
    · intro hfree
      obtain ⟨hrange, hcase⟩ := hfree lease hcreated
      refine ⟨?_, ?_⟩
      · simp only [World.afterPacket, hstore]
        exact (uniqueLeases_insert_iff hnow lease).mpr hcase
      · intro l hl
        simp only [World.afterPacket, hgranted, List.mem_append, List.mem_singleton] at hl
        rcases hl with hl | rfl
        · exact h.inRange l hl
        · exact hrange
  · have hgranted : w.granted ++ (createdLease cfg e.1 e.2).toList = w.granted := by
      simp [hnone]
    constructor
    · intro _ lease hlease
      rw [hnone] at hlease
      cases hlease
    · intro _
      refine ⟨?_, ?_⟩
      · rcases hstore with ⟨key, herase⟩ | hsame
        · simp only [World.afterPacket, herase]
          exact hnow.erase key
        · simp only [World.afterPacket, hsame]
          exact hnow
      · intro l hl
        simp only [World.afterPacket, hgranted] at hl
        exact h.inRange l hl

/-- In a run whose REQUESTs ask for free addresses of the pool, no two clients
hold unexpired leases for one address at any time, and every lease created
lies in the pool. -/
theorem leases_unique_of_requestsFree {cfg : ServerConfig} {st : ServerState} {now : Nat}
    (start : UniqueLeases now st.pool.leases) {es : List (Env × Packet)} {w : World}
    (run : Steps (guarded (packetStep U cfg) (RequestsFree cfg)) ⟨st, now, []⟩ es w) :
    (∀ later, w.now ≤ later → UniqueLeases later w.state.pool.leases) ∧
      ∀ lease ∈ w.granted, cfg.pool.isInRange lease.ip = true := by
  have hstart : LeasesSound cfg ⟨st, now, []⟩ := ⟨start, by simp⟩
  have hsound : LeasesSound cfg w := by
    apply run.invariant hstart
    intro t e u ht hstep
    exact (packetStep_sound_iff U ht hstep.1).mpr hstep.2
  exact ⟨fun later hle => hsound.unique.later hle, hsound.inRange⟩

/-! ### Two requests for one address -/

/-- A pool of two addresses, 10.0.0.10 and 10.0.0.11. -/
def smallPool : ServerConfig where
  pool := { start := 0x0a00000a, finish := 0x0a00000b, leaseDuration := 3600, arpProbe := false }
  serverIp := 0x0a000001
  subnet := 0xffffff00
  dnsServers := []
  domain := none

/-- The configuration of a server with this pool. -/
def smallConfig : DhcpV4Config where
  enable := true
  interface := "br0"
  range := (0x0a00000a, 0x0a00000b)
  leaseTime := "1h"
  gateway := 0x0a000001
  dns := []
  arpProbe := false

/-- A start at time 0 without a lease file. -/
def firstStart : StartEnv where
  unix := 0
  file := some ∅
  flushed := fun _ => true
  order := []
  bound := true

def emptyServer : ServerState where
  pool := { offered := [], leases := ⟨∅⟩ }
  hosts := {}

/-- The client whose address ends in `last`. -/
def clientMac (last : UInt8) : Mac := ⟨#[2, 0, 0, 0, 0, last], rfl⟩

/-- A REQUEST for `ip` from the client whose address ends in `last`. -/
def requestFrom (last : UInt8) (ip : Ipv4Addr) : Packet where
  msgType := some .request
  chaddr := [2, 0, 0, 0, 0, last]
  requestedIp := some ip

def quietEnv (unix : Nat) (order : List Lease) : Env where
  unix := unix
  instant := 0
  order := order
  arpFree := fun _ => true
  flushed := true

private theorem uniqueLeases_empty (now : Nat) : UniqueLeases now emptyServer.pool.leases := by
  intro k₁ k₂ l₁ l₂ h₁
  simp [emptyServer] at h₁

/-- A first REQUEST, and what follows it. -/
private def firstRequest : Env × Packet := (quietEnv 100 [], requestFrom 1 0x0a00000a)

private def firstWorld : World :=
  World.afterPacket asciiTables smallPool ⟨emptyServer, 0, []⟩ firstRequest

private def firstLease : Lease :=
  smallPool.pool.leaseFor firstRequest.1 (clientMac 1) 0x0a00000a none

private theorem firstWorld_lookup {k : String} {l : Lease}
    (h : firstWorld.state.pool.leases.leases.lookup k = some l) : l = firstLease := by
  change ((∅ : StringMap Lease).insert (macKey (clientMac 1)) firstLease).lookup k = some l at h
  by_cases hk : k = macKey (clientMac 1)
  · rw [hk, AList.lookup_insert] at h
    exact (Option.some.inj h).symm
  · rw [AList.lookup_insert_ne hk] at h
    cases h

/-- Two clients request an address each, and both hold it. -/
theorem leases_unique_two_requests :
    ∃ w, Steps (guarded (packetStep asciiTables smallPool) (RequestsFree smallPool))
        ⟨emptyServer, 0, []⟩
        [firstRequest, (quietEnv 101 [firstLease], requestFrom 2 0x0a00000b)] w ∧
      w.granted.map Lease.ip = [0x0a00000a, 0x0a00000b] ∧
      ∀ later, w.now ≤ later → UniqueLeases later w.state.pool.leases := by
  let e : Env × Packet := (quietEnv 101 [firstLease], requestFrom 2 0x0a00000b)
  have first : guarded (packetStep asciiTables smallPool) (RequestsFree smallPool)
      ⟨emptyServer, 0, []⟩ firstRequest firstWorld := by
    refine ⟨⟨Nat.zero_le _, List.Perm.refl _, rfl⟩, ?_⟩
    intro lease hlease
    cases hlease
    refine ⟨by decide, Or.inr ?_⟩
    intro k l _ hlookup
    cases hlookup
  have second : guarded (packetStep asciiTables smallPool) (RequestsFree smallPool)
      firstWorld e (World.afterPacket asciiTables smallPool firstWorld e) := by
    refine ⟨⟨by decide, List.Perm.refl _, rfl⟩, ?_⟩
    intro lease hlease
    cases hlease
    refine ⟨by decide, Or.inr ?_⟩
    intro k l _ hlookup _ hip
    rw [firstWorld_lookup hlookup] at hip
    exact absurd hip (by decide)
  have run := (Steps.single first).next second
  exact ⟨_, run, rfl,
    (leases_unique_of_requestsFree asciiTables (uniqueLeases_empty 0) run).1⟩

/-- Two clients that ask for one address in turn are both granted it. -/
theorem leases_shared_after_requests :
    ¬ ∀ (U : UnicodeTables) (cfg : ServerConfig) (st : ServerState) (now : Nat)
      (es : List (Env × Packet)) (w : World), UniqueLeases now st.pool.leases →
      Steps (packetStep U cfg) ⟨st, now, []⟩ es w →
      (∀ later, w.now ≤ later → UniqueLeases later w.state.pool.leases) ∧
        ∀ lease ∈ w.granted, cfg.pool.isInRange lease.ip = true := by
  intro h
  let w₀ : World := ⟨emptyServer, 0, []⟩
  let e₁ := (quietEnv 100 [], requestFrom 1 0x0a00000a)
  let w₁ := World.afterPacket asciiTables smallPool w₀ e₁
  let e₂ := (quietEnv 101 (w₁.state.pool.leases.leases.entries.map (fun entry => entry.2)),
    requestFrom 2 0x0a00000a)
  let w₂ := World.afterPacket asciiTables smallPool w₁ e₂
  have h₁ : packetStep asciiTables smallPool w₀ e₁ w₁ :=
    ⟨Nat.zero_le _, List.Perm.refl _, rfl⟩
  have h₂ : packetStep asciiTables smallPool w₁ e₂ w₂ :=
    ⟨by decide, List.Perm.refl _, rfl⟩
  have hunique := (h asciiTables smallPool emptyServer 0 _ w₂ (uniqueLeases_empty 0)
    ((Steps.single h₁).next h₂)).1 101 le_rfl
  have hmac := hunique "02:00:00:00:00:01" "02:00:00:00:00:02"
    (smallPool.pool.leaseFor e₁.1 (clientMac 1) 0x0a00000a none)
    (smallPool.pool.leaseFor e₂.1 (clientMac 2) 0x0a00000a none)
    (by rfl) (by rfl) (by decide) (by decide) rfl
  revert hmac
  decide

end Relay.Dhcp.V4
