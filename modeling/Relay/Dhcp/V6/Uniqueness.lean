import Relay.Dhcp.V6.Server
import Relay.Logic.Run

/-!
DHCPv6 addresses over starts and packets. The pool's counter knows nothing of
the leases and starts anew with the server, and a client may name any address.
No two clients share an address and no address leaves the prefix exactly as
long as the counter does not come to a held address and nobody names one.
-/

namespace Relay.Dhcp.V6

open Dns Logic Text V4

/-- The client holds an unexpired lease on the address. -/
def Holds (store : V6LeaseStore) (unix : Nat) (duid : Duid) (ip : Ipv6Addr) : Prop :=
  ∃ lease, store.getByDuid duid = some lease ∧ lease.isExpired unix = false ∧ lease.ip = ip

/-- No two clients hold one address. -/
def UniqueHolders (unix : Nat) (store : V6LeaseStore) : Prop :=
  ∀ duid duid' ip, Holds store unix duid ip → Holds store unix duid' ip → duid = duid'

section Stores

variable {store : V6LeaseStore} {unix unix' : Nat} {duid duid' : Duid} {ip : Ipv6Addr}

theorem V6Lease.isExpired_mono {lease : V6Lease} (hle : unix ≤ unix')
    (h : lease.isExpired unix' = false) : lease.isExpired unix = false := by
  simp only [V6Lease.isExpired, decide_eq_false_iff_not] at h ⊢
  omega

theorem Holds.earlier (h : Holds store unix' duid ip) (hle : unix ≤ unix') :
    Holds store unix duid ip := by
  obtain ⟨lease, hlease, hlive, hip⟩ := h
  exact ⟨lease, hlease, V6Lease.isExpired_mono hle hlive, hip⟩

theorem UniqueHolders.later (h : UniqueHolders unix store) (hle : unix ≤ unix') :
    UniqueHolders unix' store := by
  intro duid duid' ip hholds hholds'
  exact h duid duid' ip (hholds.earlier hle) (hholds'.earlier hle)

theorem uniqueHolders_empty : UniqueHolders unix ⟨∅⟩ := by
  rintro duid duid' ip ⟨lease, hlease, _⟩
  simp [V6LeaseStore.getByDuid] at hlease

/-- Who holds what once a lease has gone in. -/
theorem holds_insert_iff (lease : V6Lease) :
    Holds ⟨store.leases.insert (duidKey lease.duid) lease⟩ unix duid ip ↔
      (duid = lease.duid ∧ lease.isExpired unix = false ∧ lease.ip = ip) ∨
        (duid ≠ lease.duid ∧ Holds store unix duid ip) := by
  unfold Holds V6LeaseStore.getByDuid
  by_cases hduid : duid = lease.duid
  · subst hduid
    simp [AList.lookup_insert]
  · have hkey : duidKey duid ≠ duidKey lease.duid := fun h => hduid (duidKey_injective h)
    rw [AList.lookup_insert_ne hkey]
    simp [hduid]

theorem Holds.of_erase {key : String} (h : Holds ⟨store.leases.erase key⟩ unix duid ip) :
    Holds store unix duid ip := by
  obtain ⟨lease, hlease, hrest⟩ := h
  refine ⟨lease, ?_, hrest⟩
  unfold V6LeaseStore.getByDuid at hlease ⊢
  by_cases hkey : duidKey duid = key
  · rw [hkey, AList.lookup_erase] at hlease
    cases hlease
  · rwa [AList.lookup_erase_ne hkey] at hlease

/-- Granting a lease keeps holders apart exactly when the lease is expired at
once or no other client holds its address. -/
theorem uniqueHolders_insert_iff (h : UniqueHolders unix store) (lease : V6Lease) :
    UniqueHolders unix ⟨store.leases.insert (duidKey lease.duid) lease⟩ ↔
      lease.isExpired unix = true ∨
        ∀ other, Holds store unix other lease.ip → other = lease.duid := by
  constructor
  · intro hunique
    cases hlive : lease.isExpired unix with
    | true => exact Or.inl rfl
    | false =>
        right
        intro other hholds
        by_contra hne
        have hnew : Holds ⟨store.leases.insert (duidKey lease.duid) lease⟩ unix lease.duid
            lease.ip := (holds_insert_iff lease).mpr (Or.inl ⟨rfl, hlive, rfl⟩)
        have hold : Holds ⟨store.leases.insert (duidKey lease.duid) lease⟩ unix other
            lease.ip := (holds_insert_iff lease).mpr (Or.inr ⟨hne, hholds⟩)
        exact hne (hunique other lease.duid lease.ip hold hnew)
  · intro hcase duid duid' ip hholds hholds'
    rw [holds_insert_iff] at hholds hholds'
    rcases hholds with ⟨rfl, hlive, rfl⟩ | ⟨hne, hholds⟩
    · rcases hholds' with ⟨rfl, _, _⟩ | ⟨_, hholds'⟩
      · rfl
      · rcases hcase with hexpired | hfree
        · rw [hlive] at hexpired
          cases hexpired
        · exact (hfree duid' hholds').symm
    · rcases hholds' with ⟨rfl, hlive, rfl⟩ | ⟨_, hholds'⟩
      · rcases hcase with hexpired | hfree
        · rw [hlive] at hexpired
          cases hexpired
        · exact hfree duid hholds
      · exact h duid duid' ip hholds hholds'

theorem UniqueHolders.erase (h : UniqueHolders unix store) (key : String) :
    UniqueHolders unix ⟨store.leases.erase key⟩ := by
  intro duid duid' ip hholds hholds'
  exact h duid duid' ip hholds.of_erase hholds'.of_erase

end Stores

/-! ### What a packet does -/

/-- The pool and the client a packet is served for. -/
def served (cfg : ServerConfig) (st : ServerState) (msg : Packet) : Option (V6Pool × Duid) :=
  match cfg.mode, st.pool, msg.clientId with
  | .stateful, some pool, some duid => some (pool, duid)
  | _, _, _ => none

def MessageType.allocates : MessageType → Bool
  | solicit | request | renew => true
  | _ => false

def MessageType.confirms : MessageType → Bool
  | request | renew => true
  | _ => false

/-- What `allocate` returns: the client's own address, or that of the counter. -/
def V6Pool.allocated (pool : V6Pool) (unix : Nat) (duid : Duid) : Ipv6Addr :=
  (pool.current unix duid).getD (pool.makeAddr pool.nextHost)

theorem V6Pool.allocate_eq (pool : V6Pool) (unix : Nat) (duid : Duid) :
    (pool.allocate unix duid).2 = some (pool.allocated unix duid) ∧
      (pool.allocate unix duid).1.leases = pool.leases ∧
      (pool.allocate unix duid).1.leaseDuration = pool.leaseDuration := by
  unfold V6Pool.allocate V6Pool.allocated
  split
  · rename_i hcurrent
    rw [hcurrent]
    exact ⟨rfl, rfl, rfl⟩
  · rename_i hcurrent
    rw [hcurrent]
    exact ⟨rfl, rfl, rfl⟩

/-- The lease a REQUEST or RENEW puts into the store. -/
def createdLease (env : Env) (pool : V6Pool) (duid : Duid) (msg : Packet) : V6Lease :=
  pool.leaseFor env.unix duid (msg.requested.getD (pool.allocated env.unix duid)) none

variable (U : UnicodeTables)

theorem handleRequest_pool (cfg : ServerConfig) (env : Env) (st : ServerState) (pool : V6Pool)
    (duid : Duid) (msg : Packet) :
    ∃ pool', (handleRequest U cfg env st pool duid msg).1.pool = some pool' ∧
      pool'.leases = ⟨pool.leases.leases.insert (duidKey duid) (createdLease env pool duid msg)⟩ := by
  obtain ⟨haddr, hleases, hduration⟩ := pool.allocate_eq env.unix duid
  have hor : msg.requested.or (some (pool.allocated env.unix duid)) =
      some (msg.requested.getD (pool.allocated env.unix duid)) := by
    cases msg.requested <;> rfl
  unfold handleRequest
  rcases hallocate : pool.allocate env.unix duid with ⟨pool₁, addr⟩
  rw [hallocate] at haddr hleases hduration
  dsimp only at haddr hleases hduration ⊢
  rw [haddr, hor]
  have hlease : pool₁.leaseFor env.unix duid (msg.requested.getD (pool.allocated env.unix duid))
      none = createdLease env pool duid msg := by
    simp only [createdLease, V6Pool.leaseFor, hduration]
  simp only [V6Pool.confirm, V6LeaseStore.insert, flush, hlease, hleases]
  cases env.flushed with
  | true => exact ⟨_, rfl, rfl⟩
  | false => exact ⟨_, rfl, rfl⟩

/-- A packet that is served for a client grants it a lease, removes its lease,
or leaves the leases as they are; other packets do not touch the pool. -/
theorem handlePacket_pool (cfg : ServerConfig) (env : Env) (st : ServerState) (msg : Packet) :
    let st' := (handlePacket U cfg env st msg).1
    (∃ pool duid pool', served cfg st msg = some (pool, duid) ∧ st.pool = some pool ∧
      st'.pool = some pool' ∧
      pool'.leases =
        if msg.msgType.confirms then
          ⟨pool.leases.leases.insert (duidKey duid) (createdLease env pool duid msg)⟩
        else if msg.msgType = .release then ⟨pool.leases.leases.erase (duidKey duid)⟩
        else pool.leases) ∨
    (served cfg st msg = none ∧ st'.pool = st.pool) := by
  cases hmode : cfg.mode with
  | stateless =>
      right
      refine ⟨by simp [served, hmode], ?_⟩
      cases htype : msg.msgType <;> simp [handlePacket, htype, hmode]
  | stateful =>
      cases hpool : st.pool with
      | none =>
          right
          refine ⟨by simp [served, hmode, hpool], ?_⟩
          cases htype : msg.msgType <;> simp [handlePacket, htype, hmode, hpool]
      | some pool =>
          cases hid : msg.clientId with
          | none =>
              right
              refine ⟨by simp [served, hmode, hpool, hid], ?_⟩
              cases htype : msg.msgType <;> simp [handlePacket, htype, hmode, hpool, hid]
          | some duid =>
              left
              have hserved : served cfg st msg = some (pool, duid) := by
                simp [served, hmode, hpool, hid]
              obtain ⟨pool', hpool', hleases'⟩ := handleRequest_pool U cfg env st pool duid msg
              cases htype : msg.msgType with
              | solicit =>
                  refine ⟨pool, duid, (pool.allocate env.unix duid).1, hserved, rfl, ?_, ?_⟩
                  · simp [handlePacket, htype, hmode, hpool, hid]
                  · simp [MessageType.confirms, (pool.allocate_eq env.unix duid).2.1]
              | request | renew =>
                  refine ⟨pool, duid, pool', hserved, rfl, ?_, ?_⟩
                  · simp [handlePacket, htype, hmode, hpool, hid, hpool']
                  · simp [MessageType.confirms, hleases']
              | release =>
                  refine ⟨pool, duid, (pool.release duid env.flushed).1, hserved, rfl, ?_, ?_⟩
                  · simp [handlePacket, htype, hmode, hpool, hid]
                  · simp [MessageType.confirms, V6Pool.release, V6LeaseStore.remove]
              | informationRequest | other =>
                  refine ⟨pool, duid, pool, hserved, rfl, ?_, ?_⟩
                  · simp [handlePacket, htype, hpool]
                  · simp [MessageType.confirms]

/-! ### Starts and packets -/

structure Server where
  params : ServerConfig
  state : ServerState

/-- An address `allocate` returned, with the leases there were at the time. -/
structure Allocation where
  duid : Duid
  ip : Ipv6Addr
  unix : Nat
  leases : V6LeaseStore

/-- An address that was confirmed, and the pool that confirmed it. -/
structure Confirmation where
  pool : V6Pool
  ip : Ipv6Addr

/-- The machine: its lease file, its clock and the server, if one runs; and for
the reader what its servers have allocated and confirmed so far. -/
structure Machine where
  file : StringMap V6Lease
  server : Option Server
  now : Nat
  allocations : List Allocation
  confirmations : List Confirmation

def allocationOf (cfg : ServerConfig) (env : Env) (st : ServerState) (msg : Packet) :
    Option Allocation :=
  match served cfg st msg with
  | some (pool, duid) =>
      if msg.msgType.allocates then
        some ⟨duid, pool.allocated env.unix duid, env.unix, pool.leases⟩
      else none
  | none => none

def confirmationOf (cfg : ServerConfig) (env : Env) (st : ServerState) (msg : Packet) :
    Option Confirmation :=
  match served cfg st msg with
  | some (pool, duid) =>
      if msg.msgType.confirms && env.flushed then
        some ⟨pool, (createdLease env pool duid msg).ip⟩
      else none
  | none => none

/-- What a packet leaves in the file: only what changes the leases writes it. -/
def packetFile (env : Env) (st' : ServerState) (msg : Packet) (leftover : Leftover)
    (file : StringMap V6Lease) : StringMap V6Lease :=
  match st'.pool with
  | some pool =>
      if msg.msgType.confirms ∨ msg.msgType = .release then
        writtenFile env.flushed leftover file pool.leases.leases
      else file
  | none => file

inductive MachineEvent where
  | start (cfg : DhcpV6Config) (env : StartEnv) (hosts : DynamicHosts)
  | packet (env : Env) (msg : Packet) (leftover : Leftover)

variable (T : NetText)

/-- A start ends the server that ran before, and may fail. -/
def Machine.afterStart (m : Machine) (cfg : DhcpV6Config) (env : StartEnv)
    (hosts : DynamicHosts) : Machine :=
  { m with
    server :=
      match (serve U T cfg env hosts).2 with
      | .ok (params, state) => some ⟨params, state⟩
      | .error _ => none
    now := env.unix }

def Machine.afterPacket (m : Machine) (server : Server) (env : Env) (msg : Packet)
    (leftover : Leftover) : Machine where
  file :=
    match served server.params server.state msg with
    | some _ =>
        packetFile env (handlePacket U server.params env server.state msg).1 msg leftover m.file
    | none => m.file
  server := some { server with state := (handlePacket U server.params env server.state msg).1 }
  now := env.unix
  allocations := m.allocations ++ (allocationOf server.params env server.state msg).toList
  confirmations := m.confirmations ++ (confirmationOf server.params env server.state msg).toList

inductive MachineStep : Machine → MachineEvent → Machine → Prop where
  | start (m : Machine) (cfg : DhcpV6Config) (env : StartEnv) (hosts : DynamicHosts) :
      m.now ≤ env.unix → env.file = some m.file ∨ env.file = none →
      MachineStep m (.start cfg env hosts) (m.afterStart U T cfg env hosts)
  | packet (m : Machine) (server : Server) (env : Env) (msg : Packet) (leftover : Leftover) :
      m.server = some server → m.now ≤ env.unix →
      MachineStep m (.packet env msg leftover) (m.afterPacket U server env msg leftover)

/-- The condition on a packet. When an address is allocated, the client has one
of its own or nobody holds that of the counter; an address that is confirmed is
in the prefix, and its lease is expired at once or no other client holds it. -/
def AddressesKept (cfg : ServerConfig) (env : Env) (st : ServerState) (msg : Packet) : Prop :=
  ∀ pool duid, served cfg st msg = some (pool, duid) →
    (msg.msgType.allocates = true → pool.current env.unix duid = none →
      ∀ other, ¬ Holds pool.leases env.unix other (pool.makeAddr pool.nextHost)) ∧
    (msg.msgType.confirms = true →
      (env.flushed = true → pool.InPrefix (createdLease env pool duid msg).ip) ∧
      ((createdLease env pool duid msg).isExpired env.unix = true ∨
        ∀ other, Holds pool.leases env.unix other (createdLease env pool duid msg).ip →
          other = duid))

def AddressGuard (m : Machine) : MachineEvent → Prop
  | .start _ _ _ => True
  | .packet env msg _ => ∀ server, m.server = some server →
      AddressesKept server.params env server.state msg

/-- What holds of a machine at any time. -/
structure AddressesHold (m : Machine) : Prop where
  file : UniqueHolders m.now ⟨m.file⟩
  unique : ∀ server, m.server = some server → ∀ pool, server.state.pool = some pool →
    UniqueHolders m.now pool.leases
  own : ∀ a ∈ m.allocations, ∀ duid, Holds a.leases a.unix duid a.ip → duid = a.duid
  inside : ∀ c ∈ m.confirmations, c.pool.InPrefix c.ip

variable {U T}

/-- What a client without a lease of its own is given is nobody's exactly when
nobody holds the counter's address. -/
theorem allocated_own_iff {pool : V6Pool} {unix : Nat} {duid : Duid}
    (hunique : UniqueHolders unix pool.leases) :
    (∀ other, Holds pool.leases unix other (pool.allocated unix duid) → other = duid) ↔
      (pool.current unix duid = none →
        ∀ other, ¬ Holds pool.leases unix other (pool.makeAddr pool.nextHost)) := by
  cases hcurrent : pool.current unix duid with
  | some ip =>
      refine iff_of_true ?_ ?_
      · intro other hholds
        have haddr : pool.allocated unix duid = ip := by
          rw [V6Pool.allocated, hcurrent]
          rfl
        rw [haddr] at hholds
        refine hunique other duid ip hholds ?_
        unfold V6Pool.current at hcurrent
        split at hcurrent
        · rename_i lease hlease
          split at hcurrent
          · rename_i hlive
            cases hcurrent
            exact ⟨lease, hlease, by simpa using hlive, rfl⟩
          · cases hcurrent
        · cases hcurrent
      · intro hnone
        cases hnone
  | none =>
      have haddr : pool.allocated unix duid = pool.makeAddr pool.nextHost := by
        rw [V6Pool.allocated, hcurrent]
        rfl
      have hself : ∀ ip, ¬ Holds pool.leases unix duid ip := by
        rintro ip ⟨lease, hlease, hlive, _⟩
        simp [V6Pool.current, hlease, hlive] at hcurrent
      rw [haddr]
      constructor
      · intro hown _ other hholds
        have hother := hown other hholds
        subst hother
        exact hself _ hholds
      · intro hfree other hholds
        exact absurd hholds (hfree rfl other)

theorem statefulPool_ok {cfg : DhcpV6Config} {env : StartEnv} {hosts : DynamicHosts}
    {leaseDuration : Nat} {pool : V6Pool}
    (h : (statefulPool U T cfg env hosts leaseDuration).2 = .ok pool) :
    ∃ leases, env.file = some leases ∧ pool.leases = ⟨leases⟩ := by
  unfold statefulPool at h
  split at h
  · cases h
  · rename_i leases hfile
    refine ⟨leases, hfile, ?_⟩
    cases hparsed : prefixOf T cfg with
    | error e =>
        rw [hparsed] at h
        cases h
    | ok p =>
        rw [hparsed] at h
        cases h
        rfl

/-- A server that starts has the leases of the file, if it has any. -/
theorem serve_leases {cfg : DhcpV6Config} {env : StartEnv} {hosts : DynamicHosts}
    {params : ServerConfig} {state : ServerState} {file : StringMap V6Lease}
    (hfile : env.file = some file ∨ env.file = none)
    (h : (serve U T cfg env hosts).2 = .ok (params, state)) {pool : V6Pool}
    (hpool : state.pool = some pool) : pool.leases = ⟨file⟩ := by
  have hleases : ∃ leases, env.file = some leases ∧ pool.leases = ⟨leases⟩ := by
    unfold serve at h
    split at h
    · cases h
    · rename_i leaseDuration _
      by_cases hmode : cfg.mode = .stateful
      · rw [if_pos hmode] at h
        rcases hstateful : statefulPool U T cfg env hosts leaseDuration with ⟨hosts', result⟩
        rw [hstateful] at h
        cases result with
        | error e => cases h
        | ok pool' =>
            dsimp only [Except.map] at h
            split at h
            · cases h
              cases hpool
              have hok : (statefulPool U T cfg env hosts leaseDuration).2 = .ok pool := by
                rw [hstateful]
              exact statefulPool_ok hok
            · cases h
      · rw [if_neg hmode] at h
        dsimp only at h
        split at h
        · cases h
          cases hpool
        · cases h
  obtain ⟨leases, hleases, hstore⟩ := hleases
  rcases hfile with hfile | hfile
  · rw [hfile, Option.some.injEq] at hleases
    rw [hstore, hleases]
  · rw [hfile] at hleases
    cases hleases

theorem writtenFile_unique {unix : Nat} {flushed : Bool} {leftover : Leftover}
    {file leases : StringMap V6Lease} (hfile : UniqueHolders unix ⟨file⟩)
    (hleases : UniqueHolders unix ⟨leases⟩) :
    UniqueHolders unix ⟨writtenFile flushed leftover file leases⟩ := by
  unfold writtenFile
  split
  · exact hleases
  · cases leftover with
    | untouched => exact hfile
    | torn => exact uniqueHolders_empty

section Packet

variable {cfg : ServerConfig} {env : Env} {st : ServerState} {msg : Packet}

theorem mem_allocationOf {pool : V6Pool} {duid : Duid} (h : served cfg st msg = some (pool, duid))
    {a : Allocation} : a ∈ (allocationOf cfg env st msg).toList ↔
      msg.msgType.allocates = true ∧
        a = ⟨duid, pool.allocated env.unix duid, env.unix, pool.leases⟩ := by
  rw [Option.mem_toList, allocationOf, h]
  dsimp only
  split
  · rename_i hallocates
    simp [hallocates, eq_comm]
  · rename_i hallocates
    simp [hallocates]

theorem mem_confirmationOf {pool : V6Pool} {duid : Duid}
    (h : served cfg st msg = some (pool, duid)) {c : Confirmation} :
    c ∈ (confirmationOf cfg env st msg).toList ↔
      (msg.msgType.confirms = true ∧ env.flushed = true) ∧
        c = ⟨pool, (createdLease env pool duid msg).ip⟩ := by
  rw [Option.mem_toList, confirmationOf, h]
  dsimp only
  split
  · rename_i hconfirms
    rw [Bool.and_eq_true] at hconfirms
    simp [hconfirms, eq_comm]
  · rename_i hconfirms
    rw [Bool.and_eq_true] at hconfirms
    simp [hconfirms]

/-- The leases after a served packet keep holders apart exactly when a lease it
creates is expired at once or nobody else holds its address. -/
theorem uniqueHolders_packet_iff {pool pool' : V6Pool} {duid : Duid}
    (h : UniqueHolders env.unix pool.leases)
    (hleases : pool'.leases =
      if msg.msgType.confirms then
        ⟨pool.leases.leases.insert (duidKey duid) (createdLease env pool duid msg)⟩
      else if msg.msgType = .release then ⟨pool.leases.leases.erase (duidKey duid)⟩
      else pool.leases) :
    UniqueHolders env.unix pool'.leases ↔
      (msg.msgType.confirms = true →
        (createdLease env pool duid msg).isExpired env.unix = true ∨
          ∀ other, Holds pool.leases env.unix other (createdLease env pool duid msg).ip →
            other = duid) := by
  rw [hleases]
  split
  · rename_i hconfirms
    simp only [hconfirms, true_implies]
    exact uniqueHolders_insert_iff h (createdLease env pool duid msg)
  · rename_i hconfirms
    refine iff_of_true ?_ (fun hc => absurd hc hconfirms)
    split
    · exact h.erase (duidKey duid)
    · exact h

end Packet

private theorem start_hold {m : Machine} (h : AddressesHold m) {cfg : DhcpV6Config}
    {env : StartEnv} {hosts : DynamicHosts} (htime : m.now ≤ env.unix)
    (hfile : env.file = some m.file ∨ env.file = none) :
    AddressesHold (m.afterStart U T cfg env hosts) := by
  have hunique := h.file.later htime
  unfold Machine.afterStart
  refine ⟨hunique, ?_, h.own, h.inside⟩
  intro server hserver pool hpool
  dsimp only at hserver
  split at hserver
  · rename_i params state hserve
    cases hserver
    rw [serve_leases hfile hserve hpool]
    exact hunique
  · cases hserver

/-- A packet that reaches no pool leaves the machine as it was and hands nothing out. -/
private theorem packet_hold_of_unserved {m : Machine} (h : AddressesHold m) {server : Server}
    {env : Env} {msg : Packet} {leftover : Leftover} (hserver : m.server = some server)
    (htime : m.now ≤ env.unix) (hserved : served server.params server.state msg = none)
    (hsame : (handlePacket U server.params env server.state msg).1.pool = server.state.pool) :
    AddressesHold (m.afterPacket U server env msg leftover) := by
  have hallocation : allocationOf server.params env server.state msg = none := by
    rw [allocationOf, hserved]
  have hconfirmation : confirmationOf server.params env server.state msg = none := by
    rw [confirmationOf, hserved]
  refine ⟨?_, ?_, ?_, ?_⟩
  · unfold Machine.afterPacket
    dsimp only
    rw [hserved]
    exact h.file.later htime
  · intro server' hserver' pool hpool
    cases hserver'
    rw [hsame] at hpool
    exact (h.unique server hserver pool hpool).later htime
  · unfold Machine.afterPacket
    simp only [hallocation, Option.toList_none, List.append_nil]
    exact h.own
  · unfold Machine.afterPacket
    simp only [hconfirmation, Option.toList_none, List.append_nil]
    exact h.inside

/-- A packet whose pool still has one holder for each address keeps the machine in order,
when what it hands out is the client's own and in the prefix. -/
private theorem packet_hold_of_served {m : Machine} (h : AddressesHold m) {server : Server}
    {env : Env} {msg : Packet} {leftover : Leftover} {pool pool' : V6Pool} {duid : Duid}
    (htime : m.now ≤ env.unix)
    (hserved : served server.params server.state msg = some (pool, duid))
    (hpool' : (handlePacket U server.params env server.state msg).1.pool = some pool')
    (hunique' : UniqueHolders env.unix pool'.leases)
    (hown : msg.msgType.allocates = true → ∀ other,
      Holds pool.leases env.unix other (pool.allocated env.unix duid) → other = duid)
    (hinside : msg.msgType.confirms = true → env.flushed = true →
      pool.InPrefix (createdLease env pool duid msg).ip) :
    AddressesHold (m.afterPacket U server env msg leftover) := by
  refine ⟨?_, ?_, ?_, ?_⟩
  · unfold Machine.afterPacket packetFile
    dsimp only
    rw [hserved, hpool']
    dsimp only
    split
    · exact writtenFile_unique (h.file.later htime) hunique'
    · exact h.file.later htime
  · intro server' hserver' pool₁ hpool₁
    cases hserver'
    rw [hpool', Option.some.injEq] at hpool₁
    rw [← hpool₁]
    exact hunique'
  · intro a ha
    rcases List.mem_append.mp ha with ha | ha
    · exact h.own a ha
    · obtain ⟨hallocates, rfl⟩ := (mem_allocationOf hserved).mp ha
      exact hown hallocates
  · intro c hc
    rcases List.mem_append.mp hc with hc | hc
    · exact h.inside c hc
    · obtain ⟨⟨hconfirms, hflushed⟩, rfl⟩ := (mem_confirmationOf hserved).mp hc
      exact hinside hconfirms hflushed

private theorem packet_hold_iff {m : Machine} (h : AddressesHold m) {server : Server} {env : Env}
    {msg : Packet} {leftover : Leftover} (hserver : m.server = some server)
    (htime : m.now ≤ env.unix) :
    AddressesHold (m.afterPacket U server env msg leftover) ↔
      AddressesKept server.params env server.state msg := by
  rcases handlePacket_pool U server.params env server.state msg with
    ⟨pool, duid, pool', hserved, hpool, hpool', hleases⟩ | ⟨hserved, hsame⟩
  · have hunique := (h.unique server hserver pool hpool).later htime
    have hiff := uniqueHolders_packet_iff hunique hleases
    constructor
    · intro h' pool₁ duid₁ hserved₁
      rw [hserved, Option.some.injEq, Prod.mk.injEq] at hserved₁
      obtain ⟨rfl, rfl⟩ := hserved₁
      refine ⟨?_, ?_⟩
      · intro hallocates
        apply (allocated_own_iff hunique).mp
        exact h'.own ⟨duid, pool.allocated env.unix duid, env.unix, pool.leases⟩
          (List.mem_append_right _ ((mem_allocationOf hserved).mpr ⟨hallocates, rfl⟩))
      · intro hconfirms
        refine ⟨?_, ?_⟩
        · intro hflushed
          exact h'.inside ⟨pool, (createdLease env pool duid msg).ip⟩
            (List.mem_append_right _
              ((mem_confirmationOf hserved).mpr ⟨⟨hconfirms, hflushed⟩, rfl⟩))
        · exact hiff.mp (h'.unique _ rfl pool' hpool') hconfirms
    · intro hkept
      obtain ⟨hfree, hgrant⟩ := hkept pool duid hserved
      apply packet_hold_of_served h htime hserved hpool'
      · exact hiff.mpr fun hconfirms => (hgrant hconfirms).2
      · intro hallocates
        exact (allocated_own_iff hunique).mpr (hfree hallocates)
      · intro hconfirms
        exact (hgrant hconfirms).1
  · have hkept : AddressesKept server.params env server.state msg := by
      intro pool duid hserved'
      rw [hserved] at hserved'
      cases hserved'
    exact iff_of_true (packet_hold_of_unserved h hserver htime hserved hsame) hkept

/-- A step leaves everything in order exactly when it meets the condition. -/
theorem machineStep_hold_iff {m m' : Machine} {e : MachineEvent} (h : AddressesHold m)
    (hstep : MachineStep U T m e m') : AddressesHold m' ↔ AddressGuard m e := by
  cases hstep with
  | start cfg env hosts htime hfile =>
      exact iff_of_true (start_hold h htime hfile) trivial
  | packet server env msg leftover hserver htime =>
      rw [packet_hold_iff h hserver htime]
      unfold AddressGuard
      simp [hserver]

/-- In a run of starts and packets that all meet the condition no two clients
ever hold one address, no address is allocated that another client holds, and
every confirmed address is in the prefix. -/
theorem addresses_unique {file : StringMap V6Lease} {now : Nat} (hfile : UniqueHolders now ⟨file⟩)
    {es : List MachineEvent} {m : Machine}
    (run : Steps (guarded (MachineStep U T) AddressGuard) ⟨file, none, now, [], []⟩ es m) :
    (∀ server, m.server = some server → ∀ pool, server.state.pool = some pool →
      ∀ later, m.now ≤ later → UniqueHolders later pool.leases) ∧
    (∀ a ∈ m.allocations, ∀ duid, Holds a.leases a.unix duid a.ip → duid = a.duid) ∧
    ∀ c ∈ m.confirmations, c.pool.InPrefix c.ip := by
  have hstart : AddressesHold ⟨file, none, now, [], []⟩ := by
    refine ⟨hfile, ?_, ?_, ?_⟩
    · intro server hserver
      cases hserver
    · intro a ha
      cases ha
    · intro c hc
      cases hc
  have hhold : AddressesHold m := by
    apply run.invariant hstart
    intro t e u ht hstep
    exact (machineStep_hold_iff ht hstep.1).mpr hstep.2
  refine ⟨?_, hhold.own, hhold.inside⟩
  intro server hserver pool hpool later hle
  exact (hhold.unique server hserver pool hpool).later hle

/-! ### The counter starts anew -/

/-- A stateful server with the default prefix and leases of an hour. -/
def statefulConfig : DhcpV6Config where
  enable := true
  interface := "br0"
  mode := .stateful
  dns := []
  leaseTime := "1h"

def noText : NetText where
  socketAddr := fun _ => none
  ipAddr := fun _ => none
  validUrl := fun _ => false

private def startAt (unix : Nat) (file : StringMap V6Lease) (order : List V6Lease) : StartEnv where
  unix := unix
  file := some file
  order := order
  bound := true

/-- A message of the client whose DUID is this byte. -/
private def messageFrom (ty : MessageType) (client : UInt8) : Packet where
  msgType := ty
  xid := 0
  clientId := some [client]
  requested := none

/-- The lease a first REQUEST without an address gets. -/
private def firstLease : V6Lease where
  duid := [1]
  ip := 0xfd000000000000000000000000000100
  hostname := none
  expiresAt := 3600

private def granted : StringMap V6Lease := (∅ : StringMap V6Lease).insert (duidKey [1]) firstLease

private def runningServer (nextHost : BitVec 64) (leases : StringMap V6Lease) : Server where
  params := { mode := .stateful, dnsServers := [], domain := none, leaseSecs := 3600 }
  state := {
    pool := some {
      netPrefix := defaultPrefix
      prefixLen := 64
      nextHost := nextHost
      leases := ⟨leases⟩
      leaseDuration := 3600 }
    hosts := {} }

private def newMachine : Machine := ⟨∅, none, 0, [], []⟩

private def firstServer : Machine :=
  newMachine.afterStart asciiTables noText statefulConfig (startAt 0 ∅ []) {}

private theorem firstServer_server :
    firstServer.server = some (runningServer firstHost ∅) := by
  rfl

private def afterRequest : Machine :=
  firstServer.afterPacket asciiTables (runningServer firstHost ∅) ⟨0, true⟩
    (messageFrom .request 1) .untouched

private def startEvent : MachineEvent := .start statefulConfig (startAt 0 ∅ []) {}

private def requestEvent : MachineEvent := .packet ⟨0, true⟩ (messageFrom .request 1) .untouched

private theorem start_step : MachineStep asciiTables noText newMachine startEvent firstServer :=
  .start _ _ _ _ (Nat.le_refl 0) (Or.inl rfl)

private theorem request_step :
    MachineStep asciiTables noText firstServer requestEvent afterRequest :=
  .packet _ _ _ _ _ firstServer_server (Nat.le_refl 0)

private theorem not_holds_empty {unix : Nat} {duid : Duid} {ip : Ipv6Addr} :
    ¬ Holds ⟨∅⟩ unix duid ip := by
  rintro ⟨lease, hlease, _⟩
  simp [V6LeaseStore.getByDuid] at hlease

private theorem holds_granted {unix : Nat} {duid : Duid} {ip : Ipv6Addr}
    (h : Holds ⟨granted⟩ unix duid ip) : ip = firstLease.ip := by
  obtain ⟨lease, hlease, _, hip⟩ := h
  change ((∅ : StringMap V6Lease).insert (duidKey [1]) firstLease).lookup (duidKey duid) =
    some lease at hlease
  by_cases hkey : duidKey duid = duidKey [1]
  · rw [hkey, AList.lookup_insert] at hlease
    cases hlease
    exact hip.symm
  · rw [AList.lookup_insert_ne hkey] at hlease
    cases hlease

private theorem afterRequest_server :
    afterRequest.server = some (runningServer (firstHost + 1) granted) := by
  rfl

private def otherRequest : MachineEvent := .packet ⟨0, true⟩ (messageFrom .request 2) .untouched

private theorem request_guard : AddressGuard firstServer requestEvent := by
  intro server hserver pool duid hserved
  rw [firstServer_server, Option.some.injEq] at hserver
  subst hserver
  cases hserved
  refine ⟨?_, ?_⟩
  · intro _ _ other
    exact not_holds_empty
  · intro _
    refine ⟨?_, Or.inr ?_⟩
    · intro _
      exact V6Pool.makeAddr_inPrefix (by decide) (by decide) (by decide)
    · intro other hholds
      exact absurd hholds not_holds_empty

private theorem other_guard : AddressGuard afterRequest otherRequest := by
  intro server hserver pool duid hserved
  rw [afterRequest_server, Option.some.injEq] at hserver
  subst hserver
  cases hserved
  refine ⟨?_, ?_⟩
  · intro _ _ other hholds
    exact absurd (holds_granted hholds) (by decide)
  · intro _
    refine ⟨?_, Or.inr ?_⟩
    · intro _
      exact V6Pool.makeAddr_inPrefix (by decide) (by decide) (by decide)
    · intro other hholds
      exact absurd (holds_granted hholds) (by decide)

/-- Two clients request an address, and each is given one of its own. -/
theorem addresses_unique_two_clients :
    ∃ m, Steps (guarded (MachineStep asciiTables noText) AddressGuard) ⟨∅, none, 0, [], []⟩
        [startEvent, requestEvent, otherRequest] m ∧
      m.confirmations.map Confirmation.ip =
        [0xfd000000000000000000000000000100, 0xfd000000000000000000000000000101] ∧
      ∀ c ∈ m.confirmations, c.pool.InPrefix c.ip := by
  have first : Steps (guarded (MachineStep asciiTables noText) AddressGuard) newMachine
      [startEvent] firstServer := Steps.single ⟨start_step, trivial⟩
  have other : MachineStep asciiTables noText afterRequest otherRequest
      (afterRequest.afterPacket asciiTables (runningServer (firstHost + 1) granted) ⟨0, true⟩
        (messageFrom .request 2) .untouched) :=
    .packet _ _ _ _ _ afterRequest_server (Nat.le_refl 0)
  have run := (first.next ⟨request_step, request_guard⟩).next ⟨other, other_guard⟩
  exact ⟨_, run, by rfl, (addresses_unique uniqueHolders_empty run).2.2⟩

private def secondServer : Machine :=
  afterRequest.afterStart asciiTables noText statefulConfig (startAt 10 granted [firstLease]) {}

private theorem secondServer_server :
    secondServer.server = some (runningServer firstHost granted) := by
  rfl

/-- After a restart the counter comes to the address of the first client's
lease, and it is allocated to the second. -/
theorem address_allocated_after_restart :
    ¬ ∀ (U : UnicodeTables) (T : NetText) (file : StringMap V6Lease) (now : Nat)
      (es : List MachineEvent) (m : Machine), UniqueHolders now ⟨file⟩ →
      Steps (MachineStep U T) ⟨file, none, now, [], []⟩ es m →
      (∀ server, m.server = some server → ∀ pool, server.state.pool = some pool →
        UniqueHolders m.now pool.leases) ∧
      (∀ a ∈ m.allocations, ∀ duid, Holds a.leases a.unix duid a.ip → duid = a.duid) ∧
      ∀ c ∈ m.confirmations, c.pool.InPrefix c.ip := by
  intro h
  have restart : MachineStep asciiTables noText afterRequest
      (.start statefulConfig (startAt 10 granted [firstLease]) {}) secondServer :=
    .start _ _ _ _ (Nat.zero_le 10) (Or.inl rfl)
  have solicit : MachineStep asciiTables noText secondServer
      (.packet ⟨10, true⟩ (messageFrom .solicit 2) .untouched)
      (secondServer.afterPacket asciiTables (runningServer firstHost granted) ⟨10, true⟩
        (messageFrom .solicit 2) .untouched) :=
    .packet _ _ _ _ _ secondServer_server (Nat.le_refl 10)
  have run := (((Steps.single start_step).next request_step).next restart).next solicit
  have hown := (h asciiTables noText ∅ 0 _ _ uniqueHolders_empty run).2.1
    ⟨[2], firstLease.ip, 10, ⟨granted⟩⟩
    (List.mem_append_right _ (List.mem_singleton.mpr rfl)) [1] ⟨firstLease, by rfl, rfl, rfl⟩
  revert hown
  decide

end Relay.Dhcp.V6
