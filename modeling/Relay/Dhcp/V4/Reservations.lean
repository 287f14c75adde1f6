import Relay.Dhcp.V4.Serve
import Relay.Dhcp.V4.Uniqueness

/-!
Static reservations over starts and packets. They share one map and one file
with the leases clients are granted: a start lays the configured ones over what
the file holds, a grant or a release writes its client's key whatever lies
there. What a machine keeps is followed from one start to the next.
-/

namespace Relay.Dhcp.V4

open Dns Logic

/-- Every lease lies under the key of its own client. -/
def Keyed (store : LeaseStore) : Prop :=
  ∀ key lease, store.leases.lookup key = some lease → key = macKey lease.mac

/-- The store marks exactly these reservations static, and no other client has
an unexpired lease on one of their addresses. -/
structure Reserved (now : Nat) (reservations : List Lease) (store : LeaseStore) : Prop where
  exact : ∀ mac ip,
    (∃ key lease, store.leases.lookup key = some lease ∧ lease.isStatic = true ∧
      lease.mac = mac ∧ lease.ip = ip) ↔ ∃ r ∈ reservations, r.mac = mac ∧ r.ip = ip
  exclusive : ∀ key lease, store.leases.lookup key = some lease → lease.isExpired now = false →
    ∀ r ∈ reservations, r.ip = lease.ip → r.mac = lease.mac

theorem Reserved.later {now later : Nat} {reservations : List Lease} {store : LeaseStore}
    (h : Reserved now reservations store) (hle : now ≤ later) :
    Reserved later reservations store := by
  refine ⟨h.exact, ?_⟩
  intro key lease hlookup hlive
  exact h.exclusive key lease hlookup (Lease.isExpired_mono hle hlive)

/-! ### Stores whose leases lie under their own keys -/

theorem Keyed.insert {store : LeaseStore} (h : Keyed store) (lease : Lease) :
    Keyed ⟨store.leases.insert (macKey lease.mac) lease⟩ := by
  intro key l hlookup
  by_cases hkey : key = macKey lease.mac
  · subst hkey
    rw [AList.lookup_insert, Option.some.injEq] at hlookup
    rw [hlookup]
  · rw [AList.lookup_insert_ne hkey] at hlookup
    exact h key l hlookup

theorem lookup_of_erase {leases : StringMap Lease} {key other : String} {lease : Lease}
    (h : (leases.erase key).lookup other = some lease) :
    other ≠ key ∧ leases.lookup other = some lease := by
  by_cases hkey : other = key
  · subst hkey
    rw [AList.lookup_erase] at h
    cases h
  · rw [AList.lookup_erase_ne hkey] at h
    exact ⟨hkey, h⟩

theorem Keyed.erase {store : LeaseStore} (h : Keyed store) (key : String) :
    Keyed ⟨store.leases.erase key⟩ := by
  intro other l hlookup
  exact h other l (lookup_of_erase hlookup).2

theorem keyed_empty : Keyed ⟨∅⟩ := by
  intro key l hlookup
  simp at hlookup

theorem Keyed.insertAll {store : LeaseStore} (h : Keyed store) (leases : List Lease) :
    Keyed (store.insertAll leases) := by
  induction leases generalizing store with
  | nil => exact h
  | cons lease leases ih => exact ih (h.insert lease)

/-! ### Laying the reservations over a file -/

theorem lookup_insertAll_of_not_mem {store : LeaseStore} {leases : List Lease} {key : String}
    (h : ∀ r ∈ leases, macKey r.mac ≠ key) :
    (store.insertAll leases).leases.lookup key = store.leases.lookup key := by
  induction leases generalizing store with
  | nil => rfl
  | cons r leases ih =>
      have hrest : ∀ r' ∈ leases, macKey r'.mac ≠ key :=
        fun r' hr' => h r' (List.mem_cons_of_mem _ hr')
      have hne : key ≠ macKey r.mac := (h r List.mem_cons_self).symm
      calc (store.insertAll (r :: leases)).leases.lookup key
          = (store.leases.insert (macKey r.mac) r).lookup key := ih hrest
        _ = store.leases.lookup key := AList.lookup_insert_ne hne

/-- Under the key of a lease that went in lies one of those that went in. -/
theorem lookup_insertAll_of_mem (store : LeaseStore) {leases : List Lease} {key : String}
    (h : ∃ r ∈ leases, macKey r.mac = key) :
    ∃ r ∈ leases, macKey r.mac = key ∧
      (store.insertAll leases).leases.lookup key = some r := by
  induction leases generalizing store with
  | nil =>
      obtain ⟨r, hr, _⟩ := h
      cases hr
  | cons r leases ih =>
      by_cases hlater : ∃ r' ∈ leases, macKey r'.mac = key
      · obtain ⟨r', hr', hkey, hlookup⟩ := ih (⟨store.leases.insert (macKey r.mac) r⟩) hlater
        exact ⟨r', List.mem_cons_of_mem _ hr', hkey, hlookup⟩
      · have hrest : ∀ r' ∈ leases, macKey r'.mac ≠ key :=
          fun r' hr' heq => hlater ⟨r', hr', heq⟩
        obtain ⟨r', hr', hkey⟩ := h
        rcases List.mem_cons.mp hr' with rfl | hr'
        · refine ⟨r', List.mem_cons_self, hkey, ?_⟩
          calc (store.insertAll (r' :: leases)).leases.lookup key
              = (store.leases.insert (macKey r'.mac) r').lookup key :=
                lookup_insertAll_of_not_mem hrest
            _ = some r' := by rw [hkey, AList.lookup_insert]
        · exact absurd hkey (hrest r' hr')

theorem lookup_insertAll {store : LeaseStore} {leases : List Lease} {key : String}
    {lease : Lease} (h : (store.insertAll leases).leases.lookup key = some lease) :
    lease ∈ leases ∨
      ((∀ r ∈ leases, macKey r.mac ≠ key) ∧ store.leases.lookup key = some lease) := by
  by_cases hmem : ∃ r ∈ leases, macKey r.mac = key
  · left
    obtain ⟨r, hr, _, hlookup⟩ := lookup_insertAll_of_mem store hmem
    rw [hlookup, Option.some.injEq] at h
    rwa [← h]
  · right
    have hrest : ∀ r ∈ leases, macKey r.mac ≠ key := fun r hr heq => hmem ⟨r, hr, heq⟩
    rw [lookup_insertAll_of_not_mem hrest] at h
    exact ⟨hrest, h⟩

/-- The condition on a start from a file: the reservations give every client
one address and every address to one client; what the file marks static is of
a client with a reservation, and no other client's unexpired lease in it is on
a reserved address. -/
structure ReservationsFit (now : Nat) (reservations : List Lease) (file : LeaseStore) : Prop where
  single : ∀ r ∈ reservations, ∀ r' ∈ reservations, r.mac = r'.mac → r.ip = r'.ip
  distinct : ∀ r ∈ reservations, ∀ r' ∈ reservations, r.ip = r'.ip → r.mac = r'.mac
  known : ∀ key lease, file.leases.lookup key = some lease → lease.isStatic = true →
    ∃ r ∈ reservations, r.mac = lease.mac
  free : ∀ key lease, file.leases.lookup key = some lease → lease.isExpired now = false →
    (∀ r ∈ reservations, r.mac ≠ lease.mac) → ∀ r ∈ reservations, r.ip ≠ lease.ip

private theorem isExpired_of_isStatic {lease : Lease} (h : lease.isStatic = true) (now : Nat) :
    lease.isExpired now = false := by
  rw [Lease.isExpired, if_pos h]

/-- A start has its reservations right exactly when they fit the file. -/
theorem reserved_insertAll_iff {now : Nat} {reservations : List Lease} {file : LeaseStore}
    (hkeyed : Keyed file) (hstatic : ∀ r ∈ reservations, r.isStatic = true) :
    Reserved now reservations (file.insertAll reservations) ↔
      ReservationsFit now reservations file := by
  have hkeyed' : Keyed (file.insertAll reservations) := hkeyed.insertAll reservations
  have hkept : ∀ {key lease}, file.leases.lookup key = some lease →
      (∀ r ∈ reservations, r.mac ≠ lease.mac) →
      (file.insertAll reservations).leases.lookup key = some lease := by
    intro key lease hlookup hother
    rw [lookup_insertAll_of_not_mem, hlookup]
    intro r hr hkey
    rw [hkeyed key lease hlookup] at hkey
    exact hother r hr (macKey_injective hkey)
  constructor
  · intro h
    refine ⟨?_, ?_, ?_, ?_⟩
    · intro r hr r' hr' hmac
      obtain ⟨key, l, hl, _, hlmac, hlip⟩ := (h.exact r.mac r.ip).mpr ⟨r, hr, rfl, rfl⟩
      obtain ⟨key', l', hl', _, hlmac', hlip'⟩ := (h.exact r'.mac r'.ip).mpr ⟨r', hr', rfl, rfl⟩
      have hkey : key = key' := by
        rw [hkeyed' key l hl, hkeyed' key' l' hl', hlmac, hlmac', hmac]
      rw [hkey, hl', Option.some.injEq] at hl
      rw [← hlip, ← hlip', hl]
    · intro r hr r' hr' hip
      obtain ⟨key, l, hl, hlstatic, hlmac, hlip⟩ := (h.exact r'.mac r'.ip).mpr ⟨r', hr', rfl, rfl⟩
      rw [← hlmac]
      apply h.exclusive key l hl (isExpired_of_isStatic hlstatic now) r hr
      rw [hip, hlip]
    · intro key lease hlookup hlstatic
      by_contra hnone
      have hother : ∀ r ∈ reservations, r.mac ≠ lease.mac :=
        fun r hr hmac => hnone ⟨r, hr, hmac⟩
      obtain ⟨r, hr, hmac, _⟩ := (h.exact lease.mac lease.ip).mp
        ⟨key, lease, hkept hlookup hother, hlstatic, rfl, rfl⟩
      exact hother r hr hmac
    · intro key lease hlookup hlive hother r hr hip
      exact hother r hr (h.exclusive key lease (hkept hlookup hother) hlive r hr hip)
  · intro hfit
    refine ⟨?_, ?_⟩
    · intro mac ip
      constructor
      · rintro ⟨key, lease, hlookup, hlstatic, rfl, rfl⟩
        rcases lookup_insertAll hlookup with hmem | ⟨hnone, hfile⟩
        · exact ⟨lease, hmem, rfl, rfl⟩
        · obtain ⟨r, hr, hmac⟩ := hfit.known key lease hfile hlstatic
          refine absurd ?_ (hnone r hr)
          rw [hmac, hkeyed key lease hfile]
      · rintro ⟨r, hr, rfl, rfl⟩
        obtain ⟨r', hr', hkey, hlookup⟩ :=
          lookup_insertAll_of_mem file ⟨r, hr, rfl⟩
        have hmac : r'.mac = r.mac := macKey_injective hkey
        exact ⟨_, r', hlookup, hstatic r' hr', hmac, hfit.single r' hr' r hr hmac⟩
    · intro key lease hlookup hlive r hr hip
      rcases lookup_insertAll hlookup with hmem | ⟨hnone, hfile⟩
      · exact hfit.distinct r hr lease hmem hip
      · by_contra hmac
        refine hfit.free key lease hfile hlive ?_ r hr hip
        intro r' hr' hmac'
        refine hnone r' hr' ?_
        rw [hmac', hkeyed key lease hfile]

/-! ### Packets -/

/-- The condition on a packet: the client that is granted or released a lease
has no reservation, and the address it is granted is not reserved. -/
def ReservationsKept (reservations : List Lease) (cfg : ServerConfig) (env : Env)
    (st : ServerState) (msg : Packet) : Prop :=
  (∀ lease, createdLease cfg env msg = some lease → ∀ r ∈ reservations,
    r.mac ≠ lease.mac ∧ (lease.isExpired env.unix = true ∨ r.ip ≠ lease.ip)) ∧
  ∀ key lease, releasedLease st msg = some (key, lease) → ∀ r ∈ reservations, r.mac ≠ lease.mac

theorem createdLease_isStatic {cfg : ServerConfig} {env : Env} {msg : Packet} {lease : Lease}
    (h : createdLease cfg env msg = some lease) : lease.isStatic = false := by
  unfold createdLease at h
  split at h
  · split at h
    · split at h
      · cases h
      · cases h
        rfl
    · cases h
  · cases h

section Store

variable {now : Nat} {reservations : List Lease} {store : LeaseStore}

private theorem reserved_grant_iff (hkeyed : Keyed store) (h : Reserved now reservations store)
    {lease : Lease} (hdynamic : lease.isStatic = false) :
    Reserved now reservations ⟨store.leases.insert (macKey lease.mac) lease⟩ ↔
      ∀ r ∈ reservations, r.mac ≠ lease.mac ∧ (lease.isExpired now = true ∨ r.ip ≠ lease.ip) := by
  constructor
  · intro h' r hr
    have hmac : r.mac ≠ lease.mac := by
      intro hmac
      obtain ⟨key, l, hl, hlstatic, hlmac, _⟩ := (h'.exact r.mac r.ip).mpr ⟨r, hr, rfl, rfl⟩
      have hkey : key = macKey lease.mac := by
        rw [hkeyed.insert lease key l hl, hlmac, hmac]
      rw [hkey, AList.lookup_insert, Option.some.injEq] at hl
      rw [← hl, hdynamic] at hlstatic
      cases hlstatic
    refine ⟨hmac, ?_⟩
    cases hlive : lease.isExpired now with
    | true => exact Or.inl rfl
    | false =>
        right
        intro hip
        exact hmac (h'.exclusive _ lease (AList.lookup_insert _) hlive r hr hip)
  · intro hfree
    refine ⟨?_, ?_⟩
    · intro mac ip
      rw [← h.exact mac ip]
      constructor
      · rintro ⟨key, l, hl, hlstatic, hlmac, hlip⟩
        by_cases hkey : key = macKey lease.mac
        · rw [hkey, AList.lookup_insert, Option.some.injEq] at hl
          rw [← hl, hdynamic] at hlstatic
          cases hlstatic
        · rw [AList.lookup_insert_ne hkey] at hl
          exact ⟨key, l, hl, hlstatic, hlmac, hlip⟩
      · rintro ⟨key, l, hl, hlstatic, hlmac, hlip⟩
        obtain ⟨r, hr, hrmac, _⟩ := (h.exact l.mac l.ip).mp ⟨key, l, hl, hlstatic, rfl, rfl⟩
        have hkey : key ≠ macKey lease.mac := by
          intro hkey
          rw [hkeyed key l hl] at hkey
          exact (hfree r hr).1 (hrmac.trans (macKey_injective hkey))
        exact ⟨key, l, by rw [AList.lookup_insert_ne hkey, hl], hlstatic, hlmac, hlip⟩
    · intro key l hl hlive r hr hip
      by_cases hkey : key = macKey lease.mac
      · rw [hkey, AList.lookup_insert, Option.some.injEq] at hl
        subst hl
        rcases (hfree r hr).2 with hexpired | hne
        · rw [hexpired] at hlive
          cases hlive
        · exact absurd hip hne
      · rw [AList.lookup_insert_ne hkey] at hl
        exact h.exclusive key l hl hlive r hr hip

private theorem reserved_release_iff (hkeyed : Keyed store) (h : Reserved now reservations store)
    {key : String} {lease : Lease} (hlookup : store.leases.lookup key = some lease) :
    Reserved now reservations ⟨store.leases.erase key⟩ ↔
      ∀ r ∈ reservations, r.mac ≠ lease.mac := by
  constructor
  · intro h' r hr hmac
    obtain ⟨other, l, hl, _, hlmac, _⟩ := (h'.exact r.mac r.ip).mpr ⟨r, hr, rfl, rfl⟩
    obtain ⟨hne, hl⟩ := lookup_of_erase hl
    apply hne
    rw [hkeyed other l hl, hkeyed key lease hlookup, hlmac, hmac]
  · intro hother
    refine ⟨?_, ?_⟩
    · intro mac ip
      rw [← h.exact mac ip]
      constructor
      · rintro ⟨other, l, hl, hl'⟩
        exact ⟨other, l, (lookup_of_erase hl).2, hl'⟩
      · rintro ⟨other, l, hl, hlstatic, hlmac, hlip⟩
        obtain ⟨r, hr, hrmac, _⟩ := (h.exact l.mac l.ip).mp ⟨other, l, hl, hlstatic, rfl, rfl⟩
        have hne : other ≠ key := by
          rintro rfl
          rw [hlookup, Option.some.injEq] at hl
          subst hl
          exact hother r hr hrmac
        exact ⟨other, l, by rw [AList.lookup_erase_ne hne, hl], hlstatic, hlmac, hlip⟩
    · intro other l hl hlive r hr hip
      exact h.exclusive other l (lookup_of_erase hl).2 hlive r hr hip

end Store

variable (U : UnicodeTables)

/-- A packet leaves the reservations right exactly when it meets the
condition. -/
theorem handlePacket_reserved_iff (cfg : ServerConfig) {env : Env} {st : ServerState}
    (msg : Packet) {reservations : List Lease} (hkeyed : Keyed st.pool.leases)
    (h : Reserved env.unix reservations st.pool.leases) :
    Reserved env.unix reservations (handlePacket U cfg env st msg).1.pool.leases ↔
      ReservationsKept reservations cfg env st msg := by
  unfold ReservationsKept
  rcases handlePacket_cases U cfg env st msg with
    ⟨lease, hcreated, hreleased, hstore, _⟩ |
    ⟨key, lease, hcreated, hreleased, hlookup, hstore, _⟩ |
    ⟨hcreated, hreleased, hstore, _⟩
  · rw [hstore, reserved_grant_iff hkeyed h (createdLease_isStatic hcreated)]
    simp [hcreated, hreleased]
  · rw [hstore, reserved_release_iff hkeyed h hlookup]
    simp [hcreated, hreleased]
  · rw [hstore]
    simp [hcreated, hreleased, h]

theorem handlePacket_keyed (cfg : ServerConfig) (env : Env) {st : ServerState} (msg : Packet)
    (hkeyed : Keyed st.pool.leases) :
    Keyed (handlePacket U cfg env st msg).1.pool.leases := by
  rcases handlePacket_leases U cfg env st msg with ⟨lease, _, hstore⟩ | ⟨_, ⟨key, hstore⟩ | hstore⟩
  · rw [hstore]
    exact hkeyed.insert lease
  · rw [hstore]
    exact hkeyed.erase key
  · rwa [hstore]

/-! ### The lease file -/

/-- The writes of the loop over `static_leases`, from the `i`-th on. -/
def reserveFile (flushed : Nat → Bool) (leftover : Leftover) : Nat → List StaticLease →
    StringMap Lease → StringMap Lease
  | _, [], file => file
  | i, s :: rest, file =>
      match parseMac s.mac with
      | none => file
      | some mac =>
          let leases := file.insert (macKey mac) (staticLease mac s)
          if flushed i then reserveFile flushed leftover (i + 1) rest leases
          else writtenFile false leftover file leases

/-- What a start, whether it succeeds or not, leaves in the file. -/
def startFile (cfg : DhcpV4Config) (env : StartEnv) (leftover : Leftover)
    (file : StringMap Lease) : StringMap Lease :=
  match parseLeaseTime cfg.leaseTime, env.file with
  | some _, some leases => reserveFile env.flushed leftover 0 cfg.staticLeases leases
  | _, _ => file

/-- What a packet leaves in the file: only a grant or a release writes it. -/
def packetFile (cfg : ServerConfig) (env : Env) (st : ServerState) (msg : Packet)
    (leftover : Leftover) (file : StringMap Lease) : StringMap Lease :=
  if (createdLease cfg env msg).isSome ∨ (releasedLease st msg).isSome then
    writtenFile env.flushed leftover file (handlePacket U cfg env st msg).1.pool.leases.leases
  else file

theorem writtenFile_keyed {flushed : Bool} {leftover : Leftover} {file leases : StringMap Lease}
    (hfile : Keyed ⟨file⟩) (hleases : Keyed ⟨leases⟩) :
    Keyed ⟨writtenFile flushed leftover file leases⟩ := by
  unfold writtenFile
  split
  · exact hleases
  · cases leftover with
    | untouched => exact hfile
    | torn => exact keyed_empty

theorem reserveFile_keyed {flushed : Nat → Bool} {leftover : Leftover} {i : Nat}
    {statics : List StaticLease} {file : StringMap Lease} (h : Keyed ⟨file⟩) :
    Keyed ⟨reserveFile flushed leftover i statics file⟩ := by
  induction statics generalizing i file with
  | nil => exact h
  | cons s rest ih =>
      unfold reserveFile
      split
      · exact h
      · rename_i mac _
        have hleases := h.insert (staticLease mac s)
        dsimp only
        split
        · exact ih hleases
        · exact writtenFile_keyed h hleases

/-! ### Runs over starts and packets -/

/-- A server that runs, with the configuration it was started with. -/
structure Server where
  config : DhcpV4Config
  params : ServerConfig
  state : ServerState

/-- The machine: its lease file, its clock and the server, if one runs. -/
structure Machine where
  file : StringMap Lease
  server : Option Server
  now : Nat

inductive MachineEvent where
  | start (cfg : DhcpV4Config) (env : StartEnv) (hosts : DynamicHosts) (leftover : Leftover)
  | packet (env : Env) (msg : Packet) (leftover : Leftover)

/-- A start ends the server that ran before, and may fail. -/
def Machine.afterStart (m : Machine) (cfg : DhcpV4Config) (env : StartEnv)
    (hosts : DynamicHosts) (leftover : Leftover) : Machine where
  file := startFile cfg env leftover m.file
  server :=
    match (serve U cfg env hosts).2 with
    | .ok (params, state) => some ⟨cfg, params, state⟩
    | .error _ => none
  now := env.unix

def Machine.afterPacket (m : Machine) (server : Server) (env : Env) (msg : Packet)
    (leftover : Leftover) : Machine where
  file := packetFile U server.params env server.state msg leftover m.file
  server := some { server with state := (handlePacket U server.params env server.state msg).1 }
  now := env.unix

inductive MachineStep : Machine → MachineEvent → Machine → Prop where
  | start (m : Machine) (cfg : DhcpV4Config) (env : StartEnv) (hosts : DynamicHosts)
      (leftover : Leftover) :
      m.now ≤ env.unix → env.file = some m.file ∨ env.file = none →
      MachineStep m (.start cfg env hosts leftover) (m.afterStart U cfg env hosts leftover)
  | packet (m : Machine) (server : Server) (env : Env) (msg : Packet) (leftover : Leftover) :
      m.server = some server → m.now ≤ env.unix →
      env.order.Perm (server.state.pool.leases.leases.entries.map (fun entry => entry.2)) →
      MachineStep m (.packet env msg leftover) (m.afterPacket U server env msg leftover)

/-- The condition on a step: of a start that goes through, that its reservations
fit the file; of a packet, the one above. -/
def ReservationGuard (m : Machine) : MachineEvent → Prop
  | .start cfg env hosts _ => ∀ started, (serve U cfg env hosts).2 = .ok started →
      ReservationsFit env.unix (staticLeases cfg) ⟨m.file⟩
  | .packet env msg _ => ∀ server, m.server = some server →
      ReservationsKept (staticLeases server.config) server.params env server.state msg

/-- The file and the server's store keep leases under their own keys. -/
structure MachineKeyed (m : Machine) : Prop where
  file : Keyed ⟨m.file⟩
  store : ∀ server, m.server = some server → Keyed server.state.pool.leases

/-- The server that runs, if one does, has its reservations right. -/
def ReservationsHold (m : Machine) : Prop :=
  ∀ server, m.server = some server →
    Reserved m.now (staticLeases server.config) server.state.pool.leases

variable {U}

theorem staticLeases_isStatic {cfg : DhcpV4Config} {r : Lease} (h : r ∈ staticLeases cfg) :
    r.isStatic = true := by
  obtain ⟨s, _, hs⟩ := List.mem_filterMap.mp h
  obtain ⟨mac, _, rfl⟩ := Option.map_eq_some_iff.mp hs
  rfl

/-- A server that starts fills its store from the machine's file. -/
private theorem serve_store {m : Machine} {cfg : DhcpV4Config} {env : StartEnv}
    {hosts : DynamicHosts} {params : ServerConfig} {state : ServerState}
    (hfile : env.file = some m.file ∨ env.file = none)
    (h : (serve U cfg env hosts).2 = .ok (params, state)) :
    state.pool.leases = (LeaseStore.mk m.file).insertAll (staticLeases cfg) := by
  rcases hserve : serve U cfg env hosts with ⟨hosts', result⟩
  rw [hserve] at h
  subst h
  obtain ⟨_, leases, _, hleases, _, _, hstore, _⟩ := serve_ok U hserve
  rcases hfile with hfile | hfile
  · rw [hfile, Option.some.injEq] at hleases
    rw [hstore, hleases]
  · rw [hfile] at hleases
    cases hleases

private theorem startFile_keyed {cfg : DhcpV4Config} {env : StartEnv} {leftover : Leftover}
    {file : StringMap Lease} (hfile : env.file = some file ∨ env.file = none)
    (h : Keyed ⟨file⟩) : Keyed ⟨startFile cfg env leftover file⟩ := by
  unfold startFile
  split
  · rename_i leases _ hleases
    rcases hfile with hfile | hfile
    · rw [hfile, Option.some.injEq] at hleases
      rw [← hleases]
      exact reserveFile_keyed h
    · rw [hfile] at hleases
      cases hleases
  · exact h

theorem machineStep_keyed {m m' : Machine} {e : MachineEvent} (h : MachineKeyed m)
    (hstep : MachineStep U m e m') : MachineKeyed m' := by
  cases hstep with
  | start cfg env hosts leftover _ hfile =>
      have hleft : Keyed ⟨(m.afterStart U cfg env hosts leftover).file⟩ := by
        unfold Machine.afterStart
        dsimp only
        exact startFile_keyed hfile h.file
      refine ⟨hleft, ?_⟩
      intro server hserver
      unfold Machine.afterStart at hserver
      dsimp only at hserver
      split at hserver
      · rename_i params state hserve
        cases hserver
        rw [serve_store hfile hserve]
        exact h.file.insertAll (staticLeases cfg)
      · cases hserver
  | packet server env msg leftover hserver _ _ =>
      have hkeyed := handlePacket_keyed U server.params env msg
        (h.store server hserver)
      refine ⟨?_, ?_⟩
      · unfold Machine.afterPacket packetFile
        dsimp only
        split
        · exact writtenFile_keyed h.file hkeyed
        · exact h.file
      · intro server' hserver'
        cases hserver'
        exact hkeyed

/-- A step leaves the reservations right exactly when it meets the condition. -/
theorem machineStep_hold_iff {m m' : Machine} {e : MachineEvent} (hkeyed : MachineKeyed m)
    (h : ReservationsHold m) (hstep : MachineStep U m e m') :
    ReservationsHold m' ↔ ReservationGuard U m e := by
  cases hstep with
  | start cfg env hosts leftover _ hfile =>
      have hiff : ReservationsFit env.unix (staticLeases cfg) ⟨m.file⟩ ↔ Reserved env.unix
          (staticLeases cfg) ((LeaseStore.mk m.file).insertAll (staticLeases cfg)) :=
        (reserved_insertAll_iff hkeyed.file fun r hr => staticLeases_isStatic hr).symm
      unfold ReservationsHold ReservationGuard Machine.afterStart
      dsimp only
      rw [hiff]
      cases hserve : (serve U cfg env hosts).2 with
      | error e => simp
      | ok started =>
          obtain ⟨params, state⟩ := started
          simp [serve_store hfile hserve]
  | packet server env msg leftover hserver htime _ =>
      have hreserved := (h server hserver).later htime
      have hiff := handlePacket_reserved_iff U server.params msg
        (hkeyed.store server hserver) hreserved
      unfold ReservationsHold ReservationGuard Machine.afterPacket
      simp [hserver, hiff]

/-- In a run of starts and packets that all meet the condition the running
server always has its reservations right, now and later. -/
theorem reservations_permanent {file : StringMap Lease} {now : Nat} (hfile : Keyed ⟨file⟩)
    {es : List MachineEvent} {m : Machine}
    (run : Steps (guarded (MachineStep U) (ReservationGuard U)) ⟨file, none, now⟩ es m) :
    ∀ server, m.server = some server → ∀ later, m.now ≤ later →
      Reserved later (staticLeases server.config) server.state.pool.leases := by
  have hkeyed : MachineKeyed ⟨file, none, now⟩ := by
    refine ⟨hfile, ?_⟩
    intro server hserver
    cases hserver
  have hstart : ReservationsHold ⟨file, none, now⟩ := by
    intro server hserver
    cases hserver
  have hhold : MachineKeyed m ∧ ReservationsHold m := by
    refine @Steps.invariant _ _ _ (fun m => MachineKeyed m ∧ ReservationsHold m) _ _ _ run
      ⟨hkeyed, hstart⟩ ?_
    rintro t e u ⟨ht, ht'⟩ ⟨hstep, hguard⟩
    exact ⟨machineStep_keyed ht hstep, (machineStep_hold_iff ht ht' hstep).mpr hguard⟩
  intro server hserver later hle
  exact (hhold.2 server hserver).later hle

/-! ### A reserved client asks for its address -/

/-- The small pool with 10.0.0.10 reserved for the client that ends in 1. -/
def reservingConfig : DhcpV4Config :=
  { smallConfig with
    staticLeases := [{ mac := "02:00:00:00:00:01", ip := 0x0a00000a }] }

private def reservation : Lease where
  mac := clientMac 1
  ip := 0x0a00000a
  hostname := none
  expiresAt := 2 ^ 64 - 1
  isStatic := true

private theorem reservingConfig_staticLeases : staticLeases reservingConfig = [reservation] := by
  rfl

private def newMachine : Machine := ⟨∅, none, 0⟩

private def reservingServer : Server where
  config := reservingConfig
  params := smallPool
  state := { pool := { offered := [], leases := ⟨(∅ : StringMap Lease).insert
    (macKey reservation.mac) reservation⟩ }, hosts := {} }

private def startEvent : MachineEvent := .start reservingConfig firstStart {} .untouched

private def startedMachine : Machine :=
  newMachine.afterStart asciiTables reservingConfig firstStart {} .untouched

private theorem startedMachine_server : startedMachine.server = some reservingServer := by
  rfl

private theorem start_step : MachineStep asciiTables newMachine startEvent startedMachine :=
  .start _ _ _ _ _ (Nat.le_refl 0) (Or.inl rfl)

private def requestEvent (last : UInt8) (ip : Ipv4Addr) : MachineEvent :=
  .packet (quietEnv 100 [reservation]) (requestFrom last ip) .untouched

private def requestedMachine (last : UInt8) (ip : Ipv4Addr) : Machine :=
  startedMachine.afterPacket asciiTables reservingServer (quietEnv 100 [reservation])
    (requestFrom last ip) .untouched

private theorem request_step (last : UInt8) (ip : Ipv4Addr) :
    MachineStep asciiTables startedMachine (requestEvent last ip) (requestedMachine last ip) :=
  .packet _ _ _ _ _ startedMachine_server (Nat.zero_le 100) (List.Perm.refl _)

private def requestedServer (last : UInt8) (ip : Ipv4Addr) : Server :=
  { reservingServer with
    state := (handlePacket asciiTables smallPool (quietEnv 100 [reservation])
      reservingServer.state (requestFrom last ip)).1 }

private theorem requestedMachine_server (last : UInt8) (ip : Ipv4Addr) :
    (requestedMachine last ip).server = some (requestedServer last ip) := rfl

theorem reservations_permanent_other_client :
    ∃ m server, Steps (guarded (MachineStep asciiTables) (ReservationGuard asciiTables))
        ⟨∅, none, 0⟩ [startEvent, requestEvent 2 0x0a00000b] m ∧ m.server = some server ∧
      Reserved 5000 (staticLeases server.config) server.state.pool.leases := by
  have hfit : ReservationGuard asciiTables newMachine startEvent := by
    intro started _
    rw [reservingConfig_staticLeases]
    refine ⟨by simp, by simp, ?_, ?_⟩
    · intro key lease hlookup
      simp [newMachine] at hlookup
    · intro key lease hlookup
      simp [newMachine] at hlookup
  have hkept : ReservationGuard asciiTables startedMachine (requestEvent 2 0x0a00000b) := by
    intro server hserver
    rw [startedMachine_server, Option.some.injEq] at hserver
    subst hserver
    refine ⟨?_, ?_⟩
    · intro lease hlease r hr
      cases hlease
      rw [reservingServer, reservingConfig_staticLeases, List.mem_singleton] at hr
      subst hr
      exact ⟨by decide, Or.inr (by decide)⟩
    · intro key lease hreleased
      cases hreleased
  have first : Steps (guarded (MachineStep asciiTables) (ReservationGuard asciiTables))
      newMachine [startEvent] startedMachine := Steps.single ⟨start_step, hfit⟩
  have run := first.next ⟨request_step 2 0x0a00000b, hkept⟩
  have hserver := requestedMachine_server 2 0x0a00000b
  have htime : (requestedMachine 2 0x0a00000b).now ≤ 5000 := by
    change 100 ≤ 5000
    omega
  exact ⟨requestedMachine 2 0x0a00000b, requestedServer 2 0x0a00000b, run, hserver,
    reservations_permanent keyed_empty run _ hserver 5000 htime⟩

/-- The grant of its own address makes the client's reservation an ordinary
lease. -/
theorem reservation_lost_on_request :
    ¬ ∀ (U : UnicodeTables) (file : StringMap Lease) (now : Nat) (es : List MachineEvent)
      (m : Machine), Keyed ⟨file⟩ → Steps (MachineStep U) ⟨file, none, now⟩ es m →
      ∀ server, m.server = some server →
        Reserved m.now (staticLeases server.config) server.state.pool.leases := by
  intro h
  have hreserved := h asciiTables ∅ 0 _ _ keyed_empty
    ((Steps.single start_step).next (request_step 1 0x0a00000a)) _
    (requestedMachine_server 1 0x0a00000a)
  have hmem : reservation ∈ staticLeases (requestedServer 1 0x0a00000a).config := by
    rw [requestedServer, reservingServer, reservingConfig_staticLeases]
    exact List.mem_singleton_self _
  obtain ⟨key, lease, hlookup, hstatic, hmac, _⟩ :=
    (hreserved.exact reservation.mac reservation.ip).mpr ⟨reservation, hmem, rfl, rfl⟩
  have hkeyed : Keyed (handlePacket asciiTables smallPool (quietEnv 100 [reservation])
      reservingServer.state (requestFrom 1 0x0a00000a)).1.pool.leases :=
    handlePacket_keyed asciiTables _ _ _ (keyed_empty.insert reservation)
  have hkey : key = "02:00:00:00:00:01" := by
    rw [hkeyed key lease hlookup, hmac]
    rfl
  subst hkey
  cases hlookup
  cases hstatic

end Relay.Dhcp.V4
