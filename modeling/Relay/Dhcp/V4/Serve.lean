import Relay.Config.Types
import Relay.Dhcp.V4.Server

/-!
`serve` of `dhcp/v4/server.rs` up to its packet loop: the lease file is loaded,
the static leases of the configuration go into the store, and what is active
gets its names.
-/

namespace Relay.Dhcp.V4

open Dns Text

/-- `parse_lease_time`, in seconds; the products are those of `u64`. -/
def parseLeaseTime (s : String) : Option Nat :=
  let s := trim s
  let largest := 2 ^ 64 - 1
  match stripSuffixChar 'h' s with
  | some h => (parseUnsigned largest h).map (fun n => n * 3600 % 2 ^ 64)
  | none =>
      match stripSuffixChar 'm' s with
      | some m => (parseUnsigned largest m).map (fun n => n * 60 % 2 ^ 64)
      | none =>
          match stripSuffixChar 's' s with
          | some sec => parseUnsigned largest sec
          | none => parseUnsigned largest s

def parseMac (s : String) : Option Mac := do
  let parts ← (splitChar ':' s).mapM (fun x => (fromHex 255 x).map UInt8.ofNat)
  if h : parts.length = 6 then some ⟨parts.toArray, by simpa using h⟩ else none

/-- Why the server does not start. -/
inductive ServeError where
  | leaseTime (s : String)
  | leaseFile
  | mac (s : String)
  | notWritten
  | socket
  deriving DecidableEq, Repr

/-- What a start reads of the world around it. -/
structure StartEnv where
  /-- The time at which it asks which leases are active. -/
  unix : Nat
  /-- What the lease file decodes to: the empty map when there is no file or
  no map in it, `none` when it cannot be read. -/
  file : Option (StringMap Lease)
  /-- Whether the write after the `i`-th static lease succeeds. -/
  flushed : Nat → Bool
  /-- The leases in the order in which the filled map iterates over them. -/
  order : List Lease
  /-- The socket is made and bound. -/
  bound : Bool

/-- The lease of an entry of `static_leases`. -/
def staticLease (mac : Mac) (s : StaticLease) : Lease where
  mac := mac
  ip := s.ip
  hostname := s.hostname
  expiresAt := 2 ^ 64 - 1
  isStatic := true

/-- What `serve` fills before it binds its socket. -/
structure Boot where
  store : LeaseStore
  hosts : DynamicHosts

variable (U : UnicodeTables)

/-- A lease with a hostname gives its address that name. -/
def registerLease (hosts : DynamicHosts) (lease : Lease) : DynamicHosts :=
  match lease.hostname with
  | some hn => hosts.insert U hn (.v4 lease.ip)
  | none => hosts

/-- A released lease's hostname names nothing. -/
def unregisterLease (hosts : DynamicHosts) (lease : Lease) : DynamicHosts :=
  match lease.hostname with
  | some hn => hosts.remove U hn
  | none => hosts

/-- The loop over `static_leases`, from the `i`-th write on. A lease is in the
store before its write, and is registered after it. -/
def reserve (flushed : Nat → Bool) : Nat → List StaticLease → Boot →
    Boot × Except ServeError Unit
  | _, [], boot => (boot, .ok ())
  | i, s :: rest, boot =>
      match parseMac s.mac with
      | none => (boot, .error (.mac s.mac))
      | some mac =>
          let lease := staticLease mac s
          let (store, written) := boot.store.insert lease (flushed i)
          match written with
          | .error _ => ({ boot with store := store }, .error .notWritten)
          | .ok () =>
              reserve flushed (i + 1) rest
                { store := store, hosts := registerLease U boot.hosts lease }

/-- `store.all_active().filter(|l| !l.is_static)`. -/
def activeDynamic (order : List Lease) (unix : Nat) : List Lease :=
  order.filter (fun lease => !lease.isExpired unix && !lease.isStatic)

def serverConfig (cfg : DhcpV4Config) (leaseDuration : Nat) : ServerConfig where
  pool := {
    start := cfg.range.1
    finish := cfg.range.2
    leaseDuration := leaseDuration
    arpProbe := cfg.arpProbe }
  serverIp := cfg.gateway
  subnet := cfg.subnet
  dnsServers := cfg.dns
  domain := cfg.domain

/-- `serve` until its loop: the names it has registered by then, and the state
it serves packets from. -/
def serve (cfg : DhcpV4Config) (env : StartEnv) (hosts : DynamicHosts) :
    DynamicHosts × Except ServeError (ServerConfig × ServerState) :=
  match parseLeaseTime cfg.leaseTime with
  | none => (hosts, .error (.leaseTime cfg.leaseTime))
  | some leaseDuration =>
      match env.file with
      | none => (hosts, .error .leaseFile)
      | some leases =>
          match reserve U env.flushed 0 cfg.staticLeases ⟨⟨leases⟩, hosts⟩ with
          | (boot, .error e) => (boot.hosts, .error e)
          | (boot, .ok ()) =>
              let hosts := (activeDynamic env.order env.unix).foldl (registerLease U) boot.hosts
              if env.bound then
                (hosts, .ok (serverConfig cfg leaseDuration,
                  { pool := { offered := [], leases := boot.store }, hosts := hosts }))
              else (hosts, .error .socket)

/-- The leases of `static_leases`, in order. -/
def staticLeases (cfg : DhcpV4Config) : List Lease :=
  cfg.staticLeases.filterMap (fun s => (parseMac s.mac).map (fun mac => staticLease mac s))

/-- Putting leases into the store one after another. -/
def LeaseStore.insertAll (store : LeaseStore) (leases : List Lease) : LeaseStore :=
  leases.foldl (fun store lease => ⟨store.leases.insert (macKey lease.mac) lease⟩) store

/-- The loop ends well only after it has stored and registered every static
lease. -/
theorem reserve_ok {flushed : Nat → Bool} {i : Nat} {statics : List StaticLease}
    {boot boot' : Boot} (h : reserve U flushed i statics boot = (boot', .ok ())) :
    let leases := statics.filterMap (fun s => (parseMac s.mac).map (fun mac => staticLease mac s))
    boot'.store = boot.store.insertAll leases ∧
      boot'.hosts = leases.foldl (registerLease U) boot.hosts := by
  induction statics generalizing i boot with
  | nil =>
      simp only [reserve, Prod.mk.injEq, and_true] at h
      subst h
      exact ⟨rfl, rfl⟩
  | cons s rest ih =>
      simp only [reserve] at h
      split at h
      · simp at h
      · rename_i mac hmac
        simp only [LeaseStore.insert, flush] at h
        split at h
        · simp at h
        · obtain ⟨hstore, hhosts⟩ := ih h
          simp only [List.filterMap_cons, hmac, Option.map_some]
          exact ⟨hstore, hhosts⟩

/-- What a server that has started was built from. -/
theorem serve_ok {cfg : DhcpV4Config} {env : StartEnv} {hosts hosts' : DynamicHosts}
    {scfg : ServerConfig} {st : ServerState}
    (h : serve U cfg env hosts = (hosts', .ok (scfg, st))) :
    ∃ leaseDuration leases, parseLeaseTime cfg.leaseTime = some leaseDuration ∧
      env.file = some leases ∧ scfg = serverConfig cfg leaseDuration ∧
      st.pool.offered = [] ∧
      st.pool.leases = (LeaseStore.mk leases).insertAll (staticLeases cfg) ∧
      st.hosts = (staticLeases cfg ++ activeDynamic env.order env.unix).foldl
        (registerLease U) hosts := by
  unfold serve at h
  split at h
  · simp at h
  · rename_i leaseDuration hduration
    split at h
    · simp at h
    · rename_i leases hfile
      split at h
      · simp at h
      · rename_i boot hreserve
        obtain ⟨hstore, hhosts⟩ := reserve_ok U hreserve
        dsimp only at h
        split at h
        · simp only [Prod.mk.injEq, Except.ok.injEq] at h
          obtain ⟨_, rfl, rfl⟩ := h
          refine ⟨leaseDuration, leases, hduration, hfile, rfl, rfl, hstore, ?_⟩
          rw [List.foldl_append]
          exact congrArg (List.foldl (registerLease U) · _) hhosts
        · simp at h

end Relay.Dhcp.V4
