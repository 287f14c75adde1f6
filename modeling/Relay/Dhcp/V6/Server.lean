import Relay.Dhcp.V6.Pool

/-!
`dhcp/v6/server.rs`: the start of the server, and `handle_packet` with the
replies it builds. A packet is what `dhcproto` decodes.
-/

namespace Relay.Dhcp.V6

open Binary Dns Text V4

inductive MessageType where
  | solicit
  | request
  | renew
  | release
  | informationRequest
  | other (code : UInt8)
  deriving DecidableEq, Repr

/-- The fields of a decoded packet that the server reads. -/
structure Packet where
  msgType : MessageType
  xid : BitVec 24
  clientId : Option Duid
  /-- The first address in the first IA_NA. -/
  requested : Option Ipv6Addr

/-- The parameters `serve` passes to every packet's task. -/
structure ServerConfig where
  mode : DhcpV6Mode
  dnsServers : List Ipv6Addr
  domain : Option String
  /-- `lease_duration.as_secs() as u32`. -/
  leaseSecs : BitVec 32

structure ServerState where
  pool : Option V6Pool
  hosts : DynamicHosts

/-- An IA_NA with its one address. -/
structure Iana where
  id : BitVec 32
  t1 : BitVec 32
  t2 : BitVec 32
  addr : Ipv6Addr
  preferredLife : BitVec 32
  validLife : BitVec 32
  deriving DecidableEq, Repr

structure Reply where
  xid : BitVec 24
  clientId : Option Duid
  serverId : Bytes
  iana : Option Iana
  dns : List Ipv6Addr
  deriving DecidableEq, Repr

/-- The server's placeholder DUID. -/
def serverDuid : Bytes := [0x00, 0x03, 0x00, 0x01, 0xde, 0xad, 0xbe, 0xef, 0xca, 0xfe]

/-- `build_reply`. The divisions are those of `u32`; `lease_secs * 7` wraps. -/
def buildReply (xid : BitVec 24) (clientId : Option Duid) (ip : Option Ipv6Addr)
    (dns : List Ipv6Addr) (leaseSecs : BitVec 32) : Reply where
  xid := xid
  clientId := clientId
  serverId := serverDuid
  iana := ip.map (fun addr => {
    id := 1
    t1 := leaseSecs / 2
    t2 := leaseSecs * 7 / 8
    addr := addr
    preferredLife := leaseSecs
    validLife := leaseSecs })
  dns := dns

/-- What a step reads of the world around it. -/
structure Env where
  unix : Nat
  flushed : Bool

variable (U : UnicodeTables)

/-- A REQUEST or RENEW of a stateful server. The address is allocated also when
the client names one. -/
def handleRequest (cfg : ServerConfig) (env : Env) (st : ServerState) (pool : V6Pool)
    (duid : Duid) (msg : Packet) : ServerState × Option Reply :=
  let (pool, allocated) := pool.allocate env.unix duid
  match msg.requested.or allocated with
  | none => ({ st with pool := some pool }, none)
  | some ip =>
      let (pool, confirmed) := pool.confirm env.unix duid ip none env.flushed
      match confirmed with
      | .ok lease =>
          let hosts := match lease.hostname with
            | some hn => st.hosts.insert U hn (.v6 lease.ip)
            | none => st.hosts
          ({ pool := some pool, hosts := hosts },
            some (buildReply msg.xid (some duid) (some ip) cfg.dnsServers cfg.leaseSecs))
      | .error _ => ({ st with pool := some pool }, none)

/-- `handle_packet`: the state after the packet and the reply it sends. -/
def handlePacket (cfg : ServerConfig) (env : Env) (st : ServerState) (msg : Packet) :
    ServerState × Option Reply :=
  match msg.msgType with
  | .informationRequest =>
      (st, some (buildReply msg.xid msg.clientId none cfg.dnsServers 0))
  | .solicit =>
      if cfg.mode = .stateful then
        match st.pool, msg.clientId with
        | some pool, some duid =>
            let (pool, allocated) := pool.allocate env.unix duid
            ({ st with pool := some pool },
              allocated.map (fun ip =>
                buildReply msg.xid (some duid) (some ip) cfg.dnsServers cfg.leaseSecs))
        | _, _ => (st, none)
      else (st, none)
  | .request | .renew =>
      if cfg.mode = .stateful then
        match st.pool, msg.clientId with
        | some pool, some duid => handleRequest U cfg env st pool duid msg
        | _, _ => (st, none)
      else (st, none)
  | .release =>
      if cfg.mode = .stateful then
        match st.pool, msg.clientId with
        | some pool, some duid => ({ st with pool := some (pool.release duid env.flushed).1 }, none)
        | _, _ => (st, none)
      else (st, none)
  | .other _ => (st, none)

/-! ### The start -/

inductive ServeError where
  | leaseTime (s : String)
  | leaseFile
  | netPrefix (s : String)
  | socket
  deriving DecidableEq, Repr

/-- What a start reads of the world around it. -/
structure StartEnv where
  unix : Nat
  /-- What the lease file decodes to: the empty map when there is no file or
  no map in it, `none` when it cannot be read. -/
  file : Option (StringMap V6Lease)
  /-- The leases in the order in which the loaded map iterates over them. -/
  order : List V6Lease
  /-- The socket is bound and has joined its group. -/
  bound : Bool

/-- Active leases with a hostname get their name. -/
def registerActive (hosts : DynamicHosts) (order : List V6Lease) (unix : Nat) : DynamicHosts :=
  (order.filter (fun lease => !lease.isExpired unix)).foldl
    (fun hosts lease =>
      match lease.hostname with
      | some hn => hosts.insert U hn (.v6 lease.ip)
      | none => hosts)
    hosts

/-- `fd00::`, the prefix without one in the configuration. -/
def defaultPrefix : Ipv6Addr := 0xfd00 <<< 112

/-- The prefix of the configuration, or `fd00::/64`. -/
def prefixOf (T : NetText) (cfg : DhcpV6Config) : Except ServeError (Ipv6Addr × UInt8) :=
  match cfg.netPrefix with
  | none => .ok (defaultPrefix, 64)
  | some s =>
      match parseV6Prefix T s with
      | some parsed => .ok parsed
      | none => .error (.netPrefix s)

/-- The pool of a stateful server, with the names it registers. -/
def statefulPool (T : NetText) (cfg : DhcpV6Config) (env : StartEnv) (hosts : DynamicHosts)
    (leaseDuration : Nat) : DynamicHosts × Except ServeError V6Pool :=
  match env.file with
  | none => (hosts, .error .leaseFile)
  | some leases =>
      (registerActive U hosts env.order env.unix,
        (prefixOf T cfg).map (fun p => V6Pool.new p.1 p.2 leaseDuration ⟨leases⟩))

def serverConfig (cfg : DhcpV6Config) (leaseDuration : Nat) : ServerConfig where
  mode := cfg.mode
  dnsServers := cfg.dns
  domain := cfg.domain
  leaseSecs := BitVec.ofNat 32 leaseDuration

/-- `serve` until its loop: the names it has registered by then, and the state
it serves packets from. -/
def serve (T : NetText) (cfg : DhcpV6Config) (env : StartEnv) (hosts : DynamicHosts) :
    DynamicHosts × Except ServeError (ServerConfig × ServerState) :=
  match parseLeaseTime cfg.leaseTime with
  | none => (hosts, .error (.leaseTime cfg.leaseTime))
  | some leaseDuration =>
      let (hosts, pool) :=
        if cfg.mode = .stateful then
          let (hosts, pool) := statefulPool U T cfg env hosts leaseDuration
          (hosts, pool.map some)
        else (hosts, .ok none)
      match pool with
      | .error e => (hosts, .error e)
      | .ok pool =>
          if env.bound then
            (hosts, .ok (serverConfig cfg leaseDuration, { pool := pool, hosts := hosts }))
          else (hosts, .error .socket)

end Relay.Dhcp.V6
