import Relay.Dhcp.V4.Pool

/-!
`handle_packet` of `dhcp/v4/server.rs` with the replies it builds. A packet is
what `dhcproto` decodes; a packet that does not decode touches nothing.
-/

namespace Relay.Dhcp.V4

open Binary Dns

inductive MessageType where
  | discover
  | offer
  | request
  | decline
  | ack
  | nak
  | release
  | inform
  | other (code : UInt8)
  deriving DecidableEq, Repr

/-- The fields of a decoded packet that the server reads. -/
structure Packet where
  msgType : Option MessageType
  chaddr : Bytes
  hostname : Option String := none
  requestedIp : Option Ipv4Addr := none
  serverId : Option Ipv4Addr := none
  ciaddr : Ipv4Addr := 0
  giaddr : Ipv4Addr := 0
  xid : BitVec 32 := 0
  flags : BitVec 16 := 0
  htype : UInt8 := 1

/-- The parameters `serve` passes to every packet's task. -/
structure ServerConfig where
  pool : AddressPool
  serverIp : Ipv4Addr
  subnet : Ipv4Addr
  dnsServers : List Ipv4Addr
  domain : Option String

structure ServerState where
  pool : PoolState
  hosts : DynamicHosts

/-- The lease times of a reply, absent from a NAK. -/
structure ReplyOptions where
  subnetMask : Ipv4Addr
  router : List Ipv4Addr
  dns : List Ipv4Addr
  leaseTime : BitVec 32
  renewal : BitVec 32
  rebinding : BitVec 32
  domainName : Option String
  deriving DecidableEq, Repr

inductive Opcode where
  | bootRequest
  | bootReply
  deriving DecidableEq, Repr

structure Reply where
  opcode : Opcode
  msgType : MessageType
  htype : UInt8
  xid : BitVec 32
  flags : BitVec 16
  giaddr : Ipv4Addr
  chaddr : Bytes
  yiaddr : Ipv4Addr
  siaddr : Ipv4Addr
  serverId : Ipv4Addr
  options : Option ReplyOptions
  deriving DecidableEq, Repr

/-- `build_reply`. The divisions are those of `u32`; `lease_secs * 7` wraps. -/
def buildReply (cfg : ServerConfig) (req : Packet) (msgType : MessageType) (yourIp : Ipv4Addr) :
    Reply where
  opcode := .bootReply
  msgType := msgType
  htype := req.htype
  xid := req.xid
  flags := req.flags
  giaddr := req.giaddr
  chaddr := req.chaddr
  yiaddr := yourIp
  siaddr := cfg.serverIp
  serverId := cfg.serverIp
  options := some {
    subnetMask := cfg.subnet
    router := [cfg.serverIp]
    dns := cfg.dnsServers
    leaseTime := cfg.pool.leaseSeconds
    renewal := cfg.pool.leaseSeconds / 2
    rebinding := cfg.pool.leaseSeconds * 7 / 8
    domainName := cfg.domain }

/-- `build_nak`: what it does not set keeps the value of `Message::default()`. -/
def buildNak (cfg : ServerConfig) (req : Packet) : Reply where
  opcode := .bootReply
  msgType := .nak
  htype := req.htype
  xid := req.xid
  flags := 0
  giaddr := 0
  chaddr := req.chaddr
  yiaddr := 0
  siaddr := 0
  serverId := cfg.serverIp
  options := none

/-- Where `send_reply` sends: the relay agent, the client, or everyone. -/
def replyAddress (req : Packet) : Ipv4Addr × Nat :=
  if req.giaddr ≠ 0 then (req.giaddr, 67)
  else if req.ciaddr ≠ 0 then (req.ciaddr, 68)
  else (0xffffffff, 68)

/-- `msg.chaddr()[..6]`; a shorter address ends the task. -/
def macOf (chaddr : Bytes) : Option Mac :=
  if h : (chaddr.take 6).length = 6 then some ⟨(chaddr.take 6).toArray, by simpa using h⟩ else none

/-- A REQUEST that names another server is ignored. -/
def Packet.isForServer (req : Packet) (serverIp : Ipv4Addr) : Bool :=
  match req.serverId with
  | some sid => decide (sid = serverIp)
  | none => true

/-- The address a REQUEST asks for: the option, else `ciaddr`. -/
def Packet.requestAddress (req : Packet) : Ipv4Addr := req.requestedIp.getD req.ciaddr

variable (U : UnicodeTables)

/-- `handle_packet`: the state after the packet and the reply it sends. -/
def handlePacket (cfg : ServerConfig) (env : Env) (st : ServerState) (msg : Packet) :
    ServerState × Option (Reply × (Ipv4Addr × Nat)) :=
  match msg.msgType, macOf msg.chaddr with
  | some .discover, some mac =>
      let (pool, found) := cfg.pool.allocate env st.pool mac msg.requestedIp
      match found with
      | some ip =>
          ({ st with pool := pool.offer env ip },
            some (buildReply cfg msg .offer ip, replyAddress msg))
      | none => ({ st with pool := pool }, none)
  | some .request, some mac =>
      if msg.isForServer cfg.serverIp then
        let (pool, confirmed) :=
          cfg.pool.confirm env st.pool mac msg.requestAddress msg.hostname
        match confirmed with
        | .ok lease =>
            let hosts := match lease.hostname with
              | some hn => st.hosts.insert U hn (.v4 lease.ip)
              | none => st.hosts
            ({ pool := pool, hosts := hosts },
              some (buildReply cfg msg .ack lease.ip, replyAddress msg))
        | .error _ => ({ st with pool := pool }, some (buildNak cfg msg, replyAddress msg))
      else (st, none)
  | some .release, some mac =>
      let (pool, released) := st.pool.release env mac
      let hosts := match released with
        | .ok (some lease) =>
            match lease.hostname with
            | some hn => st.hosts.remove U hn
            | none => st.hosts
        | _ => st.hosts
      ({ pool := pool, hosts := hosts }, none)
  | some .inform, some _ =>
      (st, some (buildReply cfg msg .ack msg.ciaddr, replyAddress msg))
  | _, _ => (st, none)

end Relay.Dhcp.V4
