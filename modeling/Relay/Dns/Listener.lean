import Relay.Binary.Stream
import Relay.Dns.Router
import Relay.Stats.Balance

/-!
`dns/listener.rs`: the UDP and TCP tasks that hand requests to the router and
report them to the statistics. A connection's requests are handled in turn;
connections and datagrams are handled side by side, on one router.
-/

namespace Relay.Dns

open Binary Upstream Stats

variable (H : HickoryCrate) (U : UnicodeTables) {F : Ruleset.FstCrate} {R : Ruleset.RegexCrate}
  {C : CacheCrate}

/-- What the handling of one request meets. -/
structure Meeting where
  env : Env
  /-- `Utc::now()`. -/
  time : Int
  latencyMs : F32
  /-- The time that was spent upstream, in milliseconds. -/
  upstreamLatencyMs : F32
  /-- What `Uuid::new_v4` would give. -/
  uuid : String

/-- The answers that are reported with the time spent upstream: those of a rule
that is not blocked, and those of the default upstream. -/
def ResolveMeta.isTimed (info : ResolveMeta) : Bool :=
  if info.rule.isSome then !info.blocked else info.upstream = "default" && !info.cached

def answeredEntry (peer : IpAddr) (m : Meeting) (info : ResolveMeta) : QueryEntry where
  id := ""
  time := m.time
  client := peer
  domain := info.domain
  qtype := info.qtype
  upstream := info.upstream
  originalUpstream := info.originalUpstream
  rcode := info.rcode
  latencyMs := m.latencyMs
  upstreamLatencyMs := if info.isTimed then some m.upstreamLatencyMs else none
  rule := info.rule
  cached := info.cached
  blocked := info.blocked

def failedEntry (peer : IpAddr) (m : Meeting) (request : Message) : QueryEntry where
  id := ""
  time := m.time
  client := peer
  domain := (request.queries.head?.map fun q => H.display q.name).getD ""
  qtype := (request.queries.head?.map fun q => qtypeName H U q.queryType).getD ""
  upstream := "error"
  originalUpstream := "error"
  rcode := "SERVFAIL"
  latencyMs := m.latencyMs
  upstreamLatencyMs := none
  rule := none
  cached := false
  blocked := false

/-- What is reported of a request that was resolved, or was not. A panic ends
the task before it reports anything. -/
def reportOf (peer : IpAddr) (m : Meeting) (request : Message) :
    Run QueryError (Message × ResolveMeta) → Option QueryEntry
  | .ok (_, info) => some (answeredEntry peer m info)
  | .error (.error _) => some (failedEntry H U peer m request)
  | .error .panic => none

/-- The bytes of the response. -/
def responseBytes : Run QueryError (Message × ResolveMeta) → Run QueryError Bytes
  | .ok (response, _) => encode H response
  | .error fault => .error fault

/-- `handle_request`, with the router after it and the entry it reports. -/
def handleRequest (router : Router F R C) (m : Meeting) (peer : IpAddr) (buf : Bytes) :
    Run QueryError Bytes × Router F R C × Option QueryEntry :=
  match H.fromBytes buf with
  | none => (fail .parse, router, none)
  | some request =>
      let (result, router) := router.resolveWithMeta H U m.env request
      (responseBytes H result, router, reportOf H U peer m request result)

/-! ### The tasks -/

/-- One TCP connection. -/
structure TcpConn where
  peer : SocketAddr
  received : Bytes := []
  /-- How many of the received bytes have been read. -/
  consumed : Nat := 0
  written : Bytes := []
  isOpen : Bool := true

/-- The tasks of one `AbortableDnsListener`. -/
structure DnsTasks (F : Ruleset.FstCrate) (R : Ruleset.RegexCrate) (C : CacheCrate) where
  router : Router F R C
  conns : Nat → Option TcpConn := fun _ => none
  /-- The datagrams handed to `send_to`. -/
  sent : List (SocketAddr × Bytes) := []
  /-- The calls of `record_query`, in the order in which they are made. -/
  calls : List Stats.Call := []

/-- The size of a datagram's buffer. -/
def UDP_BUFFER : Nat := 4096

/-- What happens to the tasks. The handling of a request is one step. -/
inductive TaskEvent (F : Ruleset.FstCrate) (R : Ruleset.RegexCrate) (C : CacheCrate) where
  | datagram (peer : SocketAddr) (bytes : Bytes) (m : Meeting)
  | accept (c : Nat) (peer : SocketAddr)
  | receive (c : Nat) (bytes : Bytes)
  /-- One turn of the loop of `handle_tcp_conn`; the peer takes all of the reply,
  or this many bytes of it. -/
  | turn (c : Nat) (m : Meeting) (cut : Option Nat)
  /-- The connection ends: by its peer, or because its task is aborted. -/
  | close (c : Nat)
  /-- The router as some other task leaves it, with its cache cleared, say. -/
  | shared (router : Router F R C)

def DnsTasks.setConn (tasks : DnsTasks F R C) (c : Nat) (conn : TcpConn) : DnsTasks F R C :=
  { tasks with conns := Function.update tasks.conns c (some conn) }

/-- What `handle_request` changes besides the connection. -/
def DnsTasks.handled (tasks : DnsTasks F R C) (router : Router F R C) (report : Option QueryEntry)
    (m : Meeting) : DnsTasks F R C :=
  { tasks with
    router := router
    calls := tasks.calls ++ (report.map fun entry => (⟨entry, m.uuid⟩ : Stats.Call)).toList }

/-- A message of no bytes ends the loop, and so does a request that fails. -/
def TcpConn.answer (conn : TcpConn) (msg : Bytes) (result : Run QueryError Bytes)
    (cut : Option Nat) : TcpConn :=
  let read := { conn with consumed := conn.consumed + (frame msg).length }
  match result, cut with
  | .ok reply, none => { read with written := conn.written ++ frame reply }
  | .ok reply, some n =>
      { read with written := conn.written ++ (frame reply).take n, isOpen := false }
  | .error _, _ => { read with isOpen := false }

/-- One event, where it can happen. -/
def DnsTasks.next (tasks : DnsTasks F R C) : TaskEvent F R C → Option (DnsTasks F R C)
  | .datagram peer bytes m =>
      let (result, router, report) :=
        handleRequest H U tasks.router m peer.ip (bytes.take UDP_BUFFER)
      let tasks := tasks.handled router report m
      match result with
      | .ok reply => some { tasks with sent := tasks.sent ++ [(peer, reply)] }
      | .error _ => some tasks
  | .accept c peer =>
      match tasks.conns c with
      | some _ => none
      | none => some (tasks.setConn c { peer := peer })
  | .receive c bytes => do
      let conn ← tasks.conns c
      some (tasks.setConn c { conn with received := conn.received ++ bytes })
  | .turn c m cut => do
      let conn ← tasks.conns c
      guard conn.isOpen
      let (msg, _) ← unframe (conn.received.drop conn.consumed)
      if msg = [] then some (tasks.setConn c { conn with isOpen := false })
      else
        let (result, router, report) := handleRequest H U tasks.router m conn.peer.ip msg
        some ((tasks.handled router report m).setConn c (conn.answer msg result cut))
  | .close c => do
      let conn ← tasks.conns c
      some (tasks.setConn c { conn with isOpen := false })
  | .shared router => some { tasks with router := router }

end Relay.Dns
