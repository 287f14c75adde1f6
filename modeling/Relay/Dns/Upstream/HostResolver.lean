import Relay.Config.Types
import Relay.Dns.Hosts

/-!
`dns/upstream/resolver.rs`: how the hosts of upstreams are resolved. The calls
share a cache, and each asks the default name servers in turn, for A and then
for AAAA records. They overlap between any two exchanges.
-/

namespace Relay.Dns.Upstream

open Binary

/-- `CACHE_TTL`, in nanoseconds of the monotone clock. -/
def hostCacheTtl : Nat := 300 * 10 ^ 9

/-- `CacheEntry`. -/
structure HostEntry where
  addrs : List IpAddr
  insertedAt : Nat

structure HostResolver where
  defaultNs : List SocketAddr

inductive HostError where
  | noNameserver
  | unresolved
  deriving DecidableEq, Repr

/-- The query of `query_record`; the rest of it is as `Message::new` makes it. -/
def hostQuery (name : Name) (rtype : RecordType) (id : BitVec 16) : Message :=
  { id := id, queries := [⟨name, rtype, 1⟩] }

/-- The addresses among the answers, whatever their names. -/
def answeredAddrs (response : Message) : List IpAddr :=
  response.answers.filterMap fun record =>
    match record.data with
    | some (.a addr) => some (.v4 addr)
    | some (.aaaa addr) => some (.v6 addr)
    | _ => none

variable (H : HickoryCrate)

/-- What `query_a_aaaa` makes of one exchange: a failed one, or one whose bytes
are no message, has no addresses. -/
def recordAddrs (datagram : Option Bytes) : List IpAddr :=
  match datagram.bind H.fromBytes with
  | some response => answeredAddrs response
  | none => []

inductive ResolvePhase where
  /-- The first of these servers is asked; `found` is what it has for A. -/
  | asking (name : Name) (servers : List SocketAddr) (found : Option (List IpAddr))
  | storing (addrs : List IpAddr)
  | resolved (addrs : List IpAddr) (now : Nat)
  | failed (e : HostError)
  | dropped

/-- A call of `resolve`. -/
structure ResolveTask where
  host : String
  phase : ResolvePhase

/-- What the calls share, the calls, and the queries they have made. -/
structure Resolving where
  cache : String → Option HostEntry := fun _ => none
  /-- `QUERY_ID`. -/
  queryId : BitVec 16 := 0
  tasks : List ResolveTask := []
  asked : List (SocketAddr × Message) := []

/-- An entry of the cache that is not too old. -/
def freshAddrs (entry : Option HostEntry) (now : Nat) : Option (List IpAddr) :=
  (entry.filter fun entry => decide (now - entry.insertedAt < hostCacheTtl)).map HostEntry.addrs

-- `fromAscii` is `Name::from_ascii`
variable (fromAscii : String → Option Name) (T : NetText) (r : HostResolver)

/-- `resolve` up to the first exchange. -/
def HostResolver.start (cache : String → Option HostEntry) (host : String) (now : Nat) :
    ResolvePhase :=
  match T.ipAddr host with
  | some ip => .resolved [ip] now
  | none =>
      match freshAddrs (cache host) now with
      | some addrs => .resolved addrs now
      | none =>
          if r.defaultNs = [] then .failed .noNameserver
          else
            match fromAscii host with
            | some name => .asking name r.defaultNs none
            | none => .failed .unresolved

/-- The exchange is done, and has brought these addresses. -/
def ResolvePhase.heard (addrs : List IpAddr) : ResolvePhase → ResolvePhase
  | .asking name servers none => .asking name servers (some addrs)
  | .asking name (_ :: rest) (some found) =>
      if found ++ addrs ≠ [] then .storing (found ++ addrs)
      else
        match rest with
        | [] => .failed .unresolved
        | ns :: rest => .asking name (ns :: rest) none
  | phase => phase

/-- The query that is under way. -/
def ResolvePhase.asks : ResolvePhase → Option (SocketAddr × Name × RecordType)
  | .asking name (ns :: _) none => some (ns, name, .a)
  | .asking name (ns :: _) (some _) => some (ns, name, .aaaa)
  | _ => none

/-- `query_record` takes an ID and sends its query. -/
def Resolving.ask (s : Resolving) (phase : ResolvePhase) : Resolving :=
  match phase.asks with
  | some (ns, name, rtype) =>
      { s with queryId := s.queryId + 1, asked := s.asked ++ [(ns, hostQuery name rtype s.queryId)] }
  | none => s

inductive ResolveEvent where
  | call (host : String) (now : Nat)
  /-- The `i`-th call's exchange ends, with a datagram unless it fails. -/
  | exchange (i : Nat) (datagram : Option Bytes)
  /-- It puts what it has found for its host into the cache. -/
  | store (i : Nat) (host : String) (now : Nat)
  | drop (i : Nat)

def Resolving.next (s : Resolving) : ResolveEvent → Option Resolving
  | .call host now =>
      let phase := r.start fromAscii T s.cache host now
      some (Resolving.ask { s with tasks := s.tasks ++ [⟨host, phase⟩] } phase)
  | .exchange i datagram =>
      match s.tasks[i]? with
      | some ⟨host, .asking name servers found⟩ =>
          let phase := (ResolvePhase.asking name servers found).heard (recordAddrs H datagram)
          some (Resolving.ask { s with tasks := s.tasks.set i ⟨host, phase⟩ } phase)
      | _ => none
  | .store i host now =>
      match s.tasks[i]? with
      | some ⟨host', .storing addrs⟩ =>
          if host' = host then
            some { s with
              cache := Function.update s.cache host (some ⟨addrs, now⟩)
              tasks := s.tasks.set i ⟨host, .resolved addrs now⟩ }
          else none
      | _ => none
  | .drop i =>
      match s.tasks[i]? with
      | some ⟨host, .asking _ _ _⟩ | some ⟨host, .storing _⟩ =>
          some { s with tasks := s.tasks.set i ⟨host, .dropped⟩ }
      | _ => none

end Relay.Dns.Upstream
