import Relay.Dns.Upstream.Server
import Relay.Text.Str

/-!
The addresses and URLs of upstream servers in `dns/upstream/util.rs` and
`dns/upstream/mod.rs`.
-/

namespace Relay.Dns.Upstream

open Text

inductive UrlError where
  | address (s : String)
  | missingBracket (s : String)
  | malformedHost (s : String)
  | invalidPort (s : String)
  | invalidIpv6 (host : String)
  | emptyHost (s : String)
  | invalidDohUrl (url : String)
  | unknownRcode (other : String)
  | unknownScheme (url : String)
  | noProtocolPrefix (url : String)
  deriving DecidableEq, Repr

variable (T : NetText)

def parseAddr (s : String) (defaultPort : UInt16) : Except UrlError SocketAddr :=
  match T.socketAddr s with
  | some addr => .ok addr
  | none =>
      match T.ipAddr s with
      | some ip => .ok ⟨ip, defaultPort⟩
      | none => .error (.address s)

/-- `s.parse::<u16>()`. -/
def parsePort (s : String) : Option UInt16 := (parseUnsigned 65535 s).map UInt16.ofNat

/-- `host.parse::<Ipv6Addr>()`. -/
def isIpv6 (host : String) : Bool :=
  match T.ipAddr host with
  | some (.v6 _) => true
  | _ => false

/-- The port of a bracketed host: `:port`, or nothing. -/
def bracketedPort (s after : String) (defaultPort : UInt16) : Except UrlError UInt16 :=
  match after.toList with
  | [] => .ok defaultPort
  | ':' :: port =>
      match parsePort (String.ofList port) with
      | some port => .ok port
      | none => .error (.invalidPort s)
  | _ => .error (.malformedHost s)

def parseHostPort (s : String) (defaultPort : UInt16) : Except UrlError (String × UInt16) :=
  let hostPart := beforeFirst '/' s
  match hostPart.toList with
  | '[' :: rest =>
      match splitOnceChars [']'] rest with
      | none => .error (.missingBracket s)
      | some (host, after) => do
          let host := String.ofList host
          let port ← bracketedPort s (String.ofList after) defaultPort
          if isIpv6 T host then .ok (host, port) else .error (.invalidIpv6 host)
  | _ => do
      let (host, port) ← match splitLast ':' hostPart with
        | none => .ok (hostPart, defaultPort)
        | some (host, port) =>
            match parsePort port with
            | some port => .ok (host, port)
            | none => .error (.invalidPort s)
      if host = "" then .error (.emptyHost s) else .ok (host, port)

/-- An address with its prefix length; anything else is ignored. -/
def parseClientSubnet (s : String) : Option (IpAddr × UInt8) := do
  let (addr, prefixLen) ← splitOnce s "/"
  let addr ← T.ipAddr addr
  let prefixLen ← parseUnsigned 255 prefixLen
  let largest := match addr with
    | .v4 _ => 32
    | .v6 _ => 128
  if prefixLen ≤ largest then some (addr, UInt8.ofNat prefixLen) else none

def parseRcode (rest : String) : Except UrlError ResponseCode :=
  let name := toAsciiLowercase (trim rest)
  if name = "refused" ∨ name = "refuse" then .ok .refused
  else if name = "nxdomain" ∨ name = "nx" then .ok .nxDomain
  else if name = "servfail" ∨ name = "fail" then .ok .servFail
  else if name = "succeed" ∨ name = "success" ∨ name = "noerror" ∨ name = "empty" then
    .ok .noError
  else .error (.unknownRcode name)

/-- An address without a scheme is taken for UDP. -/
def parseBareAddr (url : String) : Except UrlError UpstreamKind :=
  match parseAddr T url 53 with
  | .ok addr => .ok (.udp addr)
  | .error _ => .error (.noProtocolPrefix url)

def parseUpstreamUrl (url : String) (insecure : Bool) : Except UrlError UpstreamKind :=
  if let some rest := stripPrefix url "udp://" then do
    let addr ← parseAddr T rest 53
    return .udp addr
  else if let some rest := stripPrefix url "tcp://" then do
    let addr ← parseAddr T rest 53
    return .tcp addr
  else if let some rest := stripPrefix url "tls://" then do
    let (host, port) ← parseHostPort T rest 853
    return .tls host port insecure
  else if startsWith url "https://" then
    if T.validUrl url then .ok (.https url insecure) else .error (.invalidDohUrl url)
  else if let some rest := stripPrefix url "quic://" then do
    let (host, port) ← parseHostPort T rest 853
    return .quic host port insecure
  else if let some rest := stripPrefix url "dhcp://" then .ok (.dhcp rest)
  else if let some rest := stripPrefix url "rcode://" then do
    let code ← parseRcode rest
    return .rcode code
  else if contains url "://" then .error (.unknownScheme url)
  else parseBareAddr T url

/-- `UpstreamServer::parse`. -/
def UpstreamServer.parse (url : String) (group : UpstreamGroupCfg) (resolver : List SocketAddr) :
    Except UrlError UpstreamServer := do
  let kind ← parseUpstreamUrl T url group.insecure
  return {
    kind := kind
    url := url
    clientSubnet := group.clientSubnet.bind (parseClientSubnet T)
    resolver := resolver }

end Relay.Dns.Upstream
