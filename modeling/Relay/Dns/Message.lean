import Relay.Binary.Bytes

/-!
DNS messages as `hickory_proto` presents them to the program, and the crate's
codecs as parameters. The EDNS and signature parts of a message are left out:
no function of the program reads or writes them in this form.
-/

namespace Relay.Dns

open Binary

/-- `std::net::IpAddr`. -/
inductive IpAddr where
  | v4 (addr : BitVec 32)
  | v6 (addr : BitVec 128)
  deriving DecidableEq, Repr

structure SocketAddr where
  ip : IpAddr
  port : UInt16
  deriving DecidableEq, Repr

/-- The parsers of addresses and URLs the program calls. -/
structure NetText where
  /-- `s.parse::<SocketAddr>()`. -/
  socketAddr : String → Option SocketAddr
  /-- `s.parse::<IpAddr>()`. -/
  ipAddr : String → Option IpAddr
  /-- `url::Url::parse(s).is_ok()`. -/
  validUrl : String → Bool

/-- `RecordType`, as the number it stands for. -/
abbrev RecordType := UInt16

def RecordType.a : RecordType := 1
def RecordType.aaaa : RecordType := 28

inductive MessageType where
  | query
  | response
  deriving DecidableEq, Repr

inductive OpCode where
  | query
  | other (code : UInt8)
  deriving DecidableEq, Repr

inductive ResponseCode where
  | noError
  | servFail
  | nxDomain
  | refused
  | other (code : UInt16)
  deriving DecidableEq, Repr

/-- A name: its labels as they stand on the wire, and whether it ends in the
root. -/
structure Name where
  labels : List Bytes
  isFqdn : Bool := true
  deriving DecidableEq, Repr

structure Query where
  name : Name
  queryType : RecordType
  queryClass : UInt16
  deriving DecidableEq, Repr

/-- What a question is on the wire: its name's labels, its type and class. -/
def Query.onWire (q : Query) : List Bytes × RecordType × UInt16 :=
  (q.name.labels, q.queryType, q.queryClass)

inductive RData where
  | a (addr : BitVec 32)
  | aaaa (addr : BitVec 128)
  | other (bytes : Bytes)
  deriving DecidableEq, Repr

structure Record where
  name : Name
  recordType : RecordType
  dnsClass : UInt16 := 1
  ttl : BitVec 32
  data : Option RData
  deriving DecidableEq, Repr

/-- A message; the defaults are those of `Message::new()`. -/
structure Message where
  id : BitVec 16 := 0
  messageType : MessageType := .query
  opCode : OpCode := .query
  authoritative : Bool := false
  truncated : Bool := false
  recursionDesired : Bool := false
  recursionAvailable : Bool := false
  authenticData : Bool := false
  checkingDisabled : Bool := false
  responseCode : ResponseCode := .noError
  queries : List Query := []
  answers : List Record := []
  nameServers : List Record := []
  additionals : List Record := []
  deriving DecidableEq, Repr

/-- The codecs of `hickory_proto` the program calls. -/
structure HickoryCrate where
  /-- `name.to_string()`. -/
  display : Name → String
  /-- The `Debug` form of a type. -/
  debugType : RecordType → String
  /-- `Name::from_str`. -/
  fromStr : String → Option Name
  /-- `message.to_vec()`. -/
  toVec : Message → Option Bytes
  /-- `Message::from_bytes`. -/
  fromBytes : Bytes → Option Message

/-- `response` has the ID of `request` and its questions, with their names'
bytes, types and classes. -/
structure Echoed (request response : Message) : Prop where
  id_eq : response.id = request.id
  queries_eq : response.queries.map Query.onWire = request.queries.map Query.onWire

/-- Another ID on both sides of an exchange. -/
theorem Echoed.with_id {request response : Message} {sent : BitVec 16}
    (h : Echoed { request with id := sent } response) :
    Echoed request { response with id := request.id } :=
  ⟨rfl, h.queries_eq⟩

/-- `response` answers `request`: its ID, its questions and the response bit. -/
structure Answers (request response : Message) : Prop extends Echoed request response where
  is_response : response.messageType = .response

end Relay.Dns
