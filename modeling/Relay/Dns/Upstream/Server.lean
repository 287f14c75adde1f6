import Mathlib.Data.List.AList
import Relay.Config.Types
import Relay.Dns.Upstream.Ecs
import Relay.Dns.Upstream.UdpPool

/-!
`dns/upstream/mod.rs`: one upstream server of every kind, and a group of them
with its strategy. The network is a parameter: what comes back for the bytes
that are sent, and which server of a group is done first.
-/

namespace Relay.Dns.Upstream

open Binary

inductive UpstreamKind where
  | udp (addr : SocketAddr)
  | tcp (addr : SocketAddr)
  | tls (host : String) (port : UInt16) (insecure : Bool)
  | https (url : String) (insecure : Bool)
  | quic (host : String) (port : UInt16) (insecure : Bool)
  | dhcp (interface : String)
  | rcode (code : ResponseCode)
  deriving DecidableEq, Repr

/-- `UpstreamServer`; `resolver` is the name servers its host is resolved with. -/
structure UpstreamServer where
  kind : UpstreamKind
  url : String
  clientSubnet : Option (IpAddr × UInt8) := none
  resolver : List SocketAddr := []
  deriving DecidableEq, Repr

/-- Where bytes are sent; TLS, HTTPS and QUIC as far as the program names
their peers. -/
inductive Endpoint where
  | udp (addr : SocketAddr)
  | tcp (addr : SocketAddr)
  | tls (host : String) (port : UInt16) (insecure : Bool)
  | https (url : String) (insecure : Bool)
  | quic (host : String) (port : UInt16) (insecure : Bool)
  deriving DecidableEq, Repr

/-- One exchange of a resolution: of the request or of its alternate, the
server's place in its group, and the attempt. -/
structure Site where
  alternate : Bool
  server : Nat
  attempt : Nat := 0
  deriving DecidableEq, Repr

inductive Exchange where
  | reply (bytes : Bytes)
  | broken
  | timedOut
  deriving DecidableEq, Repr

/-- The network during one resolution. `exchange` covers the resolution of a
host, the connection and the framing. -/
structure Network where
  exchange : Site → Endpoint → Bytes → Exchange
  /-- The ID the UDP pool gives a query. -/
  queryId : Site → BitVec 16
  /-- An idle connection is there to be used again. -/
  pooled : Site → Bool
  dhcpServers : String → List SocketAddr
  /-- `UPSTREAM_TIMEOUT` passes before the server is done. -/
  expired : Bool → Nat → Bool
  /-- The order in which the servers of a group are done. -/
  completion : Bool → List Nat

variable (H : HickoryCrate)

/-- Every upstream echoes the ID and the questions of the query it receives. -/
def Network.Echoes (net : Network) : Prop :=
  ∀ site endpoint query wire bytes response, H.toVec query = some wire →
    net.exchange site endpoint wire = .reply bytes → H.fromBytes bytes = some response →
    Echoed query response

/-- What the program relies on in the codecs: an ID is the first two bytes of
a message and nothing else, and the ID and the questions are read from the
header up to ARCOUNT and from the question section alone. -/
structure Lawful : Prop where
  toVec_id : ∀ m id, H.toVec { m with id := id } = (H.toVec m).map (withId id)
  fromBytes_id : ∀ id wire, 2 ≤ wire.length →
    H.fromBytes (withId id wire) = (H.fromBytes wire).map fun m => { m with id := id }
  questions : ∀ m wire wire' m' qdcount sectionEnd, H.toVec m = some wire →
    wordAt wire 4 = .ok qdcount → skipQuestions wire qdcount 12 = .ok sectionEnd →
    wire'.take 10 = wire.take 10 →
    (wire'.drop 12).take (sectionEnd - 12) = (wire.drop 12).take (sectionEnd - 12) →
    H.fromBytes wire' = some m' →
    m'.id = m.id ∧ m'.queries.map Query.onWire = m.queries.map Query.onWire

variable (net : Network)

/-- The first of the attempts that brings a reply. -/
def firstReply (site : Site) (endpoint : Endpoint) (wire : Bytes) : List Nat → Run QueryError Bytes
  | [] => fail .transport
  | attempt :: attempts =>
      match net.exchange { site with attempt := attempt } endpoint wire with
      | .reply bytes => .ok bytes
      | _ => firstReply site endpoint wire attempts

/-- `tcp::query`. -/
def tcpQuery (site : Site) (attempt : Nat) (addr : SocketAddr) (request : Message) :
    Run QueryError Message := do
  let wire ← encode H request
  let bytes ← firstReply net site (.tcp addr) wire [attempt]
  parseMessage H bytes

/-- `udp::query`: one socket for one query, asked again over TCP when the reply
is truncated. -/
def udpQuery (site : Site) (addr : SocketAddr) (request : Message) : Run QueryError Message := do
  let wire ← encode H request
  let bytes ← firstReply net site (.udp addr) wire [0]
  let response ← parseMessage H bytes
  if response.truncated then tcpQuery H net site 1 addr request else return response

/-- One attempt of `UdpPool::query`; `none` when the socket is to be rebuilt.
The receive loop passes on no datagram without an ID. -/
def poolAttempt (site : Site) (attempt : Nat) (addr : SocketAddr) (request : Message)
    (wire : Bytes) : Option (Run QueryError Message) :=
  let site := { site with attempt := attempt }
  match net.exchange site (.udp addr) (withId (net.queryId site) wire) with
  | .broken => none
  | .timedOut => some (fail .timedOut)
  | .reply bytes =>
      if bytes.length < 2 then some (fail .timedOut)
      else
        match replyOutcome H request.id bytes with
        | .ok response => some (.ok response)
        | .overTcp => some (tcpQuery H net site 2 addr request)
        | _ => some (fail .parse)

/-- `UdpPool::query`. -/
def poolQuery (site : Site) (addr : SocketAddr) (request : Message) : Run QueryError Message := do
  let wire ← encode H request
  match poolAttempt H net site 0 addr request wire with
  | some result => result
  | none => (poolAttempt H net site 1 addr request wire).getD (fail .transport)

/-- `dot::query`: an idle connection first, then two new ones. -/
def dotQuery (site : Site) (host : String) (port : UInt16) (insecure : Bool) (request : Message) :
    Run QueryError Message := do
  let wire ← encode H request
  let bytes ← firstReply net site (.tls host port insecure) wire
    (if net.pooled site then [0, 1, 2] else [1, 2])
  parseMessage H bytes

/-- `doh::query`: sent with the ID zero, which the reply's ID replaces. -/
def dohQuery (site : Site) (url : String) (insecure : Bool) (request : Message) :
    Run QueryError Message := do
  let wire ← encode H { request with id := 0 }
  let bytes ← firstReply net site (.https url insecure) wire [0]
  let response ← parseMessage H bytes
  return { response with id := request.id }

/-- `doq::query`: likewise, over the idle connection or a new one. -/
def doqQuery (site : Site) (host : String) (port : UInt16) (insecure : Bool) (request : Message) :
    Run QueryError Message := do
  let wire ← encode H { request with id := 0 }
  let bytes ← firstReply net site (.quic host port insecure) wire
    (if net.pooled site then [0, 1] else [1])
  let response ← parseMessage H bytes
  return { response with id := request.id }

/-- The request with the client subnet, for the kinds that send it. -/
def UpstreamServer.prepare (server : UpstreamServer) (request : Message) :
    Run QueryError Message :=
  match server.clientSubnet, server.kind with
  | none, _ | _, .rcode _ | _, .dhcp _ => .ok request
  | some subnet, _ => injectClientSubnet H request subnet

/-- `UpstreamServer::query`. -/
def UpstreamServer.query (site : Site) (server : UpstreamServer) (request : Message) :
    Run QueryError Message := do
  let req ← server.prepare H request
  match server.kind with
  | .udp addr => poolQuery H net site addr req
  | .tcp addr => tcpQuery H net site 0 addr req
  | .tls host port insecure => dotQuery H net site host port insecure req
  | .https url insecure => dohQuery H net site url insecure req
  | .quic host port insecure => doqQuery H net site host port insecure req
  | .dhcp interface =>
      match net.dhcpServers interface with
      | [] => fail (.noDhcpServers interface)
      | addr :: _ => udpQuery H net site addr req
  | .rcode code => return { request with messageType := .response, responseCode := code }

/-- `UpstreamGroup`; the counter is a `usize` of 64 bits. -/
structure UpstreamGroup where
  servers : List UpstreamServer
  strategy : Strategy
  counter : BitVec 64 := 0
  deriving DecidableEq, Repr

/-- `timeout(UPSTREAM_TIMEOUT, server.query(request))`. -/
def UpstreamGroup.ask (group : UpstreamGroup) (alternate : Bool) (request : Message) (i : Nat) :
    Run QueryError Message :=
  match group.servers[i]? with
  | none => fail .noServers
  | some server =>
      if net.expired alternate i then fail .timedOut
      else server.query H net ⟨alternate, i, 0⟩ request

/-- The first of the servers, in this order, that answers. -/
def UpstreamGroup.firstAnswer (group : UpstreamGroup) (alternate : Bool) (request : Message) :
    List Nat → Run QueryError Message
  | [] => fail .allFailed
  | i :: rest =>
      match group.ask H net alternate request i with
      | .ok response => .ok response
      | .error .panic => panicked
      | .error (.error _) => group.firstAnswer alternate request rest

/-- The order of one round, from the counter's place on. -/
def UpstreamGroup.round (group : UpstreamGroup) : List Nat :=
  let n := group.servers.length
  let start := group.counter.toNat % n
  (List.range n).map fun i => (start + i) % n

/-- `UpstreamGroup::query`, with the group after it. -/
def UpstreamGroup.query (group : UpstreamGroup) (alternate : Bool) (request : Message) :
    Run QueryError Message × UpstreamGroup :=
  if group.servers.isEmpty then (fail .noServers, group)
  else
    match group.strategy with
    | .roundRobin =>
        (group.firstAnswer H net alternate request group.round,
          { group with counter := group.counter + 1 })
    | .fastest =>
        (group.firstAnswer H net alternate request (net.completion alternate), group)

/-! ### What a query brings back -/

variable {H net}

theorem encode_ok {m : Message} {wire : Bytes} : encode H m = .ok wire ↔ H.toVec m = some wire := by
  unfold encode
  split <;> simp_all [fail]

theorem parseMessage_ok {bytes : Bytes} {m : Message} :
    parseMessage H bytes = .ok m ↔ H.fromBytes bytes = some m := by
  unfold parseMessage
  split <;> simp_all [fail]

theorem firstReply_ok {site : Site} {endpoint : Endpoint} {wire bytes : Bytes}
    {attempts : List Nat} (h : firstReply net site endpoint wire attempts = .ok bytes) :
    ∃ site', net.exchange site' endpoint wire = .reply bytes := by
  induction attempts with
  | nil => cases h
  | cons attempt attempts ih =>
      unfold firstReply at h
      split at h
      · rename_i hreply
        cases h
        exact ⟨_, hreply⟩
      · exact ih h

/-- A message sent as it is, and the reply parsed as it came. -/
theorem exchange_echoed (hnet : net.Echoes H) {site : Site} {endpoint : Endpoint}
    {attempts : List Nat} {request response : Message} {wire bytes : Bytes}
    (hwire : encode H request = .ok wire)
    (hreply : firstReply net site endpoint wire attempts = .ok bytes)
    (hparse : parseMessage H bytes = .ok response) : Echoed request response := by
  obtain ⟨site', hexchange⟩ := firstReply_ok hreply
  exact hnet site' endpoint request wire bytes response (encode_ok.mp hwire) hexchange
    (parseMessage_ok.mp hparse)

/-- A request sent as it is, over a connection. -/
theorem framed_echoed (hnet : net.Echoes H) {site : Site} {endpoint : Endpoint}
    {attempts : List Nat} {request response : Message}
    (h : (do
      let wire ← encode H request
      let bytes ← firstReply net site endpoint wire attempts
      parseMessage H bytes) = .ok response) : Echoed request response := by
  obtain ⟨wire, hwire, h⟩ := run_bind_eq_ok.mp h
  obtain ⟨bytes, hreply, hparse⟩ := run_bind_eq_ok.mp h
  exact exchange_echoed hnet hwire hreply hparse

/-- A request sent with the ID zero, whose reply gets the request's ID. -/
theorem zeroId_echoed (hnet : net.Echoes H) {site : Site} {endpoint : Endpoint}
    {attempts : List Nat} {request response : Message}
    (h : (do
      let wire ← encode H { request with id := 0 }
      let bytes ← firstReply net site endpoint wire attempts
      let response ← parseMessage H bytes
      return { response with id := request.id }) = .ok response) : Echoed request response := by
  obtain ⟨wire, hwire, h⟩ := run_bind_eq_ok.mp h
  obtain ⟨bytes, hreply, h⟩ := run_bind_eq_ok.mp h
  obtain ⟨parsed, hparse, h⟩ := run_bind_eq_ok.mp h
  cases h
  exact (exchange_echoed hnet hwire hreply hparse).with_id

theorem tcpQuery_echoed (hnet : net.Echoes H) {site : Site} {attempt : Nat} {addr : SocketAddr}
    {request response : Message} (h : tcpQuery H net site attempt addr request = .ok response) :
    Echoed request response := framed_echoed hnet h

theorem udpQuery_echoed (hnet : net.Echoes H) {site : Site} {addr : SocketAddr}
    {request response : Message} (h : udpQuery H net site addr request = .ok response) :
    Echoed request response := by
  obtain ⟨wire, hwire, h⟩ := run_bind_eq_ok.mp h
  obtain ⟨bytes, hreply, h⟩ := run_bind_eq_ok.mp h
  obtain ⟨parsed, hparse, h⟩ := run_bind_eq_ok.mp h
  split at h
  · exact tcpQuery_echoed hnet h
  · cases h
    exact exchange_echoed hnet hwire hreply hparse

theorem dotQuery_echoed (hnet : net.Echoes H) {site : Site} {host : String} {port : UInt16}
    {insecure : Bool} {request response : Message}
    (h : dotQuery H net site host port insecure request = .ok response) :
    Echoed request response := framed_echoed hnet h

theorem dohQuery_echoed (hnet : net.Echoes H) {site : Site} {url : String} {insecure : Bool}
    {request response : Message} (h : dohQuery H net site url insecure request = .ok response) :
    Echoed request response := zeroId_echoed hnet h

theorem doqQuery_echoed (hnet : net.Echoes H) {site : Site} {host : String} {port : UInt16}
    {insecure : Bool} {request response : Message}
    (h : doqQuery H net site host port insecure request = .ok response) :
    Echoed request response := zeroId_echoed hnet h

/-- The pool's datagram is the request under another ID, and the reply's ID is
put back before it is parsed. -/
theorem poolAttempt_echoed (hlaw : Lawful H) (hnet : net.Echoes H) {site : Site} {attempt : Nat}
    {addr : SocketAddr} {request response : Message} {wire : Bytes}
    (hwire : H.toVec request = some wire)
    (h : poolAttempt H net site attempt addr request wire = some (.ok response)) :
    Echoed request response := by
  unfold poolAttempt at h
  simp only at h
  split at h
  · cases h
  · cases h
  · rename_i bytes hreply
    split at h
    · cases h
    · rename_i hlong
      have hvec := hlaw.toVec_id request (net.queryId { site with attempt := attempt })
      rw [hwire, Option.map_some] at hvec
      split at h
      · rename_i parsed houtcome
        cases h
        unfold replyOutcome at houtcome
        rw [hlaw.fromBytes_id _ _ (by omega)] at houtcome
        cases hparse : H.fromBytes bytes with
        | none =>
            rw [hparse] at houtcome
            cases houtcome
        | some received =>
            rw [hparse] at houtcome
            simp only [Option.map_some] at houtcome
            split at houtcome
            · cases houtcome
            · cases houtcome
              exact (hnet _ _ _ _ _ _ hvec hreply hparse).with_id
      · rw [Option.some.injEq] at h
        exact tcpQuery_echoed hnet h
      · cases h

theorem poolQuery_echoed (hlaw : Lawful H) (hnet : net.Echoes H) {site : Site}
    {addr : SocketAddr} {request response : Message}
    (h : poolQuery H net site addr request = .ok response) : Echoed request response := by
  obtain ⟨wire, hwire, h⟩ := run_bind_eq_ok.mp h
  have hvec := encode_ok.mp hwire
  split at h
  · rename_i result hfirst
    subst h
    exact poolAttempt_echoed hlaw hnet hvec hfirst
  · cases hsecond : poolAttempt H net site 1 addr request wire with
    | none =>
        rw [hsecond] at h
        cases h
    | some result =>
        rw [hsecond, Option.getD_some] at h
        subst h
        exact poolAttempt_echoed hlaw hnet hvec hsecond

/-- The request with a client subnet has the same ID and questions. -/
theorem prepare_keeps_questions (hlaw : Lawful H) {server : UpstreamServer}
    {request req : Message} (h : server.prepare H request = .ok req) :
    req.id = request.id ∧ req.queries.map Query.onWire = request.queries.map Query.onWire := by
  unfold UpstreamServer.prepare at h
  split at h
  · cases h
    exact ⟨rfl, rfl⟩
  · cases h
    exact ⟨rfl, rfl⟩
  · cases h
    exact ⟨rfl, rfl⟩
  · rename_i subnet _ _ _
    unfold injectClientSubnet at h
    obtain ⟨wire, hwire, h⟩ := run_bind_eq_ok.mp h
    obtain ⟨edited, hedit, hparse⟩ := run_bind_eq_ok.mp h
    obtain ⟨qdcount, sectionEnd, hcount, hsection, hheader, hquestions⟩ :=
      wireInjectEcs_keeps_questions hedit
    exact hlaw.questions request wire edited req qdcount sectionEnd (encode_ok.mp hwire) hcount
      hsection hheader hquestions (parseMessage_ok.mp hparse)

theorem UpstreamServer.query_echoed (hlaw : Lawful H) (hnet : net.Echoes H) {site : Site}
    {server : UpstreamServer} {request response : Message}
    (h : server.query H net site request = .ok response) : Echoed request response := by
  obtain ⟨req, hprepare, h⟩ := run_bind_eq_ok.mp h
  obtain ⟨hid, hqueries⟩ := prepare_keeps_questions hlaw hprepare
  have hback : Echoed req response → Echoed request response := fun hechoed =>
    ⟨hechoed.id_eq.trans hid, hechoed.queries_eq.trans hqueries⟩
  split at h
  · exact hback (poolQuery_echoed hlaw hnet h)
  · exact hback (tcpQuery_echoed hnet h)
  · exact hback (dotQuery_echoed hnet h)
  · exact hback (dohQuery_echoed hnet h)
  · exact hback (doqQuery_echoed hnet h)
  · split at h
    · cases h
    · exact hback (udpQuery_echoed hnet h)
  · cases h
    exact ⟨rfl, rfl⟩

theorem UpstreamGroup.firstAnswer_echoed (hlaw : Lawful H) (hnet : net.Echoes H)
    {group : UpstreamGroup} {alternate : Bool} {request response : Message} {order : List Nat}
    (h : group.firstAnswer H net alternate request order = .ok response) :
    Echoed request response := by
  induction order with
  | nil => cases h
  | cons i rest ih =>
      unfold UpstreamGroup.firstAnswer at h
      split at h
      · rename_i answer hask
        cases h
        unfold UpstreamGroup.ask at hask
        split at hask
        · cases hask
        · split at hask
          · cases hask
          · exact UpstreamServer.query_echoed hlaw hnet hask
      · cases h
      · exact ih h

/-- A group's answer echoes the request, whichever server gave it. -/
theorem UpstreamGroup.query_echoed (hlaw : Lawful H) (hnet : net.Echoes H)
    {group : UpstreamGroup} {alternate : Bool} {request response : Message}
    (h : (group.query H net alternate request).1 = .ok response) : Echoed request response := by
  unfold UpstreamGroup.query at h
  split at h
  · cases h
  · split at h
    · exact firstAnswer_echoed hlaw hnet h
    · exact firstAnswer_echoed hlaw hnet h

/-! ### The codec without records -/

private theorem beBytes_two (n : Nat) :
    beBytes 2 n = [UInt8.ofNat (n / 256), UInt8.ofNat (n % 256)] := by
  have hmod : UInt8.ofNat (n % 256) = UInt8.ofNat n := by
    apply UInt8.toNat_inj.mp
    simp
  rw [hmod]
  rfl

private theorem withId_append (id id' : BitVec 16) (rest : Bytes) :
    withId id (toBe 2 id' ++ rest) = toBe 2 id ++ rest := by
  rw [toBe, toBe, beBytes_two, beBytes_two]
  simp [withId]

private theorem questionToVec_id (m : Message) (id : BitVec 16) :
    questionToVec { m with id := id } = (questionToVec m).map (withId id) := by
  unfold questionToVec
  dsimp only
  split
  · rw [Option.map_map]
    congr 1
    funext questions
    simp only [Function.comp_apply, List.append_assoc, withId_append]
    rfl
  · rfl

private theorem questionFromBytes_id (id : BitVec 16) {wire : Bytes} (h : 2 ≤ wire.length) :
    questionFromBytes (withId id wire) =
      (questionFromBytes wire).map fun m => { m with id := id } := by
  match wire, h with
  | hi :: lo :: rest, _ =>
      have hid : BitVec.ofNat 16 (ofBe (toBe 2 id)) = id := ofNat_ofBe_toBe 16 2 (by norm_num) id
      have hwith : withId id (hi :: lo :: rest) = toBe 2 id ++ rest := by
        rw [toBe, beBytes_two]
        simp [withId]
      rw [hwith]
      unfold questionFromBytes
      rw [toBe, beBytes_two] at hid ⊢
      cases hflags : rest[0]? with
      | none => simp [hflags]
      | some flags =>
          cases hmore : rest[1]? with
          | none => simp [hflags, hmore]
          | some more =>
              cases hquestions : decodeQuestions (ofBe ((rest.drop 2).take 2)) (rest.drop 10) with
              | none => simp [hflags, hmore, hquestions]
              | some decoded => simp [hflags, hmore, hquestions, hid]

/-- The ID and the questions that are read back from a message which agrees
with an encoded one up to ARCOUNT and in its question section. -/
private theorem questionFromBytes_agreeing {m m' : Message} {wire wire' : Bytes}
    {qdcount sectionEnd : Nat} (hvec : questionToVec m = some wire)
    (hcount : wordAt wire 4 = .ok qdcount)
    (hsection : skipQuestions wire qdcount 12 = .ok sectionEnd)
    (hheader : wire'.take 10 = wire.take 10)
    (hsame : (wire'.drop 12).take (sectionEnd - 12) = (wire.drop 12).take (sectionEnd - 12))
    (hparse : questionFromBytes wire' = some m') :
    m'.id = m.id ∧ m'.queries.map Query.onWire = m.queries.map Query.onWire := by
  obtain ⟨questions, hquestions, hfits, hwire⟩ := questionToVec_shape hvec
  have hdrop : wire.drop 12 = questions ++ [] := by
    rw [hwire, List.append_nil]
    exact List.drop_left' (by simp [flagBytes])
  have hword : (wire.drop 4).take 2 = beBytes 2 m.queries.length := by
    rw [hwire, List.append_assoc, List.append_assoc, List.drop_left' (by simp [flagBytes])]
    exact List.take_left' (by simp)
  have hid : wire.take 2 = toBe 2 m.id := by
    rw [hwire, List.append_assoc, List.append_assoc, List.append_assoc]
    exact List.take_left' (by simp)
  have hqd : qdcount = m.queries.length := by
    have hfirst : wire.drop 4 = UInt8.ofNat (m.queries.length / 256) ::
        UInt8.ofNat (m.queries.length % 256) :: (wire.drop 4).drop 2 := by
      conv_lhs => rw [← List.take_append_drop 2 (wire.drop 4), hword, beBytes_two]
      rfl
    have hsecond : wire.drop (4 + 1) =
        UInt8.ofNat (m.queries.length % 256) :: (wire.drop 4).drop 2 := by
      rw [← List.drop_drop, hfirst]
      rfl
    unfold wordAt at hcount
    rw [byteAt_of_drop hfirst, run_ok_bind, byteAt_of_drop hsecond, run_ok_bind] at hcount
    cases hcount
    simp only [UInt8.toNat_ofNat']
    omega
  subst hqd
  rw [skipQuestions_encoded hquestions hdrop] at hsection
  cases hsection
  rw [hdrop, List.append_nil, Nat.add_sub_cancel_left, List.take_length] at hsame
  have hdrop' : wire'.drop 12 = questions ++ (wire'.drop 12).drop questions.length := by
    conv_lhs => rw [← List.take_append_drop questions.length (wire'.drop 12), hsame]
  have hword' : (wire'.drop 4).take 2 = beBytes 2 m.queries.length := by
    rw [← hword]
    have h := congrArg (fun xs => (xs.drop 4).take 2) hheader
    simpa [List.drop_take, List.take_take] using h
  have hid' : wire'.take 2 = toBe 2 m.id := by
    rw [← hid]
    have h := congrArg (fun xs => xs.take 2) hheader
    simpa [List.take_take] using h
  obtain ⟨qs, hdecode, hqs⟩ := decodeQuestions_encoded hquestions
    ((wire'.drop 12).drop questions.length)
  unfold questionFromBytes at hparse
  simp only [Option.bind_eq_bind, Option.bind_eq_some_iff] at hparse
  obtain ⟨flags, _, more, _, ⟨qs', rest⟩, hdecode', heq⟩ := hparse
  rw [hword', ofBe_beBytes_of_lt (by omega), hdrop', hdecode, Option.some.injEq,
    Prod.mk.injEq] at hdecode'
  cases heq
  refine ⟨?_, ?_⟩
  · rw [hid']
    exact ofNat_ofBe_toBe 16 2 (by norm_num) m.id
  · rw [← hdecode'.1]
    exact hqs

theorem questionCodec_lawful : Lawful questionCodec where
  toVec_id := questionToVec_id
  fromBytes_id _ _ h := questionFromBytes_id _ h
  questions _ _ _ _ _ _ hvec hcount hsection hheader hsame hparse :=
    questionFromBytes_agreeing hvec hcount hsection hheader hsame hparse

end Relay.Dns.Upstream
