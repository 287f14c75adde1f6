import Relay.Dns.Cache
import Relay.Dns.Upstream.Server
import Relay.Ruleset.Drs

/-!
`dns/router.rs`: a query is suppressed by the IP strategy, or answered from the
cache, the static hosts, the dynamic hosts, the upstream of the first matching
ruleset, or the default upstream.
-/

namespace Relay.Dns

open Binary Text Upstream Ruleset

/-- The identity of a value behind an `Arc`. -/
abbrev Arc := Nat

variable (H : HickoryCrate) (U : UnicodeTables) {F : FstCrate} {R : RegexCrate} {C : CacheCrate}

structure LoadedRule (F : FstCrate) (R : RegexCrate) where
  ruleset : DrsFile F R
  upstream : String

structure ResolveMeta where
  domain : String
  qtype : String
  upstream : String
  originalUpstream : String
  rcode : String
  rule : Option String := none
  cached : Bool := false
  blocked : Bool := false
  deriving DecidableEq, Repr

structure Router (F : FstCrate) (R : RegexCrate) (C : CacheCrate) where
  hosts : HostsTable
  rules : List (LoadedRule F R)
  upstreams : StringMap UpstreamGroup
  cache : Option (DnsCache C)
  strategy : IpStrategy
  dynamicHosts : Arc

/-- What one resolution meets outside the router: the network, the clock when
the cache is read and written, and the dynamic tables. -/
structure Env where
  net : Network
  lookedUpAt : Nat
  storedAt : Nat
  tables : Arc → DynamicHosts

/-- `stats::rcode_name`. -/
def rcodeName : ResponseCode → String
  | .noError => "NOERROR"
  | .nxDomain => "NXDOMAIN"
  | .servFail => "SERVFAIL"
  | .refused => "REFUSED"
  | .other 1 => "FORMERR"
  | .other 4 => "NOTIMP"
  | .other 6 => "YXDOMAIN"
  | .other 7 => "YXRRSET"
  | .other 8 => "NXRRSET"
  | .other 9 => "NOTAUTH"
  | .other 10 => "NOTZONE"
  | .other _ => "OTHER"

/-- `stats::qtype_name`. -/
def qtypeName (t : RecordType) : String := U.toUppercase (H.debugType t)

def rcodeStr (response : Message) : String := rcodeName response.responseCode

def emptyNoerror (request : Message) : Message where
  id := request.id
  messageType := .response
  opCode := .query
  recursionDesired := true
  recursionAvailable := true
  responseCode := .noError
  queries := request.queries

/-- The request with another type in its first question. -/
def rewriteQtype (original : Message) (newType : RecordType) : Message :=
  { original with
    queries := match original.queries with
      | [] => []
      | q :: qs => { q with queryType := newType } :: qs }

def mergeResponses (request primary : Message) (secondary : Option Message)
    (primaryFirst : Bool) : Message :=
  { primary with
    id := request.id
    answers := match secondary with
      | none => primary.answers
      | some sec =>
          if primaryFirst then primary.answers ++ sec.answers else sec.answers ++ primary.answers }

/-- Both answers of a pair of queries; a failed alternate is left out. -/
def joinAnswers (request : Message) (own other : Run QueryError Message) (requestFirst : Bool) :
    Run QueryError Message :=
  match own, other with
  | .error .panic, _ | _, .error .panic => panicked
  | .error (.error e), _ => fail e
  | .ok primary, .ok secondary => .ok (mergeResponses request primary (some secondary) requestFirst)
  | .ok primary, .error (.error _) => .ok (mergeResponses request primary none requestFirst)

/-- Both families are asked at once. Where the request is for the preferred
family it is sent first and its answers stand first; otherwise the alternate. -/
def queryBoth (net : Network) (group : UpstreamGroup) (request : Message) (altType : RecordType)
    (requestFirst : Bool) : Run QueryError Message × UpstreamGroup :=
  let alt := rewriteQtype request altType
  if requestFirst then
    let (own, group) := group.query H net false request
    let (other, group) := group.query H net true alt
    (joinAnswers request own other true, group)
  else
    let (other, group) := group.query H net true alt
    let (own, group) := group.query H net false request
    (joinAnswers request own other false, group)

def queryWithStrategy (strategy : IpStrategy) (net : Network) (group : UpstreamGroup)
    (request : Message) (qtype : RecordType) : Run QueryError Message × UpstreamGroup :=
  if strategy = .preferIpv4 ∧ qtype = .a then queryBoth H net group request .aaaa true
  else if strategy = .preferIpv4 ∧ qtype = .aaaa then queryBoth H net group request .a false
  else if strategy = .preferIpv6 ∧ qtype = .aaaa then queryBoth H net group request .a true
  else if strategy = .preferIpv6 ∧ qtype = .a then queryBoth H net group request .aaaa false
  else group.query H net false request

/-- The query type the IP strategy answers with an empty response. -/
def suppresses (strategy : IpStrategy) (qtype : RecordType) : Bool :=
  (strategy = .onlyIpv4 && qtype = .aaaa) || (strategy = .onlyIpv6 && qtype = .a)

/-- `normalize_domain`. -/
def normalizeDomain (s : String) : String := toAsciiLowercase (trimEndDots s)

def Router.cacheGet (router : Router F R C) (name : String) (qtype : RecordType) (now : Nat) :
    Option (Message × String) × Router F R C :=
  match router.cache with
  | none => (none, router)
  | some cache =>
      let (hit, cache) := cache.get U name qtype now
      (hit, { router with cache := some cache })

/-- The entry behind a hit. -/
theorem Router.cacheGet_hit {U : UnicodeTables} {router : Router F R C} {name : String}
    {qtype : RecordType} {now : Nat} {served : Message × String}
    (hget : (router.cacheGet U name qtype now).1 = some served) :
    ∃ cache entry remaining, router.cache = some cache ∧
      (cacheKey U name qtype, entry) ∈ cache.held.entries ∧ served = entry.served remaining := by
  unfold Router.cacheGet at hget
  split at hget
  · cases hget
  · rename_i cache hcache
    obtain ⟨entry, remaining, hmem, _, hserved⟩ := DnsCache.get_hit hget
    exact ⟨cache, entry, remaining, hcache, hmem, hserved⟩

def Router.cacheInsert (router : Router F R C) (name : String) (qtype : RecordType)
    (response : Message) (originalUpstream : String) (now : Nat) : Router F R C :=
  { router with
    cache := router.cache.map fun cache =>
      cache.insert U name qtype response originalUpstream now }

/-- The first rule that matches and whose upstream there is. -/
def selectRule (upstreams : StringMap UpstreamGroup) (domain : String) :
    List (LoadedRule F R) → Run Empty (Option (String × UpstreamGroup))
  | [] => .ok none
  | rule :: rules => do
      let matched ← rule.ruleset.matchesNormalized domain
      match matched, upstreams.lookup rule.upstream with
      | some _, some group => return some (rule.upstream, group)
      | _, _ => selectRule upstreams domain rules

def Upstream.UpstreamKind.isRcode : UpstreamKind → Bool
  | .rcode _ => true
  | _ => false

/-- All servers are of the `rcode` kind. -/
def Upstream.UpstreamGroup.isRcode (group : UpstreamGroup) : Bool :=
  group.servers.all fun server => server.kind.isRcode

/-- The upstream's answer, stored with the name it is attributed to. -/
def Router.askUpstream (router : Router F R C) (env : Env) (request : Message) (name : String)
    (qtype : RecordType) (key : String) (group : UpstreamGroup) (info : ResolveMeta) :
    Run QueryError (Message × ResolveMeta) × Router F R C :=
  let (answer, group) := queryWithStrategy H router.strategy env.net group request qtype
  let router := { router with upstreams := router.upstreams.insert key group }
  match answer with
  | .error e => (.error e, router)
  | .ok response =>
      (.ok (response, { info with rcode := rcodeStr response }),
        router.cacheInsert U name qtype response info.originalUpstream env.storedAt)

def Router.answerByRule (router : Router F R C) (env : Env) (request : Message) (name : String)
    (qtype : RecordType) (upstream : String) (group : UpstreamGroup) :
    Run QueryError (Message × ResolveMeta) × Router F R C :=
  let blocked := group.isRcode
  router.askUpstream H U env request name qtype upstream group
    { domain := name
      qtype := qtypeName H U qtype
      upstream := upstream
      originalUpstream := if blocked then "rcode:" ++ upstream else upstream
      rcode := ""
      rule := some upstream
      blocked := blocked }

def Router.answerByDefault (router : Router F R C) (env : Env) (request : Message) (name : String)
    (qtype : RecordType) : Run QueryError (Message × ResolveMeta) × Router F R C :=
  match router.upstreams.lookup "default" with
  | none => (fail .noDefaultUpstream, router)
  | some group =>
      router.askUpstream H U env request name qtype "default" group
        { domain := name
          qtype := qtypeName H U qtype
          upstream := "default"
          originalUpstream := "default"
          rcode := "" }

/-- The rulesets in order, then the default upstream. -/
def Router.answerFromUpstream (router : Router F R C) (env : Env) (request : Message)
    (name : String) (qtype : RecordType) : Run QueryError (Message × ResolveMeta) × Router F R C :=
  match selectRule router.upstreams (normalizeDomain name) router.rules with
  | .error _ => (panicked, router)
  | .ok (some (upstream, group)) =>
      router.answerByRule H U env request name qtype upstream group
  | .ok none => router.answerByDefault H U env request name qtype

/-- What a hosts table's response is reported as. -/
def hostsMeta (name : String) (qtype : RecordType) (source : String) (response : Message) :
    ResolveMeta where
  domain := name
  qtype := qtypeName H U qtype
  upstream := source
  originalUpstream := source
  rcode := rcodeStr response

/-- `Router::resolve_with_meta`, with the router after it. -/
def Router.resolveWithMeta (router : Router F R C) (env : Env) (request : Message) :
    Run QueryError (Message × ResolveMeta) × Router F R C :=
  match request.queries.head? with
  | none => (fail .emptyQuery, router)
  | some query =>
      let name := H.display query.name
      let qtype := query.queryType
      let id := request.id
      if suppresses router.strategy qtype then
        (.ok (emptyNoerror request,
          { domain := name
            qtype := qtypeName H U qtype
            upstream := "strategy"
            originalUpstream := "strategy"
            rcode := "Empty" }), router)
      else
        match router.cacheGet U name qtype env.lookedUpAt with
        | (some (stored, originalUpstream), router) =>
            let response := { stored with id := id }
            (.ok (response,
              { domain := name
                qtype := qtypeName H U qtype
                upstream := "cache"
                originalUpstream := originalUpstream
                rcode := rcodeStr response
                cached := true
                blocked := originalUpstream.startsWith "rcode:" }), router)
        | (none, router) =>
            match router.hosts.lookup H U name qtype id with
            | some response => (.ok (response, hostsMeta H U name qtype "hosts" response), router)
            | none =>
                match (env.tables router.dynamicHosts).lookup H U name qtype id with
                | some response =>
                    (.ok (response, hostsMeta H U name qtype "dynamic-hosts" response), router)
                | none => router.answerFromUpstream H U env request name qtype

end Relay.Dns
