import Relay.Dns.Router
import Relay.Logic.Run
import Relay.Ruleset.Crates

/-!
Whether a reply answers the request it is given for. A reply from an upstream
does when the upstream's own reply has the response bit; a reply from the cache
does when the stored message has it and the request's questions; a hosts
table's reply has no question at all.
-/

namespace Relay.Dns

open Binary Logic Upstream Ruleset Storage

variable {H : HickoryCrate} {U : UnicodeTables} {F : FstCrate} {R : RegexCrate} {C : CacheCrate}

/-- One query served by a router whose upstreams echo. -/
def Serves (H : HickoryCrate) (U : UnicodeTables) (router : Router F R C) (query : Env × Message)
    (router' : Router F R C) : Prop :=
  query.1.net.Echoes H ∧ router' = (router.resolveWithMeta H U query.1 query.2).2

/-- A router as it is built: nothing is cached. -/
def Router.Fresh (router : Router F R C) : Prop :=
  ∀ cache, router.cache = some cache → cache.held.entries = []

/-- Where both families are asked: the other one's type is asked first. -/
def asksOtherFirst (strategy : IpStrategy) (qtype : RecordType) : Bool :=
  (strategy = .preferIpv4 && qtype = .aaaa) || (strategy = .preferIpv6 && qtype = .a)

/-- A group after one query. -/
def Upstream.UpstreamGroup.afterQuery (group : UpstreamGroup) : UpstreamGroup :=
  if group.servers.isEmpty then group
  else
    match group.strategy with
    | .roundRobin => { group with counter := group.counter + 1 }
    | .fastest => group

/-- What a group's servers send back for the request itself. -/
def ownReply (H : HickoryCrate) (strategy : IpStrategy) (net : Network) (group : UpstreamGroup)
    (request : Message) (qtype : RecordType) : Run QueryError Message :=
  ((if asksOtherFirst strategy qtype then group.afterQuery else group).query H net false request).1

/-- The group that is asked for a name no table answers. -/
def Router.chosenGroup (router : Router F R C) (name : String) : Option UpstreamGroup :=
  match selectRule router.upstreams (normalizeDomain name) router.rules with
  | .error _ => none
  | .ok (some (_, group)) => some group
  | .ok none => router.upstreams.lookup "default"

/-- The reply comes with the request's questions and the response bit: the
query is suppressed; or the cache's message for it has both; or neither hosts
table knows the name, and the reply of the upstream that is asked for it has
the response bit. -/
def Router.KeepsQuestions (H : HickoryCrate) (U : UnicodeTables) (router : Router F R C) (env : Env)
    (request : Message) : Prop :=
  ∀ query ∈ request.queries.head?, suppresses router.strategy query.queryType = false →
    match (router.cacheGet U (H.display query.name) query.queryType env.lookedUpAt).1 with
    | some (stored, _) =>
        stored.messageType = .response ∧
          stored.queries.map Query.onWire = request.queries.map Query.onWire
    | none =>
        router.hosts.lookup H U (H.display query.name) query.queryType request.id = none ∧
          (env.tables router.dynamicHosts).lookup H U (H.display query.name) query.queryType
            request.id = none ∧
          ∀ group ∈ router.chosenGroup (H.display query.name),
            ∀ reply, ownReply H router.strategy env.net group request query.queryType = .ok reply →
              reply.messageType = .response

theorem UpstreamGroup.query_after (net : Network) (group : UpstreamGroup) (alternate : Bool)
    (request : Message) : (group.query H net alternate request).2 = group.afterQuery := by
  unfold UpstreamGroup.query UpstreamGroup.afterQuery
  split
  · rfl
  · cases group.strategy <;> rfl

/-- A merged answer is the own answer with the request's ID and other records. -/
theorem joinAnswers_own {request response : Message} {own other : Run QueryError Message}
    {requestFirst : Bool} (h : joinAnswers request own other requestFirst = .ok response) :
    ∃ answer, own = .ok answer ∧ response.id = request.id ∧ response.queries = answer.queries ∧
      response.messageType = answer.messageType := by
  unfold joinAnswers at h
  split at h
  · cases h
  · cases h
  · cases h
  · cases h
    exact ⟨_, rfl, rfl, rfl, rfl⟩
  · cases h
    exact ⟨_, rfl, rfl, rfl, rfl⟩

/-- Under every strategy the answer has the questions and the response bit of
the reply to the request itself. -/
theorem queryWithStrategy_own {net : Network} {strategy : IpStrategy} {group : UpstreamGroup}
    {request response : Message} {qtype : RecordType}
    (h : (queryWithStrategy H strategy net group request qtype).1 = .ok response) :
    ∃ reply, ownReply H strategy net group request qtype = .ok reply ∧
      (response.id = request.id ∨ response.id = reply.id) ∧ response.queries = reply.queries ∧
      response.messageType = reply.messageType := by
  have hboth : ∀ {altType : RecordType} {requestFirst : Bool},
      (queryBoth H net group request altType requestFirst).1 = .ok response →
      asksOtherFirst strategy qtype = !requestFirst →
      ∃ reply, ownReply H strategy net group request qtype = .ok reply ∧
        (response.id = request.id ∨ response.id = reply.id) ∧ response.queries = reply.queries ∧
        response.messageType = reply.messageType := by
    intro altType requestFirst hjoin hfirst
    unfold queryBoth at hjoin
    unfold ownReply
    cases requestFirst with
    | true =>
        obtain ⟨answer, hown, hid, hrest⟩ := joinAnswers_own hjoin
        rw [hfirst]
        exact ⟨answer, hown, Or.inl hid, hrest⟩
    | false =>
        obtain ⟨answer, hown, hid, hrest⟩ := joinAnswers_own hjoin
        rw [hfirst, ← UpstreamGroup.query_after net group true (rewriteQtype request altType)]
        exact ⟨answer, hown, Or.inl hid, hrest⟩
  unfold queryWithStrategy at h
  split at h
  · rename_i hcase
    exact hboth h (by rw [hcase.1, hcase.2]; decide)
  · split at h
    · rename_i hcase
      exact hboth h (by rw [hcase.1, hcase.2]; decide)
    · split at h
      · rename_i hcase
        exact hboth h (by rw [hcase.1, hcase.2]; decide)
      · split at h
        · rename_i hcase
          exact hboth h (by rw [hcase.1, hcase.2]; decide)
        · rename_i hfirst hsecond hthird hfourth
          refine ⟨response, ?_, Or.inr rfl, rfl, rfl⟩
          have hplain : asksOtherFirst strategy qtype = false := by
            rw [asksOtherFirst, Bool.or_eq_false_iff]
            constructor
            · simpa using hsecond
            · simpa using hfourth
          unfold ownReply
          rw [hplain]
          exact h

/-- The answer of an upstream that echoes has the response bit exactly when
the upstream's own reply has it. -/
theorem queryWithStrategy_answers_iff (hlaw : Lawful H) {net : Network} (hnet : net.Echoes H)
    {strategy : IpStrategy} {group : UpstreamGroup} {request response : Message}
    {qtype : RecordType}
    (h : (queryWithStrategy H strategy net group request qtype).1 = .ok response) :
    Answers request response ↔
      ∀ reply, ownReply H strategy net group request qtype = .ok reply →
        reply.messageType = .response := by
  obtain ⟨reply, hreply, hid, hqueries, htype⟩ := queryWithStrategy_own h
  have hechoed : Echoed request reply := UpstreamGroup.query_echoed hlaw hnet hreply
  constructor
  · intro hanswers other hother
    rw [hreply] at hother
    cases hother
    rw [← htype]
    exact hanswers.is_response
  · intro hbit
    refine ⟨⟨?_, ?_⟩, ?_⟩
    · rcases hid with hid | hid
      · exact hid
      · exact hid.trans hechoed.id_eq
    · rw [hqueries]
      exact hechoed.queries_eq
    · rw [htype]
      exact hbit reply hreply

/-- A look into the cache changes nothing but the cache. -/
theorem Router.cacheGet_same (router : Router F R C) (name : String) (qtype : RecordType)
    (now : Nat) :
    ∃ cache, (router.cacheGet U name qtype now).2 = { router with cache := cache } := by
  unfold Router.cacheGet
  split
  · exact ⟨_, rfl⟩
  · exact ⟨_, rfl⟩

/-- The ways a resolution of a query with this first question ends: before it
reaches an upstream, or with what the upstreams make of it. -/
inductive Router.Resolution (H : HickoryCrate) (U : UnicodeTables) (router : Router F R C)
    (env : Env) (request : Message) (query : Query) :
    Run QueryError (Message × ResolveMeta) × Router F R C → Prop where
  | suppressed (info : ResolveMeta) :
      suppresses router.strategy query.queryType = true →
      Resolution H U router env request query (.ok (emptyNoerror request, info), router)
  | cached {stored : Message} {originalUpstream : String} {router' : Router F R C}
      (info : ResolveMeta) :
      suppresses router.strategy query.queryType = false →
      router.cacheGet U (H.display query.name) query.queryType env.lookedUpAt =
        (some (stored, originalUpstream), router') →
      Resolution H U router env request query
        (.ok ({ stored with id := request.id }, info), router')
  | hosts {response : Message} {router' : Router F R C} (info : ResolveMeta) :
      suppresses router.strategy query.queryType = false →
      router.cacheGet U (H.display query.name) query.queryType env.lookedUpAt = (none, router') →
      (router.hosts.lookup H U (H.display query.name) query.queryType request.id = some response ∨
        router.hosts.lookup H U (H.display query.name) query.queryType request.id = none ∧
        (env.tables router.dynamicHosts).lookup H U (H.display query.name) query.queryType
          request.id = some response) →
      Resolution H U router env request query (.ok (response, info), router')
  | upstream {router' : Router F R C} :
      suppresses router.strategy query.queryType = false →
      router.cacheGet U (H.display query.name) query.queryType env.lookedUpAt = (none, router') →
      router.hosts.lookup H U (H.display query.name) query.queryType request.id = none →
      (env.tables router.dynamicHosts).lookup H U (H.display query.name) query.queryType
        request.id = none →
      Resolution H U router env request query
        (router'.answerFromUpstream H U env request (H.display query.name) query.queryType)

theorem Router.resolution (router : Router F R C) (env : Env) {request : Message} {query : Query}
    (hquery : request.queries.head? = some query) :
    Router.Resolution H U router env request query (router.resolveWithMeta H U env request) := by
  obtain ⟨cache, hsame⟩ :=
    router.cacheGet_same (U := U) (H.display query.name) query.queryType env.lookedUpAt
  unfold Router.resolveWithMeta
  rw [hquery]
  dsimp only
  split
  · rename_i hsuppressed
    exact .suppressed _ hsuppressed
  · rename_i hsuppressed
    rw [Bool.not_eq_true] at hsuppressed
    split
    · rename_i hget
      exact .cached _ hsuppressed hget
    · rename_i router' hget
      rw [hget] at hsame
      dsimp only at hsame
      subst hsame
      dsimp only
      split
      · rename_i hstatic
        exact .hosts _ hsuppressed hget (Or.inl hstatic)
      · rename_i hstatic
        split
        · rename_i hdynamic
          exact .hosts _ hsuppressed hget (Or.inr ⟨hstatic, hdynamic⟩)
        · rename_i hdynamic
          exact .upstream hsuppressed hget hstatic hdynamic

theorem Router.askUpstream_ok {router : Router F R C} {env : Env} {request response : Message}
    {name key : String} {qtype : RecordType} {group : UpstreamGroup} {info info' : ResolveMeta}
    (h : (router.askUpstream H U env request name qtype key group info).1 =
      .ok (response, info')) :
    (queryWithStrategy H router.strategy env.net group request qtype).1 = .ok response := by
  unfold Router.askUpstream at h
  dsimp only at h
  split at h
  · cases h
  · rename_i answer hanswer
    cases h
    exact hanswer

/-- An upstream's answer is one of the chosen group. -/
theorem Router.answerFromUpstream_ok {router : Router F R C} {env : Env}
    {request response : Message} {name : String} {qtype : RecordType} {info : ResolveMeta}
    (h : (router.answerFromUpstream H U env request name qtype).1 = .ok (response, info)) :
    ∃ group, router.chosenGroup name = some group ∧
      (queryWithStrategy H router.strategy env.net group request qtype).1 = .ok response := by
  unfold Router.answerFromUpstream at h
  unfold Router.chosenGroup
  cases hselect : selectRule router.upstreams (normalizeDomain name) router.rules with
  | error e =>
      rw [hselect] at h
      cases h
  | ok selected =>
      rw [hselect] at h
      cases selected with
      | some chosen => exact ⟨chosen.2, rfl, askUpstream_ok h⟩
      | none =>
          dsimp only at h
          unfold Router.answerByDefault at h
          split at h
          · cases h
          · rename_i group hgroup
            exact ⟨group, hgroup, askUpstream_ok h⟩

/-- A reply answers the request exactly when it comes with its questions and
the response bit, whatever the router has met before. -/
theorem reply_answers_iff (hlaw : Lawful H) {router : Router F R C} {env : Env}
    (hnet : env.net.Echoes H) {request response : Message} {info : ResolveMeta}
    (hrequest : request.queries ≠ [])
    (hok : (router.resolveWithMeta H U env request).1 = .ok (response, info)) :
    Answers request response ↔ router.KeepsQuestions H U env request := by
  obtain ⟨first, rest, hqueries⟩ := List.exists_cons_of_ne_nil hrequest
  have hhead : request.queries.head? = some first := by rw [hqueries]; rfl
  have hresolution := router.resolution (H := H) (U := U) env hhead
  generalize router.resolveWithMeta H U env request = result at hresolution hok
  unfold Router.KeepsQuestions
  simp only [hhead, Option.mem_some_iff, forall_eq']
  cases hresolution with
  | suppressed _ hsuppressed =>
      cases hok
      constructor
      · intro _ hnot
        rw [hsuppressed] at hnot
        cases hnot
      · intro _
        exact ⟨⟨rfl, rfl⟩, rfl⟩
  | cached _ hsuppressed hget =>
      cases hok
      rw [hget]
      constructor
      · intro hanswers _
        exact ⟨hanswers.is_response, hanswers.queries_eq⟩
      · intro hkeeps
        obtain ⟨hbit, hsame⟩ := hkeeps hsuppressed
        exact ⟨⟨rfl, hsame⟩, hbit⟩
  | hosts _ hsuppressed hget hlookup =>
      cases hok
      rw [hget]
      have hempty : response.queries = [] := by
        rcases hlookup with hstatic | ⟨_, hdynamic⟩
        · exact (HostsTable.lookup_some hstatic).2.2
        · exact (DynamicHosts.lookup_some hdynamic).2.2
      constructor
      · intro hanswers
        have hnone := hanswers.queries_eq
        rw [hempty, hqueries] at hnone
        cases hnone
      · intro hnone
        obtain ⟨hstatic, hdynamic, _⟩ := hnone hsuppressed
        rw [hstatic, hdynamic] at hlookup
        rcases hlookup with hfound | ⟨_, hfound⟩
        · cases hfound
        · cases hfound
  | @upstream asked hsuppressed hget hstatic hdynamic =>
      obtain ⟨cache, hsame⟩ :=
        router.cacheGet_same (U := U) (H.display first.name) first.queryType env.lookedUpAt
      rw [hget] at hsame
      dsimp only at hsame
      subst hsame
      obtain ⟨group, hgroup, hanswer⟩ := Router.answerFromUpstream_ok hok
      have hgroup : router.chosenGroup (H.display first.name) = some group := hgroup
      have hiff := queryWithStrategy_answers_iff hlaw hnet hanswer
      rw [hget]
      simp only [hgroup, Option.mem_some_iff, forall_eq']
      constructor
      · intro hanswers _
        exact ⟨hstatic, hdynamic, hiff.mp hanswers⟩
      · intro hkeeps
        exact hiff.mpr (hkeeps hsuppressed).2.2

/-- A network without replies. -/
def silentEnv : Env where
  net :=
    { exchange := fun _ _ _ => .timedOut
      queryId := fun _ => 0
      pooled := fun _ => false
      dhcpServers := fun _ => []
      expired := fun _ _ => false
      completion := fun _ => [] }
  lookedUpAt := 0
  storedAt := 0
  tables := fun _ => {}

theorem silentEnv_echoes (H : HickoryCrate) : silentEnv.net.Echoes H := by
  intro site endpoint query wire bytes response _ hreply
  cases hreply

/-- A router that refuses every name its hosts table does not have. -/
def refusingRouter (hosts : List (String × IpAddr)) : Router listFst literalRegex listLru where
  hosts := HostsTable.new asciiTables hosts
  rules := []
  upstreams := (∅ : StringMap UpstreamGroup).insert "default"
    { servers := [{ kind := .rcode .refused, url := "rcode://refused" }], strategy := .roundRobin }
  cache := some (DnsCache.new listLru 4096 60 3600)
  strategy := .default
  dynamicHosts := 0

theorem refusingRouter_fresh (hosts : List (String × IpAddr)) : (refusingRouter hosts).Fresh := by
  intro cache hcache
  cases hcache
  rfl

theorem reply_answers_iff_refused :
    Answers sampleRequest
        { sampleRequest with messageType := .response, responseCode := .refused } ↔
      (refusingRouter []).KeepsQuestions questionCodec asciiTables silentEnv sampleRequest :=
  reply_answers_iff questionCodec_lawful (silentEnv_echoes _) (by decide) (by rfl)

/-- A name of the static hosts table is answered without the question. -/
theorem hosts_reply_without_question :
    ¬ ∀ (H : HickoryCrate) (U : UnicodeTables) (F : FstCrate) (R : RegexCrate)
      (C : CacheCrate)
      (start router : Router F R C) (queries : List (Env × Message)) (env : Env)
      (request response : Message) (info : ResolveMeta), Lawful H → start.Fresh →
      Steps (Serves H U) start queries router → env.net.Echoes H → request.queries ≠ [] →
      (router.resolveWithMeta H U env request).1 = .ok (response, info) →
      Answers request response := by
  intro hclaim
  have hanswers := hclaim questionCodec asciiTables listFst literalRegex listLru
    (refusingRouter [("a", .v4 0xc0000201)]) _ [] silentEnv sampleRequest _ _ questionCodec_lawful
    (refusingRouter_fresh _) (Steps.done _) (silentEnv_echoes _) (by decide) (by rfl)
  cases hanswers.queries_eq

end Relay.Dns
