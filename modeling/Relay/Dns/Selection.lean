import Relay.Dns.Reply
import Relay.Ruleset.SuffixMatch

/-!
Where a query goes once no table answers it: to the group of the first rule
that accepts its name, or to the default group. What is stored then, and what
serving leaves as it is: the hosts, the rules and the kind of every group.
-/

namespace Relay.Dns

open Binary Text Upstream Ruleset Logic Storage

variable {F : FstCrate} {R : RegexCrate} {C : CacheCrate}

/-- The group a query is sent to, and whether a rule chose it. -/
structure Source where
  upstream : String
  byRule : Bool
  deriving DecidableEq, Repr

/-- The name a source's answers are stored with. -/
def Source.attribution (source : Source) (rcode : Bool) : String :=
  if source.byRule && rcode then "rcode:" ++ source.upstream else source.upstream

/-- The first rule that accepts the name and whose group there is. -/
def Router.firstRule (router : Router F R C) (name : String) : Option (LoadedRule F R) :=
  router.rules.find? fun rule =>
    rule.ruleset.accepts name && (router.upstreams.lookup rule.upstream).isSome

def Router.source (router : Router F R C) (name : String) : Source :=
  match router.firstRule name with
  | some rule => ⟨rule.upstream, true⟩
  | none => ⟨"default", false⟩

/-- The group of this name has `rcode://` servers only. -/
def Router.refuses (router : Router F R C) (upstream : String) : Bool :=
  match router.upstreams.lookup upstream with
  | some group => group.isRcode
  | none => false

/-- The name that the answers for a name are stored with. -/
def Router.attribution (router : Router F R C) (name : String) : String :=
  (router.source name).attribution (router.refuses (router.source name).upstream)

variable (H : HickoryCrate) (U : UnicodeTables)

/-- What an answer of the source is reported as. -/
def sourceMeta (source : Source) (rcode : Bool) (name : String) (qtype : RecordType)
    (response : Message) : ResolveMeta where
  domain := name
  qtype := qtypeName H U qtype
  upstream := source.upstream
  originalUpstream := source.attribution rcode
  rcode := rcodeStr response
  rule := if source.byRule then some source.upstream else none
  blocked := source.byRule && rcode

/-- What a hit in the cache is reported as. -/
def cachedMeta (name : String) (qtype : RecordType) (originalUpstream : String)
    (response : Message) : ResolveMeta where
  domain := name
  qtype := qtypeName H U qtype
  upstream := "cache"
  originalUpstream := originalUpstream
  rcode := rcodeStr response
  cached := true
  blocked := originalUpstream.startsWith "rcode:"

/-- One query, with the router after it. -/
def Asked (router : Router F R C) (query : Env × Message) (router' : Router F R C) : Prop :=
  router' = (router.resolveWithMeta H U query.1 query.2).2

/-- The first question, when it is answered by an upstream. -/
def Router.forwards? (router : Router F R C) (env : Env) (request : Message) : Option Query :=
  request.queries.head?.filter fun query =>
    let name := H.display query.name
    !suppresses router.strategy query.queryType &&
      (router.cacheGet U name query.queryType env.lookedUpAt).1.isNone &&
      (router.hosts.lookup H U name query.queryType request.id).isNone &&
      ((env.tables router.dynamicHosts).lookup H U name query.queryType request.id).isNone &&
      (router.resolveWithMeta H U env request).1.isOk

variable {H U}

/-! ### The rule that is selected -/

theorem accepts_eq (drs : DrsFile F R) (name : String) :
    drs.accepts name = match drs.matchesNormalized (normalizeDomain name) with
      | .ok (some _) => true
      | _ => false := by
  unfold DrsFile.accepts
  rw [DrsFile.matches_eq]
  rfl

/-- The ruleset of one keyword. -/
def keywordRuleset (F : FstCrate) (R : RegexCrate) (keyword : String) : DrsFile F R where
  domainFst := none
  suffixFst := none
  keywords := [keyword]
  regexes := none
  ipv4Ranges := []
  ipv6Ranges := []
  ports := []
  excludeDomainFst := none
  excludeSuffixFst := none
  excludeRegexes := none
  hasDomainMatchers := false
  hasSuffixMatchers := false
  hasKeywordMatchers := true
  hasRegexMatchers := false
  hasIpMatchers := false
  hasPortMatchers := false
  buildTime := 0
  sourceHash := []
  domainCount := 0
  suffixCount := 0
  keywordCount := 1
  regexCount := 0
  ipv4CidrCount := 0
  ipv6CidrCount := 0
  portCount := 0
  excludeDomainCount := 0
  excludeSuffixCount := 0
  excludeRegexCount := 0

theorem keywordRuleset_accepts (keyword name : String) :
    (keywordRuleset F R keyword).accepts name =
      containsText (normalizeDomain name) keyword := by
  have hmatch : (keywordRuleset F R keyword).matchesNormalized (normalizeDomain name) =
      .ok (if containsText (normalizeDomain name) keyword then some .domainKeyword else none) := by
    have hany : [keyword].any (containsText (normalizeDomain name)) =
        containsText (normalizeDomain name) keyword := by simp
    unfold DrsFile.matchesNormalized
    change (if true && [keyword].any (containsText (normalizeDomain name)) then _ else _) = _
    rw [hany]
    cases containsText (normalizeDomain name) keyword <;> rfl
  rw [accepts_eq, hmatch]
  cases containsText (normalizeDomain name) keyword <;> rfl

theorem Router.source_default {router : Router F R C} {name : String}
    (h : (router.source name).byRule = false) : (router.source name).upstream = "default" := by
  unfold Router.source at h ⊢
  split at h
  · cases h
  · rfl

theorem selectRule_eq (upstreams : StringMap UpstreamGroup) (name : String)
    (rules : List (LoadedRule F R)) :
    selectRule upstreams (normalizeDomain name) rules =
      .ok ((rules.find? fun rule =>
        rule.ruleset.accepts name && (upstreams.lookup rule.upstream).isSome).bind fun rule =>
          (upstreams.lookup rule.upstream).map fun group => (rule.upstream, group)) := by
  induction rules with
  | nil => rfl
  | cons rule rules ih =>
      obtain ⟨result, hresult⟩ := rule.ruleset.matchesNormalized_total (normalizeDomain name)
      have haccepts := accepts_eq rule.ruleset name
      unfold selectRule
      rw [hresult] at haccepts
      rw [hresult, run_ok_bind, List.find?_cons]
      cases result with
      | none =>
          rw [haccepts]
          exact ih
      | some found =>
          rw [haccepts]
          cases hlookup : upstreams.lookup rule.upstream with
          | none => exact ih
          | some group => simp [hlookup]; rfl

/-- The rules and the default case are one: the source's group is asked. -/
theorem Router.answerFromUpstream_eq (router : Router F R C) (env : Env) (request : Message)
    (name : String) (qtype : RecordType) :
    router.answerFromUpstream H U env request name qtype =
      match router.upstreams.lookup (router.source name).upstream with
      | none => (fail .noDefaultUpstream, router)
      | some group =>
          router.askUpstream H U env request name qtype (router.source name).upstream group
            { sourceMeta H U (router.source name) group.isRcode name qtype {} with rcode := "" } := by
  have hselect := selectRule_eq router.upstreams name router.rules
  unfold Router.answerFromUpstream
  rw [hselect]
  unfold Router.source Router.firstRule
  cases hfind : router.rules.find? (fun rule =>
      rule.ruleset.accepts name && (router.upstreams.lookup rule.upstream).isSome) with
  | none => rfl
  | some rule =>
      have hknown := List.find?_some hfind
      simp only [Bool.and_eq_true] at hknown
      obtain ⟨group, hgroup⟩ := Option.isSome_iff_exists.mp hknown.2
      dsimp only
      rw [Option.bind_some, hgroup]
      cases hrcode : group.isRcode with
      | true => simp [Router.answerByRule, sourceMeta, Source.attribution, hrcode]
      | false => simp [Router.answerByRule, sourceMeta, Source.attribution, hrcode]

/-! ### What serving keeps -/

/-- Everything the choice of a source depends on. -/
structure Router.Keeps (router router' : Router F R C) : Prop where
  hosts : router'.hosts = router.hosts
  rules : router'.rules = router.rules
  strategy : router'.strategy = router.strategy
  dynamicHosts : router'.dynamicHosts = router.dynamicHosts
  servers : ∀ name, (router'.upstreams.lookup name).map (·.servers) =
    (router.upstreams.lookup name).map (·.servers)

theorem Router.Keeps.refl (router : Router F R C) : router.Keeps router :=
  ⟨rfl, rfl, rfl, rfl, fun _ => rfl⟩

theorem Router.Keeps.trans {router router' router'' : Router F R C} (h : router.Keeps router')
    (h' : router'.Keeps router'') : router.Keeps router'' where
  hosts := h'.hosts.trans h.hosts
  rules := h'.rules.trans h.rules
  strategy := h'.strategy.trans h.strategy
  dynamicHosts := h'.dynamicHosts.trans h.dynamicHosts
  servers name := (h'.servers name).trans (h.servers name)

theorem Router.Keeps.known {router router' : Router F R C} (h : router.Keeps router')
    (name : String) :
    (router'.upstreams.lookup name).isSome = (router.upstreams.lookup name).isSome := by
  have hservers := congrArg Option.isSome (h.servers name)
  rwa [Option.isSome_map, Option.isSome_map] at hservers

/-- A group's kind is that of its servers. -/
theorem Router.refuses_eq (router : Router F R C) (upstream : String) :
    router.refuses upstream =
      match (router.upstreams.lookup upstream).map (·.servers) with
      | some servers => servers.all fun server => server.kind.isRcode
      | none => false := by
  unfold Router.refuses
  cases router.upstreams.lookup upstream <;> rfl

theorem Router.Keeps.refuses {router router' : Router F R C} (h : router.Keeps router')
    (name : String) : router'.refuses name = router.refuses name := by
  rw [Router.refuses_eq, Router.refuses_eq, h.servers]

theorem Router.Keeps.source {router router' : Router F R C} (h : router.Keeps router')
    (name : String) : router'.source name = router.source name := by
  unfold Router.source Router.firstRule
  simp only [h.rules, h.known]

theorem Router.Keeps.attribution {router router' : Router F R C} (h : router.Keeps router')
    (name : String) : router'.attribution name = router.attribution name := by
  unfold Router.attribution
  rw [h.source, h.refuses]

/-- A group's servers stay the same; only its counter moves. -/
theorem UpstreamGroup.query_servers (net : Network) (group : UpstreamGroup) (alternate : Bool)
    (request : Message) : (group.query H net alternate request).2.servers = group.servers := by
  unfold UpstreamGroup.query
  split
  · rfl
  · split <;> rfl

theorem queryBoth_servers (net : Network) (group : UpstreamGroup) (request : Message)
    (altType : RecordType) (requestFirst : Bool) :
    (queryBoth H net group request altType requestFirst).2.servers = group.servers := by
  unfold queryBoth
  cases requestFirst with
  | true => exact (UpstreamGroup.query_servers ..).trans (UpstreamGroup.query_servers ..)
  | false => exact (UpstreamGroup.query_servers ..).trans (UpstreamGroup.query_servers ..)

theorem queryWithStrategy_servers (strategy : IpStrategy) (net : Network) (group : UpstreamGroup)
    (request : Message) (qtype : RecordType) :
    (queryWithStrategy H strategy net group request qtype).2.servers = group.servers := by
  unfold queryWithStrategy
  split
  · apply queryBoth_servers
  · split
    · apply queryBoth_servers
    · split
      · apply queryBoth_servers
      · split
        · apply queryBoth_servers
        · apply UpstreamGroup.query_servers

theorem Router.keeps_insert {router : Router F R C} {key : String} {group group' : UpstreamGroup}
    (hlookup : router.upstreams.lookup key = some group)
    (hservers : group'.servers = group.servers) :
    router.Keeps { router with upstreams := router.upstreams.insert key group' } := by
  refine ⟨rfl, rfl, rfl, rfl, ?_⟩
  intro name
  by_cases hname : name = key
  · subst hname
    rw [AList.lookup_insert, hlookup]
    exact congrArg some hservers
  · rw [AList.lookup_insert_ne hname]

theorem Router.keeps_cacheGet (router : Router F R C) (name : String) (qtype : RecordType)
    (now : Nat) : router.Keeps (router.cacheGet U name qtype now).2 := by
  unfold Router.cacheGet
  split
  · exact .refl router
  · exact ⟨rfl, rfl, rfl, rfl, fun _ => rfl⟩

theorem Router.cacheGet_upstreams (router : Router F R C) (name : String) (qtype : RecordType)
    (now : Nat) : (router.cacheGet U name qtype now).2.upstreams = router.upstreams := by
  unfold Router.cacheGet
  split <;> rfl

theorem Router.keeps_cacheInsert (router : Router F R C) (name : String) (qtype : RecordType)
    (response : Message) (originalUpstream : String) (now : Nat) :
    router.Keeps (router.cacheInsert U name qtype response originalUpstream now) :=
  ⟨rfl, rfl, rfl, rfl, fun _ => rfl⟩

/-- The source's answer, and what is stored of it. -/
theorem Router.answerFromUpstream_cases (router : Router F R C) (env : Env) (request : Message)
    (name : String) (qtype : RecordType) :
    let outcome := router.answerFromUpstream H U env request name qtype
    router.Keeps outcome.2 ∧
      ((∃ e, outcome.1 = .error e) ∧ outcome.2.cache = router.cache ∨
        ∃ group response, router.upstreams.lookup (router.source name).upstream = some group ∧
          (queryWithStrategy H router.strategy env.net group request qtype).1 = .ok response ∧
          outcome.1 = .ok (response, sourceMeta H U (router.source name)
            (router.refuses (router.source name).upstream) name qtype response) ∧
          outcome.2.cache = router.cache.map fun cache =>
            cache.insert U name qtype response (router.attribution name) env.storedAt) := by
  intro outcome
  have houtcome := router.answerFromUpstream_eq (H := H) (U := U) env request name qtype
  cases hlookup : router.upstreams.lookup (router.source name).upstream with
  | none =>
      rw [hlookup] at houtcome
      have hsame : outcome = (fail .noDefaultUpstream, router) := houtcome
      rw [hsame]
      exact ⟨.refl router, Or.inl ⟨⟨_, rfl⟩, rfl⟩⟩
  | some group =>
      have hrefuses : router.refuses (router.source name).upstream = group.isRcode := by
        unfold Router.refuses
        rw [hlookup]
      rw [hlookup] at houtcome
      have hkeeps := Router.keeps_insert hlookup
        (queryWithStrategy_servers (H := H) router.strategy env.net group request qtype)
      have hsame : outcome = router.askUpstream H U env request name qtype
          (router.source name).upstream group _ := houtcome
      unfold Router.askUpstream at hsame
      dsimp only at hsame
      cases hanswer : (queryWithStrategy H router.strategy env.net group request qtype).1 with
      | error e =>
          rw [hanswer] at hsame
          rw [hsame]
          exact ⟨hkeeps, Or.inl ⟨⟨e, rfl⟩, rfl⟩⟩
      | ok response =>
          rw [hanswer] at hsame
          rw [hsame]
          refine ⟨hkeeps.trans (Router.keeps_cacheInsert ..), Or.inr ?_⟩
          refine ⟨group, response, rfl, hanswer, ?_, ?_⟩
          · rw [hrefuses]
            rfl
          · unfold Router.attribution
            rw [hrefuses]
            rfl

/-! ### One query -/

theorem Router.forwards?_eq_some {router : Router F R C} {env : Env} {request : Message}
    {query : Query} :
    router.forwards? H U env request = some query ↔
      request.queries.head? = some query ∧
      suppresses router.strategy query.queryType = false ∧
      (router.cacheGet U (H.display query.name) query.queryType env.lookedUpAt).1 = none ∧
      router.hosts.lookup H U (H.display query.name) query.queryType request.id = none ∧
      (env.tables router.dynamicHosts).lookup H U (H.display query.name) query.queryType
        request.id = none ∧
      (router.resolveWithMeta H U env request).1.isOk = true := by
  unfold Router.forwards?
  rw [Option.filter_eq_some_iff]
  simp only [Bool.and_eq_true, Bool.not_eq_true', Option.isNone_iff_eq_none, and_assoc]

theorem Router.resolve_suppressed {router : Router F R C} {env : Env} {request : Message}
    {query : Query} (hquery : request.queries.head? = some query)
    (hsuppressed : suppresses router.strategy query.queryType = true) :
    (router.resolveWithMeta H U env request).1 =
      .ok (emptyNoerror request,
        { domain := H.display query.name
          qtype := qtypeName H U query.queryType
          upstream := "strategy"
          originalUpstream := "strategy"
          rcode := "Empty" }) := by
  unfold Router.resolveWithMeta
  rw [hquery]
  dsimp only
  rw [hsuppressed]
  rfl

/-- A hit is reported with the name its message was stored with. -/
theorem Router.resolve_cached {router : Router F R C} {env : Env} {request : Message}
    {query : Query} (hquery : request.queries.head? = some query)
    (hsuppressed : suppresses router.strategy query.queryType = false)
    {stored : Message} {originalUpstream : String}
    (hhit : (router.cacheGet U (H.display query.name) query.queryType env.lookedUpAt).1 =
      some (stored, originalUpstream)) :
    (router.resolveWithMeta H U env request).1 = .ok ({ stored with id := request.id },
      cachedMeta H U (H.display query.name) query.queryType originalUpstream
        { stored with id := request.id }) := by
  have hget : router.cacheGet U (H.display query.name) query.queryType env.lookedUpAt =
      (some (stored, originalUpstream),
        (router.cacheGet U (H.display query.name) query.queryType env.lookedUpAt).2) :=
    Prod.ext hhit rfl
  unfold Router.resolveWithMeta
  rw [hquery]
  dsimp only
  rw [hsuppressed, hget]
  rfl

/-- Behind a miss come the static hosts, then the dynamic ones, then the
upstreams. -/
theorem Router.resolve_missed {router router' : Router F R C} {env : Env} {request : Message}
    {query : Query} (hquery : request.queries.head? = some query)
    (hsuppressed : suppresses router.strategy query.queryType = false)
    (hget : router.cacheGet U (H.display query.name) query.queryType env.lookedUpAt =
      (none, router')) :
    router.resolveWithMeta H U env request =
      match router.hosts.lookup H U (H.display query.name) query.queryType request.id with
      | some response =>
          (.ok (response, hostsMeta H U (H.display query.name) query.queryType "hosts" response),
            router')
      | none =>
          match (env.tables router.dynamicHosts).lookup H U (H.display query.name)
            query.queryType request.id with
          | some response =>
              (.ok (response,
                hostsMeta H U (H.display query.name) query.queryType "dynamic-hosts" response),
                router')
          | none =>
              router'.answerFromUpstream H U env request (H.display query.name) query.queryType := by
  obtain ⟨cache, hsame⟩ :=
    router.cacheGet_same (U := U) (H.display query.name) query.queryType env.lookedUpAt
  rw [hget] at hsame
  dsimp only at hsame
  subst hsame
  unfold Router.resolveWithMeta
  rw [hquery]
  dsimp only
  rw [hsuppressed, if_neg Bool.false_ne_true]
  generalize router.cacheGet U (H.display query.name) query.queryType env.lookedUpAt = read at hget
  subst hget
  rfl

theorem Router.resolve_static {router : Router F R C} {env : Env} {request : Message}
    {query : Query} (hquery : request.queries.head? = some query)
    (hsuppressed : suppresses router.strategy query.queryType = false)
    (hmiss : (router.cacheGet U (H.display query.name) query.queryType env.lookedUpAt).1 = none)
    {response : Message}
    (hstatic : router.hosts.lookup H U (H.display query.name) query.queryType request.id =
      some response) :
    (router.resolveWithMeta H U env request).1 =
      .ok (response, hostsMeta H U (H.display query.name) query.queryType "hosts" response) := by
  rw [Router.resolve_missed hquery hsuppressed (Prod.ext hmiss rfl), hstatic]

theorem Router.resolve_dynamic {router : Router F R C} {env : Env} {request : Message}
    {query : Query} (hquery : request.queries.head? = some query)
    (hsuppressed : suppresses router.strategy query.queryType = false)
    (hmiss : (router.cacheGet U (H.display query.name) query.queryType env.lookedUpAt).1 = none)
    (hstatic : router.hosts.lookup H U (H.display query.name) query.queryType request.id = none)
    {response : Message}
    (hdynamic : (env.tables router.dynamicHosts).lookup H U (H.display query.name)
      query.queryType request.id = some response) :
    (router.resolveWithMeta H U env request).1 =
      .ok (response,
        hostsMeta H U (H.display query.name) query.queryType "dynamic-hosts" response) := by
  rw [Router.resolve_missed hquery hsuppressed (Prod.ext hmiss rfl), hstatic]
  dsimp only
  rw [hdynamic]

theorem Router.resolve_forwarded {router router' : Router F R C} {env : Env} {request : Message}
    {query : Query} (hquery : request.queries.head? = some query)
    (hsuppressed : suppresses router.strategy query.queryType = false)
    (hget : router.cacheGet U (H.display query.name) query.queryType env.lookedUpAt =
      (none, router'))
    (hstatic : router.hosts.lookup H U (H.display query.name) query.queryType request.id = none)
    (hdynamic : (env.tables router.dynamicHosts).lookup H U (H.display query.name)
      query.queryType request.id = none) :
    router.resolveWithMeta H U env request =
      router'.answerFromUpstream H U env request (H.display query.name) query.queryType := by
  rw [Router.resolve_missed hquery hsuppressed hget, hstatic]
  dsimp only
  rw [hdynamic]

/-- Without a hit, the outcome is what the source's group makes of the query. -/
theorem Router.resolve_source {router : Router F R C} {env : Env} {request : Message}
    {query : Query} (hquery : request.queries.head? = some query)
    (hsuppressed : suppresses router.strategy query.queryType = false)
    (hmiss : (router.cacheGet U (H.display query.name) query.queryType env.lookedUpAt).1 = none)
    (hstatic : router.hosts.lookup H U (H.display query.name) query.queryType request.id = none)
    (hdynamic : (env.tables router.dynamicHosts).lookup H U (H.display query.name)
      query.queryType request.id = none)
    {group : UpstreamGroup}
    (hgroup : router.upstreams.lookup (router.source (H.display query.name)).upstream =
      some group) :
    (router.resolveWithMeta H U env request).1 =
      (queryWithStrategy H router.strategy env.net group request query.queryType).1.map
        fun response => (response, sourceMeta H U (router.source (H.display query.name))
          group.isRcode (H.display query.name) query.queryType response) := by
  have hkeeps := router.keeps_cacheGet (U := U) (H.display query.name) query.queryType
    env.lookedUpAt
  have hget : router.cacheGet U (H.display query.name) query.queryType env.lookedUpAt =
      (none, (router.cacheGet U (H.display query.name) query.queryType env.lookedUpAt).2) :=
    Prod.ext hmiss rfl
  rw [Router.resolve_forwarded hquery hsuppressed hget hstatic hdynamic,
    Router.answerFromUpstream_eq, hkeeps.source, router.cacheGet_upstreams, hgroup]
  dsimp only
  unfold Router.askUpstream
  rw [hkeeps.strategy]
  dsimp only
  cases (queryWithStrategy H router.strategy env.net group request query.queryType).1 <;> rfl

theorem Asked.keeps {router router' : Router F R C} {query : Env × Message}
    (h : Asked H U router query router') : router.Keeps router' := by
  obtain ⟨env, request⟩ := query
  have hafter : router' = (router.resolveWithMeta H U env request).2 := h
  rw [hafter]
  cases hhead : request.queries.head? with
  | none =>
      unfold Router.resolveWithMeta
      rw [hhead]
      exact .refl router
  | some first =>
      have hresolution := router.resolution (H := H) (U := U) env hhead
      have hget := router.keeps_cacheGet (U := U) (H.display first.name) first.queryType
        env.lookedUpAt
      generalize router.resolveWithMeta H U env request = outcome at hresolution ⊢
      cases hresolution with
      | suppressed => exact .refl router
      | cached _ _ hcached =>
          rw [hcached] at hget
          exact hget
      | hosts _ _ hcached =>
          rw [hcached] at hget
          exact hget
      | upstream _ hcached =>
          rw [hcached] at hget
          exact hget.trans (Router.answerFromUpstream_cases ..).1

/-- A forwarded query gets its source's answer. -/
theorem Router.forwards?_answer {router : Router F R C} {env : Env} {request : Message}
    {query : Query} (h : router.forwards? H U env request = some query) :
    ∃ group response,
      router.upstreams.lookup (router.source (H.display query.name)).upstream = some group ∧
      (queryWithStrategy H router.strategy env.net group request query.queryType).1 =
        .ok response ∧
      (router.resolveWithMeta H U env request).1 =
        .ok (response, sourceMeta H U (router.source (H.display query.name))
          (router.refuses (router.source (H.display query.name)).upstream)
          (H.display query.name) query.queryType response) ∧
      (router.resolveWithMeta H U env request).2.cache =
        (router.cacheGet U (H.display query.name) query.queryType env.lookedUpAt).2.cache.map
          fun cache => cache.insert U (H.display query.name) query.queryType response
            (router.attribution (H.display query.name)) env.storedAt := by
  obtain ⟨hhead, hsuppressed, hmiss, hstatic, hdynamic, hok⟩ := Router.forwards?_eq_some.mp h
  have hkeeps := router.keeps_cacheGet (U := U) (H.display query.name) query.queryType
    env.lookedUpAt
  have hupstreams := router.cacheGet_upstreams (U := U) (H.display query.name) query.queryType
    env.lookedUpAt
  have hget : router.cacheGet U (H.display query.name) query.queryType env.lookedUpAt =
      (none, (router.cacheGet U (H.display query.name) query.queryType env.lookedUpAt).2) :=
    Prod.ext hmiss rfl
  generalize (router.cacheGet U (H.display query.name) query.queryType env.lookedUpAt).2 =
    router' at hkeeps hget hupstreams ⊢
  rw [Router.resolve_forwarded hhead hsuppressed hget hstatic hdynamic] at hok ⊢
  obtain ⟨_, herror | ⟨group, response, hgroup, hanswer, hreply, hcache⟩⟩ :=
    Router.answerFromUpstream_cases (H := H) (U := U) router' env request (H.display query.name)
      query.queryType
  · obtain ⟨⟨e, he⟩, _⟩ := herror
    rw [he] at hok
    cases hok
  · rw [hkeeps.source, hupstreams] at hgroup
    rw [hkeeps.strategy] at hanswer
    rw [hkeeps.source, hkeeps.refuses] at hreply
    rw [hkeeps.attribution] at hcache
    exact ⟨group, response, hgroup, hanswer, hreply, hcache⟩

theorem Router.mem_of_mem_cacheGet {router : Router F R C} {name : String} {qtype : RecordType}
    {now : Nat} {cache' : DnsCache C}
    (hcache : (router.cacheGet U name qtype now).2.cache = some cache')
    {entry : String × CacheEntry} (hentry : entry ∈ cache'.held.entries) :
    ∃ cache, router.cache = some cache ∧ entry ∈ cache.held.entries := by
  unfold Router.cacheGet at hcache
  split at hcache
  · rename_i hnone
    rw [hnone] at hcache
    cases hcache
  · rename_i old hold
    cases hcache
    exact ⟨old, hold, DnsCache.All.get (P := fun key stored => (key, stored) ∈ old.held.entries)
      (fun _ hmem => hmem) name qtype now entry hentry⟩

/-- A forwarded query stores its answer with its source's name; the entries of
its key are gone. -/
private theorem entries_forwarded {router : Router F R C} {env : Env} {request : Message}
    {query : Query} (hforwards : router.forwards? H U env request = some query)
    {cache' : DnsCache C} (hcache' : (router.resolveWithMeta H U env request).2.cache = some cache')
    {entry : String × CacheEntry} (hentry : entry ∈ cache'.held.entries) :
    (∃ message info ttl, (router.resolveWithMeta H U env request).1 = .ok (message, info) ∧
      entry = (cacheKey U (H.display query.name) query.queryType,
        ⟨message, env.storedAt, ttl, router.attribution (H.display query.name)⟩)) ∨
    ∃ cache, router.cache = some cache ∧ entry ∈ cache.held.entries ∧
      entry.1 ≠ cacheKey U (H.display query.name) query.queryType := by
  obtain ⟨_, _, hmiss, _, _, _⟩ := Router.forwards?_eq_some.mp hforwards
  obtain ⟨_, response, _, _, hreply, hcache⟩ := Router.forwards?_answer hforwards
  rw [hcache'] at hcache
  obtain ⟨middle, hmiddle, rfl⟩ := Option.map_eq_some_iff.mp hcache.symm
  have hother : ∀ stored ∈ middle.held.entries,
      stored.1 ≠ cacheKey U (H.display query.name) query.queryType := by
    unfold Router.cacheGet at hmiss hmiddle
    split at hmiss
    · rename_i hnone
      rw [hnone] at hmiddle
      cases hmiddle.symm.trans hnone
    · rename_i old hold
      rw [hold] at hmiddle
      cases hmiddle
      exact DnsCache.get_miss hmiss
  by_cases hkept : middle.ttlFor response = 0
  · rw [DnsCache.insert_of_ttl hkept] at hentry
    obtain ⟨cache, hcache, hmem⟩ := Router.mem_of_mem_cacheGet hmiddle hentry
    exact Or.inr ⟨cache, hcache, hmem, hother entry hentry⟩
  · rw [DnsCache.held_insert hkept] at hentry
    rcases LruList.mem_of_mem_put hentry with rfl | hold
    · exact Or.inl ⟨response, _, _, hreply, rfl⟩
    · obtain ⟨cache, hcache, hmem⟩ := Router.mem_of_mem_cacheGet hmiddle hold
      exact Or.inr ⟨cache, hcache, hmem, hother entry hold⟩

private theorem entries_unforwarded {router : Router F R C} {env : Env} {request : Message}
    (hforwards : router.forwards? H U env request = none) {cache' : DnsCache C}
    (hcache' : (router.resolveWithMeta H U env request).2.cache = some cache')
    {entry : String × CacheEntry} (hentry : entry ∈ cache'.held.entries) :
    ∃ cache, router.cache = some cache ∧ entry ∈ cache.held.entries := by
  cases hhead : request.queries.head? with
  | none =>
      unfold Router.resolveWithMeta at hcache'
      rw [hhead] at hcache'
      exact ⟨cache', hcache', hentry⟩
  | some first =>
      have hresolution := router.resolution (H := H) (U := U) env hhead
      have hsome : router.forwards? H U env request = some first ↔ _ := Router.forwards?_eq_some
      rw [hforwards] at hsome
      generalize router.resolveWithMeta H U env request = outcome at *
      cases hresolution with
      | suppressed => exact ⟨cache', hcache', hentry⟩
      | cached _ _ hcached =>
          exact Router.mem_of_mem_cacheGet (by rw [hcached]; exact hcache') hentry
      | hosts _ _ hcached =>
          exact Router.mem_of_mem_cacheGet (by rw [hcached]; exact hcache') hentry
      | @upstream middle hsuppressed hmiss hstatic hdynamic =>
          obtain ⟨_, ⟨_, hsame⟩ | ⟨_, _, _, _, hreply, _⟩⟩ :=
            Router.answerFromUpstream_cases (H := H) (U := U) middle env request
              (H.display first.name) first.queryType
          · rw [hsame] at hcache'
            exact Router.mem_of_mem_cacheGet (by rw [hmiss]; exact hcache') hentry
          · cases hsome.mpr ⟨hhead, hsuppressed, by rw [hmiss], hstatic, hdynamic,
              by rw [hreply]; rfl⟩

/-- The entries after a query: the one a forwarded query stores, and entries
there were before, which are of other keys when a query was forwarded. -/
theorem Asked.entries {router router' : Router F R C} {env : Env} {request : Message}
    (h : Asked H U router (env, request) router') {cache' : DnsCache C}
    (hcache' : router'.cache = some cache') {entry : String × CacheEntry}
    (hentry : entry ∈ cache'.held.entries) :
    (∃ query message info ttl, router.forwards? H U env request = some query ∧
      (router.resolveWithMeta H U env request).1 = .ok (message, info) ∧
      entry = (cacheKey U (H.display query.name) query.queryType,
        ⟨message, env.storedAt, ttl, router.attribution (H.display query.name)⟩)) ∨
    ∃ cache, router.cache = some cache ∧ entry ∈ cache.held.entries ∧
      ∀ query, router.forwards? H U env request = some query →
        entry.1 ≠ cacheKey U (H.display query.name) query.queryType := by
  have hafter : router' = (router.resolveWithMeta H U env request).2 := h
  rw [hafter] at hcache'
  cases hforwards : router.forwards? H U env request with
  | none =>
      obtain ⟨cache, hcache, hmem⟩ := entries_unforwarded hforwards hcache' hentry
      refine Or.inr ⟨cache, hcache, hmem, ?_⟩
      intro query hquery
      cases hquery
  | some query =>
      rcases entries_forwarded hforwards hcache' hentry with ⟨message, info, ttl, hreply, hnew⟩ |
        ⟨cache, hcache, hmem, hkey⟩
      · exact Or.inl ⟨query, message, info, ttl, rfl, hreply, hnew⟩
      · refine Or.inr ⟨cache, hcache, hmem, ?_⟩
        rintro _ ⟨⟩
        exact hkey

end Relay.Dns
