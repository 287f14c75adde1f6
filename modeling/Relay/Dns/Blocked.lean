import Relay.Dns.Selection

/-!
The flag that a reply was blocked. It is computed from the servers' kinds where
a rule chose the group, not at all for the default group, and from the name an
answer was stored with on a hit in the cache.
-/

namespace Relay.Dns

open Binary Text Upstream Ruleset Logic Storage

variable {F : FstCrate} {R : RegexCrate} {C : CacheCrate}

/-- A router, and for each key of its cache the group that was last asked for
it and what the group's answer was reported as. -/
structure Traced (F : FstCrate) (R : RegexCrate) (C : CacheCrate) where
  router : Router F R C
  origin : String → Option (Source × ResolveMeta) := fun _ => none

section

variable (H : HickoryCrate) (U : UnicodeTables)

def Traced.asked (t : Traced F R C) (env : Env) (request : Message) : Traced F R C :=
  let outcome := t.router.resolveWithMeta H U env request
  { router := outcome.2
    origin :=
      match t.router.forwards? H U env request, outcome.1 with
      | some query, .ok (_, info) =>
          Function.update t.origin (cacheKey U (H.display query.name) query.queryType)
            (some (t.router.source (H.display query.name), info))
      | _, _ => t.origin }

def TracedAsked (t : Traced F R C) (query : Env × Message) (t' : Traced F R C) : Prop :=
  t' = t.asked H U query.1 query.2

/-- The first question is in the cache. -/
def Router.hits (router : Router F R C) (env : Env) (request : Message) : Bool :=
  request.queries.head?.any fun query =>
    (router.cacheGet U (H.display query.name) query.queryType env.lookedUpAt).1.isSome

/-- The group a reply comes from: for a hit the one that was asked for it. -/
def Traced.answerer (t : Traced F R C) (env : Env) (request : Message) : Option Source :=
  request.queries.head?.bind fun query =>
    let name := H.display query.name
    if suppresses t.router.strategy query.queryType then none
    else if (t.router.cacheGet U name query.queryType env.lookedUpAt).1.isSome then
      (t.origin (cacheKey U name query.queryType)).map Prod.fst
    else if (t.router.hosts.lookup H U name query.queryType request.id).isNone &&
        ((env.tables t.router.dynamicHosts).lookup H U name query.queryType request.id).isNone then
      some (t.router.source name)
    else none

/-- The reply is flagged if the group it comes from has `rcode://` servers only,
and a hit as the reply that was stored. -/
structure Traced.FlagRight (t : Traced F R C) (env : Env) (request : Message)
    (info : ResolveMeta) : Prop where
  by_group : info.blocked = true ↔
    ∃ source ∈ t.answerer H U env request, t.router.refuses source.upstream = true
  as_stored : ∀ query ∈ request.queries.head?, info.cached = true → ∀ source stored,
    t.origin (cacheKey U (H.display query.name) query.queryType) = some (source, stored) →
      info.blocked = stored.blocked

/-- The default group has another server than `rcode://`; and so has no group
of a rule with a name in which a hit reads the opposite. -/
def Traced.FlagFits (t : Traced F R C) (env : Env) (request : Message) : Prop :=
  ∀ source ∈ t.answerer H U env request,
    if source.byRule then
      t.router.hits H U env request = true → source.upstream.startsWith "rcode:" = true →
        t.router.refuses source.upstream = true
    else t.router.refuses source.upstream = false

end

variable {H : HickoryCrate} {U : UnicodeTables}

/-- What is known of every entry of the cache. -/
def Traced.Consistent (t : Traced F R C) : Prop :=
  ∀ cache, t.router.cache = some cache → cache.All fun key entry =>
    ∃ source info, t.origin key = some (source, info) ∧
      entry.originalUpstream = source.attribution (t.router.refuses source.upstream) ∧
      info.blocked = (source.byRule && t.router.refuses source.upstream) ∧
      (source.byRule = false → source.upstream = "default")

theorem Traced.asked_keeps (t : Traced F R C) (env : Env) (request : Message) :
    t.router.Keeps (t.asked H U env request).router := by
  have hstep : Asked H U t.router (env, request) (t.asked H U env request).router := rfl
  exact hstep.keeps

theorem Traced.origin_asked_forwarded {t : Traced F R C} {env : Env} {request : Message}
    {query : Query} (h : t.router.forwards? H U env request = some query) :
    ∃ response, (t.asked H U env request).origin =
      Function.update t.origin (cacheKey U (H.display query.name) query.queryType)
        (some (t.router.source (H.display query.name),
          sourceMeta H U (t.router.source (H.display query.name))
            (t.router.refuses (t.router.source (H.display query.name)).upstream)
            (H.display query.name) query.queryType response)) := by
  obtain ⟨_, response, _, _, hreply, _⟩ := Router.forwards?_answer h
  refine ⟨response, ?_⟩
  unfold Traced.asked
  dsimp only
  rw [h, hreply]

theorem Traced.origin_asked_other {t : Traced F R C} {env : Env} {request : Message} {key : String}
    (h : ∀ query, t.router.forwards? H U env request = some query →
      key ≠ cacheKey U (H.display query.name) query.queryType) :
    (t.asked H U env request).origin key = t.origin key := by
  unfold Traced.asked
  dsimp only
  cases hforwards : t.router.forwards? H U env request with
  | none => rfl
  | some query =>
      cases (t.router.resolveWithMeta H U env request).1 with
      | error e => rfl
      | ok reply => exact Function.update_of_ne (h query hforwards) _ _

theorem Traced.Consistent.asked {t : Traced F R C} (h : t.Consistent) (env : Env)
    (request : Message) : (t.asked H U env request).Consistent := by
  have hkeeps := t.asked_keeps (H := H) (U := U) env request
  have hstep : Asked H U t.router (env, request) (t.asked H U env request).router := rfl
  intro cache' hcache' entry hentry
  rcases hstep.entries hcache' hentry with ⟨query, message, _, ttl, hforwards, _, hnew⟩ |
    ⟨cache, hcache, hold, hkey⟩
  · obtain ⟨response, horigin⟩ := Traced.origin_asked_forwarded hforwards
    rw [hnew, horigin]
    refine ⟨_, _, Function.update_self _ _ _, ?_, ?_, ?_⟩
    · rw [hkeeps.refuses]
      rfl
    · rw [hkeeps.refuses]
      rfl
    · exact Router.source_default
  · obtain ⟨source, info, horigin, hattribution, hblocked, hdefault⟩ := h cache hcache entry hold
    refine ⟨source, info, ?_, ?_, ?_, hdefault⟩
    · rw [Traced.origin_asked_other hkey]
      exact horigin
    · rw [hkeeps.refuses]
      exact hattribution
    · rw [hkeeps.refuses]
      exact hblocked

theorem Traced.consistent_run {start : Router F R C} {t : Traced F R C}
    {queries : List (Env × Message)} (hstart : start.Fresh)
    (run : Steps (TracedAsked H U) { router := start } queries t) : t.Consistent := by
  apply @Steps.invariant _ _ _ (fun t : Traced F R C => t.Consistent) _ _ _ run
  · intro cache hcache entry hentry
    rw [hstart cache hcache] at hentry
    cases hentry
  · intro t query t' ht hstep
    rw [hstep]
    exact ht.asked query.1 query.2

/-- The entry behind a hit. -/
theorem Traced.Consistent.hit {t : Traced F R C} (h : t.Consistent) {name : String}
    {qtype : RecordType} {now : Nat} {stored : Message} {originalUpstream : String}
    (hget : (t.router.cacheGet U name qtype now).1 = some (stored, originalUpstream)) :
    ∃ source info, t.origin (cacheKey U name qtype) = some (source, info) ∧
      originalUpstream = source.attribution (t.router.refuses source.upstream) ∧
      info.blocked = (source.byRule && t.router.refuses source.upstream) ∧
      (source.byRule = false → source.upstream = "default") := by
  obtain ⟨cache, entry, remaining, hcache, hmem, hserved⟩ := Router.cacheGet_hit hget
  cases hserved
  exact h cache hcache _ hmem

/-- What a hit makes of the name an answer was stored with. -/
theorem startsWith_attribution {source : Source} (hdefault : source.byRule = false →
    source.upstream = "default") (rcode : Bool) :
    (source.attribution rcode).startsWith "rcode:" =
      (source.byRule && (rcode || source.upstream.startsWith "rcode:")) := by
  unfold Source.attribution
  cases hrule : source.byRule with
  | false =>
      rw [hdefault hrule, Bool.false_and, Bool.false_and, if_neg Bool.false_ne_true]
      rw [String.startsWith_string_eq_false_iff]
      decide
  | true =>
      cases rcode with
      | false => rfl
      | true =>
          rw [Bool.true_and, Bool.true_or, Bool.and_true, if_pos rfl]
          rw [String.startsWith_string_iff, String.toList_append]
          exact List.prefix_append _ _

/-! ### Replies with and without a group -/

theorem Traced.answerer_eq (t : Traced F R C) (env : Env) {request : Message} {query : Query}
    (hquery : request.queries.head? = some query) :
    t.answerer H U env request =
      if suppresses t.router.strategy query.queryType then none
      else if (t.router.cacheGet U (H.display query.name) query.queryType
          env.lookedUpAt).1.isSome then
        (t.origin (cacheKey U (H.display query.name) query.queryType)).map Prod.fst
      else if (t.router.hosts.lookup H U (H.display query.name) query.queryType
            request.id).isNone &&
          ((env.tables t.router.dynamicHosts).lookup H U (H.display query.name) query.queryType
            request.id).isNone then
        some (t.router.source (H.display query.name))
      else none := by
  unfold Traced.answerer
  rw [hquery]
  rfl

theorem Router.hits_eq (router : Router F R C) (env : Env) {request : Message} {query : Query}
    (hquery : request.queries.head? = some query) :
    router.hits H U env request =
      (router.cacheGet U (H.display query.name) query.queryType env.lookedUpAt).1.isSome := by
  unfold Router.hits
  rw [hquery, Option.any_some]

/-- A reply without a group is not flagged, and no hit. -/
private theorem flag_without_group {t : Traced F R C} {env : Env} {request : Message}
    {info : ResolveMeta} (hanswerer : t.answerer H U env request = none)
    (hblocked : info.blocked = false) (hcached : info.cached = false) :
    t.FlagRight H U env request info ↔ t.FlagFits H U env request := by
  refine iff_of_true ⟨?_, ?_⟩ ?_
  · rw [hblocked, hanswerer]
    simp
  · intro _ _ hhit
    rw [hcached] at hhit
    cases hhit
  · intro source hsource
    rw [hanswerer] at hsource
    cases hsource

private theorem flagFits_iff {t : Traced F R C} {env : Env} {request : Message} {source : Source}
    (hanswerer : t.answerer H U env request = some source) :
    t.FlagFits H U env request ↔
      (source.byRule && (t.router.refuses source.upstream ||
        (t.router.hits H U env request && source.upstream.startsWith "rcode:"))) =
          t.router.refuses source.upstream := by
  unfold Traced.FlagFits
  rw [hanswerer]
  simp only [Option.mem_def, Option.some.injEq, forall_eq']
  cases source.byRule with
  | false => simp only [Bool.false_eq_true, if_false, Bool.false_and, eq_comm]
  | true =>
      rw [if_pos rfl, Bool.true_and]
      cases t.router.refuses source.upstream <;> simp

/-- The flag of a reply with a group, whichever of the ways it is computed in. -/
private theorem flag_with_group {t : Traced F R C} {env : Env} {request : Message} {query : Query}
    {info : ResolveMeta} {source : Source} (hquery : request.queries.head? = some query)
    (hanswerer : t.answerer H U env request = some source)
    (hflag : info.blocked = (source.byRule && (t.router.refuses source.upstream ||
      (t.router.hits H U env request && source.upstream.startsWith "rcode:"))))
    (hstored : info.cached = true → ∀ source' stored,
      t.origin (cacheKey U (H.display query.name) query.queryType) = some (source', stored) →
        stored.blocked = (source.byRule && t.router.refuses source.upstream)) :
    t.FlagRight H U env request info ↔ t.FlagFits H U env request := by
  rw [flagFits_iff hanswerer, ← hflag]
  have hgroup : (∃ other ∈ t.answerer H U env request,
      t.router.refuses other.upstream = true) ↔ t.router.refuses source.upstream = true := by
    rw [hanswerer]
    simp
  constructor
  · intro hright
    exact Bool.eq_iff_iff.mpr (hright.by_group.trans hgroup)
  · intro hsame
    refine ⟨(Bool.eq_iff_iff.mp hsame).trans hgroup.symm, ?_⟩
    intro query' hquery' hcached source' stored horigin
    rw [hquery] at hquery'
    cases hquery'
    rw [hstored hcached source' stored horigin, ← hsame, hflag]
    cases source.byRule <;> simp

private theorem flag_of_hit {t : Traced F R C} (hconsistent : t.Consistent) {env : Env}
    {request response : Message} {query : Query} {info : ResolveMeta}
    (hquery : request.queries.head? = some query)
    (hsuppressed : suppresses t.router.strategy query.queryType = false)
    {stored : Message} {originalUpstream : String}
    (hget : (t.router.cacheGet U (H.display query.name) query.queryType env.lookedUpAt).1 =
      some (stored, originalUpstream))
    (hok : (t.router.resolveWithMeta H U env request).1 = .ok (response, info)) :
    t.FlagRight H U env request info ↔ t.FlagFits H U env request := by
  obtain ⟨source, first, horigin, hattribution, hblocked, hdefault⟩ := hconsistent.hit hget
  rw [Router.resolve_cached hquery hsuppressed hget] at hok
  cases hok
  refine flag_with_group hquery (?_ : t.answerer H U env request = some source) ?_ ?_
  · rw [t.answerer_eq env hquery, hsuppressed, hget, horigin]
    rfl
  · rw [t.router.hits_eq env hquery, hget, Option.isSome_some, Bool.true_and,
      ← startsWith_attribution hdefault, ← hattribution]
    rfl
  · intro _ source' stored' horigin'
    rw [horigin] at horigin'
    cases horigin'
    exact hblocked

private theorem flag_of_miss {t : Traced F R C} {env : Env} {request response : Message}
    {query : Query} {info : ResolveMeta} (hquery : request.queries.head? = some query)
    (hsuppressed : suppresses t.router.strategy query.queryType = false)
    (hget : (t.router.cacheGet U (H.display query.name) query.queryType env.lookedUpAt).1 = none)
    (hok : (t.router.resolveWithMeta H U env request).1 = .ok (response, info)) :
    t.FlagRight H U env request info ↔ t.FlagFits H U env request := by
  have hanswerer := t.answerer_eq (H := H) (U := U) env hquery
  rw [hsuppressed, hget, Option.isSome_none, if_neg Bool.false_ne_true,
    if_neg Bool.false_ne_true] at hanswerer
  cases hstatic : t.router.hosts.lookup H U (H.display query.name) query.queryType request.id with
  | some found =>
      rw [Router.resolve_static hquery hsuppressed hget hstatic] at hok
      cases hok
      rw [hstatic] at hanswerer
      exact flag_without_group hanswerer rfl rfl
  | none =>
      cases hdynamic : (env.tables t.router.dynamicHosts).lookup H U (H.display query.name)
          query.queryType request.id with
      | some found =>
          rw [Router.resolve_dynamic hquery hsuppressed hget hstatic hdynamic] at hok
          cases hok
          rw [hstatic, hdynamic] at hanswerer
          exact flag_without_group hanswerer rfl rfl
      | none =>
          rw [hstatic, hdynamic] at hanswerer
          have hforwards : t.router.forwards? H U env request = some query := by
            rw [Router.forwards?_eq_some, hok]
            exact ⟨hquery, hsuppressed, hget, hstatic, hdynamic, rfl⟩
          obtain ⟨_, _, _, _, hreply, _⟩ := Router.forwards?_answer hforwards
          rw [hok] at hreply
          cases hreply
          apply flag_with_group hquery hanswerer
          · rw [t.router.hits_eq env hquery, hget, Option.isSome_none, Bool.false_and,
              Bool.or_false]
            rfl
          · intro hcached
            cases hcached

/-- Whether a reply's flag is right for the group it comes from, and for a hit
the same as of the reply that was stored, in every run from an empty cache. -/
theorem blocked_by_group_iff {start : Router F R C} {t : Traced F R C}
    {queries : List (Env × Message)} (hstart : start.Fresh)
    (run : Steps (TracedAsked H U) { router := start } queries t) {env : Env}
    {request response : Message} {info : ResolveMeta}
    (hok : (t.router.resolveWithMeta H U env request).1 = .ok (response, info)) :
    t.FlagRight H U env request info ↔ t.FlagFits H U env request := by
  have hconsistent := Traced.consistent_run hstart run
  cases hquery : request.queries.head? with
  | none =>
      unfold Router.resolveWithMeta at hok
      rw [hquery] at hok
      cases hok
  | some query =>
      cases hsuppressed : suppresses t.router.strategy query.queryType with
      | true =>
          have hanswerer := t.answerer_eq (H := H) (U := U) env hquery
          rw [hsuppressed, if_pos rfl] at hanswerer
          rw [Router.resolve_suppressed hquery hsuppressed] at hok
          cases hok
          exact flag_without_group hanswerer rfl rfl
      | false =>
          cases hget : (t.router.cacheGet U (H.display query.name) query.queryType
              env.lookedUpAt).1 with
          | some hit => exact flag_of_hit hconsistent hquery hsuppressed hget hok
          | none => exact flag_of_miss hquery hsuppressed hget hok

/-- A router with a rule for names with an `a`, whose group refuses them. -/
def blockingRouter : Router listFst literalRegex listLru :=
  { refusingRouter [] with
    rules := [⟨keywordRuleset listFst literalRegex "a", "ads"⟩]
    upstreams := (refusingRouter []).upstreams.insert "ads"
      { servers := [{ kind := .rcode .nxDomain, url := "rcode://nxdomain" }]
        strategy := .roundRobin } }

theorem blockingRouter_fresh : blockingRouter.Fresh := by
  intro cache hcache
  cases hcache
  rfl

/-- The rule's refusal is flagged, and so is the hit it leaves in the cache. -/
theorem blocked_by_group_iff_hit :
    ∃ (t : Traced listFst literalRegex listLru) (response : Message) (info : ResolveMeta),
      Steps (TracedAsked questionCodec asciiTables) { router := blockingRouter }
        [(silentEnv, sampleRequest)] t ∧
      (t.router.resolveWithMeta questionCodec asciiTables silentEnv sampleRequest).1 =
        .ok (response, info) ∧
      info.cached = true ∧ info.blocked = true ∧
        t.FlagRight questionCodec asciiTables silentEnv sampleRequest info := by
  have run : Steps (TracedAsked questionCodec asciiTables) { router := blockingRouter }
      [(silentEnv, sampleRequest)] _ := Steps.single rfl
  obtain ⟨response, info, hok, hcached⟩ : ∃ response info,
      ((({ router := blockingRouter } : Traced _ _ _).asked questionCodec asciiTables silentEnv
        sampleRequest).router.resolveWithMeta questionCodec asciiTables silentEnv
          sampleRequest).1 = .ok (response, info) ∧ info.cached = true :=
    ⟨_, _, rfl, rfl⟩
  have hright := (blocked_by_group_iff blockingRouter_fresh run hok).mpr (by
    intro source hsource
    have hads : source = ⟨"ads", true⟩ := (Option.some.inj hsource).symm
    subst hads
    intro _ _
    rfl)
  exact ⟨_, response, info, run, hok, hcached, hright.by_group.mpr ⟨⟨"ads", true⟩, rfl, rfl⟩, hright⟩

/-- A refusal of the default group is not flagged. -/
theorem default_refusal_not_flagged :
    ¬ ∀ (H : HickoryCrate) (U : UnicodeTables) (F : FstCrate) (R : RegexCrate)
      (C : CacheCrate)
      (start : Router F R C) (t : Traced F R C) (queries : List (Env × Message)) (env : Env)
      (request response : Message) (info : ResolveMeta), start.Fresh →
      Steps (TracedAsked H U) { router := start } queries t →
      (t.router.resolveWithMeta H U env request).1 = .ok (response, info) →
      t.FlagRight H U env request info := by
  intro hclaim
  have hright := hclaim questionCodec asciiTables listFst literalRegex listLru
    (refusingRouter []) _ [] silentEnv sampleRequest _ _ (refusingRouter_fresh _) (Steps.done _) rfl
  have hflag := hright.by_group.mpr ⟨⟨"default", false⟩, rfl, rfl⟩
  cases hflag

end Relay.Dns
