import Relay.Dns.Precedence

/-!
Names that come and go with DHCP leases. The dynamic table is written by the
DHCP servers while the cache in front of it keeps what the upstreams answered.
-/

namespace Relay.Dns

open Binary Text Upstream Ruleset Logic Storage

variable {F : FstCrate} {R : RegexCrate} {C : CacheCrate}

/-- A router, the dynamic table it reads, and every answer an upstream group has
given. -/
structure Leased (F : FstCrate) (R : RegexCrate) (C : CacheCrate) where
  router : Router F R C
  table : DynamicHosts
  given : List Message := []

inductive LeaseEvent where
  | query (env : Env) (request : Message)
  | insert (hostname : String) (ip : IpAddr)
  | remove (hostname : String)

section

variable (H : HickoryCrate) (U : UnicodeTables)

/-- One query; what a group answers is remembered. -/
def Leased.queried (s : Leased F R C) (env : Env) (request : Message) : Leased F R C :=
  let outcome := s.router.resolveWithMeta H U env request
  { s with
    router := outcome.2
    given :=
      match s.router.forwards? H U env request, outcome.1 with
      | some _, .ok (response, _) => response :: s.given
      | _, _ => s.given }

inductive LeaseStep : Leased F R C → LeaseEvent → Leased F R C → Prop where
  | query {s : Leased F R C} {env : Env} {request : Message} :
      env.tables s.router.dynamicHosts = s.table →
      LeaseStep s (.query env request) (s.queried H U env request)
  | insert {s : Leased F R C} {hostname : String} {ip : IpAddr} :
      LeaseStep s (.insert hostname ip) { s with table := s.table.insert U hostname ip }
  | remove {s : Leased F R C} {hostname : String} :
      LeaseStep s (.remove hostname) { s with table := s.table.remove U hostname }

/-- The keys a host name has in a table. -/
def hostKeys (domain : Option String) (hostname : String) : List String :=
  U.toLowercase hostname :: (domain.map fun d => U.toLowercase hostname ++ "." ++ d).toList

/-- A query of the asked family that the dynamic table has an address for, and
the static table has nothing for. -/
structure Leased.Asks (s : Leased F R C) (request : Message) (query : Query) (ip : IpAddr) :
    Prop where
  first : request.queries.head? = some query
  unsuppressed : suppresses s.router.strategy query.queryType = false
  not_static : s.router.hosts.map.lookup (U.toLowercase (trimEndDots (H.display query.name))) = none
  leased : addressIn U s.table.entries (H.display query.name) query.queryType = some ip

/-- Such a query is answered with the address, from the table or the cache. -/
def Leased.LeaseWins (s : Leased F R C) (env : Env) (request : Message) : Prop :=
  ∀ query ip, s.Asks H U request query ip →
    ∃ response info, (s.router.resolveWithMeta H U env request).1 = .ok (response, info) ∧
      AnswersWith ip response ∧
      (info.cached = true ∨ info.upstream = "dynamic-hosts" ∧ info.rule = none)

/-- Nothing else is cached for the name, and the crate parses it; or the answer
that is cached is the address already. -/
def Leased.LeaseReaches (s : Leased F R C) (env : Env) (request : Message) : Prop :=
  ∀ query ip, s.Asks H U request query ip →
    match (s.router.cacheGet U (H.display query.name) query.queryType env.lookedUpAt).1 with
    | some (stored, _) => AnswersWith ip stored
    | none => (H.fromStr (H.display query.name)).isSome = true

/-- What is answered without the dynamic table: the static table's response, or
what a group has given, now or when it was cached. -/
def Leased.AnswersElsewhere (s : Leased F R C) (env : Env) (request : Message) (query : Query)
    (response : Message) : Prop :=
  s.router.hosts.lookup H U (H.display query.name) query.queryType request.id = some response ∨
    ∃ answer ∈ (s.queried H U env request).given,
      response.answers.map (·.data) = answer.answers.map (·.data)

end

variable {H : HickoryCrate} {U : UnicodeTables}

/-- Everything cached is a group's answer. -/
def Leased.CachesGiven (s : Leased F R C) : Prop :=
  ∀ cache, s.router.cache = some cache → cache.Holds (· ∈ s.given)

theorem Leased.given_subset_queried (s : Leased F R C) (env : Env) (request : Message) :
    s.given ⊆ (s.queried H U env request).given := by
  unfold Leased.queried
  dsimp only
  split
  · exact List.subset_cons_self _ _
  · exact List.Subset.refl _

theorem Leased.mem_given_queried {s : Leased F R C} {env : Env} {request response : Message}
    {query : Query} {info : ResolveMeta}
    (hforwards : s.router.forwards? H U env request = some query)
    (hok : (s.router.resolveWithMeta H U env request).1 = .ok (response, info)) :
    response ∈ (s.queried H U env request).given := by
  unfold Leased.queried
  dsimp only
  rw [hforwards, hok]
  exact List.mem_cons_self

theorem cachesGiven_step {s s' : Leased F R C} {event : LeaseEvent} (h : s.CachesGiven)
    (hstep : LeaseStep H U s event s') : s'.CachesGiven := by
  cases hstep with
  | insert => exact h
  | remove => exact h
  | @query env request _ =>
      have hasked : Asked H U s.router (env, request) (s.queried H U env request).router := rfl
      intro cache' hcache' entry hentry
      rcases hasked.entries hcache' hentry with ⟨query, message, info, _, hforwards, hok, hnew⟩ |
        ⟨cache, hcache, hold, _⟩
      · rw [hnew]
        exact Leased.mem_given_queried hforwards hok
      · apply s.given_subset_queried (H := H) (U := U) env request
        exact h cache hcache entry hold

theorem cachesGiven_run {start s : Leased F R C} {events : List LeaseEvent}
    (hstart : start.router.Fresh) (run : Steps (LeaseStep H U) start events s) :
    s.CachesGiven := by
  apply run.invariant
  · intro cache hcache entry hentry
    rw [hstart cache hcache] at hentry
    cases hentry
  · intro t event t' ht hstep
    exact cachesGiven_step ht hstep

/-! ### A lease that is granted -/

private theorem lookup_static_none {s : Leased F R C} {request : Message} {query : Query}
    {ip : IpAddr} (h : s.Asks H U request query ip) :
    s.router.hosts.lookup H U (H.display query.name) query.queryType request.id = none := by
  rw [HostsTable.lookup_eq]
  unfold addressIn
  rw [h.not_static]
  rfl

/-- A name that the crate does not parse goes to a group. -/
private theorem unparsed_not_leased {s : Leased F R C} {env : Env} {request response : Message}
    {query : Query} {ip : IpAddr} {info : ResolveMeta} (h : s.Asks H U request query ip)
    (hmiss : (s.router.cacheGet U (H.display query.name) query.queryType env.lookedUpAt).1 = none)
    (hparsed : H.fromStr (H.display query.name) = none)
    (hok : (s.router.resolveWithMeta H U env request).1 = .ok (response, info)) :
    info.cached = false ∧ ¬ (info.upstream = "dynamic-hosts" ∧ info.rule = none) := by
  have hdynamic : (env.tables s.router.dynamicHosts).lookup H U (H.display query.name)
      query.queryType request.id = none := by
    rw [DynamicHosts.lookup_eq, hparsed]
    cases addressIn U _ (H.display query.name) query.queryType <;> rfl
  have hforwards : s.router.forwards? H U env request = some query := by
    rw [Router.forwards?_eq_some, hok]
    exact ⟨h.first, h.unsuppressed, hmiss, lookup_static_none h, hdynamic, rfl⟩
  obtain ⟨_, _, _, _, hreply, _⟩ := Router.forwards?_answer hforwards
  rw [hok] at hreply
  cases hreply
  exact ⟨rfl, sourceMeta_ne_label (by decide)⟩

theorem leaseWins_iff {s : Leased F R C} {env : Env}
    (htable : env.tables s.router.dynamicHosts = s.table) (request : Message) :
    s.LeaseWins H U env request ↔ s.LeaseReaches H U env request := by
  apply forall_congr'
  intro query
  apply forall_congr'
  intro ip
  apply imp_congr_right
  intro hasks
  cases hget : (s.router.cacheGet U (H.display query.name) query.queryType env.lookedUpAt).1 with
  | some hit =>
      obtain ⟨stored, originalUpstream⟩ := hit
      rw [Router.resolve_cached hasks.first hasks.unsuppressed hget]
      constructor
      · rintro ⟨_, _, ⟨⟩, hanswer, _⟩
        exact hanswer
      · intro hanswer
        exact ⟨_, _, rfl, hanswer, Or.inl rfl⟩
  | none =>
      constructor
      · rintro ⟨response, info, hok, _, hreported⟩
        cases hparsed : H.fromStr (H.display query.name) with
        | some parsed => rfl
        | none =>
            obtain ⟨hcached, hlabel⟩ := unparsed_not_leased hasks hget hparsed hok
            rcases hreported with hhit | hdynamic
            · rw [hcached] at hhit
              cases hhit
            · exact absurd hdynamic hlabel
      · intro hparses
        obtain ⟨parsed, hparsed⟩ := Option.isSome_iff_exists.mp hparses
        have hdynamic : (env.tables s.router.dynamicHosts).lookup H U (H.display query.name)
            query.queryType request.id =
              some (addressResponse parsed ip query.queryType request.id) := by
          rw [htable, DynamicHosts.lookup_eq, hasks.leased, hparsed]
          rfl
        exact ⟨_, _, Router.resolve_dynamic hasks.first hasks.unsuppressed hget
          (lookup_static_none hasks) hdynamic, rfl, Or.inr ⟨rfl, rfl⟩⟩

/-! ### A lease that is released -/

/-- A reply is the dynamic table's response, as the table is now, or does not
come from it. -/
theorem reply_origin {s : Leased F R C} (hgiven : s.CachesGiven) {env : Env}
    (htable : env.tables s.router.dynamicHosts = s.table) {request response : Message}
    {query : Query} {info : ResolveMeta} (hquery : request.queries.head? = some query)
    (hsuppressed : suppresses s.router.strategy query.queryType = false)
    (hok : (s.router.resolveWithMeta H U env request).1 = .ok (response, info)) :
    s.table.lookup H U (H.display query.name) query.queryType request.id = some response ∨
      s.AnswersElsewhere H U env request query response := by
  cases hget : (s.router.cacheGet U (H.display query.name) query.queryType env.lookedUpAt).1 with
  | some hit =>
      obtain ⟨stored, originalUpstream⟩ := hit
      rw [Router.resolve_cached hquery hsuppressed hget] at hok
      cases hok
      obtain ⟨cache, entry, remaining, hcache, hmem, hserved⟩ := Router.cacheGet_hit hget
      cases hserved
      refine Or.inr (Or.inr ⟨entry.message, ?_, ?_⟩)
      · apply s.given_subset_queried (H := H) (U := U) env request
        exact hgiven cache hcache _ hmem
      · simp only [List.map_map]
        rfl
  | none =>
      cases hstatic : s.router.hosts.lookup H U (H.display query.name) query.queryType
          request.id with
      | some found =>
          rw [Router.resolve_static hquery hsuppressed hget hstatic] at hok
          cases hok
          exact Or.inr (Or.inl hstatic)
      | none =>
          cases hdynamic : (env.tables s.router.dynamicHosts).lookup H U (H.display query.name)
              query.queryType request.id with
          | some found =>
              rw [Router.resolve_dynamic hquery hsuppressed hget hstatic hdynamic] at hok
              cases hok
              rw [htable] at hdynamic
              exact Or.inl hdynamic
          | none =>
              have hforwards : s.router.forwards? H U env request = some query := by
                rw [Router.forwards?_eq_some, hok]
                exact ⟨hquery, hsuppressed, hget, hstatic, hdynamic, rfl⟩
              exact Or.inr (Or.inr ⟨response, Leased.mem_given_queried hforwards hok, rfl⟩)

theorem lookup_remove (table : DynamicHosts) (hostname : String) {key : String}
    (hkey : key ∈ hostKeys U table.domain hostname) :
    (table.remove U hostname).entries.lookup key = none := by
  unfold DynamicHosts.remove
  unfold hostKeys at hkey
  dsimp only
  cases hdomain : table.domain with
  | none =>
      rw [hdomain] at hkey
      rw [List.mem_singleton.mp hkey]
      exact AList.lookup_erase _ _
  | some domain =>
      rw [hdomain] at hkey
      dsimp only
      rcases eq_or_ne key (U.toLowercase hostname ++ "." ++ domain) with rfl | hlong
      · exact AList.lookup_erase _ _
      · rw [AList.lookup_erase_ne hlong]
        rcases List.mem_cons.mp hkey with rfl | hother
        · exact AList.lookup_erase _ _
        · exact absurd (List.mem_singleton.mp hother) hlong

/-- A key that is gone stays gone while it is not granted again. -/
theorem lookup_remove_none (table : DynamicHosts) (hostname : String) {key : String}
    (hnone : table.entries.lookup key = none) :
    (table.remove U hostname).entries.lookup key = none := by
  have herase : ∀ (map : StringMap IpAddr) (other : String), map.lookup key = none →
      (map.erase other).lookup key = none := by
    intro map other hmap
    rcases eq_or_ne key other with rfl | hne
    · exact AList.lookup_erase _ _
    · rw [AList.lookup_erase_ne hne]
      exact hmap
  unfold DynamicHosts.remove
  dsimp only
  split
  · apply herase
    exact herase _ _ hnone
  · exact herase _ _ hnone

theorem lookup_insert_other (table : DynamicHosts) (hostname : String) (ip : IpAddr) {key : String}
    (hkey : key ∉ hostKeys U table.domain hostname) :
    (table.insert U hostname ip).entries.lookup key = table.entries.lookup key := by
  unfold DynamicHosts.insert
  unfold hostKeys at hkey
  rw [List.mem_cons, not_or] at hkey
  dsimp only
  cases hdomain : table.domain with
  | none => exact AList.lookup_insert_ne hkey.1
  | some domain =>
      rw [hdomain] at hkey
      have hlong : key ≠ U.toLowercase hostname ++ "." ++ domain := fun heq =>
        hkey.2 (List.mem_singleton.mpr heq)
      dsimp only
      rw [AList.lookup_insert_ne hlong, AList.lookup_insert_ne hkey.1]

/-- The events do not grant a lease with this key. -/
def NotGranted (U : UnicodeTables) (domain : Option String) (key : String)
    (events : List LeaseEvent) : Prop :=
  ∀ hostname ip, .insert hostname ip ∈ events → key ∉ hostKeys U domain hostname

theorem released_run {start s : Leased F R C} {events : List LeaseEvent} {key : String}
    (run : Steps (LeaseStep H U) start events s)
    (hnone : start.table.entries.lookup key = none)
    (hgranted : NotGranted U start.table.domain key events) :
    s.table.domain = start.table.domain ∧ s.table.entries.lookup key = none := by
  induction run with
  | done => exact ⟨rfl, hnone⟩
  | @next t u events event _ hstep ih =>
      have hbefore := ih (fun hostname ip hmem =>
        hgranted hostname ip (List.mem_append_left _ hmem))
      cases hstep with
      | query => exact hbefore
      | @insert hostname ip =>
          refine ⟨hbefore.1, ?_⟩
          have hother := hgranted hostname ip (List.mem_append_right _ List.mem_cons_self)
          rw [← hbefore.1] at hother
          exact (lookup_insert_other t.table hostname ip hother).trans hbefore.2
      | @remove hostname => exact ⟨hbefore.1, lookup_remove_none t.table hostname hbefore.2⟩

/-- When a query for a leased name is answered with its address, in every state
of every run of queries, grants and releases; and after a release the address
comes back only from the static table or a group. -/
theorem lease_wins_iff {start s : Leased F R C} {events : List LeaseEvent}
    (hstart : start.router.Fresh) (run : Steps (LeaseStep H U) start events s) :
    (∀ env request, env.tables s.router.dynamicHosts = s.table →
      (s.LeaseWins H U env request ↔ s.LeaseReaches H U env request)) ∧
    ∀ hostname s' later s'', LeaseStep H U s (.remove hostname) s' →
      Steps (LeaseStep H U) s' later s'' →
      ∀ env request query, env.tables s''.router.dynamicHosts = s''.table →
        request.queries.head? = some query →
        U.toLowercase (trimEndDots (H.display query.name)) ∈
          hostKeys U s.table.domain hostname →
        NotGranted U s.table.domain (U.toLowercase (trimEndDots (H.display query.name))) later →
        suppresses s''.router.strategy query.queryType = false →
        ∀ response info, (s''.router.resolveWithMeta H U env request).1 = .ok (response, info) →
          s''.AnswersElsewhere H U env request query response := by
  refine ⟨fun env request htable => leaseWins_iff htable request, ?_⟩
  intro hostname s' later s'' hremove hlater env request query htable hquery hkey hgranted
    hsuppressed response info hok
  have hgiven : s''.CachesGiven := by
    have hthere := run.next hremove
    exact cachesGiven_run hstart (hthere.append hlater)
  cases hremove with
  | remove =>
      have hgone := released_run hlater (lookup_remove s.table hostname hkey) hgranted
      rcases reply_origin hgiven htable hquery hsuppressed hok with hleased | helsewhere
      · rw [DynamicHosts.lookup_eq] at hleased
        unfold addressIn at hleased
        rw [hgone.2] at hleased
        cases hleased
      · exact helsewhere

/-- An environment whose dynamic tables are this one. -/
def leaseEnv (table : DynamicHosts) : Env := { silentEnv with tables := fun _ => table }

/-- A name that is leased before it is asked for, and released again. -/
theorem lease_wins_iff_granted :
    ∃ s s' : Leased listFst literalRegex listLru,
      Steps (LeaseStep questionCodec asciiTables) ⟨refusingRouter [], {}, []⟩
        [.insert "a" (.v4 0xc0000201)] s ∧
      s.LeaseWins questionCodec asciiTables (leaseEnv s.table) sampleRequest ∧
      LeaseStep questionCodec asciiTables s (.remove "a") s' ∧
      s'.AnswersElsewhere questionCodec asciiTables (leaseEnv s'.table) sampleRequest
        ⟨{ labels := [[97]] }, .a, 1⟩
        { sampleRequest with messageType := .response, responseCode := .refused } := by
  have run : Steps (LeaseStep questionCodec asciiTables)
      (⟨refusingRouter [], {}, []⟩ : Leased listFst literalRegex listLru)
      [.insert "a" (.v4 0xc0000201)] _ := Steps.single LeaseStep.insert
  have hlease := lease_wins_iff (refusingRouter_fresh _) run
  refine ⟨_, _, run, ?_, LeaseStep.remove, ?_⟩
  · apply (hlease.1 (leaseEnv _) sampleRequest rfl).mpr
    intro query ip hasks
    have hquery := hasks.first
    cases hquery
    rfl
  · refine hlease.2 "a" _ [] _ LeaseStep.remove (Steps.done _) (leaseEnv _) sampleRequest
      ⟨{ labels := [[97]] }, .a, 1⟩ rfl rfl List.mem_cons_self ?_ rfl _ _ rfl
    intro _ _ hmem
    cases hmem

/-- A name that is asked for before it is leased: the refusal stays in the cache. -/
theorem cached_refusal_outlives_grant :
    ¬ ∀ (H : HickoryCrate) (U : UnicodeTables) (F : FstCrate) (R : RegexCrate)
      (C : CacheCrate)
      (start s : Leased F R C) (events : List LeaseEvent), start.router.Fresh →
      Steps (LeaseStep H U) start events s →
      ∀ env request, env.tables s.router.dynamicHosts = s.table → s.LeaseWins H U env request := by
  intro hclaim
  have asked : Steps (LeaseStep questionCodec asciiTables)
      (⟨refusingRouter [], {}, []⟩ : Leased listFst literalRegex listLru)
      [.query silentEnv sampleRequest] _ := Steps.single (LeaseStep.query rfl)
  have run : Steps (LeaseStep questionCodec asciiTables)
      (⟨refusingRouter [], {}, []⟩ : Leased listFst literalRegex listLru)
      ([.query silentEnv sampleRequest] ++ [.insert "a" (.v4 0xc0000201)]) _ :=
    asked.next LeaseStep.insert
  have hwins := hclaim questionCodec asciiTables listFst literalRegex listLru _ _ _
    (refusingRouter_fresh _) run (leaseEnv _) sampleRequest rfl
  obtain ⟨response, info, hok, hanswer, _⟩ := hwins ⟨{ labels := [[97]] }, .a, 1⟩
    (.v4 0xc0000201) ⟨rfl, rfl, rfl, rfl⟩
  cases hok
  cases hanswer

end Relay.Dns
