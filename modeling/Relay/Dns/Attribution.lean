import Relay.Config.Validate
import Relay.Dns.FromConfig
import Relay.Dns.Selection

/-!
The group a name belongs to in a configuration is that of the first entry whose
ruleset accepts the name. A router that is built from the configuration asks
this group, and what it has cached for the name is attributed to this group.
-/

namespace Relay.Dns

open Binary Text Upstream Ruleset Logic Storage

section

variable (F : FstCrate) (R : RegexCrate)

def entryAccepts (files : RulesetFiles) (baseDir : String) (name : String)
    (entry : RulesetEntry) : Bool :=
  match loadRule F R files baseDir entry with
  | .ok rule => rule.ruleset.accepts name
  | .error _ => false

/-- The group of the first entry whose ruleset accepts the name, or the default
group. -/
def configuredSource (files : RulesetFiles) (baseDir : String) (config : Config)
    (name : String) : Source :=
  match config.rulesets.find? (entryAccepts F R files baseDir name) with
  | some entry => ⟨entry.upstream, true⟩
  | none => ⟨"default", false⟩

end

/-- The name of the first question is shown in ASCII. -/
def AsciiName (H : HickoryCrate) (request : Message) : Prop :=
  ∀ query ∈ request.queries.head?, isAscii (H.display query.name) = true

variable {T : NetText} {H : HickoryCrate} {U : UnicodeTables} {F : FstCrate} {R : RegexCrate}
  {C : CacheCrate}

/-! ### What is built of a configuration -/

theorem buildGroups_lookup {resolver : List SocketAddr}
    {groups : List (String × UpstreamGroupCfg)} {built : StringMap UpstreamGroup}
    (hbuilt : buildGroups T resolver groups = .ok built) (hnodup : (groups.map Prod.fst).Nodup)
    {name : String} {cfg : UpstreamGroupCfg} (hmem : (name, cfg) ∈ groups) :
    ∃ group, buildGroup T resolver cfg = .ok group ∧ built.lookup name = some group := by
  induction groups generalizing built with
  | nil => cases hmem
  | cons first groups ih =>
      obtain ⟨key, value⟩ := first
      rw [buildGroups] at hbuilt
      obtain ⟨group, hgroup, hbuilt⟩ := run_bind_eq_ok.mp hbuilt
      obtain ⟨others, hothers, hbuilt⟩ := run_bind_eq_ok.mp hbuilt
      cases hbuilt
      rw [List.map_cons, List.nodup_cons] at hnodup
      rcases List.mem_cons.mp hmem with hfirst | hrest
      · cases hfirst
        refine ⟨group, hgroup, ?_⟩
        exact AList.lookup_insert others
      · obtain ⟨found, hfound, hlookup⟩ := ih hothers hnodup.2 hrest
        refine ⟨found, hfound, ?_⟩
        have hne : name ≠ key := by
          rintro rfl
          exact hnodup.1 (List.mem_map.mpr ⟨(name, cfg), hrest, rfl⟩)
        rw [AList.lookup_insert_ne hne]
        exact hlookup

theorem loadRule_upstream {files : RulesetFiles} {baseDir : String} {entry : RulesetEntry}
    {rule : LoadedRule F R} (h : loadRule F R files baseDir entry = .ok rule) :
    rule.upstream = entry.upstream := by
  unfold loadRule at h
  dsimp only at h
  split at h
  · cases h
  · split at h
    · cases h
      rfl
    · cases h
    · cases h

/-- The rules are the entries in their order. -/
theorem loadRules_forall {files : RulesetFiles} {baseDir : String} {entries : List RulesetEntry}
    {rules : List (LoadedRule F R)} (h : loadRules F R files baseDir entries = .ok rules) :
    List.Forall₂ (fun entry rule => loadRule F R files baseDir entry = .ok rule) entries rules := by
  induction entries generalizing rules with
  | nil =>
      cases h
      exact .nil
  | cons entry entries ih =>
      rw [loadRules] at h
      obtain ⟨rule, hrule, h⟩ := run_bind_eq_ok.mp h
      obtain ⟨others, hothers, h⟩ := run_bind_eq_ok.mp h
      cases h
      exact .cons hrule (ih hothers)

theorem validateRulesets_ok {config : Config} {entries : List RulesetEntry}
    (h : config.validateRulesets entries = .ok ()) :
    ∀ entry ∈ entries, config.groups.containsKey entry.upstream = true := by
  induction entries with
  | nil => simp
  | cons entry entries ih =>
      rw [Config.validateRulesets] at h
      split at h
      · rename_i hknown
        intro other hother
        rcases List.mem_cons.mp hother with rfl | hrest
        · exact hknown
        · exact ih h other hrest
      · cases h

/-- What `validate` checks of the groups. -/
theorem validate_groups {config : Config} (h : config.validate T = .ok ()) :
    config.groups.containsKey "default" = true ∧
      ∀ entry ∈ config.rulesets, config.groups.containsKey entry.upstream = true := by
  unfold Config.validate at h
  split at h
  · cases h
  · rename_i hdefault
    split at h
    · cases h
    · split at h
      · cases h
      · refine ⟨by simpa using hdefault, ?_⟩
        cases hrulesets : config.validateRulesets config.rulesets with
        | error e =>
            rw [hrulesets] at h
            cases h
        | ok u => exact validateRulesets_ok hrulesets

theorem IndexMap.exists_of_containsKey {α : Type} {m : IndexMap α} {key : String}
    (h : m.containsKey key = true) : ∃ value, (key, value) ∈ m.entries := by
  unfold IndexMap.containsKey at h
  obtain ⟨⟨found, value⟩, hmem, hkey⟩ := List.any_eq_true.mp h
  have hsame : found = key := by simpa using hkey
  subst hsame
  exact ⟨value, hmem⟩

/-- Every group of a configuration is among those of the router. -/
theorem fromConfig_group {files : RulesetFiles} {baseDir : String} {hosts : Arc} {config : Config}
    {router : Router F R C}
    (hbuilt : Router.fromConfig T U F R C files baseDir hosts config = .ok router)
    {name : String} (hknown : config.groups.containsKey name = true) :
    ∃ cfg built, (name, cfg) ∈ config.groups.entries ∧
      buildGroup T config.defaultNameserver cfg = .ok built ∧
      router.upstreams.lookup name = some built := by
  obtain ⟨upstreams, hupstreams, hbuilt⟩ := run_bind_eq_ok.mp hbuilt
  obtain ⟨rules, _, hbuilt⟩ := run_bind_eq_ok.mp hbuilt
  cases hbuilt
  obtain ⟨cfg, hmem⟩ := IndexMap.exists_of_containsKey hknown
  obtain ⟨built, hgroup, hlookup⟩ := buildGroups_lookup hupstreams config.groups.nodup hmem
  exact ⟨cfg, built, hmem, hgroup, hlookup⟩

/-- Where every entry's group is known, the first rule that accepts the name is
that of the first entry that does. -/
theorem find_rule {files : RulesetFiles} {baseDir : String} {entries : List RulesetEntry}
    {rules : List (LoadedRule F R)}
    (hall : List.Forall₂ (fun entry rule => loadRule F R files baseDir entry = .ok rule)
      entries rules) {upstreams : StringMap UpstreamGroup}
    (hknown : ∀ entry ∈ entries, (upstreams.lookup entry.upstream).isSome = true)
    (name : String) :
    (rules.find? fun rule =>
      rule.ruleset.accepts name && (upstreams.lookup rule.upstream).isSome).map (·.upstream) =
        (entries.find? (entryAccepts F R files baseDir name)).map (·.upstream) := by
  induction hall with
  | nil => rfl
  | @cons entry rule entries rules hload _ ih =>
      have hupstream := loadRule_upstream hload
      have hentry := hknown entry List.mem_cons_self
      have haccepts : entryAccepts F R files baseDir name entry = rule.ruleset.accepts name := by
        unfold entryAccepts
        rw [hload]
      rw [List.find?_cons, List.find?_cons, hupstream, hentry, Bool.and_true, haccepts]
      cases rule.ruleset.accepts name with
      | true => exact congrArg some hupstream
      | false =>
          apply ih
          intro other hother
          exact hknown other (List.mem_cons_of_mem entry hother)

/-- No rule of a valid configuration is skipped for want of its group. -/
theorem fromConfig_source {files : RulesetFiles} {baseDir : String} {hosts : Arc} {config : Config}
    {router : Router F R C} (hvalid : config.validate T = .ok ())
    (hbuilt : Router.fromConfig T U F R C files baseDir hosts config = .ok router) (name : String) :
    router.source name = configuredSource F R files baseDir config name := by
  have hgroups : ∀ entry ∈ config.rulesets,
      (router.upstreams.lookup entry.upstream).isSome = true := by
    intro entry hentry
    obtain ⟨_, built, _, _, hlookup⟩ :=
      fromConfig_group hbuilt ((validate_groups hvalid).2 entry hentry)
    rw [hlookup]
    rfl
  obtain ⟨upstreams, _, hbuilt⟩ := run_bind_eq_ok.mp hbuilt
  obtain ⟨rules, hrules, hbuilt⟩ := run_bind_eq_ok.mp hbuilt
  cases hbuilt
  have hfind := find_rule (loadRules_forall hrules) hgroups name
  unfold Router.source Router.firstRule configuredSource
  dsimp only at hfind ⊢
  generalize rules.find? _ = first at hfind ⊢
  cases hentry : config.rulesets.find? (entryAccepts F R files baseDir name) with
  | none =>
      rw [hentry, Option.map_none, Option.map_eq_none_iff] at hfind
      rw [hfind]
  | some entry =>
      rw [hentry, Option.map_some] at hfind
      obtain ⟨rule, hrule, hupstream⟩ := Option.map_eq_some_iff.mp hfind
      rw [hrule]
      dsimp only
      rw [hupstream]

theorem fromConfig_fresh {files : RulesetFiles} {baseDir : String} {hosts : Arc} {config : Config}
    {router : Router F R C}
    (hbuilt : Router.fromConfig T U F R C files baseDir hosts config = .ok router) :
    router.Fresh := by
  obtain ⟨upstreams, _, hbuilt⟩ := run_bind_eq_ok.mp hbuilt
  obtain ⟨rules, _, hbuilt⟩ := run_bind_eq_ok.mp hbuilt
  cases hbuilt
  intro cache hcache
  dsimp only at hcache
  unfold cacheOf at hcache
  split at hcache
  · cases hcache
    rw [DnsCache.held_new]
  · cases hcache

/-! ### The names of one key -/

/-- The key of the cache and the name the rules are asked for drop different
things from a name, but names of one key are one name to the rules. -/
theorem normalizeDomain_of_cacheKey (hU : U.Lawful) {name name' : String}
    {qtype qtype' : RecordType} (hascii : isAscii name = true) (hascii' : isAscii name' = true)
    (hkey : cacheKey U name qtype = cacheKey U name' qtype') :
    normalizeDomain name = normalizeDomain name' := by
  unfold cacheKey at hkey
  have hlower := (append_colon_number hkey).1
  rw [hU.ascii name hascii, hU.ascii name' hascii'] at hlower
  unfold normalizeDomain
  rw [toAsciiLowercase_trimEndDots, toAsciiLowercase_trimEndDots, hlower]

theorem Router.attribution_of_normalizeDomain (router : Router F R C) {name name' : String}
    (h : normalizeDomain name = normalizeDomain name') :
    router.attribution name = router.attribution name' := by
  have hsource : router.source name = router.source name' := by
    unfold Router.source Router.firstRule
    simp only [accepts_eq, h]
  unfold Router.attribution
  rw [hsource]

/-! ### What is cached -/

/-- Whatever is cached for a name shown in ASCII is attributed to its group. -/
def Router.AttributesCache (U : UnicodeTables) (router : Router F R C) : Prop :=
  ∀ cache, router.cache = some cache → cache.All fun key entry =>
    ∀ name qtype, isAscii name = true → key = cacheKey U name qtype →
      entry.originalUpstream = router.attribution name

theorem attributesCache_step (hU : U.Lawful) {router router' : Router F R C}
    {query : Env × Message} (h : router.AttributesCache U) (hstep : Asked H U router query router')
    (hascii : AsciiName H query.2) : router'.AttributesCache U := by
  obtain ⟨env, request⟩ := query
  intro cache' hcache' entry hentry name qtype hname hkey
  rw [hstep.keeps.attribution]
  rcases hstep.entries hcache' hentry with ⟨first, message, _, ttl, hforwards, _, hnew⟩ |
    ⟨cache, hcache, hold, _⟩
  · rw [hnew] at hkey ⊢
    have hfirst := hascii first (Router.forwards?_eq_some.mp hforwards).1
    apply Router.attribution_of_normalizeDomain
    exact normalizeDomain_of_cacheKey hU hfirst hname hkey
  · exact h cache hcache entry hold name qtype hname hkey

theorem attributesCache_run (hU : U.Lawful) {start router : Router F R C}
    {queries : List (Env × Message)} (hstart : start.Fresh)
    (run : Steps (guarded (Asked H U) fun _ query => AsciiName H query.2) start queries router) :
    start.Keeps router ∧ router.AttributesCache U := by
  apply @Steps.invariant _ _ _ (fun r => start.Keeps r ∧ r.AttributesCache U) _ _ _ run
  · refine ⟨.refl start, ?_⟩
    intro cache hcache entry hentry
    rw [hstart cache hcache] at hentry
    cases hentry
  · intro r query r' hr hstep
    refine ⟨hr.1.trans hstep.1.keeps, ?_⟩
    exact attributesCache_step hU hr.2 hstep.1 hstep.2

theorem Router.AttributesCache.hit {router : Router F R C} (h : router.AttributesCache U)
    {name : String} (hascii : isAscii name = true) {qtype : RecordType} {now : Nat}
    {stored : Message} {originalUpstream : String}
    (hget : (router.cacheGet U name qtype now).1 = some (stored, originalUpstream)) :
    originalUpstream = router.attribution name := by
  obtain ⟨cache, entry, remaining, hcache, hmem, hserved⟩ := Router.cacheGet_hit hget
  cases hserved
  exact h cache hcache _ hmem name qtype hascii rfl

/-- In every run of a router that is built from a valid configuration, what is
not suppressed and not in a hosts table comes from the first matching entry's
group: its own outcome, or a cached one that is attributed to it. -/
theorem answered_by_first_match (hU : U.Lawful) {files : RulesetFiles} {baseDir : String}
    {hosts : Arc} {config : Config} {start router : Router F R C} {queries : List (Env × Message)}
    (hvalid : config.validate T = .ok ())
    (hbuilt : Router.fromConfig T U F R C files baseDir hosts config = .ok start)
    (run : Steps (guarded (Asked H U) fun _ query => AsciiName H query.2) start queries router)
    (env : Env) {request : Message} {query : Query}
    (hquery : request.queries.head? = some query)
    (hascii : isAscii (H.display query.name) = true)
    (hsuppressed : suppresses router.strategy query.queryType = false) :
    let name := H.display query.name
    let source := configuredSource F R files baseDir config name
    ∃ cfg built group, (source.upstream, cfg) ∈ config.groups.entries ∧
      buildGroup T config.defaultNameserver cfg = .ok built ∧
      router.upstreams.lookup source.upstream = some group ∧ group.servers = built.servers ∧
      match (router.cacheGet U name query.queryType env.lookedUpAt).1 with
      | some (stored, originalUpstream) =>
          originalUpstream = source.attribution group.isRcode ∧
          (router.resolveWithMeta H U env request).1 = .ok ({ stored with id := request.id },
            cachedMeta H U name query.queryType originalUpstream
              { stored with id := request.id })
      | none =>
          router.hosts.lookup H U name query.queryType request.id = none →
          (env.tables router.dynamicHosts).lookup H U name query.queryType request.id = none →
          (router.resolveWithMeta H U env request).1 =
            (queryWithStrategy H router.strategy env.net group request query.queryType).1.map
              fun response =>
                (response, sourceMeta H U source group.isRcode name query.queryType response) := by
  intro name source
  obtain ⟨hkeeps, hcaches⟩ := attributesCache_run hU (fromConfig_fresh hbuilt) run
  have hsource : router.source name = source :=
    (hkeeps.source name).trans (fromConfig_source hvalid hbuilt name)
  have hknown : config.groups.containsKey source.upstream = true := by
    have hgroups := validate_groups hvalid
    change config.groups.containsKey (configuredSource F R files baseDir config name).upstream = _
    unfold configuredSource
    split
    · rename_i entry hentry
      exact hgroups.2 entry (List.mem_of_find?_eq_some hentry)
    · exact hgroups.1
  obtain ⟨cfg, built, hmem, hgroup, hlookup⟩ := fromConfig_group hbuilt hknown
  have hservers := hkeeps.servers source.upstream
  rw [hlookup] at hservers
  obtain ⟨group, hrouter, hsame⟩ := Option.map_eq_some_iff.mp hservers
  refine ⟨cfg, built, group, hmem, hgroup, hrouter, hsame, ?_⟩
  cases hget : (router.cacheGet U name query.queryType env.lookedUpAt).1 with
  | some hit =>
      obtain ⟨stored, originalUpstream⟩ := hit
      refine ⟨?_, Router.resolve_cached hquery hsuppressed hget⟩
      rw [hcaches.hit hascii hget, Router.attribution, hsource, Router.refuses, hrouter]
  | none =>
      intro hstatic hdynamic
      have houtcome := Router.resolve_source hquery hsuppressed hget hstatic hdynamic
        (hsource.symm ▸ hrouter)
      rw [hsource] at houtcome
      exact houtcome

/-- A file with one keyword. -/
def keywordFiles : RulesetFiles := fun path =>
  if path = "/ads.drs" then
    (writeV2 listFst 0 { keywords := ["a"] } (Vector.replicate 32 0)).toOption.map Prod.fst
  else none

/-- Names with the keyword are refused; the others have no records. -/
def keywordConfig : Config where
  listen := ⟨.v4 0x7f000001, 53⟩
  groups := ⟨[("default", { servers := ["rcode://noerror"] }),
    ("ads", { servers := ["rcode://refused"] })], by decide⟩
  rulesets := [⟨"ads.drs", "ads"⟩]

def noAddresses : NetText := ⟨fun _ => none, fun _ => none, fun _ => false⟩

def keywordRouter : Router listFst literalRegex listLru :=
  (Router.fromConfig noAddresses asciiTables listFst literalRegex listLru keywordFiles "/" 0
    keywordConfig).toOption.get rfl

theorem sampleRequest_ascii : AsciiName questionCodec sampleRequest := by
  intro query hquery
  cases hquery
  rfl

/-- The second query for one name is answered from the cache, and attributed to
the group that refused the first. -/
theorem answered_by_first_match_cached :
    ∃ router response,
      Steps (guarded (Asked questionCodec asciiTables) fun _ query =>
        AsciiName questionCodec query.2) keywordRouter [(silentEnv, sampleRequest)] router ∧
      (router.resolveWithMeta questionCodec asciiTables silentEnv sampleRequest).1 =
        .ok (response, cachedMeta questionCodec asciiTables "a." .a "rcode:ads" response) := by
  have run : Steps (guarded (Asked questionCodec asciiTables) fun _ query =>
      AsciiName questionCodec query.2) keywordRouter [(silentEnv, sampleRequest)] _ :=
    Steps.single ⟨rfl, sampleRequest_ascii⟩
  have hvalid : keywordConfig.validate noAddresses = .ok () := rfl
  have hbuilt : Router.fromConfig noAddresses asciiTables listFst literalRegex listLru keywordFiles
      "/" 0 keywordConfig = .ok keywordRouter := rfl
  have hquery : sampleRequest.queries.head? = some ⟨{ labels := [[97]] }, .a, 1⟩ := rfl
  obtain ⟨_, _, group, _, _, hgroup, _, houtcome⟩ := answered_by_first_match
    asciiTables_lawful hvalid hbuilt run silentEnv hquery rfl rfl
  cases hgroup
  exact ⟨_, _, run, houtcome.2⟩

end Relay.Dns
