import Relay.Web.Committed

/-!
When a configuration survives being opened in the rule editor and saved
unchanged: the same rule sets with the same settings in the same order, and the
same default group.
-/

namespace Relay.Web

open Logic Text

/-! ### What is to be kept -/

/-- A rule set and what its queries are sent to. -/
abbrev Route := String × Option UpstreamGroupCfg

def routeOf (groups : IndexMap UpstreamGroupCfg) (e : RulesetEntry) : Route :=
  (e.path, groups.get e.upstream)

def routesOf (groups : IndexMap UpstreamGroupCfg) (rulesets : List RulesetEntry) : List Route :=
  rulesets.map (routeOf groups)

/-- The sections of `GET /api/config` the editor reads. -/
def toPanel (c : Config) : PanelConfig where
  groups := c.groups.mapValues UpstreamGroupCfg.toJson
  rulesets := c.rulesets.map RulesetEntry.toJson

/-- Loaded and committed unchanged. -/
def savedUnchanged (c : Config) : PanelConfig :=
  let (catalog, dnsRules) := fromBackend (toPanel c)
  commitToConfig (toPanel c) catalog dnsRules

/-- The backend reads the sections as the same routing, up to adjacent duplicates. -/
def RoutingKept (c : Config) (saved : PanelConfig) : Prop :=
  ∃ groups rulesets, readGroups saved.groups = some groups ∧
    saved.rulesets.mapM RulesetEntry.fromJson = some rulesets ∧
    (routesOf groups rulesets).destutter (· ≠ ·) =
      (routesOf c.groups c.rulesets).destutter (· ≠ ·) ∧
    groups.get "default" = c.groups.get "default"

/-- What a configuration needs for the editor to keep its routing. -/
structure EditorSafe (c : Config) : Prop where
  default : c.groups.containsKey "default" = true
  subnet : ∀ e ∈ c.rulesets, ∀ g, c.groups.get e.upstream = some g → g.clientSubnet = none
  basename : ∀ e ∈ c.rulesets, basenameNoExt e.path ≠ ""
  /-- The path a run begins with is not the first one that is called `__proto__`. -/
  proto : ∀ e ∈ runStarts RulesetEntry.upstream none c.rulesets,
    jsTrim (basenameNoExt e.path) = "__proto__" →
      (c.rulesets.find? fun e' => basenameNoExt e'.path = basenameNoExt e.path).map
        RulesetEntry.path ≠ some e.path
  repeats : RepeatsFine RulesetEntry.upstream (routeOf c.groups) [] c.rulesets

/-! ### The editor's state -/

/-- The state after loading. -/
def loaded (c : Config) : Loading :=
  (toPanel c).rulesets.foldl (Loading.addEntry (toPanel c).groups) {}

/-- The name of an entry's path. -/
def entryName (c : Config) (e : RulesetEntry) : String := (loaded c).nameOf e.path

/-- The catalogue the commit works with. -/
def pathsOf (c : Config) : IndexMap String := pathOf (fromBackend (toPanel c)).1

/-- The commit's result. -/
def committed (c : Config) : Commit :=
  Commit.run (pathsOf c)
    { nextGroups := IndexMap.insert .empty "default"
        (((toPanel c).groups.get "default").getD emptyGroup) }
    ((loaded c).rules.map LoadedRule.toDnsRule) 0

/-- The routes the backend reads from the result. -/
def savedRoutes (c : Config) : List Route :=
  (committed c).nextRulesets.map fun e =>
    (e.path, ((committed c).nextGroups.get e.upstream).bind UpstreamGroupCfg.fromJson)

/-- The group as it comes back from a rule. -/
def withoutSubnet (g : UpstreamGroupCfg) : UpstreamGroupCfg := { g with clientSubnet := none }

theorem withoutSubnet_eq {g : UpstreamGroupCfg} : withoutSubnet g = g ↔ g.clientSubnet = none := by
  obtain ⟨_, _, _, clientSubnet⟩ := g
  rw [withoutSubnet]
  simp [eq_comm]

section Saved

variable {c : Config} (h : ∀ e ∈ c.rulesets, e.path ≠ "" ∧ c.groups.containsKey e.upstream = true)

include h

theorem catalogued_loaded : Catalogued c.rulesets (loaded c) ∧
    (loaded c).rules = c.rulesets.foldl (fun rules e =>
      addToRules (toPanel c).groups rules (entryName c e) e.upstream) [] := by
  obtain ⟨hcatalogued, _, hrules⟩ := catalogued_start.run fun e he => (h e he).1
  exact ⟨hcatalogued, hrules⟩

theorem get_entryName {e : RulesetEntry} (he : e ∈ c.rulesets) :
    (loaded c).catalogMap.get (entryName c e) = some e.path := by
  obtain ⟨hcatalogued, _⟩ := catalogued_loaded h
  obtain ⟨name, hname⟩ := hcatalogued.named e he
  rw [← hcatalogued.inverse, entryName, Loading.nameOf, hname]
  rfl

theorem entryName_inj {e e' : RulesetEntry} (he : e ∈ c.rulesets) (he' : e' ∈ c.rulesets) :
    entryName c e = entryName c e' ↔ e.path = e'.path := by
  constructor
  · intro heq
    have hget := get_entryName h he
    rw [heq, get_entryName h he'] at hget
    exact (Option.some.inj hget).symm
  · intro heq
    rw [entryName, entryName, heq]

theorem rulesOf_loaded : RulesOf c (entryName c) (c.rulesets.reverse ++ []) (loaded c).rules ∧
    namesOf (loaded c).rules =
      ((dropRepeats RulesetEntry.upstream (entryName c) [] c.rulesets).filter fun e =>
        entryName c e ≠ "").map fun e => (entryName c e, e.upstream) := by
  obtain ⟨_, hrules⟩ := catalogued_loaded h
  rw [hrules]
  exact (rulesOf_start c (entryName c)).run fun e he => (h e he).2

omit h in
theorem pathsOf_get (name : String) : (pathsOf c).get name = (loaded c).catalogMap.get name :=
  pathOf_get (loaded c).catalogMap name

/-- A name that a rule shows is the name of an entry's path. -/
theorem mem_rulesets {rule : LoadedRule} (hrule : rule ∈ (loaded c).rules) {name : String}
    (hname : name ∈ rule.rulesets) :
    ∃ e ∈ c.rulesets, entryName c e = name ∧ name ≠ "" := by
  have hmem : (name, rule.upstream) ∈ namesOf (loaded c).rules := by
    apply List.mem_flatMap.mpr
    exact ⟨rule, hrule, List.mem_map_of_mem hname⟩
  rw [(rulesOf_loaded h).2] at hmem
  obtain ⟨e, he, heq⟩ := List.mem_map.mp hmem
  obtain ⟨hkept, hne⟩ := List.mem_filter.mp he
  have hentry : entryName c e = name := congrArg Prod.fst heq
  rw [decide_eq_true_eq, hentry] at hne
  exact ⟨e, (dropRepeats_sublist _ _).subset hkept, hentry, hne⟩

theorem hasPaths_loaded {rule : DnsRule} (hrule : rule ∈ (loaded c).rules.map LoadedRule.toDnsRule) :
    rule.HasPaths (pathsOf c) := by
  obtain ⟨rule, hloaded, rfl⟩ := List.mem_map.mp hrule
  intro name hname
  obtain ⟨e, he, rfl, _⟩ := mem_rulesets h hloaded hname
  exact ⟨e.path, (h e he).1, by rw [pathsOf_get, get_entryName h he]⟩

/-! ### The saved sections -/

omit h in
theorem fresh_start (value : JsonValue) :
    Commit.Fresh { nextGroups := IndexMap.insert .empty "default" value } := by
  intro key hkey
  have hne : key ≠ "default" := fun heq => hkey (List.mem_singleton.mpr heq)
  rw [IndexMap.get_insert, if_neg hne]
  rfl

omit h in
theorem get_default_start : ((toPanel c).groups.get "default").getD emptyGroup =
    ((c.groups.get "default").map UpstreamGroupCfg.toJson).getD emptyGroup := by
  rw [toPanel, IndexMap.get_mapValues]

omit h in
/-- What the default group is read back as. -/
theorem fromJson_default : UpstreamGroupCfg.fromJson
    (((toPanel c).groups.get "default").getD emptyGroup) =
      some ((c.groups.get "default").getD { servers := [] }) := by
  rw [get_default_start]
  cases c.groups.get "default" with
  | none => rfl
  | some g => exact UpstreamGroupCfg.fromJson_toJson g

omit h in
theorem committed_default : ((committed c).nextGroups.get "default").bind UpstreamGroupCfg.fromJson =
    some ((c.groups.get "default").getD { servers := [] }) := by
  rw [committed, Commit.run_get _ _ _ (List.mem_singleton_self "default"), IndexMap.get_insert,
    if_pos rfl, Option.bind_some, fromJson_default]

theorem readable_committed : (committed c).Readable := by
  apply Commit.Readable.run
  · intro key value hvalue
    rw [IndexMap.get_insert] at hvalue
    split at hvalue
    · cases hvalue
      exact ⟨_, fromJson_default⟩
    · cases hvalue
  · intro rule hrule
    obtain ⟨rule, hloaded, rfl⟩ := List.mem_map.mp hrule
    obtain ⟨g, _, hfrom⟩ := (rulesOf_loaded h).1.group rule hloaded
    exact ⟨_, hfrom.fromJson_toGroup⟩

omit h in
theorem mapM_fromJson (rulesets : List RulesetEntry) :
    (rulesets.map RulesetEntry.toJson).mapM RulesetEntry.fromJson = some rulesets := by
  induction rulesets with
  | nil => rfl
  | cons e rulesets ih =>
      rw [List.map_cons, List.mapM_cons, ih, RulesetEntry.fromJson_toJson]
      rfl

/-- The backend can always read the result. -/
theorem routingKept_iff_savedRoutes : RoutingKept c (savedUnchanged c) ↔
    (savedRoutes c).destutter (· ≠ ·) = (routesOf c.groups c.rulesets).destutter (· ≠ ·) ∧
      c.groups.containsKey "default" = true := by
  obtain ⟨groups, hgroups, hget⟩ := readGroups_get fun entry hentry =>
    readable_committed h entry.1 entry.2 (IndexMap.get_eq_some.mpr hentry)
  have hroutes : routesOf groups (committed c).nextRulesets = savedRoutes c := by
    apply List.map_congr_left
    intro e _
    rw [routeOf, hget]
  have hdefault : groups.get "default" = c.groups.get "default" ↔
      c.groups.containsKey "default" = true := by
    rw [hget, committed_default, ← Bool.not_eq_false, ← IndexMap.get_eq_none]
    cases c.groups.get "default" with
    | none => simp
    | some g => simp
  rw [← hroutes, ← hdefault]
  constructor
  · rintro ⟨groups', rulesets', hgroups', hrulesets', hsame, hkept⟩
    have heq : groups' = groups := Option.some.inj (hgroups'.symm.trans hgroups)
    have heq' : rulesets' = (committed c).nextRulesets :=
      Option.some.inj (hrulesets'.symm.trans (mapM_fromJson _))
    rw [heq] at hsame hkept
    rw [heq'] at hsame
    exact ⟨hsame, hkept⟩
  · rintro ⟨hsame, hkept⟩
    exact ⟨groups, (committed c).nextRulesets, hgroups, mapM_fromJson _, hsame, hkept⟩

/-- The routes by name: what the rules show, with their groups as they come back. -/
theorem savedRoutes_names
    (hproto : ∀ rule ∈ (loaded c).rules, rule.firstName ≠ "__proto__") :
    savedRoutes c = (namesOf (loaded c).rules).map fun entry =>
      (((pathsOf c).get entry.1).getD "", (c.groups.get entry.2).map withoutSubnet) := by
  have hproto' : ∀ rule ∈ (loaded c).rules.map LoadedRule.toDnsRule,
      rule.firstName ≠ "__proto__" := by
    intro rule hrule
    obtain ⟨rule, hloaded, rfl⟩ := List.mem_map.mp hrule
    exact hproto rule hloaded
  obtain ⟨added, hadded, hroutes⟩ := Commit.run_routes _ _ 0 (fresh_start _)
    (fun _ hrule => hasPaths_loaded h hrule) hproto'
  have hsaved : savedRoutes c = (added.map fun e =>
      (e.path, (committed c).nextGroups.get e.upstream)).map
        (Prod.map id fun group => group.bind UpstreamGroupCfg.fromJson) := by
    rw [savedRoutes, committed, hadded, List.nil_append, List.map_map]
    rfl
  rw [hsaved, committed, hroutes, namesOf, List.flatMap_map, List.map_flatMap, List.map_flatMap]
  apply List.flatMap_congr
  intro rule hrule
  obtain ⟨g, hg, hfrom⟩ := (rulesOf_loaded h).1.group rule hrule
  rw [List.map_map, List.map_map]
  apply List.map_congr_left
  intro name _
  change (_, UpstreamGroupCfg.fromJson rule.toGroup) = _
  rw [hfrom.fromJson_toGroup]
  dsimp only [Function.comp_apply]
  rw [hg]
  rfl

/-- Unless a rule is called `__proto__`, what comes back are the entries with a
name, without the repeats in a run and without the client subnets. -/
theorem savedRoutes_eq
    (hproto : ∀ rule ∈ (loaded c).rules, rule.firstName ≠ "__proto__") :
    savedRoutes c =
      ((dropRepeats RulesetEntry.upstream (entryName c) [] c.rulesets).filter fun e =>
        entryName c e ≠ "").map fun e =>
          (e.path, (c.groups.get e.upstream).map withoutSubnet) := by
  rw [savedRoutes_names h hproto, (rulesOf_loaded h).2, List.map_map]
  apply List.map_congr_left
  intro e he
  have hmem := (dropRepeats_sublist _ _).subset (List.mem_of_mem_filter he)
  dsimp only [Function.comp_apply]
  rw [pathsOf_get, get_entryName h hmem, Option.getD_some]

/-- A rule called `__proto__` leaves a route to nowhere. -/
theorem mem_savedRoutes_of_proto {rule : LoadedRule} (hrule : rule ∈ (loaded c).rules)
    (hproto : rule.firstName = "__proto__") : ∃ path, (path, none) ∈ savedRoutes c := by
  have hstart : "__proto__" ∉ ["default"] := by decide
  obtain ⟨e, he, hupstream⟩ := Commit.run_proto
    { nextGroups := IndexMap.insert .empty "default"
        (((toPanel c).groups.get "default").getD emptyGroup) }
    ((loaded c).rules.map LoadedRule.toDnsRule) 0
    (fun hused => absurd hused hstart) (fun _ hrule => hasPaths_loaded h hrule)
    ⟨rule.toDnsRule, List.mem_map_of_mem hrule, hproto⟩
  have hnone : (committed c).nextGroups.get "__proto__" = none := by
    apply Commit.run_get_proto
    rw [IndexMap.get_insert, if_neg (by decide)]
    rfl
  refine ⟨e.path, List.mem_map.mpr ⟨e, he, ?_⟩⟩
  rw [hupstream, hnone]
  rfl

/-! ### The first names of the rules -/

/-- While every path has a name, the rules begin with the names of the runs. -/
theorem heads_loaded (hnames : ∀ e ∈ c.rulesets, entryName c e ≠ "") :
    headsOf (loaded c).rules = (runStarts RulesetEntry.upstream none c.rulesets).map
      fun e => some (entryName c e) := by
  rw [(catalogued_loaded h).2]
  exact (rulesOf_start c (entryName c)).run_heads (fun e he => absurd he List.not_mem_nil)
    (fun e he => (h e he).2) hnames

/-- Some path is called `''` exactly if some path has no base name. -/
theorem entryName_ne_empty_iff :
    (∀ e ∈ c.rulesets, entryName c e ≠ "") ↔ ∀ e ∈ c.rulesets, basenameNoExt e.path ≠ "" := by
  obtain ⟨hcatalogued, _⟩ := catalogued_loaded h
  constructor
  · intro hnames e he hempty
    have hfirst := hcatalogued.first "" fun name i heq => numbered_ne_empty name "_" i heq.symm
    have hsome : (c.rulesets.find? fun e => basenameNoExt e.path = "").isSome = true :=
      List.find?_isSome.mpr ⟨e, he, decide_eq_true hempty⟩
    obtain ⟨e', hfind⟩ := Option.isSome_iff_exists.mp hsome
    rw [hfind, Option.map_some, ← hcatalogued.inverse] at hfirst
    apply hnames e' (List.mem_of_find?_eq_some hfind)
    rw [entryName, Loading.nameOf, hfirst]
    rfl
  · intro hbase e he hempty
    have hget := get_entryName h he
    rw [hempty, ← hcatalogued.inverse] at hget
    exact hbase e he (hcatalogued.unnamed e.path hget)

/-- Which paths are called `__proto__`, white space apart. -/
theorem trim_entryName_iff {e : RulesetEntry} (he : e ∈ c.rulesets) :
    jsTrim (entryName c e) = "__proto__" ↔
      jsTrim (basenameNoExt e.path) = "__proto__" ∧
        (c.rulesets.find? fun e' => basenameNoExt e'.path = basenameNoExt e.path).map
          RulesetEntry.path = some e.path := by
  obtain ⟨hcatalogued, _⟩ := catalogued_loaded h
  have hget := get_entryName h he
  constructor
  · intro htrim
    have hfirst := hcatalogued.first (entryName c e) fun name i => ne_numbered_of_trim htrim name _ i
    rw [hget, eq_comm] at hfirst
    obtain ⟨e', hfind, hpath⟩ := Option.map_eq_some_iff.mp hfirst
    have hbase : basenameNoExt e'.path = entryName c e := by simpa using List.find?_some hfind
    rw [hpath] at hbase
    rw [hbase]
    exact ⟨htrim, hfirst⟩
  · rintro ⟨htrim, hfind⟩
    have hfirst := hcatalogued.first (basenameNoExt e.path)
      fun name i => ne_numbered_of_trim htrim name _ i
    rw [hfind, ← hcatalogued.inverse] at hfirst
    rw [entryName, Loading.nameOf, hfirst]
    exact htrim

/-- No rule is called `__proto__` exactly if no run begins with such a path. -/
theorem firstName_ne_proto_iff (hnames : ∀ e ∈ c.rulesets, entryName c e ≠ "") :
    (∀ rule ∈ (loaded c).rules, rule.firstName ≠ "__proto__") ↔
      ∀ e ∈ runStarts RulesetEntry.upstream none c.rulesets,
        jsTrim (basenameNoExt e.path) = "__proto__" →
          (c.rulesets.find? fun e' => basenameNoExt e'.path = basenameNoExt e.path).map
            RulesetEntry.path ≠ some e.path := by
  have hheads : (∀ rule ∈ (loaded c).rules, rule.firstName ≠ "__proto__") ↔
      ∀ head ∈ headsOf (loaded c).rules, jsTrim (head.getD "") ≠ "__proto__" := by
    rw [headsOf, List.forall_mem_map]
    exact Iff.rfl
  rw [hheads, heads_loaded h hnames, List.forall_mem_map]
  apply forall₂_congr
  intro e he
  have hmem := (runStarts_sublist _ _).subset he
  change ¬ jsTrim (entryName c e) = "__proto__" ↔ _
  rw [trim_entryName_iff h hmem, not_and]

/-! ### The routing is kept -/

/-- With names and without client subnets, only repeats can be lost. -/
theorem savedRoutes_eq_dropRepeats
    (hproto : ∀ rule ∈ (loaded c).rules, rule.firstName ≠ "__proto__")
    (hnames : ∀ e ∈ c.rulesets, entryName c e ≠ "")
    (hsubnet : ∀ e ∈ c.rulesets, ∀ g, c.groups.get e.upstream = some g → g.clientSubnet = none) :
    savedRoutes c = (dropRepeats RulesetEntry.upstream (routeOf c.groups) [] c.rulesets).map
      (routeOf c.groups) := by
  have hcongr : dropRepeats RulesetEntry.upstream (entryName c) [] c.rulesets =
      dropRepeats RulesetEntry.upstream (routeOf c.groups) [] c.rulesets := by
    apply dropRepeats_congr
    intro e he e' he' hupstream
    rw [entryName_inj h he he', routeOf, routeOf, hupstream, Prod.mk.injEq]
    exact (and_iff_left rfl).symm
  have hfilter : (dropRepeats RulesetEntry.upstream (entryName c) [] c.rulesets).filter
      (fun e => entryName c e ≠ "") =
        dropRepeats RulesetEntry.upstream (entryName c) [] c.rulesets := by
    apply List.filter_eq_self.mpr
    intro e he
    exact decide_eq_true (hnames e ((dropRepeats_sublist _ _).subset he))
  rw [savedRoutes_eq h hproto, hfilter, hcongr]
  apply List.map_congr_left
  intro e he
  have hmem := (dropRepeats_sublist _ _).subset he
  obtain ⟨g, hg⟩ := IndexMap.get_of_containsKey (h e hmem).2
  rw [routeOf, hg, Option.map_some, withoutSubnet_eq.mpr (hsubnet e hmem g hg)]

theorem editorSafe_of_routingKept (hkept : RoutingKept c (savedUnchanged c)) : EditorSafe c := by
  obtain ⟨hsame, hdefault⟩ := (routingKept_iff_savedRoutes h).mp hkept
  have hmem : ∀ route, route ∈ savedRoutes c ↔ route ∈ routesOf c.groups c.rulesets := by
    intro route
    rw [← mem_destutter_ne, hsame, mem_destutter_ne]
  -- the names come first: what is saved is only known once no rule is called `__proto__`
  have hproto : ∀ rule ∈ (loaded c).rules, rule.firstName ≠ "__proto__" := by
    intro rule hrule hfirst
    obtain ⟨path, hpath⟩ := mem_savedRoutes_of_proto h hrule hfirst
    obtain ⟨e, he, heq⟩ := List.mem_map.mp ((hmem _).mp hpath)
    obtain ⟨g, hg⟩ := IndexMap.get_of_containsKey (h e he).2
    rw [routeOf, hg] at heq
    cases heq
  have hsaved : ∀ e ∈ c.rulesets, ∃ e' ∈ c.rulesets, entryName c e' ≠ "" ∧
      (e'.path, (c.groups.get e'.upstream).map withoutSubnet) = routeOf c.groups e := by
    intro e he
    have hroute := (hmem (routeOf c.groups e)).mpr (List.mem_map_of_mem he)
    rw [savedRoutes_eq h hproto] at hroute
    obtain ⟨e', he', heq⟩ := List.mem_map.mp hroute
    obtain ⟨hkept, hne⟩ := List.mem_filter.mp he'
    exact ⟨e', (dropRepeats_sublist _ _).subset hkept, of_decide_eq_true hne, heq⟩
  have hnames : ∀ e ∈ c.rulesets, entryName c e ≠ "" := by
    intro e he
    obtain ⟨e', he', hne, heq⟩ := hsaved e he
    rw [← (entryName_inj h he' he).mpr (congrArg Prod.fst heq)]
    exact hne
  have hsubnet : ∀ e ∈ c.rulesets, ∀ g, c.groups.get e.upstream = some g →
      g.clientSubnet = none := by
    intro e he g hg
    obtain ⟨e', he', _, heq⟩ := hsaved e he
    have hgroup := congrArg Prod.snd heq
    dsimp only [routeOf] at hgroup
    rw [hg] at hgroup
    obtain ⟨g', _, rfl⟩ := Option.map_eq_some_iff.mp hgroup
    rfl
  rw [savedRoutes_eq_dropRepeats h hproto hnames hsubnet] at hsame
  exact ⟨hdefault, hsubnet, (entryName_ne_empty_iff h).mp hnames,
    (firstName_ne_proto_iff h hnames).mp hproto, destutter_dropRepeats.mp hsame⟩

theorem EditorSafe.routingKept (hsafe : EditorSafe c) : RoutingKept c (savedUnchanged c) := by
  have hnames := (entryName_ne_empty_iff h).mpr hsafe.basename
  have hproto := (firstName_ne_proto_iff h hnames).mpr hsafe.proto
  rw [routingKept_iff_savedRoutes h, savedRoutes_eq_dropRepeats h hproto hnames hsafe.subnet]
  exact ⟨destutter_dropRepeats.mpr hsafe.repeats, hsafe.default⟩

/-- Opened in the rule editor and saved unchanged, a configuration keeps its
routing exactly if it is one of those the editor can hold. -/
theorem routing_kept_iff : RoutingKept c (savedUnchanged c) ↔ EditorSafe c :=
  ⟨editorSafe_of_routingKept h, EditorSafe.routingKept h⟩

end Saved

/-- Two lists of one base name, one of them named twice in a row. -/
def mirrorsConfig : Config where
  listen := ⟨.v4 0x7f000001, 53⟩
  groups := { entries := [("default", { servers := ["udp://9.9.9.9"] }),
    ("cn", { servers := ["udp://10.0.0.1"], strategy := .fastest })] }
  rulesets := [⟨"/etc/relay/cn.drs", "cn"⟩, ⟨"/etc/relay/cn.drs", "cn"⟩, ⟨"/srv/cn.drs", "cn"⟩,
    ⟨"/etc/relay/ads.drs", "default"⟩]

theorem routing_kept_mirrors : RoutingKept mirrorsConfig (savedUnchanged mirrorsConfig) := by
  have hsubnet : ∀ e ∈ mirrorsConfig.rulesets,
      (mirrorsConfig.groups.get e.upstream).bind UpstreamGroupCfg.clientSubnet = none := by decide
  have hrepeats : RepeatsFine RulesetEntry.upstream (routeOf mirrorsConfig.groups) []
      mirrorsConfig.rulesets := by
    refine repeatsFine_cons.mpr ⟨fun hmem => absurd hmem List.not_mem_nil, ?_⟩
    refine repeatsFine_cons.mpr ⟨fun _ => Or.inl rfl, ?_⟩
    refine repeatsFine_cons.mpr ⟨fun hmem => absurd hmem (by decide), ?_⟩
    exact repeatsFine_cons.mpr ⟨fun hmem => absurd hmem (by decide), repeatsFine_nil⟩
  refine (routing_kept_iff (c := mirrorsConfig) (by decide)).mpr
    ⟨by decide, ?_, by decide, by decide, hrepeats⟩
  intro e he g hg
  have hnone := hsubnet e he
  rw [hg] at hnone
  exact hnone

/-- One rule set, resolved for the clients of a network. -/
def subnetConfig : Config where
  listen := ⟨.v4 0x7f000001, 53⟩
  groups := { entries := [("default", { servers := ["udp://9.9.9.9"] }),
    ("cn", { servers := ["udp://10.0.0.1"], clientSubnet := some "192.0.2.0/24" })] }
  rulesets := [⟨"/etc/relay/cn.drs", "cn"⟩]

/-- The client subnet does not survive a save. -/
theorem client_subnet_lost :
    (∀ e ∈ subnetConfig.rulesets,
      e.path ≠ "" ∧ subnetConfig.groups.containsKey e.upstream = true) ∧
    ¬ RoutingKept subnetConfig (savedUnchanged subnetConfig) := by
  have hwell : ∀ e ∈ subnetConfig.rulesets,
      e.path ≠ "" ∧ subnetConfig.groups.containsKey e.upstream = true := by decide
  refine ⟨hwell, ?_⟩
  intro hkept
  have hsubnet := (editorSafe_of_routingKept hwell hkept).subnet _ List.mem_cons_self _ rfl
  cases hsubnet

end Relay.Web
