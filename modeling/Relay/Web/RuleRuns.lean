import Relay.Logic.Repeats
import Relay.Web.Catalogue

/-!
The rules the editor shows are the runs of neighbouring entries of one group,
each name once.
-/

namespace Relay.Web

open Logic Text

/-! ### The settings of a rule -/

/-- The rule has the group's settings, as far as it has read them. -/
structure FromGroup (g : UpstreamGroupCfg) (rule : DnsRule) : Prop where
  servers : rule.servers = g.servers
  strategy : rule.strategy = g.strategy.serdeName
  insecure : rule.insecure = g.insecure
  clientSubnet : rule.clientSubnet = none

theorem filterMap_asString (texts : List String) :
    (texts.map JsonValue.string).filterMap JsonValue.asString = texts := by
  rw [List.filterMap_map]
  exact List.filterMap_some

/-- The client subnet is looked for under a name that the backend does not use. -/
theorem loadRule_fromGroup {c : Config} {upstream : String} {g : UpstreamGroupCfg}
    (hg : c.groups.get upstream = some g) (name : String) :
    FromGroup g (loadRule (c.groups.mapValues UpstreamGroupCfg.toJson) name upstream).toDnsRule := by
  have hget : (c.groups.mapValues UpstreamGroupCfg.toJson).get upstream = some g.toJson := by
    rw [IndexMap.get_mapValues, hg, Option.map_some]
  unfold loadRule
  rw [hget, Option.getD_some]
  exact {
    servers := filterMap_asString g.servers
    strategy := if_neg g.strategy.serdeName_ne_empty
    insecure := rfl
    clientSubnet := rfl }

/-- The group a rule is saved as: no client subnet arrives at the backend. -/
theorem FromGroup.fromJson_toGroup {g : UpstreamGroupCfg} {rule : DnsRule}
    (h : FromGroup g rule) :
    UpstreamGroupCfg.fromJson rule.toGroup = some { g with clientSubnet := none } := by
  have hne : rule.strategy ≠ "" := by
    rw [h.strategy]
    exact g.strategy.serdeName_ne_empty
  have hservers : JsonValue.field rule.toGroup "servers" none readStrings = some g.servers := by
    rw [← h.servers]
    exact readStrings_map rule.servers
  have hstrategy : JsonValue.field rule.toGroup "strategy" (some .roundRobin) readStrategy =
      some g.strategy := by
    change readStrategy (.string (if rule.strategy = "" then "round_robin" else rule.strategy)) = _
    rw [if_neg hne, h.strategy]
    exact readStrategy_serdeName g.strategy
  have hinsecure : JsonValue.field rule.toGroup "insecure" (some false) JsonValue.asBool =
      some g.insecure := by
    rw [← h.insecure]
    rfl
  have hsubnet : JsonValue.field rule.toGroup "client_subnet" (some none) readOptionString =
      some none := rfl
  rw [UpstreamGroupCfg.fromJson, hservers, hstrategy, hinsecure, hsubnet]
  rfl

/-! ### One entry -/

/-- An entry goes on with the last rule, adds nothing to it, or starts a rule. -/
theorem addToRules_cases (groups : IndexMap JsonValue) (rules : List LoadedRule)
    (name upstream : String) :
    (∃ front last, rules = front ++ [last] ∧ last.upstream = upstream ∧
      name ≠ "" ∧ name ∉ last.rulesets ∧ addToRules groups rules name upstream =
        front ++ [{ last with rulesets := last.rulesets ++ [name] }]) ∨
    (∃ front last, rules = front ++ [last] ∧ last.upstream = upstream ∧
      (name = "" ∨ name ∈ last.rulesets) ∧ addToRules groups rules name upstream = rules) ∨
    (rules.getLast?.map LoadedRule.upstream ≠ some upstream ∧
      addToRules groups rules name upstream = rules ++ [loadRule groups name upstream]) := by
  unfold addToRules
  obtain rfl | ⟨front, last, rfl⟩ := List.eq_nil_or_concat' rules
  · exact Or.inr (Or.inr ⟨by simp, rfl⟩)
  · rw [List.getLast?_concat, List.dropLast_concat]
    dsimp only
    split
    · rename_i hupstream
      split
      · rename_i hnew
        exact Or.inl ⟨front, last, rfl, hupstream, hnew.1, hnew.2, rfl⟩
      · rename_i hold
        rw [not_and_or, not_not, not_not] at hold
        exact Or.inr (Or.inl ⟨front, last, rfl, hupstream, hold, rfl⟩)
    · rename_i hother
      refine Or.inr (Or.inr ⟨?_, rfl⟩)
      intro heq
      exact hother (Option.some.inj heq)

/-- The names of the rules in order, each with the group of its rule. -/
def namesOf (rules : List LoadedRule) : List (String × String) :=
  rules.flatMap fun rule => rule.rulesets.map fun name => (name, rule.upstream)

/-- The names the rules begin with. -/
def headsOf (rules : List LoadedRule) : List (Option String) :=
  rules.map fun rule => rule.rulesets.head?

/-- The rules after the entries `before`, the last one first, each called `f`. -/
structure RulesOf (c : Config) (f : RulesetEntry → String) (before : List RulesetEntry)
    (rules : List LoadedRule) : Prop where
  group : ∀ rule ∈ rules, ∃ g, c.groups.get rule.upstream = some g ∧ FromGroup g rule.toDnsRule
  last : rules.getLast?.map LoadedRule.upstream = before.head?.map RulesetEntry.upstream
  lastNames : ∀ rule ∈ rules.getLast?, ∀ e : RulesetEntry, rule.upstream = e.upstream →
    ∀ name ≠ "", name ∈ rule.rulesets ↔ name ∈ shown RulesetEntry.upstream f before e

theorem rulesOf_start (c : Config) (f : RulesetEntry → String) : RulesOf c f [] [] where
  group rule hrule := absurd hrule List.not_mem_nil
  last := rfl
  lastNames rule hrule := by cases hrule

variable {c : Config} {f : RulesetEntry → String} {before : List RulesetEntry}
  {rules : List LoadedRule}

theorem namesOf_append (rules rules' : List LoadedRule) :
    namesOf (rules ++ rules') = namesOf rules ++ namesOf rules' := List.flatMap_append

theorem namesOf_singleton (rule : LoadedRule) :
    namesOf [rule] = rule.rulesets.map fun name => (name, rule.upstream) := List.flatMap_singleton _ _

/-- What the last rule shows once the run has gone on with `e`. -/
theorem RulesOf.mem_shown {front : List LoadedRule} {last : LoadedRule}
    (h : RulesOf c f before (front ++ [last])) {e : RulesetEntry}
    (hlast : last.upstream = e.upstream) {name : String} (hname : name ≠ "") :
    name ∈ last.rulesets ↔ name ∈ shown RulesetEntry.upstream f before e :=
  h.lastNames last (by rw [List.getLast?_concat]; rfl) e hlast name hname

/-- The next entry goes on with the last rule, whose names are now `rulesets`. -/
theorem RulesOf.goOn {front : List LoadedRule} {last : LoadedRule}
    (h : RulesOf c f before (front ++ [last])) {e : RulesetEntry}
    (hlast : last.upstream = e.upstream) {rulesets : List String}
    (hnames : ∀ name ≠ "", name ∈ rulesets ↔ name = f e ∨ name ∈ last.rulesets) :
    RulesOf c f (e :: before) (front ++ [{ last with rulesets }]) where
  group rule hrule := by
    obtain hfront | hrule := List.mem_append.mp hrule
    · exact h.group rule (List.mem_append_left _ hfront)
    · obtain ⟨g, hg, hfrom⟩ := h.group last (List.mem_append_right _ (List.mem_singleton_self last))
      rw [List.mem_singleton.mp hrule]
      exact ⟨g, hg, ⟨hfrom.servers, hfrom.strategy, hfrom.insecure, hfrom.clientSubnet⟩⟩
  last := by
    rw [List.getLast?_concat, List.head?_cons, Option.map_some, Option.map_some, hlast]
  lastNames rule hrule e' he' name hname := by
    rw [List.getLast?_concat] at hrule
    cases hrule
    rw [shown_cons_self (hlast.symm.trans he'), List.mem_cons, hnames name hname,
      h.mem_shown hlast hname]

/-- The next entry starts a rule. -/
theorem RulesOf.start (h : RulesOf c f before rules) {e : RulesetEntry}
    (he : c.groups.containsKey e.upstream = true)
    (hempty : shown RulesetEntry.upstream f before e = []) :
    RulesOf c f (e :: before)
      (rules ++ [loadRule (c.groups.mapValues UpstreamGroupCfg.toJson) (f e) e.upstream]) where
  group rule hrule := by
    obtain hold | hrule := List.mem_append.mp hrule
    · exact h.group rule hold
    · obtain ⟨g, hg⟩ := IndexMap.get_of_containsKey he
      rw [List.mem_singleton.mp hrule]
      exact ⟨g, hg, loadRule_fromGroup hg (f e)⟩
  last := by
    rw [List.getLast?_concat]
    rfl
  lastNames rule hrule e' he' name hname := by
    rw [List.getLast?_concat] at hrule
    cases hrule
    have hrun : e.upstream = e'.upstream := he'
    rw [shown_cons_self hrun, hempty, List.mem_singleton]
    change name ∈ (if f e = "" then [] else [f e]) ↔ name = f e
    split
    · rename_i hfe
      rw [hfe]
      exact ⟨fun hmem => absurd hmem List.not_mem_nil, fun heq => absurd heq hname⟩
    · exact List.mem_singleton

/-- One more entry: its name is new to its run, or nothing is added. -/
theorem RulesOf.step (h : RulesOf c f before rules) {e : RulesetEntry}
    (he : c.groups.containsKey e.upstream = true) :
    RulesOf c f (e :: before) (addToRules (c.groups.mapValues UpstreamGroupCfg.toJson) rules
      (f e) e.upstream) ∧
    namesOf (addToRules (c.groups.mapValues UpstreamGroupCfg.toJson) rules (f e) e.upstream) =
      namesOf rules ++
        (if f e = "" ∨ f e ∈ shown RulesetEntry.upstream f before e then []
        else [(f e, e.upstream)]) := by
  obtain ⟨front, last, rfl, hlast, hne, hnew, hadd⟩ | ⟨front, last, rfl, hlast, hold, hadd⟩ |
    ⟨hother, hadd⟩ := addToRules_cases (c.groups.mapValues UpstreamGroupCfg.toJson) rules
      (f e) e.upstream
  · rw [hadd]
    constructor
    · apply h.goOn hlast
      intro name _
      rw [List.mem_append, List.mem_singleton, or_comm]
    · rw [h.mem_shown hlast hne] at hnew
      rw [if_neg (not_or.mpr ⟨hne, hnew⟩), namesOf_append, namesOf_append, namesOf_singleton,
        namesOf_singleton, List.map_append, List.append_assoc, ← hlast]
      rfl
  · rw [hadd]
    constructor
    · apply h.goOn hlast
      intro name hname
      constructor
      · exact Or.inr
      · rintro (rfl | hmem)
        · exact hold.resolve_left hname
        · exact hmem
    · have hshown : f e = "" ∨ f e ∈ shown RulesetEntry.upstream f before e := by
        rcases eq_or_ne (f e) "" with hempty | hne
        · exact Or.inl hempty
        · exact Or.inr ((h.mem_shown hlast hne).mp (hold.resolve_left hne))
      rw [if_pos hshown, List.append_nil]
  · have hempty : shown RulesetEntry.upstream f before e = [] := by
      rw [h.last] at hother
      cases before with
      | nil => rfl
      | cons d before => exact shown_cons_of_ne fun heq => hother (congrArg some heq)
    rw [hadd, hempty]
    refine ⟨h.start he hempty, ?_⟩
    rw [namesOf_append, namesOf_singleton]
    congr 1
    change (if f e = "" then [] else [f e]).map (fun name => (name, e.upstream)) = _
    by_cases hfe : f e = ""
    · rw [if_pos hfe, if_pos (Or.inl hfe), List.map_nil]
    · rw [if_neg hfe, if_neg (by simpa using hfe), List.map_singleton]

/-! ### All entries -/

/-- The names of all rules: those of the entries, without the repeats in a run
and without the empty ones. -/
theorem RulesOf.run (h : RulesOf c f before rules) {entries : List RulesetEntry}
    (hgroups : ∀ e ∈ entries, c.groups.containsKey e.upstream = true) :
    let rules' := entries.foldl (fun rules e =>
      addToRules (c.groups.mapValues UpstreamGroupCfg.toJson) rules (f e) e.upstream) rules
    RulesOf c f (entries.reverse ++ before) rules' ∧
      namesOf rules' = namesOf rules ++
        ((dropRepeats RulesetEntry.upstream f before entries).filter fun e => f e ≠ "").map
          fun e => (f e, e.upstream) := by
  induction entries generalizing before rules with
  | nil => exact ⟨h, (List.append_nil _).symm⟩
  | cons e entries ih =>
      obtain ⟨hstep, hnames⟩ := h.step (hgroups e List.mem_cons_self)
      obtain ⟨hrun, hrest⟩ := ih hstep fun other hother =>
        hgroups other (List.mem_cons_of_mem e hother)
      rw [List.foldl_cons, List.reverse_cons, List.append_assoc]
      refine ⟨hrun, ?_⟩
      rw [hrest, hnames, dropRepeats, List.append_assoc]
      congr 1
      by_cases hrepeat : f e ∈ shown RulesetEntry.upstream f before e
      · rw [if_pos (Or.inr hrepeat), if_pos hrepeat, List.nil_append]
      · rw [if_neg hrepeat]
        by_cases hempty : f e = ""
        · rw [if_pos (Or.inl hempty), List.filter_cons_of_neg (by simpa using hempty),
            List.nil_append]
        · rw [if_neg (not_or.mpr ⟨hempty, hrepeat⟩), List.filter_cons_of_pos (by simpa using hempty)]
          rfl

/-- The last rule is not empty while the names are not. -/
theorem RulesOf.head_append {front : List LoadedRule} {last : LoadedRule}
    (h : RulesOf c f before (front ++ [last])) (hnames : ∀ e ∈ before, f e ≠ "") (name : String) :
    (last.rulesets ++ [name]).head? = last.rulesets.head? := by
  have hhead := h.last
  rw [List.getLast?_concat, Option.map_some] at hhead
  cases before with
  | nil => cases hhead
  | cons d before =>
      have hupstream : last.upstream = d.upstream := Option.some.inj hhead
      have hmem := (h.mem_shown hupstream (hnames d List.mem_cons_self)).mpr (mem_shown_self before d)
      exact List.head?_append_of_ne_nil _ (List.ne_nil_of_mem hmem)

theorem RulesOf.step_heads (h : RulesOf c f before rules) (hnames : ∀ e ∈ before, f e ≠ "")
    {e : RulesetEntry} (he : f e ≠ "") (groups : IndexMap JsonValue) :
    headsOf (addToRules groups rules (f e) e.upstream) = headsOf rules ++
      (if before.head?.map RulesetEntry.upstream = some e.upstream then [] else [some (f e)]) := by
  rw [← h.last]
  obtain ⟨front, last, rfl, hlast, _, _, hadd⟩ | ⟨front, last, rfl, hlast, _, hadd⟩ |
    ⟨hother, hadd⟩ := addToRules_cases groups rules (f e) e.upstream
  · rw [hadd, List.getLast?_concat, Option.map_some, hlast, if_pos rfl, List.append_nil, headsOf,
      headsOf, List.map_append, List.map_append, List.map_singleton, List.map_singleton]
    dsimp only
    rw [h.head_append hnames]
  · rw [hadd, List.getLast?_concat, Option.map_some, hlast, if_pos rfl, List.append_nil]
  · rw [hadd, if_neg hother, headsOf, headsOf, List.map_append, List.map_singleton]
    change _ ++ [(if f e = "" then [] else [f e]).head?] = _
    rw [if_neg he]
    rfl

/-- While no name is empty, a rule begins with the name of the entry that starts the run. -/
theorem RulesOf.run_heads (h : RulesOf c f before rules) (hbefore : ∀ e ∈ before, f e ≠ "")
    {entries : List RulesetEntry}
    (hgroups : ∀ e ∈ entries, c.groups.containsKey e.upstream = true)
    (hnames : ∀ e ∈ entries, f e ≠ "") :
    headsOf (entries.foldl (fun rules e =>
        addToRules (c.groups.mapValues UpstreamGroupCfg.toJson) rules (f e) e.upstream) rules) =
      headsOf rules ++
        (runStarts RulesetEntry.upstream (before.head?.map RulesetEntry.upstream) entries).map
          fun e => some (f e) := by
  induction entries generalizing before rules with
  | nil => exact (List.append_nil _).symm
  | cons e entries ih =>
      have he := hnames e List.mem_cons_self
      obtain ⟨hstep, _⟩ := h.step (hgroups e List.mem_cons_self)
      have hbefore' : ∀ d ∈ e :: before, f d ≠ "" := by
        intro d hd
        obtain rfl | hold := List.mem_cons.mp hd
        · exact he
        · exact hbefore d hold
      have hrest := ih hstep hbefore'
        (fun other hother => hgroups other (List.mem_cons_of_mem e hother))
        (fun other hother => hnames other (List.mem_cons_of_mem e hother))
      rw [List.foldl_cons, hrest, h.step_heads hbefore he, List.append_assoc, runStarts,
        List.head?_cons, Option.map_some]
      congr 1
      split
      · rfl
      · rfl

end Relay.Web
