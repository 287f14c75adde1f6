import Relay.Logic.Run
import Relay.Web.Committed
import Relay.Web.Objects

/-!
The catalogue of rule sets while it is edited, in `UpstreamsTab.jsx`: the rules
refer to its entries by name, and every keystroke in a name is a rename of its
own that is committed at once.
-/

namespace Relay.Web

open Logic Text

/-! ### The editor -/

/-- The editor's catalogue and rules, and the configuration they are committed to. -/
structure Editor where
  config : PanelConfig
  catalog : List CatalogEntry
  dnsRules : List DnsRule

def Editor.commit (s : Editor) (nextCatalog : List CatalogEntry) (nextRules : List DnsRule) :
    Editor :=
  ⟨commitToConfig s.config nextCatalog nextRules, nextCatalog, nextRules⟩

def Editor.addCatalogEntry (s : Editor) (newRsName newRsPath : String) : Editor :=
  let name := jsTrim newRsName
  let path := jsTrim newRsPath
  if name = "" ∨ path = "" then s
  else if s.catalog.any fun c => c.name = name then s
  else s.commit (s.catalog ++ [⟨name, path⟩]) s.dnsRules

/-- What `updateCatalogEntry` is to replace. -/
structure CatalogPatch where
  name : Option String := none
  path : Option String := none
  deriving DecidableEq, Repr

/-- References to an old name become references to the new one. -/
def DnsRule.rename (oldName name : String) (rule : DnsRule) : DnsRule :=
  { rule with rulesets := rule.rulesets.map fun n => if n = oldName then name else n }

def Editor.updateCatalogEntry (s : Editor) (i : Nat) (patch : CatalogPatch) : Editor :=
  match s.catalog[i]? with
  | none => s
  | some c =>
      let next := s.catalog.set i ⟨patch.name.getD c.name, patch.path.getD c.path⟩
      let name := patch.name.getD ""
      if name ≠ "" ∧ name ≠ c.name then s.commit next (s.dnsRules.map (·.rename c.name name))
      else s.commit next s.dnsRules

def Editor.removeCatalogEntry (s : Editor) (i : Nat) : Editor :=
  match s.catalog[i]? with
  | none => s
  | some c =>
      s.commit (s.catalog.eraseIdx i)
        (s.dnsRules.map fun r => { r with rulesets := r.rulesets.filter fun n => n ≠ c.name })

def emptyRule : DnsRule :=
  { rulesets := [], servers := [], strategy := "round_robin", insecure := false,
    clientSubnet := none }

def Editor.addRule (s : Editor) : Editor := s.commit s.catalog (s.dnsRules ++ [emptyRule])

/-- What the inputs of a rule hand to `updateRule`. -/
inductive RulePatch where
  | toggle (name : String)
  | strategy (text : String)
  | clientSubnet (text : String)
  | insecure (flag : Bool)
  | servers (items : List String)
  deriving DecidableEq, Repr

/-- `new Set`. -/
def jsSet (items : List String) : List String :=
  items.foldl (fun set n => if n ∈ set then set else set ++ [n]) []

/-- A checkbox is there for each name of the catalogue. -/
def RulePatch.apply (catalogNames : List String) (rule : DnsRule) : RulePatch → DnsRule
  | .toggle name =>
      if name ∉ catalogNames then rule
      else if name ∈ rule.rulesets then
        { rule with rulesets := (jsSet rule.rulesets).filter fun n => n ≠ name }
      else { rule with rulesets := jsSet rule.rulesets ++ [name] }
  | .strategy text => { rule with strategy := text }
  | .clientSubnet text => { rule with clientSubnet := if text = "" then none else some text }
  | .insecure flag => { rule with insecure := flag }
  | .servers items => { rule with servers := items }

def Editor.updateRule (s : Editor) (i : Nat) (patch : RulePatch) : Editor :=
  s.commit s.catalog
    (s.dnsRules.modify i fun r => patch.apply (s.catalog.map CatalogEntry.name) r)

def Editor.removeRule (s : Editor) (i : Nat) : Editor :=
  s.commit s.catalog (s.dnsRules.eraseIdx i)

/-- `moveRule`, of a rule that is there. -/
def Editor.moveRule (s : Editor) (i : Nat) (dir : Int) : Editor :=
  let j := i + dir
  if j < 0 ∨ s.dnsRules.length ≤ j then s
  else
    match s.dnsRules[i]?, s.dnsRules[j.toNat]? with
    | some a, some b => s.commit s.catalog ((s.dnsRules.set i b).set j.toNat a)
    | _, _ => s

inductive EditorAction where
  | addCatalogEntry (newRsName newRsPath : String)
  | updateCatalogEntry (i : Nat) (patch : CatalogPatch)
  | removeCatalogEntry (i : Nat)
  | addRule
  | updateRule (i : Nat) (patch : RulePatch)
  | removeRule (i : Nat)
  | moveRule (i : Nat) (dir : Int)
  deriving DecidableEq, Repr

def Editor.act (s : Editor) : EditorAction → Editor
  | .addCatalogEntry newRsName newRsPath => s.addCatalogEntry newRsName newRsPath
  | .updateCatalogEntry i patch => s.updateCatalogEntry i patch
  | .removeCatalogEntry i => s.removeCatalogEntry i
  | .addRule => s.addRule
  | .updateRule i patch => s.updateRule i patch
  | .removeRule i => s.removeRule i
  | .moveRule i dir => s.moveRule i dir

def Editor.run (s : Editor) (actions : List EditorAction) : Editor := actions.foldl Editor.act s

/-- A keystroke in the name of an entry leaves this text there. -/
def typeName (i : Nat) (text : String) : EditorAction := .updateCatalogEntry i { name := some text }

/-! ### What is committed -/

/-- `pathOf[rsName]`, if there is something in it. -/
def drsPath (catalog : List CatalogEntry) (rsName : String) : Option String :=
  ((pathOf catalog).get rsName).filter fun path => path ≠ ""

/-- The paths that `commitToConfig` emits for a rule. -/
def drsPaths (catalog : List CatalogEntry) (rule : DnsRule) : List String :=
  rule.rulesets.filterMap (drsPath catalog)

def Editor.paths (s : Editor) : List (List String) := s.dnsRules.map (drsPaths s.catalog)

theorem entriesOf_paths (catalog : List CatalogEntry) (rule : DnsRule) (gName : String) :
    (entriesOf (pathOf catalog) rule gName).map RulesetEntry.path = drsPaths catalog rule := by
  unfold entriesOf drsPaths
  rw [List.map_filterMap]
  apply List.filterMap_congr
  intro rsName _
  unfold drsPath
  cases (pathOf catalog).get rsName with
  | none => rfl
  | some path =>
      by_cases hpath : path = ""
      · simp [hpath, Option.filter]
      · simp [hpath, Option.filter]

theorem Commit.run_paths (catalog : List CatalogEntry) (c : Commit) (rules : List DnsRule)
    (index : Nat) :
    (c.run (pathOf catalog) rules index).nextRulesets.map RulesetEntry.path =
      c.nextRulesets.map RulesetEntry.path ++ rules.flatMap (drsPaths catalog) := by
  induction rules generalizing c index with
  | nil => simp [Commit.run]
  | cons rule rules ih =>
      rw [Commit.run_cons, ih]
      simp [Commit.addRule, entriesOf_paths]

/-- The configuration has each rule's paths, one rule after the other. -/
theorem Editor.commit_paths (s : Editor) (nextCatalog : List CatalogEntry)
    (nextRules : List DnsRule) :
    ∃ entries : List RulesetEntry,
      (s.commit nextCatalog nextRules).config.rulesets = entries.map RulesetEntry.toJson ∧
      entries.map RulesetEntry.path = (s.commit nextCatalog nextRules).paths.flatten := by
  refine ⟨_, rfl, ?_⟩
  have hrun := Commit.run_paths nextCatalog
    ⟨IndexMap.insert .empty "default" ((s.config.groups.get "default").getD emptyGroup), [],
      ["default"]⟩ nextRules 0
  rw [List.flatMap_def] at hrun
  exact hrun

/-! ### Names -/

theorem pathOf_get_iff {catalog : List CatalogEntry} (h : (catalog.map CatalogEntry.name).Nodup)
    {name path : String} : (pathOf catalog).get name = some path ↔ ⟨name, path⟩ ∈ catalog := by
  have hrows : pathOf catalog = fromEntries (catalog.map fun c => (c.name, c.path)) := by
    unfold fromEntries
    rw [List.foldl_map]
    rfl
  have hnodup : ((catalog.map fun c => (c.name, c.path)).map Prod.fst).Nodup := by
    rw [List.map_map]
    exact h
  rw [IndexMap.get_eq_some, hrows, fromEntries_entries hnodup, List.mem_map]
  constructor
  · rintro ⟨c, hc, heq⟩
    obtain ⟨rfl, rfl⟩ := Prod.mk.inj heq
    exact hc
  · intro hc
    exact ⟨_, hc, rfl⟩

def Editor.names (s : Editor) : List String := s.catalog.map CatalogEntry.name

/-- The names of the entries but one. -/
def Editor.otherNames (s : Editor) (i : Nat) : List String :=
  (s.catalog.eraseIdx i).map CatalogEntry.name

variable {s : Editor} {i : Nat} {c : CatalogEntry}

@[simp] theorem Editor.commit_catalog (s : Editor) (nextCatalog : List CatalogEntry)
    (nextRules : List DnsRule) : (s.commit nextCatalog nextRules).catalog = nextCatalog := rfl

@[simp] theorem Editor.commit_dnsRules (s : Editor) (nextCatalog : List CatalogEntry)
    (nextRules : List DnsRule) : (s.commit nextCatalog nextRules).dnsRules = nextRules := rfl

theorem names_set_perm (hc : s.catalog[i]? = some c) (c' : CatalogEntry) :
    ((s.catalog.set i c').map CatalogEntry.name).Perm (c'.name :: s.otherNames i) := by
  obtain ⟨hi, -⟩ := List.getElem?_eq_some_iff.mp hc
  exact (List.set_perm_cons_eraseIdx hi c').map CatalogEntry.name

theorem names_perm (hc : s.catalog[i]? = some c) : s.names.Perm (c.name :: s.otherNames i) := by
  obtain ⟨hi, rfl⟩ := List.getElem?_eq_some_iff.mp hc
  exact ((List.getElem_cons_eraseIdx_perm hi).map CatalogEntry.name).symm

theorem updateCatalogEntry_catalog (hc : s.catalog[i]? = some c) (patch : CatalogPatch) :
    (s.updateCatalogEntry i patch).catalog =
      s.catalog.set i ⟨patch.name.getD c.name, patch.path.getD c.path⟩ := by
  unfold Editor.updateCatalogEntry
  simp only [hc]
  split
  · rfl
  · rfl

theorem updateCatalogEntry_dnsRules (hc : s.catalog[i]? = some c) (patch : CatalogPatch) :
    (s.updateCatalogEntry i patch).dnsRules =
      if patch.name.getD "" ≠ "" ∧ patch.name.getD "" ≠ c.name then
        s.dnsRules.map (·.rename c.name (patch.name.getD ""))
      else s.dnsRules := by
  unfold Editor.updateCatalogEntry
  simp only [hc]
  split
  · rfl
  · rfl

theorem updateCatalogEntry_none (hc : s.catalog[i]? = none) (patch : CatalogPatch) :
    s.updateCatalogEntry i patch = s := by
  unfold Editor.updateCatalogEntry
  rw [hc]

theorem moveRule_catalog (s : Editor) (i : Nat) (dir : Int) :
    (s.moveRule i dir).catalog = s.catalog := by
  unfold Editor.moveRule
  dsimp only
  split
  · rfl
  · split
    · rfl
    · rfl

theorem moveRule_dnsRules {dir : Int} {rule : DnsRule} (h : rule ∈ (s.moveRule i dir).dnsRules) :
    rule ∈ s.dnsRules := by
  unfold Editor.moveRule at h
  dsimp only at h
  split at h
  · exact h
  · split at h
    · rename_i a b ha hb
      rcases List.mem_or_eq_of_mem_set h with h | rfl
      · rcases List.mem_or_eq_of_mem_set h with h | rfl
        · exact h
        · exact List.mem_of_getElem? hb
      · exact List.mem_of_getElem? ha
    · exact h

/-- A keystroke gives no entry the name of another one. -/
def TakesNoName (s : Editor) : EditorAction → Prop
  | .updateCatalogEntry i patch => ∀ c name, s.catalog[i]? = some c → patch.name = some name →
      name ∉ s.otherNames i
  | _ => True

theorem unique_addCatalogEntry (h : s.names.Nodup) (newRsName newRsPath : String) :
    (s.addCatalogEntry newRsName newRsPath).names.Nodup := by
  unfold Editor.addCatalogEntry
  dsimp only
  split
  · exact h
  · split
    · exact h
    · rename_i hnew
      have hfresh : jsTrim newRsName ∉ s.names := by
        intro hmem
        obtain ⟨c, hc, hname⟩ := List.mem_map.mp hmem
        exact hnew (List.any_eq_true.mpr ⟨c, hc, decide_eq_true hname⟩)
      unfold Editor.names
      rw [Editor.commit_catalog, List.map_append, List.map_singleton, ← List.concat_eq_append]
      exact h.concat hfresh

theorem unique_updateCatalogEntry_iff (h : s.names.Nodup) (i : Nat) (patch : CatalogPatch) :
    (s.updateCatalogEntry i patch).names.Nodup ↔
      TakesNoName s (.updateCatalogEntry i patch) := by
  cases hc : s.catalog[i]? with
  | none =>
      rw [updateCatalogEntry_none hc]
      refine iff_of_true h ?_
      intro c name hsome
      rw [hc] at hsome
      cases hsome
  | some c =>
      have hold := (names_perm hc).nodup_iff.mp h
      rw [List.nodup_cons] at hold
      unfold Editor.names
      rw [updateCatalogEntry_catalog hc, (names_set_perm hc _).nodup_iff, List.nodup_cons,
        and_iff_left hold.2]
      constructor
      · intro hname c' name _ hpatch
        rwa [hpatch] at hname
      · intro hname
        cases hpatch : patch.name with
        | none => exact hold.1
        | some name => exact hname c name hc hpatch

theorem unique_removeCatalogEntry (h : s.names.Nodup) (i : Nat) :
    (s.removeCatalogEntry i).names.Nodup := by
  unfold Editor.removeCatalogEntry
  split
  · exact h
  · exact h.sublist ((List.eraseIdx_sublist _ i).map CatalogEntry.name)

/-- Names that are unique stay so at a step, exactly when it takes none. -/
theorem unique_act_iff (h : s.names.Nodup) (a : EditorAction) :
    (s.act a).names.Nodup ↔ TakesNoName s a := by
  cases a with
  | addCatalogEntry newRsName newRsPath =>
      exact iff_of_true (unique_addCatalogEntry h newRsName newRsPath) trivial
  | updateCatalogEntry i patch => exact unique_updateCatalogEntry_iff h i patch
  | removeCatalogEntry i => exact iff_of_true (unique_removeCatalogEntry h i) trivial
  | addRule => exact iff_of_true h trivial
  | updateRule i patch => exact iff_of_true h trivial
  | removeRule i => exact iff_of_true h trivial
  | moveRule i dir =>
      refine iff_of_true ?_ trivial
      change ((s.moveRule i dir).catalog.map CatalogEntry.name).Nodup
      rwa [moveRule_catalog]

/-! ### References -/

/-- No two entries share a name, and the rules refer to entries that are there. -/
structure Editor.Intact (s : Editor) : Prop where
  unique : s.names.Nodup
  refs : ∀ rule ∈ s.dnsRules, ∀ n ∈ rule.rulesets, n ∈ s.names

/-- A keystroke does not clear a name that a rule refers to. -/
def ClearsNoReference (s : Editor) : EditorAction → Prop
  | .updateCatalogEntry i patch => ∀ c, s.catalog[i]? = some c → patch.name = some "" →
      c.name ≠ "" → ∀ rule ∈ s.dnsRules, c.name ∉ rule.rulesets
  | _ => True

def Careful (s : Editor) (a : EditorAction) : Prop := TakesNoName s a ∧ ClearsNoReference s a

theorem mem_of_mem_modify {α : Type} {items : List α} {f : α → α} {x : α}
    (h : x ∈ items.modify i f) : x ∈ items ∨ ∃ y ∈ items, x = f y := by
  obtain ⟨j, hj⟩ := List.mem_iff_getElem?.mp h
  rw [List.getElem?_modify] at hj
  obtain ⟨y, hy, rfl⟩ := Option.map_eq_some_iff.mp hj
  have hmem := List.mem_of_getElem? hy
  split
  · exact .inr ⟨y, hmem, rfl⟩
  · exact .inl hmem

theorem mem_of_mem_jsSet {items : List String} {n : String} (h : n ∈ jsSet items) : n ∈ items := by
  have hfold : ∀ (items set : List String),
      n ∈ items.foldl (fun set n => if n ∈ set then set else set ++ [n]) set →
        n ∈ set ∨ n ∈ items := by
    intro items
    induction items with
    | nil => exact fun _ hset => .inl hset
    | cons item items ih =>
        intro set hset
        rcases ih _ hset with hset | hitems
        · dsimp only at hset
          split at hset
          · exact .inl hset
          · rcases List.mem_append.mp hset with hset | hitem
            · exact .inl hset
            · exact .inr (List.mem_cons.mpr (.inl (List.mem_singleton.mp hitem)))
        · exact .inr (List.mem_cons_of_mem item hitems)
  exact (hfold items [] h).resolve_left List.not_mem_nil

/-- A rule gets new references from the checkboxes only. -/
theorem RulePatch.apply_refs {names : List String} {rule : DnsRule} {patch : RulePatch} {n : String}
    (h : n ∈ (patch.apply names rule).rulesets) : n ∈ rule.rulesets ∨ n ∈ names := by
  cases patch with
  | toggle name =>
      simp only [RulePatch.apply] at h
      split at h
      · exact .inl h
      · rename_i hname
        split at h
        · exact .inl (mem_of_mem_jsSet (List.mem_filter.mp h).1)
        · rcases List.mem_append.mp h with hset | hnew
          · exact .inl (mem_of_mem_jsSet hset)
          · rw [List.mem_singleton.mp hnew]
            exact .inr (not_not.mp hname)
  | strategy text => exact .inl h
  | clientSubnet text => exact .inl h
  | insecure flag => exact .inl h
  | servers items => exact .inl h

theorem Editor.Intact.updateCatalogEntry (h : s.Intact) {patch : CatalogPatch}
    (hclear : ClearsNoReference s (.updateCatalogEntry i patch)) :
    ∀ rule ∈ (s.updateCatalogEntry i patch).dnsRules, ∀ n ∈ rule.rulesets,
      n ∈ (s.updateCatalogEntry i patch).names := by
  cases hc : s.catalog[i]? with
  | none =>
      rw [updateCatalogEntry_none hc]
      exact h.refs
  | some c =>
      have hnames : ∀ n, n ∈ (s.updateCatalogEntry i patch).names ↔
          n = patch.name.getD c.name ∨ n ∈ s.otherNames i := by
        intro n
        unfold Editor.names
        rw [updateCatalogEntry_catalog hc, (names_set_perm hc _).mem_iff, List.mem_cons]
      have hsplit : ∀ rule ∈ s.dnsRules, ∀ n ∈ rule.rulesets, n = c.name ∨ n ∈ s.otherNames i := by
        intro rule hrule n hn
        exact List.mem_cons.mp ((names_perm hc).mem_iff.mp (h.refs rule hrule n hn))
      intro rule hrule n hn
      rw [hnames]
      rw [updateCatalogEntry_dnsRules hc] at hrule
      split at hrule
      · rename_i hrenamed
        obtain ⟨old, hold, rfl⟩ := List.mem_map.mp hrule
        obtain ⟨m, hm, rfl⟩ := List.mem_map.mp hn
        have hname : patch.name.getD c.name = patch.name.getD "" := by
          cases hpatch : patch.name with
          | none => simp [hpatch] at hrenamed
          | some name => rfl
        rw [hname]
        split
        · exact .inl rfl
        · rename_i hne
          exact .inr ((hsplit old hold m hm).resolve_left hne)
      · rename_i hkept
        rcases hsplit rule hrule n hn with rfl | hother
        · left
          cases hpatch : patch.name with
          | none => rfl
          | some name =>
              rw [hpatch, Option.getD_some, not_and_or, not_not, not_not] at hkept
              rcases hkept with rfl | hsame
              · by_contra hne
                exact hclear c hc hpatch hne rule hrule hn
              · exact hsame.symm
        · exact .inr hother

theorem Editor.Intact.act (h : s.Intact) {a : EditorAction} (ha : Careful s a) :
    (s.act a).Intact := by
  refine ⟨(unique_act_iff h.unique a).mpr ha.1, ?_⟩
  cases a with
  | addCatalogEntry newRsName newRsPath =>
      change ∀ rule ∈ (s.addCatalogEntry newRsName newRsPath).dnsRules, ∀ n ∈ rule.rulesets,
        n ∈ (s.addCatalogEntry newRsName newRsPath).names
      unfold Editor.addCatalogEntry
      dsimp only
      split
      · exact h.refs
      · split
        · exact h.refs
        · intro rule hrule n hn
          unfold Editor.names
          rw [Editor.commit_catalog, List.map_append]
          exact List.mem_append_left _ (h.refs rule hrule n hn)
  | updateCatalogEntry i patch => exact h.updateCatalogEntry ha.2
  | removeCatalogEntry i =>
      change ∀ rule ∈ (s.removeCatalogEntry i).dnsRules, ∀ n ∈ rule.rulesets,
        n ∈ (s.removeCatalogEntry i).names
      unfold Editor.removeCatalogEntry
      split
      · exact h.refs
      · rename_i c hc
        intro rule hrule n hn
        obtain ⟨old, hold, rfl⟩ := List.mem_map.mp hrule
        obtain ⟨hn, hne⟩ := List.mem_filter.mp hn
        have hsplit := (names_perm hc).mem_iff.mp (h.refs old hold n hn)
        exact (List.mem_cons.mp hsplit).resolve_left (of_decide_eq_true hne)
  | addRule =>
      intro rule hrule n hn
      rcases List.mem_append.mp hrule with hold | hnew
      · exact h.refs rule hold n hn
      · rw [List.mem_singleton.mp hnew] at hn
        cases hn
  | updateRule i patch =>
      intro rule hrule n hn
      rcases mem_of_mem_modify hrule with hold | ⟨old, hold, rfl⟩
      · exact h.refs rule hold n hn
      · rcases RulePatch.apply_refs hn with hn | hname
        · exact h.refs old hold n hn
        · exact hname
  | removeRule i =>
      intro rule hrule n hn
      exact h.refs rule ((List.eraseIdx_sublist _ i).subset hrule) n hn
  | moveRule i dir =>
      change ∀ rule ∈ (s.moveRule i dir).dnsRules, ∀ n ∈ rule.rulesets,
        n ∈ (s.moveRule i dir).catalog.map CatalogEntry.name
      rw [moveRule_catalog]
      intro rule hrule n hn
      exact h.refs rule (moveRule_dnsRules hrule) n hn

/-! ### One entry's name -/

/-- What an entry is called and what the rules call it, after one more keystroke. -/
def follow (now : String × String) (text : String) : String × String :=
  (text, if text ≠ "" ∧ now.1 = now.2 then text else now.2)

theorem follow_snd (now : String × String) (text : String) :
    (follow now text).2 = if text ≠ "" ∧ now.1 = now.2 then text else now.2 := rfl

theorem follow_mem (texts : List String) (now : String × String) :
    ((texts.foldl follow now).1 = now.1 ∨ (texts.foldl follow now).1 ∈ texts) ∧
      ((texts.foldl follow now).2 = now.2 ∨ (texts.foldl follow now).2 ∈ texts) := by
  induction texts generalizing now with
  | nil => exact ⟨.inl rfl, .inl rfl⟩
  | cons text texts ih =>
      obtain ⟨hname, hcalled⟩ := ih (follow now text)
      rw [List.foldl_cons]
      constructor
      · rcases hname with hname | hname
        · rw [hname]
          exact .inr List.mem_cons_self
        · exact .inr (List.mem_cons_of_mem text hname)
      · rcases hcalled with hcalled | hcalled
        · rw [hcalled]
          rw [follow_snd]
          split
          · exact .inr List.mem_cons_self
          · exact .inl rfl
        · exact .inr (List.mem_cons_of_mem text hcalled)

theorem follow_concat (texts : List String) (text : String) (now : String × String) :
    (texts ++ [text]).foldl follow now = follow (texts.foldl follow now) text := by
  rw [List.foldl_concat]

@[simp] theorem DnsRule.rename_self (name : String) (rule : DnsRule) :
    rule.rename name name = rule := by
  unfold DnsRule.rename
  have hmap : rule.rulesets.map (fun n => if n = name then name else n) = rule.rulesets := by
    apply List.map_id''
    intro n
    split
    · rename_i hn
      exact hn.symm
    · rfl
  rw [hmap]

/-- A rename of what a rule calls the entry, or of what it calls no entry. -/
theorem DnsRule.rename_rename {rule : DnsRule} {old name called text : String}
    (h : ∀ n ∈ rule.rulesets, n ≠ old → n ≠ name) :
    (rule.rename old called).rename name text =
      rule.rename old (if name = called then text else called) := by
  unfold DnsRule.rename
  dsimp only
  rw [List.map_map]
  congr 1
  apply List.map_congr_left
  intro n hn
  dsimp only [Function.comp_apply]
  by_cases hold : n = old
  · rw [if_pos hold, if_pos hold]
    split
    · rename_i hcalled
      rw [if_pos hcalled.symm]
    · rename_i hcalled
      rw [if_neg (Ne.symm hcalled)]
  · rw [if_neg hold, if_neg hold, if_neg (h n hn hold)]

theorem run_concat (s : Editor) (actions : List EditorAction) (a : EditorAction) :
    s.run (actions ++ [a]) = (s.run actions).act a := by
  unfold Editor.run
  rw [List.foldl_concat]

/-- The catalogue and the rules after keystrokes in one name. -/
theorem typed (h : s.Intact) (hc : s.catalog[i]? = some c) {texts : List String}
    (hfree : ∀ text ∈ texts, text ∉ s.otherNames i) :
    (s.run (texts.map (typeName i))).catalog =
        s.catalog.set i ⟨(texts.foldl follow (c.name, c.name)).1, c.path⟩ ∧
      (s.run (texts.map (typeName i))).dnsRules =
        s.dnsRules.map (·.rename c.name (texts.foldl follow (c.name, c.name)).2) := by
  obtain ⟨hi, hget⟩ := List.getElem?_eq_some_iff.mp hc
  induction texts using List.reverseRecOn with
  | nil =>
      refine ⟨?_, ?_⟩
      · change s.catalog = s.catalog.set i c
        rw [← hget, List.set_getElem_self]
      · change s.dnsRules = s.dnsRules.map (·.rename c.name c.name)
        simp
  | append_singleton texts text ih =>
      obtain ⟨hcatalog, hrules⟩ := ih fun t ht => hfree t (List.mem_append_left _ ht)
      have hname : (texts.foldl follow (c.name, c.name)).1 ∉ s.otherNames i := by
        rcases (follow_mem texts (c.name, c.name)).1 with hname | hname
        · rw [hname]
          exact (List.nodup_cons.mp ((names_perm hc).nodup_iff.mp h.unique)).1
        · exact hfree _ (List.mem_append_left _ hname)
      have hc' : (s.run (texts.map (typeName i))).catalog[i]? =
          some ⟨(texts.foldl follow (c.name, c.name)).1, c.path⟩ := by
        rw [hcatalog, List.getElem?_set_self hi]
      rw [List.map_append, List.map_singleton, run_concat, follow_concat]
      refine ⟨?_, ?_⟩
      · change ((s.run (texts.map (typeName i))).updateCatalogEntry i _).catalog = _
        rw [updateCatalogEntry_catalog hc', hcatalog, List.set_set]
        rfl
      · change ((s.run (texts.map (typeName i))).updateCatalogEntry i _).dnsRules = _
        rw [updateCatalogEntry_dnsRules hc', hrules, Option.getD_some]
        rw [follow_snd]
        split
        · rename_i hrenamed
          rw [List.map_map]
          apply List.map_congr_left
          intro rule hrule
          have hothers : ∀ n ∈ rule.rulesets, n ≠ c.name →
              n ≠ (texts.foldl follow (c.name, c.name)).1 := by
            rintro n hn hne rfl
            have hsplit := (names_perm hc).mem_iff.mp (h.refs rule hrule _ hn)
            exact hname ((List.mem_cons.mp hsplit).resolve_left hne)
          rw [Function.comp_apply, DnsRule.rename_rename hothers]
          simp only [hrenamed.1, ne_eq, not_false_eq_true, true_and]
        · rename_i hkept
          split
          · rename_i hcalled
            have hsame : text = (texts.foldl follow (c.name, c.name)).1 := by
              by_contra hne
              exact hkept ⟨hcalled.1, hne⟩
            rw [← hcalled.2, ← hsame]
          · rfl

/-- An entry under another name: the others are found as before, and it is
found under this name and no other that is free of theirs. -/
theorem drsPath_set (h : s.names.Nodup) (hc : s.catalog[i]? = some c) {name : String}
    (hname : name ∉ s.otherNames i) :
    (∀ n ∈ s.otherNames i, drsPath (s.catalog.set i ⟨name, c.path⟩) n = drsPath s.catalog n) ∧
      ∀ n ∉ s.otherNames i, drsPath (s.catalog.set i ⟨name, c.path⟩) n =
        if n = name then (some c.path).filter fun path => path ≠ "" else none := by
  obtain ⟨hi, hget⟩ := List.getElem?_eq_some_iff.mp hc
  have hold := List.nodup_cons.mp ((names_perm hc).nodup_iff.mp h)
  have hnodup : ((s.catalog.set i ⟨name, c.path⟩).map CatalogEntry.name).Nodup := by
    rw [(names_set_perm hc _).nodup_iff, List.nodup_cons]
    exact ⟨hname, hold.2⟩
  have hset := List.set_perm_cons_eraseIdx hi ⟨name, c.path⟩
  have hat : (c :: s.catalog.eraseIdx i).Perm s.catalog := by
    rw [← hget]
    exact List.getElem_cons_eraseIdx_perm hi
  refine ⟨?_, ?_⟩
  · intro n hn
    have hsame : (pathOf (s.catalog.set i ⟨name, c.path⟩)).get n = (pathOf s.catalog).get n := by
      apply Option.ext
      intro path
      rw [pathOf_get_iff hnodup, pathOf_get_iff h, hset.mem_iff, ← hat.mem_iff, List.mem_cons,
        List.mem_cons]
      refine or_congr_left' fun _ => iff_of_false ?_ ?_
      · rintro heq
        exact hname ((CatalogEntry.mk.inj heq).1 ▸ hn)
      · rintro rfl
        exact hold.1 hn
    unfold drsPath
    rw [hsame]
  · intro n hn
    have hfound : (pathOf (s.catalog.set i ⟨name, c.path⟩)).get n =
        if n = name then some c.path else none := by
      apply Option.ext
      intro path
      have hnot : ⟨n, path⟩ ∉ s.catalog.eraseIdx i := fun hmem => hn (List.mem_map_of_mem hmem)
      rw [pathOf_get_iff hnodup, hset.mem_iff, List.mem_cons, or_iff_left hnot,
        CatalogEntry.mk.injEq]
      split
      · rename_i hsame
        simp [hsame, eq_comm]
      · rename_i hne
        simp [hne]
    unfold drsPath
    rw [hfound]
    split
    · rfl
    · rfl

theorem filterMap_sublist {α β : Type} {f g : α → Option β} {items : List α}
    (h : ∀ x ∈ items, g x = f x ∨ g x = none) :
    (items.filterMap g).Sublist (items.filterMap f) := by
  induction items with
  | nil => exact .slnil
  | cons x items ih =>
      have hrest := ih fun y hy => h y (List.mem_cons_of_mem x hy)
      rcases h x List.mem_cons_self with hsame | hnone
      · rw [List.filterMap_cons, List.filterMap_cons, hsame]
        split
        · exact hrest
        · exact hrest.cons_cons _
      · rw [List.filterMap_cons_none hnone, List.filterMap_cons]
        split
        · exact hrest
        · exact hrest.cons _

/-- Where values are kept or dropped, the list stays only if none is dropped. -/
theorem filterMap_eq_iff {α β : Type} {f g : α → Option β} {items : List α}
    (h : ∀ x ∈ items, g x = f x ∨ g x = none) :
    items.filterMap g = items.filterMap f ↔ ∀ x ∈ items, g x = f x := by
  constructor
  · intro heq
    induction items with
    | nil => exact fun _ hx => absurd hx List.not_mem_nil
    | cons x items ih =>
        have htail : ∀ y ∈ items, g y = f y ∨ g y = none :=
          fun y hy => h y (List.mem_cons_of_mem x hy)
        have hhead : g x = f x := by
          rcases h x List.mem_cons_self with hsame | hnone
          · exact hsame
          · cases hf : f x with
            | none => exact hnone
            | some value =>
                rw [List.filterMap_cons_none hnone, List.filterMap_cons_some hf] at heq
                have hle := (filterMap_sublist htail).length_le
                rw [heq, List.length_cons] at hle
                omega
        have hrest : items.filterMap g = items.filterMap f := by
          rw [List.filterMap_cons, List.filterMap_cons, hhead] at heq
          split at heq
          · exact heq
          · exact (List.cons.inj heq).2
        intro y hy
        rcases List.mem_cons.mp hy with rfl | hy
        · exact hhead
        · exact ih htail hrest y hy
  · exact List.filterMap_congr

/-- What a reference finds when the entry has another name and the rules call
it something: what it found before, where it is to another entry. -/
theorem drsPath_renamed (h : s.Intact) (hc : s.catalog[i]? = some c) {name called : String}
    (hname : name ∉ s.otherNames i) (hcalled : called ∉ s.otherNames i) {rule : DnsRule}
    (hrule : rule ∈ s.dnsRules) {n : String} (hn : n ∈ rule.rulesets) :
    (drsPath (s.catalog.set i ⟨name, c.path⟩) (if n = c.name then called else n) =
          drsPath s.catalog n ∨
        drsPath (s.catalog.set i ⟨name, c.path⟩) (if n = c.name then called else n) = none) ∧
      (drsPath (s.catalog.set i ⟨name, c.path⟩) (if n = c.name then called else n) =
          drsPath s.catalog n ↔ (n = c.name → name = called ∨ c.path = "")) := by
  have hown := (List.nodup_cons.mp ((names_perm hc).nodup_iff.mp h.unique)).1
  obtain ⟨hothers, hafter⟩ := drsPath_set h.unique hc hname
  obtain ⟨-, hbefore⟩ := drsPath_set h.unique hc hown
  have hsame : s.catalog.set i ⟨c.name, c.path⟩ = s.catalog := by
    obtain ⟨hi, rfl⟩ := List.getElem?_eq_some_iff.mp hc
    exact List.set_getElem_self hi
  rw [hsame] at hbefore
  by_cases hne : n = c.name
  · rw [if_pos hne, hne, hafter called hcalled, hbefore c.name hown, if_pos rfl]
    refine ⟨?_, ?_⟩
    · split
      · exact .inl rfl
      · exact .inr rfl
    · by_cases hpath : c.path = ""
      · simp [hpath, Option.filter]
      · simp [hpath, Option.filter, eq_comm]
  · have hsplit := (names_perm hc).mem_iff.mp (h.refs rule hrule n hn)
    have hkept := hothers n ((List.mem_cons.mp hsplit).resolve_left hne)
    rw [if_neg hne]
    exact ⟨.inl hkept, iff_of_true hkept fun heq => absurd heq hne⟩

theorem drsPaths_renamed_iff (h : s.Intact) (hc : s.catalog[i]? = some c) {name called : String}
    (hname : name ∉ s.otherNames i) (hcalled : called ∉ s.otherNames i) {rule : DnsRule}
    (hrule : rule ∈ s.dnsRules) :
    drsPaths (s.catalog.set i ⟨name, c.path⟩) (rule.rename c.name called) =
        drsPaths s.catalog rule ↔ (c.name ∈ rule.rulesets → name = called ∨ c.path = "") := by
  have hrenamed : drsPaths (s.catalog.set i ⟨name, c.path⟩) (rule.rename c.name called) =
      rule.rulesets.filterMap fun n =>
        drsPath (s.catalog.set i ⟨name, c.path⟩) (if n = c.name then called else n) :=
    List.filterMap_map
  rw [hrenamed]
  unfold drsPaths
  rw [filterMap_eq_iff fun n hn => (drsPath_renamed h hc hname hcalled hrule hn).1]
  constructor
  · intro hall hmem
    exact (drsPath_renamed h hc hname hcalled hrule hmem).2.mp (hall _ hmem) rfl
  · intro hall n hn
    exact (drsPath_renamed h hc hname hcalled hrule hn).2.mpr fun heq => hall (heq ▸ hn)

/-- Keystrokes in one name, none of which is the name of another entry: every
rule's paths are what they were, exactly when the rules call the entry what it
is called in the end, or have no path from it. -/
theorem typed_paths_iff (h : s.Intact) (hc : s.catalog[i]? = some c) {texts : List String}
    (hfree : ∀ text ∈ texts, text ∉ s.otherNames i) :
    (s.run (texts.map (typeName i))).paths = s.paths ↔
      (texts.foldl follow (c.name, c.name)).1 = (texts.foldl follow (c.name, c.name)).2 ∨
        c.path = "" ∨ ∀ rule ∈ s.dnsRules, c.name ∉ rule.rulesets := by
  have hown := (List.nodup_cons.mp ((names_perm hc).nodup_iff.mp h.unique)).1
  have hname : (texts.foldl follow (c.name, c.name)).1 ∉ s.otherNames i := by
    rcases (follow_mem texts (c.name, c.name)).1 with hname | hname
    · rwa [hname]
    · exact hfree _ hname
  have hcalled : (texts.foldl follow (c.name, c.name)).2 ∉ s.otherNames i := by
    rcases (follow_mem texts (c.name, c.name)).2 with hcalled | hcalled
    · rwa [hcalled]
    · exact hfree _ hcalled
  obtain ⟨hcatalog, hrules⟩ := typed h hc hfree
  unfold Editor.paths
  rw [hcatalog, hrules, List.map_map, List.map_inj_left, ← or_assoc]
  constructor
  · intro hall
    by_cases hresolved : (texts.foldl follow (c.name, c.name)).1 =
        (texts.foldl follow (c.name, c.name)).2 ∨ c.path = ""
    · exact .inl hresolved
    · refine .inr fun rule hrule href => hresolved ?_
      exact (drsPaths_renamed_iff h hc hname hcalled hrule).mp (hall rule hrule) href
  · rintro (hresolved | hunreferenced) rule hrule
    · exact (drsPaths_renamed_iff h hc hname hcalled hrule).mpr fun _ => hresolved
    · exact (drsPaths_renamed_iff h hc hname hcalled hrule).mpr
        fun href => absurd href (hunreferenced rule hrule)

/-! ### Runs -/

theorem Editor.Intact.run (h : s.Intact) {actions : List EditorAction}
    (hcareful : ∀ seen a, seen ++ [a] <+: actions → Careful (s.run seen) a) :
    (s.run actions).Intact := by
  induction actions using List.reverseRecOn with
  | nil => exact h
  | append_singleton actions a ih =>
      rw [run_concat]
      have hbefore := ih fun seen b hseen =>
        hcareful seen b (hseen.trans (List.prefix_append actions [a]))
      exact hbefore.act (hcareful actions a (List.prefix_refl _))

/-- Names are unique all along a run, exactly when no keystroke takes one. -/
theorem unique_run_iff (h : s.names.Nodup) (actions : List EditorAction) :
    (∀ seen, seen <+: actions → (s.run seen).names.Nodup) ↔
      ∀ seen a, seen ++ [a] <+: actions → TakesNoName (s.run seen) a := by
  constructor
  · intro hall seen a hseen
    have hbefore := hall seen ((List.prefix_append seen [a]).trans hseen)
    have hafter := hall (seen ++ [a]) hseen
    rw [run_concat] at hafter
    exact (unique_act_iff hbefore a).mp hafter
  · intro hall seen
    induction seen using List.reverseRecOn with
    | nil => exact fun _ => h
    | append_singleton seen a ih =>
        intro hseen
        rw [run_concat]
        have hbefore := ih ((List.prefix_append seen [a]).trans hseen)
        exact (unique_act_iff hbefore a).mpr (hall seen a hseen)

/-- A careful keystroke in a name leaves every rule's paths. -/
theorem Careful.paths (h : s.Intact) {text : String} (ha : Careful s (typeName i text)) :
    (s.act (typeName i text)).paths = s.paths := by
  cases hc : s.catalog[i]? with
  | none =>
      change (s.updateCatalogEntry i _).paths = s.paths
      rw [updateCatalogEntry_none hc]
  | some c =>
      have hfree : ∀ t ∈ [text], t ∉ s.otherNames i :=
        List.forall_mem_singleton.mpr (ha.1 c text hc rfl)
      apply (typed_paths_iff h hc hfree).mpr
      rw [List.foldl_cons, List.foldl_nil, follow_snd]
      by_cases htext : text = ""
      · by_cases hname : c.name = ""
        · left
          simp [follow, htext, hname]
        · refine .inr (.inr ?_)
          exact ha.2 c hc (congrArg some htext) hname
      · left
        simp [follow, htext]

theorem careful_run_paths (h : s.Intact) {actions : List EditorAction}
    (hcareful : ∀ seen a, seen ++ [a] <+: actions → Careful (s.run seen) a)
    {seen : List EditorAction} {texts : List String}
    (hpart : seen ++ texts.map (typeName i) <+: actions) :
    (s.run (seen ++ texts.map (typeName i))).paths = (s.run seen).paths := by
  induction texts using List.reverseRecOn with
  | nil => simp
  | append_singleton texts text ih =>
      rw [List.map_append, List.map_singleton, ← List.append_assoc] at hpart ⊢
      have hbefore := (List.prefix_append _ [typeName i text]).trans hpart
      have hintact := h.run fun earlier a hearlier => hcareful earlier a (hearlier.trans hbefore)
      rw [run_concat, Careful.paths hintact (hcareful _ _ hpart)]
      exact ih hbefore

/-- Names stay unique exactly as long as no keystroke takes one. While none
clears a name that is referred to either, no edit of a name changes a rule's
paths; and an edit that clears one changes none exactly if it ends in what the
rules still call the entry, or nothing is referred to. -/
theorem catalogue_editing_iff (s : Editor) (h : s.Intact) (actions : List EditorAction) :
    ((∀ seen, seen <+: actions → (s.run seen).names.Nodup) ↔
      ∀ seen a, seen ++ [a] <+: actions → TakesNoName (s.run seen) a) ∧
    ((∀ seen a, seen ++ [a] <+: actions → Careful (s.run seen) a) →
      (∀ seen i (texts : List String), seen ++ texts.map (typeName i) <+: actions →
        (s.run (seen ++ texts.map (typeName i))).paths = (s.run seen).paths) ∧
      ∀ i c (texts : List String), (s.run actions).catalog[i]? = some c →
        (∀ text ∈ texts, text ∉ (s.run actions).otherNames i) →
        (((s.run actions).run (texts.map (typeName i))).paths = (s.run actions).paths ↔
          (texts.foldl follow (c.name, c.name)).1 = (texts.foldl follow (c.name, c.name)).2 ∨
            c.path = "" ∨ ∀ rule ∈ (s.run actions).dnsRules, c.name ∉ rule.rulesets)) := by
  refine ⟨unique_run_iff h.unique actions, ?_⟩
  intro hcareful
  refine ⟨fun _ _ _ hpart => careful_run_paths h hcareful hpart, ?_⟩
  intro i c texts hc hfree
  exact typed_paths_iff (h.run hcareful) hc hfree

/-- Two entries, each with a rule of its own. -/
def cnEditor : Editor where
  config := ⟨.empty, []⟩
  catalog := [⟨"cn", "/etc/relay/cn.drs"⟩, ⟨"cn2", "/etc/relay/cn2.drs"⟩]
  dnsRules := [{ rulesets := ["cn"] }, { rulesets := ["cn2"] }]

theorem cnEditor_intact : cnEditor.Intact where
  unique := by decide
  refs := by decide

/-- The second name replaced, and both names typed further. -/
def homeTyped : List EditorAction :=
  [typeName 1 "home", typeName 1 "home-", typeName 1 "home-2", typeName 0 "cn-", typeName 0 "cn-2"]

theorem homeTyped_careful : ∀ seen a, seen ++ [a] <+: homeTyped → Careful (cnEditor.run seen) a := by
  have typed : ∀ {s : Editor} {i : Nat} {text : String}, text ≠ "" → text ∉ s.otherNames i →
      Careful s (typeName i text) := by
    intro s i text hne hfree
    refine ⟨?_, ?_⟩
    · rintro c name _ ⟨⟩
      exact hfree
    · rintro c _ ⟨⟩
      exact absurd rfl hne
  exact forall_step_cons.mpr ⟨typed (by decide) (by decide), forall_step_cons.mpr
    ⟨typed (by decide) (by decide), forall_step_cons.mpr ⟨typed (by decide) (by decide),
      forall_step_cons.mpr ⟨typed (by decide) (by decide), forall_step_cons.mpr
        ⟨typed (by decide) (by decide), forall_step_nil⟩⟩⟩⟩⟩

/-- At each keystroke the names are unique, and the rules keep their paths. -/
theorem catalogue_editing_home :
    (∀ seen, seen <+: homeTyped → (cnEditor.run seen).names.Nodup) ∧
      (cnEditor.run (homeTyped.take 3)).paths = cnEditor.paths ∧
        (cnEditor.run homeTyped).paths = (cnEditor.run (homeTyped.take 3)).paths := by
  obtain ⟨hunique, hpaths⟩ := catalogue_editing_iff cnEditor cnEditor_intact homeTyped
  refine ⟨hunique.mpr fun seen a hseen => (homeTyped_careful seen a hseen).1, ?_, ?_⟩
  · exact (hpaths homeTyped_careful).1 [] 1 ["home", "home-", "home-2"] ⟨_, rfl⟩
  · exact (hpaths homeTyped_careful).1 (homeTyped.take 3) 0 ["cn-", "cn-2"] (List.prefix_refl _)

/-- The second name on its way from `cn2` to `cn3`, by way of `cn` or of an
empty input. -/
theorem catalogue_editing_loses_references :
    cnEditor.Intact ∧ "" ∉ cnEditor.names ∧ ¬ (cnEditor.run [typeName 1 "cn"]).names.Nodup ∧
      (cnEditor.run [typeName 1 "cn", typeName 1 "cn3"]).paths ≠ cnEditor.paths ∧
      (cnEditor.run [typeName 1 "", typeName 1 "cn3"]).paths ≠ cnEditor.paths := by
  refine ⟨cnEditor_intact, ?_, ?_, ?_, ?_⟩
  · decide
  · decide
  · decide
  · decide

end Relay.Web
