import Relay.Web.RuleRuns

/-!
What `commitToConfig` makes of a list of rules: each rule's group stands under
a name of its own, the default group stays, and the entries follow the rules.
-/

namespace Relay.Web

open Text

/-! ### The catalogue as an object -/

theorem get_foldl_insert {α : Type} {entries : List (String × α)}
    (hnodup : (entries.map Prod.fst).Nodup) (acc : IndexMap α) (key : String) :
    (entries.foldl (fun m entry => m.insert entry.1 entry.2) acc).get key =
      ((entries.find? fun entry => entry.1 = key).map Prod.snd).or (acc.get key) := by
  induction entries generalizing acc with
  | nil => rfl
  | cons entry entries ih =>
      rw [List.map_cons, List.nodup_cons] at hnodup
      rw [List.foldl_cons, ih hnodup.2, IndexMap.get_insert]
      by_cases hkey : entry.1 = key
      · have hrest : entries.find? (fun entry => entry.1 = key) = none := by
          apply List.find?_eq_none.mpr
          intro other hother heq
          rw [decide_eq_true_eq] at heq
          apply hnodup.1
          rw [hkey, ← heq]
          exact List.mem_map_of_mem hother
        rw [List.find?_cons_of_pos (by simpa using hkey), hrest, if_pos hkey.symm]
        rfl
      · rw [List.find?_cons_of_neg (by simpa using hkey), if_neg (Ne.symm hkey)]

theorem pathOf_get (catalogMap : IndexMap String) (name : String) :
    (pathOf (catalogMap.entries.map fun entry => ⟨entry.1, entry.2⟩)).get name =
      catalogMap.get name := by
  rw [pathOf, List.foldl_map, get_foldl_insert catalogMap.nodup]
  exact Option.or_none

/-! ### Names of groups -/

/-- The rule's first name, trimmed. -/
def DnsRule.firstName (rule : DnsRule) : String := jsTrim (rule.rulesets.head?.getD "")

/-- The name a group gets where it is free. -/
def wantedName (rule : DnsRule) (index : Nat) : String :=
  if groupBase rule index = "default" then "rule-" ++ toString (index + 1) else groupBase rule index

theorem groupNameForRule_eq (rule : DnsRule) (index : Nat) (used : List String) :
    groupNameForRule rule index used =
      if wantedName rule index ∉ used then wantedName rule index
      else numbered (groupBase rule index) "-"
        (firstFree (fun i => numbered (groupBase rule index) "-" i ∈ used) used.length 2) := rfl

theorem groupNameForRule_not_mem (rule : DnsRule) (index : Nat) (used : List String) :
    groupNameForRule rule index used ∉ used := by
  rw [groupNameForRule_eq]
  split
  · assumption
  · exact numbered_firstFree (fun i => decide_eq_true_iff) 2

/-- Trimming takes nothing from a text that ends in a digit but what is in front. -/
theorem jsTrim_ends {s : String} {front : List Char} {digit : Char}
    (hs : s.toList = front ++ [digit]) (hdigit : digit.isDigit = true) :
    ∃ front', (jsTrim s).toList = front' ++ [digit] := by
  have hspace : isJsWhitespace digit = false := by
    have hrange := isDigit_iff.mp hdigit
    unfold isJsWhitespace
    simp only [Bool.or_eq_false_iff, Bool.and_eq_false_iff, decide_eq_false_iff_not,
      beq_eq_false_iff_ne]
    omega
  have hfront : ∀ front : List Char, ∃ front',
      (front ++ [digit]).dropWhile isJsWhitespace = front' ++ [digit] := by
    intro front
    induction front with
    | nil => exact ⟨[], by simp [hspace]⟩
    | cons ch front ih =>
        cases hch : isJsWhitespace ch with
        | true =>
            rw [List.cons_append, List.dropWhile_cons_of_pos hch]
            exact ih
        | false =>
            rw [List.cons_append, List.dropWhile_cons_of_neg (by simp [hch])]
            exact ⟨ch :: front, rfl⟩
  obtain ⟨front', hdrop⟩ := hfront front
  refine ⟨front', ?_⟩
  rw [jsTrim, hs, hdrop, List.reverse_append, List.reverse_singleton, List.singleton_append,
    List.dropWhile_cons_of_neg (by simp [hspace]), String.toList_ofList, List.reverse_cons,
    List.reverse_reverse]

/-- A name that trims to `__proto__` has no number behind it. -/
theorem ne_numbered_of_trim {base : String} (hbase : jsTrim base = "__proto__") (name sep : String)
    (i : Nat) : base ≠ numbered name sep i := by
  rintro rfl
  obtain ⟨front, digit, hlist, hdigit⟩ := numbered_ends name sep i
  obtain ⟨front', htrim⟩ := jsTrim_ends hlist hdigit
  have hlast : (jsTrim (numbered name sep i)).toList.getLast? = some '_' := by
    rw [hbase]
    rfl
  rw [htrim, List.getLast?_concat] at hlast
  cases hlast
  cases hdigit

theorem numbered_ne_proto (name sep : String) (i : Nat) : numbered name sep i ≠ "__proto__" := by
  have hproto : jsTrim "__proto__" = "__proto__" := rfl
  exact (ne_numbered_of_trim hproto name sep i).symm

theorem ruleNumber_ne_proto (index : Nat) : "rule-" ++ toString (index + 1) ≠ "__proto__" := by
  intro heq
  have hlist := congrArg String.toList heq
  rw [String.toList_append] at hlist
  injection hlist with hhead _
  revert hhead
  decide

theorem groupBase_ne_proto {rule : DnsRule} (h : rule.firstName ≠ "__proto__") (index : Nat) :
    groupBase rule index ≠ "__proto__" := by
  unfold groupBase
  dsimp only
  split
  · exact ruleNumber_ne_proto index
  · exact h

theorem groupNameForRule_ne_proto {rule : DnsRule} (h : rule.firstName ≠ "__proto__") (index : Nat)
    (used : List String) : groupNameForRule rule index used ≠ "__proto__" := by
  rw [groupNameForRule_eq]
  split
  · unfold wantedName
    split
    · exact ruleNumber_ne_proto index
    · exact groupBase_ne_proto h index
  · exact numbered_ne_proto _ _ _

theorem groupNameForRule_proto {rule : DnsRule} (h : rule.firstName = "__proto__") (index : Nat)
    {used : List String} (hused : "__proto__" ∉ used) :
    groupNameForRule rule index used = "__proto__" := by
  have hbase : groupBase rule index = "__proto__" := by
    have hne : rule.firstName ≠ "" := by
      rw [h]
      decide
    exact (if_neg hne).trans h
  have hwanted : wantedName rule index = "__proto__" := by
    have hdefault : "__proto__" ≠ "default" := by decide
    rw [wantedName, hbase, if_neg hdefault]
  rw [groupNameForRule_eq, hwanted, if_pos hused]

/-! ### One rule -/

theorem setProperty_get (obj : IndexMap JsonValue) (key : String) (value : JsonValue)
    (key' : String) : (setProperty obj key value).get key' =
      if key ≠ "__proto__" ∧ key' = key then some value else obj.get key' := by
  unfold setProperty
  by_cases hproto : key = "__proto__"
  · rw [if_pos hproto, if_neg fun h => h.1 hproto]
  · rw [if_neg hproto, IndexMap.get_insert]
    simp [hproto]

variable {paths : IndexMap String}

/-- The catalogue has a path for each of the rule's names. -/
def DnsRule.HasPaths (paths : IndexMap String) (rule : DnsRule) : Prop :=
  ∀ name ∈ rule.rulesets, ∃ path, path ≠ "" ∧ paths.get name = some path

theorem entriesOf_eq {rule : DnsRule} (h : rule.HasPaths paths) (gName : String) :
    entriesOf paths rule gName =
      rule.rulesets.map fun name => ⟨(paths.get name).getD "", gName⟩ := by
  unfold entriesOf
  rw [← List.filterMap_eq_map]
  apply List.filterMap_congr
  intro name hname
  obtain ⟨path, hne, hpath⟩ := h name hname
  dsimp only [Function.comp_apply]
  rw [hpath]
  exact if_neg hne

/-- No group stands under a name that has not been used. -/
def Commit.Fresh (s : Commit) : Prop := ∀ key ∉ s.usedNames, s.nextGroups.get key = none

theorem Commit.Fresh.addRule {s : Commit} (h : s.Fresh) (rule : DnsRule × Nat) :
    (s.addRule paths rule).Fresh := by
  intro key hkey
  have hsplit : key ≠ groupNameForRule rule.1 rule.2 s.usedNames ∧ key ∉ s.usedNames :=
    not_or.mp fun hor => hkey (List.mem_cons.mpr hor)
  change (setProperty s.nextGroups _ _).get key = none
  rw [setProperty_get, if_neg fun hand => hsplit.1 hand.2]
  exact h key hsplit.2

/-- A group that stands under a used name stays. -/
theorem Commit.addRule_get (s : Commit) (rule : DnsRule × Nat) {key : String}
    (hkey : key ∈ s.usedNames) :
    (s.addRule paths rule).nextGroups.get key = s.nextGroups.get key := by
  have hne : key ≠ groupNameForRule rule.1 rule.2 s.usedNames := by
    rintro rfl
    exact groupNameForRule_not_mem _ _ _ hkey
  change (setProperty s.nextGroups _ _).get key = _
  rw [setProperty_get, if_neg fun hand => hne hand.2]

/-- The rules a commit goes through, one after the other. -/
def Commit.run (paths : IndexMap String) (s : Commit) (rules : List DnsRule) (index : Nat) :
    Commit := (rules.zipIdx index).foldl (Commit.addRule paths) s

theorem Commit.run_cons (s : Commit) (rule : DnsRule) (rules : List DnsRule) (index : Nat) :
    s.run paths (rule :: rules) index =
      (s.addRule paths (rule, index)).run paths rules (index + 1) := rfl

/-! ### All rules -/

theorem Commit.run_get (s : Commit) (rules : List DnsRule) (index : Nat) {key : String}
    (hkey : key ∈ s.usedNames) :
    (s.run paths rules index).nextGroups.get key = s.nextGroups.get key := by
  induction rules generalizing s index with
  | nil => rfl
  | cons rule rules ih =>
      rw [Commit.run_cons, ih _ _ (List.mem_cons_of_mem _ hkey), Commit.addRule_get s _ hkey]

/-- Every rule's names are saved with the rule's group. -/
theorem Commit.run_routes (s : Commit) (rules : List DnsRule) (index : Nat) (hfresh : s.Fresh)
    (hpaths : ∀ rule ∈ rules, rule.HasPaths paths)
    (hproto : ∀ rule ∈ rules, rule.firstName ≠ "__proto__") :
    ∃ added, (s.run paths rules index).nextRulesets = s.nextRulesets ++ added ∧
      added.map (fun e => (e.path, (s.run paths rules index).nextGroups.get e.upstream)) =
        rules.flatMap fun rule =>
          rule.rulesets.map fun name => ((paths.get name).getD "", some rule.toGroup) := by
  induction rules generalizing s index with
  | nil => exact ⟨[], (List.append_nil _).symm, rfl⟩
  | cons rule rules ih =>
      obtain ⟨added, hadded, hroutes⟩ := ih (s.addRule paths (rule, index)) (index + 1)
        (hfresh.addRule _) (fun other hother => hpaths other (List.mem_cons_of_mem rule hother))
        (fun other hother => hproto other (List.mem_cons_of_mem rule hother))
      rw [Commit.run_cons]
      refine ⟨entriesOf paths rule (groupNameForRule rule index s.usedNames) ++ added, ?_, ?_⟩
      · rw [hadded, ← List.append_assoc]
        rfl
      · have hname := groupNameForRule_ne_proto (hproto rule List.mem_cons_self) index s.usedNames
        have hgroup : ((s.addRule paths (rule, index)).run paths rules (index + 1)).nextGroups.get
            (groupNameForRule rule index s.usedNames) = some rule.toGroup := by
          rw [Commit.run_get _ _ _ List.mem_cons_self]
          change (setProperty s.nextGroups _ _).get _ = _
          rw [setProperty_get, if_pos ⟨hname, rfl⟩]
        rw [List.map_append, hroutes, List.flatMap_cons,
          entriesOf_eq (hpaths rule List.mem_cons_self), List.map_map]
        congr 1
        apply List.map_congr_left
        intro name _
        dsimp only [Function.comp_apply]
        rw [hgroup]

/-- Every group reads back. -/
def Commit.Readable (s : Commit) : Prop :=
  ∀ key value, s.nextGroups.get key = some value →
    ∃ g, UpstreamGroupCfg.fromJson value = some g

theorem Commit.Readable.run {s : Commit} {rules : List DnsRule} {index : Nat} (h : s.Readable)
    (hrules : ∀ rule ∈ rules, ∃ g, UpstreamGroupCfg.fromJson rule.toGroup = some g) :
    (s.run paths rules index).Readable := by
  induction rules generalizing s index with
  | nil => exact h
  | cons rule rules ih =>
      rw [Commit.run_cons]
      refine ih ?_ fun other hother => hrules other (List.mem_cons_of_mem rule hother)
      intro key value hvalue
      change (setProperty s.nextGroups _ _).get key = some value at hvalue
      rw [setProperty_get] at hvalue
      split at hvalue
      · cases hvalue
        exact hrules rule List.mem_cons_self
      · exact h key value hvalue

/-! ### The name that is no key -/

theorem Commit.run_get_proto {s : Commit} {rules : List DnsRule} {index : Nat}
    (h : s.nextGroups.get "__proto__" = none) :
    (s.run paths rules index).nextGroups.get "__proto__" = none := by
  induction rules generalizing s index with
  | nil => exact h
  | cons rule rules ih =>
      rw [Commit.run_cons]
      apply ih
      change (setProperty s.nextGroups _ _).get _ = none
      rw [setProperty_get]
      split
      · rename_i hkey
        exact absurd hkey.2.symm hkey.1
      · exact h

theorem Commit.subset_run {s : Commit} {rules : List DnsRule} {index : Nat} :
    s.nextRulesets ⊆ (s.run paths rules index).nextRulesets := by
  induction rules generalizing s index with
  | nil => exact List.Subset.refl _
  | cons rule rules ih =>
      rw [Commit.run_cons]
      exact fun e he => ih (List.mem_append_left _ he)

/-- An entry of the group `__proto__`, if that name has been given. -/
def Commit.ProtoUsed (s : Commit) : Prop :=
  "__proto__" ∈ s.usedNames → ∃ e ∈ s.nextRulesets, e.upstream = "__proto__"

theorem Commit.ProtoUsed.addRule {s : Commit} (h : s.ProtoUsed) {rule : DnsRule}
    (hpaths : rule.HasPaths paths) (index : Nat) : (s.addRule paths (rule, index)).ProtoUsed := by
  intro hused
  obtain heq | hold := List.mem_cons.mp hused
  · have hfirst : rule.firstName = "__proto__" := by
      by_contra hne
      exact groupNameForRule_ne_proto hne index s.usedNames heq.symm
    obtain ⟨name, hname⟩ : ∃ name, name ∈ rule.rulesets := by
      apply List.exists_mem_of_ne_nil
      intro hnil
      rw [DnsRule.firstName, hnil] at hfirst
      revert hfirst
      decide
    refine ⟨⟨(paths.get name).getD "", groupNameForRule rule index s.usedNames⟩, ?_, heq.symm⟩
    apply List.mem_append_right
    rw [entriesOf_eq hpaths]
    exact List.mem_map_of_mem (f := fun name => RulesetEntry.mk ((paths.get name).getD "") _) hname
  · obtain ⟨e, he, hupstream⟩ := h hold
    exact ⟨e, List.mem_append_left _ he, hupstream⟩

/-- A rule whose first name is `__proto__` leaves entries of a group that is nowhere. -/
theorem Commit.run_proto (s : Commit) (rules : List DnsRule) (index : Nat) (h : s.ProtoUsed)
    (hpaths : ∀ rule ∈ rules, rule.HasPaths paths)
    (hproto : ∃ rule ∈ rules, rule.firstName = "__proto__") :
    ∃ e ∈ (s.run paths rules index).nextRulesets, e.upstream = "__proto__" := by
  induction rules generalizing s index with
  | nil =>
      obtain ⟨rule, hrule, _⟩ := hproto
      cases hrule
  | cons rule rules ih =>
      have hstep := h.addRule (hpaths rule List.mem_cons_self) index
      rw [Commit.run_cons]
      obtain ⟨rule', hrule', hfirst⟩ := hproto
      obtain rfl | hrest := List.mem_cons.mp hrule'
      · have hused : "__proto__" ∈ (s.addRule paths (rule', index)).usedNames := by
          by_cases hold : "__proto__" ∈ s.usedNames
          · exact List.mem_cons_of_mem _ hold
          · change _ ∈ groupNameForRule rule' index s.usedNames :: s.usedNames
            rw [groupNameForRule_proto hfirst index hold]
            exact List.mem_cons_self
        obtain ⟨e, he, hupstream⟩ := hstep hused
        exact ⟨e, Commit.subset_run he, hupstream⟩
      · exact ih _ _ hstep (fun other hother => hpaths other (List.mem_cons_of_mem rule hother))
          ⟨rule', hrest, hfirst⟩

end Relay.Web
