import Relay.Web.UpstreamsTab

/-!
The names of the catalogue: each path of the rule sets has one, no two paths
share one, and a name that no number makes belongs to the first path it fits.
-/

namespace Relay.Web

open Text

/-! ### Numbers behind names -/

theorem toString_nat_inj {i j : Nat} (h : toString i = toString j) : i = j := by
  have hdigits : ∀ n : Nat, Nat.ofDigitChars 10 (toString n).toList 0 = n := by
    intro n
    have hlist : (toString n).toList = Nat.toDigits 10 n := Nat.toList_repr
    rw [hlist, Nat.ofDigitChars_ten_toDigits]
  rw [← hdigits i, h, hdigits j]

theorem numbered_inj {name sep : String} {i j : Nat}
    (h : numbered name sep i = numbered name sep j) : i = j := by
  unfold numbered at h
  exact toString_nat_inj (String.append_right_inj _ |>.mp h)

/-- A number's text ends in a digit. -/
theorem numbered_ends (name sep : String) (i : Nat) :
    ∃ front digit, (numbered name sep i).toList = front ++ [digit] ∧ digit.isDigit = true := by
  have hlist : (toString i).toList = Nat.toDigits 10 i := Nat.toList_repr
  have hne : Nat.toDigits 10 i ≠ [] := by
    rw [← List.length_pos_iff]
    exact Nat.length_toDigits_pos
  refine ⟨name.toList ++ sep.toList ++ (Nat.toDigits 10 i).dropLast,
    (Nat.toDigits 10 i).getLast hne, ?_, ?_⟩
  · rw [numbered, String.toList_append, String.toList_append, hlist, List.append_assoc _ _ [_],
      List.dropLast_append_getLast hne]
  · exact Nat.isDigit_of_mem_toDigits (by omega) (by omega) (List.getLast_mem hne)

theorem numbered_ne_empty (name sep : String) (i : Nat) : numbered name sep i ≠ "" := by
  obtain ⟨front, digit, hlist, _⟩ := numbered_ends name sep i
  intro hempty
  rw [hempty] at hlist
  simp at hlist

/-- The loop stops at a number that is free, or after as many as it could try. -/
theorem firstFree_cases (taken : Nat → Bool) (fuel start : Nat) :
    taken (firstFree taken fuel start) = false ∨
      firstFree taken fuel start = start + fuel ∧ ∀ k < fuel, taken (start + k) = true := by
  induction fuel generalizing start with
  | zero => exact Or.inr ⟨rfl, fun k hk => absurd hk (Nat.not_lt_zero k)⟩
  | succ fuel ih =>
      rw [firstFree]
      cases htaken : taken start with
      | false => exact Or.inl htaken
      | true =>
          rw [if_pos rfl]
          obtain hfree | ⟨hend, hall⟩ := ih (start + 1)
          · exact Or.inl hfree
          · refine Or.inr ⟨by omega, ?_⟩
            intro k hk
            cases k with
            | zero => exact htaken
            | succ k =>
                have hnext := hall k (Nat.lt_of_succ_lt_succ hk)
                rwa [Nat.add_assoc, Nat.add_comm 1 k] at hnext

/-- A number is free: there are not enough names to take them all. -/
theorem numbered_firstFree {names : List String} {taken : Nat → Bool} {name sep : String}
    (htaken : ∀ i, taken i = true ↔ numbered name sep i ∈ names) (start : Nat) :
    numbered name sep (firstFree taken names.length start) ∉ names := by
  intro hmem
  rw [← htaken] at hmem
  obtain hfree | ⟨hend, hall⟩ := firstFree_cases taken names.length start
  · rw [hfree] at hmem
    cases hmem
  · have hsubset : (List.range (names.length + 1)).map (fun k => numbered name sep (start + k)) ⊆
        names := by
      intro text htext
      obtain ⟨k, hk, rfl⟩ := List.mem_map.mp htext
      rw [← htaken]
      obtain hlt | heq := Nat.lt_succ_iff_lt_or_eq.mp (List.mem_range.mp hk)
      · exact hall k hlt
      · rw [heq, ← hend]
        exact hmem
    have hnodup : ((List.range (names.length + 1)).map
        (fun k => numbered name sep (start + k))).Nodup := by
      apply List.nodup_range.map
      intro k k' heq
      exact Nat.add_left_cancel (numbered_inj heq)
    have hlength := (hnodup.subperm hsubset).length_le
    rw [List.length_map, List.length_range] at hlength
    omega

/-! ### Names of paths -/

/-- The base name where no other path has it, else a number behind it. -/
theorem catalogName_cases (catalogMap : IndexMap String) (path : String) :
    (catalogName catalogMap path = basenameNoExt path ∧
      (catalogMap.get (basenameNoExt path) = none ∨
        catalogMap.get (basenameNoExt path) = some path)) ∨
    (∃ i, catalogName catalogMap path = numbered (basenameNoExt path) "_" i ∧
      catalogMap.get (catalogName catalogMap path) = none ∧
      ∃ other, catalogMap.get (basenameNoExt path) = some other) := by
  unfold catalogName
  dsimp only
  split
  · rename_i htaken
    refine Or.inr ⟨_, rfl, ?_, IndexMap.get_of_containsKey htaken.1⟩
    rw [IndexMap.get_eq_none, IndexMap.containsKey_eq_false, ← List.length_map Prod.fst]
    apply numbered_firstFree
    intro i
    rw [← Bool.not_eq_false, IndexMap.containsKey_eq_false, not_not]
  · rename_i hfree
    refine Or.inl ⟨rfl, ?_⟩
    rw [not_and_or, Bool.not_eq_true, not_not] at hfree
    rw [IndexMap.get_eq_none]
    exact hfree

/-- What the catalogue knows once `done` has been read. -/
structure Catalogued (done : List RulesetEntry) (s : Loading) : Prop where
  inverse : ∀ path name, s.pathToName.get path = some name ↔ s.catalogMap.get name = some path
  named : ∀ e ∈ done, ∃ name, s.pathToName.get e.path = some name
  seen : ∀ path name, s.pathToName.get path = some name → ∃ e ∈ done, e.path = path
  unnamed : ∀ path, s.pathToName.get path = some "" → basenameNoExt path = ""
  first : ∀ base, (∀ name i, base ≠ numbered name "_" i) →
    s.catalogMap.get base =
      (done.find? fun e => basenameNoExt e.path = base).map RulesetEntry.path

theorem catalogued_start : Catalogued [] {} where
  inverse _ _ := by
    constructor
    · intro h
      cases h
    · intro h
      cases h
  named e he := absurd he List.not_mem_nil
  seen _ _ h := by cases h
  unnamed _ h := by cases h
  first _ _ := rfl

theorem find_append_singleton (done : List RulesetEntry) (e : RulesetEntry) (base : String) :
    (done ++ [e]).find? (fun e => basenameNoExt e.path = base) =
      (done.find? fun e => basenameNoExt e.path = base).or
        (if basenameNoExt e.path = base then some e else none) := by
  rw [List.find?_append, List.find?_singleton]
  simp only [decide_eq_true_eq]

theorem insert_same {α : Type} {m : IndexMap α} {key : String} {value : α}
    (h : m.get key = some value) (key' : String) : (m.insert key value).get key' = m.get key' := by
  rw [IndexMap.get_insert]
  split
  · rename_i hkey
    rw [hkey, h]
  · rfl

/-- A path keeps the name it has. -/
theorem Catalogued.named_of_some {done : List RulesetEntry} {s : Loading} (h : Catalogued done s)
    {path name : String} (hname : s.pathToName.get path = some name) :
    (s.named path).1 = name ∧ (s.named path).2.rules = s.rules ∧
      (∀ path', (s.named path).2.pathToName.get path' = s.pathToName.get path') ∧
      ∀ name', (s.named path).2.catalogMap.get name' = s.catalogMap.get name' := by
  unfold Loading.named
  dsimp only
  rw [hname, Option.getD_some]
  split
  · rename_i hempty
    obtain rfl := hempty.1
    have hbase := h.unnamed path hname
    have hpath := (h.inverse path "").mp hname
    have hcatalog : catalogName s.catalogMap path = "" := by
      unfold catalogName
      dsimp only
      rw [hbase, hpath]
      exact if_neg fun htaken => htaken.2 rfl
    dsimp only
    rw [hcatalog]
    exact ⟨rfl, rfl, insert_same hname, insert_same hpath⟩
  · exact ⟨rfl, rfl, fun _ => rfl, fun _ => rfl⟩

/-- A path without a name gets one that is new. -/
theorem named_of_none {s : Loading} {path : String} (hname : s.pathToName.get path = none)
    (hpath : path ≠ "") :
    (s.named path).1 = catalogName s.catalogMap path ∧ (s.named path).2.rules = s.rules ∧
      (s.named path).2.pathToName = s.pathToName.insert path (catalogName s.catalogMap path) ∧
      (s.named path).2.catalogMap = s.catalogMap.insert (catalogName s.catalogMap path) path := by
  unfold Loading.named
  dsimp only
  rw [hname, Option.getD_none, if_pos ⟨rfl, hpath⟩]
  exact ⟨rfl, rfl, rfl, rfl⟩

theorem Catalogued.get_catalogName {done : List RulesetEntry} {s : Loading}
    (h : Catalogued done s) {path : String} (hname : s.pathToName.get path = none) :
    s.catalogMap.get (catalogName s.catalogMap path) = none := by
  obtain ⟨heq, hfree | hown⟩ | ⟨_, _, hfree, _⟩ := catalogName_cases s.catalogMap path
  · rw [heq]
    exact hfree
  · rw [(h.inverse path _).mpr hown] at hname
    cases hname
  · exact hfree

theorem Catalogued.step_of_some {done : List RulesetEntry} {s s' : Loading} (h : Catalogued done s)
    {e : RulesetEntry} {name : String} (hname : s.pathToName.get e.path = some name)
    (hpaths : ∀ path, s'.pathToName.get path = s.pathToName.get path)
    (hnames : ∀ name, s'.catalogMap.get name = s.catalogMap.get name) :
    Catalogued (done ++ [e]) s' where
  inverse path name := by
    rw [hpaths, hnames]
    exact h.inverse path name
  named e' he' := by
    rw [hpaths]
    obtain hin | heq := List.mem_append.mp he'
    · exact h.named e' hin
    · rw [List.mem_singleton.mp heq]
      exact ⟨name, hname⟩
  seen path name' hname' := by
    rw [hpaths] at hname'
    obtain ⟨e', he', hpath⟩ := h.seen path name' hname'
    exact ⟨e', List.mem_append_left _ he', hpath⟩
  unnamed path hempty := by
    rw [hpaths] at hempty
    exact h.unnamed path hempty
  first base hbase := by
    rw [hnames, h.first base hbase, find_append_singleton]
    cases hfind : done.find? fun e => basenameNoExt e.path = base with
    | some e' => rfl
    | none =>
        obtain ⟨e', he', hpath⟩ := h.seen e.path name hname
        have hne := List.find?_eq_none.mp hfind e' he'
        rw [hpath, decide_eq_true_eq] at hne
        rw [if_neg hne]
        rfl

/-- Two maps that invert each other still do when a free key and a free value are paired. -/
private theorem inverse_insert {paths names : IndexMap String}
    (hinverse : ∀ path name, paths.get path = some name ↔ names.get name = some path)
    {path₀ name₀ : String} (hpath₀ : paths.get path₀ = none) (hname₀ : names.get name₀ = none)
    (path name : String) :
    (paths.insert path₀ name₀).get path = some name ↔
      (names.insert name₀ path₀).get name = some path := by
  rw [IndexMap.get_insert, IndexMap.get_insert]
  by_cases hpath : path = path₀
  · rw [if_pos hpath, Option.some_inj]
    constructor
    · intro heq
      rw [if_pos heq.symm, hpath]
    · intro hget
      split at hget
      · rename_i heq
        exact heq.symm
      · rw [← hinverse, hpath, hpath₀] at hget
        cases hget
  · rw [if_neg hpath, hinverse]
    split
    · rename_i heq
      rw [heq, hname₀]
      constructor
      · intro hget
        cases hget
      · intro hget
        exact absurd (Option.some.inj hget).symm hpath
    · exact Iff.rfl

theorem Catalogued.step_of_none {done : List RulesetEntry} {s s' : Loading} (h : Catalogued done s)
    {e : RulesetEntry} (hname : s.pathToName.get e.path = none)
    (hpaths : s'.pathToName = s.pathToName.insert e.path (catalogName s.catalogMap e.path))
    (hnames : s'.catalogMap = s.catalogMap.insert (catalogName s.catalogMap e.path) e.path) :
    Catalogued (done ++ [e]) s' where
  inverse path name := by
    rw [hpaths, hnames]
    exact inverse_insert h.inverse hname (h.get_catalogName hname) path name
  named e' he' := by
    rw [hpaths, IndexMap.get_insert]
    split
    · exact ⟨_, rfl⟩
    · rename_i hne
      obtain hin | heq := List.mem_append.mp he'
      · exact h.named e' hin
      · exact absurd (congrArg _ (List.mem_singleton.mp heq)) hne
  seen path name' hname' := by
    rw [hpaths, IndexMap.get_insert] at hname'
    split at hname'
    · rename_i heq
      exact ⟨e, List.mem_append_right _ (List.mem_singleton_self e), heq.symm⟩
    · obtain ⟨e', he', hpath⟩ := h.seen path name' hname'
      exact ⟨e', List.mem_append_left _ he', hpath⟩
  unnamed path hempty := by
    rw [hpaths, IndexMap.get_insert] at hempty
    split at hempty
    · rename_i heq
      have hname' := Option.some.inj hempty
      obtain ⟨hbase, _⟩ | ⟨i, hnumber, _⟩ := catalogName_cases s.catalogMap e.path
      · rw [heq, ← hbase, hname']
      · exact absurd (hnumber.symm.trans hname') (numbered_ne_empty _ _ i)
    · exact h.unnamed path hempty
  first base hbase := by
    rw [hnames, IndexMap.get_insert, find_append_singleton, h.first base hbase]
    obtain ⟨hname', hget⟩ | ⟨i, hnumber, _, other, hother⟩ :=
      catalogName_cases s.catalogMap e.path
    · rw [hname']
      by_cases heq : base = basenameNoExt e.path
      · have hnone := h.get_catalogName hname
        rw [hname', ← heq, h.first base hbase, Option.map_eq_none_iff] at hnone
        rw [if_pos heq, if_pos heq.symm, hnone]
        rfl
      · rw [if_neg heq, if_neg (Ne.symm heq), Option.or_none]
    · rw [hnumber, if_neg (hbase _ i)]
      by_cases heq : base = basenameNoExt e.path
      · rw [← heq, h.first base hbase, Option.map_eq_some_iff] at hother
        obtain ⟨e', hfind, _⟩ := hother
        rw [hfind]
        rfl
      · rw [if_neg (Ne.symm heq), Option.or_none]

/-- One more entry: its path has a name now, and no path has lost its own. -/
theorem Catalogued.step {done : List RulesetEntry} {s : Loading} (h : Catalogued done s)
    {e : RulesetEntry} (hpath : e.path ≠ "") :
    Catalogued (done ++ [e]) (s.named e.path).2 ∧ (s.named e.path).2.rules = s.rules ∧
      (s.named e.path).2.pathToName.get e.path = some (s.named e.path).1 ∧
      ∀ path name, s.pathToName.get path = some name →
        (s.named e.path).2.pathToName.get path = some name := by
  cases hname : s.pathToName.get e.path with
  | some name =>
      obtain ⟨hfst, hrules, hpaths, hnames⟩ := h.named_of_some hname
      refine ⟨h.step_of_some hname hpaths hnames, hrules, ?_, ?_⟩
      · rw [hpaths, hname, hfst]
      · intro path name' hname'
        rw [hpaths, hname']
  | none =>
      obtain ⟨hfst, hrules, hpaths, hnames⟩ := named_of_none hname hpath
      refine ⟨h.step_of_none hname hpaths hnames, hrules, ?_, ?_⟩
      · rw [hpaths, IndexMap.get_insert, if_pos rfl, hfst]
      · intro path name' hname'
        have hne : path ≠ e.path := by
          rintro rfl
          rw [hname] at hname'
          cases hname'
        rw [hpaths, IndexMap.get_insert, if_neg hne, hname']

/-- What a path is called. -/
def Loading.nameOf (s : Loading) (path : String) : String := (s.pathToName.get path).getD ""

/-- Reading all entries is naming the paths first and forming the rules with these names. -/
theorem Catalogued.run {groups : IndexMap JsonValue} {entries done : List RulesetEntry}
    {s : Loading} (h : Catalogued done s) (hpaths : ∀ e ∈ entries, e.path ≠ "") :
    let s' := (entries.map RulesetEntry.toJson).foldl (Loading.addEntry groups) s
    Catalogued (done ++ entries) s' ∧
      (∀ path name, s.pathToName.get path = some name → s'.pathToName.get path = some name) ∧
      s'.rules = entries.foldl
        (fun rules e => addToRules groups rules (s'.nameOf e.path) e.upstream) s.rules := by
  induction entries generalizing done s with
  | nil =>
      rw [List.append_nil]
      exact ⟨h, fun _ _ hname => hname, rfl⟩
  | cons e entries ih =>
      obtain ⟨hstep, hrules, hname, hkeep⟩ := h.step (hpaths e List.mem_cons_self)
      have hadd : Loading.addEntry groups s e.toJson =
          { (s.named e.path).2 with
            rules := addToRules groups s.rules (s.named e.path).1 e.upstream } := by
        rw [← hrules]
        rfl
      have hstep' : Catalogued (done ++ [e]) (Loading.addEntry groups s e.toJson) := by
        rw [hadd]
        exact ⟨hstep.inverse, hstep.named, hstep.seen, hstep.unnamed, hstep.first⟩
      have hname' : (Loading.addEntry groups s e.toJson).pathToName.get e.path =
          some (s.named e.path).1 := by
        rw [hadd]
        exact hname
      obtain ⟨hrun, hkept, hrest⟩ := ih hstep'
        fun other hother => hpaths other (List.mem_cons_of_mem e hother)
      rw [List.append_assoc, List.singleton_append] at hrun
      rw [List.map_cons, List.foldl_cons]
      refine ⟨hrun, ?_, ?_⟩
      · intro path name hpath
        apply hkept
        rw [hadd]
        exact hkeep path name hpath
      · have hcalled : ((entries.map RulesetEntry.toJson).foldl (Loading.addEntry groups)
            (Loading.addEntry groups s e.toJson)).nameOf e.path = (s.named e.path).1 := by
          rw [Loading.nameOf, hkept _ _ hname', Option.getD_some]
        rw [List.foldl_cons, hcalled, hrest, hadd]

end Relay.Web
