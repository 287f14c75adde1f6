import Relay.Config.Validate
import Relay.Text.Plain

/-!
The configuration as it is written to disk: `ConfigYaml`, and the two
conversions between it and the normalised form. What was validated is read
back as it was.
-/

namespace Relay

open Binary Dns Text

/-! ### Addresses as text -/

/-- `Ipv4Addr::to_string`. -/
def ipv4Text (addr : BitVec 32) : String :=
  let n := addr.toNat
  toString (n / 2 ^ 24) ++ "." ++ toString (n / 2 ^ 16 % 256) ++ "." ++
    toString (n / 2 ^ 8 % 256) ++ "." ++ toString (n % 256)

/-- `{:x}`. -/
def hexText (n : Nat) : String := String.ofList (Nat.toDigits 16 n)

/-- `fmt_subslice`: segments between colons. -/
def fmtSubslice : List Nat → String
  | [] => ""
  | first :: tail => tail.foldl (fun text segment => text ++ ":" ++ hexText segment) (hexText first)

/-- A run of zero segments. -/
structure Span where
  start : Nat := 0
  len : Nat := 0

/-- The first of the longest runs of zeros; `current` is the run that goes on. -/
def longestRun (current longest : Span) : List (Nat × Nat) → Span
  | [] => longest
  | (segment, i) :: rest =>
      if segment = 0 then
        let current : Span := ⟨if current.len = 0 then i else current.start, current.len + 1⟩
        longestRun current (if longest.len < current.len then current else longest) rest
      else longestRun {} longest rest

/-- `Ipv6Addr::to_string`. -/
def ipv6Text (addr : BitVec 128) : String :=
  let n := addr.toNat
  if n / 2 ^ 32 = 0xffff then "::ffff:" ++ ipv4Text (addr.setWidth 32)
  else
    let segments := (List.range 8).map fun i => n / 2 ^ (112 - 16 * i) % 2 ^ 16
    let zeroes := longestRun {} {} segments.zipIdx
    if 1 < zeroes.len then
      fmtSubslice (segments.take zeroes.start) ++ "::" ++
        fmtSubslice (segments.drop (zeroes.start + zeroes.len))
    else fmtSubslice segments

/-- `SocketAddr::to_string`. -/
def socketAddrText (addr : SocketAddr) : String :=
  match addr.ip with
  | .v4 ip => ipv4Text ip ++ ":" ++ toString addr.port.toNat
  | .v6 ip => "[" ++ ipv6Text ip ++ "]:" ++ toString addr.port.toNat

def NoSlash (s : String) : Prop := '/' ∉ s.toList

instance (s : String) : Decidable (NoSlash s) := inferInstanceAs (Decidable (_ ∉ _))

theorem NoSlash.append {s t : String} (hs : NoSlash s) (ht : NoSlash t) : NoSlash (s ++ t) := by
  unfold NoSlash
  rw [String.toList_append, List.mem_append, not_or]
  exact ⟨hs, ht⟩

theorem noSlash_number (n : Nat) : NoSlash (toString n) := by
  intro hmem
  have hdigits : (toString n).toList = Nat.toDigits 10 n := Nat.toList_repr
  rw [hdigits] at hmem
  have hdigit := Nat.isDigit_of_mem_toDigits (by omega) (by omega) hmem
  simp at hdigit

theorem noSlash_hexText (n : Nat) : NoSlash (hexText n) := by
  unfold NoSlash hexText
  rw [String.toList_ofList]
  induction n using Nat.strongRecOn with
  | ind n ih =>
      have hdigit : ∀ m : Nat, '/' ≠ m.digitChar := fun m => (Nat.digitChar_ne '/' (by decide)).symm
      rcases Nat.lt_or_ge n 16 with hlt | hge
      · rw [Nat.toDigits_of_lt_base hlt, List.mem_singleton]
        exact hdigit n
      · rw [Nat.toDigits_of_base_le (by omega) hge, List.mem_append, List.mem_singleton, not_or]
        exact ⟨ih (n / 16) (by omega), hdigit _⟩

theorem noSlash_ipv4Text (addr : BitVec 32) : NoSlash (ipv4Text addr) := by
  have hdot : NoSlash "." := by decide
  exact ((((((noSlash_number _).append hdot).append (noSlash_number _)).append hdot).append
    (noSlash_number _)).append hdot).append (noSlash_number _)

theorem noSlash_fmtSubslice (segments : List Nat) : NoSlash (fmtSubslice segments) := by
  have hrest : ∀ (tail : List Nat) (text : String), NoSlash text →
      NoSlash (tail.foldl (fun text segment => text ++ ":" ++ hexText segment) text) := by
    intro tail
    induction tail with
    | nil =>
        intro text htext
        exact htext
    | cons segment tail ih =>
        intro text htext
        have hcolon : NoSlash ":" := by decide
        exact ih _ ((htext.append hcolon).append (noSlash_hexText segment))
  cases segments with
  | nil => decide
  | cons first tail => exact hrest tail _ (noSlash_hexText first)

theorem noSlash_ipv6Text (addr : BitVec 128) : NoSlash (ipv6Text addr) := by
  have hmapped : NoSlash "::ffff:" := by decide
  have hcolons : NoSlash "::" := by decide
  unfold ipv6Text
  dsimp only
  split
  · exact hmapped.append (noSlash_ipv4Text _)
  · split
    · exact ((noSlash_fmtSubslice _).append hcolons).append (noSlash_fmtSubslice _)
    · exact noSlash_fmtSubslice _

/-- The text of an address is never taken for a URL. -/
theorem noSlash_socketAddrText (addr : SocketAddr) : NoSlash (socketAddrText addr) := by
  have hcolon : NoSlash ":" := by decide
  have hopen : NoSlash "[" := by decide
  have hclose : NoSlash "]:" := by decide
  unfold socketAddrText
  split
  · exact ((noSlash_ipv4Text _).append hcolon).append (noSlash_number _)
  · exact ((hopen.append (noSlash_ipv6Text _)).append hclose).append (noSlash_number _)

/-! ### Maps -/

section IndexMap

variable {α : Type}

/-- `insert`: an old entry keeps its place, a new one goes to the end. -/
def IndexMap.insert (m : IndexMap α) (key : String) (value : α) : IndexMap α where
  entries :=
    if m.containsKey key then
      m.entries.map fun entry => if entry.1 = key then (key, value) else entry
    else m.entries ++ [(key, value)]
  nodup := by
    split
    · have hkeys : (m.entries.map fun entry => if entry.1 = key then (key, value) else entry).map
          Prod.fst = m.entries.map Prod.fst := by
        rw [List.map_map]
        apply List.map_congr_left
        intro entry _
        dsimp only [Function.comp_apply]
        split
        · rename_i hkey
          exact hkey.symm
        · rfl
      rw [hkeys]
      exact m.nodup
    · rename_i hnew
      rw [List.map_append, List.nodup_append]
      refine ⟨m.nodup, by simp, ?_⟩
      intro key' hkey' other hother heq
      obtain ⟨entry, hentry, rfl⟩ := List.mem_map.mp hkey'
      apply hnew
      refine List.any_eq_true.mpr ⟨entry, hentry, ?_⟩
      rw [List.map_singleton, List.mem_singleton] at hother
      rw [decide_eq_true_eq, heq, hother]

/-- `shift_remove`, as the map it leaves behind. -/
def IndexMap.shiftRemove (m : IndexMap α) (key : String) : IndexMap α where
  entries := m.entries.filter fun entry => entry.1 ≠ key
  nodup := m.nodup.sublist (List.filter_sublist.map Prod.fst)

theorem IndexMap.insert_entries {m : IndexMap α} {key : String} (h : m.containsKey key = false)
    (value : α) : (m.insert key value).entries = m.entries ++ [(key, value)] := by
  unfold IndexMap.insert
  dsimp only
  rw [h, if_neg Bool.false_ne_true]

theorem IndexMap.containsKey_eq_false {m : IndexMap α} {key : String} :
    m.containsKey key = false ↔ key ∉ m.entries.map Prod.fst := by
  rw [IndexMap.containsKey, List.any_eq_false]
  constructor
  · intro h hmem
    obtain ⟨entry, hentry, hkey⟩ := List.mem_map.mp hmem
    exact h entry hentry (decide_eq_true hkey)
  · intro h entry hentry heq
    rw [decide_eq_true_eq] at heq
    exact h (List.mem_map.mpr ⟨entry, hentry, heq⟩)

theorem IndexMap.Same.containsKey {m m' : IndexMap α} (h : m.Same m') (key : String) :
    m.containsKey key = m'.containsKey key := List.Perm.any_eq h

/-- A key's entry and the map without it. -/
theorem perm_filter_ne {entries : List (String × α)} (hnodup : (entries.map Prod.fst).Nodup)
    {key : String} {value : α}
    (h : (entries.find? fun entry => entry.1 = key).map Prod.snd = some value) :
    entries.Perm ((key, value) :: entries.filter fun entry => entry.1 ≠ key) := by
  induction entries with
  | nil => cases h
  | cons entry entries ih =>
      rw [List.map_cons, List.nodup_cons] at hnodup
      by_cases hkey : entry.1 = key
      · have hvalue : entry.2 = value := by simpa [hkey] using h
        have hrest : (entries.filter fun entry => entry.1 ≠ key) = entries := by
          apply List.filter_eq_self.mpr
          intro other hother
          rw [decide_eq_true_eq]
          rintro rfl
          exact hnodup.1 (hkey ▸ List.mem_map_of_mem hother)
        have hentry : entry = (key, value) := Prod.ext hkey hvalue
        rw [List.filter_cons_of_neg (by simpa using hkey), hrest, hentry]
      · have hfind : (entries.find? fun entry => entry.1 = key).map Prod.snd = some value := by
          simpa [hkey] using h
        rw [List.filter_cons_of_pos (by simpa using hkey)]
        exact ((ih hnodup.2 hfind).cons entry).trans (List.Perm.swap _ _ _)

theorem IndexMap.perm_shiftRemove {m : IndexMap α} {key : String} {value : α}
    (h : m.get key = some value) : m.entries.Perm ((key, value) :: (m.shiftRemove key).entries) :=
  perm_filter_ne m.nodup h

theorem IndexMap.get_of_containsKey {m : IndexMap α} {key : String} (h : m.containsKey key = true) :
    ∃ value, m.get key = some value := by
  obtain ⟨entry, hentry, hkey⟩ := List.any_eq_true.mp h
  have hsome : (m.entries.find? fun entry => entry.1 = key).isSome = true :=
    List.find?_isSome.mpr ⟨entry, hentry, hkey⟩
  obtain ⟨found, hfound⟩ := Option.isSome_iff_exists.mp hsome
  exact ⟨found.2, by rw [IndexMap.get, hfound, Option.map_some]⟩

theorem IndexMap.containsKey_eq_true {m : IndexMap α} {key : String} :
    m.containsKey key = true ↔ ∃ value, (key, value) ∈ m.entries := by
  rw [IndexMap.containsKey, List.any_eq_true]
  constructor
  · rintro ⟨⟨key', value⟩, hentry, hkey⟩
    rw [decide_eq_true_eq] at hkey
    subst hkey
    exact ⟨value, hentry⟩
  · rintro ⟨value, hentry⟩
    exact ⟨(key, value), hentry, decide_eq_true rfl⟩

theorem IndexMap.get_eq_some {m : IndexMap α} {key : String} {value : α} :
    m.get key = some value ↔ (key, value) ∈ m.entries := by
  constructor
  · intro h
    exact (perm_shiftRemove h).mem_iff.mpr List.mem_cons_self
  · intro hentry
    obtain ⟨found, hfound⟩ := IndexMap.get_of_containsKey
      (IndexMap.containsKey_eq_true.mpr ⟨value, hentry⟩)
    have hmem := (perm_shiftRemove hfound).mem_iff.mp hentry
    obtain heq | hrest := List.mem_cons.mp hmem
    · rw [hfound, (Prod.mk.inj heq).2]
    · have hne := (List.mem_filter.mp hrest).2
      simp at hne

theorem IndexMap.mem_insert {m : IndexMap α} {key key' : String} {value value' : α} :
    (key', value') ∈ (m.insert key value).entries ↔
      key' = key ∧ value' = value ∨ key' ≠ key ∧ (key', value') ∈ m.entries := by
  cases hkey : m.containsKey key with
  | false =>
      rw [IndexMap.insert_entries hkey, List.mem_append, List.mem_singleton, Prod.mk.injEq]
      have hnot := IndexMap.containsKey_eq_false.mp hkey
      constructor
      · rintro (hold | hnew)
        · refine Or.inr ⟨?_, hold⟩
          rintro rfl
          exact hnot (List.mem_map_of_mem hold)
        · exact Or.inl hnew
      · rintro (hnew | ⟨_, hold⟩)
        · exact Or.inr hnew
        · exact Or.inl hold
  | true =>
      have hentries : (m.insert key value).entries =
          m.entries.map fun entry => if entry.1 = key then (key, value) else entry := by
        unfold IndexMap.insert
        dsimp only
        rw [if_pos hkey]
      obtain ⟨found, hfound⟩ := IndexMap.containsKey_eq_true.mp hkey
      rw [hentries, List.mem_map]
      constructor
      · rintro ⟨entry, hentry, heq⟩
        split at heq
        · cases heq
          exact Or.inl ⟨rfl, rfl⟩
        · rename_i hne
          subst heq
          exact Or.inr ⟨hne, hentry⟩
      · rintro (⟨rfl, rfl⟩ | ⟨hne, hold⟩)
        · exact ⟨_, hfound, if_pos rfl⟩
        · exact ⟨_, hold, if_neg hne⟩

theorem IndexMap.get_insert (m : IndexMap α) (key : String) (value : α) (key' : String) :
    (m.insert key value).get key' = if key' = key then some value else m.get key' := by
  apply Option.ext
  intro value'
  rw [IndexMap.get_eq_some, IndexMap.mem_insert]
  split
  · rename_i hkey
    simp [hkey, eq_comm]
  · rename_i hkey
    simp [hkey, IndexMap.get_eq_some]

theorem IndexMap.get_eq_none {m : IndexMap α} {key : String} :
    m.get key = none ↔ m.containsKey key = false := by
  rw [IndexMap.containsKey_eq_false, Option.eq_none_iff_forall_ne_some]
  constructor
  · intro h hmem
    obtain ⟨⟨_, value⟩, hentry, rfl⟩ := List.mem_map.mp hmem
    exact h value (IndexMap.get_eq_some.mpr hentry)
  · intro h value hvalue
    exact h (List.mem_map_of_mem (IndexMap.get_eq_some.mp hvalue))

/-- Entries with new keys, put in one after the other, come to stand behind the
ones already there. -/
theorem IndexMap.foldlM_insert {m : Type → Type} [Monad m] [LawfulMonad m] {β : Type}
    {step : IndexMap α → β → m (IndexMap α)} {entry : β → String × α} {items : List β}
    {map : IndexMap α}
    (hstep : ∀ map : IndexMap α, ∀ b ∈ items, map.containsKey (entry b).1 = false →
      step map b = pure (map.insert (entry b).1 (entry b).2))
    (hnodup : ((map.entries ++ items.map entry).map Prod.fst).Nodup) :
    ∃ map' : IndexMap α, items.foldlM step map = pure map' ∧
      map'.entries = map.entries ++ items.map entry := by
  induction items generalizing map with
  | nil => exact ⟨map, List.foldlM_nil, (List.append_nil _).symm⟩
  | cons b items ih =>
      have hnew : map.containsKey (entry b).1 = false := by
        rw [IndexMap.containsKey_eq_false]
        rw [List.map_append, List.nodup_append] at hnodup
        intro hmem
        exact hnodup.2.2 _ hmem _ List.mem_cons_self rfl
      have hentries := IndexMap.insert_entries hnew (entry b).2
      have hnodup' : (((map.insert (entry b).1 (entry b).2).entries ++ items.map entry).map
          Prod.fst).Nodup := by
        rw [hentries, List.append_assoc]
        exact hnodup
      obtain ⟨map', hfold, hmap'⟩ :=
        ih (fun map other hother => hstep map other (List.mem_cons_of_mem b hother)) hnodup'
      refine ⟨map', ?_, ?_⟩
      · rw [List.foldlM_cons, hstep map b List.mem_cons_self hnew, pure_bind]
        exact hfold
      · rw [hmap', hentries, List.append_assoc]
        rfl

end IndexMap

/-! ### What stands in the file -/

inductive UpstreamGroupSerde where
  | simple (servers : List String)
  | full (g : UpstreamGroupCfg)
  deriving DecidableEq, Repr

/-- `into_group`, which never fails. -/
def UpstreamGroupSerde.intoGroup : UpstreamGroupSerde → UpstreamGroupCfg
  | .simple servers => { servers }
  | .full g => g

/-- The key of a rule: a name, or several names for one group. -/
inductive RuleKey where
  | single (name : String)
  | multi (names : List String)
  deriving DecidableEq, Repr

inductive RulesetsSerde where
  | map (m : IndexMap String)
  | list (l : List RulesetEntry)

structure ConfigYaml where
  logLevel : LogLevel := .info
  listen : SocketAddr
  manageResolvConf : Bool := false
  strategy : IpStrategy := .default
  defaultNameserver : List String := []
  nameserver : UpstreamGroupSerde
  rules : List (RuleKey × UpstreamGroupSerde) := []
  rulesNodup : (rules.map Prod.fst).Nodup := by simp
  rulesets : RulesetsSerde := .map .empty
  hosts : IndexMap IpAddr := .empty
  cache : CacheConfig := {}
  firewall : Option FirewallConfig := none
  dhcp : DhcpConfig := {}
  web : WebConfig := {}

inductive ConfigYamlError where
  | protocolPrefix (entry : String)
  | notIpLiteral (entry : String)
  | duplicateGroup (name : String)
  | emptyArrayKey
  deriving DecidableEq, Repr

/-- The error's text. -/
def ConfigYamlError.text : ConfigYamlError → String
  | .protocolPrefix entry =>
      "default-nameserver entry must be plain IP, got '" ++ entry ++
        "' (protocol prefix not allowed)"
  | .notIpLiteral entry =>
      "default-nameserver entry must be IP literal, got '" ++ entry ++
        "' (domain names are not allowed here)"
  | .duplicateGroup name => "duplicate upstream group name: " ++ name
  | .emptyArrayKey => "rules has empty array key"

section Convert

variable (T : NetText)

/-- `parse_default_nameserver`. -/
def parseDefaultNameserver (s : String) : Except ConfigYamlError SocketAddr :=
  if contains s "://" then .error (.protocolPrefix s)
  else match T.socketAddr s with
  | some addr => .ok addr
  | none =>
      match T.ipAddr s with
      | some ip => .ok ⟨ip, 53⟩
      | none => .error (.notIpLiteral s)

/-- A further name for a group. -/
def addName (group : UpstreamGroupCfg) (groups : IndexMap UpstreamGroupCfg) (name : String) :
    Except ConfigYamlError (IndexMap UpstreamGroupCfg) :=
  if groups.containsKey name then .error (.duplicateGroup name)
  else .ok (groups.insert name group)

/-- One entry of `rules`. -/
def addRule (groups : IndexMap UpstreamGroupCfg) (rule : RuleKey × UpstreamGroupSerde) :
    Except ConfigYamlError (IndexMap UpstreamGroupCfg) :=
  match rule.1 with
  | .single name => addName rule.2.intoGroup groups name
  | .multi names =>
      if names = [] then .error .emptyArrayKey
      else names.foldlM (addName rule.2.intoGroup) groups

/-- The two spellings of `rulesets` made one. -/
def RulesetsSerde.intoList : RulesetsSerde → List RulesetEntry
  | .map m => m.entries.map fun entry => ⟨entry.2, entry.1⟩
  | .list l => l

/-- `into_config`. -/
def ConfigYaml.intoConfig (yaml : ConfigYaml) : Except ConfigYamlError Config := do
  let defaultNs ← yaml.defaultNameserver.mapM (parseDefaultNameserver T)
  let groups : IndexMap UpstreamGroupCfg := IndexMap.insert .empty "default" yaml.nameserver.intoGroup
  let groups ← yaml.rules.foldlM addRule groups
  return {
    logLevel := yaml.logLevel
    listen := yaml.listen
    manageResolvConf := yaml.manageResolvConf
    strategy := yaml.strategy
    defaultNameserver := defaultNs
    groups := groups
    rulesets := yaml.rulesets.intoList
    hosts := yaml.hosts
    cache := yaml.cache
    firewall := yaml.firewall
    dhcp := yaml.dhcp
    web := yaml.web
  }

/-- The group of a configuration without one: every query is refused. -/
def refusedGroup : UpstreamGroupCfg := { servers := ["rcode://refused"] }

/-- `to_config_yaml`. -/
def Config.toConfigYaml (c : Config) : ConfigYaml where
  logLevel := c.logLevel
  listen := c.listen
  manageResolvConf := c.manageResolvConf
  strategy := c.strategy
  defaultNameserver := c.defaultNameserver.map socketAddrText
  nameserver := .full ((c.groups.get "default").getD refusedGroup)
  rules := (c.groups.shiftRemove "default").entries.map fun entry =>
    (.single entry.1, .full entry.2)
  rulesNodup := by
    have hkeys := (c.groups.shiftRemove "default").nodup.map
      (f := RuleKey.single) fun name name' heq => RuleKey.single.inj heq
    rw [List.map_map] at hkeys ⊢
    exact hkeys
  rulesets := .list c.rulesets
  hosts := c.hosts
  cache := c.cache
  firewall := c.firewall
  dhcp := c.dhcp
  web := c.web

/-- `==` of two configurations. -/
structure Config.Same (c c' : Config) : Prop where
  logLevel : c.logLevel = c'.logLevel
  listen : c.listen = c'.listen
  manageResolvConf : c.manageResolvConf = c'.manageResolvConf
  strategy : c.strategy = c'.strategy
  defaultNameserver : c.defaultNameserver = c'.defaultNameserver
  groups : c.groups.Same c'.groups
  rulesets : c.rulesets = c'.rulesets
  hosts : c.hosts.Same c'.hosts
  cache : c.cache = c'.cache
  firewall : c.firewall = c'.firewall
  dhcp : c.dhcp = c'.dhcp
  web : c.web = c'.web

variable {T}

/-! ### Read back -/

theorem parseDefaultNameserver_text {addr : SocketAddr}
    (h : T.socketAddr (socketAddrText addr) = some addr) :
    parseDefaultNameserver T (socketAddrText addr) = .ok addr := by
  have hurl : contains (socketAddrText addr) "://" = false :=
    contains_eq_false (by decide) (noSlash_socketAddrText addr)
  rw [parseDefaultNameserver, hurl, h]
  rfl

theorem mapM_parseDefaultNameserver {addrs : List SocketAddr}
    (h : ∀ addr ∈ addrs, T.socketAddr (socketAddrText addr) = some addr) :
    (addrs.map socketAddrText).mapM (parseDefaultNameserver T) = .ok addrs := by
  induction addrs with
  | nil => rfl
  | cons addr addrs ih =>
      have haddr := parseDefaultNameserver_text (h addr List.mem_cons_self)
      have hrest := ih fun other hother => h other (List.mem_cons_of_mem addr hother)
      rw [List.map_cons, List.mapM_cons, haddr, hrest]
      rfl

theorem addRule_new {groups : IndexMap UpstreamGroupCfg} {name : String}
    (h : groups.containsKey name = false) (g : UpstreamGroupCfg) :
    addRule groups (.single name, .full g) = .ok (groups.insert name g) := by
  rw [addRule]
  dsimp only
  rw [addName, h, if_neg Bool.false_ne_true]
  rfl

/-- The groups are those there were, the default one now first. -/
theorem foldlM_rules {c : Config} (h : c.groups.containsKey "default" = true) :
    ∃ groups : IndexMap UpstreamGroupCfg,
      c.toConfigYaml.rules.foldlM addRule
        (IndexMap.insert .empty "default" c.toConfigYaml.nameserver.intoGroup) = .ok groups ∧
      groups.Same c.groups := by
  obtain ⟨g, hg⟩ := IndexMap.get_of_containsKey h
  have hperm := IndexMap.perm_shiftRemove hg
  have hnameserver : c.toConfigYaml.nameserver.intoGroup = g := by
    rw [Config.toConfigYaml, hg]
    rfl
  have hnodup : (((IndexMap.insert .empty "default" g).entries ++
      (c.groups.shiftRemove "default").entries).map Prod.fst).Nodup :=
    (hperm.map Prod.fst).nodup c.groups.nodup
  have hids : (c.groups.shiftRemove "default").entries.map id =
      (c.groups.shiftRemove "default").entries := List.map_id _
  obtain ⟨groups, hfold, hentries⟩ := IndexMap.foldlM_insert
    (fun map entry _ hnew => addRule_new hnew entry.2) (hids ▸ hnodup)
  refine ⟨groups, ?_, ?_⟩
  · rw [hnameserver, Config.toConfigYaml, List.foldlM_map]
    exact hfold
  · rw [IndexMap.Same, hentries, hids]
    exact hperm.symm

/-! ### Checked again -/

theorem Config.Same.hasDomainUpstream {c c' : Config} (h : c.Same c') :
    c.hasDomainUpstream T = c'.hasDomainUpstream T :=
  (h.groups.map Prod.snd).any_eq

theorem Config.Same.validateRulesets {c c' : Config} (h : c.Same c') (entries : List RulesetEntry) :
    c.validateRulesets entries = c'.validateRulesets entries := by
  induction entries with
  | nil => rfl
  | cons entry entries ih =>
      rw [Config.validateRulesets, Config.validateRulesets, h.groups.containsKey, ih]

/-- Equal configurations pass the same checks. -/
theorem Config.Same.validate {c c' : Config} (h : c.Same c') : c.validate T = c'.validate T := by
  have hfirewall : c.firewallEnabled = c'.firewallEnabled := by
    rw [Config.firewallEnabled, Config.firewallEnabled, h.firewall]
  rw [Config.validate, Config.validate, h.groups.containsKey, h.manageResolvConf, h.listen,
    hfirewall, h.defaultNameserver, h.hasDomainUpstream, h.validateRulesets, h.rulesets, h.web]

theorem containsKey_default_of_validate {c : Config} (h : c.validate T = .ok ()) :
    c.groups.containsKey "default" = true := by
  by_contra hdefault
  rw [Config.validate, if_pos hdefault] at h
  cases h

/-- A configuration that passes the checks is read back from the file as it
was, and passes them again. -/
theorem reloads_unchanged {c : Config}
    (htext : ∀ addr ∈ c.defaultNameserver, T.socketAddr (socketAddrText addr) = some addr)
    (hvalid : c.validate T = .ok ()) :
    ∃ c', c.toConfigYaml.intoConfig T = .ok c' ∧ c'.Same c ∧ c'.validate T = .ok () := by
  obtain ⟨groups, hfold, hgroups⟩ := foldlM_rules (containsKey_default_of_validate hvalid)
  have hsame : Config.Same { c with groups } c :=
    ⟨rfl, rfl, rfl, rfl, rfl, hgroups, rfl, .refl _, rfl, rfl, rfl, rfl⟩
  refine ⟨{ c with groups }, ?_, hsame, hsame.validate.trans hvalid⟩
  have hns : c.toConfigYaml.defaultNameserver.mapM (parseDefaultNameserver T) =
      .ok c.defaultNameserver := mapM_parseDefaultNameserver htext
  rw [ConfigYaml.intoConfig, hns]
  change (c.toConfigYaml.rules.foldlM addRule _ >>= _) = _
  rw [hfold]
  rfl

/-- Two groups, the default one last, and a server to look up the others with. -/
def mirroredConfig : Config where
  listen := ⟨.v4 0x7f000001, 53⟩
  manageResolvConf := true
  defaultNameserver := [⟨.v4 0x09090909, 53⟩]
  groups := { entries := [("cn", { servers := ["udp://10.0.0.1"] }),
    ("default", { servers := ["tls://dns.example"], clientSubnet := some "192.0.2.0/24" })] }
  rulesets := [⟨"/etc/relay/cn.drs", "cn"⟩]

/-- Knows the one address of `mirroredConfig`. -/
def mirroredText : NetText where
  socketAddr s := if s = "9.9.9.9:53" then some ⟨.v4 0x09090909, 53⟩ else none
  ipAddr _ := none
  validUrl _ := true

theorem reloads_unchanged_mirrored :
    ∃ c', mirroredConfig.toConfigYaml.intoConfig mirroredText = .ok c' ∧
      c'.Same mirroredConfig ∧ c'.validate mirroredText = .ok () := by
  apply reloads_unchanged
  · intro addr haddr
    rw [show addr = ⟨.v4 0x09090909, 53⟩ from List.mem_singleton.mp haddr]
    decide
  · decide

end Convert

end Relay
