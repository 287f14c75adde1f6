import Relay.Config.Yaml
import Relay.Text.Json

/-!
Upstream groups and rule set entries as JSON: what the program sends to the web
panel, and what it makes of what comes back.
-/

namespace Relay

open Text

/-! ### Serialize -/

def Strategy.serdeName : Strategy → String
  | .roundRobin => "round_robin"
  | .fastest => "fastest"

def UpstreamGroupCfg.toJson (g : UpstreamGroupCfg) : JsonValue :=
  .object [("client_subnet", match g.clientSubnet with
      | some subnet => .string subnet
      | none => .null),
    ("insecure", .bool g.insecure), ("servers", .array (g.servers.map .string)),
    ("strategy", .string g.strategy.serdeName)]

def RulesetEntry.toJson (entry : RulesetEntry) : JsonValue :=
  .object [("path", .string entry.path), ("upstream", .string entry.upstream)]

def IndexMap.mapValues {α β : Type} (f : α → β) (m : IndexMap α) : IndexMap β where
  entries := m.entries.map fun entry => (entry.1, f entry.2)
  nodup := by
    rw [List.map_map]
    exact m.nodup

theorem IndexMap.get_mapValues {α β : Type} (f : α → β) (m : IndexMap α) (key : String) :
    (m.mapValues f).get key = (m.get key).map f := by
  rw [IndexMap.get, IndexMap.get, IndexMap.mapValues, List.find?_map, Option.map_map,
    Option.map_map]
  rfl

/-! ### Deserialize -/

def Strategy.ofSerdeName (name : String) : Option Strategy :=
  if name = "round_robin" then some .roundRobin
  else if name = "fastest" then some .fastest
  else none

/-- A field, or what stands for it when it is missing. -/
def JsonValue.field {α : Type} (value : JsonValue) (name : String) (missing : Option α)
    (read : JsonValue → Option α) : Option α :=
  match value.get name with
  | some v => read v
  | none => missing

def readStrings (value : JsonValue) : Option (List String) :=
  value.asArray.bind fun items => items.mapM JsonValue.asString

def readStrategy (value : JsonValue) : Option Strategy := value.asString.bind Strategy.ofSerdeName

/-- An `Option<String>`. -/
def readOptionString : JsonValue → Option (Option String)
  | .null => some none
  | .string s => some (some s)
  | _ => none

/-- Fields of other names are ignored. -/
def UpstreamGroupCfg.fromJson (value : JsonValue) : Option UpstreamGroupCfg := do
  let servers ← JsonValue.field value "servers" none readStrings
  let strategy ← JsonValue.field value "strategy" (some .roundRobin) readStrategy
  let insecure ← JsonValue.field value "insecure" (some false) JsonValue.asBool
  let clientSubnet ← JsonValue.field value "client_subnet" (some none) readOptionString
  return { servers, strategy, insecure, clientSubnet }

def RulesetEntry.fromJson (value : JsonValue) : Option RulesetEntry := do
  let path ← JsonValue.field value "path" none JsonValue.asString
  let upstream ← JsonValue.field value "upstream" none JsonValue.asString
  return { path, upstream }

/-- A map of groups; the values are read one after the other. -/
def readGroups (groups : IndexMap JsonValue) : Option (IndexMap UpstreamGroupCfg) :=
  groups.entries.foldlM
    (fun m entry => (UpstreamGroupCfg.fromJson entry.2).map (m.insert entry.1)) .empty

/-! ### Read back -/

theorem Strategy.serdeName_ne_empty (strategy : Strategy) : strategy.serdeName ≠ "" := by
  cases strategy <;> decide

theorem readStrategy_serdeName (strategy : Strategy) :
    readStrategy (.string strategy.serdeName) = some strategy := by
  cases strategy <;> rfl

theorem readStrings_map (texts : List String) :
    readStrings (.array (texts.map .string)) = some texts := by
  change (texts.map JsonValue.string).mapM JsonValue.asString = some texts
  induction texts with
  | nil => rfl
  | cons text texts ih =>
      rw [List.map_cons, List.mapM_cons, ih]
      rfl

theorem UpstreamGroupCfg.fromJson_toJson (g : UpstreamGroupCfg) :
    UpstreamGroupCfg.fromJson g.toJson = some g := by
  unfold UpstreamGroupCfg.fromJson
  have hservers : JsonValue.field g.toJson "servers" none readStrings = some g.servers :=
    readStrings_map g.servers
  have hstrategy : JsonValue.field g.toJson "strategy" (some .roundRobin) readStrategy =
      some g.strategy := readStrategy_serdeName g.strategy
  have hinsecure : JsonValue.field g.toJson "insecure" (some false) JsonValue.asBool =
      some g.insecure := rfl
  have hsubnet : JsonValue.field g.toJson "client_subnet" (some none) readOptionString =
      some g.clientSubnet := by
    obtain ⟨_, _, _, clientSubnet⟩ := g
    cases clientSubnet <;> rfl
  rw [hservers, hstrategy, hinsecure, hsubnet]
  rfl

theorem RulesetEntry.fromJson_toJson (entry : RulesetEntry) :
    RulesetEntry.fromJson entry.toJson = some entry := rfl

/-- Every group that is read is found under its key. -/
theorem readGroups_get {m : IndexMap JsonValue}
    (h : ∀ entry ∈ m.entries, ∃ g, UpstreamGroupCfg.fromJson entry.2 = some g) :
    ∃ groups, readGroups m = some groups ∧
      ∀ key, groups.get key = (m.get key).bind UpstreamGroupCfg.fromJson := by
  have hfold : ∀ (entries : List (String × JsonValue)) (acc : IndexMap UpstreamGroupCfg),
      (entries.map Prod.fst).Nodup →
      (∀ entry ∈ entries, ∃ g, UpstreamGroupCfg.fromJson entry.2 = some g) →
      ∃ groups, entries.foldlM (fun m entry =>
          (UpstreamGroupCfg.fromJson entry.2).map (m.insert entry.1)) acc = some groups ∧
        (∀ entry ∈ entries, groups.get entry.1 = UpstreamGroupCfg.fromJson entry.2) ∧
        ∀ key ∉ entries.map Prod.fst, groups.get key = acc.get key := by
    intro entries
    induction entries with
    | nil =>
        intro acc _ _
        exact ⟨acc, rfl, fun entry hentry => absurd hentry List.not_mem_nil, fun _ _ => rfl⟩
    | cons entry entries ih =>
        intro acc hnodup hall
        rw [List.map_cons, List.nodup_cons] at hnodup
        obtain ⟨g, hg⟩ := hall entry List.mem_cons_self
        obtain ⟨groups, hrest, hin, hout⟩ := ih (acc.insert entry.1 g) hnodup.2
          fun other hother => hall other (List.mem_cons_of_mem entry hother)
        refine ⟨groups, ?_, ?_, ?_⟩
        · rw [List.foldlM_cons, hg]
          exact hrest
        · intro other hother
          obtain rfl | hother := List.mem_cons.mp hother
          · rw [hout other.1 hnodup.1, IndexMap.get_insert, if_pos rfl, hg]
          · exact hin other hother
        · intro key hkey
          rw [List.map_cons, List.mem_cons, not_or] at hkey
          rw [hout key hkey.2, IndexMap.get_insert, if_neg hkey.1]
  obtain ⟨groups, hread, hin, hout⟩ := hfold m.entries .empty m.nodup h
  refine ⟨groups, hread, ?_⟩
  intro key
  cases hkey : m.get key with
  | none =>
      rw [hout key (IndexMap.containsKey_eq_false.mp (IndexMap.get_eq_none.mp hkey))]
      rfl
  | some value => exact hin (key, value) (IndexMap.get_eq_some.mp hkey)

end Relay
