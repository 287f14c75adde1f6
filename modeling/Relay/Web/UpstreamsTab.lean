import Relay.Config.Json

/-!
The rule editor of the web panel, `UpstreamsTab.jsx`: the backend's groups and
rule sets as the catalogue and the rules it shows, and back.
-/

namespace Relay.Web

open Text

/-! ### Texts and loops of the language -/

/-- What `String.prototype.trim` removes. -/
def isJsWhitespace (c : Char) : Bool :=
  let n := c.toNat
  (9 ≤ n && n ≤ 13) || n == 0x20 || n == 0xa0 || n == 0x1680 || (0x2000 ≤ n && n ≤ 0x200a) ||
    n == 0x2028 || n == 0x2029 || n == 0x202f || n == 0x205f || n == 0x3000 || n == 0xfeff

def jsTrim (s : String) : String :=
  String.ofList
    ((s.toList.dropWhile isJsWhitespace).reverse.dropWhile isJsWhitespace).reverse

/-- `while (taken(i)) i += 1`, which ends when `fuel` counts what can be taken. -/
def firstFree (taken : Nat → Bool) : Nat → Nat → Nat
  | 0, i => i
  | fuel + 1, i => if taken i then firstFree taken fuel (i + 1) else i

/-- The field's text, `''` without one. -/
def textField (value : JsonValue) (name : String) : String :=
  ((value.get name).bind JsonValue.asString).getD ""

/-- The field's texts, `[]` without any. -/
def textsField (value : JsonValue) (name : String) : List String :=
  (((value.get name).bind JsonValue.asArray).getD []).filterMap JsonValue.asString

def flagField (value : JsonValue) (name : String) : Bool :=
  ((value.get name).bind JsonValue.asBool).getD false

/-- `obj[key] = value`: this key sets the prototype, which is not written out. -/
def setProperty (obj : IndexMap JsonValue) (key : String) (value : JsonValue) :
    IndexMap JsonValue :=
  if key = "__proto__" then obj else obj.insert key value

/-! ### From the backend -/

/-- `split(/[/\\]/).pop()`. -/
def lastSegment (p : String) : String :=
  String.ofList (p.toList.reverse.takeWhile fun c => c ≠ '/' ∧ c ≠ '\\').reverse

/-- `replace(/\.drs$/i, '')`. -/
def dropDrs (base : String) : String :=
  let cs := base.toList.reverse
  if (cs.take 4).map Char.toLower = ['s', 'r', 'd', '.'] then String.ofList (cs.drop 4).reverse
  else base

def basenameNoExt (p : String) : String :=
  if p = "" then ""
  else
    let base := lastSegment p
    if dropDrs base = "" then base else dropDrs base

/-- An entry of the catalogue. -/
structure CatalogEntry where
  name : String
  path : String
  deriving DecidableEq, Repr

structure DnsRule where
  rulesets : List String := []
  servers : List String := []
  strategy : String := "round_robin"
  insecure : Bool := false
  clientSubnet : Option String := none
  deriving DecidableEq, Repr

/-- A rule with `_upstream`, the group it was read from. -/
structure LoadedRule extends DnsRule where
  upstream : String
  deriving DecidableEq, Repr

/-- The two sections of the panel's configuration that the editor reads and writes. -/
structure PanelConfig where
  groups : IndexMap JsonValue
  rulesets : List JsonValue

structure Loading where
  catalogMap : IndexMap String := .empty
  pathToName : IndexMap String := .empty
  rules : List LoadedRule := []

/-- A number behind a name. -/
def numbered (name sep : String) (i : Nat) : String := name ++ sep ++ toString i

/-- The name of a path that has none yet. -/
def catalogName (catalogMap : IndexMap String) (path : String) : String :=
  let name := basenameNoExt path
  if catalogMap.containsKey name ∧ catalogMap.get name ≠ some path then
    numbered name "_" (firstFree (fun i => catalogMap.containsKey (numbered name "_" i))
      catalogMap.entries.length 2)
  else name

/-- The path's name, made up where it has none. -/
def Loading.named (s : Loading) (path : String) : String × Loading :=
  let name := (s.pathToName.get path).getD ""
  if name = "" ∧ path ≠ "" then
    let name := catalogName s.catalogMap path
    (name, { s with
      catalogMap := s.catalogMap.insert name path
      pathToName := s.pathToName.insert path name })
  else (name, s)

def loadRule (groups : IndexMap JsonValue) (name upstream : String) : LoadedRule :=
  let g := (groups.get upstream).getD (.object [])
  { rulesets := if name = "" then [] else [name]
    servers := textsField g "servers"
    strategy := if textField g "strategy" = "" then "round_robin" else textField g "strategy"
    insecure := flagField g "insecure"
    clientSubnet := (g.get "client-subnet").bind JsonValue.asString
    upstream }

/-- Neighbours of one group become one rule. -/
def addToRules (groups : IndexMap JsonValue) (rules : List LoadedRule) (name upstream : String) :
    List LoadedRule :=
  match rules.getLast? with
  | some last =>
      if last.upstream = upstream then
        if name ≠ "" ∧ name ∉ last.rulesets then
          rules.dropLast ++ [{ last with rulesets := last.rulesets ++ [name] }]
        else rules
      else rules ++ [loadRule groups name upstream]
  | none => rules ++ [loadRule groups name upstream]

def Loading.addEntry (groups : IndexMap JsonValue) (s : Loading) (entry : JsonValue) : Loading :=
  let path := textField entry "path"
  let upstream := textField entry "upstream"
  let (name, s) := s.named path
  { s with rules := addToRules groups s.rules name upstream }

def fromBackend (config : PanelConfig) : List CatalogEntry × List DnsRule :=
  let loaded := config.rulesets.foldl (Loading.addEntry config.groups) {}
  (loaded.catalogMap.entries.map fun entry => ⟨entry.1, entry.2⟩,
    loaded.rules.map LoadedRule.toDnsRule)

/-! ### To the backend -/

/-- The name a rule's group is called by where it is free. -/
def groupBase (rule : DnsRule) (index : Nat) : String :=
  let first := jsTrim (rule.rulesets.head?.getD "")
  if first = "" then "rule-" ++ toString (index + 1) else first

/-- The group's name; it counts as used from then on. -/
def groupNameForRule (rule : DnsRule) (index : Nat) (used : List String) : String :=
  let base := groupBase rule index
  let name := if base = "default" then "rule-" ++ toString (index + 1) else base
  if name ∉ used then name
  else numbered base "-" (firstFree (fun i => numbered base "-" i ∈ used) used.length 2)

def DnsRule.toGroup (rule : DnsRule) : JsonValue :=
  .object [("servers", .array (rule.servers.map .string)),
    ("strategy", .string (if rule.strategy = "" then "round_robin" else rule.strategy)),
    ("insecure", .bool rule.insecure),
    ("client-subnet", match rule.clientSubnet with
      | some subnet => if subnet = "" then .null else .string subnet
      | none => .null)]

/-- The group that stands in for a missing default. -/
def emptyGroup : JsonValue :=
  .object [("servers", .array []), ("strategy", .string "round_robin"), ("insecure", .bool false),
    ("client-subnet", .null)]

structure Commit where
  nextGroups : IndexMap JsonValue
  nextRulesets : List RulesetEntry := []
  usedNames : List String := ["default"]

/-- `Object.fromEntries` of the catalogue. -/
def pathOf (catalog : List CatalogEntry) : IndexMap String :=
  catalog.foldl (fun m entry => m.insert entry.name entry.path) .empty

/-- Entries for the rule's names; those without a path are left out. -/
def entriesOf (paths : IndexMap String) (rule : DnsRule) (gName : String) : List RulesetEntry :=
  rule.rulesets.filterMap fun rsName =>
    match paths.get rsName with
    | some path => if path = "" then none else some ⟨path, gName⟩
    | none => none

def Commit.addRule (paths : IndexMap String) (s : Commit) (rule : DnsRule × Nat) : Commit :=
  let gName := groupNameForRule rule.1 rule.2 s.usedNames
  { nextGroups := setProperty s.nextGroups gName rule.1.toGroup
    nextRulesets := s.nextRulesets ++ entriesOf paths rule.1 gName
    usedNames := gName :: s.usedNames }

def commitToConfig (config : PanelConfig) (catalog : List CatalogEntry) (dnsRules : List DnsRule) :
    PanelConfig :=
  let defaultGroup := (config.groups.get "default").getD emptyGroup
  let committed := dnsRules.zipIdx.foldl (Commit.addRule (pathOf catalog))
    { nextGroups := IndexMap.insert .empty "default" defaultGroup }
  ⟨committed.nextGroups, committed.nextRulesets.map RulesetEntry.toJson⟩

end Relay.Web
