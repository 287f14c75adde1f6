import Relay.Ruleset.Values

/-!
The mihomo list parser of `ruleset/parser/mihomo.rs`, over the document that
the YAML crate reads a text as.
-/

namespace Relay.Ruleset

open Binary Dns Text

/-- A `serde_yaml::Value`. Of a null, a boolean and a number nothing is read
but that they are no text. -/
inductive YamlValue where
  | scalar
  | string (s : String)
  | sequence (items : List YamlValue)
  | mapping (fields : List (YamlValue × YamlValue))
  | tagged (tag : String) (value : YamlValue)

/-- `untag_ref`. -/
def YamlValue.untag : YamlValue → YamlValue
  | .tagged _ value => value.untag
  | value => value

def YamlValue.asStr (value : YamlValue) : Option String :=
  match value.untag with
  | .string s => some s
  | _ => none

def YamlValue.asSequence (value : YamlValue) : Option (List YamlValue) :=
  match value.untag with
  | .sequence items => some items
  | _ => none

/-- The key of a field is this text, and no tagged one. -/
def YamlValue.isKey (name : String) : YamlValue → Bool
  | .string s => s == name
  | _ => false

/-- `value.get(name)`. -/
def YamlValue.get (value : YamlValue) (name : String) : Option YamlValue :=
  match value.untag with
  | .mapping fields => (fields.find? fun field => field.1.isKey name).map Prod.snd
  | _ => none

namespace Mihomo

inductive Behavior where
  | domain
  | ipCidr
  | classical
  | auto
  deriving DecidableEq, Repr

/-- `Behavior::parse`. -/
def Behavior.parse (s : String) : Run DrsError Behavior :=
  let name := toAsciiLowercase (trim s)
  if name = "domain" then .ok .domain
  else if name = "ipcidr" then .ok .ipCidr
  else if name = "classical" then .ok .classical
  else if name = "" then .ok .auto
  else fail (.parseError 0 ("unknown behavior: " ++ name))

variable (T : NetText) (R : RegexCrate)

/-- A name without its dots at the end, in lower case, if it is a domain. -/
def pushName (s : String) (ty : EntryType) (out : List RuleEntry) : List RuleEntry :=
  let lower := toAsciiLowercase (trimEndDots s)
  if looksLikeDomain lower then out ++ [domainEntry lower ty] else out

/-- `push_domain_entry`. -/
def pushDomainEntry (s : String) (out : List RuleEntry) : List RuleEntry :=
  let s := trim s
  if s = "" then out else pushName s .domain out

def pushCidrStr : String → Nat → List RuleEntry → Run DrsError (List RuleEntry) := pushCidr T

/-- `push_ipcidr_entry`. -/
def pushIpcidrEntry (s : String) (lineNo : Nat) (out : List RuleEntry) :
    Run DrsError (List RuleEntry) :=
  let s := trim s
  if s = "" then .ok out else pushCidrStr T s lineNo out

/-- `push_port_str`. -/
def pushPortStr (s : String) (lineNo : Nat) (out : List RuleEntry) :
    Run DrsError (List RuleEntry) := do
  let (start, finish) ← atLine lineNo (parsePortRange s)
  return out ++ [portEntry start finish]

/-- `looks_like_ipv4_cidr`. -/
def looksLikeIpv4Cidr (s : String) : Bool :=
  match splitOnce s "/" with
  | none => false
  | some (addr, bits) => (ipv4Addr T addr).isSome && (parseUnsigned 255 bits).isSome

/-- `is_bare_classical_keyword`. -/
def isBareClassicalKeyword (s : String) : Bool :=
  if s.toList.any (fun c => ".:/,".toList.contains c) then false
  else ["MATCH", "DIRECT", "REJECT", "PASS", "REJECT-DROP", "COMPATIBLE"].contains s

/-- `push_typed_line`. -/
def pushTypedLine (ty value : String) (lineNo : Nat) (out : List RuleEntry) :
    Run DrsError (List RuleEntry) :=
  match toAsciiUppercase ty with
  | "DOMAIN" => .ok (pushName value .domain out)
  | "DOMAIN-SUFFIX" => .ok (pushName value .domainSuffix out)
  | "DOMAIN-KEYWORD" =>
      .ok (if value = "" then out else out ++ [domainEntry (toAsciiLowercase value) .domainKeyword])
  | "DOMAIN-REGEX" =>
      .ok (if (R.compiles value).isOk then out ++ [domainEntry value .domainRegex] else out)
  | "IP-CIDR" => pushCidrStr T value lineNo out
  | "IP-CIDR6" => pushCidrStr T value lineNo out
  | "PORT" => pushPortStr value lineNo out
  | _ => .ok out

/-- The text behind the first of the three suffix marks that it starts with. -/
def stripSuffixMark (s : String) : Option String :=
  ((stripPrefix s "+.").orElse fun _ => stripPrefix s "*.").orElse fun _ => stripPrefix s "."

/-- The `keyword:` form, when a keyword follows. -/
def keywordOf (s : String) : Option String :=
  (stripPrefix s "keyword:").filter (· ≠ "")

/-- `push_classical_or_auto`. -/
def pushClassicalOrAuto (s : String) (lineNo : Nat) (behavior : Behavior) (out : List RuleEntry) :
    Run DrsError (List RuleEntry) :=
  match splitOnce s "," with
  | some (ty, rest) => pushTypedLine T R (trim ty) (trim (beforeFirst ',' (trim rest))) lineNo out
  | none =>
      match stripSuffixMark s with
      | some rest => .ok (pushName rest .domainSuffix out)
      | none =>
          match keywordOf s with
          | some keyword => .ok (out ++ [domainEntry (toAsciiLowercase keyword) .domainKeyword])
          | none =>
              if behavior = .auto then
                if isBareClassicalKeyword s then .ok out
                else if (contains s "/" && (ipv4Addr T s).isSome) || looksLikeIpv4Cidr T s then
                  pushCidrStr T s lineNo out
                else if contains s ":" && contains s "/" then pushCidrStr T s lineNo out
                else .ok (pushName s .domain out)
              else .ok out

/-- One element of the payload, with its index. -/
def pushItem (behavior : Behavior) (out : List RuleEntry) (item : YamlValue × Nat) :
    Run DrsError (List RuleEntry) :=
  let lineNo := item.2 + 1
  match item.1.asStr with
  | none => .ok out
  | some text =>
      let s := trim text
      if s = "" then .ok out
      else
        match behavior with
        | .domain => .ok (pushDomainEntry s out)
        | .ipCidr => pushIpcidrEntry T s lineNo out
        | .classical | .auto => pushClassicalOrAuto T R s lineNo behavior out

/-- `parse_with_behavior` behind the YAML crate. -/
def parseDoc (doc : YamlValue) (behavior : Behavior) : Run DrsError (List RuleEntry) := do
  let effective ← match (doc.get "behavior").bind YamlValue.asStr with
    | some b => Behavior.parse b
    | none => .ok behavior
  match (doc.get "payload").bind YamlValue.asSequence with
  | none => fail (.parseError 0 "missing or invalid 'payload' list in YAML")
  | some payload => payload.zipIdx.foldlM (pushItem T R effective) []

/-- `parse_with_behavior`; `fromStr` is `serde_yaml::from_str`. -/
def parseWithBehavior (fromStr : String → Except String YamlValue) (input : String)
    (behavior : Behavior) : Run DrsError (List RuleEntry) :=
  match fromStr input with
  | .error e => fail (.parseError 0 ("YAML parse: " ++ e))
  | .ok doc => parseDoc T R doc behavior

def parse (fromStr : String → Except String YamlValue) (input : String) :
    Run DrsError (List RuleEntry) :=
  parseWithBehavior T R fromStr input .auto

end Mihomo

end Relay.Ruleset
