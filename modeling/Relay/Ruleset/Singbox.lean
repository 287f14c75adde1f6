import Relay.Ruleset.Values
import Relay.Text.Json

/-!
The sing-box list parser of `ruleset/parser/singbox.rs`, over the document that
the JSON crate reads a text as.
-/

namespace Relay.Ruleset

open Binary Dns Text

namespace Singbox

variable (T : NetText) (R : RegexCrate)

/-- `push_string_array`: the elements of an array of texts, or a single text,
one after the other through `cb`. -/
def pushStringArray (val : JsonValue) (ruleIdx : Nat) (field : String)
    (cb : String → List RuleEntry → Run DrsError (List RuleEntry)) (out : List RuleEntry) :
    Run DrsError (List RuleEntry) :=
  match val with
  | .array items =>
      items.zipIdx.foldlM (fun out item =>
        match item.1 with
        | .string s => cb s out
        | _ => fail (.parseError ruleIdx ("rule #" ++ toString ruleIdx ++ " `" ++ field ++ "`[" ++
            toString item.2 ++ "] is not a string"))) out
  | .string s => cb s out
  | _ => fail (.parseError ruleIdx ("rule #" ++ toString ruleIdx ++ " `" ++ field ++
      "` must be array or string"))

/-- `push_domain`. -/
def pushDomain (s : String) (ty : EntryType) (out : List RuleEntry) : List RuleEntry :=
  let trimmed := trimEndDots (trim s)
  if trimmed = "" then out
  else
    let lower := toAsciiLowercase trimmed
    if looksLikeDomain lower then out ++ [domainEntry lower ty] else out

def pushCidrStr : String → Nat → List RuleEntry → Run DrsError (List RuleEntry) := pushCidr T

/-- `push_str_port`, in `parse_port_value`. -/
def pushStrPort (ruleIdx : Nat) (s : String) (out : List RuleEntry) :
    Run DrsError (List RuleEntry) :=
  let s := trim s
  if s = "" then .ok out
  else do
    let (start, finish) ← atLine ruleIdx (parsePortRange s)
    return out ++ [portEntry start finish]

/-- A number as a port: `as_u64` and `u16::try_from`. -/
def pushNumberPort (asU64 : Option Nat) (error : DrsError) (out : List RuleEntry) :
    Run DrsError (List RuleEntry) :=
  match asU64 with
  | some n =>
      if n < 2 ^ 16 then .ok (out ++ [portEntry (BitVec.ofNat 16 n) (BitVec.ofNat 16 n)])
      else fail error
  | none => fail error

/-- One element of an array of ports; `debug` is `{:?}`. -/
def pushPortElement (debug : JsonValue → String) (ruleIdx : Nat) (out : List RuleEntry)
    (v : JsonValue) : Run DrsError (List RuleEntry) :=
  match v with
  | .number asU64 shown =>
      pushNumberPort asU64 (.parseError ruleIdx ("invalid port number `" ++ shown ++ "`")) out
  | .string s => pushStrPort ruleIdx s out
  | _ => fail (.parseError ruleIdx
      ("port array element must be number or string, got " ++ debug v))

/-- `parse_port_value`. -/
def parsePortValue (debug : JsonValue → String) (val : JsonValue) (ruleIdx : Nat)
    (out : List RuleEntry) : Run DrsError (List RuleEntry) :=
  match val with
  | .array items => items.foldlM (pushPortElement debug ruleIdx) out
  | .string s => pushStrPort ruleIdx s out
  | .number (some n) _ =>
      pushNumberPort (some n)
        (.parseError ruleIdx ("port number out of range: " ++ toString n)) out
  | _ => fail (.parseError ruleIdx "port field must be array, string, or number")

/-- The field of a rule with this name. -/
def parseField (debug : JsonValue → String) (ruleIdx : Nat) (out : List RuleEntry)
    (field : String × JsonValue) : Run DrsError (List RuleEntry) :=
  match field.1 with
  | "domain" =>
      pushStringArray field.2 ruleIdx "domain" (fun s out => .ok (pushDomain s .domain out)) out
  | "domain_suffix" =>
      pushStringArray field.2 ruleIdx "domain_suffix" (fun s out =>
        .ok (pushDomain ((stripPrefix s ".").getD s) .domainSuffix out)) out
  | "domain_keyword" =>
      pushStringArray field.2 ruleIdx "domain_keyword" (fun s out =>
        .ok (if s = "" then out else out ++ [domainEntry (toAsciiLowercase s) .domainKeyword])) out
  | "domain_regex" =>
      pushStringArray field.2 ruleIdx "domain_regex" (fun s out =>
        .ok (if (R.compiles s).isOk then out ++ [domainEntry s .domainRegex] else out)) out
  | "ip_cidr" =>
      pushStringArray field.2 ruleIdx "ip_cidr" (fun s out => pushCidrStr T s ruleIdx out) out
  | "port" => parsePortValue debug field.2 ruleIdx out
  | _ => .ok out

/-- `parse_one_rule`. -/
def parseOneRule (debug : JsonValue → String) (out : List RuleEntry) (rule : JsonValue × Nat) :
    Run DrsError (List RuleEntry) :=
  match rule.1 with
  | .object fields => fields.foldlM (parseField T R debug rule.2) out
  | _ => fail (.parseError rule.2 ("rule #" ++ toString rule.2 ++ " is not an object"))

/-- `parse` behind the JSON crate. -/
def parseDoc (debug : JsonValue → String) (doc : JsonValue) : Run DrsError (List RuleEntry) :=
  match (doc.get "rules").bind JsonValue.asArray with
  | some rules =>
      rules.zipIdx.foldlM (fun out rule => parseOneRule T R debug out (rule.1, rule.2 + 1)) []
  | none =>
      match doc with
      | .object _ => parseOneRule T R debug [] (doc, 1)
      | _ => fail (.parseError 0 "expected JSON object with `rules` array or flat rule fields")

/-- `parse`; `fromStr` is `serde_json::from_str`. -/
def parse (debug : JsonValue → String) (fromStr : String → Except String JsonValue)
    (input : String) : Run DrsError (List RuleEntry) :=
  match fromStr input with
  | .error e => fail (.parseError 0 ("JSON parse: " ++ e))
  | .ok doc => parseDoc T R debug doc

end Singbox

end Relay.Ruleset
