import Relay.Ruleset.Entry

/-!
The AdGuard list parser of `ruleset/parser/adguard.rs`, one definition for each
form of a rule.
-/

namespace Relay.Ruleset.Adguard

open Binary Dns Text

variable (T : NetText) (R : RegexCrate)

/-- `SUPPORTED_MODIFIERS`. -/
def supportedModifiers : List String :=
  ["important", "dnsrewrite", "dnstype", "domain", "app", "network"]

/-- `normalize_domain_str`. -/
def normalizeDomainStr (s : String) : String := toAsciiLowercase (trimEndDots s)

/-- `validate_regex`. -/
def validateRegex (pattern : String) : Bool := (R.compiles pattern).isOk

/-- `is_meta_character` of `regex_syntax`. -/
def isMetaCharacter (c : Char) : Bool := "\\.+*?()|[]\x7b\x7d^$#&-~".toList.contains c

/-- `regex::escape`. -/
def regexEscape (s : String) : String :=
  String.ofList (s.toList.flatMap fun c => if isMetaCharacter c then ['\\', c] else [c])

/-- One part of the ASCII text of an IPv4 address. -/
def isOctetText (part : String) : Bool :=
  part ≠ "" && decide ((octets part).length ≤ 3) && part.toList.all Char.isDigit &&
    (parseUnsigned 255 part).isSome

/-- `looks_like_ipcidr`. -/
def looksLikeIpcidr (s : String) : Bool :=
  let s := trimEndDots s
  let parts := splitChar '.' s
  if decide (3 ≤ parts.length) && decide (parts.length ≤ 4) && parts.all isOctetText then true
  else if contains s "::" && decide ((splitChar ':' s).length ≤ 8) then
    match T.ipAddr s with
    | some (.v6 addr) => addr ≠ 0
    | _ => false
  else false

/-- `is_raw_domain_line`. -/
def isRawDomainLine (line : String) : Bool :=
  if line.toList.any (fun c => " $|^*/:!#?&[]()~@".toList.contains c) then false
  else if startsWith line "." || startsWith line "-" then false
  else if looksLikeIpcidr T line then false
  else looksLikeDomain (toAsciiLowercase line)

/-- `split_modifiers`. -/
def splitModifiers (s : String) : String × List String :=
  match splitOnce s "$" with
  | some (body, mods) => (body, (splitChar ',' mods).map trim)
  | none => (s, [])

/-- `modifiers_supported`. -/
def modifiersSupported (mods : List String) : Bool :=
  mods.all fun m =>
    let name := beforeFirst '=' m
    !startsWith name "~" && supportedModifiers.contains name

/-- `localhost_names`. -/
def localhostNames : List String := ["localhost", "localhost.localdomain"]

/-- `try_parse_hosts_line`: no hosts line, a hosts line without an entry, or
one with its entry. -/
def tryParseHostsLine (s : String) : Option (Option RuleEntry) :=
  match splitWhitespace s with
  | ipPart :: domain :: _ =>
      if (T.ipAddr ipPart).isNone then none
      else if domain = "" then some none
      else
        let lower := toAsciiLowercase domain
        if localhostNames.contains lower then some none
        else if ¬ looksLikeDomain lower then some none
        else some (some (domainEntry lower .domain))
  | _ => none

/-- `strip_scheme`. -/
def stripScheme (s : String) : String :=
  match stripPrefix s "https://" with
  | some rest => rest
  | none =>
      match stripPrefix s "http://" with
      | some rest => rest
      | none => s

/-- `strip_anchors`. -/
def stripAnchors (s : String) : String :=
  trim (beforeFirst '^' (trimEndMatches '|' (beforeFirst '/' s)))

/-- `escape_regex_range`. -/
def escapeRegexRange (s : List Char) : List Char :=
  s.flatMap fun c =>
    if c = '.' then ['\\', '.']
    else if c = '-' ∨ c = '_' then [c]
    else if c.isAlphanum then [c]
    else ['\\', c]

/-- The loop of `build_wildcard_regex` behind the first part; `before` is the
part in front of the current one. -/
def wildcardParts (before : List Char) : List (List Char) → List Char
  | [] => []
  | part :: parts =>
      (match before, part with
        | [], '.' :: rest =>
            "(?:[^.]+\\.)*".toList ++
              (if rest = [] then [] else "(?:\\.)?".toList ++ escapeRegexRange rest)
        | _, _ => ".*".toList ++ escapeRegexRange part) ++ wildcardParts part parts

/-- `build_wildcard_regex`. -/
def buildWildcardRegex (domain : String) : String :=
  match domain.toList.splitOn '*' with
  | [] => "^$"
  | first :: parts =>
      String.ofList ('^' :: escapeRegexRange first ++ wildcardParts first parts ++ ['$'])

/-- `build_wildcard_end_anchored`. -/
def buildWildcardEndAnchored (body : String) : String :=
  String.ofList
    (List.intercalate ".*".toList ((body.toList.splitOn '*').map escapeRegexRange) ++ ['$'])

/-- The host part that `parse_wildcard_or_plain` looks at. -/
def wildcardHost (s : String) : String :=
  trim (trimEndMatches '|' (beforeFirst '^' (beforeFirst '/' s)))

/-- What follows the single wildcard `*.` of a suffix rule. -/
def singlePrefix (host : String) : Option String :=
  match stripPrefix host "*." with
  | some rest =>
      let restClean := trimEndDots rest
      if restClean ≠ "" ∧ ¬ contains restClean "*" ∧ looksLikeDomain restClean then some restClean
      else none
  | none => none

/-- `parse_wildcard_or_plain`. -/
def parseWildcardOrPlain (s : String) (defaultType : EntryType) : Option RuleEntry :=
  let host := wildcardHost s
  if host = "" then none
  else if ¬ contains host "*" then
    let trimmed := trimEndDots host
    if trimmed = "" ∨ ¬ looksLikeDomain trimmed then none
    else some (domainEntry (normalizeDomainStr trimmed) defaultType)
  else
    match singlePrefix host with
    | some rest => some (domainEntry (normalizeDomainStr rest) defaultType)
    | none =>
        let pattern := buildWildcardRegex host
        if validateRegex R pattern then some (domainEntry pattern .domainRegex) else none

/-- A `/regex/` rule, behind its first slash. -/
def parseRegexRule (isExclude : Bool) (rest : String) : Option RuleEntry :=
  match splitOnce rest "/" with
  | some (pattern, _) =>
      if pattern ≠ "" ∧ validateRegex R pattern then
        some (domainEntry pattern (if isExclude then .excludeDomainRegex else .domainRegex))
      else none
  | none => none

/-- A `^` in the host part. -/
def hasEnd (ruleBody : String) : Bool :=
  contains (trimEndMatches '|' (beforeFirst '/' ruleBody)) "^"

/-- A rule behind a single `|`. -/
def parseSinglePipe (isExclude hasEnd : Bool) (rest : String) : Option RuleEntry :=
  let trimmed := trimEndDots (stripAnchors rest)
  if trimmed = "" then none
  else if hasEnd then
    if looksLikeDomain trimmed then
      some (domainEntry (normalizeDomainStr trimmed)
        (if isExclude then .excludeDomain else .domain))
    else none
  else
    let pattern := "^" ++ regexEscape trimmed
    if validateRegex R pattern then
      some (domainEntry pattern (if isExclude then .excludeDomainRegex else .domainRegex))
    else none

/-- A rule with `^` and no pipe in front. -/
def parseEndAnchored (isExclude : Bool) (ruleBody : String) : Option RuleEntry :=
  let body := trimEndDots (stripAnchors ruleBody)
  let ruleType : EntryType := if isExclude then .excludeDomainRegex else .domainRegex
  if body = "" then none
  else if contains body "*" then
    let pattern := buildWildcardEndAnchored body
    if validateRegex R pattern then some (domainEntry pattern ruleType) else none
  else if looksLikeDomain body then
    let pattern := regexEscape (normalizeDomainStr body) ++ "$"
    if validateRegex R pattern then some (domainEntry pattern ruleType) else none
  else none

/-- The forms of a rule behind its modifiers and scheme. -/
def parseBody (isExclude : Bool) (ruleBody : String) : Option RuleEntry :=
  let suffixType : EntryType := if isExclude then .excludeDomainSuffix else .domainSuffix
  match stripPrefix ruleBody "||" with
  | some rest => parseWildcardOrPlain R (stripAnchors rest) suffixType
  | none =>
      match stripPrefix ruleBody "|" with
      | some rest => parseSinglePipe R isExclude (hasEnd ruleBody) rest
      | none =>
          if hasEnd ruleBody then parseEndAnchored R isExclude ruleBody
          else parseWildcardOrPlain R ruleBody suffixType

/-- What becomes of a line. -/
inductive Parsed where
  /-- Not counted at all. -/
  | empty
  /-- Counted, but neither a rule nor reported. -/
  | passed
  | skipped
  | entry (e : RuleEntry)

def Parsed.ofRule : Option RuleEntry → Parsed
  | some e => .entry e
  | none => .skipped

theorem Parsed.eq_some_of_ofRule {rule : Option RuleEntry} {e : RuleEntry}
    (h : Parsed.ofRule rule = .entry e) : rule = some e := by
  cases rule with
  | none => cases h
  | some e' =>
      cases h
      rfl

/-- A line without its `@@`. -/
def parseRule (isExclude : Bool) (workingLine : String) : Parsed :=
  match stripPrefix workingLine "/" with
  | some rest => .ofRule (parseRegexRule R isExclude rest)
  | none =>
      let (ruleBody, modifiers) := splitModifiers workingLine
      if ¬ modifiersSupported modifiers then .skipped
      else
        match tryParseHostsLine T ruleBody with
        | some (some e) => .entry e
        | some none => .passed
        | none => .ofRule (parseBody R isExclude (stripScheme ruleBody))

/-- Comments and rules about the content of pages. -/
def isComment (line : String) : Bool :=
  startsWith line "!" || startsWith line "#" || contains line "##" || contains line "#@#" ||
    contains line "#?#"

/-- A line, trimmed. -/
def parseLine (line : String) : Parsed :=
  if line = "" then .empty
  else if isComment line then .passed
  else if isRawDomainLine T line then .entry (domainEntry (normalizeDomainStr line) .domain)
  else
    match stripPrefix line "@@" with
    | some workingLine => parseRule T R true workingLine
    | none => parseRule T R false line

structure AdGuardParseReport where
  entries : List RuleEntry := []
  totalLines : Nat := 0
  ignoredLines : Nat := 0
  ignoredSamples : List (Nat × String) := []

/-- `record_skip`. -/
def recordSkip (report : AdGuardParseReport) (lineNo : Nat) (line : String) :
    AdGuardParseReport :=
  { report with
    ignoredLines := report.ignoredLines + 1
    ignoredSamples :=
      if report.ignoredSamples.length < 10 then report.ignoredSamples ++ [(lineNo, line)]
      else report.ignoredSamples }

/-- The body of the loop of `parse`, for the line `lineNo`. -/
def parseInto (report : AdGuardParseReport) (numbered : String × Nat) : AdGuardParseReport :=
  let line := trim numbered.1
  let counted := { report with totalLines := report.totalLines + 1 }
  match parseLine T R line with
  | .empty => report
  | .passed => counted
  | .skipped => recordSkip counted (numbered.2 + 1) line
  | .entry e => { counted with entries := counted.entries ++ [e] }

/-- `adguard::parse`, on the lines of its input. -/
def parseLines (input : List String) : AdGuardParseReport :=
  input.zipIdx.foldl (parseInto T R) {}

def parse (input : String) : AdGuardParseReport := parseLines T R (lines input)

end Relay.Ruleset.Adguard
