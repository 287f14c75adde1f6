import Relay.Ruleset.Formats
import Relay.Text.Case

/-!
What an AdGuard rule is about. Every exit of the parser either takes a name,
which it checks and brings into lower case, or builds a pattern, which it only
checks; and it finds the one or the other in the same place whatever the case
of the letters is.
-/

namespace Relay.Ruleset.Adguard

open Binary Dns Text

variable {T : NetText} {R : RegexCrate}

/-- What is read of a rule, before it is checked. -/
inductive Reading where
  | nothing
  | name (x : String) (ty : EntryType)
  | pattern (p : String) (ty : EntryType)

/-- A name has to be a domain, and a pattern has to compile. -/
def Reading.isRule (R : RegexCrate) : Reading → Bool
  | .nothing => false
  | .name x _ => looksLikeDomain x
  | .pattern p _ => validateRegex R p

/-- A name is brought into lower case, and a pattern is not. -/
def Reading.entry : Reading → RuleEntry
  | .nothing => domainEntry "" .domain
  | .name x ty => domainEntry (normalizeDomainStr x) ty
  | .pattern p ty => domainEntry p ty

def Reading.rule (R : RegexCrate) (reading : Reading) : Option RuleEntry :=
  if reading.isRule R then some reading.entry else none

@[simp] theorem Reading.rule_nothing : Reading.nothing.rule R = none := rfl

@[simp] theorem Reading.rule_name (x : String) (ty : EntryType) :
    (Reading.name x ty).rule R =
      if looksLikeDomain x then some (domainEntry (normalizeDomainStr x) ty) else none := rfl

@[simp] theorem Reading.rule_pattern (p : String) (ty : EntryType) :
    (Reading.pattern p ty).rule R =
      if validateRegex R p then some (domainEntry p ty) else none := rfl

theorem looksLikeDomain_empty : looksLikeDomain "" = false := rfl

/-! ### The readings of the exits -/

def readWildcardOrPlain (s : String) (defaultType : EntryType) : Reading :=
  let host := wildcardHost s
  if ¬ contains host "*" then .name (trimEndDots host) defaultType
  else
    match singlePrefix host with
    | some rest => .name rest defaultType
    | none => .pattern (buildWildcardRegex host) .domainRegex

def readSinglePipe (isExclude hasEnd : Bool) (rest : String) : Reading :=
  let trimmed := trimEndDots (stripAnchors rest)
  if hasEnd then .name trimmed (if isExclude then .excludeDomain else .domain)
  else if trimmed = "" then .nothing
  else
    .pattern ("^" ++ regexEscape trimmed) (if isExclude then .excludeDomainRegex else .domainRegex)

def readEndAnchored (isExclude : Bool) (ruleBody : String) : Reading :=
  let body := trimEndDots (stripAnchors ruleBody)
  let ruleType : EntryType := if isExclude then .excludeDomainRegex else .domainRegex
  if contains body "*" then .pattern (buildWildcardEndAnchored body) ruleType
  else if looksLikeDomain body then
    .pattern (regexEscape (normalizeDomainStr body) ++ "$") ruleType
  else .nothing

def readBody (isExclude : Bool) (ruleBody : String) : Reading :=
  let suffixType : EntryType := if isExclude then .excludeDomainSuffix else .domainSuffix
  match stripPrefix ruleBody "||" with
  | some rest => readWildcardOrPlain (stripAnchors rest) suffixType
  | none =>
      match stripPrefix ruleBody "|" with
      | some rest => readSinglePipe isExclude (hasEnd ruleBody) rest
      | none =>
          if hasEnd ruleBody then readEndAnchored isExclude ruleBody
          else readWildcardOrPlain ruleBody suffixType

theorem singlePrefix_looksLikeDomain {host rest : String} (h : singlePrefix host = some rest) :
    looksLikeDomain rest = true := by
  unfold singlePrefix at h
  split at h
  · dsimp only at h
    split at h
    · rename_i hclean
      cases h
      exact hclean.2.2
    · cases h
  · cases h

theorem parseWildcardOrPlain_eq (s : String) (ty : EntryType) :
    parseWildcardOrPlain R s ty = (readWildcardOrPlain s ty).rule R := by
  unfold parseWildcardOrPlain readWildcardOrPlain
  dsimp only
  generalize wildcardHost s = host
  by_cases hempty : host = ""
  · subst hempty
    rw [if_pos rfl, if_pos (by decide), Reading.rule_name]
    rfl
  · rw [if_neg hempty]
    split
    · by_cases hname : looksLikeDomain (trimEndDots host) = true
      · have hne : trimEndDots host ≠ "" := by
          intro hnil
          rw [hnil, looksLikeDomain_empty] at hname
          cases hname
        rw [if_neg (by simp [hne, hname]), Reading.rule_name, if_pos hname]
      · rw [if_pos (Or.inr hname), Reading.rule_name, if_neg hname]
    · cases hsingle : singlePrefix host with
      | some rest =>
          dsimp only
          rw [Reading.rule_name, if_pos (singlePrefix_looksLikeDomain hsingle)]
      | none =>
          dsimp only
          rw [Reading.rule_pattern]

theorem parseSinglePipe_eq (isExclude hasEnd : Bool) (rest : String) :
    parseSinglePipe R isExclude hasEnd rest = (readSinglePipe isExclude hasEnd rest).rule R := by
  unfold parseSinglePipe readSinglePipe
  dsimp only
  generalize trimEndDots (stripAnchors rest) = trimmed
  by_cases hempty : trimmed = ""
  · subst hempty
    cases hasEnd with
    | true => simp [looksLikeDomain_empty]
    | false => simp
  · rw [if_neg hempty, if_neg hempty]
    cases hasEnd with
    | true => simp
    | false => simp

theorem parseEndAnchored_eq (isExclude : Bool) (ruleBody : String) :
    parseEndAnchored R isExclude ruleBody = (readEndAnchored isExclude ruleBody).rule R := by
  unfold parseEndAnchored readEndAnchored
  dsimp only
  generalize trimEndDots (stripAnchors ruleBody) = body
  by_cases hempty : body = ""
  · subst hempty
    have hstar : contains "" "*" = false := rfl
    simp [hstar, looksLikeDomain_empty]
  · rw [if_neg hempty]
    split
    · rw [Reading.rule_pattern]
    · split
      · rw [Reading.rule_pattern]
      · rw [Reading.rule_nothing]

theorem parseBody_eq (isExclude : Bool) (ruleBody : String) :
    parseBody R isExclude ruleBody = (readBody isExclude ruleBody).rule R := by
  unfold parseBody readBody
  dsimp only
  cases stripPrefix ruleBody "||" with
  | some rest => exact parseWildcardOrPlain_eq (stripAnchors rest) _
  | none =>
      dsimp only
      cases stripPrefix ruleBody "|" with
      | some rest => exact parseSinglePipe_eq isExclude (hasEnd ruleBody) rest
      | none =>
          dsimp only
          cases hasEnd ruleBody with
          | true =>
              rw [if_pos rfl, if_pos rfl]
              exact parseEndAnchored_eq isExclude ruleBody
          | false =>
              rw [if_neg Bool.false_ne_true, if_neg Bool.false_ne_true]
              exact parseWildcardOrPlain_eq ruleBody _

/-! ### In lower case -/

/-- The reading with its text in lower case. -/
def Reading.lower : Reading → Reading
  | .nothing => .nothing
  | .name x ty => .name (toAsciiLowercase x) ty
  | .pattern p ty => .pattern (toAsciiLowercase p) ty

theorem caseBlind_isAlphanum : CaseBlind Char.isAlphanum := by
  intro c
  cases hupper : c.isUpper with
  | false => rw [toLower_of_not_isUpper hupper]
  | true =>
      have hlower := isLower_toLower_of_isUpper hupper
      unfold Char.isAlphanum Char.isAlpha
      rw [hupper, hlower, Bool.or_true]
      rfl

theorem escapeRegexRange_map_toLower (cs : List Char) :
    escapeRegexRange (cs.map Char.toLower) = (escapeRegexRange cs).map Char.toLower := by
  have hdot : Caseless '.' := by decide
  have hdash : Caseless '-' := by decide
  have hlow : Caseless '_' := by decide
  unfold escapeRegexRange
  rw [List.flatMap_map, List.map_flatMap]
  congr 1
  funext c
  simp only [hdot.toLower_eq, hdash.toLower_eq, hlow.toLower_eq, caseBlind_isAlphanum c]
  split
  · rfl
  · split
    · rfl
    · split <;> rfl

/-- What `build_wildcard_regex` writes for one part. -/
def wildcardPart (before part : List Char) : List Char :=
  match before, part with
  | [], '.' :: rest =>
      "(?:[^.]+\\.)*".toList ++
        (if rest = [] then [] else "(?:\\.)?".toList ++ escapeRegexRange rest)
  | _, _ => ".*".toList ++ escapeRegexRange part

theorem wildcardParts_cons (before part : List Char) (parts : List (List Char)) :
    wildcardParts before (part :: parts) =
      wildcardPart before part ++ wildcardParts part parts := rfl

/-- Behind an empty part, a part that starts with a dot. -/
theorem wildcardPart_dot (rest : List Char) :
    wildcardPart [] ('.' :: rest) =
      "(?:[^.]+\\.)*".toList ++
        (if rest = [] then [] else "(?:\\.)?".toList ++ escapeRegexRange rest) := by
  unfold wildcardPart
  rfl

/-- Any other part. -/
theorem wildcardPart_of_ne {before part : List Char}
    (h : before ≠ [] ∨ part.head? ≠ some '.') :
    wildcardPart before part = ".*".toList ++ escapeRegexRange part := by
  unfold wildcardPart
  split
  · rcases h with h | h
    · exact absurd rfl h
    · exact absurd rfl h
  · rfl

theorem wildcardPart_map_toLower (before part : List Char) :
    wildcardPart (before.map Char.toLower) (part.map Char.toLower) =
      (wildcardPart before part).map Char.toLower := by
  have hdot : Caseless '.' := by decide
  by_cases hlabel : before = [] ∧ part.head? = some '.'
  · obtain ⟨rfl, hhead⟩ := hlabel
    obtain ⟨rest, rfl⟩ := List.head?_eq_some_iff.mp hhead
    rw [List.map_nil, List.map_cons, hdot.toLower_self, wildcardPart_dot, wildcardPart_dot,
      List.map_append]
    congr 1
    by_cases hnil : rest = []
    · rw [if_pos hnil, hnil]
      rfl
    · rw [if_neg hnil, if_neg (by simpa using hnil), escapeRegexRange_map_toLower,
        List.map_append]
      rfl
  · have hother : before ≠ [] ∨ part.head? ≠ some '.' := not_and_or.mp hlabel
    have hmapped : before.map Char.toLower ≠ [] ∨ (part.map Char.toLower).head? ≠ some '.' := by
      apply hother.imp
      · simp
      · cases part with
        | nil => simp
        | cons c rest => simp [hdot.toLower_eq]
    rw [wildcardPart_of_ne hmapped, wildcardPart_of_ne hother, escapeRegexRange_map_toLower,
      List.map_append]
    rfl

theorem wildcardParts_map_toLower (before : List Char) (parts : List (List Char)) :
    wildcardParts (before.map Char.toLower) (parts.map (List.map Char.toLower)) =
      (wildcardParts before parts).map Char.toLower := by
  induction parts generalizing before with
  | nil => rfl
  | cons part parts ih =>
      rw [List.map_cons, wildcardParts_cons, wildcardParts_cons, wildcardPart_map_toLower, ih,
        List.map_append]

theorem buildWildcardRegex_toAsciiLowercase (domain : String) :
    buildWildcardRegex (toAsciiLowercase domain) =
      toAsciiLowercase (buildWildcardRegex domain) := by
  have hstar : Caseless '*' := by decide
  unfold buildWildcardRegex
  rw [toList_toAsciiLowercase, hstar.splitOn_map_toLower]
  cases domain.toList.splitOn '*' with
  | nil => rfl
  | cons first parts =>
      rw [List.map_cons]
      dsimp only
      rw [escapeRegexRange_map_toLower, wildcardParts_map_toLower, toAsciiLowercase_ofList]
      simp

theorem buildWildcardEndAnchored_toAsciiLowercase (body : String) :
    buildWildcardEndAnchored (toAsciiLowercase body) =
      toAsciiLowercase (buildWildcardEndAnchored body) := by
  have hstar : Caseless '*' := by decide
  have hescape : ∀ parts : List (List Char),
      (parts.map (List.map Char.toLower)).map escapeRegexRange =
        (parts.map escapeRegexRange).map (List.map Char.toLower) := by
    intro parts
    rw [List.map_map, List.map_map]
    exact List.map_congr_left fun part _ => escapeRegexRange_map_toLower part
  have hjoin : ∀ parts : List (List Char),
      List.intercalate ".*".toList (parts.map (List.map Char.toLower)) =
        (List.intercalate ".*".toList parts).map Char.toLower := by
    intro parts
    induction parts with
    | nil => rfl
    | cons part parts ih =>
        cases parts with
        | nil => simp
        | cons next parts =>
            rw [List.map_cons, List.map_cons] at *
            rw [List.intercalate_cons_cons, List.intercalate_cons_cons, ih, List.map_append,
              List.map_append]
            rfl
  unfold buildWildcardEndAnchored
  rw [toList_toAsciiLowercase, hstar.splitOn_map_toLower, hescape, hjoin,
    toAsciiLowercase_ofList]
  simp

theorem regexEscape_toAsciiLowercase (s : String) :
    regexEscape (toAsciiLowercase s) = toAsciiLowercase (regexEscape s) := by
  have hmeta : CaseBlind isMetaCharacter := caseBlind_contains (forall_caseless (by decide))
  unfold regexEscape
  rw [toList_toAsciiLowercase, toAsciiLowercase_ofList, List.flatMap_map, List.map_flatMap]
  congr 2
  funext c
  rw [hmeta c]
  split <;> rfl

theorem normalizeDomainStr_toAsciiLowercase (s : String) :
    normalizeDomainStr (toAsciiLowercase s) = normalizeDomainStr s := by
  rw [normalizeDomainStr, normalizeDomainStr, ← toAsciiLowercase_trimEndDots,
    toAsciiLowercase_toAsciiLowercase]

theorem stripAnchors_toAsciiLowercase (s : String) :
    stripAnchors (toAsciiLowercase s) = toAsciiLowercase (stripAnchors s) := by
  have hslash : Caseless '/' := by decide
  have hpipe : Caseless '|' := by decide
  have hend : Caseless '^' := by decide
  simp only [stripAnchors, hslash.beforeFirst_toAsciiLowercase,
    hpipe.trimEndMatches_toAsciiLowercase, hend.beforeFirst_toAsciiLowercase,
    trim_toAsciiLowercase]

theorem wildcardHost_toAsciiLowercase (s : String) :
    wildcardHost (toAsciiLowercase s) = toAsciiLowercase (wildcardHost s) := by
  have hslash : Caseless '/' := by decide
  have hpipe : Caseless '|' := by decide
  have hend : Caseless '^' := by decide
  simp only [wildcardHost, hslash.beforeFirst_toAsciiLowercase,
    hpipe.trimEndMatches_toAsciiLowercase, hend.beforeFirst_toAsciiLowercase,
    trim_toAsciiLowercase]

theorem hasEnd_toAsciiLowercase (s : String) : hasEnd (toAsciiLowercase s) = hasEnd s := by
  have hslash : Caseless '/' := by decide
  have hpipe : Caseless '|' := by decide
  rw [hasEnd, hslash.beforeFirst_toAsciiLowercase, hpipe.trimEndMatches_toAsciiLowercase,
    contains_toAsciiLowercase (forall_caseless (by decide)), hasEnd]

theorem singlePrefix_toAsciiLowercase (host : String) :
    singlePrefix (toAsciiLowercase host) = (singlePrefix host).map toAsciiLowercase := by
  have hstar : ∀ s, contains (toAsciiLowercase s) "*" = contains s "*" :=
    contains_toAsciiLowercase (forall_caseless (by decide))
  unfold singlePrefix
  rw [stripPrefix_toAsciiLowercase (forall_caseless (by decide))]
  cases stripPrefix host "*." with
  | none => rfl
  | some rest =>
      simp only [Option.map_some, ← toAsciiLowercase_trimEndDots, ne_eq,
        toAsciiLowercase_eq_empty, hstar, looksLikeDomain_toAsciiLowercase]
      split <;> rfl

theorem readWildcardOrPlain_toAsciiLowercase (s : String) (ty : EntryType) :
    readWildcardOrPlain (toAsciiLowercase s) ty = (readWildcardOrPlain s ty).lower := by
  unfold readWildcardOrPlain
  dsimp only
  rw [wildcardHost_toAsciiLowercase, contains_toAsciiLowercase (forall_caseless (by decide)),
    ← toAsciiLowercase_trimEndDots, singlePrefix_toAsciiLowercase,
    buildWildcardRegex_toAsciiLowercase]
  split
  · rfl
  · cases singlePrefix (wildcardHost s) <;> rfl

theorem readSinglePipe_toAsciiLowercase (isExclude hasEnd : Bool) (rest : String) :
    readSinglePipe isExclude hasEnd (toAsciiLowercase rest) =
      (readSinglePipe isExclude hasEnd rest).lower := by
  unfold readSinglePipe
  dsimp only
  rw [stripAnchors_toAsciiLowercase, ← toAsciiLowercase_trimEndDots,
    regexEscape_toAsciiLowercase]
  simp only [toAsciiLowercase_eq_empty]
  split
  · rfl
  · split
    · rfl
    · rw [Reading.lower, toAsciiLowercase_append]
      rfl

theorem readEndAnchored_toAsciiLowercase (isExclude : Bool) (ruleBody : String) :
    readEndAnchored isExclude (toAsciiLowercase ruleBody) =
      (readEndAnchored isExclude ruleBody).lower := by
  unfold readEndAnchored
  dsimp only
  rw [stripAnchors_toAsciiLowercase, ← toAsciiLowercase_trimEndDots,
    contains_toAsciiLowercase (forall_caseless (by decide)), looksLikeDomain_toAsciiLowercase,
    buildWildcardEndAnchored_toAsciiLowercase, normalizeDomainStr_toAsciiLowercase]
  split
  · rfl
  · split
    · have hsame : toAsciiLowercase (normalizeDomainStr (trimEndDots (stripAnchors ruleBody))) =
          normalizeDomainStr (trimEndDots (stripAnchors ruleBody)) :=
        toAsciiLowercase_toAsciiLowercase _
      rw [Reading.lower, toAsciiLowercase_append, ← regexEscape_toAsciiLowercase, hsame]
      rfl
    · rfl

/-- The reading of a text in lower case is the reading of the text, in lower
case. -/
theorem readBody_toAsciiLowercase (isExclude : Bool) (ruleBody : String) :
    readBody isExclude (toAsciiLowercase ruleBody) = (readBody isExclude ruleBody).lower := by
  unfold readBody
  rw [stripPrefix_toAsciiLowercase (forall_caseless (by decide)), stripPrefix_toAsciiLowercase (forall_caseless (by decide)),
    hasEnd_toAsciiLowercase]
  cases stripPrefix ruleBody "||" with
  | some rest =>
      simp only [Option.map_some]
      rw [stripAnchors_toAsciiLowercase]
      exact readWildcardOrPlain_toAsciiLowercase _ _
  | none =>
      cases stripPrefix ruleBody "|" with
      | some rest => exact readSinglePipe_toAsciiLowercase isExclude _ rest
      | none =>
          dsimp only [Option.map_none]
          split
          · exact readEndAnchored_toAsciiLowercase isExclude ruleBody
          · exact readWildcardOrPlain_toAsciiLowercase ruleBody _

end Relay.Ruleset.Adguard
