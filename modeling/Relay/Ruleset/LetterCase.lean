import Relay.Ruleset.Reading

/-!
The letter case and the dot at the end of an AdGuard line. Names are brought
into lower case at every exit, but a pattern keeps the capitals of the text it
was built from, a scheme is only known in lower case, and a plain name with a
dot at its end misses the exit for plain names.
-/

namespace Relay.Ruleset.Adguard

open Binary Dns Text

variable {T : NetText} {R : RegexCrate}

/-! ### Readings that keep their rule -/

/-- A pattern has no capitals, or does not compile with and without them. -/
def Reading.CaseFree (R : RegexCrate) : Reading → Prop
  | .pattern p _ =>
      p.toList.any Char.isUpper = false ∨
        (validateRegex R p = false ∧ validateRegex R (toAsciiLowercase p) = false)
  | _ => True

theorem Reading.rule_lower_iff (reading : Reading) :
    reading.rule R = reading.lower.rule R ↔ reading.CaseFree R := by
  cases reading with
  | nothing => simp [Reading.lower, Reading.CaseFree]
  | name x ty =>
      simp [Reading.lower, Reading.CaseFree, looksLikeDomain_toAsciiLowercase,
        normalizeDomainStr_toAsciiLowercase]
  | pattern p ty =>
      rw [Reading.lower, Reading.CaseFree, Reading.rule_pattern, Reading.rule_pattern,
        ← toAsciiLowercase_eq_iff]
      constructor
      · intro hsame
        by_cases hlower : toAsciiLowercase p = p
        · exact Or.inl hlower
        · -- an entry would have the pattern as it is written
          cases hvalid : validateRegex R p with
          | true =>
              rw [hvalid, if_pos rfl] at hsame
              split at hsame
              · have hdomain := congrArg RuleEntry.domain (Option.some.inj hsame)
                exact absurd hdomain.symm hlower
              · cases hsame
          | false =>
              rw [hvalid, if_neg Bool.false_ne_true] at hsame
              split at hsame
              · cases hsame
              · rename_i hinvalid
                exact Or.inr ⟨rfl, by simpa using hinvalid⟩
      · rintro (hlower | ⟨hvalid, hinvalid⟩)
        · rw [hlower]
        · rw [hvalid, hinvalid]
          rfl

/-- What is read behind the slash of a pattern. -/
def readSlash (isExclude : Bool) (rest : String) : Reading :=
  match splitOnce rest "/" with
  | some (pattern, _) =>
      if pattern = "" then .nothing
      else .pattern pattern (if isExclude then .excludeDomainRegex else .domainRegex)
  | none => .nothing

theorem parseRegexRule_eq (isExclude : Bool) (rest : String) :
    parseRegexRule R isExclude rest = (readSlash isExclude rest).rule R := by
  unfold parseRegexRule readSlash
  cases splitOnce rest "/" with
  | none => rfl
  | some parts =>
      dsimp only
      by_cases hempty : parts.1 = ""
      · simp [hempty]
      · simp [hempty]

theorem readSlash_toAsciiLowercase (isExclude : Bool) (rest : String) :
    readSlash isExclude (toAsciiLowercase rest) = (readSlash isExclude rest).lower := by
  unfold readSlash
  rw [splitOnce_toAsciiLowercase (forall_caseless (by decide))]
  cases splitOnce rest "/" with
  | none => rfl
  | some parts =>
      dsimp only [Option.map_some, Prod.map]
      simp only [toAsciiLowercase_eq_empty]
      split <;> rfl

/-! ### The scheme -/

/-- The text behind a scheme. -/
def schemeRest (s : String) : Option String :=
  (stripPrefix s "https://").orElse fun _ => stripPrefix s "http://"

theorem stripScheme_eq (s : String) : stripScheme s = (schemeRest s).getD s := by
  unfold stripScheme schemeRest
  cases stripPrefix s "https://" with
  | some rest => rfl
  | none => cases stripPrefix s "http://" <;> rfl

theorem schemeRest_eq_some {s rest : String} (h : schemeRest s = some rest) :
    s = "https://" ++ rest ∨ s = "http://" ++ rest := by
  unfold schemeRest at h
  cases hhttps : stripPrefix s "https://" with
  | some r =>
      rw [hhttps] at h
      cases h
      exact Or.inl (stripPrefix_eq_some hhttps)
  | none =>
      rw [hhttps] at h
      exact Or.inr (stripPrefix_eq_some h)

/-- A scheme is still there in lower case. -/
theorem schemeRest_toAsciiLowercase {s rest : String} (h : schemeRest s = some rest) :
    schemeRest (toAsciiLowercase s) = some (toAsciiLowercase rest) := by
  have hhttps : toAsciiLowercase "https://" = "https://" := rfl
  have hhttp : toAsciiLowercase "http://" = "http://" := rfl
  rcases schemeRest_eq_some h with rfl | rfl
  · rw [toAsciiLowercase_append, hhttps, schemeRest, stripPrefix_append]
    rfl
  · have hnone : stripPrefix ("http://" ++ toAsciiLowercase rest) "https://" = none := by
      rw [stripPrefix, String.toList_append]
      rfl
    rw [toAsciiLowercase_append, hhttp, schemeRest, hnone, stripPrefix_append]
    rfl

/-- A text that still has its scheme is read as the name of the scheme, with a
colon. -/
theorem readBody_scheme (isExclude : Bool) {s rest : String} (h : schemeRest s = some rest) :
    ∃ x ty, readBody isExclude s = .name x ty ∧ looksLikeDomain x = false := by
  have hread : ∀ front : String, front = "https:" ∨ front = "http:" →
      readBody isExclude (front ++ ("//" ++ rest)) =
        .name front (if isExclude then .excludeDomainSuffix else .domainSuffix) := by
    intro front hfront
    have hhead : (front ++ ("//" ++ rest)).toList.head? ≠ some '|' := by
      rw [String.toList_append]
      rcases hfront with rfl | rfl <;> simp
    have hbefore : beforeFirst '/' (front ++ ("//" ++ rest)) = front := by
      have hback : ("//" ++ rest).toList = '/' :: '/' :: rest.toList := by
        rw [String.toList_append]
        rfl
      apply beforeFirst_append hback
      rcases hfront with rfl | rfl <;> decide
    have hend : hasEnd (front ++ ("//" ++ rest)) = false := by
      rw [hasEnd, hbefore]
      rcases hfront with rfl | rfl <;> rfl
    have hhost : wildcardHost (front ++ ("//" ++ rest)) = front := by
      rw [wildcardHost, hbefore]
      rcases hfront with rfl | rfl <;> rfl
    rw [readBody, stripPrefix_eq_none rfl hhead, stripPrefix_eq_none rfl hhead]
    dsimp only
    rw [hend, if_neg Bool.false_ne_true, readWildcardOrPlain, hhost]
    rcases hfront with rfl | rfl <;> rfl
  rcases schemeRest_eq_some h with rfl | rfl
  · rw [show "https://" = "https:" ++ "//" from rfl, String.append_assoc]
    exact ⟨_, _, hread "https:" (Or.inl rfl), rfl⟩
  · rw [show "http://" = "http:" ++ "//" from rfl, String.append_assoc]
    exact ⟨_, _, hread "http:" (Or.inr rfl), rfl⟩

/-! ### A line -/

/-- Whether the line is an exception, and the line without its `@@`. -/
def workingLine (line : String) : Bool × String :=
  match stripPrefix line "@@" with
  | some rest => (true, rest)
  | none => (false, line)

/-- The rule behind `@@` is the same in lower case: it is a hosts line, or its
reading keeps its rule, or it makes no rule although its scheme is written
with capitals. -/
def RuleCaseFree (T : NetText) (R : RegexCrate) (isExclude : Bool) (body : String) : Prop :=
  match stripPrefix body "/" with
  | some rest => (readSlash isExclude rest).CaseFree R
  | none =>
      (tryParseHostsLine T body).isSome = true ∨
        match schemeRest body, schemeRest (toAsciiLowercase body) with
        | none, some rest => (readBody isExclude rest).isRule R = false
        | _, _ => (readBody isExclude (stripScheme body)).CaseFree R

/-- The line makes the same entry in lower case. -/
def CaseFree (T : NetText) (R : RegexCrate) (line : String) : Prop :=
  isComment line = true ∨ isRawDomainLine T line = true ∨
    RuleCaseFree T R (workingLine line).1 (workingLine line).2

/-- The case of the hexadecimal digits of an address is of no account. -/
def IgnoresCase (T : NetText) : Prop :=
  ∀ s, T.ipAddr (toAsciiLowercase s) = T.ipAddr s

theorem isOctetText_toAsciiLowercase (part : String) :
    isOctetText (toAsciiLowercase part) = isOctetText part := by
  have hall : (toAsciiLowercase part).toList.all Char.isDigit = part.toList.all Char.isDigit := by
    rw [toList_toAsciiLowercase, List.all_map, caseBlind_isDigit.comp]
  cases hdigits : part.toList.all Char.isDigit with
  | false =>
      unfold isOctetText
      rw [hall, hdigits, Bool.and_false, Bool.and_false]
      rfl
  | true =>
      rw [toAsciiLowercase_eq_self]
      rw [List.any_eq_false]
      intro c hc
      have hdigit := isDigit_iff.mp (List.all_eq_true.mp hdigits c hc)
      rw [isUpper_iff]
      omega

theorem looksLikeIpcidr_toAsciiLowercase (hT : IgnoresCase T) (s : String) :
    looksLikeIpcidr T (toAsciiLowercase s) = looksLikeIpcidr T s := by
  have hdot : Caseless '.' := by decide
  have hcolon : Caseless ':' := by decide
  have hoctets : ∀ parts : List String,
      (parts.map toAsciiLowercase).all isOctetText = parts.all isOctetText := by
    intro parts
    rw [List.all_map]
    congr 1
    exact funext isOctetText_toAsciiLowercase
  unfold looksLikeIpcidr
  dsimp only
  rw [← toAsciiLowercase_trimEndDots, hdot.splitChar_toAsciiLowercase,
    hcolon.splitChar_toAsciiLowercase, List.length_map, List.length_map, hoctets,
    contains_toAsciiLowercase (forall_caseless (by decide)), hT]

theorem isRawDomainLine_toAsciiLowercase (hT : IgnoresCase T) (line : String) :
    isRawDomainLine T (toAsciiLowercase line) = isRawDomainLine T line := by
  have hspecial : CaseBlind " $|^*/:!#?&[]()~@".toList.contains :=
    caseBlind_contains (forall_caseless (by decide))
  unfold isRawDomainLine
  rw [toList_toAsciiLowercase, List.any_map, hspecial.comp,
    startsWith_toAsciiLowercase (forall_caseless (by decide)), startsWith_toAsciiLowercase (forall_caseless (by decide)),
    looksLikeIpcidr_toAsciiLowercase hT, toAsciiLowercase_toAsciiLowercase]

theorem isComment_toAsciiLowercase (line : String) :
    isComment (toAsciiLowercase line) = isComment line := by
  unfold isComment
  rw [startsWith_toAsciiLowercase (forall_caseless (by decide)), startsWith_toAsciiLowercase (forall_caseless (by decide)),
    contains_toAsciiLowercase (forall_caseless (by decide)), contains_toAsciiLowercase (forall_caseless (by decide)),
    contains_toAsciiLowercase (forall_caseless (by decide))]

theorem tryParseHostsLine_toAsciiLowercase (hT : IgnoresCase T) (s : String) :
    tryParseHostsLine T (toAsciiLowercase s) = tryParseHostsLine T s := by
  unfold tryParseHostsLine
  rw [splitWhitespace_toAsciiLowercase]
  match splitWhitespace s with
  | [] => rfl
  | [_] => rfl
  | ipPart :: domain :: _ =>
      rw [List.map_cons, List.map_cons]
      dsimp only
      rw [hT, toAsciiLowercase_toAsciiLowercase]
      simp only [toAsciiLowercase_eq_empty]

/-- The entry of what becomes of a line. -/
def Parsed.toEntry : Parsed → Option RuleEntry
  | .entry e => some e
  | _ => none

theorem Parsed.toEntry_ofRule (rule : Option RuleEntry) : (Parsed.ofRule rule).toEntry = rule := by
  cases rule <;> rfl

theorem lineEntry_eq_toEntry (raw : String) :
    lineEntry T R raw = (parseLine T R (trim raw)).toEntry := by
  unfold lineEntry Parsed.toEntry
  cases parseLine T R (trim raw) <;> rfl

theorem splitModifiers_eq {s : String} (h : '$' ∉ s.toList) : splitModifiers s = (s, []) := by
  rw [splitModifiers, splitOnce_eq_none rfl h]

/-- A rule without modifiers: a pattern, a hosts line or what is read of the
text behind its scheme. -/
theorem parseRule_toEntry (isExclude : Bool) {body : String} (h : '$' ∉ body.toList) :
    (parseRule T R isExclude body).toEntry =
      match stripPrefix body "/" with
      | some rest => (readSlash isExclude rest).rule R
      | none =>
          match tryParseHostsLine T body with
          | some entry => entry
          | none => (readBody isExclude (stripScheme body)).rule R := by
  unfold parseRule
  cases stripPrefix body "/" with
  | some rest => exact (Parsed.toEntry_ofRule _).trans (parseRegexRule_eq isExclude rest)
  | none =>
      dsimp only
      rw [splitModifiers_eq h]
      dsimp only
      rw [if_neg (by decide)]
      cases tryParseHostsLine T body with
      | some entry => cases entry <;> rfl
      | none => exact (Parsed.toEntry_ofRule _).trans (parseBody_eq isExclude _)

/-- With its capitals a scheme is taken for a name, which is no domain. -/
theorem readBody_rule_of_scheme (isExclude : Bool) {body rest : String}
    (h : schemeRest (toAsciiLowercase body) = some rest) :
    (readBody isExclude body).rule R = none := by
  obtain ⟨x, ty, hread, hname⟩ := readBody_scheme isExclude h
  rw [readBody_toAsciiLowercase] at hread
  cases hbody : readBody isExclude body with
  | nothing => rfl
  | pattern p pty =>
      rw [hbody] at hread
      cases hread
  | name y yty =>
      rw [hbody] at hread
      cases hread
      rw [looksLikeDomain_toAsciiLowercase] at hname
      rw [Reading.rule_name, hname]
      rfl

/-- The rule behind `@@` makes the same entry in lower case if and only if its
reading says so. -/
theorem parseRule_lower_iff (hT : IgnoresCase T) (isExclude : Bool) {body : String}
    (h : '$' ∉ body.toList) :
    (parseRule T R isExclude body).toEntry =
        (parseRule T R isExclude (toAsciiLowercase body)).toEntry ↔
      RuleCaseFree T R isExclude body := by
  have hdollar : Caseless '$' := by decide
  rw [parseRule_toEntry isExclude h,
    parseRule_toEntry isExclude (mt hdollar.mem_toAsciiLowercase.mp h), RuleCaseFree,
    stripPrefix_toAsciiLowercase (forall_caseless (by decide)), tryParseHostsLine_toAsciiLowercase hT]
  cases stripPrefix body "/" with
  | some rest =>
      rw [Option.map_some]
      dsimp only
      rw [readSlash_toAsciiLowercase]
      exact Reading.rule_lower_iff (readSlash isExclude rest)
  | none =>
      rw [Option.map_none]
      dsimp only
      cases tryParseHostsLine T body with
      | some entry => simp
      | none =>
          rw [Option.isSome_none, stripScheme_eq, stripScheme_eq]
          dsimp only
          simp only [Bool.false_eq_true, false_or]
          cases hscheme : schemeRest body with
          | some rest =>
              rw [schemeRest_toAsciiLowercase hscheme, Option.getD_some, Option.getD_some,
                readBody_toAsciiLowercase]
              exact Reading.rule_lower_iff (readBody isExclude rest)
          | none =>
              cases hlower : schemeRest (toAsciiLowercase body) with
              | none =>
                  dsimp only
                  rw [Option.getD_none, Option.getD_none, readBody_toAsciiLowercase]
                  exact Reading.rule_lower_iff (readBody isExclude body)
              | some rest =>
                  have hrule : (readBody isExclude body).rule R = none :=
                    readBody_rule_of_scheme isExclude hlower
                  dsimp only
                  rw [Option.getD_none, Option.getD_some, hrule, Reading.rule]
                  cases (readBody isExclude rest).isRule R with
                  | false => simp
                  | true => simp

theorem workingLine_toAsciiLowercase (line : String) :
    workingLine (toAsciiLowercase line) =
      ((workingLine line).1, toAsciiLowercase (workingLine line).2) := by
  unfold workingLine
  rw [stripPrefix_toAsciiLowercase (forall_caseless (by decide))]
  cases stripPrefix line "@@" <;> rfl

theorem mem_workingLine {line : String} {c : Char} (h : c ∈ (workingLine line).2.toList) :
    c ∈ line.toList := by
  unfold workingLine at h
  cases hstrip : stripPrefix line "@@" with
  | none => rwa [hstrip] at h
  | some rest =>
      rw [hstrip] at h
      rw [stripPrefix_eq_some hstrip, String.toList_append]
      exact List.mem_append_right _ h

/-- A trimmed line that is neither a comment nor a plain name is a rule. -/
theorem parseLine_toEntry (line : String) :
    (parseLine T R line).toEntry =
      if isComment line then none
      else if isRawDomainLine T line then some (domainEntry (normalizeDomainStr line) .domain)
      else (parseRule T R (workingLine line).1 (workingLine line).2).toEntry := by
  unfold parseLine workingLine
  by_cases hempty : line = ""
  · subst hempty
    rw [if_pos rfl]
    symm
    have hcomment : isComment "" = false := by decide
    have hraw : isRawDomainLine T "" = false := rfl
    have hstrip : stripPrefix "" "@@" = none := by decide
    rw [hcomment, hraw, hstrip]
    dsimp only
    rw [if_neg Bool.false_ne_true, if_neg Bool.false_ne_true,
      parseRule_toEntry false (by decide)]
    rfl
  · rw [if_neg hempty]
    split
    · rfl
    · split
      · rfl
      · cases stripPrefix line "@@" <;> rfl

theorem parseLine_lower_iff (hT : IgnoresCase T) {line : String}
    (h : isComment line = true ∨ '$' ∉ line.toList) :
    (parseLine T R line).toEntry = (parseLine T R (toAsciiLowercase line)).toEntry ↔
      CaseFree T R line := by
  rw [parseLine_toEntry, parseLine_toEntry, isComment_toAsciiLowercase,
    isRawDomainLine_toAsciiLowercase hT, normalizeDomainStr_toAsciiLowercase,
    workingLine_toAsciiLowercase, CaseFree]
  cases hcomment : isComment line with
  | true => simp
  | false =>
      have hdollar : '$' ∉ line.toList := by simpa [hcomment] using h
      cases isRawDomainLine T line with
      | true => simp
      | false =>
          have hrule := parseRule_lower_iff (R := R) hT (workingLine line).1
            (mt mem_workingLine hdollar)
          simpa using hrule

/-- The entries of one line. -/
theorem parse_entries_of_line {line : String} (h : '\n' ∉ line.toList) :
    (parse T R line).entries = (lineEntry T R line).toList := by
  rw [parse, parseLines_entries]
  by_cases hempty : line = ""
  · subst hempty
    rfl
  · rw [lines_eq_singleton hempty h, List.filterMap_cons]
    cases lineEntry T R line <;> rfl

/-! ### A dot at the end -/

/-- A plain name is taken at the first exit unless it starts with a dash or
looks like an address. -/
theorem isRawDomainLine_of_looksLikeDomain {d : String} (hd : looksLikeDomain d = true) :
    isRawDomainLine T d = (!startsWith d "-" && !looksLikeIpcidr T d) := by
  have hname : IsName d := by
    refine isName_of_looksLikeDomain ?_
    rwa [trimEndDots_of_looksLikeDomain hd]
  have hspecial : d.toList.any (fun c => " $|^*/:!#?&[]()~@".toList.contains c) = false := by
    rw [List.any_eq_false]
    intro c hc hin
    have hmem := List.contains_iff_mem.mp hin
    have hplain : " $|^*/:!#?&[]()~@".toList.any isNameChar = false := by decide
    exact List.any_eq_false.mp hplain c hmem (hname.chars c hc)
  unfold isRawDomainLine
  rw [hspecial, if_neg Bool.false_ne_true, startsWith_eq_false rfl hname.head, Bool.false_or,
    looksLikeDomain_toAsciiLowercase, hd]
  cases startsWith d "-" with
  | true => rfl
  | false => cases looksLikeIpcidr T d <;> rfl

/-- With a dot it never is. -/
theorem isRawDomainLine_append_dot (d : String) : isRawDomainLine T (d ++ ".") = false := by
  have hname : looksLikeDomain (toAsciiLowercase (d ++ ".")) = false := by
    rw [looksLikeDomain_toAsciiLowercase]
    unfold looksLikeDomain
    rw [String.toList_append, show (".").toList = ['.'] from rfl, List.getLast?_concat]
    simp
  unfold isRawDomainLine
  rw [hname]
  split
  · rfl
  · split
    · rfl
    · split <;> rfl

/-- A name that is not plain is a suffix, with and without dots at its end. -/
theorem parseLine_name {x : String} (hx : looksLikeDomain (trimEndDots x) = true)
    (hraw : isRawDomainLine T x = false) :
    (parseLine T R x).toEntry = some (nameEntry x .domainSuffix) := by
  have hname := isName_of_looksLikeDomain hx
  have hhead : ∀ c, isNameChar c = false → x.toList.head? ≠ some c :=
    fun c hc hin => hname.not_mem hc (List.mem_of_mem_head? hin)
  have hcomment : isComment x = false :=
    isComment_eq_false (hname.not_mem rfl) (hname.not_mem rfl)
  have hhosts : tryParseHostsLine T x = none :=
    tryParseHostsLine_eq_none hname.ne hname.not_isWhitespace
  have hcolon : ':' ∉ x.toList := hname.not_mem rfl
  have hscheme : stripScheme x = x := by
    rw [stripScheme, stripPrefix_eq_none_of_not_mem (by decide) hcolon,
      stripPrefix_eq_none_of_not_mem (by decide) hcolon]
  have hbefore : beforeFirst '/' x = x := beforeFirst_eq_self (hname.not_mem rfl)
  have hpipe : trimEndMatches '|' x = x :=
    trimEndMatches_eq_self fun hlast => hname.not_mem rfl (List.mem_of_getLast? hlast)
  have hend : hasEnd x = false := by
    rw [hasEnd, hbefore, hpipe]
    exact contains_eq_false (p := '^') (by decide) (hname.not_mem rfl)
  have hhost : wildcardHost x = x :=
    wildcardHost_eq_self (hname.not_mem rfl) (hname.not_mem rfl) (hname.not_mem rfl)
      hname.not_isWhitespace
  have hread : readBody false x = .name (trimEndDots x) .domainSuffix := by
    rw [readBody, stripPrefix_eq_none rfl (hhead _ rfl), stripPrefix_eq_none rfl (hhead _ rfl)]
    dsimp only
    rw [hend, if_neg Bool.false_ne_true, readWildcardOrPlain, hhost,
      contains_eq_false (p := '*') (by decide) (hname.not_mem rfl), if_pos Bool.false_ne_true]
    rfl
  have hworking : workingLine x = (false, x) := by
    rw [workingLine, stripPrefix_eq_none rfl (hhead _ rfl)]
  rw [parseLine_toEntry, hcomment, if_neg Bool.false_ne_true, hraw, if_neg Bool.false_ne_true,
    hworking, parseRule_toEntry false (hname.not_mem rfl),
    stripPrefix_eq_none rfl (hhead _ rfl)]
  dsimp only
  rw [hhosts]
  dsimp only
  rw [hscheme, hread, Reading.rule_name, if_pos hx, normalizeDomainStr, trimEndDots_trimEndDots]
  rfl

private theorem lineEntry_raw {d : String} (hd : looksLikeDomain d = true) (htrim : trim d = d) :
    lineEntry T R d = some (nameEntry d
      (if isRawDomainLine T d = true then .domain else .domainSuffix)) := by
  have hdots := trimEndDots_of_looksLikeDomain hd
  rw [lineEntry_eq_toEntry, htrim]
  cases hraw : isRawDomainLine T d with
  | false =>
      rw [if_neg Bool.false_ne_true]
      exact parseLine_name (by rwa [hdots]) hraw
  | true =>
      have hname : IsName d := isName_of_looksLikeDomain (by rwa [hdots])
      have hcomment : isComment d = false :=
        isComment_eq_false (hname.not_mem rfl) (hname.not_mem rfl)
      rw [parseLine_toEntry, hcomment, if_neg Bool.false_ne_true, hraw, if_pos rfl, if_pos rfl]
      rfl

/-- A line without modifiers makes the same entries in lower case if and only
if no pattern with capitals and no scheme with capitals decides it; and a plain
name makes the same entries with a dot at its end if and only if it is not
taken at the exit for plain names. -/
theorem case_and_dot_iff (T : NetText) (R : RegexCrate) (hT : IgnoresCase T) :
    (∀ line : String, '\n' ∉ line.toList →
      isComment (trim line) = true ∨ '$' ∉ line.toList →
      ((parse T R line).entries = (parse T R (toAsciiLowercase line)).entries ↔
        CaseFree T R (trim line))) ∧
    ∀ d : String, looksLikeDomain d = true →
      ((parse T R (d ++ ".")).entries = (parse T R d).entries ↔
        startsWith d "-" = true ∨ looksLikeIpcidr T d = true) := by
  have hfeed : Caseless '\n' := by decide
  constructor
  · intro line hline hdollar
    have htoList : ∀ a b : Option RuleEntry, a.toList = b.toList ↔ a = b := by
      intro a b
      cases a <;> cases b <;> simp
    have htrim : isComment (trim line) = true ∨ '$' ∉ (trim line).toList := by
      rw [trim, String.toList_ofList, mem_trimChars rfl]
      exact hdollar
    rw [parse_entries_of_line hline,
      parse_entries_of_line (mt hfeed.mem_toAsciiLowercase.mp hline), htoList,
      lineEntry_eq_toEntry, lineEntry_eq_toEntry, trim_toAsciiLowercase]
    exact parseLine_lower_iff hT htrim
  · intro d hd
    have hdots : trimEndDots (d ++ ".") = d := by
      have hself := trimEndDots_of_looksLikeDomain hd
      rw [trimEndDots, String.toList_append, show (".").toList = ['.'] from rfl,
        List.reverse_append, List.reverse_singleton, List.singleton_append, List.dropWhile_cons,
        if_pos (beq_self_eq_true '.')]
      exact hself
    have hname : IsName d := by
      refine isName_of_looksLikeDomain ?_
      rwa [trimEndDots_of_looksLikeDomain hd]
    have hdotted : IsName (d ++ ".") := isName_of_looksLikeDomain (by rwa [hdots])
    have hentry : lineEntry T R (d ++ ".") = some (nameEntry d .domainSuffix) := by
      rw [lineEntry_eq_toEntry, hdotted.trim_eq,
        parseLine_name (by rwa [hdots]) (isRawDomainLine_append_dot d), nameEntry, hdots, nameEntry,
        trimEndDots_of_looksLikeDomain hd]
    rw [parse_entries_of_line (hdotted.not_mem rfl), parse_entries_of_line (hname.not_mem rfl),
      hentry, lineEntry_raw hd hname.trim_eq, isRawDomainLine_of_looksLikeDomain hd]
    cases startsWith d "-" with
    | true => simp
    | false =>
        cases looksLikeIpcidr T d with
        | true => simp
        | false => simp [nameEntry, domainEntry]

theorem zeroAddressText_ignoresCase : IgnoresCase zeroAddressText := by
  intro s
  have hzero : toAsciiLowercase s = "0.0.0.0" ↔ s = "0.0.0.0" := by
    constructor
    · intro h
      have hself : toAsciiLowercase s = s := by
        rw [toAsciiLowercase_eq_iff, List.any_eq_false]
        intro c hc hupper
        have hmem : c.toLower ∈ (toAsciiLowercase s).toList := by
          rw [toList_toAsciiLowercase]
          exact List.mem_map_of_mem hc
        have hnone : ("0.0.0.0").toList.any Char.isLower = false := by decide
        rw [h] at hmem
        exact List.any_eq_false.mp hnone _ hmem (isLower_toLower_of_isUpper hupper)
      rw [← hself, h]
    · rintro rfl
      rfl
  simp only [zeroAddressText, hzero]

/-- A suffix with capitals, and a name that starts with a dash. -/
theorem case_and_dot_ads :
    (parse zeroAddressText literalRegex "||ADS.com^").entries =
        (parse zeroAddressText literalRegex (toAsciiLowercase "||ADS.com^")).entries ∧
      (parse zeroAddressText literalRegex ("-ads.com" ++ ".")).entries =
        (parse zeroAddressText literalRegex "-ads.com").entries := by
  obtain ⟨hcase, hdot⟩ := case_and_dot_iff zeroAddressText literalRegex zeroAddressText_ignoresCase
  refine ⟨(hcase "||ADS.com^" (by decide) (Or.inr (by decide))).mpr ?_,
    (hdot "-ads.com" (by decide)).mpr (Or.inl rfl)⟩
  refine Or.inr (Or.inr (Or.inr ?_))
  exact trivial

/-- The capitals of `||AD*S.com^` stay in its pattern, and `ads.com.` is a
suffix where `ads.com` is a domain. -/
theorem wildcard_keeps_capitals :
    (parse zeroAddressText literalRegex "||AD*S.com^").entries ≠
        (parse zeroAddressText literalRegex (toAsciiLowercase "||AD*S.com^")).entries ∧
      (parse zeroAddressText literalRegex ("ads.com" ++ ".")).entries ≠
        (parse zeroAddressText literalRegex "ads.com").entries := by
  constructor
  · intro hsame
    have hdomains := congrArg (List.map RuleEntry.domain) hsame
    revert hdomains
    decide +kernel
  · intro hsame
    have htypes := congrArg (List.map RuleEntry.ruleType) hsame
    revert htypes
    decide +kernel

end Relay.Ruleset.Adguard
