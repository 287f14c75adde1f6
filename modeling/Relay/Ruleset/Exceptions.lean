import Relay.Ruleset.Adguard
import Relay.Ruleset.Buckets

/-!
Exception rules of AdGuard lists. A line with `@@` is meant to yield entries of
the exclude types only. It does unless it is a hosts line, or its wildcards
become a pattern: both exits choose the type of their entry themselves. A line
that keeps its exception adds nothing that the built ruleset matches.
-/

namespace Relay.Ruleset.Adguard

open Binary Dns Text

variable (T : NetText) (R : RegexCrate)

/-! ### The types of the entries -/

/-- The wildcards of a host part that are more than one `*.` in front. -/
def becomesRegex (s : String) : Bool :=
  let host := wildcardHost s
  contains host "*" && (singlePrefix host).isNone && validateRegex R (buildWildcardRegex host)

/-- A rule behind its scheme that ends in the wildcard exit. -/
def bodyDropsFlag (ruleBody : String) : Bool :=
  match stripPrefix ruleBody "||" with
  | some rest => becomesRegex R (stripAnchors rest)
  | none =>
      (stripPrefix ruleBody "|").isNone && !hasEnd ruleBody && becomesRegex R ruleBody

/-- A rule that ends in the hosts exit or in the wildcard exit. -/
def dropsFlag (workingLine : String) : Bool :=
  (stripPrefix workingLine "/").isNone && modifiersSupported (splitModifiers workingLine).2 &&
    match tryParseHostsLine T (splitModifiers workingLine).1 with
    | some entry => entry.isSome
    | none => bodyDropsFlag R (stripScheme (splitModifiers workingLine).1)

/-- An exception that the parser turns into an ordinary rule. -/
def losesException (line : String) : Bool :=
  !isComment line && match stripPrefix line "@@" with
    | some workingLine => dropsFlag T R workingLine
    | none => false

/-- The entry of a line is an exception exactly when the line says so. -/
def MarksException (line : String) : Prop :=
  ∀ e, parseLine T R line = .entry e → e.ruleType.isExclude = startsWith line "@@"

variable {T R}

theorem parseWildcardOrPlain_type {s : String} {ty : EntryType} {e : RuleEntry}
    (h : parseWildcardOrPlain R s ty = some e) :
    e.cidr = none ∧ e.ruleType = if becomesRegex R s then .domainRegex else ty := by
  unfold parseWildcardOrPlain at h
  unfold becomesRegex
  dsimp only at h ⊢
  split at h
  · cases h
  · split at h
    · rename_i hwild
      have hplain : contains (wildcardHost s) "*" = false := by simpa using hwild
      split at h
      · cases h
      · cases h
        simp [hplain, domainEntry]
    · rename_i hwild
      have hstar : contains (wildcardHost s) "*" = true := by simpa using hwild
      split at h
      · rename_i rest hsingle
        cases h
        simp [hsingle, domainEntry]
      · rename_i hsingle
        split at h
        · rename_i hvalid
          cases h
          simp [hstar, hsingle, hvalid, domainEntry]
        · cases h

theorem parseRegexRule_type {isExclude : Bool} {rest : String} {e : RuleEntry}
    (h : parseRegexRule R isExclude rest = some e) :
    e.cidr = none ∧ e.ruleType.isExclude = isExclude := by
  unfold parseRegexRule at h
  split at h
  · split at h
    · cases h
      exact ⟨rfl, by cases isExclude <;> rfl⟩
    · cases h
  · cases h

theorem parseSinglePipe_type {isExclude hasEnd : Bool} {rest : String} {e : RuleEntry}
    (h : parseSinglePipe R isExclude hasEnd rest = some e) :
    e.cidr = none ∧ e.ruleType.isExclude = isExclude := by
  unfold parseSinglePipe at h
  dsimp only at h
  split at h
  · cases h
  · split at h
    · split at h
      · cases h
        exact ⟨rfl, by cases isExclude <;> rfl⟩
      · cases h
    · split at h
      · cases h
        exact ⟨rfl, by cases isExclude <;> rfl⟩
      · cases h

theorem parseEndAnchored_type {isExclude : Bool} {ruleBody : String} {e : RuleEntry}
    (h : parseEndAnchored R isExclude ruleBody = some e) :
    e.cidr = none ∧ e.ruleType.isExclude = isExclude := by
  unfold parseEndAnchored at h
  dsimp only at h
  split at h
  · cases h
  · split at h
    · split at h
      · cases h
        exact ⟨rfl, by cases isExclude <;> rfl⟩
      · cases h
    · split at h
      · split at h
        · cases h
          exact ⟨rfl, by cases isExclude <;> rfl⟩
        · cases h
      · cases h

theorem parseBody_type {isExclude : Bool} {ruleBody : String} {e : RuleEntry}
    (h : parseBody R isExclude ruleBody = some e) :
    e.cidr = none ∧ e.ruleType.isExclude = (isExclude && !bodyDropsFlag R ruleBody) := by
  have hsuffix : ∀ s, (e.cidr = none ∧ e.ruleType = (if becomesRegex R s then .domainRegex
      else if isExclude then .excludeDomainSuffix else .domainSuffix)) →
      e.cidr = none ∧ e.ruleType.isExclude = (isExclude && !becomesRegex R s) := by
    rintro s ⟨hcidr, htype⟩
    refine ⟨hcidr, ?_⟩
    rw [htype]
    cases isExclude <;> cases becomesRegex R s <;> rfl
  unfold parseBody at h
  unfold bodyDropsFlag
  dsimp only at h
  cases hdouble : stripPrefix ruleBody "||" with
  | some rest =>
      rw [hdouble] at h
      exact hsuffix _ (parseWildcardOrPlain_type h)
  | none =>
      rw [hdouble] at h
      dsimp only at h ⊢
      cases hsingle : stripPrefix ruleBody "|" with
      | some rest =>
          rw [hsingle] at h
          simpa using parseSinglePipe_type h
      | none =>
          rw [hsingle] at h
          dsimp only at h
          cases hend : hasEnd ruleBody with
          | true =>
              rw [hend, if_pos rfl] at h
              simpa using parseEndAnchored_type h
          | false =>
              rw [hend, if_neg (by simp)] at h
              simpa using hsuffix _ (parseWildcardOrPlain_type h)

theorem tryParseHostsLine_type {s : String} {e : RuleEntry}
    (h : tryParseHostsLine T s = some (some e)) : e.cidr = none ∧ e.ruleType = .domain := by
  unfold tryParseHostsLine at h
  split at h
  · split at h
    · cases h
    · dsimp only at h
      split at h
      · cases h
      · split at h
        · cases h
        · split at h
          · cases h
          · cases h
            exact ⟨rfl, rfl⟩
  · cases h

theorem parseRule_type {isExclude : Bool} {workingLine : String} {e : RuleEntry}
    (h : parseRule T R isExclude workingLine = .entry e) :
    e.cidr = none ∧ e.ruleType.isExclude = (isExclude && !dropsFlag T R workingLine) := by
  unfold parseRule at h
  unfold dropsFlag
  cases hregex : stripPrefix workingLine "/" with
  | some rest =>
      rw [hregex] at h
      simpa using parseRegexRule_type (Parsed.eq_some_of_ofRule h)
  | none =>
      rw [hregex] at h
      dsimp only at h
      split at h
      · cases h
      · rename_i hmods
        have hsupported : modifiersSupported (splitModifiers workingLine).2 = true := by
          simpa using hmods
        rw [hsupported]
        cases hhosts : tryParseHostsLine T (splitModifiers workingLine).1 with
        | none =>
            rw [hhosts] at h
            simpa using parseBody_type (Parsed.eq_some_of_ofRule h)
        | some entry =>
            rw [hhosts] at h
            cases entry with
            | none => cases h
            | some e' =>
                cases h
                obtain ⟨hcidr, htype⟩ := tryParseHostsLine_type hhosts
                refine ⟨hcidr, ?_⟩
                rw [htype]
                cases isExclude <;> rfl

/-! ### Lines that lose their exception -/

private theorem parseWildcardOrPlain_of_becomesRegex {s : String} {ty : EntryType}
    (h : becomesRegex R s = true) : ∃ e, parseWildcardOrPlain R s ty = some e := by
  simp only [becomesRegex, Bool.and_eq_true, Option.isNone_iff_eq_none] at h
  obtain ⟨⟨hstar, hsingle⟩, hvalid⟩ := h
  have hne : wildcardHost s ≠ "" := by
    intro hempty
    rw [hempty] at hstar
    cases hstar
  refine ⟨domainEntry (buildWildcardRegex (wildcardHost s)) .domainRegex, ?_⟩
  simp only [parseWildcardOrPlain, hne, hstar, hsingle, hvalid, if_false, not_true, if_true]

private theorem parseBody_of_dropsFlag (isExclude : Bool) {ruleBody : String}
    (h : bodyDropsFlag R ruleBody = true) : ∃ e, parseBody R isExclude ruleBody = some e := by
  unfold bodyDropsFlag at h
  unfold parseBody
  dsimp only
  cases hdouble : stripPrefix ruleBody "||" with
  | some rest =>
      rw [hdouble] at h
      exact parseWildcardOrPlain_of_becomesRegex h
  | none =>
      rw [hdouble] at h
      simp only [Bool.and_eq_true, Option.isNone_iff_eq_none, Bool.not_eq_true'] at h
      obtain ⟨⟨hsingle, hend⟩, hregex⟩ := h
      rw [hsingle, hend]
      dsimp only
      rw [if_neg (by simp)]
      exact parseWildcardOrPlain_of_becomesRegex hregex

private theorem parseRule_of_dropsFlag (isExclude : Bool) {workingLine : String}
    (h : dropsFlag T R workingLine = true) :
    ∃ e, parseRule T R isExclude workingLine = .entry e := by
  simp only [dropsFlag, Bool.and_eq_true, Option.isNone_iff_eq_none] at h
  obtain ⟨⟨hregex, hmods⟩, hexit⟩ := h
  unfold parseRule
  rw [hregex]
  dsimp only
  rw [if_neg (by simpa using hmods)]
  cases hhosts : tryParseHostsLine T (splitModifiers workingLine).1 with
  | some entry =>
      rw [hhosts] at hexit
      obtain ⟨e, he⟩ := Option.isSome_iff_exists.mp hexit
      rw [he]
      exact ⟨e, rfl⟩
  | none =>
      rw [hhosts] at hexit
      obtain ⟨e, he⟩ := parseBody_of_dropsFlag isExclude hexit
      exact ⟨e, by rw [he]; rfl⟩

private theorem not_isRawDomainLine {line : String} (h : startsWith line "@@" = true) :
    isRawDomainLine T line = false := by
  obtain ⟨rest, hrest⟩ := Option.isSome_iff_exists.mp h
  have hline := stripPrefixChars_eq_some hrest
  unfold isRawDomainLine
  rw [if_pos]
  rw [hline]
  rfl

/-- Every entry of a line has the kind that the line asks for, unless the line
is an exception that ends in one of the two exits. -/
theorem marksException_iff (line : String) :
    MarksException T R line ↔ losesException T R line = false := by
  have hstarts : startsWith line "@@" = (stripPrefix line "@@").isSome := by
    simp [startsWith, stripPrefix]
  constructor
  · intro hmarks
    by_contra hloses
    rw [Bool.not_eq_false, losesException, Bool.and_eq_true, Bool.not_eq_true'] at hloses
    obtain ⟨hcomment, hdrops⟩ := hloses
    cases hline : stripPrefix line "@@" with
    | none => simp [hline] at hdrops
    | some workingLine =>
        replace hdrops : dropsFlag T R workingLine = true := by simpa [hline] using hdrops
        have hexception : startsWith line "@@" = true := by rw [hstarts, hline]; rfl
        have hne : line ≠ "" := by
          rintro rfl
          cases hexception
        obtain ⟨e, he⟩ := parseRule_of_dropsFlag true hdrops
        have hparse : parseLine T R line = .entry e := by
          unfold parseLine
          rw [if_neg hne, hcomment, if_neg (by simp), not_isRawDomainLine hexception,
            if_neg (by simp), hline]
          exact he
        have htype := (parseRule_type he).2
        rw [hmarks e hparse, hexception, hdrops] at htype
        cases htype
  · intro hkeeps e he
    unfold parseLine at he
    split at he
    · cases he
    · split at he
      · cases he
      · rename_i hcomment
        split at he
        · rename_i hraw
          cases he
          cases hexception : startsWith line "@@" with
          | false => rfl
          | true =>
              rw [not_isRawDomainLine hexception] at hraw
              cases hraw
        · rw [hstarts]
          cases hline : stripPrefix line "@@" with
          | none =>
              rw [hline] at he
              simpa using (parseRule_type he).2
          | some workingLine =>
              rw [hline] at he
              have hdrops : dropsFlag T R workingLine = false := by
                simpa [losesException, hcomment, hline] using hkeeps
              simpa [hdrops] using (parseRule_type he).2

/-! ### A list with one more line -/

variable (T R) in
/-- The entry of one line of the input. -/
def lineEntry (raw : String) : Option RuleEntry :=
  match parseLine T R (trim raw) with
  | .entry e => some e
  | _ => none

theorem lineEntry_eq_some {raw : String} {e : RuleEntry} :
    lineEntry T R raw = some e ↔ parseLine T R (trim raw) = .entry e := by
  unfold lineEntry
  split
  · rename_i e' hline
    rw [hline, Option.some.injEq, Parsed.entry.injEq]
  · rename_i hother
    constructor
    · intro h
      cases h
    · intro h
      exact absurd h (hother e)

private theorem foldl_parseInto (input : List (String × Nat)) (report : AdGuardParseReport) :
    (input.foldl (parseInto T R) report).entries =
      report.entries ++ (input.map Prod.fst).filterMap (lineEntry T R) := by
  induction input generalizing report with
  | nil => simp
  | cons numbered input ih =>
      have hline : (parseInto T R report numbered).entries =
          report.entries ++ (lineEntry T R numbered.1).toList := by
        unfold parseInto lineEntry
        dsimp only
        split <;> simp_all [recordSkip]
      rw [List.foldl_cons, ih, hline, List.map_cons, List.filterMap_cons, List.append_assoc]
      cases lineEntry T R numbered.1 <;> rfl

/-- The entries of a list are those of its lines, in order. -/
theorem parseLines_entries (input : List String) :
    (parseLines T R input).entries = input.filterMap (lineEntry T R) := by
  have hfst : input.zipIdx.map Prod.fst = input := by simp
  rw [parseLines, foldl_parseInto, hfst]
  rfl

theorem parseLine_cidr {line : String} {e : RuleEntry} (h : parseLine T R line = .entry e) :
    e.cidr = none := by
  unfold parseLine at h
  split at h
  · cases h
  · split at h
    · cases h
    · split at h
      · cases h
        rfl
      · split at h
        · exact (parseRule_type h).1
        · exact (parseRule_type h).1

variable (T) (F : FstCrate) (R : RegexCrate)

/-- The ruleset that is built from the lines of one list: each entry of the
list is collected, the file is written with sections that its headers can
measure, and it is loaded. -/
def Built (input : List String) (drs : DrsFile F R) : Prop :=
  ∃ b now sourceHash file stats, collect R (parseLines T R input).entries = .ok b ∧
    writeV2 F now b sourceHash = .ok (file, stats) ∧
    (∀ sections, buildSections F b = .ok sections → ∀ s ∈ sections, s.bytes.length < 2 ^ 32) ∧
    fromBytes F R file = .ok drs

/-- The ruleset matches the domain. -/
def Blocks {F : FstCrate} {R : RegexCrate} (drs : DrsFile F R) (domain : String) : Prop :=
  ∃ r, drs.matchesNormalized domain = .ok (some r)

/-- Adding the line to a list makes no domain match that did not match
before, wherever in the list it is added. -/
def NeverBlocks (raw : String) : Prop :=
  ∀ before after drs drs', Built T F R (before ++ after) drs →
    Built T F R (before ++ raw :: after) drs' → ∀ domain, Blocks drs' domain → Blocks drs domain

variable {T F R}

private theorem built_verdict (hF : F.Lawful) (hR : R.MatchesAny) {input : List String}
    {drs : DrsFile F R} (h : Built T F R input drs) :
    ∃ b : EntryBuckets,
      (∀ ty, ty.isNamed → b.strings ty = named (input.filterMap (lineEntry T R)) ty) ∧
      ∀ domain, drs.matchesNormalized domain =
        .ok ((b.kept.consulted domain).verdict R domain) := by
  obtain ⟨b, now, sourceHash, file, stats, hcollect, hwrite, hsize, hload⟩ := h
  rw [parseLines_entries] at hcollect
  have hcidr : ∀ e ∈ input.filterMap (lineEntry T R), e.cidr = none := by
    intro e he
    obtain ⟨raw, _, hraw⟩ := List.mem_filterMap.mp he
    exact parseLine_cidr (lineEntry_eq_some.mp hraw)
  obtain ⟨hstrings, hipv4, hipv6⟩ := collect_ok hcidr hcollect
  refine ⟨b, ?_, (fromBytes_kept hF hR hipv4 hipv6 hsize hwrite).2 drs hload⟩
  intro ty hty
  rw [hstrings ty hty]
  cases ty <;> rfl

private theorem exists_built (hF : F.Lawful) (hR : R.MatchesAny) (input : List String)
    {b : EntryBuckets} (hcollect : collect R (parseLines T R input).entries = .ok b)
    (hc : b.kept.SetsCompile R) (hipv4 : b.ipv4Cidrs = []) (hipv6 : b.ipv6Cidrs = [])
    {sections : List Section} (hsections : buildSections F b = .ok sections)
    (hsize : ∀ s ∈ sections, s.bytes.length < 2 ^ 32) :
    ∃ drs, Built T F R input drs ∧ ∀ domain, drs.matchesNormalized domain =
      .ok ((b.kept.consulted domain).verdict R domain) := by
  have hsizes : ∀ sections', buildSections F b = .ok sections' → ∀ s ∈ sections',
      s.bytes.length < 2 ^ 32 := by
    intro sections' hsections'
    rw [hsections] at hsections'
    cases hsections'
    exact hsize
  have hfile : ∃ file stats, writeV2 F 0 b (Vector.replicate 32 0) = .ok (file, stats) := by
    rw [writeV2, hsections]
    exact ⟨_, _, rfl⟩
  obtain ⟨file, stats, hfile⟩ := hfile
  obtain ⟨hloads, hverdict⟩ := fromBytes_kept hF hR hipv4 hipv6 hsizes hfile
  obtain ⟨drs, hload⟩ := hloads hc
  exact ⟨drs, ⟨b, 0, Vector.replicate 32 0, file, stats, hcollect, hfile, hsizes, hload⟩,
    hverdict drs hload⟩

/-- A line that yields exceptions only, or nothing, adds no match. -/
theorem neverBlocks_of_exclude (hF : F.Lawful) (hR : R.MatchesAny) {raw : String}
    (h : ∀ e, lineEntry T R raw = some e → e.ruleType.isExclude = true) :
    NeverBlocks T F R raw := by
  rintro before after drs drs' hold hnew domain ⟨r, hr⟩
  obtain ⟨b, hstrings, hverdict⟩ := built_verdict hF hR hold
  obtain ⟨b', hstrings', hverdict'⟩ := built_verdict hF hR hnew
  have hadded : ∀ ty, ty.isNamed → b'.strings ty = named (before.filterMap (lineEntry T R)) ty ++
      (named (lineEntry T R raw).toList ty ++ named (after.filterMap (lineEntry T R)) ty) := by
    intro ty hty
    rw [hstrings' ty hty, List.filterMap_append, List.filterMap_cons]
    cases lineEntry T R raw with
    | none => simp [named]
    | some e =>
        simp only [named, Option.toList, List.filter_append, List.map_append, List.filter_cons,
          List.filter_nil]
        split <;> rfl
  have hbefore : ∀ ty, ty.isNamed → b.strings ty = named (before.filterMap (lineEntry T R)) ty ++
      named (after.filterMap (lineEntry T R)) ty := by
    intro ty hty
    rw [hstrings ty hty, List.filterMap_append]
    simp [named]
  have hsame : ∀ ty : EntryType, ty.isNamed → ty.isExclude = false → b'.strings ty = b.strings ty := by
    intro ty hty hexclude
    have hnone : named (lineEntry T R raw).toList ty = [] := by
      cases hentry : lineEntry T R raw with
      | none => rfl
      | some e =>
          have hne : e.ruleType ≠ ty := by
            rintro rfl
            rw [h e hentry] at hexclude
            cases hexclude
          simp [named, hne]
    rw [hadded ty hty, hbefore ty hty, hnone, List.nil_append]
  have hmore : ∀ ty : EntryType, ty.isNamed → b.strings ty ⊆ b'.strings ty := by
    intro ty hty s hs
    rw [hbefore ty hty] at hs
    rw [hadded ty hty]
    rcases List.mem_append.mp hs with hfront | hback
    · exact List.mem_append_left _ hfront
    · exact List.mem_append_right _ (List.mem_append_right _ hback)
  have hrestricts : b'.Restricts b :=
    { domains := hsame .domain rfl rfl
      suffixes := hsame .domainSuffix rfl rfl
      keywords := hsame .domainKeyword rfl rfl
      regexes := hsame .domainRegex rfl rfl
      excludeDomains := hmore .excludeDomain rfl
      excludeSuffixes := hmore .excludeDomainSuffix rfl
      excludeRegexes := hmore .excludeDomainRegex rfl }
  rw [hverdict', Except.ok.injEq] at hr
  refine ⟨r, ?_⟩
  rw [hverdict, (hrestricts.kept.consulted domain).verdict hr]

/-- The entries of a list are those of its lines, and a line keeps what its
`@@` says, in its entry and in what the built ruleset matches, exactly when it
does not end in one of the two exits. -/
theorem exceptions_kept_iff (hF : F.Lawful) (hR : R.MatchesAny) (input : String) :
    (parse T R input).entries = (lines input).filterMap (lineEntry T R) ∧
      ∀ raw, (MarksException T R (trim raw) ∧
        (startsWith (trim raw) "@@" = true → NeverBlocks T F R raw)) ↔
          losesException T R (trim raw) = false := by
  refine ⟨parseLines_entries (lines input), ?_⟩
  intro raw
  constructor
  · rintro ⟨hmarks, _⟩
    exact (marksException_iff _).mp hmarks
  · intro hkeeps
    have hmarks := (marksException_iff _).mpr hkeeps
    refine ⟨hmarks, ?_⟩
    intro hexception
    refine neverBlocks_of_exclude hF hR ?_
    intro e he
    rw [hmarks e (lineEntry_eq_some.mp he), hexception]

/-- An address text that the hosts form begins with. -/
def zeroAddressText : NetText where
  socketAddr _ := none
  ipAddr s := if s = "0.0.0.0" then some (.v4 0) else none
  validUrl _ := false

theorem exceptions_kept_iff_suffix :
    MarksException zeroAddressText literalRegex "@@||ads.example.com^" ∧
      NeverBlocks zeroAddressText listFst literalRegex "@@||ads.example.com^" := by
  have hline : trim "@@||ads.example.com^" = "@@||ads.example.com^" := by decide +kernel
  obtain ⟨_, hkept⟩ := exceptions_kept_iff (T := zeroAddressText) listFst_lawful
    literalRegex_lawful.toMatchesAny "@@||ads.example.com^"
  obtain ⟨hmarks, hnever⟩ := (hkept "@@||ads.example.com^").mpr (by decide +kernel)
  rw [hline] at hmarks hnever
  exact ⟨hmarks, hnever (by decide +kernel)⟩

/-- An exception in the hosts form: its domain is blocked. -/
theorem hosts_exception_blocks :
    ¬ MarksException zeroAddressText literalRegex "@@0.0.0.0 ads.example.com" ∧
      ¬ NeverBlocks zeroAddressText listFst literalRegex "@@0.0.0.0 ads.example.com" := by
  have hentry : parseLine zeroAddressText literalRegex "@@0.0.0.0 ads.example.com" =
      .entry (domainEntry "ads.example.com" .domain) := rfl
  have hsort : ∀ k : Bytes, sortedKeys [k] = [k] := by
    intro k
    simp [sortedKeys]
  constructor
  · intro hmarks
    have htype := hmarks _ hentry
    revert htype
    decide +kernel
  · intro hnever
    have hempty : ∀ b : EntryBuckets, b.regexes = [] → b.excludeRegexes = [] →
        b.kept.SetsCompile literalRegex := by
      intro b hregexes hexcludes
      have hboth : b.kept.regexes = [] ∧ b.kept.excludeRegexes = [] := by
        simp [EntryBuckets.kept, shortStrings, hregexes, hexcludes]
      refine ⟨⟨none, ?_⟩, ⟨none, ?_⟩⟩
      · rw [hboth.1]
        rfl
      · rw [hboth.2]
        rfl
    obtain ⟨sections, hsections, hsizes⟩ : ∃ sections, buildSections listFst {} = .ok sections ∧
        ∀ s ∈ sections, s.bytes.length < 2 ^ 32 := ⟨_, rfl, by decide⟩
    obtain ⟨sections', hsections', hsizes'⟩ : ∃ sections',
        buildSections listFst { domains := ["ads.example.com"] } = .ok sections' ∧
          ∀ s ∈ sections', s.bytes.length < 2 ^ 32 := by
      simp only [buildSections, buildSetFst, List.map_cons, List.map_nil, hsort]
      exact ⟨_, rfl, by decide⟩
    obtain ⟨drs, hbuilt, hverdict⟩ := exists_built (T := zeroAddressText) listFst_lawful
      literalRegex_lawful.toMatchesAny [] rfl (hempty _ rfl rfl) rfl rfl hsections hsizes
    obtain ⟨drs', hbuilt', hverdict'⟩ := exists_built (T := zeroAddressText) listFst_lawful
      literalRegex_lawful.toMatchesAny ["@@0.0.0.0 ads.example.com"] rfl (hempty _ rfl rfl) rfl rfl
      hsections' hsizes'
    have hblocks : Blocks drs' "ads.example.com" := by
      refine ⟨.domain, ?_⟩
      rw [hverdict']
      rfl
    obtain ⟨r, hr⟩ := hnever [] [] drs drs' hbuilt hbuilt' "ads.example.com" hblocks
    rw [hverdict] at hr
    cases hr

end Relay.Ruleset.Adguard
