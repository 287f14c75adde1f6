import Relay.Ruleset.Exceptions
import Relay.Text.Plain

/-!
The `/regex/` rules of an AdGuard list. A rule is meant to run to its last
slash, with nothing but modifiers behind it; the parser stops at the first
slash and never looks at what follows.
-/

namespace Relay.Ruleset.Adguard

open Binary Dns Text

variable {T : NetText} {R : RegexCrate}

/-! ### Where a pattern ends -/

/-- What a rule may hold as its pattern. -/
def ValidPattern (R : RegexCrate) (pattern : String) : Prop :=
  pattern ≠ "" ∧ validateRegex R pattern = true

/-- Nothing, or `$` and supported modifiers. -/
def OnlyModifiers (tail : String) : Prop :=
  (splitModifiers tail).1 = "" ∧ modifiersSupported (splitModifiers tail).2 = true

/-- The last slash closes a pattern that is valid, and modifiers follow. -/
def Closes (R : RegexCrate) (rest pattern : String) : Prop :=
  ∃ tail, '/' ∉ tail.toList ∧ rest = pattern ++ "/" ++ tail ∧ ValidPattern R pattern ∧
    OnlyModifiers tail

/-- Either the first slash is the last one and closes a valid pattern, or
neither of the two does. -/
def ClosedByFirst (R : RegexCrate) (rest : String) : Prop :=
  (∃ pattern, '/' ∉ pattern.toList ∧ Closes R rest pattern) ∨
    ((∀ pattern back, '/' ∉ pattern.toList → rest = pattern ++ "/" ++ back →
        ¬ ValidPattern R pattern) ∧
      ∀ pattern, ¬ Closes R rest pattern)

/-- The type of the entry of a pattern. -/
def regexType (isExclude : Bool) : EntryType :=
  if isExclude then .excludeDomainRegex else .domainRegex

/-- The parser takes the pattern in front of the first slash. -/
theorem parseRegexRule_eq_some {isExclude : Bool} {rest : String} {e : RuleEntry} :
    parseRegexRule R isExclude rest = some e ↔
      ∃ pattern back, '/' ∉ pattern.toList ∧ rest = pattern ++ "/" ++ back ∧
        ValidPattern R pattern ∧ e = domainEntry pattern (regexType isExclude) := by
  have hsplit : ∀ {pattern back : String}, '/' ∉ pattern.toList →
      parseRegexRule R isExclude (pattern ++ "/" ++ back) =
        if pattern ≠ "" ∧ validateRegex R pattern then
          some (domainEntry pattern (regexType isExclude))
        else none := by
    intro pattern back hpattern
    rw [parseRegexRule, splitOnce_append rfl hpattern]
    rfl
  constructor
  · intro hrule
    by_cases hslash : '/' ∈ rest.toList
    · obtain ⟨front, back, hrest, hfront⟩ := List.eq_append_cons_of_mem hslash
      have hstring : rest = String.ofList front ++ "/" ++ String.ofList back := by
        apply String.toList_injective
        simp [hrest]
      have hpattern : '/' ∉ (String.ofList front).toList := by simpa using hfront
      rw [hstring, hsplit hpattern] at hrule
      split at hrule
      · rename_i hvalid
        exact ⟨_, _, hpattern, hstring, hvalid, (Option.some.inj hrule).symm⟩
      · cases hrule
    · rw [parseRegexRule, splitOnce_eq_none rfl hslash] at hrule
      cases hrule
  · rintro ⟨pattern, back, hpattern, rfl, hvalid, rfl⟩
    rw [hsplit hpattern]
    exact if_pos hvalid

/-- A pattern without a slash is the only one that the last slash can close. -/
theorem Closes.eq_of_not_mem {rest pattern other : String} (hslash : '/' ∉ pattern.toList)
    (h : Closes R rest pattern) (hother : Closes R rest other) : other = pattern := by
  obtain ⟨tail, htail, rfl, _⟩ := h
  obtain ⟨tail', _, hrest, _⟩ := hother
  have hchars := congrArg String.toList hrest
  simp only [String.toList_append, List.append_assoc, show ("/").toList = ['/'] from rfl,
    List.singleton_append] at hchars
  have hparts := (List.append_cons_inj_of_notMem hslash htail).mp hchars
  exact String.toList_injective hparts.1.symm

/-- The rule of the first slash is the rule of the last one. -/
theorem parseRegexRule_exact_iff (isExclude : Bool) (rest : String) :
    ((∀ pattern, Closes R rest pattern →
        parseRegexRule R isExclude rest = some (domainEntry pattern (regexType isExclude))) ∧
      ((∀ pattern, ¬ Closes R rest pattern) → parseRegexRule R isExclude rest = none)) ↔
      ClosedByFirst R rest := by
  constructor
  · rintro ⟨hentry, hnone⟩
    cases hrule : parseRegexRule R isExclude rest with
    | none =>
        refine Or.inr ⟨?_, ?_⟩
        · intro pattern back hpattern hrest hvalid
          have hsome : parseRegexRule R isExclude rest =
              some (domainEntry pattern (regexType isExclude)) :=
            parseRegexRule_eq_some.mpr ⟨pattern, back, hpattern, hrest, hvalid, rfl⟩
          rw [hrule] at hsome
          cases hsome
        · intro pattern hcloses
          have hsome := hentry pattern hcloses
          rw [hrule] at hsome
          cases hsome
    | some e =>
        obtain ⟨pattern, back, hpattern, _, _, rfl⟩ := parseRegexRule_eq_some.mp hrule
        have hcloses : ∃ other, Closes R rest other := by
          apply not_forall_not.mp
          intro hall
          rw [hnone hall] at hrule
          cases hrule
        obtain ⟨other, hother⟩ := hcloses
        have hsame := hentry other hother
        rw [hrule] at hsame
        have hdomain := congrArg RuleEntry.domain (Option.some.inj hsame)
        have heq : pattern = other := hdomain
        rw [← heq] at hother
        exact Or.inl ⟨pattern, hpattern, hother⟩
  · rintro (⟨pattern, hpattern, hcloses⟩ | ⟨hfirst, hlast⟩)
    · refine ⟨?_, fun hnone => absurd hcloses (hnone pattern)⟩
      intro other hother
      rw [hcloses.eq_of_not_mem hpattern hother]
      obtain ⟨tail, _, hrest, hvalid, _⟩ := hcloses
      exact parseRegexRule_eq_some.mpr ⟨pattern, tail, hpattern, hrest, hvalid, rfl⟩
    · refine ⟨fun pattern hcloses => absurd hcloses (hlast pattern), ?_⟩
      intro _
      cases hrule : parseRegexRule R isExclude rest with
      | none => rfl
      | some e =>
          obtain ⟨pattern, back, hpattern, hrest, hvalid, _⟩ := parseRegexRule_eq_some.mp hrule
          exact absurd hvalid (hfirst pattern back hpattern hrest)

/-! ### A line that starts with a slash -/

/-- A rule that starts with a slash, behind its `@@`. -/
def slashLine (isExclude : Bool) (rest : String) : String :=
  (if isExclude then "@@" else "") ++ ("/" ++ rest)

theorem parseLine_slash {isExclude : Bool} {rest : String}
    (h : isComment (slashLine isExclude rest) = false) :
    parseLine T R (slashLine isExclude rest) = .ofRule (parseRegexRule R isExclude rest) := by
  have hslash : '/' ∈ (slashLine isExclude rest).toList := by
    unfold slashLine
    simp
  have hne : slashLine isExclude rest ≠ "" := by
    intro hempty
    rw [hempty] at hslash
    cases hslash
  have hraw : isRawDomainLine T (slashLine isExclude rest) = false := by
    rw [isRawDomainLine, if_pos]
    exact List.any_eq_true.mpr ⟨'/', hslash, by decide⟩
  have hrule : ∀ b, parseRule T R b ("/" ++ rest) = .ofRule (parseRegexRule R b rest) := by
    intro b
    rw [parseRule, stripPrefix_append]
  rw [parseLine, if_neg hne, h, if_neg Bool.false_ne_true, hraw, if_neg Bool.false_ne_true]
  cases isExclude with
  | true =>
      rw [slashLine, if_pos rfl, stripPrefix_append]
      exact hrule true
  | false =>
      have hhead : ("/" ++ rest).toList.head? ≠ some '@' := by
        rw [String.toList_append]
        simp
      rw [slashLine, if_neg Bool.false_ne_true, String.empty_append,
        stripPrefix_eq_none rfl hhead]
      exact hrule false

/-- The line `lineNo` is read as its slashes say: one entry of the pattern
that the last slash closes, and a reported line when it closes none. -/
structure ReadsRegex (T : NetText) (R : RegexCrate) (report : AdGuardParseReport)
    (raw : String) (lineNo : Nat) (isExclude : Bool) (rest : String) : Prop where
  entry : ∀ pattern, Closes R rest pattern →
    parseInto T R report (raw, lineNo) =
      { report with
        totalLines := report.totalLines + 1
        entries := report.entries ++ [domainEntry pattern (regexType isExclude)] }
  skipped : (∀ pattern, ¬ Closes R rest pattern) →
    parseInto T R report (raw, lineNo) =
      recordSkip { report with totalLines := report.totalLines + 1 } (lineNo + 1) (trim raw)

/-- A line is an entry of the report if its rule is. -/
theorem parseInto_eq_entry_iff {report : AdGuardParseReport} {raw : String} {lineNo : Nat}
    {rule : Option RuleEntry} (hparse : parseLine T R (trim raw) = .ofRule rule) (e : RuleEntry) :
    parseInto T R report (raw, lineNo) =
        { report with
          totalLines := report.totalLines + 1
          entries := report.entries ++ [e] } ↔
      rule = some e := by
  rw [parseInto, hparse]
  cases rule with
  | none =>
      refine iff_of_false ?_ (by simp)
      intro hentry
      have hcount := congrArg AdGuardParseReport.ignoredLines hentry
      simp [Parsed.ofRule, recordSkip] at hcount
  | some e' =>
      constructor
      · intro hentry
        have hentries := congrArg AdGuardParseReport.entries hentry
        simpa [Parsed.ofRule] using hentries
      · rintro ⟨⟩
        rfl

/-- A line is reported as skipped if it makes no rule. -/
theorem parseInto_eq_skip_iff {report : AdGuardParseReport} {raw : String} {lineNo : Nat}
    {rule : Option RuleEntry} (hparse : parseLine T R (trim raw) = .ofRule rule) :
    parseInto T R report (raw, lineNo) =
        recordSkip { report with totalLines := report.totalLines + 1 } (lineNo + 1) (trim raw) ↔
      rule = none := by
  rw [parseInto, hparse]
  cases rule with
  | none => exact iff_of_true rfl rfl
  | some e =>
      refine iff_of_false ?_ (by simp)
      intro hskip
      have hcount := congrArg AdGuardParseReport.ignoredLines hskip
      simp [Parsed.ofRule, recordSkip] at hcount

/-- Whatever is already in the report, a rule line is read as its slashes say
if and only if it has no comment mark and its first slash does what its last
one does. -/
theorem regex_line_iff (T : NetText) (R : RegexCrate) (report : AdGuardParseReport)
    {raw : String} (lineNo : Nat) {isExclude : Bool} {rest : String}
    (hline : trim raw = slashLine isExclude rest) :
    ReadsRegex T R report raw lineNo isExclude rest ↔
      isComment (trim raw) = false ∧ ClosedByFirst R rest := by
  have hne : trim raw ≠ "" := by
    rw [hline, slashLine]
    simp
  cases hcomment : isComment (trim raw) with
  | true =>
      have hpassed : parseInto T R report (raw, lineNo) =
          { report with totalLines := report.totalLines + 1 } := by
        rw [parseInto, parseLine, if_neg hne, hcomment, if_pos rfl]
      -- a comment gives no entry and no report
      refine iff_of_false ?_ (fun h => Bool.noConfusion h.1)
      intro hreads
      by_cases hcloses : ∃ pattern, Closes R rest pattern
      · obtain ⟨pattern, hpattern⟩ := hcloses
        have hentries := congrArg AdGuardParseReport.entries (hreads.entry pattern hpattern)
        rw [hpassed] at hentries
        simp at hentries
      · have hskip := hreads.skipped (not_exists.mp hcloses)
        have hcount := congrArg AdGuardParseReport.ignoredLines hskip
        rw [hpassed] at hcount
        simp [recordSkip] at hcount
  | false =>
      have hparse : parseLine T R (trim raw) = .ofRule (parseRegexRule R isExclude rest) := by
        rw [hline] at hcomment ⊢
        exact parseLine_slash hcomment
      rw [← parseRegexRule_exact_iff isExclude]
      constructor
      · intro hreads
        exact ⟨rfl, fun pattern hpattern =>
            (parseInto_eq_entry_iff hparse _).mp (hreads.entry pattern hpattern),
          fun hnone => (parseInto_eq_skip_iff hparse).mp (hreads.skipped hnone)⟩
      · rintro ⟨_, hentry, hnone⟩
        exact ⟨fun pattern hpattern =>
            (parseInto_eq_entry_iff hparse _).mpr (hentry pattern hpattern),
          fun hall => (parseInto_eq_skip_iff hparse).mpr (hnone hall)⟩

/-- A rule with a modifier. -/
theorem regex_line_ads :
    ReadsRegex zeroAddressText literalRegex {} "/ads/$important" 0 false "ads/$important" := by
  refine (regex_line_iff zeroAddressText literalRegex {} 0
    (show trim "/ads/$important" = slashLine false "ads/$important" by decide +kernel)).mpr ?_
  refine ⟨by decide +kernel, Or.inl ⟨"ads", by decide, "$important", by decide, rfl, ?_⟩⟩
  exact ⟨⟨by decide, by decide⟩, by decide, by decide⟩

/-- The path `/banner/ad.js` gives the pattern `banner`. -/
theorem url_path_makes_pattern :
    ¬ ReadsRegex zeroAddressText literalRegex {} "/banner/ad.js" 0 false "banner/ad.js" := by
  intro hreads
  have hnone : ∀ pattern, ¬ Closes literalRegex "banner/ad.js" pattern := by
    rintro pattern ⟨tail, htail, hrest, _, hmods, _⟩
    have hchars : ("banner").toList ++ '/' :: ("ad.js").toList =
        pattern.toList ++ '/' :: tail.toList := by
      have hlist := congrArg String.toList hrest
      simp only [String.toList_append, List.append_assoc, show ("/").toList = ['/'] from rfl,
        List.singleton_append] at hlist
      exact hlist
    have hparts := (List.append_cons_inj_of_notMem (by decide) (by decide)).mp hchars
    rw [String.toList_injective hparts.2.2.symm] at hmods
    revert hmods
    decide
  have hskip := congrArg AdGuardParseReport.ignoredLines (hreads.skipped hnone)
  revert hskip
  decide +kernel

end Relay.Ruleset.Adguard
