import Relay.Ruleset.Singbox
import Relay.Ruleset.TypedLines

/-!
One name in three formats. A text that is a domain without its dots at the end
takes no side branch of any parser, and each of them makes the same entry of it.
-/

namespace Relay.Ruleset

open Binary Dns Text

/-! ### The characters of a name -/

/-- The characters that `looks_like_domain` takes. -/
def isNameChar (c : Char) : Bool := c.isAlphanum || c == '.' || c == '-'

theorem isNameChar_eq (c : Char) :
    isNameChar c = (c.isUpper || c.isLower || c.isDigit || c == '.' || c == '-') := rfl

theorem isNameChar_toLower (c : Char) : isNameChar c.toLower = isNameChar c := by
  cases hupper : c.isUpper with
  | false => rw [toLower_of_not_isUpper hupper]
  | true =>
      obtain ⟨hlo, hhi, hlower⟩ := toNat_toLower_of_isUpper hupper
      have halpha : c.toLower.isLower = true := by
        rw [isLower_iff]
        omega
      rw [isNameChar_eq, isNameChar_eq, hupper, halpha, Bool.or_true]
      rfl

/-- A name character is no white space. -/
theorem not_isWhitespace_of_isNameChar {c : Char} (h : isNameChar c = true) :
    isWhitespace c = false := by
  have hrange : 45 ≤ c.toNat ∧ c.toNat ≤ 122 := by
    simp only [isNameChar_eq, Bool.or_eq_true, beq_iff_eq, isUpper_iff, isLower_iff,
      isDigit_iff] at h
    rcases h with (((h | h) | h) | rfl) | rfl
    · omega
    · omega
    · omega
    · decide
    · decide
  unfold isWhitespace
  simp only [Bool.or_eq_false_iff, Bool.and_eq_false_iff, decide_eq_false_iff_not,
    beq_eq_false_iff_ne]
  omega

theorem looksLikeDomain_toAsciiLowercase (s : String) :
    looksLikeDomain (toAsciiLowercase s) = looksLikeDomain s := by
  have hlist : (toAsciiLowercase s).toList = s.toList.map Char.toLower := by
    rw [toAsciiLowercase, String.toList_ofList]
  have hempty : toAsciiLowercase s ≠ "" ↔ s ≠ "" := by
    rw [Ne, Ne, ← String.toList_eq_nil_iff, hlist, List.map_eq_nil_iff, String.toList_eq_nil_iff]
  have hdot : ∀ o : Option Char, (o.map Char.toLower != some '.') = (o != some '.') := by
    intro o
    cases o with
    | none => rfl
    | some c =>
        rw [Bool.eq_iff_iff, bne_iff_ne, bne_iff_ne, Option.map_some, Ne, Ne, Option.some.injEq,
          Option.some.injEq, toLower_eq_dot]
  have hall : (s.toList.map Char.toLower).all isNameChar = s.toList.all isNameChar := by
    rw [List.all_map]
    congr 1
    exact funext isNameChar_toLower
  unfold looksLikeDomain
  rw [hlist, octets_length_toAsciiLowercase, List.head?_map, List.getLast?_map, hdot, hdot]
  simp only [hempty]
  exact congrArg _ hall

theorem trimEndDots_of_looksLikeDomain {s : String} (h : looksLikeDomain s = true) :
    trimEndDots s = s := by
  unfold looksLikeDomain at h
  simp only [Bool.and_eq_true, bne_iff_ne] at h
  exact trimEndMatches_eq_self h.1.2

/-- A domain, apart from dots at its end. -/
structure IsName (x : String) : Prop where
  chars : ∀ c ∈ x.toList, isNameChar c = true
  head : x.toList.head? ≠ some '.'
  ne : x ≠ ""

theorem isName_of_looksLikeDomain {x : String} (h : looksLikeDomain (trimEndDots x) = true) :
    IsName x := by
  obtain ⟨dots, hx, hdots⟩ := toList_eq_trimEndDots_append x
  unfold looksLikeDomain at h
  simp only [Bool.and_eq_true, bne_iff_ne, decide_eq_true_eq] at h
  obtain ⟨⟨⟨⟨hne, _⟩, hhead⟩, _⟩, hall⟩ := h
  obtain ⟨c, cs, hcs⟩ := List.exists_cons_of_ne_nil
    (show (trimEndDots x).toList ≠ [] by simpa using hne)
  refine ⟨?_, ?_, ?_⟩
  · intro d hd
    rw [hx] at hd
    rcases List.mem_append.mp hd with hin | hdot
    · exact List.all_eq_true.mp hall d hin
    · rw [hdots d hdot]
      rfl
  · rw [hx, hcs]
    rw [hcs] at hhead
    exact hhead
  · rintro rfl
    rw [hcs] at hx
    cases hx

theorem IsName.not_mem {x : String} (h : IsName x) {d : Char} (hd : isNameChar d = false) :
    d ∉ x.toList := by
  intro hmem
  rw [h.chars d hmem] at hd
  cases hd

theorem IsName.trim_eq {x : String} (h : IsName x) : trim x = x :=
  trim_eq_self fun c hc => not_isWhitespace_of_isNameChar (h.chars c hc)

theorem not_isWhitespace_append {s t : String} (hs : ∀ c ∈ s.toList, isWhitespace c = false)
    (ht : ∀ c ∈ t.toList, isWhitespace c = false) :
    ∀ c ∈ (s ++ t).toList, isWhitespace c = false := by
  intro c hc
  rw [String.toList_append] at hc
  rcases List.mem_append.mp hc with hin | hin
  · exact hs c hin
  · exact ht c hin

theorem IsName.not_isWhitespace {x : String} (h : IsName x) :
    ∀ c ∈ x.toList, isWhitespace c = false :=
  fun c hc => not_isWhitespace_of_isNameChar (h.chars c hc)

/-- The entry of a name for a type of rules. -/
def nameEntry (x : String) (ty : EntryType) : RuleEntry :=
  domainEntry (toAsciiLowercase (trimEndDots x)) ty

variable {T : NetText} {R : RegexCrate}

/-! ### mihomo -/

/-- The document of a list with these lines and nothing else. -/
def payloadOf (lines : List String) : YamlValue :=
  .mapping [(.string "payload", .sequence (lines.map .string))]

/-- The document with one line is that line. -/
theorem Mihomo.parseDoc_singleton (line : String) (behavior : Behavior) :
    parseDoc T R (payloadOf [line]) behavior = pushItem T R behavior [] (.string line, 0) := by
  have hfold : parseDoc T R (payloadOf [line]) behavior =
      (pushItem T R behavior [] (.string line, 0) >>= fun out => .ok out) := rfl
  rw [hfold]
  cases pushItem T R behavior [] (.string line, 0) <;> rfl

theorem Mihomo.pushName_nameEntry {x : String} (hx : looksLikeDomain (trimEndDots x) = true)
    (ty : EntryType) (out : List RuleEntry) : pushName x ty out = out ++ [nameEntry x ty] := by
  unfold pushName
  dsimp only
  rw [looksLikeDomain_toAsciiLowercase, if_pos hx]
  rfl

/-- The line `+.x`. -/
theorem Mihomo.parseDoc_plus {x : String} (hx : looksLikeDomain (trimEndDots x) = true)
    {behavior : Behavior} (hb : behavior.ReadsLines) :
    parseDoc T R (payloadOf ["+." ++ x]) behavior = .ok [nameEntry x .domainSuffix] := by
  have hname := isName_of_looksLikeDomain hx
  have htrim : trim ("+." ++ x) = "+." ++ x :=
    trim_eq_self (not_isWhitespace_append (not_isWhitespace_of_any rfl) hname.not_isWhitespace)
  have hcomma : ',' ∉ ("+." ++ x).toList := by
    rw [String.toList_append, List.mem_append, not_or]
    exact ⟨by decide, hname.not_mem rfl⟩
  have hmark : stripSuffixMark ("+." ++ x) = some x := by
    rw [stripSuffixMark, stripPrefix_append]
    rfl
  rw [parseDoc_singleton, pushItem_line hb (by simp [htrim]), htrim, pushClassicalOrAuto,
    splitOnce_eq_none (show (",").toList = [','] from rfl) hcomma]
  dsimp only
  rw [hmark]
  dsimp only
  rw [pushName_nameEntry hx, List.nil_append]

/-- The line `ty,x`, up to its type. -/
theorem Mihomo.parseDoc_typed (ty : String) {x : String} (hty : ∀ c ∈ ty.toList, isNameChar c = true)
    (hx : looksLikeDomain (trimEndDots x) = true) {behavior : Behavior}
    (hb : behavior.ReadsLines) :
    parseDoc T R (payloadOf [ty ++ "," ++ x]) behavior = pushTypedLine T R ty x 1 [] := by
  have hname := isName_of_looksLikeDomain hx
  have htrim : trim ty = ty :=
    trim_eq_self fun c hc => not_isWhitespace_of_isNameChar (hty c hc)
  have hcomma : ',' ∉ ty.toList := by
    intro hmem
    exact absurd (hty ',' hmem) (by decide)
  rw [parseDoc_singleton, pushItem_typed hb hcomma, htrim, typedValue_eq,
    beforeFirst_eq_self (hname.not_mem rfl), hname.trim_eq]

/-! ### AdGuard -/

/-- A line of a list in which nothing is trimmed, alone. -/
theorem Adguard.parse_line {line : String} {e : RuleEntry} (htrim : trim line = line)
    (hne : line ≠ "") (hline : '\n' ∉ line.toList) (h : parseLine T R line = .entry e) :
    (parse T R line).entries = [e] := by
  rw [parse, lines_eq_singleton hne hline]
  simp only [parseLines, List.zipIdx_cons, List.zipIdx_nil, List.foldl_cons, List.foldl_nil,
    parseInto, htrim, h]
  rfl

/-- A line without the two characters that a comment starts with. -/
theorem Adguard.isComment_eq_false {line : String} (hmark : '!' ∉ line.toList)
    (hhash : '#' ∉ line.toList) : isComment line = false := by
  have hhead : ∀ c, c ∉ line.toList → line.toList.head? ≠ some c :=
    fun c hc hin => hc (List.mem_of_mem_head? hin)
  rw [isComment, startsWith_eq_false rfl (hhead _ hmark), startsWith_eq_false rfl (hhead _ hhash),
    contains_eq_false (by decide) hhash, contains_eq_false (by decide) hhash,
    contains_eq_false (by decide) hhash]
  rfl

/-- A pipe, and then nothing but pipes, end marks and characters of names. -/
structure Adguard.IsPiped (line : String) : Prop where
  head : line.toList.head? = some '|'
  chars : ∀ c ∈ line.toList, isNameChar c = true ∨ c = '|' ∨ c = '^'

theorem Adguard.isPiped_of_isName {pipes x : String} (hhead : pipes.toList.head? = some '|')
    (hpipes : pipes.toList.all (· == '|') = true) (hname : IsName x) : IsPiped (pipes ++ (x ++ "^")) where
  head := by rw [String.toList_append, List.head?_append, hhead, Option.some_or]
  chars := by
    intro c hc
    rw [String.toList_append, String.toList_append, List.mem_append, List.mem_append] at hc
    rcases hc with hpipe | hin | hend
    · exact Or.inr (Or.inl (beq_iff_eq.mp (List.all_eq_true.mp hpipes c hpipe)))
    · exact Or.inl (hname.chars c hin)
    · exact Or.inr (Or.inr (List.mem_singleton.mp hend))

theorem Adguard.IsPiped.not_mem {line : String} (h : IsPiped line) {d : Char}
    (hd : isNameChar d = false ∧ d ≠ '|' ∧ d ≠ '^') : d ∉ line.toList := by
  intro hmem
  rcases h.chars d hmem with hname | hpipe | hend
  · rw [hd.1] at hname
    cases hname
  · exact hd.2.1 hpipe
  · exact hd.2.2 hend

theorem Adguard.IsPiped.not_isWhitespace {line : String} (h : IsPiped line) :
    ∀ c ∈ line.toList, isWhitespace c = false := by
  intro c hc
  rcases h.chars c hc with hname | rfl | rfl
  · exact not_isWhitespace_of_isNameChar hname
  · decide
  · decide

/-- A text without white space is no hosts line. -/
theorem Adguard.tryParseHostsLine_eq_none {line : String} (hne : line ≠ "")
    (hspace : ∀ c ∈ line.toList, isWhitespace c = false) : tryParseHostsLine T line = none := by
  have hcs : line.toList ≠ [] := by simpa using hne
  rw [tryParseHostsLine, splitWhitespace, List.splitOnP_eq_singleton hspace,
    List.filter_cons_of_pos (by simpa using hcs), List.filter_nil]
  rfl

/-- A line that starts with a pipe is neither a plain domain nor a pattern, and
has no scheme; without white space and these marks it is no comment and no hosts
line either, and it has no modifiers. -/
theorem Adguard.parseLine_pipe {line : String} (hpipe : line.toList.head? = some '|')
    (hmark : '!' ∉ line.toList) (hhash : '#' ∉ line.toList) (hdollar : '$' ∉ line.toList)
    (hspace : ∀ c ∈ line.toList, isWhitespace c = false) :
    parseLine T R line = .ofRule (parseBody R false line) := by
  have hhead : ∀ d, d ≠ '|' → line.toList.head? ≠ some d := by
    intro d hd
    rw [hpipe]
    rintro ⟨⟩
    exact hd rfl
  have hne : line ≠ "" := by
    rintro rfl
    simp at hpipe
  have hcomment : isComment line = false := isComment_eq_false hmark hhash
  have hraw : isRawDomainLine T line = false := by
    have hspecial : line.toList.any (fun c => " $|^*/:!#?&[]()~@".toList.contains c) = true :=
      List.any_eq_true.mpr ⟨'|', List.mem_of_mem_head? hpipe, by decide⟩
    rw [isRawDomainLine, if_pos hspecial]
  have hscheme : stripScheme line = line := by
    rw [stripScheme, stripPrefix_eq_none rfl (hhead _ (by decide)),
      stripPrefix_eq_none rfl (hhead _ (by decide))]
  have hmods : splitModifiers line = (line, []) := by
    rw [splitModifiers, splitOnce_eq_none rfl hdollar]
  rw [Adguard.parseLine, if_neg hne, hcomment, if_neg Bool.false_ne_true, hraw,
    if_neg Bool.false_ne_true, stripPrefix_eq_none rfl (hhead _ (by decide))]
  dsimp only
  rw [parseRule, stripPrefix_eq_none rfl (hhead _ (by decide))]
  dsimp only
  rw [hmods]
  dsimp only
  rw [if_neg (by decide), tryParseHostsLine_eq_none hne hspace]
  dsimp only
  rw [hscheme]

theorem Adguard.IsPiped.parseLine {line : String} (h : IsPiped line) :
    parseLine T R line = .ofRule (parseBody R false line) :=
  parseLine_pipe h.head (h.not_mem (by decide)) (h.not_mem (by decide)) (h.not_mem (by decide))
    h.not_isWhitespace

/-- The host part of a text with an end mark is the text. -/
theorem Adguard.stripAnchors_end {x : String} (hslash : '/' ∉ x.toList) (hend : '^' ∉ x.toList)
    (hspace : ∀ c ∈ x.toList, isWhitespace c = false) : stripAnchors (x ++ "^") = x := by
  have hfull : '/' ∉ (x ++ "^").toList := by
    rw [String.toList_append, List.mem_append, not_or]
    exact ⟨hslash, by decide⟩
  have hlast : (x ++ "^").toList.getLast? ≠ some '|' := by
    rw [String.toList_append]
    simp
  rw [stripAnchors, beforeFirst_eq_self hfull, trimEndMatches_eq_self hlast,
    beforeFirst_append rfl hend, trim_eq_self hspace]

theorem IsName.stripAnchors_end {x : String} (hname : IsName x) :
    Adguard.stripAnchors (x ++ "^") = x :=
  Adguard.stripAnchors_end (hname.not_mem rfl) (hname.not_mem rfl) hname.not_isWhitespace

/-- And so is the host of a text without any mark. -/
theorem Adguard.wildcardHost_eq_self {x : String} (hslash : '/' ∉ x.toList)
    (hend : '^' ∉ x.toList) (hpipe : '|' ∉ x.toList)
    (hspace : ∀ c ∈ x.toList, isWhitespace c = false) : wildcardHost x = x := by
  rw [wildcardHost, beforeFirst_eq_self hslash, beforeFirst_eq_self hend,
    trimEndMatches_eq_self fun hlast => hpipe (List.mem_of_getLast? hlast), trim_eq_self hspace]

private theorem IsName.head?_ne {x : String} (hname : IsName x) {d : Char}
    (hd : isNameChar d = false) (back : List Char) : (x.toList ++ back).head? ≠ some d := by
  obtain ⟨c, cs, hcs⟩ := List.exists_cons_of_ne_nil
    (show x.toList ≠ [] by simpa using hname.ne)
  intro hhead
  apply hname.not_mem hd
  rw [hcs] at hhead ⊢
  cases hhead
  exact List.mem_cons_self

private theorem normalizeDomainStr_trimEndDots (x : String) :
    Adguard.normalizeDomainStr (trimEndDots x) = toAsciiLowercase (trimEndDots x) := by
  rw [Adguard.normalizeDomainStr, trimEndDots_trimEndDots]

private theorem trimEndDots_ne {x : String} (hx : looksLikeDomain (trimEndDots x) = true) :
    trimEndDots x ≠ "" := by
  intro hempty
  rw [hempty] at hx
  cases hx

/-- The line `||x^`. -/
theorem Adguard.parse_suffix {x : String} (hx : looksLikeDomain (trimEndDots x) = true) :
    (parse T R ("||" ++ (x ++ "^"))).entries = [nameEntry x .domainSuffix] := by
  have hname := isName_of_looksLikeDomain hx
  have hpiped : IsPiped ("||" ++ (x ++ "^")) := isPiped_of_isName rfl rfl hname
  have hhost : wildcardHost x = x :=
    wildcardHost_eq_self (hname.not_mem rfl) (hname.not_mem rfl) (hname.not_mem rfl)
      hname.not_isWhitespace
  have hplain : parseWildcardOrPlain R x .domainSuffix = some (nameEntry x .domainSuffix) := by
    rw [parseWildcardOrPlain, hhost]
    dsimp only
    rw [if_neg hname.ne, contains_eq_false (p := '*') (by decide) (hname.not_mem rfl), if_pos Bool.false_ne_true,
      if_neg (by simp [trimEndDots_ne hx, hx]), normalizeDomainStr_trimEndDots]
    rfl
  apply parse_line (trim_eq_self hpiped.not_isWhitespace) (by simp) (hpiped.not_mem (by decide))
  rw [hpiped.parseLine, parseBody, stripPrefix_append]
  dsimp only
  rw [hname.stripAnchors_end, if_neg Bool.false_ne_true, hplain]
  rfl

/-- The line `|x^`. -/
theorem Adguard.parse_exact {x : String} (hx : looksLikeDomain (trimEndDots x) = true) :
    (parse T R ("|" ++ (x ++ "^"))).entries = [nameEntry x .domain] := by
  have hname := isName_of_looksLikeDomain hx
  have hpiped : IsPiped ("|" ++ (x ++ "^")) := isPiped_of_isName rfl rfl hname
  have hdouble : stripPrefix ("|" ++ (x ++ "^")) "||" = none := by
    have hsecond : stripPrefixChars ['|'] ((x ++ "^").toList) = none := by
      rw [String.toList_append]
      exact stripPrefixChars_eq_none (hname.head?_ne rfl _)
    rw [stripPrefix, String.toList_append]
    change (stripPrefixChars ['|'] (x ++ "^").toList).map String.ofList = none
    rw [hsecond]
    rfl
  have hlast : ("|" ++ (x ++ "^")).toList.getLast? ≠ some '|' := by
    rw [← String.append_assoc, String.toList_append, show ("^").toList = ['^'] from rfl,
      List.getLast?_concat]
    decide
  have hend : hasEnd ("|" ++ (x ++ "^")) = true := by
    rw [hasEnd, beforeFirst_eq_self (hpiped.not_mem (by decide)), trimEndMatches_eq_self hlast]
    apply contains_of_mem rfl
    rw [String.toList_append, String.toList_append]
    exact List.mem_append_right _ (List.mem_append_right _ (List.mem_singleton.mpr rfl))
  have hpipe : parseSinglePipe R false true (x ++ "^") = some (nameEntry x .domain) := by
    rw [parseSinglePipe, hname.stripAnchors_end]
    dsimp only
    rw [if_neg (trimEndDots_ne hx), if_pos rfl, if_pos hx, normalizeDomainStr_trimEndDots,
      if_neg Bool.false_ne_true]
    rfl
  apply parse_line (trim_eq_self hpiped.not_isWhitespace) (by simp) (hpiped.not_mem (by decide))
  rw [hpiped.parseLine, parseBody, hdouble]
  dsimp only
  rw [stripPrefix_append]
  dsimp only
  rw [hend, hpipe]
  rfl

/-! ### sing-box -/

/-- The document with one rule of one field. -/
def ruleOf (field : String) (value : JsonValue) : JsonValue :=
  .object [("rules", .array [.object [(field, value)]])]

theorem Singbox.pushDomain_nameEntry {x : String} (hx : looksLikeDomain (trimEndDots x) = true)
    (ty : EntryType) (out : List RuleEntry) : pushDomain x ty out = out ++ [nameEntry x ty] := by
  unfold pushDomain
  dsimp only
  rw [(isName_of_looksLikeDomain hx).trim_eq, if_neg (trimEndDots_ne hx),
    looksLikeDomain_toAsciiLowercase, if_pos hx]
  rfl

/-- The value `x` of `domain_suffix`. -/
theorem Singbox.parseDoc_suffix (debug : JsonValue → String) {value : JsonValue} {x : String}
    (hvalue : value.IsText x) (hx : looksLikeDomain (trimEndDots x) = true) :
    parseDoc T R debug (ruleOf "domain_suffix" value) = .ok [nameEntry x .domainSuffix] := by
  have hdot : stripPrefix x "." = none :=
    stripPrefix_eq_none rfl (isName_of_looksLikeDomain hx).head
  have hparse : parseDoc T R debug (ruleOf "domain_suffix" value) =
      .ok (pushDomain ((stripPrefix x ".").getD x) .domainSuffix []) := by
    rcases hvalue with rfl | rfl <;> rfl
  rw [hparse, hdot, Option.getD_none, pushDomain_nameEntry hx, List.nil_append]

/-- The value `x` of `domain`. -/
theorem Singbox.parseDoc_exact (debug : JsonValue → String) {value : JsonValue} {x : String}
    (hvalue : value.IsText x) (hx : looksLikeDomain (trimEndDots x) = true) :
    parseDoc T R debug (ruleOf "domain" value) = .ok [nameEntry x .domain] := by
  have hparse : parseDoc T R debug (ruleOf "domain" value) = .ok (pushDomain x .domain []) := by
    rcases hvalue with rfl | rfl <;> rfl
  rw [hparse, pushDomain_nameEntry hx, List.nil_append]

/-! ### All three -/

/-- Of a text that is a domain without its dots at the end, the three formats
make one entry: a suffix of `+.x`, `DOMAIN-SUFFIX,x`, `||x^` and
`domain_suffix`, and a domain of `DOMAIN,x`, `|x^` and `domain`. -/
theorem formats_agree (T : NetText) (R : RegexCrate) (debug : JsonValue → String)
    {behavior : Mihomo.Behavior} (hb : behavior.ReadsLines) {x : String}
    (hx : looksLikeDomain (trimEndDots x) = true) {value : JsonValue} (hvalue : value.IsText x) :
    (∃ e, Mihomo.parseDoc T R (payloadOf ["+." ++ x]) behavior = .ok [e] ∧
      Mihomo.parseDoc T R (payloadOf ["DOMAIN-SUFFIX," ++ x]) behavior = .ok [e] ∧
      (Adguard.parse T R ("||" ++ x ++ "^")).entries = [e] ∧
      Singbox.parseDoc T R debug (ruleOf "domain_suffix" value) = .ok [e]) ∧
    ∃ e, Mihomo.parseDoc T R (payloadOf ["DOMAIN," ++ x]) behavior = .ok [e] ∧
      (Adguard.parse T R ("|" ++ x ++ "^")).entries = [e] ∧
      Singbox.parseDoc T R debug (ruleOf "domain" value) = .ok [e] := by
  have hsuffix : Mihomo.parseDoc T R (payloadOf ["DOMAIN-SUFFIX," ++ x]) behavior =
      .ok [nameEntry x .domainSuffix] := by
    have htyped := Mihomo.parseDoc_typed (T := T) (R := R) "DOMAIN-SUFFIX"
      (List.all_eq_true.mp rfl) hx hb
    have hpush : Mihomo.pushTypedLine T R "DOMAIN-SUFFIX" x 1 [] =
        .ok (Mihomo.pushName x .domainSuffix []) := rfl
    rw [hpush, Mihomo.pushName_nameEntry hx, List.nil_append] at htyped
    exact htyped
  have hexact : Mihomo.parseDoc T R (payloadOf ["DOMAIN," ++ x]) behavior =
      .ok [nameEntry x .domain] := by
    have htyped := Mihomo.parseDoc_typed (T := T) (R := R) "DOMAIN"
      (List.all_eq_true.mp rfl) hx hb
    have hpush : Mihomo.pushTypedLine T R "DOMAIN" x 1 [] =
        .ok (Mihomo.pushName x .domain []) := rfl
    rw [hpush, Mihomo.pushName_nameEntry hx, List.nil_append] at htyped
    exact htyped
  rw [String.append_assoc, String.append_assoc]
  exact ⟨⟨nameEntry x .domainSuffix, Mihomo.parseDoc_plus hx hb, hsuffix, Adguard.parse_suffix hx,
      Singbox.parseDoc_suffix debug hvalue hx⟩,
    nameEntry x .domain, hexact, Adguard.parse_exact hx, Singbox.parseDoc_exact debug hvalue hx⟩

theorem formats_agree_mixed_case :
    ∃ e, Mihomo.parseDoc Adguard.zeroAddressText literalRegex (payloadOf ["+." ++ "A.1-.."])
        .auto = .ok [e] ∧
      (Adguard.parse Adguard.zeroAddressText literalRegex ("||" ++ "A.1-.." ++ "^")).entries =
        [e] := by
  obtain ⟨⟨e, hmihomo, _, hadguard, _⟩, _⟩ := formats_agree Adguard.zeroAddressText literalRegex
    (fun _ => "") (Or.inr rfl) (show looksLikeDomain (trimEndDots "A.1-..") = true by decide)
    (Or.inl rfl)
  exact ⟨e, hmihomo, hadguard⟩

end Relay.Ruleset
