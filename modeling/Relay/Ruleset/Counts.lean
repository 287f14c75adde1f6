import Relay.Binary.Reader
import Relay.Ruleset.SuffixMatch
import Relay.Ruleset.Untrusted

/-!
What the entry counts of a v2 file decide. The loader keeps those of the two
domain sets as flags of the matcher, and takes every other flag from what it
has loaded.
-/

namespace Relay.Ruleset

open Binary Text

variable {F : FstCrate} {R : RegexCrate}

/-! ### The headers of a file -/

/-- The offsets of the next `n` section headers, as the loader goes through them. -/
def headerOffsets (data : Bytes) : Nat → Nat → List Nat
  | 0, _ => []
  | n + 1, offset =>
      offset :: match readSectionHeader data offset with
        | .ok (_, _, byteLen, headerLen) =>
            headerOffsets data n (offset + headerLen + byteLen.toNat)
        | .error _ => []

/-- The entry count of the last section of a type among the next `n`. -/
def lastCount (ty : SectionType) (data : Bytes) : Nat → Nat → Nat → Nat
  | 0, _, current => current
  | n + 1, offset, current =>
      match readSectionHeader data offset with
      | .ok (found, entryCount, byteLen, headerLen) =>
          lastCount ty data n (offset + headerLen + byteLen.toNat)
            (if found = ty then entryCount.toNat else current)
      | .error _ => current

/-- The file says that it has entries of the type. -/
def countsEntries (ty : SectionType) (data : Bytes) : Bool :=
  decide (0 < lastCount ty data (sectionCountOf data) V2_HEADER_LEN 0)

/-- The byte belongs to no entry count of the next `n` headers. -/
def OutsideCounts (data : Bytes) (n offset i : Nat) : Prop :=
  ∀ header ∈ headerOffsets data n offset, i < header + 1 ∨ header + 5 ≤ i

/-- Two v2 files with the same bytes outside the entry counts. -/
structure SameButCounts (data data' : Bytes) : Prop where
  version : data[4]? = some VERSION_V2
  length : data'.length = data.length
  bytes : ∀ i, OutsideCounts data (sectionCountOf data) V2_HEADER_LEN i → data'[i]? = data[i]?

theorem readSectionHeader_ok {data : Bytes} {offset headerLen : Nat} {ty : SectionType}
    {entryCount byteLen : BitVec 32}
    (h : readSectionHeader data offset = .ok (ty, entryCount, byteLen, headerLen)) :
    headerLen = 9 ∧ offset + 9 ≤ data.length ∧
      (∃ code, data[offset]? = some code ∧ SectionType.fromU8 code = .ok ty) ∧
      byteLen = BitVec.ofNat 32 (ofLe ((data.drop (offset + 5)).take 4)) := by
  unfold readSectionHeader at h
  obtain ⟨expected, hexpected, h⟩ := run_bind_eq_ok.mp h
  obtain ⟨_, rfl⟩ := checkedAdd_eq_ok.mp hexpected
  split at h
  · cases h
  · rename_i hfits
    obtain ⟨code, hcode, h⟩ := run_bind_eq_ok.mp h
    obtain ⟨found, hfound, h⟩ := run_bind_eq_ok.mp h
    obtain ⟨count, _, h⟩ := run_bind_eq_ok.mp h
    obtain ⟨len, hlen, h⟩ := run_bind_eq_ok.mp h
    unfold readU32Le at hlen
    obtain ⟨word, hword, hlen⟩ := run_bind_eq_ok.mp hlen
    obtain ⟨_, rfl⟩ := slice_eq_ok.mp hword
    cases hlen
    cases h
    refine ⟨rfl, by omega, ⟨code, byteAt_eq_ok.mp hcode, hfound⟩, ?_⟩
    rw [Nat.add_sub_cancel_left]

theorem loadSections_ok {data : Bytes} {n offset : Nat} {acc out : Loading F}
    (h : loadSections F data (n + 1) offset acc = .ok out) :
    ∃ ty entryCount byteLen mid, readSectionHeader data offset = .ok (ty, entryCount, byteLen, 9) ∧
      offset + 9 + byteLen.toNat ≤ data.length ∧
      loadSection F ty entryCount.toNat ((data.drop (offset + 9)).take byteLen.toNat) acc =
        .ok mid ∧
      loadSections F data n (offset + 9 + byteLen.toNat) mid = .ok out := by
  rw [loadSections] at h
  obtain ⟨⟨ty, entryCount, byteLen, headerLen⟩, hheader, h⟩ := run_bind_eq_ok.mp h
  obtain ⟨rfl, _⟩ := readSectionHeader_ok hheader
  obtain ⟨expected, hexpected, h⟩ := run_bind_eq_ok.mp h
  obtain ⟨_, rfl⟩ := checkedAdd_eq_ok.mp hexpected
  split at h
  · cases h
  · rename_i hfits
    obtain ⟨section_, hsection, h⟩ := run_bind_eq_ok.mp h
    obtain ⟨_, rfl⟩ := slice_eq_ok.mp hsection
    obtain ⟨mid, hmid, h⟩ := run_bind_eq_ok.mp h
    rw [Nat.add_sub_cancel_left] at hmid
    exact ⟨ty, entryCount, byteLen, mid, hheader, by omega, hmid, h⟩

theorem le_of_mem_headerOffsets {data : Bytes} {n offset header : Nat}
    (h : header ∈ headerOffsets data n offset) : offset ≤ header := by
  induction n generalizing offset with
  | zero => cases h
  | succ n ih =>
      rw [headerOffsets] at h
      rcases List.mem_cons.mp h with rfl | hlater
      · exact Nat.le_refl _
      · split at hlater
        · have hle := ih hlater
          omega
        · cases hlater

/-! ### What is loaded beside the counts -/

def Loading.content (acc : Loading F) : Loading F :=
  { acc with
    domainCount := 0
    suffixCount := 0
    keywordCount := 0
    regexCount := 0
    ipv4CidrCount := 0
    ipv6CidrCount := 0
    portCount := 0
    excludeDomainCount := 0
    excludeSuffixCount := 0
    excludeRegexCount := 0 }

/-- A section's entry count is stored and nothing else. -/
theorem loadSection_content (ty : SectionType) (entryCount : Nat) (section_ : Bytes)
    (acc : Loading F) :
    (loadSection F ty entryCount section_ acc).map Loading.content =
      loadSection F ty 0 section_ acc.content := by
  have hstep : ∀ {α : Type} (read : Run DrsError α) (put put' : α → Loading F),
      (∀ a, (put a).content = put' a) →
        (read >>= fun a => .ok (put a)).map Loading.content = read >>= fun a => .ok (put' a) := by
    intro α read put put' hput
    cases read with
    | error e => rfl
    | ok a => exact congrArg Except.ok (hput a)
  cases ty <;> first | rfl | exact hstep _ _ _ (fun _ => rfl)

theorem loadSection_counts {ty : SectionType} {entryCount : Nat} {section_ : Bytes}
    {acc out : Loading F} (h : loadSection F ty entryCount section_ acc = .ok out) :
    out.domainCount = (if ty = .domainFst then entryCount else acc.domainCount) ∧
      out.suffixCount = if ty = .domainSuffixFst then entryCount else acc.suffixCount := by
  cases ty with
  | domain | domainSuffix =>
      cases h
      exact ⟨rfl, rfl⟩
  | _ =>
      obtain ⟨value, _, h⟩ := run_bind_eq_ok.mp h
      cases h
      exact ⟨rfl, rfl⟩

theorem loadSections_counts {data : Bytes} {n offset : Nat} {acc out : Loading F}
    (h : loadSections F data n offset acc = .ok out) :
    out.domainCount = lastCount .domainFst data n offset acc.domainCount ∧
      out.suffixCount = lastCount .domainSuffixFst data n offset acc.suffixCount := by
  induction n generalizing offset acc with
  | zero =>
      cases h
      exact ⟨rfl, rfl⟩
  | succ n ih =>
      obtain ⟨ty, entryCount, byteLen, mid, hheader, _, hmid, hrest⟩ := loadSections_ok h
      obtain ⟨hdomain, hsuffix⟩ := loadSection_counts hmid
      have hcounts := ih hrest
      rw [hdomain, hsuffix] at hcounts
      simp only [lastCount, hheader]
      exact hcounts

/-- Outside the entry counts two files have the same headers and sections. -/
theorem loadSections_content {data data' : Bytes} {n offset : Nat} {acc acc' out out' : Loading F}
    (hbytes : ∀ i, offset ≤ i → OutsideCounts data n offset i → data'[i]? = data[i]?)
    (hacc : acc'.content = acc.content) (h : loadSections F data n offset acc = .ok out)
    (h' : loadSections F data' n offset acc' = .ok out') : out'.content = out.content := by
  induction n generalizing offset acc acc' with
  | zero =>
      cases h
      cases h'
      exact hacc
  | succ n ih =>
      obtain ⟨ty, entryCount, byteLen, mid, hheader, hfits, hmid, hrest⟩ := loadSections_ok h
      obtain ⟨ty', entryCount', byteLen', mid', hheader', hfits', hmid', hrest'⟩ :=
        loadSections_ok h'
      have hoffsets : headerOffsets data (n + 1) offset =
          offset :: headerOffsets data n (offset + 9 + byteLen.toNat) := by
        rw [headerOffsets, hheader]
      -- The next header stands behind this section.
      have hhere : ∀ i, offset ≤ i → (i < offset + 1 ∨ offset + 5 ≤ i) →
          i < offset + 9 + byteLen.toNat → data'[i]? = data[i]? := by
        intro i hlo hoff hhi
        apply hbytes i hlo
        intro header hmem
        rw [hoffsets] at hmem
        rcases List.mem_cons.mp hmem with rfl | hlater
        · exact hoff
        · have hle := le_of_mem_headerOffsets hlater
          omega
      obtain ⟨_, _, ⟨code, hcode, hty⟩, hlen⟩ := readSectionHeader_ok hheader
      obtain ⟨_, _, ⟨code', hcode', hty'⟩, hlen'⟩ := readSectionHeader_ok hheader'
      have hsame : ty' = ty := by
        rw [hhere offset (Nat.le_refl _) (by omega) (by omega), hcode] at hcode'
        cases hcode'
        rw [hty] at hty'
        cases hty'
        rfl
      have hbehind : Agree (offset + 5) (offset + 9 + byteLen.toNat) data data' := by
        intro i hlo hhi
        exact hhere i (by omega) (by omega) hhi
      have hlength : byteLen' = byteLen := by
        rw [hlen', hlen, hbehind.slice (Nat.le_refl _) (by omega)]
      subst hsame
      subst hlength
      have hsection : (data'.drop (offset + 9)).take byteLen'.toNat =
          (data.drop (offset + 9)).take byteLen'.toNat := hbehind.slice (by omega) (by omega)
      apply ih _ _ hrest hrest'
      · intro i hlo hout
        apply hbytes i (by omega)
        intro header hmem
        rw [hoffsets] at hmem
        rcases List.mem_cons.mp hmem with rfl | hlater
        · omega
        · exact hout header hlater
      · have hcontent := loadSection_content ty' entryCount.toNat
          ((data.drop (offset + 9)).take byteLen'.toNat) acc
        have hcontent' := loadSection_content ty' entryCount'.toNat
          ((data'.drop (offset + 9)).take byteLen'.toNat) acc'
        rw [hmid] at hcontent
        rw [hmid', hsection, hacc, ← hcontent] at hcontent'
        exact Except.ok.inj hcontent'

/-! ### Two files that load -/

/-- Two loaded files with the same sets, patterns, ranges and ports. -/
structure DrsFile.SameSets (drs drs' : DrsFile F R) : Prop where
  domainFst : drs'.domainFst = drs.domainFst
  suffixFst : drs'.suffixFst = drs.suffixFst
  keywords : drs'.keywords = drs.keywords
  regexes : drs'.regexes = drs.regexes
  ipv4Ranges : drs'.ipv4Ranges = drs.ipv4Ranges
  ipv6Ranges : drs'.ipv6Ranges = drs.ipv6Ranges
  ports : drs'.ports = drs.ports
  excludeDomainFst : drs'.excludeDomainFst = drs.excludeDomainFst
  excludeSuffixFst : drs'.excludeSuffixFst = drs.excludeSuffixFst
  excludeRegexes : drs'.excludeRegexes = drs.excludeRegexes
  hasKeywordMatchers : drs'.hasKeywordMatchers = drs.hasKeywordMatchers
  hasRegexMatchers : drs'.hasRegexMatchers = drs.hasRegexMatchers
  hasIpMatchers : drs'.hasIpMatchers = drs.hasIpMatchers
  hasPortMatchers : drs'.hasPortMatchers = drs.hasPortMatchers

/-- What is made of the counts when the loader finishes. -/
theorem finishLoading_flags {buildTime : BitVec 64} {sourceHash : Bytes} {acc : Loading F}
    {drs : DrsFile F R} (h : finishLoading F R buildTime sourceHash acc = .ok drs) :
    drs.hasDomainMatchers = decide (0 < acc.domainCount) ∧
      drs.hasSuffixMatchers = decide (0 < acc.suffixCount) := by
  obtain ⟨regexes, _, h⟩ := run_bind_eq_ok.mp h
  obtain ⟨excludeRegexes, _, h⟩ := run_bind_eq_ok.mp h
  cases h
  exact ⟨rfl, rfl⟩

theorem finishLoading_sameSets {buildTime buildTime' : BitVec 64} {sourceHash sourceHash' : Bytes}
    {acc acc' : Loading F} {drs drs' : DrsFile F R} (hacc : acc'.content = acc.content)
    (h : finishLoading F R buildTime sourceHash acc = .ok drs)
    (h' : finishLoading F R buildTime' sourceHash' acc' = .ok drs') : drs.SameSets drs' := by
  simp only [Loading.content, Loading.mk.injEq] at hacc
  obtain ⟨hdomain, hsuffix, hexcludeDomain, hexcludeSuffix, hkeywords, hregex, hexcludeRegex,
    hipv4, hipv6, hports, _⟩ := hacc
  obtain ⟨regexes, hregexes, h⟩ := run_bind_eq_ok.mp h
  obtain ⟨excludeRegexes, hexcludes, h⟩ := run_bind_eq_ok.mp h
  obtain ⟨regexes', hregexes', h'⟩ := run_bind_eq_ok.mp h'
  obtain ⟨excludeRegexes', hexcludes', h'⟩ := run_bind_eq_ok.mp h'
  rw [hregex, hregexes] at hregexes'
  rw [hexcludeRegex, hexcludes] at hexcludes'
  cases hregexes'
  cases hexcludes'
  cases h
  cases h'
  exact ⟨hdomain, hsuffix, hkeywords, rfl, congrArg mergeRanges hipv4, congrArg mergeRanges hipv6,
    hports, hexcludeDomain, hexcludeSuffix, rfl, congrArg (fun k => !k.isEmpty) hkeywords, rfl,
    by rw [hipv4, hipv6], congrArg (fun p => !p.isEmpty) hports⟩

private theorem fromBytes_v2_ok {data : Bytes} {drs : DrsFile F R}
    (hversion : data[4]? = some VERSION_V2) (h : fromBytes F R data = .ok drs) :
    ∃ buildTime sourceHash acc, loadSections F data (sectionCountOf data) V2_HEADER_LEN {} =
      .ok acc ∧ finishLoading F R buildTime sourceHash acc = .ok drs := by
  rcases fromBytes_eq (F := F) (R := R) data with
    ⟨⟨e, he⟩, _⟩ | ⟨hlength, _, ⟨hother, _⟩ | ⟨_, hload⟩⟩
  · rw [he] at h
    cases h
  · rw [hversion] at hother
    cases hother
  · obtain ⟨buildTime, sourceHash, hloop⟩ := fromBytesV2_eq (F := F) (R := R) data hlength
    rw [hload, hloop, run_bind_eq_ok] at h
    obtain ⟨acc, hacc, hdrs⟩ := h
    exact ⟨buildTime, sourceHash, acc, hacc, hdrs⟩

/-- The flags of the domain sets are the file's counts. -/
theorem fromBytes_flags {data : Bytes} {drs : DrsFile F R}
    (hversion : data[4]? = some VERSION_V2) (h : fromBytes F R data = .ok drs) :
    drs.hasDomainMatchers = countsEntries .domainFst data ∧
      drs.hasSuffixMatchers = countsEntries .domainSuffixFst data := by
  obtain ⟨_, _, acc, hacc, hdrs⟩ := fromBytes_v2_ok hversion h
  obtain ⟨hdomain, hsuffix⟩ := finishLoading_flags hdrs
  obtain ⟨hdomainCount, hsuffixCount⟩ := loadSections_counts hacc
  rw [hdomain, hsuffix, hdomainCount, hsuffixCount]
  exact ⟨rfl, rfl⟩

theorem SameButCounts.sameSets {data data' : Bytes} (hsame : SameButCounts data data')
    {drs drs' : DrsFile F R} (h : fromBytes F R data = .ok drs)
    (h' : fromBytes F R data' = .ok drs') : data'[4]? = some VERSION_V2 ∧ drs.SameSets drs' := by
  have hheader : ∀ i, i < V2_HEADER_LEN → data'[i]? = data[i]? := by
    intro i hi
    apply hsame.bytes i
    intro header hmem
    have hle := le_of_mem_headerOffsets hmem
    omega
  have hversion' : data'[4]? = some VERSION_V2 := by
    rw [hheader 4 (by decide)]
    exact hsame.version
  have hfront : Agree 0 54 data data' := fun i _ hi => hheader i hi
  have hcount : sectionCountOf data' = sectionCountOf data := by
    unfold sectionCountOf
    rw [hfront.slice (Nat.zero_le _) (by omega)]
  obtain ⟨_, _, acc, hacc, hdrs⟩ := fromBytes_v2_ok hsame.version h
  obtain ⟨_, _, acc', hacc', hdrs'⟩ := fromBytes_v2_ok hversion' h'
  rw [hcount] at hacc'
  have hcontent := loadSections_content (fun i _ hout => hsame.bytes i hout) rfl hacc hacc'
  exact ⟨hversion', finishLoading_sameSets hcontent hdrs hdrs'⟩

/-! ### What the flags decide -/

theorem DrsFile.SameSets.matchesIp {drs drs' : DrsFile F R} (h : drs.SameSets drs')
    (ip : BitVec 32 ⊕ BitVec 128) : drs'.matchesIp ip = drs.matchesIp ip := by
  unfold DrsFile.matchesIp
  rw [h.hasIpMatchers, h.ipv4Ranges, h.ipv6Ranges]

theorem DrsFile.SameSets.matchesPort {drs drs' : DrsFile F R} (h : drs.SameSets drs')
    (port : BitVec 16) : drs'.matchesPort port = drs.matchesPort port := by
  unfold DrsFile.matchesPort
  rw [h.hasPortMatchers, h.ports]

theorem DrsFile.SameSets.domainIsExcluded {drs drs' : DrsFile F R} (h : drs.SameSets drs')
    (domain : String) : drs'.domainIsExcluded domain = drs.domainIsExcluded domain := by
  unfold DrsFile.domainIsExcluded
  rw [h.excludeDomainFst, h.excludeSuffixFst, h.excludeRegexes]

/-- What matches a domain behind both domain sets. -/
def DrsFile.behindSets (drs : DrsFile F R) (domain : String) : Option MatchResult :=
  if drs.hasKeywordMatchers && drs.keywords.any (containsText domain) then some .domainKeyword
  else if drs.hasRegexMatchers && Ruleset.accepts R drs.regexes domain then some .domainRegex
  else none

/-- The matcher as a function of its two flags. -/
theorem DrsFile.matchesNormalized_eq (drs : DrsFile F R) {domain : String} {excluded found : Bool}
    (hexcluded : drs.domainIsExcluded domain = .ok excluded)
    (hfound : holdsSuffix F drs.suffixFst domain = .ok found) :
    drs.matchesNormalized domain = .ok (
      if excluded then none
      else if drs.hasDomainMatchers && holds F drs.domainFst (octets domain) then some .domain
      else if drs.hasSuffixMatchers && found then some .domainSuffix
      else drs.behindSets domain) := by
  unfold DrsFile.matchesNormalized DrsFile.behindSets
  rw [hexcluded, run_ok_bind, hfound]
  cases excluded with
  | true => rfl
  | false =>
      cases drs.hasDomainMatchers && holds F drs.domainFst (octets domain) with
      | true => rfl
      | false =>
          cases drs.hasSuffixMatchers with
          | false =>
              simp only [Bool.false_eq_true, if_false, run_ok_bind, Bool.false_and]
              repeat' split
              all_goals rfl
          | true =>
              cases found with
              | true => rfl
              | false =>
                  simp only [Bool.false_eq_true, if_false, if_true, run_ok_bind, Bool.and_false]
                  repeat' split
                  all_goals rfl

theorem DrsFile.behindSets_ne (drs : DrsFile F R) (domain : String) :
    drs.behindSets domain ≠ some .domain ∧ drs.behindSets domain ≠ some .domainSuffix := by
  unfold DrsFile.behindSets
  repeat' split
  all_goals exact ⟨by simp, by simp⟩

theorem DrsFile.SameSets.behindSets {drs drs' : DrsFile F R} (h : drs.SameSets drs')
    (domain : String) : drs'.behindSets domain = drs.behindSets domain := by
  unfold DrsFile.behindSets
  rw [h.hasKeywordMatchers, h.keywords, h.hasRegexMatchers, h.regexes]

/-- Two results differ where a set that holds the domain is on in one of them
only. -/
private theorem flagged_eq_iff {excluded d d' s s' inDomains inSuffixes : Bool}
    {behind : Option MatchResult} (hbehind : behind ≠ some .domain ∧ behind ≠ some .domainSuffix) :
    (if excluded then none
      else if d' && inDomains then some .domain
      else if s' && inSuffixes then some .domainSuffix else behind) =
    (if excluded then none
      else if d && inDomains then some .domain
      else if s && inSuffixes then some .domainSuffix else behind) ↔
      (d = d' ∨ (inDomains = true → excluded = true)) ∧
        (s = s' ∨ (inSuffixes = true → excluded = true ∨ (d = true ∧ inDomains = true))) := by
  obtain ⟨hdomain, hsuffix⟩ := hbehind
  have hdomain' := hdomain.symm
  have hsuffix' := hsuffix.symm
  cases excluded <;> cases d <;> cases d' <;> cases s <;> cases s' <;> cases inDomains <;>
    cases inSuffixes <;> simp [hdomain, hdomain', hsuffix, hsuffix']

/-- Where the files count entries of one domain set differently, that set is
not what decides about any name. -/
def CountsDecideNothing (data data' : Bytes) (drs : DrsFile F R) : Prop :=
  (countsEntries .domainFst data = countsEntries .domainFst data' ∨
    ∀ domain, holds F drs.domainFst (octets domain) = true →
      drs.domainIsExcluded domain = .ok true) ∧
  (countsEntries .domainSuffixFst data = countsEntries .domainSuffixFst data' ∨
    ∀ domain, holdsSuffix F drs.suffixFst domain = .ok true →
      drs.domainIsExcluded domain = .ok true ∨
        countsEntries .domainFst data = true ∧ holds F drs.domainFst (octets domain) = true)

private theorem matchesNormalized_same_iff {data data' : Bytes} {drs drs' : DrsFile F R}
    (hsame : drs.SameSets drs')
    (hflags : drs.hasDomainMatchers = countsEntries .domainFst data ∧
      drs.hasSuffixMatchers = countsEntries .domainSuffixFst data)
    (hflags' : drs'.hasDomainMatchers = countsEntries .domainFst data' ∧
      drs'.hasSuffixMatchers = countsEntries .domainSuffixFst data') :
    (∀ domain, drs'.matchesNormalized domain = drs.matchesNormalized domain) ↔
      CountsDecideNothing data data' drs := by
  have hdomain : ∀ domain, (drs'.matchesNormalized domain = drs.matchesNormalized domain) ↔
      (countsEntries .domainFst data = countsEntries .domainFst data' ∨
        (holds F drs.domainFst (octets domain) = true → drs.domainIsExcluded domain = .ok true)) ∧
      (countsEntries .domainSuffixFst data = countsEntries .domainSuffixFst data' ∨
        (holdsSuffix F drs.suffixFst domain = .ok true →
          drs.domainIsExcluded domain = .ok true ∨
            countsEntries .domainFst data = true ∧
              holds F drs.domainFst (octets domain) = true)) := by
    intro domain
    obtain ⟨excluded, hexcluded⟩ : ∃ excluded, drs.domainIsExcluded domain = .ok excluded := by
      obtain ⟨result, hresult⟩ := drs.matchesNormalized_total domain
      obtain ⟨excluded, hexcluded, _⟩ := run_bind_eq_ok.mp hresult
      exact ⟨excluded, hexcluded⟩
    obtain ⟨found, hfound⟩ := holdsSuffix_total drs.suffixFst domain
    have hexcluded' : drs'.domainIsExcluded domain = .ok excluded :=
      (hsame.domainIsExcluded domain).trans hexcluded
    have hfound' : holdsSuffix F drs'.suffixFst domain = .ok found := by
      rw [hsame.suffixFst]
      exact hfound
    rw [drs.matchesNormalized_eq hexcluded hfound, drs'.matchesNormalized_eq hexcluded' hfound',
      hexcluded, hfound, hflags.1, hflags.2, hflags'.1, hflags'.2, hsame.domainFst,
      hsame.behindSets, Except.ok.injEq, flagged_eq_iff (drs.behindSets_ne domain)]
    simp only [Except.ok.injEq]
  unfold CountsDecideNothing
  simp only [hdomain]
  constructor
  · intro h
    refine ⟨?_, ?_⟩
    · rcases eq_or_ne (countsEntries .domainFst data) (countsEntries .domainFst data') with heq | hne
      · exact Or.inl heq
      · exact Or.inr fun domain => (h domain).1.resolve_left hne
    · rcases eq_or_ne (countsEntries .domainSuffixFst data)
          (countsEntries .domainSuffixFst data') with heq | hne
      · exact Or.inl heq
      · exact Or.inr fun domain => (h domain).2.resolve_left hne
  · rintro ⟨hfirst, hsecond⟩ domain
    exact ⟨hfirst.imp_right fun h => h domain, hsecond.imp_right fun h => h domain⟩

/-- Two v2 files that differ in entry counts only, and both load: addresses and
ports match the same; and so do names exactly when no name is decided by a
domain set that one file counts entries of and the other does not. -/
theorem matches_same_iff {data data' : Bytes} (hsame : SameButCounts data data')
    {drs drs' : DrsFile F R} (h : fromBytes F R data = .ok drs)
    (h' : fromBytes F R data' = .ok drs') :
    ((∀ name, drs'.matches name = drs.matches name) ∧
      (∀ domain, drs'.matchesNormalized domain = drs.matchesNormalized domain) ∧
      (∀ ip, drs'.matchesIp ip = drs.matchesIp ip) ∧
      ∀ port, drs'.matchesPort port = drs.matchesPort port) ↔
        CountsDecideNothing data data' drs := by
  obtain ⟨hversion', hsets⟩ := hsame.sameSets h h'
  rw [← matchesNormalized_same_iff hsets (fromBytes_flags hsame.version h)
    (fromBytes_flags hversion' h')]
  constructor
  · rintro ⟨_, hnormalized, _, _⟩
    exact hnormalized
  · intro hnormalized
    refine ⟨?_, hnormalized, hsets.matchesIp, hsets.matchesPort⟩
    intro name
    rw [DrsFile.matches_eq, DrsFile.matches_eq]
    exact hnormalized _

/-- A file with one domain set, of `a.com`, and an entry count for it. -/
def countedFile (entryCount : BitVec 32) : Bytes :=
  encodeHeader 0 (Vector.replicate 32 0) 1 ++
    Section.encode ⟨.domainFst, entryCount, [1, 5, 97, 46, 99, 111, 109]⟩

theorem countedFile_same (entryCount entryCount' : BitVec 32) :
    SameButCounts (countedFile entryCount) (countedFile entryCount') where
  version := rfl
  length := by simp [countedFile, Section.encode, encodeHeader]
  bytes := by
    intro i hi
    have hheader : 54 ∈ headerOffsets (countedFile entryCount)
        (sectionCountOf (countedFile entryCount)) V2_HEADER_LEN := List.mem_cons_self
    obtain ⟨front, back, hfront, hsplit⟩ : ∃ front back : Bytes, front.length = 55 ∧
        ∀ count, countedFile count = front ++ (toLe 4 count ++ back) :=
      ⟨encodeHeader 0 (Vector.replicate 32 0) 1 ++ [SectionType.domainFst.code],
        toLe 4 (7 : BitVec 32) ++ [1, 5, 97, 46, 99, 111, 109], rfl, fun _ => rfl⟩
    rw [hsplit, hsplit]
    rcases hi 54 hheader with hbefore | hbehind
    · rw [List.getElem?_append_left (by omega), List.getElem?_append_left (by omega)]
    · have hskip : ∀ count : BitVec 32,
          (front ++ (toLe 4 count ++ back))[i]? = back[i - 55 - 4]? := by
        intro count
        rw [List.getElem?_append_right (by omega), hfront,
          List.getElem?_append_right (by rw [toLe_length]; omega), toLe_length]
      rw [hskip, hskip]

theorem matches_same_iff_counted :
    ∃ drs drs', fromBytes listFst literalRegex (countedFile 1) = .ok drs ∧
      fromBytes listFst literalRegex (countedFile 2) = .ok drs' ∧
      ∀ name, drs'.matches name = drs.matches name := by
  have hsame := matches_same_iff (F := listFst) (R := literalRegex) (countedFile_same 1 2) rfl rfl
  exact ⟨_, _, rfl, rfl, (hsame.mpr ⟨Or.inl rfl, Or.inl rfl⟩).1⟩

/-- With a count of 0 the domain in the set matches no more. -/
theorem uncounted_domain_not_matched :
    ¬ ∀ (F : FstCrate) (R : RegexCrate) (data data' : Bytes) (drs drs' : DrsFile F R),
      SameButCounts data data' → fromBytes F R data = .ok drs → fromBytes F R data' = .ok drs' →
      (∀ name, drs'.matches name = drs.matches name) ∧
        (∀ domain, drs'.matchesNormalized domain = drs.matchesNormalized domain) ∧
        (∀ ip, drs'.matchesIp ip = drs.matchesIp ip) ∧
        ∀ port, drs'.matchesPort port = drs.matchesPort port := by
  intro hclaim
  have hsame := hclaim listFst literalRegex (countedFile 1) (countedFile 0) _ _
    (countedFile_same 1 0) rfl rfl
  have hdomain := hsame.2.1 "a.com"
  revert hdomain
  decide

end Relay.Ruleset
