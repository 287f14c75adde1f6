import Relay.Ruleset.CidrMatch
import Relay.Ruleset.OutputFile

/-!
What a compiled ruleset means. A build that succeeds writes a file that loads,
and for every domain, address and port the loaded ruleset says what the entries
of the inputs say, whichever input an entry is in, and however often.
-/

namespace Relay.Ruleset

open Binary Dns Text

variable {T : NetText} {R : RegexCrate} {S : SerdeCrates} {F : FstCrate}

/-! ### The meaning of entries -/

/-- The domains that an entry is about. -/
def RuleEntry.covers (R : RegexCrate) (e : RuleEntry) (domain : String) : Bool :=
  match e.ruleType with
  | .domain | .excludeDomain => e.domain == domain
  | .domainSuffix | .excludeDomainSuffix => isUnder domain e.domain
  | .domainKeyword => containsText domain e.domain
  | .domainRegex | .excludeDomainRegex => R.isMatch e.domain domain
  | .ipv4Cidr | .ipv6Cidr | .port => false

/-- An entry of the type that is about the domain. -/
def covered (R : RegexCrate) (entries : List RuleEntry) (domain : String) (ty : EntryType) : Bool :=
  entries.any fun e => decide (e.ruleType = ty) && e.covers R domain

/-- What entries say of a domain: the exceptions first. -/
def meaning (R : RegexCrate) (entries : List RuleEntry) (domain : String) : Option MatchResult :=
  if covered R entries domain .excludeDomain || covered R entries domain .excludeDomainSuffix ||
      covered R entries domain .excludeDomainRegex then none
  else if covered R entries domain .domain then some .domain
  else if covered R entries domain .domainSuffix then some .domainSuffix
  else if covered R entries domain .domainKeyword then some .domainKeyword
  else if covered R entries domain .domainRegex then some .domainRegex
  else none

def RuleEntry.ipv4Cidr? (e : RuleEntry) : Option (BitVec 32 × UInt8) :=
  match e.ruleType, e.cidr with
  | .ipv4Cidr, some (.v4 addr, bits) => some (addr, bits)
  | _, _ => none

def RuleEntry.ipv6Cidr? (e : RuleEntry) : Option (BitVec 128 × UInt8) :=
  match e.ruleType, e.cidr with
  | .ipv6Cidr, some (.v6 addr, bits) => some (addr, bits)
  | _, _ => none

def RuleEntry.port? (e : RuleEntry) : Option (BitVec 16 × BitVec 16) :=
  if e.ruleType = .port then e.port else none

/-- A loaded ruleset says what the entries say. -/
structure Means (entries : List RuleEntry) (drs : DrsFile F R) : Prop where
  domains : ∀ domain, drs.matches domain = .ok (meaning R entries (normalizeDomain domain))
  ips : ∀ ip, ∃ result, drs.matchesIp ip = .ok result ∧
    Exact (entries.filterMap (·.ipv4Cidr?)) (entries.filterMap (·.ipv6Cidr?)) ip result
  ports : ∀ port, drs.matchesPort port =
    (entries.filterMap (·.port?)).any fun range =>
      decide (range.1 ≤ port) && decide (port ≤ range.2)

/-- What the format can hold and the loader takes: strings that one byte can
count, patterns that compile as sets, and fewer than 2^32 entries and bytes. -/
structure FitsFormat (R : RegexCrate) (entries : List RuleEntry) (file : Bytes) : Prop where
  short : ∀ ty, ty = .domainKeyword ∨ ty = .domainRegex ∨ ty = .excludeDomainRegex →
    ∀ s ∈ named entries ty, (octets s).length ≤ 255
  patterns : ∀ ty, ty = .domainRegex ∨ ty = .excludeDomainRegex →
    ∃ set, loadRegexes R (named entries ty) = .ok set
  count : entries.length < 2 ^ 32
  size : file.length < 2 ^ 32

variable (T R S) in
/-- The entries of the inputs as they are read, in order. -/
def entriesRead (env : BuildEnv) (inputs : List (String × InputFormat)) : List RuleEntry :=
  inputs.flatMap fun input =>
    match env.readText input.1 with
    | .ok content => (parseInput T R S (input.2, content)).toOption.getD []
    | .error _ => []

/-! ### Gathering -/

/-- The buckets hold the entries, each by its type and in order. -/
structure Gathers (b : EntryBuckets) (entries : List RuleEntry) : Prop where
  strings : ∀ ty, ty.isNamed → b.strings ty = named entries ty
  ipv4 : b.ipv4Cidrs = entries.filterMap (·.ipv4Cidr?)
  ipv6 : b.ipv6Cidrs = entries.filterMap (·.ipv6Cidr?)
  ports : b.ports = entries.filterMap (·.port?)

theorem Gathers.start : Gathers {} [] where
  strings ty _ := by cases ty <;> rfl
  ipv4 := rfl
  ipv6 := rfl
  ports := rfl

/-- What one entry adds beside its string. -/
theorem push_numbers {b b' : EntryBuckets} {e : RuleEntry} (h : b.push R e = .ok b') :
    b'.ipv4Cidrs = b.ipv4Cidrs ++ e.ipv4Cidr?.toList ∧
      b'.ipv6Cidrs = b.ipv6Cidrs ++ e.ipv6Cidr?.toList ∧ b'.ports = b.ports ++ e.port?.toList := by
  obtain ⟨ty, domain, cidr, port⟩ := e
  unfold EntryBuckets.push at h
  cases ty with
  | domainRegex | excludeDomainRegex =>
      obtain ⟨_, _, hnext⟩ := run_bind_eq_ok.mp h
      cases hnext
      simp [RuleEntry.ipv4Cidr?, RuleEntry.ipv6Cidr?, RuleEntry.port?]
  | ipv4Cidr | ipv6Cidr =>
      dsimp only at h
      split at h
      · cases h
        simp [RuleEntry.ipv4Cidr?, RuleEntry.ipv6Cidr?, RuleEntry.port?]
      · cases h
      · cases h
        simp [RuleEntry.ipv4Cidr?, RuleEntry.ipv6Cidr?, RuleEntry.port?]
  | port =>
      dsimp only at h
      split at h
      · cases h
        simp [RuleEntry.ipv4Cidr?, RuleEntry.ipv6Cidr?, RuleEntry.port?]
      · cases h
        simp [RuleEntry.ipv4Cidr?, RuleEntry.ipv6Cidr?, RuleEntry.port?]
  | _ =>
      cases h
      simp [RuleEntry.ipv4Cidr?, RuleEntry.ipv6Cidr?, RuleEntry.port?]

theorem Gathers.push {b b' : EntryBuckets} {entries : List RuleEntry} {e : RuleEntry}
    (h : Gathers b entries) (hpush : b.push R e = .ok b') : Gathers b' (entries ++ [e]) := by
  obtain ⟨hipv4, hipv6, hports⟩ := push_numbers hpush
  refine ⟨?_, ?_, ?_, ?_⟩
  · intro ty hnamed
    rw [EntryBuckets.push_strings hpush hnamed, h.strings ty hnamed]
    simp [named]
  · rw [hipv4, h.ipv4, List.filterMap_append, List.filterMap_cons, List.filterMap_nil]
    cases e.ipv4Cidr? <;> rfl
  · rw [hipv6, h.ipv6, List.filterMap_append, List.filterMap_cons, List.filterMap_nil]
    cases e.ipv6Cidr? <;> rfl
  · rw [hports, h.ports, List.filterMap_append, List.filterMap_cons, List.filterMap_nil]
    cases e.port? <;> rfl

theorem Gathers.entries {b b' : EntryBuckets} {before entries : List RuleEntry}
    (h : Gathers b before) (hpush : entries.foldlM (pushEntry R) b = .ok b') :
    Gathers b' (before ++ entries) := by
  induction entries generalizing b before with
  | nil =>
      cases hpush
      rw [List.append_nil]
      exact h
  | cons e entries ih =>
      rw [List.foldlM_cons] at hpush
      obtain ⟨next, hnext, hrest⟩ := run_bind_eq_ok.mp hpush
      have hone : b.push R e = .ok next := by
        unfold pushEntry at hnext
        cases hstep : b.push R e with
        | error _ =>
            rw [hstep] at hnext
            cases hnext
        | ok _ =>
            rw [hstep] at hnext
            cases hnext
            rfl
      have hall := ih (h.push hone) hrest
      rwa [List.append_assoc] at hall

/-- The loop over the inputs. -/
theorem Gathers.inputs {env : BuildEnv} {inputs : List (String × InputFormat)}
    {b b' : EntryBuckets} {before : List RuleEntry} (h : Gathers b before)
    (hread : inputs.foldlM (readInput T R S env) b = .ok b') :
    Gathers b' (before ++ entriesRead T R S env inputs) := by
  induction inputs generalizing b before with
  | nil =>
      cases hread
      rw [entriesRead, List.flatMap_nil, List.append_nil]
      exact h
  | cons input inputs ih =>
      rw [List.foldlM_cons] at hread
      obtain ⟨next, hnext, hrest⟩ := run_bind_eq_ok.mp hread
      unfold readInput at hnext
      split at hnext
      · cases hnext
      · rename_i content hcontent
        obtain ⟨entries, hparse, hpush⟩ := run_bind_eq_ok.mp hnext
        have hall := ih (h.entries hpush) hrest
        rw [List.append_assoc] at hall
        rw [entriesRead, List.flatMap_cons, hcontent]
        dsimp only
        rw [hparse]
        exact hall

theorem parseInput_wellFormed {input : InputFormat × String} {entries : List RuleEntry}
    (h : parseInput T R S input = .ok entries) : AllWellFormed R entries := by
  unfold parseInput at h
  split at h
  · exact Mihomo.parseWithBehavior_wellFormed h
  · rw [← Except.ok.inj h]
    exact Adguard.parse_wellFormed input.2
  · exact Singbox.parse_wellFormed h

theorem entriesRead_wellFormed (env : BuildEnv) (inputs : List (String × InputFormat)) :
    AllWellFormed R (entriesRead T R S env inputs) := by
  intro e he
  obtain ⟨input, _, he⟩ := List.mem_flatMap.mp he
  split at he
  · rename_i content _
    cases hparse : parseInput T R S (input.2, content) with
    | error _ =>
        rw [hparse] at he
        cases he
    | ok entries =>
        rw [hparse] at he
        exact parseInput_wellFormed hparse e he
  · cases he

/-! ### The verdict of the buckets -/

theorem any_named (entries : List RuleEntry) (ty : EntryType) (p : String → Bool) :
    (named entries ty).any p = entries.any fun e => decide (e.ruleType = ty) && p e.domain := by
  rw [named, List.any_map, List.any_filter]
  rfl

/-- What the entries of one type say, with what the type makes of its string. -/
theorem covered_eq {entries : List RuleEntry} {domain : String} {ty : EntryType}
    {p : String → Bool}
    (h : ∀ e : RuleEntry, e.ruleType = ty → e.covers R domain = p e.domain) :
    covered R entries domain ty = (named entries ty).any p := by
  rw [any_named]
  unfold covered
  congr 1
  funext e
  by_cases hty : e.ruleType = ty
  · rw [h e hty]
  · rw [decide_eq_false hty, Bool.false_and, Bool.false_and]

theorem covered_name (entries : List RuleEntry) (domain : String) {ty : EntryType}
    (hty : ty = .domain ∨ ty = .excludeDomain) :
    covered R entries domain ty = (named entries ty).contains domain := by
  rw [List.contains_eq_any_beq]
  apply covered_eq (p := fun s => domain == s)
  intro e he
  rw [BEq.comm (a := domain)]
  unfold RuleEntry.covers
  rcases hty with rfl | rfl
  · rw [he]
  · rw [he]

theorem covered_suffix (entries : List RuleEntry) (domain : String) {ty : EntryType}
    (hty : ty = .domainSuffix ∨ ty = .excludeDomainSuffix) :
    covered R entries domain ty = (named entries ty).any (isUnder domain) := by
  apply covered_eq
  intro e he
  unfold RuleEntry.covers
  rcases hty with rfl | rfl
  · rw [he]
  · rw [he]

theorem covered_keyword (entries : List RuleEntry) (domain : String) :
    covered R entries domain .domainKeyword =
      (named entries .domainKeyword).any (containsText domain) := by
  apply covered_eq
  intro e he
  unfold RuleEntry.covers
  rw [he]

theorem covered_regex (entries : List RuleEntry) (domain : String) {ty : EntryType}
    (hty : ty = .domainRegex ∨ ty = .excludeDomainRegex) :
    covered R entries domain ty = (named entries ty).any fun p => R.isMatch p domain := by
  apply covered_eq (p := fun s => R.isMatch s domain)
  intro e he
  unfold RuleEntry.covers
  rcases hty with rfl | rfl
  · rw [he]
  · rw [he]

/-- Entries that fit all reach the file. -/
theorem Gathers.kept_eq {b : EntryBuckets} {entries : List RuleEntry} {file : Bytes}
    (h : Gathers b entries) (hfits : FitsFormat R entries file) : b.kept = b := by
  have hshort : ∀ ty, ty = .domainKeyword ∨ ty = .domainRegex ∨ ty = .excludeDomainRegex →
      ty.isNamed → shortStrings (b.strings ty) = b.strings ty := by
    intro ty hty hnamed
    rw [h.strings ty hnamed]
    exact shortStrings_eq (hfits.short ty hty)
  have hkeywords := hshort .domainKeyword (.inl rfl) rfl
  have hregexes := hshort .domainRegex (.inr (.inl rfl)) rfl
  have hexRegexes := hshort .excludeDomainRegex (.inr (.inr rfl)) rfl
  change shortStrings b.keywords = b.keywords at hkeywords
  change shortStrings b.regexes = b.regexes at hregexes
  change shortStrings b.excludeRegexes = b.excludeRegexes at hexRegexes
  unfold EntryBuckets.kept
  rw [hkeywords, hregexes, hexRegexes]

theorem Gathers.verdict_eq {b : EntryBuckets} {entries : List RuleEntry}
    (h : Gathers b entries) (domain : String) : b.verdict R domain = meaning R entries domain := by
  have hdomains : b.domains = named entries .domain := h.strings .domain rfl
  have hsuffixes : b.suffixes = named entries .domainSuffix := h.strings .domainSuffix rfl
  have hkeywords : b.keywords = named entries .domainKeyword := h.strings .domainKeyword rfl
  have hregexes : b.regexes = named entries .domainRegex := h.strings .domainRegex rfl
  have hexDomains : b.excludeDomains = named entries .excludeDomain :=
    h.strings .excludeDomain rfl
  have hexSuffixes : b.excludeSuffixes = named entries .excludeDomainSuffix :=
    h.strings .excludeDomainSuffix rfl
  have hexRegexes : b.excludeRegexes = named entries .excludeDomainRegex :=
    h.strings .excludeDomainRegex rfl
  unfold EntryBuckets.verdict EntryBuckets.excludes meaning
  rw [hdomains, hsuffixes, hkeywords, hregexes, hexDomains, hexSuffixes, hexRegexes,
    covered_name entries domain (.inl rfl), covered_name entries domain (.inr rfl),
    covered_suffix entries domain (.inl rfl), covered_suffix entries domain (.inr rfl),
    covered_keyword, covered_regex entries domain (.inl rfl),
    covered_regex entries domain (.inr rfl)]

/-- The empty domain is under no name but itself. -/
theorem isUnder_empty {s : String} (h : s ≠ "") : isUnder "" s = false := by
  unfold isUnder
  rw [decide_eq_false_iff_not, not_or]
  refine ⟨Ne.symm h, ?_⟩
  intro hsuffix
  have hlength := hsuffix.length_le
  simp [octets, String.toByteArray_append] at hlength

theorem named_length_le (entries : List RuleEntry) (ty : EntryType) :
    (named entries ty).length ≤ entries.length := by
  rw [named, List.length_map]
  exact List.length_filter_le _ entries

theorem Gathers.countsFit {b : EntryBuckets} {entries : List RuleEntry} (h : Gathers b entries)
    (hcount : entries.length < 2 ^ 32) : b.CountsFit := by
  have hwrap : ∀ ty : EntryType, 2 ^ 32 ∣ (named entries ty).dedup.length →
      named entries ty = [] := by
    intro ty hdvd
    have hle := (List.dedup_sublist (named entries ty)).length_le
    have hnamed := named_length_le entries ty
    have hzero := Nat.eq_zero_of_dvd_of_lt hdvd (by omega)
    exact (List.dedup_eq_nil _).mp (List.length_eq_zero_iff.mp hzero)
  have hdomains : b.domains = named entries .domain := h.strings .domain rfl
  have hsuffixes : b.suffixes = named entries .domainSuffix := h.strings .domainSuffix rfl
  constructor
  · rw [hdomains]
    exact hwrap .domain
  · rw [hsuffixes]
    exact hwrap .domainSuffix

/-- No suffix covers the empty domain. -/
theorem any_isUnder_empty {entries : List RuleEntry} (hwell : AllWellFormed R entries)
    {ty : EntryType} (hty : ty = .domainSuffix ∨ ty = .excludeDomainSuffix) :
    (named entries ty).any (isUnder "") = false := by
  rw [any_named, List.any_eq_false]
  intro e he hcovers
  rw [Bool.and_eq_true, decide_eq_true_eq] at hcovers
  obtain ⟨htype, hunder⟩ := hcovers
  have hform : looksLikeDomain e.domain = true := by
    have hentry := hwell e he
    unfold RuleEntry.WellFormed at hentry
    rcases hty with rfl | rfl
    · rw [htype] at hentry
      exact hentry.1
    · rw [htype] at hentry
      exact hentry.1
  have hne : e.domain ≠ "" := by
    rintro hempty
    rw [hempty] at hform
    cases hform
  rw [isUnder_empty hne] at hunder
  cases hunder

/-- A lookup consults all entries. -/
theorem Gathers.consulted_verdict {b : EntryBuckets} {entries : List RuleEntry}
    (h : Gathers b entries) (hwell : AllWellFormed R entries) (hcount : entries.length < 2 ^ 32)
    (domain : String) : (b.consulted domain).verdict R domain = meaning R entries domain := by
  rw [← h.verdict_eq]
  have hfit := h.countsFit hcount
  by_cases hne : domain = ""
  · subst hne
    have hsuffixes : b.suffixes = named entries .domainSuffix := h.strings .domainSuffix rfl
    have hexSuffixes : b.excludeSuffixes = named entries .excludeDomainSuffix :=
      h.strings .excludeDomainSuffix rfl
    have hdomains : (b.consulted "").domains = b.domains := by
      unfold EntryBuckets.consulted
      dsimp only
      split
      · rename_i hdvd
        exact (hfit.domains hdvd).symm
      · rfl
    have hnoSuffixes : (b.consulted "").suffixes = [] := by
      simp [EntryBuckets.consulted]
    have hnoExclusions : (b.consulted "").excludeSuffixes = [] := by
      simp [EntryBuckets.consulted]
    unfold EntryBuckets.verdict EntryBuckets.excludes
    rw [hdomains, hnoSuffixes, hnoExclusions, hsuffixes, hexSuffixes,
      any_isUnder_empty hwell (.inl rfl), any_isUnder_empty hwell (.inr rfl)]
    rfl
  · rw [hfit.consulted_eq hne]

/-! ### The file -/

/-- A section is no longer than its file. -/
theorem writeV2_sections {b : EntryBuckets} {now : BitVec 64} {sourceHash : Vector UInt8 32}
    {file : Bytes} {stats : BuildStats} (h : writeV2 F now b sourceHash = .ok (file, stats))
    {sections : List Section} (hsections : buildSections F b = .ok sections) :
    ∀ s ∈ sections, s.bytes.length ≤ file.length := by
  intro s hs
  unfold writeV2 at h
  rw [hsections] at h
  cases h
  cases hwritten : s.isWritten with
  | false =>
      have hempty : s.bytes = [] := by simpa [Section.isWritten] using hwritten
      rw [hempty]
      exact Nat.zero_le _
  | true =>
      have hmem : s.encode ∈ (sections.filter Section.isWritten).map Section.encode :=
        List.mem_map_of_mem (List.mem_filter.mpr ⟨hs, hwritten⟩)
      have hle := List.Sublist.length_le (List.sublist_flatten_of_mem hmem)
      rw [List.length_append, List.flatMap_def]
      have hencode : s.bytes.length ≤ s.encode.length := by
        rw [Section.encode, List.length_append]
        omega
      omega

theorem finishLoading_ports {buildTime : BitVec 64} {sourceHash : Bytes} {acc : Loading F}
    {drs : DrsFile F R} (h : finishLoading F R buildTime sourceHash acc = .ok drs)
    (port : BitVec 16) : drs.matchesPort port =
      acc.ports.any fun range => decide (range.1 ≤ port) && decide (port ≤ range.2) := by
  obtain ⟨_, _, h⟩ := run_bind_eq_ok.mp h
  obtain ⟨_, _, h⟩ := run_bind_eq_ok.mp h
  cases h
  unfold DrsFile.matchesPort
  dsimp only
  cases acc.ports <;> rfl

/-- No prefix exceeds its address. -/
theorem Gathers.prefixes {b : EntryBuckets} {entries : List RuleEntry} (h : Gathers b entries)
    (hwell : AllWellFormed R entries) :
    (∀ c ∈ b.ipv4Cidrs, c.2.toNat ≤ 32) ∧ ∀ c ∈ b.ipv6Cidrs, c.2.toNat ≤ 128 := by
  constructor
  · rw [h.ipv4]
    intro c hc
    obtain ⟨e, he, hcidr⟩ := List.mem_filterMap.mp hc
    have hentry := hwell e he
    unfold RuleEntry.ipv4Cidr? at hcidr
    split at hcidr
    · rename_i addr bits htype haddr
      cases hcidr
      unfold RuleEntry.WellFormed at hentry
      rw [htype] at hentry
      obtain ⟨_, _, hsome, hnetwork⟩ := hentry
      rw [haddr] at hsome
      cases hsome
      exact hnetwork.1
    · cases hcidr
  · rw [h.ipv6]
    intro c hc
    obtain ⟨e, he, hcidr⟩ := List.mem_filterMap.mp hc
    have hentry := hwell e he
    unfold RuleEntry.ipv6Cidr? at hcidr
    split at hcidr
    · rename_i addr bits htype haddr
      cases hcidr
      unfold RuleEntry.WellFormed at hentry
      rw [htype] at hentry
      obtain ⟨_, _, hsome, hnetwork⟩ := hentry
      rw [haddr] at hsome
      cases hsome
      exact hnetwork.1
    · cases hcidr

/-- The patterns of entries that fit compile as sets. -/
theorem Gathers.setsCompile {b : EntryBuckets} {entries : List RuleEntry} {file : Bytes}
    (h : Gathers b entries) (hfits : FitsFormat R entries file) : b.SetsCompile R := by
  have hregexes : b.regexes = named entries .domainRegex := h.strings .domainRegex rfl
  have hexRegexes : b.excludeRegexes = named entries .excludeDomainRegex :=
    h.strings .excludeDomainRegex rfl
  constructor
  · rw [hregexes]
    exact hfits.patterns _ (.inl rfl)
  · rw [hexRegexes]
    exact hfits.patterns _ (.inr rfl)

/-- Written buckets load and mean their entries. -/
theorem Gathers.means (hF : F.Lawful) (hR : R.MatchesAny) {b : EntryBuckets}
    {entries : List RuleEntry} (h : Gathers b entries) (hwell : AllWellFormed R entries)
    {now : BitVec 64} {sourceHash : Vector UInt8 32} {file : Bytes} {stats : BuildStats}
    (hwrite : writeV2 F now b sourceHash = .ok (file, stats))
    (hfits : FitsFormat R entries file) : ∃ drs, fromBytes F R file = .ok drs ∧ Means entries drs := by
  obtain ⟨hprefix4, hprefix6⟩ := h.prefixes hwell
  have hsize : ∀ sections, buildSections F b = .ok sections → ∀ s ∈ sections,
      s.bytes.length < 2 ^ 32 := by
    intro sections hsections s hs
    exact Nat.lt_of_le_of_lt (writeV2_sections hwrite hsections s hs) hfits.size
  have hencodable := EntryBuckets.kept_encodable hprefix4 hprefix6 hsize
  rw [h.kept_eq hfits] at hencodable
  obtain ⟨sets, hholds, hload⟩ := fromBytes_written (R := R) hF hencodable hwrite
  obtain ⟨drs, hfinish, hverdict⟩ :=
    finishLoading_loaded hR (h.setsCompile hfits) hholds now sourceHash.toList
  refine ⟨drs, hload.trans hfinish, ?_, ?_, ?_⟩
  · intro domain
    rw [DrsFile.matches_eq, hverdict, h.consulted_verdict hwell hfits.count]
    rfl
  · intro ip
    rw [← h.ipv4, ← h.ipv6]
    exact matchesIp_loaded hfinish rfl rfl hprefix4 hprefix6 ip
  · intro port
    rw [← h.ports, finishLoading_ports hfinish]
    rfl

/-- What a build that succeeds has written. -/
theorem buildOutput_ok {env : BuildEnv} {inputs : List (String × InputFormat)}
    {output : Option Bytes} {stats : BuildStats} {file : Bytes}
    (h : buildOutput T R S F env inputs output = (.ok stats, some file)) :
    ∃ b sourceHash, Gathers b (entriesRead T R S env inputs) ∧
      writeV2 F env.now b sourceHash = .ok (file, stats) := by
  unfold buildOutput at h
  cases hgather : gatherInputs T R S env inputs with
  | error e =>
      rw [hgather] at h
      cases h
  | ok gathered =>
      obtain ⟨b, sourceHash⟩ := gathered
      rw [hgather] at h
      obtain ⟨b', hread, hgather⟩ := run_bind_eq_ok.mp hgather
      obtain ⟨hash, _, hgather⟩ := run_bind_eq_ok.mp hgather
      cases hgather
      have hgathers : Gathers b (entriesRead T R S env inputs) := Gathers.start.inputs hread
      cases hcreate : env.create with
      | error e =>
          rw [hcreate] at h
          cases h
      | ok _ =>
          rw [hcreate] at h
          unfold writeTo at h
          dsimp only at h
          refine ⟨b, sourceHash, hgathers, ?_⟩
          cases hwrite : writeV2 F env.now b sourceHash with
          | error e =>
              rw [hwrite] at h
              cases h
          | ok written =>
              obtain ⟨bytes, stats'⟩ := written
              rw [hwrite] at h
              dsimp only at h
              cases hroom : env.room with
              | none =>
                  rw [hroom] at h
                  cases h
                  rfl
              | some limit =>
                  obtain ⟨room, e⟩ := limit
                  rw [hroom] at h
                  dsimp only at h
                  split at h
                  · cases h
                    rfl
                  · cases h

/-- A build that succeeds, of entries that the format can hold, writes a ruleset
that loads and means the entries of its inputs. -/
theorem compiled_means_entries (hF : F.Lawful) (hR : R.MatchesAny) {env : BuildEnv}
    {inputs : List (String × InputFormat)} {output : Option Bytes} {stats : BuildStats}
    {file : Bytes} (h : buildOutput T R S F env inputs output = (.ok stats, some file))
    (hfits : FitsFormat R (entriesRead T R S env inputs) file) :
    ∃ drs, fromBytes F R file = .ok drs ∧ Means (entriesRead T R S env inputs) drs := by
  obtain ⟨b, sourceHash, hgathers, hwrite⟩ := buildOutput_ok h
  exact hgathers.means hF hR (entriesRead_wellFormed env inputs) hwrite hfits

/-- The crates on a document of one keyword. -/
def oneKeyword : SerdeCrates where
  yaml _ := .ok (payloadOf ["DOMAIN-KEYWORD,ads"])
  json _ := .error "no document"
  debug _ := ""

def keywordEnv : BuildEnv := oneInput "payload:\n- DOMAIN-KEYWORD,ads\n"

theorem keywords_fit (n : Nat) (hn : n < 2 ^ 32) {file : Bytes} (hsize : file.length < 2 ^ 32) :
    FitsFormat literalRegex (List.replicate n (domainEntry "ads" .domainKeyword)) file where
  short ty _ s hs := by
    obtain ⟨e, he, rfl⟩ := List.mem_map.mp hs
    rw [List.eq_of_mem_replicate (List.mem_filter.mp he).1]
    decide
  patterns ty hty := by
    have hnone : named (List.replicate n (domainEntry "ads" .domainKeyword)) ty = [] := by
      rcases hty with rfl | rfl
      · simp [named, domainEntry]
      · simp [named, domainEntry]
    rw [hnone]
    exact ⟨none, rfl⟩
  count := by rwa [List.length_replicate]
  size := hsize

/-- A build of the keyword, however often it is read. -/
theorem keyword_builds {inputs : List (String × InputFormat)}
    (hinputs : inputs = [("ads.yaml", .mihomo)] ∨
      inputs = [("ads.yaml", .mihomo), ("more.yaml", .mihomo)]) :
    ∃ stats file, buildOutput Adguard.zeroAddressText literalRegex oneKeyword listFst keywordEnv
        inputs none = (.ok stats, some file) ∧
      entriesRead Adguard.zeroAddressText literalRegex oneKeyword keywordEnv inputs =
        List.replicate inputs.length (domainEntry "ads" .domainKeyword) ∧
      FitsFormat literalRegex
        (entriesRead Adguard.zeroAddressText literalRegex oneKeyword keywordEnv inputs) file := by
  have hbuild : (buildOutput Adguard.zeroAddressText literalRegex oneKeyword listFst keywordEnv
      inputs none).1.isOk = true ∧ (buildOutput Adguard.zeroAddressText literalRegex oneKeyword
        listFst keywordEnv inputs none).2.any (fun file => file.length < 2 ^ 32) = true := by
    rcases hinputs with rfl | rfl
    · exact ⟨rfl, rfl⟩
    · exact ⟨rfl, rfl⟩
  obtain ⟨stats, hstats⟩ := isOk_iff.mp hbuild.1
  obtain ⟨file, hfile, hlength⟩ := (Option.any_eq_true _ _).mp hbuild.2
  have hentries : entriesRead Adguard.zeroAddressText literalRegex oneKeyword keywordEnv inputs =
      List.replicate inputs.length (domainEntry "ads" .domainKeyword) := by
    rcases hinputs with rfl | rfl
    · rfl
    · rfl
  refine ⟨stats, file, Prod.ext hstats hfile, hentries, ?_⟩
  rw [hentries]
  apply keywords_fit _ _ (of_decide_eq_true hlength)
  rcases hinputs with rfl | rfl
  · decide
  · decide

theorem compiled_means_entries_keyword :
    ∃ stats file, buildOutput Adguard.zeroAddressText literalRegex oneKeyword listFst keywordEnv
        [("ads.yaml", .mihomo)] none = (.ok stats, some file) ∧
      ∃ drs : DrsFile listFst literalRegex, fromBytes listFst literalRegex file = .ok drs ∧
        Means (entriesRead Adguard.zeroAddressText literalRegex oneKeyword keywordEnv
          [("ads.yaml", .mihomo)]) drs := by
  obtain ⟨stats, file, hbuild, _, hfits⟩ := keyword_builds (.inl rfl)
  exact ⟨stats, file, hbuild,
    compiled_means_entries listFst_lawful literalRegex_lawful.toMatchesAny hbuild hfits⟩

theorem covered_congr {entries entries' : List RuleEntry} (h : ∀ e, e ∈ entries ↔ e ∈ entries')
    (domain : String) (ty : EntryType) :
    covered R entries domain ty = covered R entries' domain ty := by
  unfold covered
  rw [Bool.eq_iff_iff, List.any_eq_true, List.any_eq_true]
  simp only [h]

theorem meaning_congr {entries entries' : List RuleEntry} (h : ∀ e, e ∈ entries ↔ e ∈ entries')
    (domain : String) : meaning R entries domain = meaning R entries' domain := by
  unfold meaning
  simp only [covered_congr h domain]

theorem mem_filterMap_congr {α β : Type} {xs ys : List α} (h : ∀ x, x ∈ xs ↔ x ∈ ys)
    (f : α → Option β) (y : β) : y ∈ xs.filterMap f ↔ y ∈ ys.filterMap f := by
  simp only [List.mem_filterMap, h]

/-- The CIDRs leave one result for an address. -/
theorem Exact.unique {cidrs4 cidrs4' : List (BitVec 32 × UInt8)}
    {cidrs6 cidrs6' : List (BitVec 128 × UInt8)} (h4 : ∀ c, c ∈ cidrs4 ↔ c ∈ cidrs4')
    (h6 : ∀ c, c ∈ cidrs6 ↔ c ∈ cidrs6') {ip : BitVec 32 ⊕ BitVec 128}
    {result result' : Option MatchResult} (h : Exact cidrs4 cidrs6 ip result)
    (h' : Exact cidrs4' cidrs6' ip result') : result = result' := by
  have hipv4 : result = some .ipv4Cidr ↔ result' = some .ipv4Cidr := by
    rw [h.ipv4, h'.ipv4]
    simp only [h4]
  have hipv6 : result = some .ipv6Cidr ↔ result' = some .ipv6Cidr := by
    rw [h.ipv6, h'.ipv6]
    simp only [h6]
  rcases h.otherwise with hresult | hresult | hresult
  · rw [hresult, hipv4.mp hresult]
  · rw [hresult, hipv6.mp hresult]
  · rcases h'.otherwise with hresult' | hresult' | hresult'
    · rw [hipv4.mpr hresult'] at hresult
      cases hresult
    · rw [hipv6.mpr hresult'] at hresult
      cases hresult
    · rw [hresult, hresult']

/-- Rulesets that mean the same entries answer everything alike. -/
theorem Means.agree {entries entries' : List RuleEntry} {drs drs' : DrsFile F R}
    (h : Means entries drs) (h' : Means entries' drs') (hsame : ∀ e, e ∈ entries ↔ e ∈ entries') :
    (∀ domain, drs.matches domain = drs'.matches domain) ∧
      (∀ ip, drs.matchesIp ip = drs'.matchesIp ip) ∧
      ∀ port, drs.matchesPort port = drs'.matchesPort port := by
  refine ⟨?_, ?_, ?_⟩
  · intro domain
    rw [h.domains, h'.domains, meaning_congr hsame]
  · intro ip
    obtain ⟨result, hok, hexact⟩ := h.ips ip
    obtain ⟨result', hok', hexact'⟩ := h'.ips ip
    rw [hok, hok', hexact.unique (mem_filterMap_congr hsame _) (mem_filterMap_congr hsame _)
      hexact']
  · intro port
    rw [h.ports, h'.ports, Bool.eq_iff_iff, List.any_eq_true, List.any_eq_true]
    simp only [mem_filterMap_congr hsame]

/-- Two builds of the same entries that the format can hold, from whatever files
and in whatever order, write rulesets that answer every domain, address and port
alike. -/
theorem builds_agree (hF : F.Lawful) (hR : R.MatchesAny) {env env' : BuildEnv}
    {inputs inputs' : List (String × InputFormat)} {output output' : Option Bytes}
    {stats stats' : BuildStats} {file file' : Bytes}
    (h : buildOutput T R S F env inputs output = (.ok stats, some file))
    (h' : buildOutput T R S F env' inputs' output' = (.ok stats', some file'))
    (hsame : ∀ e, e ∈ entriesRead T R S env inputs ↔ e ∈ entriesRead T R S env' inputs')
    (hfits : FitsFormat R (entriesRead T R S env inputs) file)
    (hfits' : FitsFormat R (entriesRead T R S env' inputs') file') :
    ∃ drs drs' : DrsFile F R, fromBytes F R file = .ok drs ∧ fromBytes F R file' = .ok drs' ∧
      (∀ domain, drs.matches domain = drs'.matches domain) ∧
      (∀ ip, drs.matchesIp ip = drs'.matchesIp ip) ∧
      ∀ port, drs.matchesPort port = drs'.matchesPort port := by
  obtain ⟨b, sourceHash, hgathers, hwrite⟩ := buildOutput_ok h
  obtain ⟨b', sourceHash', hgathers', hwrite'⟩ := buildOutput_ok h'
  obtain ⟨drs, hload, hmeans⟩ :=
    hgathers.means hF hR (entriesRead_wellFormed env inputs) hwrite hfits
  obtain ⟨drs', hload', hmeans'⟩ :=
    hgathers'.means hF hR (entriesRead_wellFormed env' inputs') hwrite' hfits'
  exact ⟨drs, drs', hload, hload', hmeans.agree hmeans' hsame⟩

/-- The same list once and twice. -/
theorem builds_agree_repeated :
    ∃ stats file stats' file' drs drs',
      buildOutput Adguard.zeroAddressText literalRegex oneKeyword listFst keywordEnv
        [("ads.yaml", .mihomo)] none = (.ok stats, some file) ∧
      buildOutput Adguard.zeroAddressText literalRegex oneKeyword listFst keywordEnv
        [("ads.yaml", .mihomo), ("more.yaml", .mihomo)] none = (.ok stats', some file') ∧
      fromBytes listFst literalRegex file = .ok drs ∧
      fromBytes listFst literalRegex file' = .ok drs' ∧
      (∀ domain, drs.matches domain = drs'.matches domain) ∧
      (∀ ip, drs.matchesIp ip = drs'.matchesIp ip) ∧
      ∀ port, drs.matchesPort port = drs'.matchesPort port := by
  obtain ⟨stats, file, hbuild, hentries, hfits⟩ := keyword_builds (.inl rfl)
  obtain ⟨stats', file', hbuild', hentries', hfits'⟩ := keyword_builds (.inr rfl)
  obtain ⟨drs, drs', hload, hload', hagree⟩ := builds_agree listFst_lawful
    literalRegex_lawful.toMatchesAny hbuild hbuild' (by rw [hentries, hentries']; simp) hfits hfits'
  exact ⟨stats, file, stats', file', drs, drs', hbuild, hbuild', hload, hload', hagree⟩

end Relay.Ruleset
