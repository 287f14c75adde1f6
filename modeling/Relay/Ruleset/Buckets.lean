import Relay.Ruleset.Entry
import Relay.Ruleset.RoundTrip

/-!
Collecting entries before a ruleset is written: what the buckets hold after a
list of entries, what the writer keeps of them, and why more exceptions never
make the loaded ruleset match more.
-/

namespace Relay.Ruleset

open Binary Text

variable {F : FstCrate} {R : RegexCrate}

/-! ### Filling the buckets -/

/-- The bucket of a type of entries that is a list of strings. -/
def EntryBuckets.strings (b : EntryBuckets) : EntryType → List String
  | .domain => b.domains
  | .domainSuffix => b.suffixes
  | .domainKeyword => b.keywords
  | .domainRegex => b.regexes
  | .excludeDomain => b.excludeDomains
  | .excludeDomainSuffix => b.excludeSuffixes
  | .excludeDomainRegex => b.excludeRegexes
  | .ipv4Cidr | .ipv6Cidr | .port => []

/-- The types whose entries are strings. -/
def EntryType.isNamed : EntryType → Bool
  | .ipv4Cidr | .ipv6Cidr | .port => false
  | _ => true

/-- The strings of one type among `entries`. -/
def named (entries : List RuleEntry) (ty : EntryType) : List String :=
  (entries.filter (fun e => e.ruleType = ty)).map RuleEntry.domain

/-- Every entry is pushed in turn, and the first error ends it. -/
def collect (R : RegexCrate) (entries : List RuleEntry) : Except PushError EntryBuckets :=
  entries.foldlM (EntryBuckets.push R) {}

private theorem checkRegex_bind_ok {pattern : String} {b b' : EntryBuckets}
    (h : (checkRegex R pattern >>= fun _ => pure b) = .ok b') :
    R.compiles pattern = .ok () ∧ b' = b := by
  unfold checkRegex at h
  split at h
  · rename_i hcompiles
    cases h
    exact ⟨hcompiles, rfl⟩
  · cases h

private theorem named_singleton (e : RuleEntry) (ty : EntryType) :
    named [e] ty = if e.ruleType = ty then [e.domain] else [] := by
  by_cases hty : e.ruleType = ty <;> simp [named, hty]

/-- An entry's string goes to the bucket of its type. -/
theorem EntryBuckets.push_strings {b b' : EntryBuckets} {e : RuleEntry} (h : b.push R e = .ok b')
    {ty : EntryType} (hnamed : ty.isNamed) : b'.strings ty = b.strings ty ++ named [e] ty := by
  unfold EntryBuckets.push at h
  split at h
  case h_4 htype =>
    obtain ⟨_, rfl⟩ := checkRegex_bind_ok h
    cases ty <;> simp [strings, named_singleton, htype]
  case h_10 htype =>
    obtain ⟨_, rfl⟩ := checkRegex_bind_ok h
    cases ty <;> simp [strings, named_singleton, htype]
  case h_5 | h_6 | h_7 =>
    split at h
    all_goals cases h
    all_goals cases ty <;> simp_all [strings, named_singleton, EntryType.isNamed]
  all_goals
    rename_i htype
    cases h
    cases ty <;> simp [strings, named_singleton, htype]

/-- An entry without a CIDR adds none. -/
theorem EntryBuckets.push_ok {b b' : EntryBuckets} {e : RuleEntry} (hcidr : e.cidr = none)
    (h : b.push R e = .ok b') : b'.ipv4Cidrs = b.ipv4Cidrs ∧ b'.ipv6Cidrs = b.ipv6Cidrs := by
  unfold EntryBuckets.push at h
  split at h
  case h_4 | h_10 =>
    obtain ⟨_, rfl⟩ := checkRegex_bind_ok h
    exact ⟨rfl, rfl⟩
  case h_5 | h_6 =>
    rw [hcidr] at h
    cases h
    exact ⟨rfl, rfl⟩
  case h_7 =>
    split at h
    all_goals
      cases h
      exact ⟨rfl, rfl⟩
  all_goals
    cases h
    exact ⟨rfl, rfl⟩

/-- The strings of a list of entries, in order. -/
theorem collect_strings {b b' : EntryBuckets} {entries : List RuleEntry}
    (h : entries.foldlM (EntryBuckets.push R) b = .ok b') {ty : EntryType} (hnamed : ty.isNamed) :
    b'.strings ty = b.strings ty ++ named entries ty := by
  induction entries generalizing b with
  | nil =>
      cases h
      simp [named]
  | cons e entries ih =>
      rw [List.foldlM_cons] at h
      obtain ⟨next, hpush, hrest⟩ := run_bind_eq_ok.mp h
      rw [ih hrest, EntryBuckets.push_strings hpush hnamed, List.append_assoc]
      congr 1
      simp only [named, List.filter_cons, List.filter_nil]
      split <;> rfl

/-- What a list of entries adds. -/
theorem collect_ok {b b' : EntryBuckets} {entries : List RuleEntry}
    (hcidr : ∀ e ∈ entries, e.cidr = none)
    (h : entries.foldlM (EntryBuckets.push R) b = .ok b') :
    (∀ ty, ty.isNamed → b'.strings ty = b.strings ty ++ named entries ty) ∧
      b'.ipv4Cidrs = b.ipv4Cidrs ∧ b'.ipv6Cidrs = b.ipv6Cidrs := by
  refine ⟨fun _ hnamed => collect_strings h hnamed, ?_⟩
  induction entries generalizing b with
  | nil =>
      cases h
      exact ⟨rfl, rfl⟩
  | cons e entries ih =>
      rw [List.foldlM_cons] at h
      obtain ⟨next, hpush, hrest⟩ := run_bind_eq_ok.mp h
      obtain ⟨hipv4, hipv6⟩ := EntryBuckets.push_ok (hcidr e (by simp)) hpush
      obtain ⟨hipv4', hipv6'⟩ := ih (fun e' he' => hcidr e' (by simp [he'])) hrest
      exact ⟨hipv4'.trans hipv4, hipv6'.trans hipv6⟩

/-! ### What the writer keeps -/

/-- The strings that fit a record. -/
def shortStrings (items : List String) : List String :=
  items.filter (fun s => decide ((octets s).length ≤ 255))

/-- The entries that reach the file: a string section leaves out what does not
fit a record. -/
def EntryBuckets.kept (b : EntryBuckets) : EntryBuckets :=
  { b with
    keywords := shortStrings b.keywords
    regexes := shortStrings b.regexes
    excludeRegexes := shortStrings b.excludeRegexes }

theorem buildStringSection_shortStrings (items : List String) :
    buildStringSection (shortStrings items) = buildStringSection items := by
  simp [buildStringSection, shortStrings]

theorem buildSections_kept (b : EntryBuckets) : buildSections F b.kept = buildSections F b := by
  simp only [buildSections, EntryBuckets.kept, buildStringSection_shortStrings]

theorem writeV2_kept (now : BitVec 64) (b : EntryBuckets) (sourceHash : Vector UInt8 32) :
    writeV2 F now b.kept sourceHash = writeV2 F now b sourceHash := by
  simp only [writeV2, buildSections_kept]

/-- The entries that reach a file of sections that fit are those the format can
hold. -/
theorem EntryBuckets.kept_encodable {b : EntryBuckets}
    (hprefix4 : ∀ c ∈ b.ipv4Cidrs, c.2.toNat ≤ 32)
    (hprefix6 : ∀ c ∈ b.ipv6Cidrs, c.2.toNat ≤ 128)
    (hsize : ∀ sections, buildSections F b = .ok sections → ∀ s ∈ sections,
      s.bytes.length < 2 ^ 32) : b.kept.Encodable F := by
  have hshort : ∀ items : List String, ∀ s ∈ shortStrings items, (octets s).length ≤ 255 := by
    intro items s hs
    simpa using List.of_mem_filter hs
  refine ⟨hshort _, hshort _, hshort _, hprefix4, hprefix6, ?_⟩
  rw [buildSections_kept]
  exact hsize

theorem shortStrings_eq {items : List String} (h : ∀ s ∈ items, (octets s).length ≤ 255) :
    shortStrings items = items :=
  List.filter_eq_self.mpr (fun s hs => by simpa using h s hs)

/-- A file that loads was written from patterns that compile as sets. -/
theorem EntryBuckets.SetsCompile.of_loaded {b : EntryBuckets} {stats : BuildStats}
    {sets : StoredSets F} {buildTime : BitVec 64} {sourceHash : Bytes} {drs : DrsFile F R}
    (h : finishLoading F R buildTime sourceHash (loaded b stats sets) = .ok drs) :
    b.SetsCompile R := by
  obtain ⟨regexes, hregexes, h⟩ := run_bind_eq_ok.mp h
  obtain ⟨excludeRegexes, hexRegexes, _⟩ := run_bind_eq_ok.mp h
  exact ⟨⟨regexes, hregexes⟩, ⟨excludeRegexes, hexRegexes⟩⟩

/-- A written file without CIDRs that loads answers as the entries that reached
it. -/
theorem fromBytes_kept (hF : F.Lawful) (hR : R.MatchesAny) {b : EntryBuckets}
    (hipv4 : b.ipv4Cidrs = []) (hipv6 : b.ipv6Cidrs = [])
    (hsize : ∀ sections, buildSections F b = .ok sections → ∀ s ∈ sections,
      s.bytes.length < 2 ^ 32)
    {now : BitVec 64} {sourceHash : Vector UInt8 32} {file : Bytes} {stats : BuildStats}
    (h : writeV2 F now b sourceHash = .ok (file, stats)) :
    (b.kept.SetsCompile R → ∃ drs, fromBytes F R file = .ok drs) ∧
      ∀ drs, fromBytes F R file = .ok drs → ∀ domain,
        drs.matchesNormalized domain = .ok ((b.kept.consulted domain).verdict R domain) := by
  have hencodable : b.kept.Encodable F :=
    EntryBuckets.kept_encodable (by simp [hipv4]) (by simp [hipv6]) hsize
  rw [← writeV2_kept] at h
  obtain ⟨sets, hholds, hload⟩ := fromBytes_written (R := R) hF hencodable h
  rw [hload]
  constructor
  · intro hc
    obtain ⟨drs, hfinish, _⟩ := finishLoading_loaded hR hc hholds now sourceHash.toList
    exact ⟨drs, hfinish⟩
  · intro drs hdrs domain
    obtain ⟨drs', hfinish, hverdict⟩ :=
      finishLoading_loaded hR (.of_loaded hdrs) hholds now sourceHash.toList
    rw [hfinish] at hdrs
    cases hdrs
    exact hverdict domain

/-! ### More exceptions -/

/-- The same rules with at least the same exceptions. -/
structure EntryBuckets.Restricts (b' b : EntryBuckets) : Prop where
  domains : b'.domains = b.domains
  suffixes : b'.suffixes = b.suffixes
  keywords : b'.keywords = b.keywords
  regexes : b'.regexes = b.regexes
  excludeDomains : b.excludeDomains ⊆ b'.excludeDomains
  excludeSuffixes : b.excludeSuffixes ⊆ b'.excludeSuffixes
  excludeRegexes : b.excludeRegexes ⊆ b'.excludeRegexes

theorem EntryBuckets.Restricts.kept {b b' : EntryBuckets} (h : b'.Restricts b) :
    b'.kept.Restricts b.kept where
  domains := h.domains
  suffixes := h.suffixes
  keywords := congrArg shortStrings h.keywords
  regexes := congrArg shortStrings h.regexes
  excludeDomains := h.excludeDomains
  excludeSuffixes := h.excludeSuffixes
  excludeRegexes := List.filter_subset _ h.excludeRegexes

theorem EntryBuckets.Restricts.consulted {b b' : EntryBuckets} (h : b'.Restricts b)
    (domain : String) : (b'.consulted domain).Restricts (b.consulted domain) where
  domains := by rw [EntryBuckets.consulted, EntryBuckets.consulted, h.domains]
  suffixes := by rw [EntryBuckets.consulted, EntryBuckets.consulted, h.suffixes]
  keywords := h.keywords
  regexes := h.regexes
  excludeDomains := h.excludeDomains
  excludeSuffixes := by
    unfold EntryBuckets.consulted
    dsimp only
    split
    · exact List.Subset.refl []
    · exact h.excludeSuffixes
  excludeRegexes := h.excludeRegexes

private theorem any_of_subset {α : Type} {xs ys : List α} {p : α → Bool} (h : xs ⊆ ys)
    (hx : xs.any p = true) : ys.any p = true := by
  obtain ⟨x, hmem, hp⟩ := List.any_eq_true.mp hx
  exact List.any_eq_true.mpr ⟨x, h hmem, hp⟩

/-- What the rules match under more exceptions they match under fewer. -/
theorem EntryBuckets.Restricts.verdict {b b' : EntryBuckets} (h : b'.Restricts b)
    {domain : String} {r : MatchResult} (hmatch : b'.verdict R domain = some r) :
    b.verdict R domain = some r := by
  have hexcludes : b.excludes R domain = true → b'.excludes R domain = true := by
    unfold EntryBuckets.excludes
    simp only [Bool.or_eq_true]
    rintro ((hdomain | hsuffix) | hregex)
    · refine Or.inl (Or.inl ?_)
      rw [List.contains_iff_mem] at hdomain ⊢
      exact h.excludeDomains hdomain
    · exact Or.inl (Or.inr (any_of_subset h.excludeSuffixes hsuffix))
    · exact Or.inr (any_of_subset h.excludeRegexes hregex)
  unfold EntryBuckets.verdict at hmatch ⊢
  rw [h.domains, h.suffixes, h.keywords, h.regexes] at hmatch
  cases hold : b.excludes R domain with
  | true =>
      rw [hexcludes hold] at hmatch
      cases hmatch
  | false =>
      cases hnew : b'.excludes R domain with
      | true =>
          rw [hnew] at hmatch
          cases hmatch
      | false =>
          rw [hnew] at hmatch
          exact hmatch

end Relay.Ruleset
