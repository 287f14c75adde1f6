import Relay.Ruleset.Buckets
import Relay.Ruleset.Counts

/-!
What of the entries is still there in the file they were written to. A string
section leaves out what is longer than its length byte can say, without an
error, and the counts in the file are taken modulo `u32`.
-/

namespace Relay.Ruleset

open Binary Text

variable {F : FstCrate} {R : RegexCrate}

/-! ### What a loaded file holds -/

/-- The file loads as `drs`, and `acc` is what was read of its sections. -/
structure LoadsAs (file : Bytes) (acc : Loading F) (drs : DrsFile F R) : Prop where
  sections : loadSections F file (sectionCountOf file) V2_HEADER_LEN {} = .ok acc
  whole : fromBytes F R file = .ok drs
  keywords : drs.keywords = acc.keywords
  regexes : loadRegexes R acc.regexPatterns = .ok drs.regexes
  excludeRegexes : loadRegexes R acc.excludeRegexPatterns = .ok drs.excludeRegexes

/-- The numbers of the entries; those of a set section without repetitions. -/
def EntryBuckets.ruleCounts (b : EntryBuckets) : List Nat :=
  [b.domains.dedup.length, b.suffixes.dedup.length, b.keywords.length, b.regexes.length,
    b.ipv4Cidrs.length, b.ipv6Cidrs.length, b.ports.length, b.excludeDomains.dedup.length,
    b.excludeSuffixes.dedup.length, b.excludeRegexes.length]

/-- The reported numbers, in the same order. -/
def BuildStats.counts (stats : BuildStats) : List (BitVec 32) :=
  [stats.domainCount, stats.suffixCount, stats.keywordCount, stats.regexCount,
    stats.ipv4CidrCount, stats.ipv6CidrCount, stats.portCount, stats.excludeDomainCount,
    stats.excludeSuffixCount, stats.excludeRegexCount]

/-- Every keyword and every pattern of the entries is in the file that is
loaded, and the reported counts are the numbers of the entries. -/
structure KeepsRules (F : FstCrate) (R : RegexCrate) (b : EntryBuckets) (file : Bytes)
    (stats : BuildStats) : Prop where
  loads : ∃ (acc : Loading F) (drs : DrsFile F R), LoadsAs file acc drs ∧
    b.keywords ⊆ drs.keywords ∧ b.regexes ⊆ acc.regexPatterns ∧
      b.excludeRegexes ⊆ acc.excludeRegexPatterns
  counts : stats.counts.map BitVec.toNat = b.ruleCounts

/-- Every string fits its length byte and every number of entries a `u32`. -/
structure EntryBuckets.Fits (b : EntryBuckets) : Prop where
  keyword_le : ∀ s ∈ b.keywords, (octets s).length ≤ 255
  regex_le : ∀ s ∈ b.regexes, (octets s).length ≤ 255
  excludeRegex_le : ∀ s ∈ b.excludeRegexes, (octets s).length ≤ 255
  count_lt : ∀ n ∈ b.ruleCounts, n < 2 ^ 32

/-- The loader takes the prefixes and the patterns of the entries. -/
structure EntryBuckets.LoadsBack (R : RegexCrate) (b : EntryBuckets) : Prop where
  ipv4_prefix : ∀ c ∈ b.ipv4Cidrs, c.2.toNat ≤ 32
  ipv6_prefix : ∀ c ∈ b.ipv6Cidrs, c.2.toNat ≤ 128
  regexes : ∃ set, loadRegexes R b.regexes = .ok set
  excludeRegexes : ∃ set, loadRegexes R b.excludeRegexes = .ok set

/-- Every section is shorter than the `u32` of its header can say. -/
def EntryBuckets.SectionsFit (F : FstCrate) (b : EntryBuckets) : Prop :=
  ∀ sections, buildSections F b = .ok sections → ∀ s ∈ sections, s.bytes.length < 2 ^ 32

/-! ### No loaded string is longer than 255 bytes -/

def AllShort (items : List String) : Prop := ∀ s ∈ items, (octets s).length ≤ 255

theorem readString_short {section_ : Bytes} {i next : Nat} {acc out : List String}
    (hacc : AllShort acc) (h : readString section_ i acc = .ok (next, out)) : AllShort out := by
  obtain ⟨l, _, h⟩ := run_bind_eq_ok.mp h
  obtain ⟨expected, _, h⟩ := run_bind_eq_ok.mp h
  split at h
  · cases h
  · obtain ⟨bytes, hbytes, h⟩ := run_bind_eq_ok.mp h
    obtain ⟨_, rfl⟩ := slice_eq_ok.mp hbytes
    have hl : l.toNat < 256 := l.toNat_lt
    split at h
    · rename_i s hs
      cases h
      intro t ht
      rcases List.mem_append.mp ht with hold | hnew
      · exact hacc t hold
      · rw [List.mem_singleton.mp hnew, octets_of_fromUtf8 hs, List.length_take]
        omega
    · cases h

theorem readStrings_short {section_ : Bytes} {acc out : List String} (hacc : AllShort acc)
    (h : readStrings section_ acc = .ok out) : AllShort out :=
  whileLt_preserves (fun _ _ _ _ => readString_short) h hacc

/-- The strings that the loader has read. -/
structure Loading.Short (acc : Loading F) : Prop where
  keywords : AllShort acc.keywords
  regexPatterns : AllShort acc.regexPatterns
  excludeRegexPatterns : AllShort acc.excludeRegexPatterns

theorem loadSection_short {ty : SectionType} {entryCount : Nat} {section_ : Bytes}
    {acc out : Loading F} (hacc : acc.Short)
    (h : loadSection F ty entryCount section_ acc = .ok out) : out.Short := by
  cases ty with
  | domain | domainSuffix =>
      cases h
      exact hacc
  | domainKeyword =>
      obtain ⟨keywords, hread, h⟩ := run_bind_eq_ok.mp h
      cases h
      exact ⟨readStrings_short hacc.keywords hread, hacc.regexPatterns, hacc.excludeRegexPatterns⟩
  | domainRegex =>
      obtain ⟨patterns, hread, h⟩ := run_bind_eq_ok.mp h
      cases h
      exact ⟨hacc.keywords, readStrings_short hacc.regexPatterns hread, hacc.excludeRegexPatterns⟩
  | excludeDomainRegex =>
      obtain ⟨patterns, hread, h⟩ := run_bind_eq_ok.mp h
      cases h
      exact ⟨hacc.keywords, hacc.regexPatterns, readStrings_short hacc.excludeRegexPatterns hread⟩
  | _ =>
      obtain ⟨value, _, h⟩ := run_bind_eq_ok.mp h
      cases h
      exact ⟨hacc.keywords, hacc.regexPatterns, hacc.excludeRegexPatterns⟩

theorem loadSections_short {data : Bytes} {n offset : Nat} {acc out : Loading F}
    (hacc : acc.Short) (h : loadSections F data n offset acc = .ok out) : out.Short := by
  induction n generalizing offset acc with
  | zero =>
      cases h
      exact hacc
  | succ n ih =>
      obtain ⟨ty, entryCount, byteLen, mid, _, _, hmid, hrest⟩ := loadSections_ok h
      exact ih (loadSection_short hacc hmid) hrest

/-! ### The reported counts -/

private theorem buildSetFst_count {keys : List Bytes} {bytes : Bytes} {count : BitVec 32}
    (h : buildSetFst F keys = .ok (bytes, count)) :
    count.toNat = keys.dedup.length % 2 ^ 32 := by
  unfold buildSetFst at h
  split at h
  · rename_i hempty
    cases h
    rw [List.isEmpty_iff.mp hempty]
    rfl
  · dsimp only at h
    obtain ⟨builder, _, h⟩ := run_bind_eq_ok.mp h
    obtain ⟨inner, _, h⟩ := run_bind_eq_ok.mp h
    cases h
    rw [BitVec.toNat_ofNat, sortedKeys_length]

/-- What is reported of the entries that reach the file. -/
theorem writeV2_counts {b : EntryBuckets} {now : BitVec 64} {sourceHash : Vector UInt8 32}
    {file : Bytes} {stats : BuildStats} (h : writeV2 F now b sourceHash = .ok (file, stats)) :
    stats.counts.map BitVec.toNat = b.kept.ruleCounts.map (· % 2 ^ 32) := by
  unfold writeV2 at h
  obtain ⟨sections, hsections, h⟩ := run_bind_eq_ok.mp h
  cases h
  obtain ⟨dom, suf, exDom, exSuf, hdom, hsuf, hexDom, hexSuf, rfl⟩ :=
    buildSections_eq_ok.mp hsections
  have hdomains := buildSetFst_count hdom
  have hsuffixes := buildSetFst_count hsuf
  have hexDomains := buildSetFst_count hexDom
  have hexSuffixes := buildSetFst_count hexSuf
  rw [List.dedup_map_of_injective octets_injective, List.length_map] at hdomains hexDomains
  rw [List.dedup_map_of_injective suffixToFstKey_injective, List.length_map]
    at hsuffixes hexSuffixes
  simp [BuildStats.counts, BuildStats.ofSections, countOf, listedSections, buildStringSection,
    buildIpv4Section, buildIpv6Section, buildPortSection, buildFixedSection,
    EntryBuckets.ruleCounts, EntryBuckets.kept, shortStrings, hdomains, hsuffixes, hexDomains,
    hexSuffixes]

private theorem map_mod_eq_self {m : Nat} (hm : 0 < m) {xs : List Nat} :
    xs.map (· % m) = xs ↔ ∀ n ∈ xs, n < m := by
  constructor
  · intro h n hn
    obtain ⟨k, _, rfl⟩ := List.mem_map.mp (h ▸ hn)
    exact Nat.mod_lt k hm
  · intro h
    exact (List.map_congr_left fun n hn => Nat.mod_eq_of_lt (h n hn)).trans (List.map_id' xs)

/-! ### When nothing is lost -/

private theorem sectionCountOf_written (now : BitVec 64) (sourceHash : Vector UInt8 32)
    (count : BitVec 32) (body : Bytes) :
    sectionCountOf (encodeHeader now sourceHash count ++ body) = count.toNat := by
  have hcount : (encodeHeader now sourceHash count ++ body).drop 46 =
      toLe 4 count ++ ([0, 0, 0, 0] ++ body) := by
    have hsplit : encodeHeader now sourceHash count ++ body =
        (MAGIC ++ [VERSION_V2, 0] ++ toLe 8 now ++ sourceHash.toList) ++
          (toLe 4 count ++ ([0, 0, 0, 0] ++ body)) := by
      simp [encodeHeader]
    rw [hsplit]
    exact List.drop_left' (by simp [MAGIC])
  rw [sectionCountOf, hcount, List.take_left' (toLe_length 4 count),
    ofNat_ofLe_toLe 32 4 (by norm_num)]

/-- The sections that hold the CIDRs are among the built ones. -/
private theorem mem_buildSections {b : EntryBuckets} {sections : List Section}
    (h : buildSections F b = .ok sections) :
    ⟨.ipCidrV4, BitVec.ofNat 32 b.ipv4Cidrs.length, b.ipv4Cidrs.flatMap encodeIpv4⟩ ∈ sections ∧
      ⟨.ipCidrV6, BitVec.ofNat 32 b.ipv6Cidrs.length, b.ipv6Cidrs.flatMap encodeIpv6⟩ ∈
        sections := by
  obtain ⟨_, _, _, _, _, _, _, _, rfl⟩ := buildSections_eq_ok.mp h
  constructor <;> simp [listedSections, buildIpv4Section, buildIpv6Section, buildFixedSection]

/-- A section of CIDRs that is read has no prefix beyond its address. -/
private theorem prefix_le_of_loadWritten {w width : Nat} {ty : SectionType} {count : BitVec 32}
    {encode : BitVec w × UInt8 → Bytes} {cidrs : List (BitVec w × UInt8)} {acc out : Loading F}
    (hshape : ty.cidrShape = some (width, w)) (hpos : 0 < width)
    (hwidth : ∀ c, (encode c).length = width) (hlast : ∀ c, prefixOf (encode c) = c.2)
    (hsmall : (cidrs.flatMap encode).length < 2 ^ 32)
    (h : loadWritten F acc ⟨ty, count, cidrs.flatMap encode⟩ = .ok out) :
    ∀ c ∈ cidrs, c.2.toNat ≤ w := by
  intro c hc
  have hbytes : encode c ⊆ cidrs.flatMap encode := fun x hx => List.mem_flatMap.mpr ⟨c, hc, hx⟩
  have hne : cidrs.flatMap encode ≠ [] := by
    intro hnil
    rw [hnil, List.subset_nil] at hbytes
    have hlength := hwidth c
    rw [hbytes] at hlength
    exact absurd hlength (Nat.ne_of_lt hpos)
  unfold loadWritten at h
  rw [if_pos (by simpa [Section.isWritten] using hne)] at h
  obtain ⟨_, hok, _, _⟩ := loadSection_total (F := F) ty count.toNat (cidrs.flatMap encode)
    (by omega) acc
  obtain ⟨_, hfits⟩ := hok.mp ⟨out, h⟩
  have hmod : (cidrs.flatMap encode).length % width = 0 := by
    rw [List.length_flatMap, List.map_congr_left (fun c _ => hwidth c), List.map_const',
      List.sum_replicate, smul_eq_mul, Nat.mul_mod_left]
  have hrecords := records_le hshape hmod hfits
  rw [recordsOf_flatMap hpos hwidth] at hrecords
  rw [← hlast c]
  exact hrecords (encode c) (List.mem_map_of_mem hc)

private theorem Fits.encodable {b : EntryBuckets} (hfits : b.Fits) (hsize : b.SectionsFit F)
    (hipv4 : ∀ c ∈ b.ipv4Cidrs, c.2.toNat ≤ 32) (hipv6 : ∀ c ∈ b.ipv6Cidrs, c.2.toNat ≤ 128) :
    b.Encodable F :=
  ⟨hfits.keyword_le, hfits.regex_le, hfits.excludeRegex_le, hipv4, hipv6, hsize⟩

/-- What is lost. A written file keeps every keyword and pattern and reports
the numbers of the entries only if each string has at most 255 bytes and each
number fits a `u32`. While no section outgrows its header, this and what the
loader demands of prefixes and patterns is also enough. -/
theorem rules_kept_iff (hF : F.Lawful) {b : EntryBuckets} {now : BitVec 64}
    {sourceHash : Vector UInt8 32} {file : Bytes} {stats : BuildStats}
    (h : writeV2 F now b sourceHash = .ok (file, stats)) :
    (KeepsRules F R b file stats → b.Fits) ∧
      (b.SectionsFit F → (KeepsRules F R b file stats ↔ b.Fits ∧ b.LoadsBack R)) := by
  have hfits : KeepsRules F R b file stats → b.Fits := by
    rintro ⟨⟨acc, drs, hloads, hkeywords, hregexes, hexcludes⟩, hcounts⟩
    have hnone : ({} : Loading F).Short :=
      ⟨by simp [AllShort], by simp [AllShort], by simp [AllShort]⟩
    obtain ⟨hshortKeywords, hshortRegexes, hshortExcludes⟩ := loadSections_short hnone hloads.sections
    rw [hloads.keywords] at hkeywords
    have hk : AllShort b.keywords := fun s hs => hshortKeywords s (hkeywords hs)
    have hr : AllShort b.regexes := fun s hs => hshortRegexes s (hregexes hs)
    have he : AllShort b.excludeRegexes := fun s hs => hshortExcludes s (hexcludes hs)
    have hkept : b.kept = b := by
      rw [EntryBuckets.kept, shortStrings_eq hk, shortStrings_eq hr, shortStrings_eq he]
    have hreported := writeV2_counts h
    rw [hkept, hcounts] at hreported
    exact ⟨hk, hr, he, (map_mod_eq_self (by norm_num)).mp hreported.symm⟩
  refine ⟨hfits, ?_⟩
  intro hsize
  obtain ⟨sections, count, body, hsections, hstats, hfile, hfold⟩ := loadSections_written hsize h
  have hpass : loadSections F file (sectionCountOf file) V2_HEADER_LEN {} =
      sections.foldlM (loadWritten F) {} := by
    rw [← hfold, hfile, sectionCountOf_written]
  have hloaded : ∀ hb : b.Encodable F, ∃ sets, HoldsEntries F b stats sets ∧
      loadSections F file (sectionCountOf file) V2_HEADER_LEN {} = .ok (loaded b stats sets) := by
    intro hb
    rw [hpass, hstats]
    exact fold_buildSections hF hb hsections
  constructor
  · intro hkeeps
    have hb := hfits hkeeps
    obtain ⟨⟨acc, drs, hloads, _⟩, _⟩ := hkeeps
    obtain ⟨hmem4, hmem6⟩ := mem_buildSections hsections
    have hdone := hpass.symm.trans hloads.sections
    obtain ⟨_, _, hstep4⟩ := foldlM_eq_ok_mem hdone hmem4
    obtain ⟨_, _, hstep6⟩ := foldlM_eq_ok_mem hdone hmem6
    have hipv4 := prefix_le_of_loadWritten rfl (by norm_num) (fun c => by simp [encodeIpv4])
      (fun c => by simp [encodeIpv4, prefixOf]) (hsize sections hsections _ hmem4) hstep4
    have hipv6 := prefix_le_of_loadWritten rfl (by norm_num) (fun c => by simp [encodeIpv6])
      (fun c => by simp [encodeIpv6, prefixOf]) (hsize sections hsections _ hmem6) hstep6
    obtain ⟨sets, _, hload⟩ := hloaded (Fits.encodable hb hsize hipv4 hipv6)
    have hacc : loaded b stats sets = acc := Except.ok.inj (hload.symm.trans hloads.sections)
    subst hacc
    exact ⟨hb, hipv4, hipv6, ⟨_, hloads.regexes⟩, ⟨_, hloads.excludeRegexes⟩⟩
  · rintro ⟨hb, hback⟩
    obtain ⟨sets, _, hload⟩ := hloaded
      (Fits.encodable hb hsize hback.ipv4_prefix hback.ipv6_prefix)
    obtain ⟨regexes, hregexes⟩ := hback.regexes
    obtain ⟨excludeRegexes, hexcludes⟩ := hback.excludeRegexes
    have hwhole : fromBytes F R file = finishLoading F R now sourceHash.toList
        (loaded b stats sets) := by
      rw [hfile, sectionCountOf_written] at hload
      rw [hfile, fromBytes_encodeHeader, hload, run_ok_bind]
    have hpatterns : (loaded b stats sets).regexPatterns = b.regexes := rfl
    have hexPatterns : (loaded b stats sets).excludeRegexPatterns = b.excludeRegexes := rfl
    simp only [finishLoading, hpatterns, hexPatterns, hregexes, hexcludes, run_ok_bind] at hwhole
    have hkept : b.kept = b := by
      rw [EntryBuckets.kept, shortStrings_eq hb.keyword_le, shortStrings_eq hb.regex_le,
        shortStrings_eq hb.excludeRegex_le]
    refine ⟨⟨loaded b stats sets, _, ⟨hload, hwhole, rfl, hregexes, hexcludes⟩,
      List.Subset.refl _, List.Subset.refl _, List.Subset.refl _⟩, ?_⟩
    rw [writeV2_counts h, hkept]
    exact (map_mod_eq_self (by norm_num)).mpr hb.count_lt

/-- A pattern of each kind, and ranges. -/
private def oneOfEach : EntryBuckets where
  keywords := ["ads"]
  regexes := ["a.s"]
  ipv4Cidrs := [(0x0a000000, 8)]
  ipv6Cidrs := [(0xfd000000000000000000000000000000, 8)]
  ports := [(80, 443)]
  excludeRegexes := ["ads-"]

theorem rules_kept_iff_each :
    ∃ file stats, writeV2 listFst 7 oneOfEach (Vector.replicate 32 0) = .ok (file, stats) ∧
      KeepsRules listFst literalRegex oneOfEach file stats := by
  obtain ⟨file, stats, hfile⟩ : ∃ file stats, writeV2 listFst 7 oneOfEach
      (Vector.replicate 32 0) = .ok (file, stats) := ⟨_, _, rfl⟩
  obtain ⟨sections, hsections, hsizes⟩ : ∃ sections,
      buildSections listFst oneOfEach = .ok sections ∧
        ∀ s ∈ sections, s.bytes.length < 2 ^ 32 := ⟨_, rfl, by decide⟩
  have hsize : oneOfEach.SectionsFit listFst := by
    intro sections' hsections'
    rw [hsections] at hsections'
    cases hsections'
    exact hsizes
  have hkept := (rules_kept_iff (R := literalRegex) listFst_lawful hfile).2 hsize
  refine ⟨file, stats, hfile, hkept.mpr ⟨⟨by decide, by decide, by decide, by decide⟩, ?_⟩⟩
  refine ⟨?_, ?_, ⟨_, rfl⟩, ⟨_, rfl⟩⟩
  · simp [oneOfEach]
  · simp [oneOfEach]

/-- The pattern `aa…a`. -/
def repeatedPattern (n : Nat) : String := String.ofList (List.replicate n 'a')

private theorem octets_repeatedPattern (n : Nat) :
    octets (repeatedPattern n) = List.replicate n 97 := by
  rw [repeatedPattern, octets_ofList]
  induction n with
  | zero => rfl
  | succ n ih =>
      rw [List.replicate_succ, List.flatMap_cons, ih, List.replicate_succ]
      rfl

private theorem buildStringSection_repeatedPattern {n : Nat} (h : 255 < n) :
    buildStringSection [repeatedPattern n] = ([], 0) := by
  have hlong : ¬ (octets (repeatedPattern n)).length ≤ 255 := by
    rw [octets_repeatedPattern, List.length_replicate]
    omega
  simp [buildStringSection, hlong]

private theorem compiles_repeatedPattern (n : Nat) :
    literalRegex.compiles (repeatedPattern n) = .ok () := by
  simp [literalRegex, opensClass, octets_repeatedPattern]

/-- An exception of 256 bytes is left out of the file and of its count, and
nothing is reported. -/
theorem long_pattern_left_out :
    ¬ ∀ (F : FstCrate) (R : RegexCrate) (b : EntryBuckets) (now : BitVec 64)
      (sourceHash : Vector UInt8 32) (file : Bytes) (stats : BuildStats),
      F.Lawful → R.Lawful → b.Compiles R → b.SectionsFit F →
      writeV2 F now b sourceHash = .ok (file, stats) → KeepsRules F R b file stats := by
  intro hclaim
  let b : EntryBuckets := { excludeRegexes := [repeatedPattern 256] }
  have hsections : ∃ sections, buildSections listFst b = .ok sections ∧
      (∀ s ∈ sections, s.bytes.length < 2 ^ 32) ∧
        (BuildStats.ofSections sections).excludeRegexCount = 0 := by
    simp only [buildSections, b, buildStringSection_repeatedPattern (show 255 < 256 by norm_num)]
    exact ⟨_, rfl, by decide, rfl⟩
  obtain ⟨sections, hsections, hsizes, hcount⟩ := hsections
  have hsize : b.SectionsFit listFst := by
    intro sections' hsections'
    rw [hsections] at hsections'
    cases hsections'
    exact hsizes
  have hcompiles : b.Compiles literalRegex := by
    refine ⟨by simp [b], ?_⟩
    intro p hp
    rw [List.mem_singleton.mp hp]
    exact compiles_repeatedPattern 256
  obtain ⟨file, hfile⟩ : ∃ file, writeV2 listFst 7 b (Vector.replicate 32 0) =
      .ok (file, BuildStats.ofSections sections) := by
    rw [writeV2, hsections]
    exact ⟨_, rfl⟩
  have hkept := hclaim listFst literalRegex b 7 _ file _ listFst_lawful literalRegex_lawful
    hcompiles hsize hfile
  have hlast := congrArg (fun counts : List Nat => counts[9]?) hkept.counts
  simp [BuildStats.counts, EntryBuckets.ruleCounts, hcount, b] at hlast

end Relay.Ruleset
