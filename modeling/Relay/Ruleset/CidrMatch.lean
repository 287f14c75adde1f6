import Relay.Ruleset.Buckets
import Relay.Ruleset.Ranges

/-!
Matching an address against the CIDRs a file was written from. A loaded file is
exact as long as the length of every section fits its header; longer lists of
CIDRs are cut where the length wraps.
-/

namespace Relay.Ruleset

open Binary Text

variable {w : Nat}

/-- The address starts with the bits of the prefix. -/
def InCidr (cidr : BitVec w × UInt8) (addr : BitVec w) : Prop :=
  addr.toNat / 2 ^ (w - cidr.2.toNat) = cidr.1.toNat / 2 ^ (w - cidr.2.toNat)

instance (cidr : BitVec w × UInt8) (addr : BitVec w) : Decidable (InCidr cidr addr) :=
  inferInstanceAs (Decidable (_ = _))

/-- The IPv4 address that an address stands for: itself, or the one mapped into
IPv6. -/
inductive IsIpv4 : BitVec 32 ⊕ BitVec 128 → BitVec 32 → Prop where
  | plain (addr : BitVec 32) : IsIpv4 (.inl addr) addr
  | mapped {v6 : BitVec 128} {addr : BitVec 32} :
      toIpv4Mapped v6 = some addr → IsIpv4 (.inr v6) addr

/-- What the CIDRs say about an address. -/
structure Exact (ipv4Cidrs : List (BitVec 32 × UInt8)) (ipv6Cidrs : List (BitVec 128 × UInt8))
    (ip : BitVec 32 ⊕ BitVec 128) (result : Option MatchResult) : Prop where
  ipv4 : result = some .ipv4Cidr ↔
    ∃ addr, IsIpv4 ip addr ∧ ∃ cidr ∈ ipv4Cidrs, InCidr cidr addr
  ipv6 : result = some .ipv6Cidr ↔
    ∃ addr, ip = .inr addr ∧ toIpv4Mapped addr = none ∧ ∃ cidr ∈ ipv6Cidrs, InCidr cidr addr
  otherwise : result = some .ipv4Cidr ∨ result = some .ipv6Cidr ∨ result = none

/-! ### The range of a CIDR -/

/-- The first and the last address with the bits of the prefix. -/
theorem rangeOf_toNat {cidr : BitVec w × UInt8} (h : cidr.2.toNat ≤ w) :
    (rangeOf w cidr).1.toNat =
        2 ^ (w - cidr.2.toNat) * (cidr.1.toNat / 2 ^ (w - cidr.2.toNat)) ∧
      (rangeOf w cidr).2.toNat =
        2 ^ (w - cidr.2.toNat) * (cidr.1.toNat / 2 ^ (w - cidr.2.toNat)) +
          (2 ^ (w - cidr.2.toNat) - 1) := by
  obtain ⟨addr, pre⟩ := cidr
  dsimp only at h ⊢
  by_cases hzero : pre = 0
  · subst hzero
    simp [rangeOf, cidrToRange, Nat.div_eq_of_lt addr.isLt, BitVec.toNat_allOnes]
  · have hpos : 0 < pre.toNat := Nat.pos_of_ne_zero (fun h0 => hzero (UInt8.toNat_inj.mp h0))
    obtain ⟨k, hk⟩ : ∃ k, k = w - pre.toNat := ⟨_, rfl⟩
    have hkw : k < w := by omega
    have hpow : 2 ^ k < 2 ^ w := Nat.pow_lt_pow_right (by omega) hkw
    have hone : (1#w <<< k).toNat = 2 ^ k := by
      rw [BitVec.toNat_shiftLeft, BitVec.toNat_ofNat, Nat.mod_eq_of_lt (Nat.one_lt_two_pow (by omega)),
        Nat.one_shiftLeft, Nat.mod_eq_of_lt hpow]
    have hle : 1#w ≤ 1#w <<< k := by
      rw [BitVec.le_def, hone, BitVec.toNat_ofNat, Nat.mod_eq_of_lt (Nat.one_lt_two_pow (by omega))]
      exact Nat.one_le_two_pow
    have hlow : (1#w <<< k - 1#w).toNat = 2 ^ k - 1 := by
      rw [BitVec.toNat_sub_of_le hle, hone, BitVec.toNat_ofNat,
        Nat.mod_eq_of_lt (Nat.one_lt_two_pow (by omega))]
    have hrange : rangeOf w (addr, pre) =
        (addr &&& ~~~(1#w <<< k - 1#w), addr &&& ~~~(1#w <<< k - 1#w) ||| ~~~~~~(1#w <<< k - 1#w)) := by
      rw [rangeOf]
      simp only [cidrToRange, if_neg hzero, checkedSub, if_pos h, run_ok_bind, ← hk, checkedShl, if_pos hkw,
        checkedBitSub, if_pos hle]
      rfl
    have hstart : (addr &&& ~~~(1#w <<< k - 1#w)).toNat = 2 ^ k * (addr.toNat / 2 ^ k) := by
      apply Nat.eq_of_testBit_eq
      intro i
      have hmask : (1#w <<< k - 1#w).getLsbD i = decide (i < k) := by
        rw [BitVec.getLsbD, hlow, Nat.testBit_two_pow_sub_one]
      rw [BitVec.testBit_toNat, BitVec.getLsbD_and, BitVec.getLsbD_not, hmask,
        Nat.testBit_two_pow_mul, Nat.testBit_div_two_pow, BitVec.testBit_toNat]
      rcases Nat.lt_or_ge i k with hlt | hge
      · simp [hlt, Nat.not_le.mpr hlt]
      · rw [Nat.sub_add_cancel hge]
        rcases Nat.lt_or_ge i w with hin | hout
        · simp [hge, hin, Nat.not_lt.mpr hge]
        · simp [BitVec.getLsbD_of_ge addr i hout]
    rw [hrange, ← hk]
    refine ⟨hstart, ?_⟩
    dsimp only
    rw [BitVec.not_not, BitVec.toNat_or, hstart, hlow, ← Nat.two_pow_add_eq_or_of_lt]
    have := Nat.two_pow_pos k
    omega

theorem rangeOf_le {cidr : BitVec w × UInt8} (h : cidr.2.toNat ≤ w) :
    (rangeOf w cidr).1 ≤ (rangeOf w cidr).2 := by
  obtain ⟨hstart, hend⟩ := rangeOf_toNat h
  rw [BitVec.le_def, hstart, hend]
  exact Nat.le_add_right ..

theorem inCidr_iff {cidr : BitVec w × UInt8} (h : cidr.2.toNat ≤ w) (addr : BitVec w) :
    InCidr cidr addr ↔ (rangeOf w cidr).1 ≤ addr ∧ addr ≤ (rangeOf w cidr).2 := by
  obtain ⟨hstart, hend⟩ := rangeOf_toNat h
  have hpos := Nat.two_pow_pos (w - cidr.2.toNat)
  rw [BitVec.le_def, BitVec.le_def, hstart, hend, InCidr, Nat.div_eq_iff hpos, Nat.mul_comm]
  constructor
  · rintro ⟨hlow, hhigh⟩
    exact ⟨hlow, by omega⟩
  · rintro ⟨hlow, hhigh⟩
    exact ⟨hlow, by omega⟩

theorem covers_map_rangeOf {cidrs : List (BitVec w × UInt8)} (h : ∀ c ∈ cidrs, c.2.toNat ≤ w)
    (addr : BitVec w) :
    Covers (cidrs.map (rangeOf w)) addr ↔ ∃ cidr ∈ cidrs, InCidr cidr addr := by
  simp only [Covers, List.mem_map, exists_exists_and_eq_and]
  constructor
  · rintro ⟨cidr, hmem, hrange⟩
    exact ⟨cidr, hmem, (inCidr_iff (h cidr hmem) addr).mpr hrange⟩
  · rintro ⟨cidr, hmem, hin⟩
    exact ⟨cidr, hmem, (inCidr_iff (h cidr hmem) addr).mp hin⟩

/-- The search over the merged ranges of CIDRs. -/
theorem binarySearchRange_cidrs {cidrs : List (BitVec w × UInt8)}
    (h : ∀ c ∈ cidrs, c.2.toNat ≤ w) (addr : BitVec w) :
    ∃ found, binarySearchRange (mergeRanges (cidrs.map (rangeOf w))) addr 0
        (mergeRanges (cidrs.map (rangeOf w))).length = .ok found ∧
      (found = true ↔ ∃ cidr ∈ cidrs, InCidr cidr addr) := by
  rw [← covers_map_rangeOf h]
  apply binarySearchRange_mergeRanges
  intro range hrange
  obtain ⟨cidr, hmem, rfl⟩ := List.mem_map.mp hrange
  exact rangeOf_le (h cidr hmem)

/-! ### Matching a loaded ruleset -/

variable {F : FstCrate} {R : RegexCrate}

/-- A loaded ruleset searches the merged ranges of what was read; without any it
has no matcher for addresses. -/
theorem finishLoading_ranges {buildTime : BitVec 64} {sourceHash : Bytes} {acc : Loading F}
    {drs : DrsFile F R} (h : finishLoading F R buildTime sourceHash acc = .ok drs) :
    drs.ipv4Ranges = mergeRanges acc.ipv4Ranges ∧ drs.ipv6Ranges = mergeRanges acc.ipv6Ranges ∧
      (drs.hasIpMatchers = false → drs.ipv4Ranges = [] ∧ drs.ipv6Ranges = []) := by
  rw [finishLoading, run_bind_eq_ok] at h
  obtain ⟨regexes, _, h⟩ := h
  rw [run_bind_eq_ok] at h
  obtain ⟨excludeRegexes, _, h⟩ := h
  cases h
  exact ⟨rfl, rfl, by simp⟩

theorem binarySearchRange_nil (v : BitVec w) : binarySearchRange [] v 0 0 = .ok false := by
  rw [binarySearchRange, if_neg (Nat.lt_irrefl 0)]

/-- The search for an IPv4 address, also where there is no matcher. -/
def DrsFile.searchIpv4 (drs : DrsFile F R) (v4 : BitVec 32) : Run Empty (Option MatchResult) := do
  let found ← binarySearchRange drs.ipv4Ranges v4 0 drs.ipv4Ranges.length
  return if found then some .ipv4Cidr else none

def DrsFile.searchIpv6 (drs : DrsFile F R) (v6 : BitVec 128) : Run Empty (Option MatchResult) := do
  let found ← binarySearchRange drs.ipv6Ranges v6 0 drs.ipv6Ranges.length
  return if found then some .ipv6Cidr else none

theorem DrsFile.matchesIp_eq {drs : DrsFile F R}
    (h : drs.hasIpMatchers = false → drs.ipv4Ranges = [] ∧ drs.ipv6Ranges = [])
    (ip : BitVec 32 ⊕ BitVec 128) :
    drs.matchesIp ip =
      match ip with
      | .inl v4 => drs.searchIpv4 v4
      | .inr v6 =>
          match toIpv4Mapped v6 with
          | some v4 => drs.searchIpv4 v4
          | none => drs.searchIpv6 v6 := by
  unfold DrsFile.matchesIp
  cases hmatchers : drs.hasIpMatchers with
  | true => rfl
  | false =>
      obtain ⟨hipv4, hipv6⟩ := h hmatchers
      have hsearch4 : ∀ v4, drs.searchIpv4 v4 = .ok none := by
        intro v4
        rw [searchIpv4, hipv4, List.length_nil, binarySearchRange_nil]
        rfl
      have hsearch6 : ∀ v6, drs.searchIpv6 v6 = .ok none := by
        intro v6
        rw [searchIpv6, hipv6, List.length_nil, binarySearchRange_nil]
        rfl
      rw [Bool.not_false, if_pos rfl]
      cases ip with
      | inl v4 => exact (hsearch4 v4).symm
      | inr v6 =>
          dsimp only
          cases toIpv4Mapped v6 with
          | some v4 => exact (hsearch4 v4).symm
          | none => exact (hsearch6 v6).symm

section

variable {ipv4Cidrs : List (BitVec 32 × UInt8)} {ipv6Cidrs : List (BitVec 128 × UInt8)}

theorem exact_ipv4 {ip : BitVec 32 ⊕ BitVec 128} {addr : BitVec 32} {found : Bool}
    (hip : IsIpv4 ip addr) (hfound : found = true ↔ ∃ cidr ∈ ipv4Cidrs, InCidr cidr addr) :
    Exact ipv4Cidrs ipv6Cidrs ip (if found then some .ipv4Cidr else none) := by
  have hunique : ∀ other, IsIpv4 ip other → other = addr := by
    intro other hother
    cases hip with
    | plain => cases hother; rfl
    | mapped hmapped =>
        cases hother with
        | mapped hother => exact Option.some.inj (hother.symm.trans hmapped)
  have hnot6 : ¬ ∃ v6, ip = .inr v6 ∧ toIpv4Mapped v6 = none ∧
      ∃ cidr ∈ ipv6Cidrs, InCidr cidr v6 := by
    rintro ⟨v6, rfl, hnone, _⟩
    cases hip with
    | mapped hmapped =>
        rw [hnone] at hmapped
        cases hmapped
  have hin : (∃ other, IsIpv4 ip other ∧ ∃ cidr ∈ ipv4Cidrs, InCidr cidr other) ↔
      found = true := by
    rw [hfound]
    constructor
    · rintro ⟨other, hother, hcidr⟩
      rwa [hunique other hother] at hcidr
    · intro hcidr
      exact ⟨addr, hip, hcidr⟩
  refine ⟨?_, ?_, ?_⟩
  · rw [hin]
    cases found <;> simp
  · cases found <;> simpa using hnot6
  · cases found <;> simp

theorem exact_ipv6 {v6 : BitVec 128} {found : Bool} (hplain : toIpv4Mapped v6 = none)
    (hfound : found = true ↔ ∃ cidr ∈ ipv6Cidrs, InCidr cidr v6) :
    Exact ipv4Cidrs ipv6Cidrs (.inr v6) (if found then some .ipv6Cidr else none) := by
  have hnot4 : ¬ ∃ addr, IsIpv4 (.inr v6) addr ∧ ∃ cidr ∈ ipv4Cidrs, InCidr cidr addr := by
    rintro ⟨addr, hip, _⟩
    cases hip with
    | mapped hmapped =>
        rw [hplain] at hmapped
        cases hmapped
  have hin : (∃ addr, (.inr v6 : BitVec 32 ⊕ BitVec 128) = .inr addr ∧ toIpv4Mapped addr = none ∧
      ∃ cidr ∈ ipv6Cidrs, InCidr cidr addr) ↔ found = true := by
    rw [hfound]
    constructor
    · rintro ⟨addr, hsame, _, hcidr⟩
      cases hsame
      exact hcidr
    · intro hcidr
      exact ⟨v6, rfl, hplain, hcidr⟩
  refine ⟨?_, ?_, ?_⟩
  · cases found <;> simpa using hnot4
  · rw [hin]
    cases found <;> simp
  · cases found <;> simp

/-- A ruleset loaded from the ranges of CIDRs answers every address exactly. -/
theorem matchesIp_loaded {buildTime : BitVec 64} {sourceHash : Bytes} {acc : Loading F}
    {drs : DrsFile F R} (h : finishLoading F R buildTime sourceHash acc = .ok drs)
    (hipv4 : acc.ipv4Ranges = ipv4Cidrs.map (rangeOf 32))
    (hipv6 : acc.ipv6Ranges = ipv6Cidrs.map (rangeOf 128))
    (hprefix4 : ∀ c ∈ ipv4Cidrs, c.2.toNat ≤ 32) (hprefix6 : ∀ c ∈ ipv6Cidrs, c.2.toNat ≤ 128)
    (ip : BitVec 32 ⊕ BitVec 128) :
    ∃ result, drs.matchesIp ip = .ok result ∧ Exact ipv4Cidrs ipv6Cidrs ip result := by
  obtain ⟨hranges4, hranges6, hmatchers⟩ := finishLoading_ranges h
  rw [hipv4] at hranges4
  rw [hipv6] at hranges6
  have hsearch4 : ∀ addr, IsIpv4 ip addr →
      ∃ result, drs.searchIpv4 addr = .ok result ∧ Exact ipv4Cidrs ipv6Cidrs ip result := by
    intro addr hip
    obtain ⟨found, hok, hfound⟩ := binarySearchRange_cidrs hprefix4 addr
    refine ⟨_, ?_, exact_ipv4 hip hfound⟩
    rw [DrsFile.searchIpv4, hranges4, hok]
    rfl
  rw [DrsFile.matchesIp_eq hmatchers]
  cases ip with
  | inl v4 => exact hsearch4 v4 (.plain v4)
  | inr v6 =>
      dsimp only
      cases hmapped : toIpv4Mapped v6 with
      | some v4 => exact hsearch4 v4 (.mapped hmapped)
      | none =>
          obtain ⟨found, hok, hfound⟩ := binarySearchRange_cidrs hprefix6 v6
          refine ⟨_, ?_, exact_ipv6 hmapped hfound⟩
          dsimp only
          rw [DrsFile.searchIpv6, hranges6, hok]
          rfl

end

/-- Of any buckets whose sections fit their headers. -/
theorem matchesIp_written (hF : F.Lawful) {b : EntryBuckets}
    (hprefix4 : ∀ c ∈ b.ipv4Cidrs, c.2.toNat ≤ 32)
    (hprefix6 : ∀ c ∈ b.ipv6Cidrs, c.2.toNat ≤ 128)
    (hsize : ∀ sections, buildSections F b = .ok sections → ∀ s ∈ sections,
      s.bytes.length < 2 ^ 32)
    {now : BitVec 64} {sourceHash : Vector UInt8 32} {file : Bytes} {stats : BuildStats}
    (h : writeV2 F now b sourceHash = .ok (file, stats)) {drs : DrsFile F R}
    (hdrs : fromBytes F R file = .ok drs) (ip : BitVec 32 ⊕ BitVec 128) :
    ∃ result, drs.matchesIp ip = .ok result ∧ Exact b.ipv4Cidrs b.ipv6Cidrs ip result := by
  rw [← writeV2_kept] at h
  obtain ⟨sets, _, hload⟩ :=
    fromBytes_written (R := R) hF (EntryBuckets.kept_encodable hprefix4 hprefix6 hsize) h
  rw [hload] at hdrs
  exact matchesIp_loaded hdrs rfl rfl hprefix4 hprefix6 ip

/-! ### Lists whose sections do not fit -/

/-- Records of a fixed width that are cut after some byte: either not at the end of
a record, or behind the first of them. -/
theorem readFixed_cut {α β : Type} {width : Nat} {encode : α → Bytes} {value : α → β}
    {body : Bytes → Nat → List β → Run DrsError (Nat × List β)} {items : List α}
    (hpos : 0 < width) (hwidth : ∀ x, (encode x).length = width)
    (hread : ∀ bytes, ∀ x ∈ items,
      ReadsRecord bytes encode (fun acc x => acc ++ [value x]) (body bytes) x)
    {r : Nat} (hr : r ≤ items.length * width) {out : List β}
    (h : readFixed width ((items.flatMap encode).take r)
      (body ((items.flatMap encode).take r)) [] = .ok out) :
    ∃ m ≤ items.length, r = m * width ∧ out = (items.take m).map value := by
  have hall := flatMap_length_of_const hwidth items
  have hlen : ((items.flatMap encode).take r).length = r := by
    rw [List.length_take, hall, Nat.min_eq_left hr]
  have hwhole : r % width = 0 := by
    by_contra hcut
    rw [readFixed, hlen, if_pos hcut] at h
    obtain ⟨_, _, hfail⟩ := run_bind_eq_ok.mp h
    cases hfail
  obtain ⟨m, rfl⟩ : ∃ m, r = m * width := ⟨r / width, (Nat.div_mul_cancel
    (Nat.dvd_of_mod_eq_zero hwhole)).symm⟩
  have hm : m ≤ items.length := Nat.le_of_mul_le_mul_right hr hpos
  refine ⟨m, hm, rfl, ?_⟩
  have htake : (items.flatMap encode).take (m * width) = (items.take m).flatMap encode := by
    have hfront := flatMap_length_of_const hwidth (items.take m)
    rw [List.length_take, Nat.min_eq_left hm] at hfront
    conv_lhs => rw [← List.take_append_drop m items, List.flatMap_append]
    exact List.take_left' hfront
  rw [htake, readFixed_encoded hpos hwidth
    (fun x hx => hread _ x (List.mem_of_mem_take hx))] at h
  exact (Except.ok.inj h).symm

/-- A section of records whose length has wrapped: the loader reads the first of
them and goes on in the middle of the section. -/
theorem loadSections_cut {α β : Type} {ty : SectionType} {width : Nat} {encode : α → Bytes}
    {value : α → β} {body : Bytes → Nat → List β → Run DrsError (Nat × List β)}
    {acc result : Loading F} (items : List α) (put : Loading F → List β → Nat → Loading F)
    (hload : ∀ n bytes, loadSection F ty n bytes acc =
      (readFixed width bytes (body bytes) [] >>= fun xs => .ok (put acc xs n)))
    (hpos : 0 < width) (hwidth : ∀ x, (encode x).length = width)
    (hread : ∀ bytes, ∀ x ∈ items,
      ReadsRecord bytes encode (fun acc x => acc ++ [value x]) (body bytes) x)
    {data back : Bytes} {offset remaining : Nat} {count : BitVec 32}
    (hdata : data.drop offset = Section.encode ⟨ty, count, items.flatMap encode⟩ ++ back)
    (hoffset : offset ≤ data.length) (hsmall : offset ≤ 2 ^ 63)
    (h : loadSections F data (remaining + 1) offset acc = .ok result) :
    ∃ m ≤ items.length, (items.length * width) % 2 ^ 32 = m * width ∧
      loadSections F data remaining (offset + 9 + m * width)
        (put acc ((items.take m).map value) count.toNat) = .ok result := by
  have hlen := flatMap_length_of_const hwidth items
  have hwrap : (BitVec.ofNat 32 (items.flatMap encode).length).toNat =
      (items.length * width) % 2 ^ 32 := by
    rw [hlen, BitVec.toNat_ofNat]
  have hle : (items.length * width) % 2 ^ 32 ≤ items.length * width := Nat.mod_le ..
  have hlt : (items.length * width) % 2 ^ 32 < 2 ^ 32 := Nat.mod_lt _ (by omega)
  rw [Section.encode, List.append_assoc] at hdata
  rw [loadSections_header hdata hoffset (by omega)
    (by rw [hwrap, List.length_append, hlen]; omega), hwrap,
    List.take_append_of_le_length (by rw [hlen]; exact hle), hload] at h
  obtain ⟨next, hnext, hrest⟩ := run_bind_eq_ok.mp h
  obtain ⟨xs, hxs, hput⟩ := run_bind_eq_ok.mp hnext
  obtain ⟨m, hm, hr, rfl⟩ := readFixed_cut hpos hwidth hread hle hxs
  cases hput
  rw [hr] at hrest
  exact ⟨m, hm, hr, hrest⟩

/-- No section begins with a byte of ones. -/
theorem loadSections_unknown {data rest : Bytes} {offset remaining : Nat} {acc result : Loading F}
    (hdata : data.drop offset = 0xff :: rest) :
    loadSections F data (remaining + 1) offset acc ≠ .ok result := by
  intro h
  have hbyte : byteAt data offset = (.ok 0xff : Run DrsError UInt8) := byteAt_of_drop hdata
  obtain ⟨⟨ty, count, byteLen, headerLen⟩, hheader, _⟩ := run_bind_eq_ok.mp h
  obtain ⟨expected, _, hheader⟩ := run_bind_eq_ok.mp hheader
  split at hheader
  · cases hheader
  · rw [hbyte, run_ok_bind] at hheader
    cases hheader

def cidrBuckets (ipv4Cidrs : List (BitVec 32 × UInt8)) (ipv6Cidrs : List (BitVec 128 × UInt8)) :
    EntryBuckets where
  ipv4Cidrs := ipv4Cidrs
  ipv6Cidrs := ipv6Cidrs

section

variable {ipv4Cidrs : List (BitVec 32 × UInt8)} {ipv6Cidrs : List (BitVec 128 × UInt8)}

def ipv4Section (ipv4Cidrs : List (BitVec 32 × UInt8)) : Section :=
  ⟨.ipCidrV4, (buildIpv4Section ipv4Cidrs).2, ipv4Cidrs.flatMap encodeIpv4⟩

def ipv6Section (ipv6Cidrs : List (BitVec 128 × UInt8)) : Section :=
  ⟨.ipCidrV6, (buildIpv6Section ipv6Cidrs).2, ipv6Cidrs.flatMap encodeIpv6⟩

/-- A file of CIDRs: its header, and a section for each list that is not empty. -/
theorem writeV2_cidrs (now : BitVec 64) (ipv4Cidrs : List (BitVec 32 × UInt8))
    (ipv6Cidrs : List (BitVec 128 × UInt8)) (sourceHash : Vector UInt8 32) :
    ∃ stats, writeV2 F now (cidrBuckets ipv4Cidrs ipv6Cidrs) sourceHash =
      .ok (encodeHeader now sourceHash (BitVec.ofNat 32 (([ipv4Section ipv4Cidrs,
        ipv6Section ipv6Cidrs].filter Section.isWritten).length)) ++
        ([ipv4Section ipv4Cidrs, ipv6Section ipv6Cidrs].filter Section.isWritten).flatMap
          Section.encode, stats) := by
  have hsections : buildSections F (cidrBuckets ipv4Cidrs ipv6Cidrs) =
      .ok (listedSections (cidrBuckets ipv4Cidrs ipv6Cidrs) ([], 0) ([], 0) ([], 0) ([], 0)) :=
    rfl
  have hwritten : (listedSections (cidrBuckets ipv4Cidrs ipv6Cidrs) ([], 0) ([], 0) ([], 0)
      ([], 0)).filter Section.isWritten =
        [ipv4Section ipv4Cidrs, ipv6Section ipv6Cidrs].filter Section.isWritten := by
    simp [listedSections, List.filter_cons, Section.isWritten, cidrBuckets, ipv4Section,
      ipv6Section, buildStringSection, buildPortSection, buildFixedSection, buildIpv4Section,
      buildIpv6Section]
  refine ⟨BuildStats.ofSections (listedSections (cidrBuckets ipv4Cidrs ipv6Cidrs) ([], 0) ([], 0)
    ([], 0) ([], 0)), ?_⟩
  rw [writeV2, hsections]
  simp only [bind, Except.bind, hwritten]
  rfl

theorem encodeIpv4_length (cidr : BitVec 32 × UInt8) : (encodeIpv4 cidr).length = 5 := by
  simp [encodeIpv4]

theorem encodeIpv6_length (cidr : BitVec 128 × UInt8) : (encodeIpv6 cidr).length = 17 := by
  simp [encodeIpv6]

theorem ipv4Section_isWritten : (ipv4Section ipv4Cidrs).isWritten = true ↔ ipv4Cidrs ≠ [] := by
  cases ipv4Cidrs <;> simp [ipv4Section, Section.isWritten, encodeIpv4]

theorem ipv6Section_isWritten : (ipv6Section ipv6Cidrs).isWritten = true ↔ ipv6Cidrs ≠ [] := by
  cases ipv6Cidrs <;> simp [ipv6Section, Section.isWritten, encodeIpv6]

theorem encodeHeader_length (buildTime : BitVec 64) (sourceHash : Vector UInt8 32)
    (sectionCount : BitVec 32) : (encodeHeader buildTime sourceHash sectionCount).length = 54 := by
  simp [encodeHeader, MAGIC]

/-- A written file that loads: the pass over its sections behind the header. -/
theorem fromBytes_sections {now : BitVec 64} {sourceHash : Vector UInt8 32} {sections : List Section}
    (hfew : sections.length < 2 ^ 32) {drs : DrsFile F R}
    (h : fromBytes F R (encodeHeader now sourceHash (BitVec.ofNat 32 sections.length) ++
      sections.flatMap Section.encode) = .ok drs) :
    ∃ data acc, data.drop 54 = sections.flatMap Section.encode ∧ 54 ≤ data.length ∧
      loadSections F data sections.length 54 {} = .ok acc ∧
      finishLoading F R now sourceHash.toList acc = .ok drs := by
  rw [fromBytes_encodeHeader, BitVec.toNat_ofNat, Nat.mod_eq_of_lt hfew] at h
  obtain ⟨acc, hload, hfinish⟩ := run_bind_eq_ok.mp h
  have hheader := encodeHeader_length now sourceHash (BitVec.ofNat 32 sections.length)
  refine ⟨_, acc, List.drop_left' hheader, ?_, hload, hfinish⟩
  rw [List.length_append, hheader]
  omega

/-- Where a section was cut, the next record stands. -/
theorem drop_cut {α : Type} {ty : SectionType} {width : Nat} {encode : α → Bytes}
    {items : List α} {b : UInt8} (hwidth : ∀ x, (encode x).length = width)
    (hfirst : ∀ x ∈ items, ∃ rest, encode x = b :: rest) {data back : Bytes} {offset : Nat}
    {count : BitVec 32}
    (hdata : data.drop offset = Section.encode ⟨ty, count, items.flatMap encode⟩ ++ back)
    {m : Nat} (hm : m < items.length) :
    ∃ rest, data.drop (offset + 9 + m * width) = b :: rest := by
  have hfront := flatMap_length_of_const hwidth (items.take m)
  rw [List.length_take, Nat.min_eq_left (Nat.le_of_lt hm)] at hfront
  obtain ⟨rest, hrest⟩ := hfirst items[m] (List.getElem_mem hm)
  have hitems : items.flatMap encode = (items.take m).flatMap encode ++
      (b :: rest ++ (items.drop (m + 1)).flatMap encode) := by
    conv_lhs => rw [← List.take_append_drop m items, List.drop_eq_getElem_cons hm,
      List.flatMap_append, List.flatMap_cons, hrest]
  rw [Section.encode, List.append_assoc] at hdata
  refine ⟨rest ++ (items.drop (m + 1)).flatMap encode ++ back, ?_⟩
  rw [← List.drop_drop, ← List.drop_drop, hdata, List.drop_left' (by simp), hitems,
    List.append_assoc, List.drop_left' hfront]
  rfl

/-- An IPv4 list that does not fit: only a part of it is loaded, and with an IPv6
section behind it the file does not load unless the next CIDR reads as a header. -/
theorem ipv4_cut {now : BitVec 64} {sourceHash : Vector UInt8 32} {file : Bytes}
    {stats : BuildStats} {drs : DrsFile F R}
    (hlong : 2 ^ 32 ≤ ipv4Cidrs.length * 5) (hprefix4 : ∀ c ∈ ipv4Cidrs, c.2.toNat ≤ 32)
    (hones : ∀ c ∈ ipv4Cidrs, ∃ rest, encodeIpv4 c = 0xff :: rest)
    (h : writeV2 F now (cidrBuckets ipv4Cidrs ipv6Cidrs) sourceHash = .ok (file, stats))
    (hdrs : fromBytes F R file = .ok drs) :
    ipv6Cidrs = [] ∧ ∃ m < ipv4Cidrs.length, ∀ ip, ∃ result,
      drs.matchesIp ip = .ok result ∧ Exact (ipv4Cidrs.take m) [] ip result := by
  obtain ⟨stats', hwritten⟩ := writeV2_cidrs (F := F) now ipv4Cidrs ipv6Cidrs sourceHash
  rw [hwritten] at h
  cases h
  have hne : ipv4Cidrs ≠ [] := by
    rintro rfl
    simp at hlong
  rw [List.filter_cons_of_pos (ipv4Section_isWritten.mpr hne)] at hdrs
  obtain ⟨data, acc, hdata, hlength, hload, hfinish⟩ := fromBytes_sections
    (Nat.lt_of_le_of_lt (Nat.succ_le_succ (List.length_filter_le _ _)) (by simp)) hdrs
  rw [List.flatMap_cons] at hdata
  obtain ⟨m, hm, hr, hrest⟩ := loadSections_cut (F := F) ipv4Cidrs
    (fun acc xs n => { acc with ipv4Ranges := xs, ipv4CidrCount := n }) (fun n bytes => rfl)
    (by omega) encodeIpv4_length (fun bytes c hc => readIpv4Cidr_reads bytes c (hprefix4 c hc))
    hdata hlength (by omega) hload
  have hlt : m < ipv4Cidrs.length := by
    have hsmall : m * 5 < 2 ^ 32 := by
      rw [← hr]
      exact Nat.mod_lt _ (by norm_num)
    exact Nat.lt_of_mul_lt_mul_right (Nat.lt_of_lt_of_le hsmall hlong)
  rcases eq_or_ne ipv6Cidrs [] with rfl | hne6
  · refine ⟨rfl, m, hlt, ?_⟩
    intro ip
    have hnone : [ipv6Section []].filter Section.isWritten = [] := rfl
    rw [hnone, List.length_nil, loadSections] at hrest
    have hacc := Except.ok.inj hrest
    subst hacc
    exact matchesIp_loaded hfinish rfl rfl
      (fun c hc => hprefix4 c (List.mem_of_mem_take hc)) (by simp) ip
  · rw [List.filter_cons_of_pos (ipv6Section_isWritten.mpr hne6)] at hrest
    obtain ⟨rest, hnext⟩ := drop_cut encodeIpv4_length hones hdata hlt
    exact absurd hrest (loadSections_unknown hnext)

/-- The pass over the IPv4 section, or over none, of a list that fits. -/
theorem loadSections_ipv4 {data back : Bytes} {remaining : Nat} {acc : Loading F}
    (hfits : ipv4Cidrs.length * 5 < 2 ^ 32) (hprefix4 : ∀ c ∈ ipv4Cidrs, c.2.toNat ≤ 32)
    (hdata : data.drop 54 =
      ([ipv4Section ipv4Cidrs].filter Section.isWritten).flatMap Section.encode ++ back)
    (hlength : 54 ≤ data.length)
    (h : loadSections F data
      (([ipv4Section ipv4Cidrs].filter Section.isWritten).length + remaining) 54 {} = .ok acc) :
    ∃ offset count, offset ≤ 2 ^ 63 ∧ data.drop offset = back ∧ offset ≤ data.length ∧
      loadSections F data remaining offset
        { ipv4Ranges := ipv4Cidrs.map (rangeOf 32), ipv4CidrCount := count } = .ok acc := by
  rcases eq_or_ne ipv4Cidrs [] with rfl | hne
  · have hnone : [ipv4Section []].filter Section.isWritten = [] := rfl
    rw [hnone] at hdata h
    rw [List.length_nil, Nat.zero_add] at h
    exact ⟨54, 0, by norm_num, hdata, hlength, h⟩
  · have hone : [ipv4Section ipv4Cidrs].filter Section.isWritten = [ipv4Section ipv4Cidrs] := by
      rw [List.filter_cons_of_pos (ipv4Section_isWritten.mpr hne), List.filter_nil]
    rw [hone] at hdata h
    rw [List.flatMap_singleton] at hdata
    rw [List.length_singleton, Nat.add_comm] at h
    obtain ⟨m, hm, hr, hrest⟩ := loadSections_cut (F := F) ipv4Cidrs
      (fun acc xs n => { acc with ipv4Ranges := xs, ipv4CidrCount := n }) (fun n bytes => rfl)
      (by omega) encodeIpv4_length (fun bytes c hc => readIpv4Cidr_reads bytes c (hprefix4 c hc))
      hdata hlength (by omega) h
    rw [Nat.mod_eq_of_lt hfits] at hr
    obtain rfl : ipv4Cidrs.length = m := Nat.eq_of_mul_eq_mul_right (by norm_num) hr
    rw [List.take_length] at hrest
    have hbytes := flatMap_length_of_const encodeIpv4_length ipv4Cidrs
    have hencoded : (Section.encode (ipv4Section ipv4Cidrs)).length =
        9 + ipv4Cidrs.length * 5 := by
      rw [Section.encode, List.length_append, writeSectionHeader_length]
      exact congrArg (9 + ·) hbytes
    have hall := congrArg List.length hdata
    rw [List.length_drop, List.length_append, hencoded] at hall
    refine ⟨_, _, ?_, ?_, ?_, hrest⟩
    · omega
    · rw [Nat.add_assoc, ← List.drop_drop, hdata]
      exact List.drop_left' hencoded
    · omega

/-- An IPv6 list that does not fit, behind an IPv4 list that does: only a part of
it is loaded. -/
theorem ipv6_cut {now : BitVec 64} {sourceHash : Vector UInt8 32} {file : Bytes}
    {stats : BuildStats} {drs : DrsFile F R} (hfits : ipv4Cidrs.length * 5 < 2 ^ 32)
    (hlong : 2 ^ 32 ≤ ipv6Cidrs.length * 17) (hprefix4 : ∀ c ∈ ipv4Cidrs, c.2.toNat ≤ 32)
    (hprefix6 : ∀ c ∈ ipv6Cidrs, c.2.toNat ≤ 128)
    (h : writeV2 F now (cidrBuckets ipv4Cidrs ipv6Cidrs) sourceHash = .ok (file, stats))
    (hdrs : fromBytes F R file = .ok drs) :
    ∃ m < ipv6Cidrs.length, ∀ ip, ∃ result,
      drs.matchesIp ip = .ok result ∧ Exact ipv4Cidrs (ipv6Cidrs.take m) ip result := by
  obtain ⟨stats', hwritten⟩ := writeV2_cidrs (F := F) now ipv4Cidrs ipv6Cidrs sourceHash
  rw [hwritten] at h
  cases h
  have hne : ipv6Cidrs ≠ [] := by
    rintro rfl
    simp at hlong
  have hsplit : [ipv4Section ipv4Cidrs, ipv6Section ipv6Cidrs].filter Section.isWritten =
      [ipv4Section ipv4Cidrs].filter Section.isWritten ++ [ipv6Section ipv6Cidrs] := by
    rw [← List.singleton_append, List.filter_append,
      List.filter_cons_of_pos (ipv6Section_isWritten.mpr hne), List.filter_nil]
  rw [hsplit] at hdrs
  have hfew : ([ipv4Section ipv4Cidrs].filter Section.isWritten ++
      [ipv6Section ipv6Cidrs]).length < 2 ^ 32 := by
    have hle := List.length_filter_le Section.isWritten [ipv4Section ipv4Cidrs]
    simp only [List.length_append, List.length_cons, List.length_nil] at hle ⊢
    omega
  obtain ⟨data, acc, hdata, hlength, hload, hfinish⟩ := fromBytes_sections hfew hdrs
  rw [List.flatMap_append, List.flatMap_singleton] at hdata
  rw [List.length_append, List.length_singleton] at hload
  obtain ⟨offset, count, hsmall, hback, hoffset, hload⟩ :=
    loadSections_ipv4 hfits hprefix4 hdata hlength hload
  rw [← List.append_nil (Section.encode _)] at hback
  obtain ⟨m, hm, hr, hrest⟩ := loadSections_cut (F := F) ipv6Cidrs
    (fun acc xs n => { acc with ipv6Ranges := xs, ipv6CidrCount := n }) (fun n bytes => rfl)
    (by omega) encodeIpv6_length (fun bytes c hc => readIpv6Cidr_reads bytes c (hprefix6 c hc))
    hback hoffset hsmall hload
  have hlt : m < ipv6Cidrs.length := by
    have hsmall : m * 17 < 2 ^ 32 := by
      rw [← hr]
      exact Nat.mod_lt _ (by norm_num)
    exact Nat.lt_of_mul_lt_mul_right (Nat.lt_of_lt_of_le hsmall hlong)
  refine ⟨m, hlt, ?_⟩
  intro ip
  rw [loadSections] at hrest
  have hacc := Except.ok.inj hrest
  subst hacc
  exact matchesIp_loaded hfinish rfl rfl hprefix4
    (fun c hc => hprefix6 c (List.mem_of_mem_take hc)) ip

end

/-! ### Exactness, by the lengths of the lists -/

/-- The file written from the lists loads and answers every address exactly. -/
def CidrsExact (F : FstCrate) (R : RegexCrate) (ipv4Cidrs : List (BitVec 32 × UInt8))
    (ipv6Cidrs : List (BitVec 128 × UInt8)) : Prop :=
  ∀ now sourceHash file stats,
    writeV2 F now (cidrBuckets ipv4Cidrs ipv6Cidrs) sourceHash = .ok (file, stats) →
      ∃ drs, fromBytes F R file = .ok drs ∧ ∀ ip, ∃ result,
        drs.matchesIp ip = .ok result ∧ Exact ipv4Cidrs ipv6Cidrs ip result

theorem cidrsExact_of_fits (hF : F.Lawful) {ipv4Cidrs : List (BitVec 32 × UInt8)}
    {ipv6Cidrs : List (BitVec 128 × UInt8)} (hprefix4 : ∀ c ∈ ipv4Cidrs, c.2.toNat ≤ 32)
    (hprefix6 : ∀ c ∈ ipv6Cidrs, c.2.toNat ≤ 128) (hfits4 : ipv4Cidrs.length * 5 < 2 ^ 32)
    (hfits6 : ipv6Cidrs.length * 17 < 2 ^ 32) : CidrsExact F R ipv4Cidrs ipv6Cidrs := by
  intro now sourceHash file stats h
  have hsize : ∀ sections, buildSections F (cidrBuckets ipv4Cidrs ipv6Cidrs) = .ok sections →
      ∀ s ∈ sections, s.bytes.length < 2 ^ 32 := by
    intro sections hsections
    have hlisted : buildSections F (cidrBuckets ipv4Cidrs ipv6Cidrs) =
        .ok (listedSections (cidrBuckets ipv4Cidrs ipv6Cidrs) ([], 0) ([], 0) ([], 0) ([], 0)) :=
      rfl
    rw [hlisted] at hsections
    have hsame := Except.ok.inj hsections
    subst hsame
    have hbytes4 := flatMap_length_of_const encodeIpv4_length ipv4Cidrs
    have hbytes6 := flatMap_length_of_const encodeIpv6_length ipv6Cidrs
    simp only [listedSections, cidrBuckets, buildStringSection, buildIpv4Section,
      buildIpv6Section, buildPortSection, buildFixedSection, List.mem_cons, List.not_mem_nil,
      or_false]
    rintro s (rfl | rfl | rfl | rfl | rfl | rfl | rfl | rfl | rfl | rfl)
    all_goals first
      | exact Nat.two_pow_pos 32
      | exact hbytes4 ▸ hfits4
      | exact hbytes6 ▸ hfits6
  have hencodable := EntryBuckets.kept_encodable (F := F) (b := cidrBuckets ipv4Cidrs ipv6Cidrs)
    hprefix4 hprefix6 hsize
  obtain ⟨sets, _, hload⟩ := fromBytes_written (R := R) hF hencodable (writeV2_kept (F := F) .. ▸ h)
  obtain ⟨drs, hdrs⟩ : ∃ drs, fromBytes F R file = .ok drs := ⟨_, hload⟩
  exact ⟨drs, hdrs, matchesIp_written hF (b := cidrBuckets ipv4Cidrs ipv6Cidrs) hprefix4 hprefix6
    hsize h hdrs⟩

/-- `n` CIDRs of which only the last is another one. -/
def allButLast {α : Type} (n : Nat) (usual last : α) : List α :=
  List.replicate (n - 1) usual ++ [last]

theorem length_allButLast {α : Type} {n : Nat} (hn : 0 < n) (usual last : α) :
    (allButLast n usual last).length = n := by
  simp [allButLast]
  omega

theorem mem_take_allButLast {α : Type} {n m : Nat} {usual last x : α} (hm : m < n)
    (hx : x ∈ (allButLast n usual last).take m) : x = usual := by
  rw [allButLast, List.take_append_of_le_length (by simp; omega)] at hx
  exact List.eq_of_mem_replicate (List.mem_of_mem_take hx)

theorem forall_mem_allButLast {α : Type} {n : Nat} {usual last : α} {P : α → Prop}
    (husual : P usual) (hlast : P last) : ∀ x ∈ allButLast n usual last, P x := by
  intro x hx
  rcases List.mem_append.mp hx with hfront | hback
  · rw [List.eq_of_mem_replicate hfront]
    exact husual
  · rw [List.mem_singleton.mp hback]
    exact hlast

private theorem not_exact_long_ipv4 {n4 n6 : Nat} (hlong : 2 ^ 32 ≤ n4 * 5) :
    ¬ CidrsExact F R (allButLast n4 (BitVec.allOnes 32, 32) (0xff, 32))
      (List.replicate n6 (0, 128)) := by
  intro hexact
  obtain ⟨stats, hwrite⟩ := writeV2_cidrs (F := F) 0
    (allButLast n4 (BitVec.allOnes 32, 32) (0xff, 32)) (List.replicate n6 (0, 128))
    (Vector.replicate 32 0)
  obtain ⟨drs, hdrs, hall⟩ := hexact _ _ _ _ hwrite
  have hn : 0 < n4 := by omega
  have hlength := length_allButLast hn (BitVec.allOnes 32, (32 : UInt8)) (0xff, 32)
  obtain ⟨hnone, m, hm, hpart⟩ := ipv4_cut (by rw [hlength]; exact hlong)
    (forall_mem_allButLast (by decide) (by decide))
    (forall_mem_allButLast ⟨_, rfl⟩ ⟨_, rfl⟩) hwrite hdrs
  obtain ⟨result, hresult, hwhole⟩ := hall (.inl 0xff)
  obtain ⟨result', hresult', hcut⟩ := hpart (.inl 0xff)
  rw [hresult] at hresult'
  have hsame := Except.ok.inj hresult'
  subst hsame
  obtain ⟨addr, hip, cidr, hcidr, hin⟩ := hcut.ipv4.mp
    (hwhole.ipv4.mpr ⟨0xff, .plain _, (0xff, 32), by simp [allButLast], rfl⟩)
  rw [mem_take_allButLast (hlength ▸ hm) hcidr] at hin
  cases hip
  exact absurd hin (by decide)

private theorem not_exact_long_ipv6 {n4 n6 : Nat} (hfits : n4 * 5 < 2 ^ 32)
    (hlong : 2 ^ 32 ≤ n6 * 17) :
    ¬ CidrsExact F R (List.replicate n4 (0, 32))
      (allButLast n6 (BitVec.allOnes 128, 128) (0, 128)) := by
  intro hexact
  obtain ⟨stats, hwrite⟩ := writeV2_cidrs (F := F) 0 (List.replicate n4 (0, 32))
    (allButLast n6 (BitVec.allOnes 128, 128) (0, 128)) (Vector.replicate 32 0)
  obtain ⟨drs, hdrs, hall⟩ := hexact _ _ _ _ hwrite
  have hn : 0 < n6 := by omega
  have hlength := length_allButLast hn (BitVec.allOnes 128, (128 : UInt8)) (0, 128)
  obtain ⟨m, hm, hpart⟩ := ipv6_cut (by rw [List.length_replicate]; exact hfits)
    (by rw [hlength]; exact hlong)
    (fun c hc => by rw [List.eq_of_mem_replicate hc]; decide)
    (forall_mem_allButLast (by decide) (by decide)) hwrite hdrs
  obtain ⟨result, hresult, hwhole⟩ := hall (.inr 0)
  obtain ⟨result', hresult', hcut⟩ := hpart (.inr 0)
  rw [hresult] at hresult'
  have hsame := Except.ok.inj hresult'
  subst hsame
  obtain ⟨addr, hip, _, cidr, hcidr, hin⟩ := hcut.ipv6.mp
    (hwhole.ipv6.mpr ⟨0, rfl, rfl, (0, 128), by simp [allButLast], rfl⟩)
  rw [mem_take_allButLast (hlength ▸ hm) hcidr] at hin
  cases hip
  exact absurd hin (by decide)

/-- A loaded file is exact whatever else its buckets held, as long as every section
fits its header; and the lists of CIDRs of given lengths are all exact exactly when
their two sections fit. -/
theorem cidrs_exact_iff (hF : F.Lawful) :
    (∀ (b : EntryBuckets) (now : BitVec 64) (sourceHash : Vector UInt8 32) (file : Bytes)
        (stats : BuildStats) (drs : DrsFile F R),
      (∀ c ∈ b.ipv4Cidrs, c.2.toNat ≤ 32) → (∀ c ∈ b.ipv6Cidrs, c.2.toNat ≤ 128) →
      (∀ sections, buildSections F b = .ok sections → ∀ s ∈ sections,
        s.bytes.length < 2 ^ 32) →
      writeV2 F now b sourceHash = .ok (file, stats) → fromBytes F R file = .ok drs →
      ∀ ip, ∃ result, drs.matchesIp ip = .ok result ∧
        Exact b.ipv4Cidrs b.ipv6Cidrs ip result) ∧
    ∀ n4 n6, (∀ ipv4Cidrs ipv6Cidrs, ipv4Cidrs.length = n4 → ipv6Cidrs.length = n6 →
        (∀ c ∈ ipv4Cidrs, c.2.toNat ≤ 32) → (∀ c ∈ ipv6Cidrs, c.2.toNat ≤ 128) →
        CidrsExact F R ipv4Cidrs ipv6Cidrs) ↔
      n4 * 5 < 2 ^ 32 ∧ n6 * 17 < 2 ^ 32 := by
  refine ⟨?_, ?_⟩
  · intro b now sourceHash file stats drs hprefix4 hprefix6 hsize h hdrs
    exact matchesIp_written hF hprefix4 hprefix6 hsize h hdrs
  · intro n4 n6
    constructor
    · intro hall
      have hfits4 : n4 * 5 < 2 ^ 32 := by
        by_contra hlong
        have hlength := length_allButLast (show 0 < n4 by omega) (BitVec.allOnes 32, (32 : UInt8))
          (0xff, 32)
        exact not_exact_long_ipv4 (Nat.not_lt.mp hlong) (hall _ _ hlength
          (List.length_replicate (n := n6)) (forall_mem_allButLast (by decide) (by decide))
          (fun c hc => by rw [List.eq_of_mem_replicate hc]; decide))
      refine ⟨hfits4, ?_⟩
      by_contra hlong
      have hlength := length_allButLast (show 0 < n6 by omega) (BitVec.allOnes 128, (128 : UInt8))
        (0, 128)
      exact not_exact_long_ipv6 hfits4 (Nat.not_lt.mp hlong) (hall _ _
        (List.length_replicate (n := n4)) hlength
        (fun c hc => by rw [List.eq_of_mem_replicate hc]; decide)
        (forall_mem_allButLast (by decide) (by decide)))
    · rintro ⟨hfits4, hfits6⟩ ipv4Cidrs ipv6Cidrs rfl rfl hprefix4 hprefix6
      exact cidrsExact_of_fits hF hprefix4 hprefix6 hfits4 hfits6

/-- Ranges within one another and beside one another, of both families. -/
theorem cidrs_exact_nested :
    CidrsExact listFst literalRegex [(0x0a000000, 8), (0x0a010000, 16), (0x0b000000, 8)]
      [(0xfd000000000000000000000000000000, 8), (0xfd000000000000000000000000000001, 128)] :=
  ((cidrs_exact_iff listFst_lawful).2 3 2).mpr ⟨by decide, by decide⟩ _ _ rfl rfl (by simp)
    (by simp)

/-- A section whose length wraps to zero: the file loads without its CIDRs. -/
private theorem loads_without_cidrs {ipv4Cidrs : List (BitVec 32 × UInt8)} (hne : ipv4Cidrs ≠ [])
    (hzero : ipv4Cidrs.length * 5 % 2 ^ 32 = 0) :
    ∃ file stats drs, writeV2 F 0 (cidrBuckets ipv4Cidrs []) (Vector.replicate 32 0) =
        .ok (file, stats) ∧ fromBytes F R file = .ok drs ∧ drs.hasIpMatchers = false := by
  obtain ⟨stats, hwrite⟩ :=
    writeV2_cidrs (F := F) 0 ipv4Cidrs [] (Vector.replicate 32 0)
  have hone : [ipv4Section ipv4Cidrs, ipv6Section []].filter Section.isWritten =
      [ipv4Section ipv4Cidrs] := by
    rw [List.filter_cons_of_pos (ipv4Section_isWritten.mpr hne)]
    rfl
  rw [hone, List.flatMap_singleton] at hwrite
  have hheader := encodeHeader_length 0 (Vector.replicate 32 0)
    (BitVec.ofNat 32 [ipv4Section ipv4Cidrs].length)
  have hlen := flatMap_length_of_const encodeIpv4_length ipv4Cidrs
  have hwrap : BitVec.ofNat 32 (ipv4Section ipv4Cidrs).bytes.length = 0 := by
    apply BitVec.eq_of_toNat_eq
    rw [BitVec.toNat_ofNat]
    exact (congrArg (· % 2 ^ 32) hlen).trans hzero
  have hload := fromBytes_encodeHeader (F := F) (R := R) 0 (Vector.replicate 32 0)
    (BitVec.ofNat 32 [ipv4Section ipv4Cidrs].length) (ipv4Section ipv4Cidrs).encode
  have hdata : (encodeHeader 0 (Vector.replicate 32 0)
      (BitVec.ofNat 32 [ipv4Section ipv4Cidrs].length) ++ (ipv4Section ipv4Cidrs).encode).drop 54 =
      writeSectionHeader .ipCidrV4 (ipv4Section ipv4Cidrs).count 0 ++
        (ipv4Section ipv4Cidrs).bytes := by
    rw [List.drop_left' hheader, Section.encode, hwrap]
    rfl
  have hsection := loadSections_header (F := F) hdata
    (by rw [List.length_append, hheader]; omega) (by decide) (by simp) 0 {}
  have hok : ∃ drs, fromBytes F R (encodeHeader 0 (Vector.replicate 32 0)
      (BitVec.ofNat 32 [ipv4Section ipv4Cidrs].length) ++ (ipv4Section ipv4Cidrs).encode) =
        .ok drs ∧ drs.hasIpMatchers = false := by
    have hcount : (BitVec.ofNat 32 [ipv4Section ipv4Cidrs].length).toNat = 0 + 1 := rfl
    rw [hload, hcount, V2_HEADER_LEN, hsection]
    exact ⟨_, rfl, rfl⟩
  obtain ⟨drs, hdrs, hnone⟩ := hok
  exact ⟨_, stats, drs, hwrite, hdrs, hnone⟩

/-- `2 ^ 32` CIDRs are written as a section of no bytes, and the address they
contain is not matched. -/
theorem cidrs_lost_when_length_wraps :
    ¬ ∀ (F : FstCrate) (R : RegexCrate) (ipv4Cidrs : List (BitVec 32 × UInt8))
        (ipv6Cidrs : List (BitVec 128 × UInt8)) (now : BitVec 64) (sourceHash : Vector UInt8 32)
        (file : Bytes) (stats : BuildStats) (drs : DrsFile F R),
      F.Lawful → (∀ c ∈ ipv4Cidrs, c.2.toNat ≤ 32) → (∀ c ∈ ipv6Cidrs, c.2.toNat ≤ 128) →
      writeV2 F now (cidrBuckets ipv4Cidrs ipv6Cidrs) sourceHash = .ok (file, stats) →
      fromBytes F R file = .ok drs →
      ∀ ip, ∃ result, drs.matchesIp ip = .ok result ∧ Exact ipv4Cidrs ipv6Cidrs ip result := by
  intro hclaim
  have hlength : (List.replicate (2 ^ 32) ((0, 32) : BitVec 32 × UInt8)).length = 2 ^ 32 :=
    List.length_replicate
  obtain ⟨file, stats, drs, hwrite, hload, hnone⟩ := loads_without_cidrs (F := listFst)
    (R := literalRegex) (List.ne_nil_of_length_pos (by rw [hlength]; exact Nat.two_pow_pos 32))
    (by rw [hlength, Nat.mul_comm]; exact Nat.mul_mod_left 5 (2 ^ 32))
  obtain ⟨result, hresult, hexact⟩ := hclaim listFst literalRegex _ _ _ _ file stats drs
    listFst_lawful (fun c hc => by rw [List.eq_of_mem_replicate hc]; decide) (by simp) hwrite
    hload (.inl 0)
  have hmiss : drs.matchesIp (.inl 0) = .ok none := by
    rw [DrsFile.matchesIp, hnone]
    rfl
  rw [hmiss] at hresult
  cases hresult
  have hmatch := hexact.ipv4.mpr ⟨0, .plain 0, (0, 32),
    List.mem_replicate.mpr ⟨(Nat.two_pow_pos 32).ne', rfl⟩, rfl⟩
  cases hmatch

end Relay.Ruleset
