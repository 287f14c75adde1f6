import Mathlib.Data.List.Destutter
import Relay.Ruleset.Crates
import Relay.Ruleset.SuffixMatch

/-!
What a written ruleset says about a domain. Each of the ten section kinds is
read back as the entries it was built from; the loader's pass over the file is
a fold of these; and the matcher of the loaded file follows the precedence
rules over the entries.
-/

namespace Relay.Ruleset

open Binary Text

/-! ### Sorted key sets -/

private theorem mergeSort_sorted (keys : List Bytes) :
    (keys.mergeSort (fun a b => decide (a ≤ b))).Pairwise (· ≤ ·) := by
  have htrans : ∀ a b c : Bytes, decide (a ≤ b) → decide (b ≤ c) → decide (a ≤ c) := by
    intro a b c hab hbc
    simp only [decide_eq_true_eq] at hab hbc ⊢
    exact List.le_trans hab hbc
  have htotal : ∀ a b : Bytes, decide (a ≤ b) || decide (b ≤ a) := by
    intro a b
    simpa using List.le_total a b
  exact (List.pairwise_mergeSort htrans htotal keys).imp (fun hab => by simpa using hab)

/-- In a sorted list equal keys are neighbours, so dropping repeated
neighbours drops every repetition. -/
private theorem sortedKeys_eq_dedup (keys : List Bytes) :
    sortedKeys keys = (keys.mergeSort (fun a b => decide (a ≤ b))).dedup := by
  have hanti : Std.Antisymm (fun a b : Bytes => a ≤ b) :=
    ⟨fun _ _ hab hba => List.le_antisymm hab hba⟩
  exact (mergeSort_sorted keys).destutter_eq_dedup

theorem mem_sortedKeys {keys : List Bytes} {key : Bytes} :
    key ∈ sortedKeys keys ↔ key ∈ keys := by
  rw [sortedKeys_eq_dedup, List.mem_dedup]
  exact (List.mergeSort_perm keys _).mem_iff

theorem sortedKeys_length (keys : List Bytes) :
    (sortedKeys keys).length = keys.dedup.length := by
  rw [sortedKeys_eq_dedup]
  exact (List.mergeSort_perm keys _).dedup.length_eq

theorem sortedKeys_pairwise (keys : List Bytes) : (sortedKeys keys).Pairwise (· < ·) := by
  rw [sortedKeys_eq_dedup]
  have hle := (mergeSort_sorted keys).sublist (List.dedup_sublist _)
  have hne := List.nodup_dedup (keys.mergeSort (fun a b => decide (a ≤ b)))
  refine hle.imp₂ (fun a b hab hne => ?_) hne
  rcases List.le_iff_lt_or_eq.mp hab with hlt | heq
  · exact hlt
  · exact absurd heq hne

/-! ### Sections, one kind at a time -/

variable {F : FstCrate} {R : RegexCrate}

/-- What the loader does with a section: nothing when it was empty and so not
written. -/
def loadWritten (F : FstCrate) (acc : Loading F) (s : Section) : Run DrsError (Loading F) :=
  if s.isWritten then loadSection F s.ty s.count.toNat s.bytes acc else .ok acc

/-- A set section and what it loads as: no set when it has no bytes. The
count is the number of distinct keys as a `u32`. -/
structure StoresKeys (F : FstCrate) (keys : List Bytes) (bytes : Bytes) (count : BitVec 32)
    (stored : Option F.Set) : Prop where
  absent : bytes = [] → stored = none ∧ count = 0
  present : bytes ≠ [] → ∃ set, F.new bytes = .ok set ∧ stored = some set
  count_eq : count.toNat = keys.dedup.length % 2 ^ 32
  holds_iff : ∀ key, holds F stored key = true ↔ key ∈ keys

private theorem insertKey_foldlM {keys : List Bytes} {builder result : F.Builder}
    (h : keys.foldlM (insertKey F) builder = .ok result) :
    keys.foldlM F.insert builder = .ok result := by
  induction keys generalizing builder with
  | nil =>
      cases h
      rfl
  | cons key keys ih =>
      rw [List.foldlM_cons] at h ⊢
      cases hkey : validateDomainLen key with
      | error e => simp [insertKey, hkey, bind, Except.bind] at h
      | ok u =>
          cases hins : F.insert builder key with
          | error e => simp [insertKey, hkey, hins, Except.mapError, bind, Except.bind] at h
          | ok next =>
              simp only [insertKey, hkey, hins, Except.mapError, bind, Except.bind] at h ⊢
              exact ih h

/-- A built set section holds exactly its keys. -/
theorem buildSetFst_stores (hF : F.Lawful) {keys : List Bytes} {bytes : Bytes}
    {count : BitVec 32} (h : buildSetFst F keys = .ok (bytes, count)) :
    ∃ stored, StoresKeys F keys bytes count stored := by
  unfold buildSetFst at h
  cases hempty : keys.isEmpty with
  | true =>
      simp only [hempty, if_true, pure, Except.pure, Except.ok.injEq, Prod.mk.injEq] at h
      obtain ⟨rfl, rfl⟩ := h
      rw [List.isEmpty_iff] at hempty
      subst hempty
      refine ⟨none, fun _ => ⟨rfl, rfl⟩, fun hne => absurd rfl hne, by simp, ?_⟩
      intro key
      simp [holds]
  | false =>
      rw [hempty] at h
      simp only [Bool.false_eq_true, if_false, bind, Except.bind, pure, Except.pure] at h
      cases hbuild : (sortedKeys keys).foldlM (insertKey F) F.memory with
      | error e => simp [hbuild] at h
      | ok builder =>
          cases hinner : F.intoInner builder with
          | error e => simp [hbuild, hinner, Except.mapError] at h
          | ok inner =>
              simp only [hbuild, hinner, Except.mapError, Except.ok.injEq, Prod.mk.injEq] at h
              obtain ⟨rfl, rfl⟩ := h
              obtain ⟨hne, set, hset, hcontains⟩ := hF.stores (sortedKeys keys) builder inner
                (sortedKeys_pairwise keys) (insertKey_foldlM hbuild) hinner
              refine ⟨some set, fun h => absurd h hne, fun _ => ⟨set, hset, rfl⟩, ?_, ?_⟩
              · rw [BitVec.toNat_ofNat, sortedKeys_length]
              · intro key
                exact (hcontains key).trans mem_sortedKeys

private theorem loadSet_ok {bytes : Bytes} {set : F.Set} (h : F.new bytes = .ok set) :
    loadSet F bytes = .ok set := by
  simp [loadSet, h]

/-- A string record is read back as its string. -/
private theorem readString_reads (bytes : Bytes) (hsmall : bytes.length < 2 ^ 64) (s : String)
    (h : (octets s).length ≤ 255) :
    ReadsRecord bytes encodeString (fun acc s => acc ++ [s]) (readString bytes) s := by
  intro i acc back hdrop hi
  obtain ⟨hbyte, hslice, hend⟩ := prefixed_of_drop (ε := DrsError) hdrop hi h
  simp only [readString, hbyte, run_ok_bind, toNat_ofNat_length h]
  rw [checkedAdd_ok (by omega), run_ok_bind, if_neg (by omega), hslice]
  simp only [run_ok_bind, fromUtf8_octets, pure, Except.pure, Except.ok.injEq, Prod.mk.injEq,
    and_true, encodeString, prefixed_length]
  omega

theorem readStrings_encoded {items : List String} (h : ∀ s ∈ items, (octets s).length ≤ 255)
    (hsmall : (items.flatMap encodeString).length < 2 ^ 64) :
    readStrings (items.flatMap encodeString) [] = .ok items := by
  have hscan := scan_records encodeString (fun acc s => acc ++ [s]) [] rfl
    (fun s _ => by simp [encodeString, prefixed])
    (fun s hs => readString_reads (items.flatMap encodeString) hsmall s (h s hs))
  rw [foldl_push_eq_append (fun s => s)] at hscan
  simpa [readStrings] using hscan

theorem buildStringSection_eq {items : List String} (h : ∀ s ∈ items, (octets s).length ≤ 255) :
    buildStringSection items = (items.flatMap encodeString, BitVec.ofNat 32 items.length) := by
  have hkept : items.filter (fun s => decide ((octets s).length ≤ 255)) = items :=
    List.filter_eq_self.mpr (fun s hs => by simpa using h s hs)
  simp only [buildStringSection, hkept]

/-- A section without strings has no bytes, and one with strings has some. -/
private theorem flatMap_encode_eq_nil {α : Type} {encode : α → Bytes} {items : List α}
    (hpos : ∀ x ∈ items, 0 < (encode x).length) :
    items.flatMap encode = [] ↔ items = [] := by
  constructor
  · intro h
    cases items with
    | nil => rfl
    | cons x xs =>
        rw [List.flatMap_cons, List.append_eq_nil_iff] at h
        have := hpos x (by simp)
        simp [h.1] at this
  · rintro rfl
    rfl

theorem flatMap_length_of_const {α : Type} {encode : α → Bytes} {width : Nat}
    (hwidth : ∀ x, (encode x).length = width) (items : List α) :
    (items.flatMap encode).length = items.length * width := by
  induction items with
  | nil => simp
  | cons x xs ih =>
      rw [List.flatMap_cons, List.length_append, ih, hwidth, List.length_cons]
      ring

/-- A section of fixed-width records is read back record by record. -/
theorem readFixed_encoded {α β : Type} {width : Nat} {encode : α → Bytes} {value : α → β}
    {body : Nat → List β → Run DrsError (Nat × List β)} {items : List α}
    (hpos : 0 < width) (hwidth : ∀ x, (encode x).length = width)
    (hread : ∀ x ∈ items, ReadsRecord (items.flatMap encode) encode
      (fun acc x => acc ++ [value x]) body x) :
    readFixed width (items.flatMap encode) body [] = .ok (items.map value) := by
  have hscan := scan_records encode (fun acc x => acc ++ [value x]) ([] : List β) rfl
    (fun x _ => by rw [hwidth]; exact hpos) hread
  rw [foldl_push_eq_append, List.nil_append] at hscan
  unfold readFixed
  rw [flatMap_length_of_const hwidth, Nat.mul_mod_left]
  simpa using hscan

/-- The first and last address of a prefix within the width. -/
theorem cidrToRange_ok (w : Nat) (addr : BitVec w) (prefix_ : UInt8) (h : prefix_.toNat ≤ w) :
    ∃ range, cidrToRange w addr prefix_ = .ok range := by
  unfold cidrToRange
  by_cases hzero : prefix_ = 0
  · exact ⟨_, by rw [if_pos hzero]⟩
  · have hpos : 0 < prefix_.toNat := Nat.pos_of_ne_zero (fun h0 => hzero (UInt8.toNat_inj.mp h0))
    have hshift : w - prefix_.toNat < w := by omega
    have hone : 1#w ≤ 1#w <<< (w - prefix_.toNat) := by
      rw [BitVec.le_def, BitVec.toNat_shiftLeft, BitVec.toNat_ofNat,
        Nat.mod_eq_of_lt (Nat.one_lt_two_pow (by omega)), Nat.one_shiftLeft,
        Nat.mod_eq_of_lt (Nat.pow_lt_pow_right (by omega) hshift)]
      exact Nat.one_le_two_pow
    rw [if_neg hzero, checkedSub, if_pos h, run_ok_bind, checkedShl, if_pos hshift, run_ok_bind,
      checkedBitSub, if_pos hone]
    exact ⟨_, rfl⟩

/-- The range of a prefix, for the prefixes whose range is defined. -/
def rangeOf (w : Nat) (cidr : BitVec w × UInt8) : BitVec w × BitVec w :=
  match cidrToRange w cidr.1 cidr.2 with
  | .ok range => range
  | .error _ => (0, 0)

theorem cidrToRange_eq_rangeOf {w : Nat} {cidr : BitVec w × UInt8}
    (h : cidr.2.toNat ≤ w) : cidrToRange w cidr.1 cidr.2 = .ok (rangeOf w cidr) := by
  obtain ⟨range, hrange⟩ := cidrToRange_ok w cidr.1 cidr.2 h
  simp [rangeOf, hrange]

theorem readIpv4Cidr_reads (bytes : Bytes) (cidr : BitVec 32 × UInt8)
    (h : cidr.2.toNat ≤ 32) :
    ReadsRecord bytes encodeIpv4 (fun acc c => acc ++ [rangeOf 32 c]) (readIpv4Cidr bytes) cidr := by
  intro i acc back hdrop hi
  have haddr : readU32Le bytes i = .ok cidr.1 :=
    readU32Le_of_drop (by simpa [encodeIpv4] using hdrop) hi
  have hprefix : byteAt bytes (i + 4) = (.ok cidr.2 : Run DrsError UInt8) := by
    have hrest : bytes.drop (i + 4) = cidr.2 :: back := by
      rw [← List.drop_drop, hdrop, encodeIpv4, List.append_assoc, List.drop_left' (by simp)]
      rfl
    exact byteAt_of_drop hrest
  simp only [readIpv4Cidr, haddr, hprefix, run_ok_bind, ipv4CidrToRange,
    cidrToRange_eq_rangeOf h]
  simp [encodeIpv4, pure, Except.pure]

theorem readIpv6Cidr_reads (bytes : Bytes) (cidr : BitVec 128 × UInt8)
    (h : cidr.2.toNat ≤ 128) :
    ReadsRecord bytes encodeIpv6 (fun acc c => acc ++ [rangeOf 128 c]) (readIpv6Cidr bytes)
      cidr := by
  intro i acc back hdrop hi
  have haddr : slice bytes i (i + 16) = (.ok (toBe 16 cidr.1) : Run DrsError Bytes) := by
    have hrest : bytes.drop i = toBe 16 cidr.1 ++ (cidr.2 :: back) := by
      simpa [encodeIpv6] using hdrop
    simpa using slice_of_drop hrest hi
  have hprefix : byteAt bytes (i + 16) = (.ok cidr.2 : Run DrsError UInt8) := by
    have hrest : bytes.drop (i + 16) = cidr.2 :: back := by
      rw [← List.drop_drop, hdrop, encodeIpv6, List.append_assoc, List.drop_left' (by simp)]
      rfl
    exact byteAt_of_drop hrest
  have hvalue := ofNat_ofBe_toBe 128 16 (by norm_num) cidr.1
  simp only [readIpv6Cidr, haddr, hprefix, run_ok_bind, ipv6CidrToRange, hvalue,
    cidrToRange_eq_rangeOf h]
  simp [encodeIpv6, pure, Except.pure]

private theorem readPort_reads (bytes : Bytes) (port : BitVec 16 × BitVec 16) :
    ReadsRecord bytes encodePort (fun acc p => acc ++ [p]) (readPort bytes) port := by
  intro i acc back hdrop hi
  have hlen := congrArg List.length hdrop
  simp only [encodePort, List.length_drop, List.length_append, toLe_length] at hlen
  have hfirst : bytes.drop i = toLe 2 port.1 ++ (toLe 2 port.2 ++ back) := by
    simpa [encodePort] using hdrop
  have hsecond : bytes.drop (i + 2) = toLe 2 port.2 ++ back := by
    rw [← List.drop_drop, hfirst, List.drop_left' (by simp)]
  have hstart : slice bytes i (i + 2) = (.ok (toLe 2 port.1) : Run DrsError Bytes) := by
    simpa using slice_of_drop hfirst hi
  have hfinish : slice bytes (i + 2) (i + 2 + 2) = (.ok (toLe 2 port.2) : Run DrsError Bytes) := by
    simpa using slice_of_drop hsecond (by omega)
  have hvalue (x : BitVec 16) : BitVec.ofNat 16 (ofLe (toLe 2 x)) = x :=
    ofNat_ofLe_toLe _ _ (by norm_num) x
  simp only [readPort, hstart, run_ok_bind, hfinish, hvalue]
  simp [encodePort, pure, Except.pure]

/-! ### The loader's pass over a file -/

private theorem foldlM_cons_ok {σ α ε : Type} {f : σ → α → Except ε σ} {acc acc' : σ} {x : α}
    {xs : List α} {result : Except ε σ} (h : f acc x = .ok acc')
    (hrest : xs.foldlM f acc' = result) : (x :: xs).foldlM f acc = result := by
  rw [List.foldlM_cons, h]
  exact hrest

private theorem loadWritten_eq {acc acc' : Loading F} {s : Section}
    (habsent : s.bytes = [] → acc' = acc)
    (hload : s.bytes ≠ [] → loadSection F s.ty s.count.toNat s.bytes acc = .ok acc') :
    loadWritten F acc s = .ok acc' := by
  unfold loadWritten
  by_cases hempty : s.bytes = []
  · have hskip : s.isWritten = false := by simp [Section.isWritten, hempty]
    rw [hskip, habsent hempty]
    rfl
  · have hkeep : s.isWritten = true := by simpa [Section.isWritten] using hempty
    rw [hkeep, if_pos rfl]
    exact hload hempty

/-- A set section fills its two locals, which `put` writes. -/
private theorem loadWritten_set {acc : Loading F} {ty : SectionType} {keys : List Bytes}
    {built : Bytes × BitVec 32} {stored : Option F.Set}
    (put : Loading F → Option F.Set → Nat → Loading F)
    (hs : StoresKeys F keys built.1 built.2 stored) (hput : put acc none 0 = acc)
    (hload : ∀ n, loadSection F ty n built.1 acc =
      (loadSet F built.1 >>= fun set => .ok (put acc (some set) n))) :
    loadWritten F acc ⟨ty, built.2, built.1⟩ = .ok (put acc stored built.2.toNat) := by
  apply loadWritten_eq
  · intro hempty
    obtain ⟨hstored, hcount⟩ := hs.absent hempty
    rw [hstored, hcount]
    exact hput
  · intro hne
    obtain ⟨set, hset, rfl⟩ := hs.present hne
    rw [hload, loadSet_ok hset]
    rfl

/-- A section of records fills its two locals with the entries it encodes. -/
private theorem loadWritten_records {α β : Type} {acc : Loading F} {ty : SectionType}
    {encode : α → Bytes} {value : α → β} {items : List α} {read : Run DrsError (List β)}
    (put : Loading F → List β → Nat → Loading F) (hpos : ∀ x ∈ items, 0 < (encode x).length)
    (hread : read = .ok (items.map value)) (hput : put acc [] 0 = acc)
    (hload : ∀ n, loadSection F ty n (items.flatMap encode) acc =
      (read >>= fun xs => .ok (put acc xs n))) :
    loadWritten F acc
        ⟨ty, (buildFixedSection encode items).2, (buildFixedSection encode items).1⟩ =
      .ok (put acc (items.map value) (buildFixedSection encode items).2.toNat) := by
  apply loadWritten_eq
  · intro hempty
    have hnil : items = [] := (flatMap_encode_eq_nil hpos).mp hempty
    subst hnil
    exact hput
  · intro _
    change loadSection F ty _ (items.flatMap encode) acc = _
    rw [hload, hread]
    rfl

/-- A section of strings that all fit fills its two locals with them. -/
private theorem loadWritten_strings {acc : Loading F} {ty : SectionType} {items : List String}
    (put : Loading F → List String → Nat → Loading F)
    (hle : ∀ s ∈ items, (octets s).length ≤ 255)
    (hlt : (buildStringSection items).1.length < 2 ^ 32) (hput : put acc [] 0 = acc)
    (hload : ∀ n bytes, loadSection F ty n bytes acc =
      (readStrings bytes [] >>= fun xs => .ok (put acc xs n))) :
    loadWritten F acc ⟨ty, (buildStringSection items).2, (buildStringSection items).1⟩ =
      .ok (put acc items (buildStringSection items).2.toNat) := by
  rw [buildStringSection_eq hle] at hlt ⊢
  have hread : readStrings (items.flatMap encodeString) [] = .ok (items.map id) := by
    rw [List.map_id]
    exact readStrings_encoded hle (Nat.lt_trans hlt (by norm_num))
  have hpos : ∀ s ∈ items, 0 < (encodeString s).length := by
    simp [encodeString, prefixed]
  have hrecords := loadWritten_records put hpos hread hput fun n => hload n _
  rw [List.map_id] at hrecords
  exact hrecords

/-- A section is as many bytes behind its header as the header says. -/
theorem loadSections_header {data back : Bytes} {offset : Nat} {ty : SectionType}
    {count byteLen : BitVec 32} (hdata : data.drop offset = writeSectionHeader ty count byteLen ++ back)
    (hoffset : offset ≤ data.length) (hsmall : offset + 9 + byteLen.toNat < 2 ^ 64)
    (hbody : byteLen.toNat ≤ back.length) (remaining : Nat) (acc : Loading F) :
    loadSections F data (remaining + 1) offset acc =
      loadSection F ty count.toNat (back.take byteLen.toNat) acc >>=
        loadSections F data remaining (offset + 9 + byteLen.toNat) := by
  have hlen := congrArg List.length hdata
  simp only [List.length_drop, List.length_append, writeSectionHeader_length] at hlen
  have hback : data.drop (offset + 9) = back.take byteLen.toNat ++ back.drop byteLen.toNat := by
    rw [← List.drop_drop, hdata, List.drop_left' (by simp), List.take_append_drop]
  have hslice : slice data (offset + 9) (offset + 9 + byteLen.toNat) =
      (.ok (back.take byteLen.toNat) : Run DrsError Bytes) := by
    have htaken := slice_of_drop (ε := DrsError) hback (by omega)
    rwa [List.length_take, Nat.min_eq_left hbody] at htaken
  simp only [loadSections, readSectionHeader_of_drop hdata hoffset (by omega), run_ok_bind]
  rw [checkedAdd_ok hsmall, run_ok_bind, if_neg (by omega), hslice, run_ok_bind]

/-- The file's pass over its sections is a fold over the written ones. -/
theorem loadSections_encoded (data : Bytes) (sections : List Section) (offset : Nat)
    (acc : Loading F) (hoffset : offset ≤ data.length) (hsmall : data.length < 2 ^ 64)
    (hdata : data.drop offset = sections.flatMap Section.encode)
    (hsize : ∀ s ∈ sections, s.bytes.length < 2 ^ 32) :
    loadSections F data sections.length offset acc =
      sections.foldlM (fun acc s => loadSection F s.ty s.count.toNat s.bytes acc) acc := by
  induction sections generalizing offset acc with
  | nil => rfl
  | cons s sections ih =>
      have hlen := congrArg List.length hdata
      simp only [List.flatMap_cons, Section.encode, List.length_drop, List.length_append,
        writeSectionHeader_length] at hlen
      have hheader : data.drop offset =
          writeSectionHeader s.ty s.count (BitVec.ofNat 32 s.bytes.length) ++
            (s.bytes ++ sections.flatMap Section.encode) := by
        rw [hdata, List.flatMap_cons, Section.encode, List.append_assoc]
      have hlength : (BitVec.ofNat 32 s.bytes.length).toNat = s.bytes.length := by
        rw [BitVec.toNat_ofNat, Nat.mod_eq_of_lt (hsize s (by simp))]
      have hback : data.drop (offset + 9 + s.bytes.length) = sections.flatMap Section.encode := by
        rw [← List.drop_drop, ← List.drop_drop, hheader, List.drop_left' (by simp),
          List.drop_left]
      rw [List.length_cons, loadSections_header hheader hoffset (by omega) (by simp; omega),
        hlength, List.take_left, List.foldlM_cons]
      cases loadSection F s.ty s.count.toNat s.bytes acc with
      | error e => rfl
      | ok next =>
          exact ih (offset + 9 + s.bytes.length) next (by omega) hback
            (fun t ht => hsize t (by simp [ht]))

/-- The four sets of a loaded ruleset. -/
structure StoredSets (F : FstCrate) where
  domains : Option F.Set
  suffixes : Option F.Set
  excludeDomains : Option F.Set
  excludeSuffixes : Option F.Set

/-- What the loader has read after the last section of a written file. -/
def loaded (b : EntryBuckets) (stats : BuildStats) (sets : StoredSets F) : Loading F where
  domainFst := sets.domains
  suffixFst := sets.suffixes
  excludeDomainFst := sets.excludeDomains
  excludeSuffixFst := sets.excludeSuffixes
  keywords := b.keywords
  regexPatterns := b.regexes
  excludeRegexPatterns := b.excludeRegexes
  ipv4Ranges := b.ipv4Cidrs.map (rangeOf 32)
  ipv6Ranges := b.ipv6Cidrs.map (rangeOf 128)
  ports := b.ports
  domainCount := stats.domainCount.toNat
  suffixCount := stats.suffixCount.toNat
  keywordCount := stats.keywordCount.toNat
  regexCount := stats.regexCount.toNat
  ipv4CidrCount := stats.ipv4CidrCount.toNat
  ipv6CidrCount := stats.ipv6CidrCount.toNat
  portCount := stats.portCount.toNat
  excludeDomainCount := stats.excludeDomainCount.toNat
  excludeSuffixCount := stats.excludeSuffixCount.toNat
  excludeRegexCount := stats.excludeRegexCount.toNat

/-- The inputs the format can hold: a string record has one length byte, a
prefix does not exceed its address, and a section header has four bytes for
the length of its section. -/
structure EntryBuckets.Encodable (F : FstCrate) (b : EntryBuckets) : Prop where
  keyword_le : ∀ s ∈ b.keywords, (octets s).length ≤ 255
  regex_le : ∀ s ∈ b.regexes, (octets s).length ≤ 255
  excludeRegex_le : ∀ s ∈ b.excludeRegexes, (octets s).length ≤ 255
  ipv4_prefix : ∀ c ∈ b.ipv4Cidrs, c.2.toNat ≤ 32
  ipv6_prefix : ∀ c ∈ b.ipv6Cidrs, c.2.toNat ≤ 128
  section_lt : ∀ sections, buildSections F b = .ok sections →
    ∀ s ∈ sections, s.bytes.length < 2 ^ 32

/-- The sets hold exactly the entries they were built from. -/
structure HoldsEntries (F : FstCrate) (b : EntryBuckets) (stats : BuildStats)
    (sets : StoredSets F) : Prop where
  domains : ∃ bytes, StoresKeys F (b.domains.map octets) bytes stats.domainCount sets.domains
  suffixes : ∃ bytes,
    StoresKeys F (b.suffixes.map suffixToFstKey) bytes stats.suffixCount sets.suffixes
  excludeDomains : ∃ bytes, StoresKeys F (b.excludeDomains.map octets) bytes
    stats.excludeDomainCount sets.excludeDomains
  excludeSuffixes : ∃ bytes, StoresKeys F (b.excludeSuffixes.map suffixToFstKey) bytes
    stats.excludeSuffixCount sets.excludeSuffixes

/-- The ten sections, with what was made of the four sets of names. -/
def listedSections (b : EntryBuckets) (dom suf exDom exSuf : Bytes × BitVec 32) : List Section :=
  [⟨.domainFst, dom.2, dom.1⟩,
    ⟨.domainSuffixFst, suf.2, suf.1⟩,
    ⟨.domainKeyword, (buildStringSection b.keywords).2, (buildStringSection b.keywords).1⟩,
    ⟨.domainRegex, (buildStringSection b.regexes).2, (buildStringSection b.regexes).1⟩,
    ⟨.ipCidrV4, (buildIpv4Section b.ipv4Cidrs).2, (buildIpv4Section b.ipv4Cidrs).1⟩,
    ⟨.ipCidrV6, (buildIpv6Section b.ipv6Cidrs).2, (buildIpv6Section b.ipv6Cidrs).1⟩,
    ⟨.port, (buildPortSection b.ports).2, (buildPortSection b.ports).1⟩,
    ⟨.excludeDomainFst, exDom.2, exDom.1⟩,
    ⟨.excludeSuffixFst, exSuf.2, exSuf.1⟩,
    ⟨.excludeDomainRegex, (buildStringSection b.excludeRegexes).2,
      (buildStringSection b.excludeRegexes).1⟩]

/-- The four sets are all that can fail. -/
theorem buildSections_eq_ok {b : EntryBuckets} {sections : List Section} :
    buildSections F b = .ok sections ↔ ∃ dom suf exDom exSuf,
      buildSetFst F (b.domains.map octets) = .ok dom ∧
      buildSetFst F (b.suffixes.map suffixToFstKey) = .ok suf ∧
      buildSetFst F (b.excludeDomains.map octets) = .ok exDom ∧
      buildSetFst F (b.excludeSuffixes.map suffixToFstKey) = .ok exSuf ∧
      sections = listedSections b dom suf exDom exSuf := by
  unfold buildSections
  constructor
  · intro h
    obtain ⟨dom, hdom, h⟩ := run_bind_eq_ok.mp h
    obtain ⟨suf, hsuf, h⟩ := run_bind_eq_ok.mp h
    obtain ⟨exDom, hexDom, h⟩ := run_bind_eq_ok.mp h
    obtain ⟨exSuf, hexSuf, h⟩ := run_bind_eq_ok.mp h
    exact ⟨dom, suf, exDom, exSuf, hdom, hsuf, hexDom, hexSuf, (Except.ok.inj h).symm⟩
  · rintro ⟨dom, suf, exDom, exSuf, hdom, hsuf, hexDom, hexSuf, rfl⟩
    rw [hdom, hsuf, hexDom, hexSuf]
    rfl

/-- Loading the ten sections, the empty ones left out, fills every local with
the entries of its bucket. -/
theorem foldlM_listedSections {b : EntryBuckets} (hb : b.Encodable F)
    {dom suf exDom exSuf : Bytes × BitVec 32}
    (hsize : ∀ s ∈ listedSections b dom suf exDom exSuf, s.bytes.length < 2 ^ 32)
    {sets : StoredSets F} (hdom : StoresKeys F (b.domains.map octets) dom.1 dom.2 sets.domains)
    (hsuf : StoresKeys F (b.suffixes.map suffixToFstKey) suf.1 suf.2 sets.suffixes)
    (hexDom : StoresKeys F (b.excludeDomains.map octets) exDom.1 exDom.2 sets.excludeDomains)
    (hexSuf : StoresKeys F (b.excludeSuffixes.map suffixToFstKey) exSuf.1 exSuf.2
      sets.excludeSuffixes) :
    (listedSections b dom suf exDom exSuf).foldlM (loadWritten F) {} =
      .ok (loaded b (BuildStats.ofSections (listedSections b dom suf exDom exSuf)) sets) := by
  have hkeywords := hsize ⟨.domainKeyword, (buildStringSection b.keywords).2,
    (buildStringSection b.keywords).1⟩ (by simp [listedSections])
  have hregexes := hsize ⟨.domainRegex, (buildStringSection b.regexes).2,
    (buildStringSection b.regexes).1⟩ (by simp [listedSections])
  have hexcludes := hsize ⟨.excludeDomainRegex, (buildStringSection b.excludeRegexes).2,
    (buildStringSection b.excludeRegexes).1⟩ (by simp [listedSections])
  unfold listedSections
  -- one step for each section, in the order of the file
  refine foldlM_cons_ok (loadWritten_set
    (fun acc set n => { acc with domainFst := set, domainCount := n }) hdom rfl fun _ => rfl) ?_
  refine foldlM_cons_ok (loadWritten_set
    (fun acc set n => { acc with suffixFst := set, suffixCount := n }) hsuf rfl fun _ => rfl) ?_
  refine foldlM_cons_ok (loadWritten_strings
    (fun acc xs n => { acc with keywords := xs, keywordCount := n }) hb.keyword_le hkeywords rfl
    fun _ _ => rfl) ?_
  refine foldlM_cons_ok (loadWritten_strings
    (fun acc xs n => { acc with regexPatterns := xs, regexCount := n }) hb.regex_le hregexes rfl
    fun _ _ => rfl) ?_
  refine foldlM_cons_ok (loadWritten_records
    (fun acc xs n => { acc with ipv4Ranges := xs, ipv4CidrCount := n })
    (fun c _ => by simp [encodeIpv4])
    (readFixed_encoded (by omega) (fun c => by simp [encodeIpv4])
      fun c hc => readIpv4Cidr_reads _ c (hb.ipv4_prefix c hc)) rfl fun _ => rfl) ?_
  refine foldlM_cons_ok (loadWritten_records
    (fun acc xs n => { acc with ipv6Ranges := xs, ipv6CidrCount := n })
    (fun c _ => by simp [encodeIpv6])
    (readFixed_encoded (by omega) (fun c => by simp [encodeIpv6])
      fun c hc => readIpv6Cidr_reads _ c (hb.ipv6_prefix c hc)) rfl fun _ => rfl) ?_
  refine foldlM_cons_ok (loadWritten_records
    (fun acc xs n => { acc with ports := xs, portCount := n }) (fun p _ => by simp [encodePort])
    (readFixed_encoded (by omega) (fun p => by simp [encodePort])
      fun p _ => readPort_reads _ p) rfl fun _ => rfl) ?_
  refine foldlM_cons_ok (loadWritten_set
    (fun acc set n => { acc with excludeDomainFst := set, excludeDomainCount := n }) hexDom rfl
    fun _ => rfl) ?_
  refine foldlM_cons_ok (loadWritten_set
    (fun acc set n => { acc with excludeSuffixFst := set, excludeSuffixCount := n }) hexSuf rfl
    fun _ => rfl) ?_
  refine foldlM_cons_ok (loadWritten_strings
    (fun acc xs n => { acc with excludeRegexPatterns := xs, excludeRegexCount := n })
    hb.excludeRegex_le hexcludes rfl fun _ _ => rfl) ?_
  simp [loaded, BuildStats.ofSections, countOf, buildIpv4Section, buildIpv6Section,
    buildPortSection, pure, Except.pure]

/-- What was built is loaded again, bucket by bucket. -/
theorem fold_buildSections (hF : F.Lawful) {b : EntryBuckets} (hb : b.Encodable F)
    {sections : List Section} (h : buildSections F b = .ok sections) :
    ∃ sets, HoldsEntries F b (BuildStats.ofSections sections) sets ∧
      sections.foldlM (loadWritten F) {} =
        .ok (loaded b (BuildStats.ofSections sections) sets) := by
  have hsize := hb.section_lt sections h
  obtain ⟨dom, suf, exDom, exSuf, hdom, hsuf, hexDom, hexSuf, rfl⟩ := buildSections_eq_ok.mp h
  obtain ⟨domStored, hdomStores⟩ := buildSetFst_stores hF hdom
  obtain ⟨sufStored, hsufStores⟩ := buildSetFst_stores hF hsuf
  obtain ⟨exDomStored, hexDomStores⟩ := buildSetFst_stores hF hexDom
  obtain ⟨exSufStored, hexSufStores⟩ := buildSetFst_stores hF hexSuf
  exact ⟨⟨domStored, sufStored, exDomStored, exSufStored⟩, ⟨⟨_, hdomStores⟩, ⟨_, hsufStores⟩,
    ⟨_, hexDomStores⟩, ⟨_, hexSufStores⟩⟩,
    foldlM_listedSections hb hsize hdomStores hsufStores hexDomStores hexSufStores⟩

/-! ### The verdict -/

/-- `domain` is `suffix` or ends in a dot and `suffix`. -/
def isUnder (domain suffix : String) : Bool :=
  decide (domain = suffix ∨ octets ("." ++ suffix) <:+ octets domain)

/-- Some exclusion of the entries covers `domain`. -/
def EntryBuckets.excludes (R : RegexCrate) (b : EntryBuckets) (domain : String) : Bool :=
  b.excludeDomains.contains domain || b.excludeSuffixes.any (isUnder domain) ||
    b.excludeRegexes.any (fun p => R.isMatch p domain)

/-- What the entries say about `domain`: exclusions first, then exact
domains, suffixes, keywords and patterns. -/
def EntryBuckets.verdict (R : RegexCrate) (b : EntryBuckets) (domain : String) :
    Option MatchResult :=
  if b.excludes R domain then none
  else if b.domains.contains domain then some .domain
  else if b.suffixes.any (isUnder domain) then some .domainSuffix
  else if b.keywords.any (containsText domain) then some .domainKeyword
  else if b.regexes.any (fun p => R.isMatch p domain) then some .domainRegex
  else none

/-- Every pattern of the entries compiles on its own. -/
structure EntryBuckets.Compiles (R : RegexCrate) (b : EntryBuckets) : Prop where
  regex : ∀ p ∈ b.regexes, R.compiles p = .ok ()
  excludeRegex : ∀ p ∈ b.excludeRegexes, R.compiles p = .ok ()

/-- Both lists of patterns compile as sets. -/
structure EntryBuckets.SetsCompile (R : RegexCrate) (b : EntryBuckets) : Prop where
  regex : ∃ set, loadRegexes R b.regexes = .ok set
  excludeRegex : ∃ set, loadRegexes R b.excludeRegexes = .ok set

/-- The counts the match flags are taken from do not wrap to zero in `u32`. -/
structure EntryBuckets.CountsFit (b : EntryBuckets) : Prop where
  domains : 2 ^ 32 ∣ b.domains.dedup.length → b.domains = []
  suffixes : 2 ^ 32 ∣ b.suffixes.dedup.length → b.suffixes = []

theorem suffixToFstKey_injective : Function.Injective suffixToFstKey := by
  intro s t h
  rw [suffixToFstKey_eq, suffixToFstKey_eq] at h
  have hlabels : (labelsOf s).reverse = (labelsOf t).reverse := by
    apply terminated_injective ?_ ?_ h
    · intro label hlabel
      exact not_mem_of_mem_splitOn (List.mem_reverse.mp hlabel)
    · intro label hlabel
      exact not_mem_of_mem_splitOn (List.mem_reverse.mp hlabel)
  have hsplit : (octets s).splitOn dot = (octets t).splitOn dot := List.reverse_injective hlabels
  have hjoin := congrArg (List.intercalate [dot]) hsplit
  rw [List.intercalate_splitOn, List.intercalate_splitOn] at hjoin
  exact octets_injective hjoin

private theorem octets_dot_append (s : String) : octets ("." ++ s) = dot :: octets s := by
  simp [octets, String.toByteArray_append]
  rfl

private theorem holds_domains {domains : List String} {bytes : Bytes} {count : BitVec 32}
    {stored : Option F.Set} (h : StoresKeys F (domains.map octets) bytes count stored)
    (domain : String) : holds F stored (octets domain) = domains.contains domain := by
  rw [Bool.eq_iff_iff, h.holds_iff, List.contains_iff_mem, List.mem_map]
  constructor
  · rintro ⟨d, hd, heq⟩
    rwa [← octets_injective heq]
  · intro hd
    exact ⟨domain, hd, rfl⟩

private theorem holdsSuffix_suffixes {suffixes : List String} {bytes : Bytes}
    {count : BitVec 32} {stored : Option F.Set}
    (h : StoresKeys F (suffixes.map suffixToFstKey) bytes count stored) (domain : String) :
    holdsSuffix F stored domain =
      .ok ((if domain = "" then [] else suffixes).any (isUnder domain)) := by
  by_cases hd : domain = ""
  · subst hd
    cases stored <;> rfl
  rw [if_neg hd]
  cases stored with
  | none =>
      have hnone : suffixes = [] := by
        cases hs : suffixes with
        | nil => rfl
        | cons s rest =>
            have := (h.holds_iff (suffixToFstKey s)).mpr (by simp [hs])
            simp [holds] at this
      simp [holdsSuffix, hnone]
  | some set =>
      have hiff := suffixMatchHeap_iff (F.contains set) suffixes domain
        (fun key => h.holds_iff key)
      simp only [holdsSuffix, suffixMatchZeroAlloc_eq _ _ hd, Except.ok.injEq]
      rw [Bool.eq_iff_iff, hiff, List.any_eq_true]
      simp only [isUnder, decide_eq_true_eq, octets_dot_append, octets_inj]

theorem EntryBuckets.Compiles.sets (hR : R.Lawful) {b : EntryBuckets} (h : b.Compiles R) :
    b.SetsCompile R := by
  have hload : ∀ patterns, (∀ p ∈ patterns, R.compiles p = .ok ()) →
      ∃ set, loadRegexes R patterns = .ok set := by
    intro patterns hcompiles
    cases patterns with
    | nil => exact ⟨none, rfl⟩
    | cons p rest =>
        obtain ⟨set, hset⟩ := hR.newSet_ok (p :: rest) hcompiles
        exact ⟨some set, by simp [loadRegexes, hset]⟩
  exact ⟨hload _ h.regex, hload _ h.excludeRegex⟩

private theorem accepts_loadRegexes (hR : R.MatchesAny) {patterns : List String}
    {set : Option R.RegexSet} (h : loadRegexes R patterns = .ok set) (text : String) :
    accepts R set text = patterns.any (fun p => R.isMatch p text) := by
  unfold loadRegexes at h
  split at h
  · rename_i hnone
    cases h
    rw [List.isEmpty_iff.mp hnone]
    rfl
  · split at h
    · rename_i compiled hset
      cases h
      rw [Bool.eq_iff_iff, List.any_eq_true]
      exact hR.isMatchSet_iff patterns compiled hset text
    · cases h

/-- The entries that a lookup of `domain` consults: a number of distinct
entries that wraps to zero in `u32` switches its matcher off, and the suffix
matcher finds nothing for the empty domain. -/
def EntryBuckets.consulted (b : EntryBuckets) (domain : String) : EntryBuckets :=
  { b with
    domains := if 2 ^ 32 ∣ b.domains.dedup.length then [] else b.domains
    suffixes := if domain = "" ∨ 2 ^ 32 ∣ b.suffixes.dedup.length then [] else b.suffixes
    excludeSuffixes := if domain = "" then [] else b.excludeSuffixes }

theorem EntryBuckets.CountsFit.consulted_eq {b : EntryBuckets} (h : b.CountsFit) {domain : String}
    (hne : domain ≠ "") : b.consulted domain = b := by
  have hdomains : (if 2 ^ 32 ∣ b.domains.dedup.length then [] else b.domains) = b.domains := by
    split
    · rename_i hdvd
      exact (h.domains hdvd).symm
    · rfl
  have hsuffixes : (if domain = "" ∨ 2 ^ 32 ∣ b.suffixes.dedup.length then [] else b.suffixes) =
      b.suffixes := by
    split
    · rename_i hdvd
      exact (h.suffixes (hdvd.resolve_left hne)).symm
    · rfl
  unfold EntryBuckets.consulted
  rw [hdomains, hsuffixes, if_neg hne]

/-- A flag is off exactly when the count behind it wraps to zero. -/
private theorem flag_eq {keys : List Bytes} {bytes : Bytes} {count : BitVec 32}
    {stored : Option F.Set} (h : StoresKeys F keys bytes count stored) :
    decide (0 < count.toNat) = !decide (2 ^ 32 ∣ keys.dedup.length) := by
  have hcount := h.count_eq
  have hiff : 0 < count.toNat ↔ ¬ 2 ^ 32 ∣ keys.dedup.length := by omega
  rw [decide_eq_decide.mpr hiff, decide_not]

/-- The loaded entries answer as the entries themselves. -/
theorem finishLoading_loaded (hR : R.MatchesAny) {b : EntryBuckets} {stats : BuildStats}
    {sets : StoredSets F} (hc : b.SetsCompile R) (hs : HoldsEntries F b stats sets)
    (buildTime : BitVec 64) (sourceHash : Bytes) :
    ∃ drs, finishLoading F R buildTime sourceHash (loaded b stats sets) = .ok drs ∧
      ∀ domain,
        drs.matchesNormalized domain = .ok ((b.consulted domain).verdict R domain) := by
  obtain ⟨_, hdom⟩ := hs.domains
  obtain ⟨_, hsuf⟩ := hs.suffixes
  obtain ⟨_, hexDom⟩ := hs.excludeDomains
  obtain ⟨_, hexSuf⟩ := hs.excludeSuffixes
  obtain ⟨regexes, hregexes⟩ := hc.regex
  obtain ⟨excludeRegexes, hexRegexes⟩ := hc.excludeRegex
  have haccept := accepts_loadRegexes hR hregexes
  have hexAccept := accepts_loadRegexes hR hexRegexes
  have hdomFlag := flag_eq hdom
  rw [List.dedup_map_of_injective octets_injective, List.length_map] at hdomFlag
  have hsufFlag := flag_eq hsuf
  rw [List.dedup_map_of_injective suffixToFstKey_injective, List.length_map] at hsufFlag
  obtain ⟨drs, hdrs, hexDomFst, hexSufFst, hexRe, hdomHas, hdomFst, hsufHas, hsufFst, hkwHas, hkw,
      hreHas, hre⟩ : ∃ drs : DrsFile F R,
      finishLoading F R buildTime sourceHash (loaded b stats sets) = .ok drs ∧
      drs.excludeDomainFst = sets.excludeDomains ∧
      drs.excludeSuffixFst = sets.excludeSuffixes ∧
      drs.excludeRegexes = excludeRegexes ∧
      drs.hasDomainMatchers = decide (0 < stats.domainCount.toNat) ∧
      drs.domainFst = sets.domains ∧
      drs.hasSuffixMatchers = decide (0 < stats.suffixCount.toNat) ∧
      drs.suffixFst = sets.suffixes ∧
      drs.hasKeywordMatchers = !b.keywords.isEmpty ∧
      drs.keywords = b.keywords ∧
      drs.hasRegexMatchers = regexes.isSome ∧
      drs.regexes = regexes := by
    have hpatterns : (loaded b stats sets).regexPatterns = b.regexes := rfl
    have hexPatterns : (loaded b stats sets).excludeRegexPatterns = b.excludeRegexes := rfl
    simp only [finishLoading, hpatterns, hexPatterns, hregexes, hexRegexes, run_ok_bind]
    exact ⟨_, rfl, rfl, rfl, rfl, rfl, rfl, rfl, rfl, rfl, rfl, rfl, rfl⟩
  refine ⟨drs, hdrs, ?_⟩
  intro domain
  have hexcluded : drs.domainIsExcluded domain =
      .ok ((b.consulted domain).excludes R domain) := by
    have hsuffix := holdsSuffix_suffixes hexSuf domain
    simp only [DrsFile.domainIsExcluded, hexDomFst, hexSufFst, hexRe, holds_domains hexDom,
      hsuffix, hexAccept, run_ok_bind, EntryBuckets.excludes, EntryBuckets.consulted]
    cases b.excludeDomains.contains domain <;>
      cases (if domain = "" then [] else b.excludeSuffixes).any (isUnder domain) <;> rfl
  have hdomHit : (drs.hasDomainMatchers && holds F drs.domainFst (octets domain)) =
      (b.consulted domain).domains.contains domain := by
    rw [hdomHas, hdomFst, holds_domains hdom, hdomFlag, EntryBuckets.consulted]
    by_cases hdvd : 2 ^ 32 ∣ b.domains.dedup.length
    · rw [decide_eq_true hdvd, if_pos hdvd]
      rfl
    · rw [decide_eq_false hdvd, if_neg hdvd]
      rfl
  have hsufHit : (if drs.hasSuffixMatchers = true then holdsSuffix F drs.suffixFst domain
      else .ok false) =
        (.ok ((b.consulted domain).suffixes.any (isUnder domain)) : Run Empty Bool) := by
    rw [hsufHas, hsufFst, hsufFlag, holdsSuffix_suffixes hsuf]
    by_cases hdvd : 2 ^ 32 ∣ b.suffixes.dedup.length
    · rw [decide_eq_true hdvd, EntryBuckets.consulted, if_pos (Or.inr hdvd)]
      rfl
    · rw [decide_eq_false hdvd, EntryBuckets.consulted]
      simp only [hdvd, or_false]
      rfl
  have hkwHit : (drs.hasKeywordMatchers && drs.keywords.any (containsText domain)) =
      b.keywords.any (containsText domain) := by
    rw [hkwHas, hkw]
    cases b.keywords <;> rfl
  have hreHit : (drs.hasRegexMatchers && accepts R drs.regexes domain) =
      b.regexes.any (fun p => R.isMatch p domain) := by
    rw [hreHas, hre, ← haccept]
    cases regexes <;> rfl
  simp only [DrsFile.matchesNormalized]
  have hkeywords : (b.consulted domain).keywords = b.keywords := rfl
  have hregexes' : (b.consulted domain).regexes = b.regexes := rfl
  rw [hexcluded, run_ok_bind, hdomHit, hsufHit, run_ok_bind, hkwHit, hreHit,
    EntryBuckets.verdict, hkeywords, hregexes']
  cases (b.consulted domain).excludes R domain <;>
    cases (b.consulted domain).domains.contains domain <;>
    cases (b.consulted domain).suffixes.any (isUnder domain) <;>
    cases b.keywords.any (containsText domain) <;>
    cases b.regexes.any (fun p => R.isMatch p domain) <;> rfl

/-- A written header is accepted, and the rest of the file is its sections. -/
theorem fromBytes_encodeHeader (buildTime : BitVec 64) (sourceHash : Vector UInt8 32)
    (sectionCount : BitVec 32) (body : Bytes) :
    fromBytes F R (encodeHeader buildTime sourceHash sectionCount ++ body) =
      (loadSections F (encodeHeader buildTime sourceHash sectionCount ++ body)
        sectionCount.toNat V2_HEADER_LEN {} >>=
        finishLoading F R buildTime sourceHash.toList) := by
  obtain ⟨data, hdata⟩ : ∃ data, data = encodeHeader buildTime sourceHash sectionCount ++ body :=
    ⟨_, rfl⟩
  have hlen : data.length = 54 + body.length := by
    simp [hdata, encodeHeader, MAGIC]
    omega
  have hstart : data = MAGIC ++ ([VERSION_V2, 0] ++ (toLe 8 buildTime ++ (sourceHash.toList ++
      (toLe 4 sectionCount ++ ([0, 0, 0, 0] ++ body))))) := by
    simp [hdata, encodeHeader]
  have hversion : data.drop 4 = [VERSION_V2, 0] ++ (toLe 8 buildTime ++ (sourceHash.toList ++
      (toLe 4 sectionCount ++ ([0, 0, 0, 0] ++ body)))) := by
    rw [hstart]
    exact List.drop_left' rfl
  have htime : data.drop 6 = toLe 8 buildTime ++ (sourceHash.toList ++
      (toLe 4 sectionCount ++ ([0, 0, 0, 0] ++ body))) := by
    rw [show 6 = 4 + 2 from rfl, ← List.drop_drop, hversion]
    exact List.drop_left' rfl
  have hhash : data.drop 14 = sourceHash.toList ++
      (toLe 4 sectionCount ++ ([0, 0, 0, 0] ++ body)) := by
    rw [show 14 = 6 + 8 from rfl, ← List.drop_drop, htime]
    exact List.drop_left' (by simp)
  have hcount : data.drop 46 = toLe 4 sectionCount ++ ([0, 0, 0, 0] ++ body) := by
    rw [show 46 = 14 + 32 from rfl, ← List.drop_drop, hhash]
    exact List.drop_left' (by simp)
  have hmagicSlice : slice data 0 4 = (.ok MAGIC : Run DrsError Bytes) := by
    rw [← List.drop_zero (l := data)] at hstart
    exact slice_of_drop hstart (by omega)
  have hversionByte : byteAt data 4 = (.ok VERSION_V2 : Run DrsError UInt8) :=
    byteAt_of_drop hversion
  have htimeSlice : slice data 6 14 = (.ok (toLe 8 buildTime) : Run DrsError Bytes) := by
    simpa using slice_of_drop htime (by omega)
  have hhashSlice : slice data 14 46 = (.ok sourceHash.toList : Run DrsError Bytes) := by
    simpa using slice_of_drop hhash (by omega)
  have hcountRead : readU32Le data 46 = .ok sectionCount :=
    readU32Le_of_drop hcount (by omega)
  have htimeValue := ofNat_ofLe_toLe 64 8 (by norm_num) buildTime
  rw [← hdata]
  unfold fromBytes
  rw [if_neg (by simp only [V2_HEADER_LEN, V1_HEADER_LEN]; omega), hmagicSlice, run_ok_bind,
    if_neg (by simp), hversionByte, run_ok_bind, if_neg (by decide), if_pos rfl]
  unfold fromBytesV2
  simp only [htimeSlice, hhashSlice, hcountRead, run_ok_bind, htimeValue]

private theorem buildSections_length {b : EntryBuckets} {sections : List Section}
    (h : buildSections F b = .ok sections) : sections.length = 10 := by
  obtain ⟨_, _, _, _, _, _, _, _, rfl⟩ := buildSections_eq_ok.mp h
  rfl

private theorem flatMap_encode_length_le (sections : List Section)
    (hsize : ∀ s ∈ sections, s.bytes.length < 2 ^ 32) :
    (sections.flatMap Section.encode).length ≤ sections.length * (9 + 2 ^ 32) := by
  rw [List.length_flatMap]
  have hsum := List.sum_le_card_nsmul (sections.map (fun s => s.encode.length)) (9 + 2 ^ 32) ?_
  · simpa using hsum
  · intro n hn
    obtain ⟨s, hs, rfl⟩ := List.mem_map.mp hn
    have hbytes := hsize s hs
    simp only [Section.encode, List.length_append, writeSectionHeader_length]
    omega

/-- A written file is a header and the sections that are not empty, and the
loader's pass over it is the fold over all of them. -/
theorem loadSections_written {b : EntryBuckets}
    (hsize : ∀ sections, buildSections F b = .ok sections → ∀ s ∈ sections,
      s.bytes.length < 2 ^ 32)
    {now : BitVec 64} {sourceHash : Vector UInt8 32} {file : Bytes} {stats : BuildStats}
    (h : writeV2 F now b sourceHash = .ok (file, stats)) :
    ∃ sections count body, buildSections F b = .ok sections ∧
      stats = BuildStats.ofSections sections ∧ file = encodeHeader now sourceHash count ++ body ∧
      loadSections F file count.toNat V2_HEADER_LEN {} = sections.foldlM (loadWritten F) {} := by
  unfold writeV2 at h
  cases hsections : buildSections F b with
  | error e => simp [hsections, bind, Except.bind] at h
  | ok sections =>
      simp only [hsections, bind, Except.bind, pure, Except.pure, Except.ok.injEq,
        Prod.mk.injEq] at h
      obtain ⟨rfl, rfl⟩ := h
      refine ⟨sections, _, _, rfl, rfl, rfl, ?_⟩
      have hheader (n : BitVec 32) : (encodeHeader now sourceHash n).length = V2_HEADER_LEN := by
        simp [encodeHeader, MAGIC, V2_HEADER_LEN]
      have hten : (sections.filter Section.isWritten).length ≤ 10 := by
        rw [← buildSections_length hsections]
        exact List.length_filter_le Section.isWritten sections
      have hwritten : ∀ s ∈ sections.filter Section.isWritten, s.bytes.length < 2 ^ 32 :=
        fun s hs => hsize sections hsections s (List.mem_of_mem_filter hs)
      have hbody := flatMap_encode_length_le (sections.filter Section.isWritten) hwritten
      have hfile : ((encodeHeader now sourceHash
          (BitVec.ofNat 32 (sections.filter Section.isWritten).length)) ++
            (sections.filter Section.isWritten).flatMap Section.encode).length =
          54 + ((sections.filter Section.isWritten).flatMap Section.encode).length := by
        rw [List.length_append, hheader, V2_HEADER_LEN]
      rw [BitVec.toNat_ofNat, Nat.mod_eq_of_lt (by omega),
        loadSections_encoded _ _ V2_HEADER_LEN {} (by rw [hfile, V2_HEADER_LEN]; omega) (by omega)
          (List.drop_left' (hheader _)) hwritten, List.foldlM_filter]
      rfl

/-- Loading a written file comes down to its last step on the entries it was
written from. -/
theorem fromBytes_written (hF : F.Lawful) {b : EntryBuckets} (hb : b.Encodable F)
    {now : BitVec 64} {sourceHash : Vector UInt8 32} {file : Bytes} {stats : BuildStats}
    (h : writeV2 F now b sourceHash = .ok (file, stats)) :
    ∃ sets, HoldsEntries F b stats sets ∧
      fromBytes F R file = finishLoading F R now sourceHash.toList (loaded b stats sets) := by
  obtain ⟨sections, count, body, hsections, rfl, rfl, hload⟩ :=
    loadSections_written hb.section_lt h
  obtain ⟨sets, hholds, hfold⟩ := fold_buildSections hF hb hsections
  refine ⟨sets, hholds, ?_⟩
  rw [fromBytes_encodeHeader, hload, hfold, run_ok_bind]

/-- The round trip. A file that was written loads, and it answers every
domain as the entries it was written from, provided that each pattern compiles
and the two counts behind the match flags do not wrap. -/
theorem fromBytes_writeV2 (hF : F.Lawful) (hR : R.Lawful) {b : EntryBuckets}
    (hb : b.Encodable F) (hc : b.Compiles R) (hn : b.CountsFit) {now : BitVec 64}
    {sourceHash : Vector UInt8 32} {file : Bytes} {stats : BuildStats}
    (h : writeV2 F now b sourceHash = .ok (file, stats)) :
    ∃ drs, fromBytes F R file = .ok drs ∧
      ∀ domain, domain ≠ "" → drs.matchesNormalized domain = .ok (b.verdict R domain) := by
  obtain ⟨sets, hholds, hload⟩ := fromBytes_written (R := R) hF hb h
  obtain ⟨drs, hfinish, hverdict⟩ :=
    finishLoading_loaded hR.toMatchesAny (hc.sets hR) hholds now sourceHash.toList
  refine ⟨drs, hload.trans hfinish, ?_⟩
  intro domain hne
  rw [hverdict, hn.consulted_eq hne]

/-- One domain and one suffix with an exception below it. -/
def sampleBuckets : EntryBuckets where
  domains := ["a.com"]
  suffixes := ["b.org"]
  keywords := ["ads"]
  regexes := ["trk"]
  ipv4Cidrs := [(0x0a000001, 8)]
  excludeSuffixes := ["x.b.org"]

theorem fromBytes_writeV2_sample :
    ∃ file stats drs, writeV2 listFst 7 sampleBuckets (Vector.replicate 32 0) = .ok (file, stats) ∧
      fromBytes listFst literalRegex file = .ok drs ∧
      drs.matchesNormalized "y.x.b.org" = .ok none ∧
      drs.matchesNormalized "y.b.org" = .ok (some .domainSuffix) := by
  have hsort : ∀ k : Bytes, sortedKeys [k] = [k] := by
    intro k
    simp [sortedKeys]
  obtain ⟨sections, hsections, hsizes⟩ : ∃ sections,
      buildSections listFst sampleBuckets = .ok sections ∧
        ∀ s ∈ sections, s.bytes.length < 2 ^ 32 := by
    simp only [buildSections, buildSetFst, sampleBuckets, List.map_cons, List.map_nil, hsort]
    exact ⟨_, rfl, by decide⟩
  have hfile : ∃ file stats,
      writeV2 listFst 7 sampleBuckets (Vector.replicate 32 0) = .ok (file, stats) := by
    rw [writeV2, hsections]
    exact ⟨_, _, rfl⟩
  obtain ⟨file, stats, hfile⟩ := hfile
  have hencodable : sampleBuckets.Encodable listFst := by
    refine ⟨by decide, by decide, by decide, by simp [sampleBuckets], by simp [sampleBuckets], ?_⟩
    intro sections' hsections'
    rw [hsections] at hsections'
    cases hsections'
    exact hsizes
  have hcompiles : sampleBuckets.Compiles literalRegex := by
    refine ⟨fun p hp => ?_, fun p hp => ?_⟩
    · have hp' : p = "trk" := by simpa [sampleBuckets] using hp
      rw [hp']
      rfl
    · simp [sampleBuckets] at hp
  have hcounts : sampleBuckets.CountsFit := by
    refine ⟨fun h => ?_, fun h => ?_⟩
    · simp [sampleBuckets] at h
    · simp [sampleBuckets] at h
  obtain ⟨drs, hdrs, hverdict⟩ := fromBytes_writeV2 listFst_lawful literalRegex_lawful hencodable
    hcompiles hcounts hfile
  refine ⟨file, stats, drs, hfile, hdrs, ?_, ?_⟩
  · rw [hverdict "y.x.b.org" (by decide)]
    congr 1
  · rw [hverdict "y.b.org" (by decide)]
    congr 1

/-- A pattern that does not compile is written like any other, and the file
it is written to does not load. -/
theorem fromBytes_writeV2_uncompiled :
    ¬ ∀ (F : FstCrate) (R : RegexCrate) (b : EntryBuckets) (now : BitVec 64)
      (sourceHash : Vector UInt8 32) (file : Bytes) (stats : BuildStats),
      F.Lawful → R.Lawful → b.Encodable F → writeV2 F now b sourceHash = .ok (file, stats) →
      ∃ drs, fromBytes F R file = .ok drs := by
  intro h
  let b : EntryBuckets := { regexes := ["["] }
  obtain ⟨sections, hsections, hsizes⟩ : ∃ sections, buildSections listFst b = .ok sections ∧
      ∀ s ∈ sections, s.bytes.length < 2 ^ 32 := ⟨_, rfl, by decide⟩
  have hencodable : b.Encodable listFst := by
    refine ⟨by decide, by decide, by decide, (fun _ hc => by cases hc),
      (fun _ hc => by cases hc), ?_⟩
    intro sections' hsections'
    rw [hsections] at hsections'
    cases hsections'
    exact hsizes
  have hfile : ∃ file stats, writeV2 listFst 7 b (Vector.replicate 32 0) = .ok (file, stats) := by
    rw [writeV2, hsections]
    exact ⟨_, _, rfl⟩
  obtain ⟨file, stats, hfile⟩ := hfile
  obtain ⟨drs, hdrs⟩ := h listFst literalRegex b 7 (Vector.replicate 32 0) file stats
    listFst_lawful literalRegex_lawful hencodable hfile
  obtain ⟨sets, _, hload⟩ := fromBytes_written (R := literalRegex) listFst_lawful hencodable hfile
  rw [hload] at hdrs
  cases hdrs

end Relay.Ruleset
