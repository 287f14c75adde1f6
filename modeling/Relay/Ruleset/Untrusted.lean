import Relay.Binary.Total
import Relay.Ruleset.Ranges
import Relay.Ruleset.RoundTrip

/-!
The loader on files that nobody vouches for. Every offset it computes stays
inside the file, and the one computation of it that can panic is the mask of a
CIDR record: it does exactly when the record's prefix exceeds its address. Of a
file that loads, the address ranges are those of its CIDR records.
-/

namespace Relay.Ruleset

open Binary Text

variable {F : FstCrate} {R : RegexCrate}

/-! ### CIDR records -/

/-- The prefix that a CIDR record ends in. -/
def prefixOf (record : Bytes) : UInt8 := record.getLastD 0

def decodeIpv4 (record : Bytes) : BitVec 32 × UInt8 :=
  (BitVec.ofNat 32 (ofLe (record.take 4)), prefixOf record)

def decodeIpv6 (record : Bytes) : BitVec 128 × UInt8 :=
  (BitVec.ofNat 128 (ofBe (record.take 16)), prefixOf record)

/-- The width of the CIDR records of a section and the width of their
addresses. -/
def SectionType.cidrShape : SectionType → Option (Nat × Nat)
  | .ipCidrV4 => some (5, 32)
  | .ipCidrV6 => some (17, 128)
  | _ => none

/-- Some CIDR record of the section has a prefix beyond its address. -/
def oversized (ty : SectionType) (section_ : Bytes) : Bool :=
  match ty.cidrShape with
  | some (width, w) =>
      section_.length % width = 0 &&
        (recordsOf width section_).any fun record => decide (w < (prefixOf record).toNat)
  | none => false

theorem cidrToRange_eq_panicked {w : Nat} {addr : BitVec w} {prefix_ : UInt8} :
    cidrToRange w addr prefix_ = panicked ↔ w < prefix_.toNat := by
  by_cases h : prefix_.toNat ≤ w
  · obtain ⟨range, hrange⟩ := cidrToRange_ok w addr prefix_ h
    rw [hrange]
    constructor
    · intro hpanic
      cases hpanic
    · intro hlt
      omega
  · have hne : prefix_ ≠ 0 := by
      rintro rfl
      exact h (Nat.zero_le w)
    unfold cidrToRange
    rw [if_neg hne, checkedSub, if_neg h]
    constructor
    · intro _
      omega
    · intro _
      rfl

/-- What the loop over a CIDR section does with one record. -/
def pushRange (w : Nat) (decode : Bytes → BitVec w × UInt8) (acc : List (BitVec w × BitVec w))
    (record : Bytes) : Run DrsError (List (BitVec w × BitVec w)) := do
  let range ← cidrToRange w (decode record).1 (decode record).2
  return acc ++ [range]

private theorem record_eq {n : Nat} {record : Bytes} (h : record.length = n + 1) :
    record = record.take n ++ [prefixOf record] := by
  have hne : record ≠ [] := by
    rintro rfl
    cases h
  have hdrop := List.dropLast_append_getLast hne
  rw [List.dropLast_eq_take, h, Nat.add_sub_cancel] at hdrop
  rw [prefixOf, List.getLastD_eq_getLast?, List.getLast?_eq_some_getLast hne]
  exact hdrop.symm

private theorem readIpv4Cidr_runs (bytes record : Bytes) (h : record.length = 5) :
    RunsRecord bytes id (pushRange 32 decodeIpv4) (readIpv4Cidr bytes) record := by
  intro i acc back hdrop hi
  have htake : (record.take 4).length = 4 := by simp [h]
  have hrest : bytes.drop i = record.take 4 ++ (prefixOf record :: back) := by
    rw [hdrop, id_eq, ← List.singleton_append (l := back), ← List.append_assoc, ← record_eq h]
  have haddr : readU32Le bytes i = .ok (decodeIpv4 record).1 := by
    have hslice := slice_of_drop (ε := DrsError) hrest hi
    rw [htake] at hslice
    rw [readU32Le, hslice]
    rfl
  have hlast : byteAt bytes (i + 4) = (.ok (prefixOf record) : Run DrsError UInt8) := by
    apply byteAt_of_drop
    rw [← List.drop_drop, hrest, List.drop_left' htake]
  have hbody : readIpv4Cidr bytes i acc =
      cidrToRange 32 (decodeIpv4 record).1 (decodeIpv4 record).2 >>= fun range =>
        .ok (i + 5, acc ++ [range]) := by
    rw [readIpv4Cidr, haddr, run_ok_bind, hlast]
    rfl
  rw [hbody, pushRange, id_eq, h]
  cases cidrToRange 32 (decodeIpv4 record).1 (decodeIpv4 record).2 <;> rfl

private theorem readIpv6Cidr_runs (bytes record : Bytes) (h : record.length = 17) :
    RunsRecord bytes id (pushRange 128 decodeIpv6) (readIpv6Cidr bytes) record := by
  intro i acc back hdrop hi
  have htake : (record.take 16).length = 16 := by simp [h]
  have hrest : bytes.drop i = record.take 16 ++ (prefixOf record :: back) := by
    rw [hdrop, id_eq, ← List.singleton_append (l := back), ← List.append_assoc, ← record_eq h]
  have haddr := slice_of_drop (ε := DrsError) hrest hi
  rw [htake] at haddr
  have hlast : byteAt bytes (i + 16) = (.ok (prefixOf record) : Run DrsError UInt8) := by
    apply byteAt_of_drop
    rw [← List.drop_drop, hrest, List.drop_left' htake]
  have hbody : readIpv6Cidr bytes i acc =
      cidrToRange 128 (decodeIpv6 record).1 (decodeIpv6 record).2 >>= fun range =>
        .ok (i + 17, acc ++ [range]) := by
    rw [readIpv6Cidr, haddr, run_ok_bind, hlast]
    rfl
  rw [hbody, pushRange, id_eq, h]
  cases cidrToRange 128 (decodeIpv6 record).1 (decodeIpv6 record).2 <;> rfl

/-- A section of CIDR records: its length is checked first, then it panics at
a prefix beyond the address, and else adds the range of every record. -/
private theorem readFixed_cidrs {width w : Nat} (decode : Bytes → BitVec w × UInt8)
    {section_ : Bytes} {body : Nat → List (BitVec w × BitVec w) →
      Run DrsError (Nat × List (BitVec w × BitVec w))}
    (hpos : 0 < width) (hsmall : section_.length + width < 2 ^ 64)
    (hlast : ∀ record, (decode record).2 = prefixOf record)
    (hruns : ∀ record, record.length = width →
      RunsRecord section_ id (pushRange w decode) body record)
    (acc : List (BitVec w × BitVec w)) :
    (readFixed width section_ body acc = panicked ↔
      section_.length % width = 0 ∧
        ∃ record ∈ recordsOf width section_, w < (prefixOf record).toNat) ∧
    (∀ ranges, readFixed width section_ body acc = .ok ranges ↔
      section_.length % width = 0 ∧
        (∀ record ∈ recordsOf width section_, (prefixOf record).toNat ≤ w) ∧
        ranges = acc ++ (recordsOf width section_).map (fun record => rangeOf w (decode record))) := by
  unfold readFixed
  by_cases hlength : section_.length % width = 0
  · have hbytes : section_ = (recordsOf width section_).flatMap id := by
      rw [List.flatMap_id, flatten_recordsOf hlength]
    have hscan := scan_foldlM id (pushRange w decode) acc hbytes
      (fun record hrecord => by rw [id_eq, length_of_mem_recordsOf hrecord]; exact hpos)
      (fun record hrecord => hruns record (length_of_mem_recordsOf hrecord))
    have hbad : ∀ (s : List (BitVec w × BitVec w)) record, w < (prefixOf record).toNat →
        pushRange w decode s record = panicked := by
      intro s record hlt
      rw [← hlast] at hlt
      rw [pushRange, cidrToRange_eq_panicked.mpr hlt]
      rfl
    have hgood : ∀ (s : List (BitVec w × BitVec w)) record, ¬ w < (prefixOf record).toNat →
        pushRange w decode s record = .ok (s ++ [rangeOf w (decode record)]) := by
      intro s record hle
      rw [← hlast] at hle
      rw [pushRange, cidrToRange_eq_rangeOf (by omega)]
      rfl
    rw [if_neg (by simpa using hlength), hscan]
    refine ⟨?_, ?_⟩
    · rw [foldlM_eq_panicked hbad hgood]
      simp [hlength]
    · intro ranges
      have hfold (hall : ∀ record ∈ recordsOf width section_, (prefixOf record).toNat ≤ w) :
          (recordsOf width section_).foldlM (pushRange w decode) acc = .ok (acc ++
            (recordsOf width section_).map (fun record => rangeOf w (decode record))) := by
        rw [← foldl_push_eq_append]
        refine foldlM_of_good (fun s record hrecord => ?_) acc
        exact hgood s record (Nat.not_lt_of_le (hall record hrecord))
      constructor
      · intro hok
        have hall : ∀ record ∈ recordsOf width section_, (prefixOf record).toNat ≤ w := by
          intro record hrecord
          by_contra hlt
          have hpanic := (foldlM_eq_panicked (s := acc) hbad hgood).mpr
            ⟨record, hrecord, Nat.lt_of_not_le hlt⟩
          rw [hpanic] at hok
          cases hok
        rw [hfold hall, Except.ok.injEq] at hok
        exact ⟨hlength, hall, hok.symm⟩
      · rintro ⟨_, hall, rfl⟩
        exact hfold hall
  · have hexpected : (section_.length / width + 1) * width < 2 ^ 64 := by
      have hle := Nat.div_mul_le_self section_.length width
      rw [Nat.succ_mul]
      omega
    rw [if_pos hlength, checkedMul_ok hexpected, run_ok_bind]
    refine ⟨?_, ?_⟩
    · constructor
      · intro hpanic
        cases hpanic
      · rintro ⟨hzero, _⟩
        exact absurd hzero hlength
    · intro ranges
      constructor
      · intro hok
        cases hok
      · rintro ⟨hzero, _⟩
        exact absurd hzero hlength

/-! ### String sections -/

/-- Strings back to back, each behind its length byte. -/
def stringsFormed : Bytes → Bool
  | [] => true
  | l :: rest =>
      decide (l.toNat ≤ rest.length) && (fromUtf8 (rest.take l.toNat)).isSome &&
        stringsFormed (rest.drop l.toNat)
termination_by bytes => bytes.length
decreasing_by
  simp only [List.length_drop, List.length_cons]
  omega

private theorem readString_of_drop {bytes rest : Bytes} {l : UInt8} {i : Nat} {acc : List String}
    (hsmall : bytes.length + 256 < 2 ^ 64) (hdrop : bytes.drop i = l :: rest) :
    readString bytes i acc =
      if l.toNat ≤ rest.length then
        match fromUtf8 (rest.take l.toNat) with
        | some s => .ok (i + 1 + l.toNat, acc ++ [s])
        | none => fail .invalidUtf8
      else fail (.truncated (i + 1 + l.toNat) bytes.length) := by
  have hlength := congrArg List.length hdrop
  rw [List.length_drop, List.length_cons] at hlength
  have hl : l.toNat < 256 := l.toNat_lt
  have hrest : bytes.drop (i + 1) = rest := by
    rw [← List.drop_drop, hdrop, List.drop_one, List.tail_cons]
  rw [readString, byteAt_of_drop hdrop, run_ok_bind]
  dsimp only
  rw [checkedAdd_ok (by omega), run_ok_bind]
  by_cases hfits : l.toNat ≤ rest.length
  · rw [if_neg (by omega), if_pos hfits, slice_of_le (by omega) (by omega), run_ok_bind, hrest,
      Nat.add_sub_cancel_left]
    rfl
  · rw [if_pos (by omega), if_neg hfits]

/-- The string loop reports what it cannot read. -/
private theorem whileLt_readString (bytes : Bytes) (hsmall : bytes.length + 256 < 2 ^ 64)
    (fuel i : Nat) (acc : List String) (hi : i ≤ bytes.length) (hfuel : bytes.length ≤ i + fuel) :
    whileLt bytes.length (readString bytes) fuel i acc ≠ panicked ∧
      ((∃ items, whileLt bytes.length (readString bytes) fuel i acc = .ok items) ↔
        stringsFormed (bytes.drop i) = true) := by
  induction fuel generalizing i acc with
  | zero =>
      have hend : i = bytes.length := by omega
      subst hend
      rw [whileLt, if_neg (by omega), List.drop_length, stringsFormed]
      simp [panicked]
  | succ fuel ih =>
      by_cases hlt : i < bytes.length
      · obtain ⟨l, rest, hdrop⟩ := List.exists_cons_of_ne_nil
          (show bytes.drop i ≠ [] by simpa using hlt)
        have hlength := congrArg List.length hdrop
        rw [List.length_drop, List.length_cons] at hlength
        rw [whileLt, if_pos hlt, readString_of_drop hsmall hdrop, hdrop, stringsFormed]
        by_cases hfits : l.toNat ≤ rest.length
        · have hback : bytes.drop (i + 1 + l.toNat) = rest.drop l.toNat := by
            rw [Nat.add_assoc, ← List.drop_drop, hdrop, Nat.add_comm, List.drop_succ_cons]
          rw [if_pos hfits, decide_eq_true hfits, Bool.true_and]
          cases hutf8 : fromUtf8 (rest.take l.toNat) with
          | none => simp [fail, panicked, bind, Except.bind]
          | some s =>
              simp only [run_ok_bind, Option.isSome_some, Bool.true_and]
              rw [← hback]
              exact ih (i + 1 + l.toNat) (acc ++ [s]) (by omega) (by omega)
        · rw [if_neg hfits, decide_eq_false hfits]
          simp [fail, panicked, bind, Except.bind]
      · have hend : i = bytes.length := by omega
        subst hend
        rw [whileLt, if_neg hlt, List.drop_length, stringsFormed]
        simp [panicked]

theorem readStrings_total (section_ : Bytes) (hsmall : section_.length + 256 < 2 ^ 64)
    (acc : List String) :
    readStrings section_ acc ≠ panicked ∧
      ((∃ items, readStrings section_ acc = .ok items) ↔ stringsFormed section_ = true) := by
  have hloop := whileLt_readString section_ hsmall section_.length 0 acc (Nat.zero_le _)
    (Nat.le_of_eq (Nat.zero_add _).symm)
  rwa [List.drop_zero] at hloop

/-! ### One section -/

/-- The loader's demands on a section, the prefixes of its CIDR records apart. -/
def acceptsSection (F : FstCrate) (ty : SectionType) (section_ : Bytes) : Bool :=
  match ty with
  | .domainFst | .domainSuffixFst | .excludeDomainFst | .excludeSuffixFst => (F.new section_).isOk
  | .domainKeyword | .domainRegex | .excludeDomainRegex => stringsFormed section_
  | .ipCidrV4 => section_.length % 5 = 0
  | .ipCidrV6 => section_.length % 17 = 0
  | .port => section_.length % 4 = 0
  | .domain | .domainSuffix => true

/-- The IPv4 records of a section. -/
def ipv4In (ty : SectionType) (section_ : Bytes) : List (BitVec 32 × UInt8) :=
  if ty = .ipCidrV4 then (recordsOf 5 section_).map decodeIpv4 else []

/-- The IPv6 records of a section. -/
def ipv6In (ty : SectionType) (section_ : Bytes) : List (BitVec 128 × UInt8) :=
  if ty = .ipCidrV6 then (recordsOf 17 section_).map decodeIpv6 else []

/-- What loading a section comes to. -/
structure SectionResult (ty : SectionType) (section_ : Bytes) (acc : Loading F)
    (result : Run DrsError (Loading F)) : Prop where
  panics_iff : result = panicked ↔ oversized ty section_ = true
  ok_iff : (∃ acc', result = .ok acc') ↔
    acceptsSection F ty section_ = true ∧ oversized ty section_ = false
  ipv4 : ∀ acc', result = .ok acc' →
    acc'.ipv4Ranges = acc.ipv4Ranges ++ (ipv4In ty section_).map (rangeOf 32)
  ipv6 : ∀ acc', result = .ok acc' →
    acc'.ipv6Ranges = acc.ipv6Ranges ++ (ipv6In ty section_).map (rangeOf 128)

/-- A section without CIDR records. -/
private theorem SectionResult.plain {α : Type} {ty : SectionType} {section_ : Bytes}
    {acc : Loading F} {read : Run DrsError α} {put : α → Loading F} (hshape : ty.cidrShape = none)
    (hsafe : read ≠ panicked)
    (hok : (∃ a, read = .ok a) ↔ acceptsSection F ty section_ = true)
    (hipv4 : ∀ a, (put a).ipv4Ranges = acc.ipv4Ranges)
    (hipv6 : ∀ a, (put a).ipv6Ranges = acc.ipv6Ranges) :
    SectionResult ty section_ acc (read >>= fun a => .ok (put a)) := by
  have hfits : oversized ty section_ = false := by rw [oversized, hshape]
  have hno4 : ipv4In ty section_ = [] := by
    refine if_neg ?_
    rintro rfl
    cases hshape
  have hno6 : ipv6In ty section_ = [] := by
    refine if_neg ?_
    rintro rfl
    cases hshape
  refine ⟨?_, ?_, ?_, ?_⟩
  · have hnone : ∀ acc' : Loading F, (.ok acc' : Run DrsError (Loading F)) ≠ panicked := by
      intro acc' h
      cases h
    rw [run_bind_eq_panicked, hfits]
    simp [hsafe, hnone]
  · rw [← hok, hfits]
    constructor
    · rintro ⟨acc', hacc⟩
      obtain ⟨a, ha, _⟩ := run_bind_eq_ok.mp hacc
      exact ⟨⟨a, ha⟩, rfl⟩
    · rintro ⟨⟨a, ha⟩, _⟩
      exact ⟨put a, by rw [ha, run_ok_bind]⟩
  · intro acc' hacc
    obtain ⟨a, _, hput⟩ := run_bind_eq_ok.mp hacc
    cases hput
    rw [hipv4, hno4, List.map_nil, List.append_nil]
  · intro acc' hacc
    obtain ⟨a, _, hput⟩ := run_bind_eq_ok.mp hacc
    cases hput
    rw [hipv6, hno6, List.map_nil, List.append_nil]

private theorem loadSet_total (bytes : Bytes) :
    loadSet F bytes ≠ panicked ∧ ((∃ set, loadSet F bytes = .ok set) ↔ (F.new bytes).isOk = true) := by
  unfold loadSet
  cases F.new bytes with
  | ok set => simp [panicked, Except.isOk, Except.toBool]
  | error e => simp [panicked, fail, Except.isOk, Except.toBool]

private theorem readPort_runs (bytes record : Bytes) (h : record.length = 4) :
    RunsRecord bytes id (fun acc record => .ok (acc ++
      [(BitVec.ofNat 16 (ofLe (record.take 2)), BitVec.ofNat 16 (ofLe (record.drop 2)))]))
      (readPort bytes) record := by
  intro i acc back hdrop hi
  have hlength := congrArg List.length hdrop
  rw [List.length_drop, List.length_append, id_eq, h] at hlength
  have hstart : slice bytes i (i + 2) = (.ok (record.take 2) : Run DrsError Bytes) := by
    rw [slice_of_le (by omega) (by omega), hdrop, Nat.add_sub_cancel_left, id_eq,
      List.take_append_of_le_length (by omega)]
  have hfinish : slice bytes (i + 2) (i + 4) = (.ok (record.drop 2) : Run DrsError Bytes) := by
    rw [slice_of_le (by omega) (by omega), ← List.drop_drop, hdrop, id_eq,
      List.drop_append_of_le_length (by omega),
      List.take_left' (by rw [List.length_drop]; omega)]
  rw [readPort, hstart, run_ok_bind, hfinish, id_eq, h]
  rfl

private theorem readPorts_total (section_ : Bytes) (hsmall : section_.length + 256 < 2 ^ 64)
    (acc : List (BitVec 16 × BitVec 16)) :
    readFixed 4 section_ (readPort section_) acc ≠ panicked ∧
      ((∃ ports, readFixed 4 section_ (readPort section_) acc = .ok ports) ↔
        acceptsSection F .port section_ = true) := by
  unfold readFixed acceptsSection
  rw [decide_eq_true_eq]
  by_cases hlength : section_.length % 4 = 0
  · have hbytes : section_ = (recordsOf 4 section_).flatMap id := by
      rw [List.flatMap_id, flatten_recordsOf hlength]
    have hscan := scan_foldlM id _ acc hbytes
      (fun record hrecord => by rw [id_eq, length_of_mem_recordsOf hrecord]; omega)
      (fun record hrecord => readPort_runs section_ record (length_of_mem_recordsOf hrecord))
    rw [if_neg (by simpa using hlength), hscan, foldlM_of_good (fun s record _ => rfl) acc]
    exact ⟨by simp [panicked], fun _ => hlength, fun _ => ⟨_, rfl⟩⟩
  · rw [if_pos hlength, checkedMul_ok (by omega)]
    refine ⟨by simp [panicked, fail], ?_⟩
    simp [fail, hlength]

/-- When a section of CIDR records panics, and when it loads. -/
private theorem cidrSection_total (ty : SectionType) {width w : Nat}
    (hshape : ty.cidrShape = some (width, w)) {section_ : Bytes}
    (haccepts : acceptsSection F ty section_ = decide (section_.length % width = 0))
    {read : Run DrsError (List (BitVec w × BitVec w))} {ranges : List (BitVec w × BitVec w)}
    (hpanics : read = panicked ↔ section_.length % width = 0 ∧
      ∃ record ∈ recordsOf width section_, w < (prefixOf record).toNat)
    (hok : ∀ out, read = .ok out ↔ section_.length % width = 0 ∧
      (∀ record ∈ recordsOf width section_, (prefixOf record).toNat ≤ w) ∧ out = ranges)
    (put : List (BitVec w × BitVec w) → Loading F) :
    ((read >>= fun out => .ok (put out)) = panicked ↔ oversized ty section_ = true) ∧
      ((∃ acc', (read >>= fun out => .ok (put out)) = .ok acc') ↔
        acceptsSection F ty section_ = true ∧ oversized ty section_ = false) := by
  have hover : oversized ty section_ = true ↔ section_.length % width = 0 ∧
      ∃ record ∈ recordsOf width section_, w < (prefixOf record).toNat := by
    rw [oversized, hshape]
    simp
  have hunder : oversized ty section_ = false ↔ ¬ (section_.length % width = 0 ∧
      ∃ record ∈ recordsOf width section_, w < (prefixOf record).toNat) := by
    rw [← hover, Bool.not_eq_true]
  constructor
  · rw [run_bind_eq_panicked, hpanics, hover]
    constructor
    · rintro (h | ⟨_, _, h⟩)
      · exact h
      · cases h
    · exact Or.inl
  · rw [haccepts, decide_eq_true_eq, hunder]
    constructor
    · rintro ⟨acc', hacc⟩
      obtain ⟨out, hout, _⟩ := run_bind_eq_ok.mp hacc
      obtain ⟨hlength, hall, _⟩ := (hok out).mp hout
      refine ⟨hlength, ?_⟩
      rintro ⟨_, record, hrecord, hlt⟩
      exact absurd (hall record hrecord) (Nat.not_le_of_lt hlt)
    · rintro ⟨hlength, hnot⟩
      have hall : ∀ record ∈ recordsOf width section_, (prefixOf record).toNat ≤ w := by
        intro record hrecord
        by_contra hlt
        exact hnot ⟨hlength, record, hrecord, Nat.lt_of_not_le hlt⟩
      exact ⟨put ranges, by rw [(hok ranges).mpr ⟨hlength, hall, rfl⟩, run_ok_bind]⟩

theorem loadSection_total (ty : SectionType) (count : Nat) (section_ : Bytes)
    (hsmall : section_.length + 256 < 2 ^ 64) (acc : Loading F) :
    SectionResult ty section_ acc (loadSection F ty count section_ acc) := by
  have hset := loadSet_total (F := F) section_
  have hstrings := readStrings_total section_ hsmall
  cases ty with
  | domainFst => exact .plain rfl hset.1 hset.2 (fun _ => rfl) (fun _ => rfl)
  | domainSuffixFst => exact .plain rfl hset.1 hset.2 (fun _ => rfl) (fun _ => rfl)
  | excludeDomainFst => exact .plain rfl hset.1 hset.2 (fun _ => rfl) (fun _ => rfl)
  | excludeSuffixFst => exact .plain rfl hset.1 hset.2 (fun _ => rfl) (fun _ => rfl)
  | domainKeyword =>
      exact .plain rfl (hstrings _).1 (hstrings _).2 (fun _ => rfl) (fun _ => rfl)
  | domainRegex =>
      exact .plain rfl (hstrings _).1 (hstrings _).2 (fun _ => rfl) (fun _ => rfl)
  | excludeDomainRegex =>
      exact .plain rfl (hstrings _).1 (hstrings _).2 (fun _ => rfl) (fun _ => rfl)
  | port =>
      obtain ⟨hsafe, hok⟩ := readPorts_total (F := F) section_ hsmall acc.ports
      exact .plain rfl hsafe hok (fun _ => rfl) (fun _ => rfl)
  | domain =>
      have hplain : SectionResult .domain section_ acc
          ((.ok () : Run DrsError Unit) >>= fun _ => .ok acc) :=
        .plain rfl (by simp [panicked]) (by simp [acceptsSection]) (fun _ => rfl) (fun _ => rfl)
      exact hplain
  | domainSuffix =>
      have hplain : SectionResult .domainSuffix section_ acc
          ((.ok () : Run DrsError Unit) >>= fun _ => .ok acc) :=
        .plain rfl (by simp [panicked]) (by simp [acceptsSection]) (fun _ => rfl) (fun _ => rfl)
      exact hplain
  | ipCidrV4 =>
      obtain ⟨hpanics, hok⟩ := readFixed_cidrs decodeIpv4 (by omega) (by omega)
        (fun _ => rfl) (readIpv4Cidr_runs section_) acc.ipv4Ranges
      obtain ⟨hpanics', hok'⟩ := cidrSection_total (F := F) .ipCidrV4 rfl rfl hpanics hok
        (fun ranges => { acc with ipv4Ranges := ranges, ipv4CidrCount := count })
      refine ⟨hpanics', hok', ?_, ?_⟩
      · intro acc' hacc
        obtain ⟨ranges, hranges, hput⟩ := run_bind_eq_ok.mp hacc
        cases hput
        rw [((hok ranges).mp hranges).2.2, ipv4In, if_pos rfl, List.map_map]
        rfl
      · intro acc' hacc
        obtain ⟨ranges, _, hput⟩ := run_bind_eq_ok.mp hacc
        cases hput
        simp [ipv6In]
  | ipCidrV6 =>
      obtain ⟨hpanics, hok⟩ := readFixed_cidrs decodeIpv6 (by omega) (by omega)
        (fun _ => rfl) (readIpv6Cidr_runs section_) acc.ipv6Ranges
      obtain ⟨hpanics', hok'⟩ := cidrSection_total (F := F) .ipCidrV6 rfl rfl hpanics hok
        (fun ranges => { acc with ipv6Ranges := ranges, ipv6CidrCount := count })
      refine ⟨hpanics', hok', ?_, ?_⟩
      · intro acc' hacc
        obtain ⟨ranges, _, hput⟩ := run_bind_eq_ok.mp hacc
        cases hput
        simp [ipv4In]
      · intro acc' hacc
        obtain ⟨ranges, hranges, hput⟩ := run_bind_eq_ok.mp hacc
        cases hput
        rw [((hok ranges).mp hranges).2.2, ipv6In, if_pos rfl, List.map_map]
        rfl

/-! ### The section loop -/

/-- The section that a header at `offset` announces, when the file holds it. -/
def sectionAt (data : Bytes) (offset : Nat) : Option (SectionType × Bytes) :=
  match readSectionHeader data offset with
  | .ok (ty, _, byteLen, headerLen) =>
      if offset + headerLen + byteLen.toNat ≤ data.length then
        some (ty, (data.drop (offset + headerLen)).take byteLen.toNat)
      else none
  | .error _ => none

/-- Among the next `n` sections, a CIDR section with a prefix beyond its
address stands behind sections that load. -/
def reachesOversized (F : FstCrate) (data : Bytes) : Nat → Nat → Bool
  | 0, _ => false
  | n + 1, offset =>
      match sectionAt data offset with
      | some (ty, section_) =>
          oversized ty section_ || acceptsSection F ty section_ &&
            reachesOversized F data n (offset + 9 + section_.length)
      | none => false

/-- What `collect` finds in each of the next `n` sections. -/
def inSections {α : Type} (collect : SectionType → Bytes → List α) (data : Bytes) :
    Nat → Nat → List α
  | 0, _ => []
  | n + 1, offset =>
      match sectionAt data offset with
      | some (ty, section_) =>
          collect ty section_ ++ inSections collect data n (offset + 9 + section_.length)
      | none => []

private theorem readSectionHeader_total (data : Bytes) (offset : Nat)
    (hsmall : data.length < 2 ^ 63) (hoffset : offset ≤ data.length) :
    (∃ ty count byteLen, readSectionHeader data offset = .ok (ty, count, byteLen, 9) ∧
      offset + 9 ≤ data.length) ∨ ∃ e, readSectionHeader data offset = fail e := by
  have hword : ∀ i, i + 4 ≤ data.length → ∃ x, readU32Le data i = .ok x := by
    intro i hi
    exact ⟨_, by rw [readU32Le, slice_of_le (by omega) hi]; rfl⟩
  unfold readSectionHeader
  rw [checkedAdd_ok (by omega), run_ok_bind]
  by_cases hfits : data.length < offset + 9
  · rw [if_pos hfits]
    exact Or.inr ⟨_, rfl⟩
  · obtain ⟨count, hcount⟩ := hword (offset + 1) (by omega)
    obtain ⟨byteLen, hbyteLen⟩ := hword (offset + 5) (by omega)
    rw [if_neg hfits, byteAt_of_lt (by omega), run_ok_bind]
    have htype : ∀ code, (∃ ty, SectionType.fromU8 code = .ok ty) ∨
        ∃ e, SectionType.fromU8 code = fail e := by
      intro code
      unfold SectionType.fromU8
      split
      all_goals first | exact Or.inl ⟨_, rfl⟩ | exact Or.inr ⟨_, rfl⟩
    rcases htype data[offset] with ⟨ty, hty⟩ | ⟨e, he⟩
    · rw [hty, run_ok_bind, hcount, run_ok_bind, hbyteLen, run_ok_bind]
      exact Or.inl ⟨ty, count, byteLen, rfl, by omega⟩
    · rw [he]
      exact Or.inr ⟨e, rfl⟩

/-- One turn of the loop: the section is loaded and the loop goes on behind
it, or an error is reported. -/
private theorem loadSections_succ (data : Bytes) (n offset : Nat) (acc : Loading F)
    (hsmall : data.length < 2 ^ 63) (hoffset : offset ≤ data.length) :
    (∃ ty count section_, sectionAt data offset = some (ty, section_) ∧
      offset + 9 + section_.length ≤ data.length ∧
      loadSections F data (n + 1) offset acc = loadSection F ty count section_ acc >>=
        loadSections F data n (offset + 9 + section_.length)) ∨
    (sectionAt data offset = none ∧ ∃ e, loadSections F data (n + 1) offset acc = fail e) := by
  rcases readSectionHeader_total data offset hsmall hoffset with
    ⟨ty, count, byteLen, hheader, hfits⟩ | ⟨e, he⟩
  · have hlen := byteLen.isLt
    rw [sectionAt, hheader, loadSections, hheader, run_ok_bind]
    dsimp only
    rw [checkedAdd_ok (by omega), run_ok_bind]
    by_cases hbody : offset + 9 + byteLen.toNat ≤ data.length
    · have hlength : ((data.drop (offset + 9)).take byteLen.toNat).length = byteLen.toNat := by
        rw [List.length_take, List.length_drop]
        omega
      refine Or.inl ⟨ty, count.toNat, _, if_pos hbody, by omega, ?_⟩
      rw [if_neg (by omega), slice_of_le (by omega) hbody, run_ok_bind, hlength,
        Nat.add_sub_cancel_left]
    · refine Or.inr ⟨if_neg hbody, ?_⟩
      rw [if_pos (by omega)]
      exact ⟨_, rfl⟩
  · rw [sectionAt, he, loadSections, he]
    exact Or.inr ⟨rfl, e, rfl⟩

theorem loadSections_panics_iff (data : Bytes) (n offset : Nat) (acc : Loading F)
    (hsmall : data.length < 2 ^ 63) (hoffset : offset ≤ data.length) :
    loadSections F data n offset acc = panicked ↔ reachesOversized F data n offset = true := by
  induction n generalizing offset acc with
  | zero => simp [loadSections, reachesOversized, panicked]
  | succ n ih =>
      rw [reachesOversized]
      rcases loadSections_succ data n offset acc hsmall hoffset with
        ⟨ty, count, section_, hsection, hfits, hloop⟩ | ⟨hnone, e, he⟩
      · obtain ⟨hpanics, hok, _, _⟩ := loadSection_total ty count section_ (by omega) acc
        rw [hloop, hsection, run_bind_eq_panicked, hpanics]
        simp only [ih _ _ hfits, Bool.or_eq_true, Bool.and_eq_true]
        constructor
        · rintro (hover | ⟨acc', hacc, hrest⟩)
          · exact Or.inl hover
          · exact Or.inr ⟨(hok.mp ⟨acc', hacc⟩).1, hrest⟩
        · rintro (hover | ⟨haccepts, hrest⟩)
          · exact Or.inl hover
          · cases hover : oversized ty section_ with
            | true => exact Or.inl rfl
            | false =>
                obtain ⟨acc', hacc⟩ := hok.mpr ⟨haccepts, hover⟩
                exact Or.inr ⟨acc', hacc, hrest⟩
      · rw [he, hnone]
        simp [fail, panicked]

theorem records_le {ty : SectionType} {width w : Nat}
    (hshape : ty.cidrShape = some (width, w)) {section_ : Bytes}
    (hlength : section_.length % width = 0) (hfits : oversized ty section_ = false) :
    ∀ record ∈ recordsOf width section_, (prefixOf record).toNat ≤ w := by
  rw [oversized, hshape] at hfits
  simpa [hlength] using hfits

private theorem ipv4In_le {ty : SectionType} {section_ : Bytes}
    (haccepts : acceptsSection F ty section_ = true) (hfits : oversized ty section_ = false) :
    ∀ cidr ∈ ipv4In ty section_, cidr.2.toNat ≤ 32 := by
  intro cidr hcidr
  unfold ipv4In at hcidr
  split at hcidr
  · rename_i hty
    subst hty
    obtain ⟨record, hrecord, rfl⟩ := List.mem_map.mp hcidr
    exact records_le rfl (decide_eq_true_eq.mp haccepts) hfits record hrecord
  · cases hcidr

private theorem ipv6In_le {ty : SectionType} {section_ : Bytes}
    (haccepts : acceptsSection F ty section_ = true) (hfits : oversized ty section_ = false) :
    ∀ cidr ∈ ipv6In ty section_, cidr.2.toNat ≤ 128 := by
  intro cidr hcidr
  unfold ipv6In at hcidr
  split at hcidr
  · rename_i hty
    subst hty
    obtain ⟨record, hrecord, rfl⟩ := List.mem_map.mp hcidr
    exact records_le rfl (decide_eq_true_eq.mp haccepts) hfits record hrecord
  · cases hcidr

/-- What a finished loop has read: the ranges of the CIDR records of all its
sections, in order, none of them with a prefix beyond its address. -/
theorem loadSections_ranges (data : Bytes) (n offset : Nat) (acc acc' : Loading F)
    (hsmall : data.length < 2 ^ 63) (hoffset : offset ≤ data.length)
    (h : loadSections F data n offset acc = .ok acc') :
    (acc'.ipv4Ranges = acc.ipv4Ranges ++ (inSections ipv4In data n offset).map (rangeOf 32) ∧
      ∀ cidr ∈ inSections ipv4In data n offset, cidr.2.toNat ≤ 32) ∧
    (acc'.ipv6Ranges = acc.ipv6Ranges ++ (inSections ipv6In data n offset).map (rangeOf 128) ∧
      ∀ cidr ∈ inSections ipv6In data n offset, cidr.2.toNat ≤ 128) := by
  induction n generalizing offset acc with
  | zero =>
      cases h
      simp [inSections]
  | succ n ih =>
      rcases loadSections_succ data n offset acc hsmall hoffset with
        ⟨ty, count, section_, hsection, hfits, hloop⟩ | ⟨_, e, he⟩
      · obtain ⟨_, hok, hipv4, hipv6⟩ := loadSection_total ty count section_ (by omega) acc
        rw [hloop, run_bind_eq_ok] at h
        obtain ⟨mid, hmid, hrest⟩ := h
        obtain ⟨haccepts, hfitting⟩ := hok.mp ⟨mid, hmid⟩
        obtain ⟨⟨hranges4, hle4⟩, hranges6, hle6⟩ := ih _ mid hfits hrest
        simp only [inSections, hsection]
        refine ⟨⟨?_, ?_⟩, ?_, ?_⟩
        · rw [hranges4, hipv4 mid hmid, List.append_assoc, List.map_append]
        · intro cidr hcidr
          rcases List.mem_append.mp hcidr with hhere | hlater
          · exact ipv4In_le haccepts hfitting cidr hhere
          · exact hle4 cidr hlater
        · rw [hranges6, hipv6 mid hmid, List.append_assoc, List.map_append]
        · intro cidr hcidr
          rcases List.mem_append.mp hcidr with hhere | hlater
          · exact ipv6In_le haccepts hfitting cidr hhere
          · exact hle6 cidr hlater
      · rw [he] at h
        cases h

/-! ### A whole file -/

/-- The number of sections that the header of a v2 file states. -/
def sectionCountOf (data : Bytes) : Nat :=
  (BitVec.ofNat 32 (ofLe ((data.drop 46).take 4))).toNat

/-- A v2 file in which the loader gets to a prefix beyond its address. -/
def holdsOversized (F : FstCrate) (data : Bytes) : Bool :=
  decide (V2_HEADER_LEN ≤ data.length) && data.take 4 == MAGIC && data[4]? == some VERSION_V2 &&
    reachesOversized F data (sectionCountOf data) V2_HEADER_LEN

/-- The CIDR records of a file: v1 files have none. -/
def cidrsOf {α : Type} (collect : SectionType → Bytes → List α) (data : Bytes) : List α :=
  if data[4]? = some VERSION_V2 then inSections collect data (sectionCountOf data) V2_HEADER_LEN
  else []

/-- Loaded ranges that come from CIDR records within their addresses: they
cover what the records cover, and they start and end where records do. -/
structure LoadedFrom {w : Nat} (cidrs : List (BitVec w × UInt8))
    (ranges : List (BitVec w × BitVec w)) : Prop where
  fits : ∀ cidr ∈ cidrs, cidr.2.toNat ≤ w
  covers : ∀ addr, Covers ranges addr ↔ Covers (cidrs.map (rangeOf w)) addr
  endpoints : EndpointsFrom (cidrs.map (rangeOf w)) ranges

theorem LoadedFrom.merged {w : Nat} {cidrs : List (BitVec w × UInt8)}
    (hfits : ∀ cidr ∈ cidrs, cidr.2.toNat ≤ w) :
    LoadedFrom cidrs (mergeRanges (cidrs.map (rangeOf w))) where
  fits := hfits
  covers := covers_mergeRanges _
  endpoints := endpoints_mergeRanges _

theorem LoadedFrom.nil {w : Nat} : LoadedFrom (w := w) [] [] where
  fits := fun cidr h => by cases h
  covers := fun addr => Iff.rfl
  endpoints := fun r h => by cases h

private theorem readU32Le_of_le {data : Bytes} {i : Nat} (h : i + 4 ≤ data.length) :
    readU32Le data i = .ok (BitVec.ofNat 32 (ofLe ((data.drop i).take 4))) := by
  rw [readU32Le, slice_of_le (by omega) h, Nat.add_sub_cancel_left]
  rfl

private theorem fromBytesV1_yields (data : Bytes) (hsmall : data.length < 2 ^ 63)
    (hheader : V1_HEADER_LEN ≤ data.length) :
    Yields (fun drs => drs.ipv4Ranges = [] ∧ drs.ipv6Ranges = []) (fromBytesV1 F R data) := by
  have hlong : 54 ≤ data.length := hheader
  have hset : ∀ lo hi, lo ≤ hi → hi ≤ data.length →
      Yields (fun _ => True) (slice data lo hi >>= fun bytes => loadSet F bytes) := by
    intro lo hi hlo hhi
    rw [slice_of_le hlo hhi, run_ok_bind]
    exact ⟨(loadSet_total _).1, fun _ _ => trivial⟩
  unfold fromBytesV1
  dsimp only
  rw [if_neg (Nat.not_lt_of_le hheader), byteAt_of_lt (by omega), run_ok_bind,
    slice_of_le (by omega) (by omega), run_ok_bind, slice_of_le (by omega) (by omega), run_ok_bind,
    readU32Le_of_le (by omega), run_ok_bind, readU32Le_of_le (by omega), run_ok_bind]
  have hdomainLen := (BitVec.ofNat 32 (ofLe ((data.drop 46).take 4))).isLt
  have hsuffixLen := (BitVec.ofNat 32 (ofLe ((data.drop 50).take 4))).isLt
  generalize (BitVec.ofNat 32 (ofLe ((data.drop 46).take 4))).toNat = domainLen at hdomainLen ⊢
  generalize (BitVec.ofNat 32 (ofLe ((data.drop 50).take 4))).toNat = suffixLen at hsuffixLen ⊢
  rw [V1_HEADER_LEN, checkedAdd_ok (by omega), run_ok_bind, checkedAdd_ok (by omega), run_ok_bind]
  split
  · exact .fail _
  · have hfits : 54 + domainLen + suffixLen ≤ data.length := by omega
    split
    · rw [slice_of_le (by omega) (by omega), run_ok_bind]
      refine Yields.bind ⟨(loadSet_total _).1, fun _ _ => trivial⟩ (fun domainSet _ => ?_)
      rw [run_pure_bind]
      split
      · rw [slice_of_le (by omega) (by omega), run_ok_bind]
        refine Yields.bind ⟨(loadSet_total _).1, fun _ _ => trivial⟩ (fun suffixSet _ => ?_)
        exact .ok ⟨rfl, rfl⟩
      · exact .ok ⟨rfl, rfl⟩
    · rw [run_pure_bind]
      split
      · rw [slice_of_le (by omega) (by omega), run_ok_bind]
        refine Yields.bind ⟨(loadSet_total _).1, fun _ _ => trivial⟩ (fun suffixSet _ => ?_)
        exact .ok ⟨rfl, rfl⟩
      · exact .ok ⟨rfl, rfl⟩

private theorem loadRegexes_safe (patterns : List String) : loadRegexes R patterns ≠ panicked := by
  unfold loadRegexes
  split
  · intro h
    cases h
  · split
    · intro h
      cases h
    · intro h
      cases h

private theorem finishLoading_yields (buildTime : BitVec 64) (sourceHash : Bytes)
    (acc : Loading F) :
    Yields (fun drs => drs.ipv4Ranges = mergeRanges acc.ipv4Ranges ∧
      drs.ipv6Ranges = mergeRanges acc.ipv6Ranges) (finishLoading F R buildTime sourceHash acc) := by
  unfold finishLoading
  refine Yields.bind ⟨loadRegexes_safe _, fun _ _ => trivial⟩ (fun regexes _ => ?_)
  refine Yields.bind ⟨loadRegexes_safe _, fun _ _ => trivial⟩ (fun excludeRegexes _ => ?_)
  exact .ok ⟨rfl, rfl⟩

theorem fromBytesV2_eq (data : Bytes) (hheader : V2_HEADER_LEN ≤ data.length) :
    ∃ buildTime sourceHash, fromBytesV2 F R data =
      loadSections F data (sectionCountOf data) V2_HEADER_LEN {} >>=
        finishLoading F R buildTime sourceHash := by
  have hlong : 54 ≤ data.length := hheader
  unfold fromBytesV2
  rw [slice_of_le (by omega) (by omega), run_ok_bind, slice_of_le (by omega) (by omega),
    run_ok_bind, readU32Le_of_le (by omega), run_ok_bind]
  exact ⟨_, _, rfl⟩

/-- The loader by its version byte: a file that is too short, has another
magic or another version is reported. -/
theorem fromBytes_eq (data : Bytes) :
    (∃ e, fromBytes F R data = fail e) ∧ (V2_HEADER_LEN ≤ data.length ∧ data.take 4 = MAGIC →
      data[4]? ≠ some VERSION_V2) ∨
    V2_HEADER_LEN ≤ data.length ∧ data.take 4 = MAGIC ∧
      (data[4]? = some VERSION_V1 ∧ fromBytes F R data = fromBytesV1 F R data ∨
        data[4]? = some VERSION_V2 ∧ fromBytes F R data = fromBytesV2 F R data) := by
  unfold fromBytes
  by_cases hlong : data.length < min V2_HEADER_LEN V1_HEADER_LEN
  · rw [if_pos hlong]
    refine Or.inl ⟨⟨_, rfl⟩, ?_⟩
    rintro ⟨hlength, _⟩
    exact absurd hlong (Nat.not_lt_of_le hlength)
  · have hlength : 54 ≤ data.length := Nat.le_of_not_lt hlong
    rw [if_neg hlong, slice_of_le (by omega) (by omega), run_ok_bind, List.drop_zero]
    by_cases hmagic : data.take 4 = MAGIC
    · rw [if_neg (by simpa using hmagic), byteAt_of_lt (by omega), run_ok_bind,
        List.getElem?_eq_getElem (by omega)]
      by_cases hv1 : data[4] = VERSION_V1
      · rw [if_pos hv1]
        exact Or.inr ⟨hlength, hmagic, Or.inl ⟨by rw [hv1], rfl⟩⟩
      · by_cases hv2 : data[4] = VERSION_V2
        · rw [if_neg hv1, if_pos hv2]
          exact Or.inr ⟨hlength, hmagic, Or.inr ⟨by rw [hv2], rfl⟩⟩
        · rw [if_neg hv1, if_neg hv2]
          exact Or.inl ⟨⟨_, rfl⟩, fun _ h => hv2 (Option.some.inj h)⟩
    · rw [if_pos (by simpa using hmagic)]
      refine Or.inl ⟨⟨_, rfl⟩, ?_⟩
      rintro ⟨_, h⟩
      exact absurd h hmagic

/-- The loader panics exactly on the files in which it gets to a prefix beyond
its address. -/
theorem fromBytes_panics_iff (data : Bytes) (hsmall : data.length < 2 ^ 63) :
    fromBytes F R data = panicked ↔ holdsOversized F data = true := by
  have hholds : holdsOversized F data = true ↔ V2_HEADER_LEN ≤ data.length ∧
      data.take 4 = MAGIC ∧ data[4]? = some VERSION_V2 ∧
        reachesOversized F data (sectionCountOf data) V2_HEADER_LEN = true := by
    simp [holdsOversized, and_assoc]
  rw [hholds]
  rcases fromBytes_eq (F := F) (R := R) data with
    ⟨⟨e, he⟩, hother⟩ | ⟨hlength, hmagic, ⟨hversion, hload⟩ | ⟨hversion, hload⟩⟩
  · rw [he]
    constructor
    · intro hpanic
      cases hpanic
    · rintro ⟨hlength, hmagic, hversion, _⟩
      exact absurd hversion (hother ⟨hlength, hmagic⟩)
  · rw [hload]
    constructor
    · intro hpanic
      exact absurd hpanic (fromBytesV1_yields data hsmall hlength).1
    · rintro ⟨_, _, hv2, _⟩
      rw [hversion] at hv2
      cases hv2
  · obtain ⟨buildTime, sourceHash, hloop⟩ := fromBytesV2_eq (F := F) (R := R) data hlength
    rw [hload, hloop, run_bind_eq_panicked,
      loadSections_panics_iff data _ _ _ hsmall hlength]
    constructor
    · rintro (hreach | ⟨acc, _, hpanic⟩)
      · exact ⟨hlength, hmagic, hversion, hreach⟩
      · exact absurd hpanic (finishLoading_yields buildTime sourceHash acc).1
    · rintro ⟨_, _, _, hreach⟩
      exact Or.inl hreach

/-- The ranges of a file that loads come from its CIDR records. -/
theorem fromBytes_loadedFrom (data : Bytes) (hsmall : data.length < 2 ^ 63) {drs : DrsFile F R}
    (h : fromBytes F R data = .ok drs) :
    LoadedFrom (cidrsOf ipv4In data) drs.ipv4Ranges ∧
      LoadedFrom (cidrsOf ipv6In data) drs.ipv6Ranges := by
  unfold cidrsOf
  rcases fromBytes_eq (F := F) (R := R) data with
    ⟨⟨e, he⟩, _⟩ | ⟨hlength, _, ⟨hversion, hload⟩ | ⟨hversion, hload⟩⟩
  · rw [he] at h
    cases h
  · rw [hload] at h
    obtain ⟨hipv4, hipv6⟩ := (fromBytesV1_yields data hsmall hlength).2 drs h
    rw [hipv4, hipv6, hversion, if_neg (by decide), if_neg (by decide)]
    exact ⟨.nil, .nil⟩
  · obtain ⟨buildTime, sourceHash, hloop⟩ := fromBytesV2_eq (F := F) (R := R) data hlength
    rw [hload, hloop, run_bind_eq_ok] at h
    obtain ⟨acc, hacc, hdrs⟩ := h
    obtain ⟨hipv4, hipv6⟩ := (finishLoading_yields buildTime sourceHash acc).2 drs hdrs
    obtain ⟨⟨hranges4, hle4⟩, hranges6, hle6⟩ :=
      loadSections_ranges data _ _ {} acc hsmall hlength hacc
    rw [hipv4, hipv6, hranges4, hranges6, if_pos hversion, if_pos hversion]
    exact ⟨.merged hle4, .merged hle6⟩

/-- For every file: no read, shift or sum of the loader is out of range and the
ranges of what it loads come from CIDR records within their addresses, exactly
when the loader gets to no prefix beyond its address. -/
theorem fromBytes_total_iff (data : Bytes) (hsmall : data.length < 2 ^ 63) :
    (fromBytes F R data ≠ panicked ∧ ∀ drs, fromBytes F R data = .ok drs →
      LoadedFrom (cidrsOf ipv4In data) drs.ipv4Ranges ∧
        LoadedFrom (cidrsOf ipv6In data) drs.ipv6Ranges) ↔ holdsOversized F data = false := by
  rw [Ne, fromBytes_panics_iff data hsmall, Bool.not_eq_true]
  constructor
  · exact fun h => h.1
  · exact fun h => ⟨h, fun drs hdrs => fromBytes_loadedFrom data hsmall hdrs⟩

/-- A file with one CIDR record of `10.0.0.0`. -/
def oneCidrFile (prefix_ : UInt8) : Bytes :=
  encodeHeader 0 (Vector.replicate 32 0) 1 ++ Section.encode ⟨.ipCidrV4, 1, [0, 0, 0, 10, prefix_]⟩

theorem fromBytes_total_iff_prefix_8 :
    fromBytes listFst literalRegex (oneCidrFile 8) ≠ panicked ∧
      ∀ drs, fromBytes listFst literalRegex (oneCidrFile 8) = .ok drs →
        LoadedFrom (cidrsOf ipv4In (oneCidrFile 8)) drs.ipv4Ranges ∧
          LoadedFrom (cidrsOf ipv6In (oneCidrFile 8)) drs.ipv6Ranges :=
  (fromBytes_total_iff (oneCidrFile 8) (by decide)).mpr (by decide)

/-- A file whose one CIDR record has the prefix 33. -/
theorem fromBytes_panics_on_prefix_33 :
    ¬ ∀ (F : FstCrate) (R : RegexCrate) (data : Bytes), data.length < 2 ^ 63 →
      fromBytes F R data ≠ panicked := by
  intro h
  exact h listFst literalRegex (oneCidrFile 33) (by decide) rfl

end Relay.Ruleset
