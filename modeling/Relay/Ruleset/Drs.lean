import Relay.Binary.Scan
import Relay.Text.Labels
import Relay.Text.Str
import Relay.Ruleset.Format

/-!
The `.drs` ruleset file of `ruleset/drs.rs`: the loader with its v1 and v2
paths, the v2 writer, and the domain matcher with its fixed stack buffers.

The `fst` and `regex` crates are parameters. What the program relies on is
stated by `FstCrate.Lawful` and `RegexCrate.Lawful`, never assumed by a
definition.
-/

namespace Relay.Ruleset

open Binary Text

/-- The interface of `fst::SetBuilder` and `fst::Set` the program uses. -/
structure FstCrate where
  Builder : Type
  Set : Type
  memory : Builder
  insert : Builder → Bytes → Except String Builder
  intoInner : Builder → Except String Bytes
  new : Bytes → Except String Set
  contains : Set → Bytes → Bool
  len : Set → Nat

/-- A set built from strictly increasing keys serializes to a nonempty byte
string, which loads as a set with exactly these keys. -/
structure FstCrate.Lawful (F : FstCrate) : Prop where
  stores : ∀ (keys : List Bytes) (builder : F.Builder) (bytes : Bytes),
    keys.Pairwise (· < ·) → keys.foldlM F.insert F.memory = .ok builder →
    F.intoInner builder = .ok bytes →
    bytes ≠ [] ∧ ∃ set, F.new bytes = .ok set ∧ ∀ key, F.contains set key = true ↔ key ∈ keys

/-- The interface of `regex::Regex` and `regex::RegexSet`. `compiles` is
`Regex::new` without its value, `isMatch p text` is `Regex::new(p).is_match(text)`. -/
structure RegexCrate where
  RegexSet : Type
  compiles : String → Except String Unit
  isMatch : String → String → Bool
  newSet : List String → Except String RegexSet
  isMatchSet : RegexSet → String → Bool

/-- A set of patterns matches when one of its patterns does. -/
structure RegexCrate.MatchesAny (R : RegexCrate) : Prop where
  isMatchSet_iff : ∀ patterns set, R.newSet patterns = .ok set → ∀ text,
    R.isMatchSet set text = true ↔ ∃ p ∈ patterns, R.isMatch p text = true

/-- And patterns that compile alone compile as a set, where no limit on the size
of a set gets in the way. -/
structure RegexCrate.Lawful (R : RegexCrate) : Prop extends R.MatchesAny where
  newSet_ok : ∀ patterns, (∀ p ∈ patterns, R.compiles p = .ok ()) →
    ∃ set, R.newSet patterns = .ok set

inductive MatchResult where
  | domain
  | domainSuffix
  | domainKeyword
  | domainRegex
  | ipv4Cidr
  | ipv6Cidr
  | port
  deriving DecidableEq, Repr

/-- A loaded ruleset. -/
structure DrsFile (F : FstCrate) (R : RegexCrate) where
  domainFst : Option F.Set
  suffixFst : Option F.Set
  keywords : List String
  regexes : Option R.RegexSet
  ipv4Ranges : List (BitVec 32 × BitVec 32)
  ipv6Ranges : List (BitVec 128 × BitVec 128)
  ports : List (BitVec 16 × BitVec 16)
  excludeDomainFst : Option F.Set
  excludeSuffixFst : Option F.Set
  excludeRegexes : Option R.RegexSet
  hasDomainMatchers : Bool
  hasSuffixMatchers : Bool
  hasKeywordMatchers : Bool
  hasRegexMatchers : Bool
  hasIpMatchers : Bool
  hasPortMatchers : Bool
  buildTime : BitVec 64
  sourceHash : Bytes
  domainCount : Nat
  suffixCount : Nat
  keywordCount : Nat
  regexCount : Nat
  ipv4CidrCount : Nat
  ipv6CidrCount : Nat
  portCount : Nat
  excludeDomainCount : Nat
  excludeSuffixCount : Nat
  excludeRegexCount : Nat

variable (F : FstCrate) (R : RegexCrate)

/-! ### Address ranges -/

/-- `ipv4_cidr_to_range` and `ipv6_cidr_to_range`: the first and last address
of a prefix of a `w`-bit address. The arithmetic of the mask is checked: a
prefix beyond the width panics in `w - prefix`. -/
def cidrToRange (w : Nat) (addr : BitVec w) (prefix_ : UInt8) :
    Run DrsError (BitVec w × BitVec w) :=
  if prefix_ = 0 then .ok (0, BitVec.allOnes w)
  else do
    let shift ← checkedSub w prefix_.toNat
    let mask := ~~~(← checkedBitSub (← checkedShl 1#w shift) 1#w)
    let start := addr &&& mask
    return (start, start ||| ~~~mask)

def ipv4CidrToRange : BitVec 32 → UInt8 → Run DrsError (BitVec 32 × BitVec 32) :=
  cidrToRange 32

def ipv6CidrToRange : BitVec 128 → UInt8 → Run DrsError (BitVec 128 × BitVec 128) :=
  cidrToRange 128

/-- The fold of `merge_ranges`; `out` is the merged list in reverse. -/
def mergeInto {w : Nat} (out : List (BitVec w × BitVec w)) (range : BitVec w × BitVec w) :
    List (BitVec w × BitVec w) :=
  match out with
  | [] => [range]
  | last :: rest =>
      if range.1 ≤ last.2 then
        (if last.2 < range.2 then (last.1, range.2) else last) :: rest
      else range :: last :: rest

def mergeRanges {w : Nat} (ranges : List (BitVec w × BitVec w)) :
    List (BitVec w × BitVec w) :=
  if ranges.length ≤ 1 then ranges
  else ((ranges.mergeSort (fun a b => decide (a.1 ≤ b.1))).foldl mergeInto []).reverse

/-! ### Loading -/

/-- The locals of `from_bytes_v2` that the section loop fills. -/
structure Loading where
  domainFst : Option F.Set := none
  suffixFst : Option F.Set := none
  excludeDomainFst : Option F.Set := none
  excludeSuffixFst : Option F.Set := none
  keywords : List String := []
  regexPatterns : List String := []
  excludeRegexPatterns : List String := []
  ipv4Ranges : List (BitVec 32 × BitVec 32) := []
  ipv6Ranges : List (BitVec 128 × BitVec 128) := []
  ports : List (BitVec 16 × BitVec 16) := []
  domainCount : Nat := 0
  suffixCount : Nat := 0
  keywordCount : Nat := 0
  regexCount : Nat := 0
  ipv4CidrCount : Nat := 0
  ipv6CidrCount : Nat := 0
  portCount : Nat := 0
  excludeDomainCount : Nat := 0
  excludeSuffixCount : Nat := 0
  excludeRegexCount : Nat := 0

/-- `Set::new(bytes).map_err(InvalidFst)`. -/
def loadSet (bytes : Bytes) : Run DrsError F.Set :=
  match F.new bytes with
  | .ok set => .ok set
  | .error e => fail (.invalidFst e)

/-- One record `[len: u8][utf8 bytes]` of a string section. -/
def readString (section_ : Bytes) (i : Nat) (acc : List String) :
    Run DrsError (Nat × List String) := do
  let l := (← byteAt section_ i).toNat
  let i := i + 1
  let expected ← checkedAdd i l
  if section_.length < expected then
    fail (.truncated expected section_.length)
  else
    let bytes ← slice section_ i (i + l)
    match fromUtf8 bytes with
    | some s => return (i + l, acc ++ [s])
    | none => fail .invalidUtf8

/-- The string loop shared by the keyword and both regex sections. -/
def readStrings (section_ : Bytes) (acc : List String) : Run DrsError (List String) :=
  scan section_ (readString section_) acc

/-- A fixed-width section: its length must be a multiple of `entryLen`. -/
def readFixed {α : Type} (entryLen : Nat) (section_ : Bytes)
    (body : Nat → List α → Run DrsError (Nat × List α)) (acc : List α) :
    Run DrsError (List α) := do
  if section_.length % entryLen ≠ 0 then
    let expected ← checkedMul (section_.length / entryLen + 1) entryLen
    fail (.truncated expected section_.length)
  else scan section_ body acc

def readIpv4Cidr (section_ : Bytes) (i : Nat) (acc : List (BitVec 32 × BitVec 32)) :
    Run DrsError (Nat × List (BitVec 32 × BitVec 32)) := do
  let addr ← readU32Le section_ i
  let range ← ipv4CidrToRange addr (← byteAt section_ (i + 4))
  return (i + 5, acc ++ [range])

def readIpv6Cidr (section_ : Bytes) (i : Nat) (acc : List (BitVec 128 × BitVec 128)) :
    Run DrsError (Nat × List (BitVec 128 × BitVec 128)) := do
  let addr ← slice section_ i (i + 16)
  let range ← ipv6CidrToRange (BitVec.ofNat 128 (ofBe addr)) (← byteAt section_ (i + 16))
  return (i + 17, acc ++ [range])

def readPort (section_ : Bytes) (i : Nat) (acc : List (BitVec 16 × BitVec 16)) :
    Run DrsError (Nat × List (BitVec 16 × BitVec 16)) := do
  let start ← slice section_ i (i + 2)
  let finish ← slice section_ (i + 2) (i + 4)
  return (i + 4, acc ++ [(BitVec.ofNat 16 (ofLe start), BitVec.ofNat 16 (ofLe finish))])

/-- One arm of the section `match` of `from_bytes_v2`. -/
def loadSection (ty : SectionType) (entryCount : Nat) (section_ : Bytes) (acc : Loading F) :
    Run DrsError (Loading F) :=
  match ty with
  | .domainFst => do
      let set ← loadSet F section_
      return { acc with domainFst := some set, domainCount := entryCount }
  | .domainSuffixFst => do
      let set ← loadSet F section_
      return { acc with suffixFst := some set, suffixCount := entryCount }
  | .domainKeyword => do
      let keywords ← readStrings section_ acc.keywords
      return { acc with keywords := keywords, keywordCount := entryCount }
  | .domainRegex => do
      let patterns ← readStrings section_ acc.regexPatterns
      return { acc with regexPatterns := patterns, regexCount := entryCount }
  | .excludeDomainFst => do
      let set ← loadSet F section_
      return { acc with excludeDomainFst := some set, excludeDomainCount := entryCount }
  | .excludeSuffixFst => do
      let set ← loadSet F section_
      return { acc with excludeSuffixFst := some set, excludeSuffixCount := entryCount }
  | .excludeDomainRegex => do
      let patterns ← readStrings section_ acc.excludeRegexPatterns
      return { acc with excludeRegexPatterns := patterns, excludeRegexCount := entryCount }
  | .ipCidrV4 => do
      let ranges ← readFixed 5 section_ (readIpv4Cidr section_) acc.ipv4Ranges
      return { acc with ipv4Ranges := ranges, ipv4CidrCount := entryCount }
  | .ipCidrV6 => do
      let ranges ← readFixed 17 section_ (readIpv6Cidr section_) acc.ipv6Ranges
      return { acc with ipv6Ranges := ranges, ipv6CidrCount := entryCount }
  | .port => do
      let ports ← readFixed 4 section_ (readPort section_) acc.ports
      return { acc with ports := ports, portCount := entryCount }
  -- String storage of domains is skipped: the FST sections cover it.
  | .domain | .domainSuffix => .ok acc

/-- `for _ in 0..section_count`. -/
def loadSections (data : Bytes) : Nat → Nat → Loading F → Run DrsError (Loading F)
  | 0, _, acc => .ok acc
  | remaining + 1, offset, acc => do
      let (ty, entryCount, byteLen, headerLen) ← readSectionHeader data offset
      let offset := offset + headerLen
      let byteLen := byteLen.toNat
      let expected ← checkedAdd offset byteLen
      if data.length < expected then
        fail (.truncated expected data.length)
      else
        let section_ ← slice data offset (offset + byteLen)
        let acc ← loadSection F ty entryCount.toNat section_ acc
        loadSections data remaining (offset + byteLen) acc

/-- `None` for no patterns, else `RegexSet::new(..).map_err(LoadedInvalidRegex)`. -/
def loadRegexes (patterns : List String) : Run DrsError (Option R.RegexSet) :=
  if patterns.isEmpty then .ok none
  else match R.newSet patterns with
    | .ok set => .ok (some set)
    | .error e => fail (.loadedInvalidRegex e)

/-- The end of `from_bytes_v2`: merged ranges, compiled patterns, flags. -/
def finishLoading (buildTime : BitVec 64) (sourceHash : Bytes) (acc : Loading F) :
    Run DrsError (DrsFile F R) := do
  let ipv4Ranges := mergeRanges acc.ipv4Ranges
  let ipv6Ranges := mergeRanges acc.ipv6Ranges
  let regexes ← loadRegexes R acc.regexPatterns
  let excludeRegexes ← loadRegexes R acc.excludeRegexPatterns
  return {
    domainFst := acc.domainFst
    suffixFst := acc.suffixFst
    keywords := acc.keywords
    regexes := regexes
    ipv4Ranges := ipv4Ranges
    ipv6Ranges := ipv6Ranges
    ports := acc.ports
    excludeDomainFst := acc.excludeDomainFst
    excludeSuffixFst := acc.excludeSuffixFst
    excludeRegexes := excludeRegexes
    hasDomainMatchers := decide (0 < acc.domainCount)
    hasSuffixMatchers := decide (0 < acc.suffixCount)
    hasKeywordMatchers := !acc.keywords.isEmpty
    hasRegexMatchers := regexes.isSome
    hasIpMatchers := !ipv4Ranges.isEmpty || !ipv6Ranges.isEmpty
    hasPortMatchers := !acc.ports.isEmpty
    buildTime := buildTime
    sourceHash := sourceHash
    domainCount := acc.domainCount
    suffixCount := acc.suffixCount
    keywordCount := acc.keywordCount
    regexCount := acc.regexCount
    ipv4CidrCount := acc.ipv4CidrCount
    ipv6CidrCount := acc.ipv6CidrCount
    portCount := acc.portCount
    excludeDomainCount := acc.excludeDomainCount
    excludeSuffixCount := acc.excludeSuffixCount
    excludeRegexCount := acc.excludeRegexCount }

def fromBytesV2 (data : Bytes) : Run DrsError (DrsFile F R) := do
  let buildTime ← slice data 6 14
  let sourceHash ← slice data 14 46
  let sectionCount ← readU32Le data 46
  let acc ← loadSections F data sectionCount.toNat V2_HEADER_LEN {}
  finishLoading F R (BitVec.ofNat 64 (ofLe buildTime)) sourceHash acc

/-- The v1 layout: two FSTs behind a fixed header, everything else empty. -/
def fromBytesV1 (data : Bytes) : Run DrsError (DrsFile F R) := do
  let flagHasDomain : UInt8 := 0b01
  let flagHasSuffix : UInt8 := 0b10
  if data.length < V1_HEADER_LEN then
    fail (.truncated V1_HEADER_LEN data.length)
  else
    let flags ← byteAt data 5
    let buildTime ← slice data 6 14
    let sourceHash ← slice data 14 46
    let domainFstLen := (← readU32Le data 46).toNat
    let suffixFstLen := (← readU32Le data 50).toNat
    let offset := V1_HEADER_LEN
    let totalNeeded ← checkedAdd (← checkedAdd offset domainFstLen) suffixFstLen
    if data.length < totalNeeded then
      fail (.truncated totalNeeded data.length)
    else
      let domainFst ←
        if flags &&& flagHasDomain ≠ 0 ∧ 0 < domainFstLen then do
          let bytes ← slice data offset (offset + domainFstLen)
          pure (some (← loadSet F bytes))
        else pure none
      let offset := offset + domainFstLen
      let suffixFst ←
        if flags &&& flagHasSuffix ≠ 0 ∧ 0 < suffixFstLen then do
          let bytes ← slice data offset (offset + suffixFstLen)
          pure (some (← loadSet F bytes))
        else pure none
      let domainCount := (domainFst.map F.len).getD 0
      let suffixCount := (suffixFst.map F.len).getD 0
      return {
        domainFst := domainFst
        suffixFst := suffixFst
        keywords := []
        regexes := none
        ipv4Ranges := []
        ipv6Ranges := []
        ports := []
        excludeDomainFst := none
        excludeSuffixFst := none
        excludeRegexes := none
        hasDomainMatchers := decide (0 < domainCount)
        hasSuffixMatchers := decide (0 < suffixCount)
        hasKeywordMatchers := false
        hasRegexMatchers := false
        hasIpMatchers := false
        hasPortMatchers := false
        buildTime := BitVec.ofNat 64 (ofLe buildTime)
        sourceHash := sourceHash
        domainCount := domainCount
        suffixCount := suffixCount
        keywordCount := 0
        regexCount := 0
        ipv4CidrCount := 0
        ipv6CidrCount := 0
        portCount := 0
        excludeDomainCount := 0
        excludeSuffixCount := 0
        excludeRegexCount := 0 }

/-- `DrsFile::from_bytes`. -/
def fromBytes (data : Bytes) : Run DrsError (DrsFile F R) := do
  if data.length < min V2_HEADER_LEN V1_HEADER_LEN then
    fail (.truncated (min V2_HEADER_LEN V1_HEADER_LEN) data.length)
  else
    let magic ← slice data 0 4
    if magic ≠ MAGIC then
      fail (.badMagic magic)
    else
      let version ← byteAt data 4
      if version = VERSION_V1 then fromBytesV1 F R data
      else if version = VERSION_V2 then fromBytesV2 F R data
      else fail (.unsupportedVersion version)

/-! ### Matching -/

/-- `b'.'`. -/
def dot : UInt8 := 0x2e

/-- `domain.split('.')`. The dot is ASCII, so splitting the characters and
splitting the UTF-8 bytes give the same labels. -/
def labelsOf (domain : String) : List Bytes := (octets domain).splitOn dot

/-- The first loop of `suffix_match_zero_alloc`: label starts in a fixed
array of 128. `none` is the fallback for a 129th label. -/
def collectStarts (starts : List Nat) (nLabels : Nat) : Nat → Bytes →
    Run Empty (Option (List Nat × Nat))
  | _, [] => .ok (some (starts, nLabels))
  | i, b :: bytes =>
      if b = dot then
        if 128 ≤ nLabels then .ok none
        else if nLabels < starts.length then
          collectStarts (starts.set nLabels (i + 1)) (nLabels + 1) (i + 1) bytes
        else panicked
      else collectStarts starts nLabels (i + 1) bytes

/-- `starts[i]`. -/
def startAt (starts : List Nat) (i : Nat) : Run Empty Nat :=
  match starts[i]? with
  | some start => .ok start
  | none => panicked

/-- `end`: the dot before the next label, or the end of the domain. -/
def endAt (starts : List Nat) (nLabels total i : Nat) : Run Empty Nat :=
  if i + 1 < nLabels then do
    let next ← startAt starts (i + 1)
    checkedSub next 1
  else .ok total

/-- The second loop of `suffix_match_zero_alloc`, from label `remaining - 1`
down to label 0. `none` is the fallback for a key that outgrows the buffer. -/
def stackScan (contains : Bytes → Bool) (bytes : Bytes) (starts : List Nat) (nLabels : Nat) :
    Nat → Bytes → Nat → Run Empty (Option Bool)
  | 0, _, _ => .ok (some false)
  | i + 1, buf, bufLen => do
      let labelStart ← startAt starts i
      let labelEnd ← endAt starts nLabels bytes.length i
      let labelLen ← checkedSub labelEnd labelStart
      if buf.length < bufLen + labelLen + 1 then return none
      else
        let label ← slice bytes labelStart labelEnd
        let buf ← overwrite buf bufLen label
        let buf ← overwrite buf (bufLen + labelLen) [dot]
        let bufLen := bufLen + labelLen + 1
        let key ← slice buf 0 bufLen
        if contains key then return (some true)
        else stackScan contains bytes starts nLabels i buf bufLen

/-- The loop of `suffix_match_heap` over the reversed labels. -/
def heapScan (contains : Bytes → Bool) : List Bytes → Bytes → Bool
  | [], _ => false
  | label :: labels, key =>
      let key := key ++ label ++ [dot]
      if contains key then true else heapScan contains labels key

def suffixMatchHeap (contains : Bytes → Bool) (domain : String) : Bool :=
  heapScan contains (labelsOf domain).reverse []

/-- `suffix_match_zero_alloc`, with the set given by its `contains`. -/
def suffixMatchZeroAlloc (contains : Bytes → Bool) (domain : String) : Run Empty Bool := do
  let bytes := octets domain
  if bytes.isEmpty then return false
  else
    match ← collectStarts (List.replicate 128 0) 1 0 bytes with
    | none => return suffixMatchHeap contains domain
    | some (starts, nLabels) =>
        match ← stackScan contains bytes starts nLabels nLabels (List.replicate 256 0) 0 with
        | none => return suffixMatchHeap contains domain
        | some found => return found

/-- `domain.contains(keyword)`. -/
def containsText (domain keyword : String) : Bool :=
  decide (octets keyword <:+: octets domain)

/-- `if let Some(fst) = &stored { fst.contains(key) }`. -/
def holds (stored : Option F.Set) (key : Bytes) : Bool :=
  match stored with
  | some fst => F.contains fst key
  | none => false

/-- `if let Some(fst) = &stored { suffix_match_zero_alloc(fst, domain) }`. -/
def holdsSuffix (stored : Option F.Set) (domain : String) : Run Empty Bool :=
  match stored with
  | some fst => suffixMatchZeroAlloc (F.contains fst) domain
  | none => .ok false

/-- `if let Some(re) = &set { re.is_match(text) }`. -/
def accepts (set : Option R.RegexSet) (text : String) : Bool :=
  match set with
  | some re => R.isMatchSet re text
  | none => false

variable {F R}

/-- `domain_is_excluded`. -/
def DrsFile.domainIsExcluded (drs : DrsFile F R) (domain : String) : Run Empty Bool := do
  if holds F drs.excludeDomainFst (octets domain) then return true
  else
    let suffix ← holdsSuffix F drs.excludeSuffixFst domain
    if suffix then return true
    else return accepts R drs.excludeRegexes domain

/-- `matches_normalized`. -/
def DrsFile.matchesNormalized (drs : DrsFile F R) (domain : String) :
    Run Empty (Option MatchResult) := do
  let excluded ← drs.domainIsExcluded domain
  if excluded then return none
  else if drs.hasDomainMatchers && holds F drs.domainFst (octets domain) then
    return some .domain
  else
    let suffix ← (if drs.hasSuffixMatchers then holdsSuffix F drs.suffixFst domain else .ok false)
    if suffix then return some .domainSuffix
    else if drs.hasKeywordMatchers && drs.keywords.any (containsText domain) then
      return some .domainKeyword
    else if drs.hasRegexMatchers && accepts R drs.regexes domain then
      return some .domainRegex
    else return none

/-- `matches`: nothing without a matcher for domains, else the normalised
domain is matched. -/
def DrsFile.matches (drs : DrsFile F R) (domain : String) : Run Empty (Option MatchResult) :=
  if !drs.hasDomainMatchers && !drs.hasSuffixMatchers && !drs.hasKeywordMatchers &&
      !drs.hasRegexMatchers then .ok none
  else
    let trimmed := trimEndDots domain
    if trimmed.toList.any Char.isUpper then drs.matchesNormalized (toAsciiLowercase trimmed)
    else drs.matchesNormalized trimmed

/-- `binary_search_range`: the loop over the indices from `lo` on, below `hi`. -/
def binarySearchRange {w : Nat} (ranges : List (BitVec w × BitVec w)) (v : BitVec w)
    (lo hi : Nat) : Run Empty Bool :=
  if lo < hi then
    let mid := lo + (hi - lo) / 2
    match ranges[mid]? with
    | none => panicked
    | some (s, e) =>
        if v < s then binarySearchRange ranges v lo mid
        else if e < v then binarySearchRange ranges v (mid + 1) hi
        else .ok true
  else .ok false
termination_by hi - lo

/-- `ip.to_ipv4_mapped()`, for the addresses `::ffff:a.b.c.d`. -/
def toIpv4Mapped (v6 : BitVec 128) : Option (BitVec 32) :=
  if v6.toNat / 2 ^ 32 = 0xffff then some (v6.setWidth 32) else none

/-- `matches_ip`; an address is given by its version. -/
def DrsFile.matchesIp (drs : DrsFile F R) (ip : BitVec 32 ⊕ BitVec 128) :
    Run Empty (Option MatchResult) :=
  if !drs.hasIpMatchers then .ok none
  else
    let inIpv4 (v : BitVec 32) : Run Empty (Option MatchResult) := do
      let found ← binarySearchRange drs.ipv4Ranges v 0 drs.ipv4Ranges.length
      return if found then some .ipv4Cidr else none
    match ip with
    | .inl v4 => inIpv4 v4
    | .inr v6 =>
        match toIpv4Mapped v6 with
        | some v4 => inIpv4 v4
        | none => do
            let found ← binarySearchRange drs.ipv6Ranges v6 0 drs.ipv6Ranges.length
            return if found then some .ipv6Cidr else none

/-- `matches_port`. -/
def DrsFile.matchesPort (drs : DrsFile F R) (port : BitVec 16) : Bool :=
  if !drs.hasPortMatchers then false
  else drs.ports.any fun range => decide (range.1 ≤ port) && decide (port ≤ range.2)

/-! ### Writing -/

/-- `builder.rs` collects the entries in these ten buckets and passes them to
`write_v2` as slices, in this order. -/
structure EntryBuckets where
  domains : List String := []
  suffixes : List String := []
  keywords : List String := []
  regexes : List String := []
  ipv4Cidrs : List (BitVec 32 × UInt8) := []
  ipv6Cidrs : List (BitVec 128 × UInt8) := []
  ports : List (BitVec 16 × BitVec 16) := []
  excludeDomains : List String := []
  excludeSuffixes : List String := []
  excludeRegexes : List String := []
  deriving DecidableEq, Repr

structure BuildStats where
  domainCount : BitVec 32
  suffixCount : BitVec 32
  keywordCount : BitVec 32
  regexCount : BitVec 32
  ipv4CidrCount : BitVec 32
  ipv6CidrCount : BitVec 32
  portCount : BitVec 32
  excludeDomainCount : BitVec 32
  excludeSuffixCount : BitVec 32
  excludeRegexCount : BitVec 32
  deriving DecidableEq, Repr

/-- `suffix_to_fst_key`: the labels from last to first, and a final dot. -/
def suffixToFstKey (suffix : String) : Bytes :=
  [dot].intercalate (labelsOf suffix).reverse ++ [dot]

/-- `sort_unstable` and `dedup` of the keys, in byte order. -/
def sortedKeys (keys : List Bytes) : List Bytes :=
  (keys.mergeSort (fun a b => decide (a ≤ b))).destutter (· ≠ ·)

variable (F)

/-- `validate_domain_len(k)?; builder.insert(k)?`. -/
def insertKey (builder : F.Builder) (key : Bytes) : Except DrsError F.Builder := do
  validateDomainLen key
  (F.insert builder key).mapError .invalidFst

/-- `build_set_fst`: the section and the number of keys as a `u32`. -/
def buildSetFst (keys : List Bytes) : Except DrsError (Bytes × BitVec 32) := do
  if keys.isEmpty then return ([], 0)
  else
    let sorted := sortedKeys keys
    let builder ← sorted.foldlM (insertKey F) F.memory
    let bytes ← (F.intoInner builder).mapError .invalidFst
    return (bytes, BitVec.ofNat 32 sorted.length)

/-- One string record; its length byte is `s.len() as u8`. -/
def encodeString (s : String) : Bytes := prefixed (octets s)

/-- `build_string_section`: strings of more than 255 bytes are skipped. -/
def buildStringSection (items : List String) : Bytes × BitVec 32 :=
  let kept := items.filter (fun s => decide ((octets s).length ≤ 255))
  (kept.flatMap encodeString, BitVec.ofNat 32 kept.length)

def encodeIpv4 (cidr : BitVec 32 × UInt8) : Bytes := toLe 4 cidr.1 ++ [cidr.2]
def encodeIpv6 (cidr : BitVec 128 × UInt8) : Bytes := toBe 16 cidr.1 ++ [cidr.2]
def encodePort (port : BitVec 16 × BitVec 16) : Bytes := toLe 2 port.1 ++ toLe 2 port.2

/-- `build_ipv4_section`, `build_ipv6_section` and `build_port_section`: the
entries back to back, and their number as a `u32`. -/
def buildFixedSection {α : Type} (encode : α → Bytes) (entries : List α) : Bytes × BitVec 32 :=
  (entries.flatMap encode, BitVec.ofNat 32 entries.length)

def buildIpv4Section : List (BitVec 32 × UInt8) → Bytes × BitVec 32 :=
  buildFixedSection encodeIpv4

def buildIpv6Section : List (BitVec 128 × UInt8) → Bytes × BitVec 32 :=
  buildFixedSection encodeIpv6

def buildPortSection : List (BitVec 16 × BitVec 16) → Bytes × BitVec 32 :=
  buildFixedSection encodePort

/-- A section to be written: its bytes with the count for its header. -/
structure Section where
  ty : SectionType
  count : BitVec 32
  bytes : Bytes
  deriving DecidableEq, Repr

/-- Header and bytes of a section, with `bytes.len() as u32`. -/
def Section.encode (s : Section) : Bytes :=
  writeSectionHeader s.ty s.count (BitVec.ofNat 32 s.bytes.length) ++ s.bytes

/-- The ten sections `write_v2` builds before it writes anything, in the
order in which it writes those that are not empty. -/
def buildSections (b : EntryBuckets) : Except DrsError (List Section) := do
  let (domainBytes, domainCount) ← buildSetFst F (b.domains.map octets)
  let (suffixBytes, suffixCount) ← buildSetFst F (b.suffixes.map suffixToFstKey)
  let (kwBytes, kwCount) := buildStringSection b.keywords
  let (reBytes, reCount) := buildStringSection b.regexes
  let (exDomBytes, exDomCount) ← buildSetFst F (b.excludeDomains.map octets)
  let (exSufBytes, exSufCount) ← buildSetFst F (b.excludeSuffixes.map suffixToFstKey)
  let (exReBytes, exReCount) := buildStringSection b.excludeRegexes
  let (v4Bytes, v4Count) := buildIpv4Section b.ipv4Cidrs
  let (v6Bytes, v6Count) := buildIpv6Section b.ipv6Cidrs
  let (portBytes, portCount) := buildPortSection b.ports
  return [
    ⟨.domainFst, domainCount, domainBytes⟩,
    ⟨.domainSuffixFst, suffixCount, suffixBytes⟩,
    ⟨.domainKeyword, kwCount, kwBytes⟩,
    ⟨.domainRegex, reCount, reBytes⟩,
    ⟨.ipCidrV4, v4Count, v4Bytes⟩,
    ⟨.ipCidrV6, v6Count, v6Bytes⟩,
    ⟨.port, portCount, portBytes⟩,
    ⟨.excludeDomainFst, exDomCount, exDomBytes⟩,
    ⟨.excludeSuffixFst, exSufCount, exSufBytes⟩,
    ⟨.excludeDomainRegex, exReCount, exReBytes⟩]

/-- `if !bytes.is_empty()`. -/
def Section.isWritten (s : Section) : Bool := !s.bytes.isEmpty

/-- The count `write_v2` reports for a section type. -/
def countOf (sections : List Section) (ty : SectionType) : BitVec 32 :=
  ((sections.find? (fun s => s.ty = ty)).map Section.count).getD 0

def BuildStats.ofSections (sections : List Section) : BuildStats where
  domainCount := countOf sections .domainFst
  suffixCount := countOf sections .domainSuffixFst
  keywordCount := countOf sections .domainKeyword
  regexCount := countOf sections .domainRegex
  ipv4CidrCount := countOf sections .ipCidrV4
  ipv6CidrCount := countOf sections .ipCidrV6
  portCount := countOf sections .port
  excludeDomainCount := countOf sections .excludeDomainFst
  excludeSuffixCount := countOf sections .excludeSuffixFst
  excludeRegexCount := countOf sections .excludeDomainRegex

/-- The v2 file header. -/
def encodeHeader (buildTime : BitVec 64) (sourceHash : Vector UInt8 32)
    (sectionCount : BitVec 32) : Bytes :=
  MAGIC ++ [VERSION_V2, 0] ++ toLe 8 buildTime ++ sourceHash.toList ++ toLe 4 sectionCount ++
    [0, 0, 0, 0]

/-- `DrsFile::write_v2` into a writer that accepts every write: the bytes it
has written when it returns `Ok`. Every error of its own is raised before the
first write; `now` is the clock in seconds. -/
def writeV2 (now : BitVec 64) (b : EntryBuckets) (sourceHash : Vector UInt8 32) :
    Except DrsError (Bytes × BuildStats) := do
  let sections ← buildSections F b
  let written := sections.filter Section.isWritten
  let header := encodeHeader now sourceHash (BitVec.ofNat 32 written.length)
  return (header ++ written.flatMap Section.encode, BuildStats.ofSections sections)

end Relay.Ruleset
