import Relay.Text.Utf8

/-!
Constants, section types and section headers of the `.drs` format, as
`ruleset/format.rs` and `ruleset/error.rs` define them.
-/

namespace Relay.Ruleset

open Binary Text

/-- `DrsError`. Texts of other crates' errors are kept as strings, and the
domain of `domainTooLong` as its bytes, because the suffix keys it may hold
are built as bytes. -/
inductive DrsError where
  | parseError (line : Nat) (msg : String)
  | invalidCidr (raw reason : String)
  | invalidPort (raw : String)
  | invalidRegex (pattern err : String)
  | domainTooLong (domain : Bytes) (len : Nat)
  | badMagic (got : Bytes)
  | unsupportedVersion (version : UInt8)
  | unknownSection (code : UInt8)
  | truncated (expected got : Nat)
  | invalidUtf8
  | invalidFst (err : String)
  | loadedInvalidRegex (err : String)
  | io (err : String)
  | other (msg : String)
  deriving DecidableEq, Repr

/-- `b"DRS\0"`. -/
def MAGIC : Bytes := [0x44, 0x52, 0x53, 0x00]

def VERSION_V1 : UInt8 := 1
def VERSION_V2 : UInt8 := 2
def V1_HEADER_LEN : Nat := 54
def V2_HEADER_LEN : Nat := 54

inductive SectionType where
  | domain
  | domainSuffix
  | domainKeyword
  | domainRegex
  | domainFst
  | domainSuffixFst
  | excludeDomainFst
  | excludeSuffixFst
  | excludeDomainRegex
  | ipCidrV4
  | ipCidrV6
  | port
  deriving DecidableEq, Repr

/-- `ty as u8`. -/
def SectionType.code : SectionType → UInt8
  | .domain => 0x01
  | .domainSuffix => 0x02
  | .domainKeyword => 0x03
  | .domainRegex => 0x04
  | .domainFst => 0x05
  | .domainSuffixFst => 0x06
  | .excludeDomainFst => 0x07
  | .excludeSuffixFst => 0x08
  | .excludeDomainRegex => 0x09
  | .ipCidrV4 => 0x10
  | .ipCidrV6 => 0x11
  | .port => 0x20

def SectionType.fromU8 (b : UInt8) : Run DrsError SectionType :=
  match b with
  | 0x01 => .ok .domain
  | 0x02 => .ok .domainSuffix
  | 0x03 => .ok .domainKeyword
  | 0x04 => .ok .domainRegex
  | 0x05 => .ok .domainFst
  | 0x06 => .ok .domainSuffixFst
  | 0x07 => .ok .excludeDomainFst
  | 0x08 => .ok .excludeSuffixFst
  | 0x09 => .ok .excludeDomainRegex
  | 0x10 => .ok .ipCidrV4
  | 0x11 => .ok .ipCidrV6
  | 0x20 => .ok .port
  | other => fail (.unknownSection other)

@[simp] theorem SectionType.fromU8_code (ty : SectionType) :
    SectionType.fromU8 ty.code = .ok ty := by
  cases ty <;> rfl

/-- `write_section_header`: type, entry count and byte length. -/
def writeSectionHeader (ty : SectionType) (entryCount byteLen : BitVec 32) : Bytes :=
  ty.code :: (toLe 4 entryCount ++ toLe 4 byteLen)

@[simp] theorem writeSectionHeader_length (ty : SectionType) (entryCount byteLen : BitVec 32) :
    (writeSectionHeader ty entryCount byteLen).length = 9 := by
  simp [writeSectionHeader]

/-- `u32::from_le_bytes` of a slice that must be in range. -/
def readU32Le (data : Bytes) (offset : Nat) : Run DrsError (BitVec 32) := do
  let bytes ← slice data offset (offset + 4)
  return BitVec.ofNat 32 (ofLe bytes)

/-- `read_section_header`: the type, the entry count, the byte length and the
length of the header itself. -/
def readSectionHeader (data : Bytes) (offset : Nat) :
    Run DrsError (SectionType × BitVec 32 × BitVec 32 × Nat) := do
  let expected ← checkedAdd offset 9
  if data.length < expected then
    fail (.truncated expected data.length)
  else
    let ty ← SectionType.fromU8 (← byteAt data offset)
    let entryCount ← readU32Le data (offset + 1)
    let byteLen ← readU32Le data (offset + 5)
    return (ty, entryCount, byteLen, 9)

theorem readU32Le_of_drop {data back : Bytes} {x : BitVec 32} {offset : Nat}
    (h : data.drop offset = toLe 4 x ++ back) (hoffset : offset ≤ data.length) :
    readU32Le data offset = .ok x := by
  have hslice : slice data offset (offset + 4) = (.ok (toLe 4 x) : Run DrsError Bytes) := by
    simpa using slice_of_drop h hoffset
  simp [readU32Le, hslice, ofNat_ofLe_toLe 32 4 (by norm_num), pure,
    Except.pure]

/-- A written header is read back wherever it stands in the file. -/
theorem readSectionHeader_of_drop {data back : Bytes} {offset : Nat} {ty : SectionType}
    {entryCount byteLen : BitVec 32}
    (h : data.drop offset = writeSectionHeader ty entryCount byteLen ++ back)
    (hoffset : offset ≤ data.length) (hsmall : offset + 9 < 2 ^ 64) :
    readSectionHeader data offset = .ok (ty, entryCount, byteLen, 9) := by
  have hlen := congrArg List.length h
  simp only [List.length_drop, List.length_append, writeSectionHeader_length] at hlen
  have htype : byteAt data offset = (.ok ty.code : Run DrsError UInt8) :=
    byteAt_of_drop (by simpa [writeSectionHeader] using h)
  have hcount : data.drop (offset + 1) = toLe 4 entryCount ++ (toLe 4 byteLen ++ back) := by
    rw [← List.drop_drop, h]
    simp [writeSectionHeader]
  have hbytes : data.drop (offset + 5) = toLe 4 byteLen ++ back := by
    rw [show offset + 5 = offset + 1 + 4 by omega, ← List.drop_drop, hcount]
    rw [List.drop_left' (by simp)]
  unfold readSectionHeader
  rw [checkedAdd_ok hsmall, run_ok_bind, if_neg (by omega), htype]
  simp only [run_ok_bind, SectionType.fromU8_code]
  rw [readU32Le_of_drop hcount (by omega), readU32Le_of_drop hbytes (by omega)]
  rfl

/-- `validate_domain_len`: at most 253 bytes. -/
def validateDomainLen (domain : Bytes) : Except DrsError Unit :=
  if domain.length > 253 then .error (.domainTooLong domain domain.length) else .ok ()

end Relay.Ruleset
