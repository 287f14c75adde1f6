import Relay.Ruleset.Entry

/-!
The values that the rule list parsers share: addresses with a prefix and port
ranges, with the errors `ruleset/drs.rs` reports for them.
-/

namespace Relay.Ruleset

open Binary Dns Text

/-- `{:02x}`. -/
def hexByte (b : UInt8) : String :=
  String.ofList [Nat.digitChar (b.toNat / 16), Nat.digitChar (b.toNat % 16)]

/-- `DrsError::to_string`. -/
def DrsError.text : DrsError → String
  | .parseError line msg => "parse error at line " ++ toString line ++ ": " ++ msg
  | .invalidCidr raw reason => "invalid CIDR `" ++ raw ++ "`: " ++ reason
  | .invalidPort raw => "invalid port `" ++ raw ++ "`"
  | .invalidRegex pattern err => "invalid regex `" ++ pattern ++ "`: " ++ err
  | .domainTooLong domain len =>
      "domain too long (" ++ toString len ++ " bytes): `" ++ (fromUtf8 domain).getD "" ++ "`"
  | .badMagic got => "bad DRS magic bytes: got " ++ toString (got.map UInt8.toNat)
  | .unsupportedVersion version => "unsupported DRS version: " ++ toString version.toNat
  | .unknownSection code => "unknown section type: 0x" ++ hexByte code
  | .truncated expected got =>
      "truncated DRS data: expected " ++ toString expected ++ " bytes, got " ++ toString got
  | .invalidUtf8 => "invalid UTF-8 in DRS data"
  | .invalidFst err => "invalid FST data: " ++ err
  | .loadedInvalidRegex err => "loaded invalid regex: " ++ err
  | .io err => err
  | .other msg => msg

/-- `map_err(|e| ParseError { line, msg: e.to_string() })`. -/
def atLine {α : Type} (line : Nat) (action : Run DrsError α) : Run DrsError α :=
  action.mapError (Fault.map fun e => .parseError line e.text)

/-- `s.parse::<Ipv4Addr>()`. -/
def ipv4Addr (T : NetText) (s : String) : Option (BitVec 32) :=
  match T.ipAddr s with
  | some (.v4 addr) => some addr
  | _ => none

/-- `s.parse::<Ipv6Addr>()`. -/
def ipv6Addr (T : NetText) (s : String) : Option (BitVec 128) :=
  match T.ipAddr s with
  | some (.v6 addr) => some addr
  | _ => none

/-- `parse_ipv4_cidr` and `parse_ipv6_cidr`: the network address and the
prefix of a `w`-bit CIDR. -/
def parseCidr (w : Nat) (parseAddr : String → Option (BitVec w)) (s : String) :
    Run DrsError (BitVec w × UInt8) :=
  match splitOnce s "/" with
  | none => fail (.invalidCidr s "missing prefix length")
  | some (addrStr, prefixStr) =>
      match parseUnsigned 255 prefixStr with
      | none => fail (.invalidCidr s ("invalid prefix `" ++ prefixStr ++ "`"))
      | some bits =>
          if w < bits then fail (.invalidCidr s ("prefix > " ++ toString w))
          else
            match parseAddr addrStr with
            | none => fail (.invalidCidr s ("invalid addr `" ++ addrStr ++ "`"))
            | some addr => do
                let (start, _) ← cidrToRange w addr (UInt8.ofNat bits)
                return (start, UInt8.ofNat bits)

def parseIpv4Cidr (T : NetText) : String → Run DrsError (BitVec 32 × UInt8) :=
  parseCidr 32 (ipv4Addr T)

def parseIpv6Cidr (T : NetText) : String → Run DrsError (BitVec 128 × UInt8) :=
  parseCidr 128 (ipv6Addr T)

/-- `s.parse::<u16>()`, with the error for the text it is a part of. -/
def parsePort (whole s : String) : Run DrsError (BitVec 16) :=
  match parseUnsigned 65535 s with
  | some n => .ok (BitVec.ofNat 16 n)
  | none => fail (.invalidPort whole)

/-- `parse_port_range`: `80` or `8000-9000`. -/
def parsePortRange (s : String) : Run DrsError (BitVec 16 × BitVec 16) :=
  match splitOnce s "-" with
  | some (a, b) => do
      let start ← parsePort s a
      let finish ← parsePort s b
      if finish < start then fail (.invalidPort s) else return (start, finish)
  | none => do
      let port ← parsePort s s
      return (port, port)

/-- `RuleEntry::cidr_entry`. -/
def cidrEntry (addr : IpAddr) (bits : UInt8) (ruleType : EntryType) : RuleEntry :=
  { ruleType := ruleType, domain := "", cidr := some (addr, bits) }

/-- `RuleEntry::port_entry`. -/
def portEntry (start finish : BitVec 16) : RuleEntry :=
  { ruleType := .port, domain := "", port := some (start, finish) }

/-- The body that the two functions `push_cidr_str` share. -/
def pushCidr (T : NetText) (s : String) (line : Nat) (out : List RuleEntry) :
    Run DrsError (List RuleEntry) :=
  let s := trim s
  if s = "" then .ok out
  else if contains s ":" then do
    let (addr, bits) ← atLine line (parseIpv6Cidr T s)
    return out ++ [cidrEntry (.v6 addr) bits .ipv6Cidr]
  else do
    let (addr, bits) ← atLine line (parseIpv4Cidr T s)
    return out ++ [cidrEntry (.v4 addr) bits .ipv4Cidr]

end Relay.Ruleset
