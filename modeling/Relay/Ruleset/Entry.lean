import Relay.Dns.Message
import Relay.Ruleset.Drs
import Relay.Text.Str

/-!
The entries that the rule list parsers produce, and the buckets of
`builder.rs` that they are sorted into before a file is written.
-/

namespace Relay.Ruleset

open Binary Text

inductive EntryType where
  | domain
  | domainSuffix
  | domainKeyword
  | domainRegex
  | ipv4Cidr
  | ipv6Cidr
  | port
  | excludeDomain
  | excludeDomainSuffix
  | excludeDomainRegex
  deriving DecidableEq, Repr

/-- The three types of an exception. -/
def EntryType.isExclude : EntryType → Bool
  | .excludeDomain | .excludeDomainSuffix | .excludeDomainRegex => true
  | _ => false

structure RuleEntry where
  ruleType : EntryType
  domain : String
  cidr : Option (Dns.IpAddr × UInt8) := none
  port : Option (BitVec 16 × BitVec 16) := none

/-- `RuleEntry::domain_entry`. -/
def domainEntry (domain : String) (ruleType : EntryType) : RuleEntry :=
  { ruleType := ruleType, domain := domain }

/-- `looks_like_domain`. -/
def looksLikeDomain (s : String) : Bool :=
  s ≠ "" && decide ((octets s).length ≤ 253) && s.toList.head? != some '.' &&
    s.toList.getLast? != some '.' && s.toList.all fun c => c.isAlphanum || c == '.' || c == '-'

/-- The errors of `EntryBuckets::push`. -/
inductive PushError where
  | invalidRegex (pattern err : String)
  | other (message : String)
  deriving DecidableEq, Repr

/-- `Regex::new(pattern)`, with the error of `push`. -/
def checkRegex (R : RegexCrate) (pattern : String) : Except PushError Unit :=
  match R.compiles pattern with
  | .ok () => .ok ()
  | .error err => .error (.invalidRegex pattern err)

/-- `EntryBuckets::push`. -/
def EntryBuckets.push (R : RegexCrate) (b : EntryBuckets) (entry : RuleEntry) :
    Except PushError EntryBuckets :=
  match entry.ruleType with
  | .domain => .ok { b with domains := b.domains ++ [entry.domain] }
  | .domainSuffix => .ok { b with suffixes := b.suffixes ++ [entry.domain] }
  | .domainKeyword => .ok { b with keywords := b.keywords ++ [entry.domain] }
  | .domainRegex => do
      checkRegex R entry.domain
      return { b with regexes := b.regexes ++ [entry.domain] }
  | .ipv4Cidr =>
      match entry.cidr with
      | some (.v4 addr, pre) => .ok { b with ipv4Cidrs := b.ipv4Cidrs ++ [(addr, pre)] }
      | some (.v6 _, _) => .error (.other "Ipv4Cidr entry has IPv6 addr")
      | none => .ok b
  | .ipv6Cidr =>
      match entry.cidr with
      | some (.v6 addr, pre) => .ok { b with ipv6Cidrs := b.ipv6Cidrs ++ [(addr, pre)] }
      | some (.v4 _, _) => .error (.other "Ipv6Cidr entry has IPv4 addr")
      | none => .ok b
  | .port =>
      match entry.port with
      | some range => .ok { b with ports := b.ports ++ [range] }
      | none => .ok b
  | .excludeDomain => .ok { b with excludeDomains := b.excludeDomains ++ [entry.domain] }
  | .excludeDomainSuffix => .ok { b with excludeSuffixes := b.excludeSuffixes ++ [entry.domain] }
  | .excludeDomainRegex => do
      checkRegex R entry.domain
      return { b with excludeRegexes := b.excludeRegexes ++ [entry.domain] }

end Relay.Ruleset
