import Mathlib.Data.List.Perm.Basic
import Relay.Dns.Message

/-!
The configuration of `config.rs` in its normalised form. Paths are strings.
-/

namespace Relay

open Binary Dns

/-- `IndexMap`: unique keys, and the entries in the order of insertion. -/
structure IndexMap (α : Type) where
  entries : List (String × α) := []
  nodup : (entries.map Prod.fst).Nodup := by simp

variable {α : Type}

def IndexMap.empty : IndexMap α := {}

def IndexMap.get (m : IndexMap α) (key : String) : Option α :=
  (m.entries.find? fun entry => entry.1 = key).map Prod.snd

def IndexMap.containsKey (m : IndexMap α) (key : String) : Bool :=
  m.entries.any fun entry => entry.1 = key

def IndexMap.values (m : IndexMap α) : List α := m.entries.map Prod.snd

/-- `==` of two maps: the same entries, in any order. -/
def IndexMap.Same (m m' : IndexMap α) : Prop := m.entries.Perm m'.entries

instance [DecidableEq α] (m m' : IndexMap α) : Decidable (m.Same m') :=
  inferInstanceAs (Decidable (m.entries.Perm m'.entries))

theorem IndexMap.Same.refl (m : IndexMap α) : m.Same m := List.Perm.refl _

theorem IndexMap.Same.symm {m m' : IndexMap α} (h : m.Same m') : m'.Same m := List.Perm.symm h

theorem IndexMap.Same.trans {m m' m'' : IndexMap α} (h : m.Same m') (h' : m'.Same m'') :
    m.Same m'' := List.Perm.trans h h'

inductive LogLevel where
  | off
  | error
  | warn
  | info
  | debug
  deriving DecidableEq, Repr

inductive IpStrategy where
  | default
  | onlyIpv4
  | onlyIpv6
  | preferIpv4
  | preferIpv6
  deriving DecidableEq, Repr

inductive Strategy where
  | roundRobin
  | fastest
  deriving DecidableEq, Repr

/-- `config::UpstreamGroup`. -/
structure UpstreamGroupCfg where
  servers : List String
  strategy : Strategy := .roundRobin
  insecure : Bool := false
  clientSubnet : Option String := none
  deriving DecidableEq, Repr

/-- `Path::components`, which `==` of two paths compares: repeated and trailing
slashes and every `.` but one at the front are left out. -/
def pathComponents (path : String) : List String :=
  match (path.toList.splitOn '/').map String.ofList with
  | [] => []
  | first :: rest =>
      (if first ≠ "" then [first] else if rest = [] then [] else ["/"]) ++
        rest.filter fun piece => piece ≠ "" ∧ piece ≠ "."

example : pathComponents "/etc//relay/./ads.drs" = pathComponents "/etc/relay/ads.drs/" := by
  decide

structure RulesetEntry where
  path : String
  upstream : String
  deriving DecidableEq, Repr

/-- What `==` of two entries compares. -/
def RulesetEntry.parts (entry : RulesetEntry) : List String × String :=
  (pathComponents entry.path, entry.upstream)

structure CacheConfig where
  enable : Bool := true
  size : Nat := 4096
  minTtl : BitVec 32 := 60
  maxTtl : BitVec 32 := 86400
  deriving DecidableEq, Repr

structure FirewallConfig where
  enable : Bool := false
  backend : String := "auto"
  localhostHijack : Bool := true
  lanHijack : Bool := false
  lanCidr : Option String := none
  lanInterface : Option String := none
  deriving DecidableEq, Repr

structure StaticLease where
  mac : String
  ip : BitVec 32
  hostname : Option String := none
  deriving DecidableEq, Repr

structure DhcpV4Config where
  enable : Bool := false
  interface : String
  range : BitVec 32 × BitVec 32
  leaseTime : String := "24h"
  subnet : BitVec 32 := 0xffffff00
  gateway : BitVec 32
  dns : List (BitVec 32)
  domain : Option String := none
  leaseFile : String := "/var/lib/relay/dhcp4.leases"
  arpProbe : Bool := true
  staticLeases : List StaticLease := []
  deriving DecidableEq, Repr

inductive DhcpV6Mode where
  | stateless
  | stateful
  deriving DecidableEq, Repr

structure DhcpV6Config where
  enable : Bool := false
  interface : String
  mode : DhcpV6Mode := .stateless
  netPrefix : Option String := none
  dns : List (BitVec 128)
  domain : Option String := none
  leaseFile : String := "/var/lib/relay/dhcp6.leases"
  leaseTime : String := "24h"
  deriving DecidableEq, Repr

structure RaConfig where
  enable : Bool := false
  interface : String
  preference : String := "high"
  interval : BitVec 32 := 30
  managed : Bool := false
  other : Bool := true
  routerLifetime : BitVec 16 := 1800
  rdnss : List (BitVec 128)
  dnsLifetime : BitVec 16 := 1800
  suppressOtherRouters : Bool := false
  deriving DecidableEq, Repr

structure DhcpConfig where
  v4 : Option DhcpV4Config := none
  v6 : Option DhcpV6Config := none
  ra : Option RaConfig := none
  deriving DecidableEq, Repr

/-- `WebAuthConfig`; `Default` leaves the username empty. -/
structure WebAuthConfig where
  enable : Bool := false
  username : String := ""
  passwordHash : String := ""
  deriving DecidableEq, Repr

structure WebConfig where
  enable : Bool := false
  listen : SocketAddr := ⟨.v4 0, 8087⟩
  queryLogSize : Nat := 5000
  sqlitePath : String := "/var/lib/relay/stats.db"
  webDir : Option String := none
  auth : WebAuthConfig := {}
  deriving DecidableEq, Repr

structure Config where
  logLevel : LogLevel := .info
  listen : SocketAddr
  manageResolvConf : Bool := false
  strategy : IpStrategy := .default
  defaultNameserver : List SocketAddr := []
  groups : IndexMap UpstreamGroupCfg
  rulesets : List RulesetEntry := []
  hosts : IndexMap IpAddr := .empty
  cache : CacheConfig := {}
  firewall : Option FirewallConfig := none
  dhcp : DhcpConfig := {}
  web : WebConfig := {}

/-- The fields a router is built from, as the program compares them. -/
def Config.SameRouting (c c' : Config) : Prop :=
  c.defaultNameserver = c'.defaultNameserver ∧ c.groups.Same c'.groups ∧
    c.rulesets.map RulesetEntry.parts = c'.rulesets.map RulesetEntry.parts ∧
    c.hosts.Same c'.hosts ∧ c.cache = c'.cache ∧ c.strategy = c'.strategy

instance (c c' : Config) : Decidable (c.SameRouting c') :=
  inferInstanceAs (Decidable (_ ∧ _))

theorem Config.SameRouting.refl (c : Config) : c.SameRouting c :=
  ⟨rfl, .refl _, rfl, .refl _, rfl, rfl⟩

theorem Config.SameRouting.symm {c c' : Config} (h : c.SameRouting c') : c'.SameRouting c := by
  obtain ⟨hns, hgroups, hrulesets, hhosts, hcache, hstrategy⟩ := h
  exact ⟨hns.symm, hgroups.symm, hrulesets.symm, hhosts.symm, hcache.symm, hstrategy.symm⟩

theorem Config.SameRouting.trans {c c' c'' : Config} (h : c.SameRouting c')
    (h' : c'.SameRouting c'') : c.SameRouting c'' := by
  obtain ⟨hns, hgroups, hrulesets, hhosts, hcache, hstrategy⟩ := h
  obtain ⟨hns', hgroups', hrulesets', hhosts', hcache', hstrategy'⟩ := h'
  exact ⟨hns.trans hns', hgroups.trans hgroups', hrulesets.trans hrulesets',
    hhosts.trans hhosts', hcache.trans hcache', hstrategy.trans hstrategy'⟩

end Relay
