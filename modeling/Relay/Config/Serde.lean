import Mathlib.Data.String.Basic
import Relay.Config.Json
import Relay.Logic.Ordered

/-!
The whole configuration as JSON, the way its types derive it: what `to_value`
makes of it, and what `from_value` reads, with the defaults of the fields that
are missing. An object's fields are in the order of their names, so that maps
come back in that order.
-/

namespace Relay

open Binary Dns Logic Text

variable {α : Type}

/-! ### Values of the standard types -/

def jsonNat (n : Nat) : JsonValue := .number (some n) (toString n)

def jsonOption (json : α → JsonValue) : Option α → JsonValue
  | some a => json a
  | none => .null

def jsonList (json : α → JsonValue) (items : List α) : JsonValue := .array (items.map json)

def jsonMap (json : α → JsonValue) (m : IndexMap α) : JsonValue :=
  .object ((orderEntries m.entries).map fun entry => (entry.1, json entry.2))

/-- `IpAddr::to_string`. -/
def ipAddrText : IpAddr → String
  | .v4 addr => ipv4Text addr
  | .v6 addr => ipv6Text addr

def jsonIpv4 (addr : BitVec 32) : JsonValue := .string (ipv4Text addr)

def jsonIpv6 (addr : BitVec 128) : JsonValue := .string (ipv6Text addr)

def readNat : JsonValue → Option Nat
  | .number asU64 _ => asU64
  | _ => none

/-- `u16` and `u32`: a number that is too large is an error. -/
def readBits (w : Nat) (value : JsonValue) : Option (BitVec w) :=
  (readNat value).bind fun n => if n < 2 ^ w then some (BitVec.ofNat w n) else none

def readOption (read : JsonValue → Option α) : JsonValue → Option (Option α)
  | .null => some none
  | value => (read value).map some

def readList (read : JsonValue → Option α) (value : JsonValue) : Option (List α) :=
  value.asArray.bind fun items => items.mapM read

/-- A map's entries, in the order of the object's fields. -/
def readMap (read : JsonValue → Option α) : JsonValue → Option (IndexMap α)
  | .object fields =>
      fields.foldlM (fun m field => (read field.2).map (m.insert field.1)) .empty
  | _ => none

/-- A struct is read from an object. -/
def readStruct (read : JsonValue → Option α) : JsonValue → Option α
  | .object fields => read (.object fields)
  | _ => none

/-- An enumeration is read from a variant's name. -/
def readEnum (serdeName : α → String) (variants : List α) (value : JsonValue) : Option α :=
  value.asString.bind fun name => variants.find? fun variant => serdeName variant = name

section Addresses

variable (T : NetText)

def readSocketAddr (value : JsonValue) : Option SocketAddr := value.asString.bind T.socketAddr

def readIpAddr (value : JsonValue) : Option IpAddr := value.asString.bind T.ipAddr

/-- `Ipv4Addr::from_str` accepts what `IpAddr::from_str` takes for such an address. -/
def readIpv4 (value : JsonValue) : Option (BitVec 32) :=
  match readIpAddr T value with
  | some (.v4 addr) => some addr
  | _ => none

def readIpv6 (value : JsonValue) : Option (BitVec 128) :=
  match readIpAddr T value with
  | some (.v6 addr) => some addr
  | _ => none

/-- `[Ipv4Addr; 2]`. -/
def readRange : JsonValue → Option (BitVec 32 × BitVec 32)
  | .array [first, last] => do
      let first ← readIpv4 T first
      let last ← readIpv4 T last
      return (first, last)
  | _ => none

end Addresses

/-! ### Serialize -/

def LogLevel.serdeName : LogLevel → String
  | .off => "off"
  | .error => "error"
  | .warn => "warn"
  | .info => "info"
  | .debug => "debug"

def IpStrategy.serdeName : IpStrategy → String
  | .default => "default"
  | .onlyIpv4 => "only_ipv4"
  | .onlyIpv6 => "only_ipv6"
  | .preferIpv4 => "prefer_ipv4"
  | .preferIpv6 => "prefer_ipv6"

def DhcpV6Mode.serdeName : DhcpV6Mode → String
  | .stateless => "stateless"
  | .stateful => "stateful"

def CacheConfig.toJson (cache : CacheConfig) : JsonValue :=
  .object [("enable", .bool cache.enable), ("max-ttl", jsonNat cache.maxTtl.toNat),
    ("min-ttl", jsonNat cache.minTtl.toNat), ("size", jsonNat cache.size)]

def FirewallConfig.toJson (fw : FirewallConfig) : JsonValue :=
  .object [("backend", .string fw.backend), ("enable", .bool fw.enable),
    ("lan-cidr", jsonOption .string fw.lanCidr), ("lan-hijack", .bool fw.lanHijack),
    ("lan-interface", jsonOption .string fw.lanInterface),
    ("localhost-hijack", .bool fw.localhostHijack)]

def StaticLease.toJson (lease : StaticLease) : JsonValue :=
  .object [("hostname", jsonOption .string lease.hostname), ("ip", jsonIpv4 lease.ip),
    ("mac", .string lease.mac)]

def DhcpV4Config.toJson (v4 : DhcpV4Config) : JsonValue :=
  .object [("arp-probe", .bool v4.arpProbe), ("dns", jsonList jsonIpv4 v4.dns),
    ("domain", jsonOption .string v4.domain), ("enable", .bool v4.enable),
    ("gateway", jsonIpv4 v4.gateway), ("interface", .string v4.interface),
    ("lease-file", .string v4.leaseFile), ("lease-time", .string v4.leaseTime),
    ("range", .array [jsonIpv4 v4.range.1, jsonIpv4 v4.range.2]),
    ("static-leases", jsonList StaticLease.toJson v4.staticLeases),
    ("subnet", jsonIpv4 v4.subnet)]

def DhcpV6Config.toJson (v6 : DhcpV6Config) : JsonValue :=
  .object [("dns", jsonList jsonIpv6 v6.dns), ("domain", jsonOption .string v6.domain),
    ("enable", .bool v6.enable), ("interface", .string v6.interface),
    ("lease-file", .string v6.leaseFile), ("lease-time", .string v6.leaseTime),
    ("mode", .string v6.mode.serdeName), ("prefix", jsonOption .string v6.netPrefix)]

def RaConfig.toJson (ra : RaConfig) : JsonValue :=
  .object [("dns-lifetime", jsonNat ra.dnsLifetime.toNat), ("enable", .bool ra.enable),
    ("interface", .string ra.interface), ("interval", jsonNat ra.interval.toNat),
    ("managed", .bool ra.managed), ("other", .bool ra.other),
    ("preference", .string ra.preference), ("rdnss", jsonList jsonIpv6 ra.rdnss),
    ("router-lifetime", jsonNat ra.routerLifetime.toNat),
    ("suppress-other-routers", .bool ra.suppressOtherRouters)]

def DhcpConfig.toJson (dhcp : DhcpConfig) : JsonValue :=
  .object [("ra", jsonOption RaConfig.toJson dhcp.ra),
    ("v4", jsonOption DhcpV4Config.toJson dhcp.v4),
    ("v6", jsonOption DhcpV6Config.toJson dhcp.v6)]

/-- The fields of `web.auth`. -/
def WebAuthConfig.jsonFields (auth : WebAuthConfig) : List (String × JsonValue) :=
  [("enable", .bool auth.enable), ("password-hash", .string auth.passwordHash),
    ("username", .string auth.username)]

def WebAuthConfig.toJson (auth : WebAuthConfig) : JsonValue := .object auth.jsonFields

def WebConfig.toJson (web : WebConfig) : JsonValue :=
  .object [("auth", web.auth.toJson), ("enable", .bool web.enable),
    ("listen", .string (socketAddrText web.listen)), ("query-log-size", jsonNat web.queryLogSize),
    ("sqlite-path", .string web.sqlitePath), ("web-dir", jsonOption .string web.webDir)]

def Config.toJson (c : Config) : JsonValue :=
  .object [("cache", c.cache.toJson),
    ("default-nameserver", jsonList (fun addr => .string (socketAddrText addr)) c.defaultNameserver),
    ("dhcp", c.dhcp.toJson), ("firewall", jsonOption FirewallConfig.toJson c.firewall),
    ("groups", jsonMap UpstreamGroupCfg.toJson c.groups),
    ("hosts", jsonMap (fun ip => .string (ipAddrText ip)) c.hosts),
    ("listen", .string (socketAddrText c.listen)), ("log-level", .string c.logLevel.serdeName),
    ("manage-resolv-conf", .bool c.manageResolvConf),
    ("rulesets", jsonList RulesetEntry.toJson c.rulesets),
    ("strategy", .string c.strategy.serdeName), ("web", c.web.toJson)]

/-! ### Deserialize -/

open JsonValue (field)

def readLogLevel : JsonValue → Option LogLevel :=
  readEnum LogLevel.serdeName [.off, .error, .warn, .info, .debug]

def readIpStrategy : JsonValue → Option IpStrategy :=
  readEnum IpStrategy.serdeName [.default, .onlyIpv4, .onlyIpv6, .preferIpv4, .preferIpv6]

def readDhcpV6Mode : JsonValue → Option DhcpV6Mode :=
  readEnum DhcpV6Mode.serdeName [.stateless, .stateful]

def CacheConfig.fromJson : JsonValue → Option CacheConfig := readStruct fun value => do
  let enable ← field value "enable" (some true) JsonValue.asBool
  let size ← field value "size" (some 4096) readNat
  let minTtl ← field value "min-ttl" (some 60) (readBits 32)
  let maxTtl ← field value "max-ttl" (some 86400) (readBits 32)
  return { enable, size, minTtl, maxTtl }

def FirewallConfig.fromJson : JsonValue → Option FirewallConfig := readStruct fun value => do
  let enable ← field value "enable" (some false) JsonValue.asBool
  let backend ← field value "backend" (some "auto") JsonValue.asString
  let localhostHijack ← field value "localhost-hijack" (some true) JsonValue.asBool
  let lanHijack ← field value "lan-hijack" (some false) JsonValue.asBool
  let lanCidr ← field value "lan-cidr" (some none) (readOption JsonValue.asString)
  let lanInterface ← field value "lan-interface" (some none) (readOption JsonValue.asString)
  return { enable, backend, localhostHijack, lanHijack, lanCidr, lanInterface }

def WebAuthConfig.fromJson : JsonValue → Option WebAuthConfig := readStruct fun value => do
  let enable ← field value "enable" (some false) JsonValue.asBool
  let username ← field value "username" (some "admin") JsonValue.asString
  let passwordHash ← field value "password-hash" (some "") JsonValue.asString
  return { enable, username, passwordHash }

section Addresses

variable (T : NetText)

def StaticLease.fromJson : JsonValue → Option StaticLease := readStruct fun value => do
  let mac ← field value "mac" none JsonValue.asString
  let ip ← field value "ip" none (readIpv4 T)
  let hostname ← field value "hostname" (some none) (readOption JsonValue.asString)
  return { mac, ip, hostname }

def DhcpV4Config.fromJson : JsonValue → Option DhcpV4Config := readStruct fun value => do
  let enable ← field value "enable" (some false) JsonValue.asBool
  let interface ← field value "interface" none JsonValue.asString
  let range ← field value "range" none (readRange T)
  let leaseTime ← field value "lease-time" (some "24h") JsonValue.asString
  let subnet ← field value "subnet" (some 0xffffff00) (readIpv4 T)
  let gateway ← field value "gateway" none (readIpv4 T)
  let dns ← field value "dns" none (readList (readIpv4 T))
  let domain ← field value "domain" (some none) (readOption JsonValue.asString)
  let leaseFile ← field value "lease-file" (some "/var/lib/relay/dhcp4.leases") JsonValue.asString
  let arpProbe ← field value "arp-probe" (some true) JsonValue.asBool
  let staticLeases ← field value "static-leases" (some []) (readList (StaticLease.fromJson T))
  return { enable, interface, range, leaseTime, subnet, gateway, dns, domain, leaseFile, arpProbe,
           staticLeases }

def DhcpV6Config.fromJson : JsonValue → Option DhcpV6Config := readStruct fun value => do
  let enable ← field value "enable" (some false) JsonValue.asBool
  let interface ← field value "interface" none JsonValue.asString
  let mode ← field value "mode" (some .stateless) readDhcpV6Mode
  let netPrefix ← field value "prefix" (some none) (readOption JsonValue.asString)
  let dns ← field value "dns" none (readList (readIpv6 T))
  let domain ← field value "domain" (some none) (readOption JsonValue.asString)
  let leaseFile ← field value "lease-file" (some "/var/lib/relay/dhcp6.leases") JsonValue.asString
  let leaseTime ← field value "lease-time" (some "24h") JsonValue.asString
  return { enable, interface, mode, netPrefix, dns, domain, leaseFile, leaseTime }

def RaConfig.fromJson : JsonValue → Option RaConfig := readStruct fun value => do
  let enable ← field value "enable" (some false) JsonValue.asBool
  let interface ← field value "interface" none JsonValue.asString
  let preference ← field value "preference" (some "high") JsonValue.asString
  let interval ← field value "interval" (some 30) (readBits 32)
  let managed ← field value "managed" (some false) JsonValue.asBool
  let other ← field value "other" (some true) JsonValue.asBool
  let routerLifetime ← field value "router-lifetime" (some 1800) (readBits 16)
  let rdnss ← field value "rdnss" none (readList (readIpv6 T))
  let dnsLifetime ← field value "dns-lifetime" (some 1800) (readBits 16)
  let suppressOtherRouters ← field value "suppress-other-routers" (some false) JsonValue.asBool
  return { enable, interface, preference, interval, managed, other, routerLifetime, rdnss,
           dnsLifetime, suppressOtherRouters }

def DhcpConfig.fromJson : JsonValue → Option DhcpConfig := readStruct fun value => do
  let v4 ← field value "v4" (some none) (readOption (DhcpV4Config.fromJson T))
  let v6 ← field value "v6" (some none) (readOption (DhcpV6Config.fromJson T))
  let ra ← field value "ra" (some none) (readOption (RaConfig.fromJson T))
  return { v4, v6, ra }

def WebConfig.fromJson : JsonValue → Option WebConfig := readStruct fun value => do
  let enable ← field value "enable" (some false) JsonValue.asBool
  let listen ← field value "listen" (some ⟨.v4 0, 8087⟩) (readSocketAddr T)
  let queryLogSize ← field value "query-log-size" (some 5000) readNat
  let sqlitePath ← field value "sqlite-path" (some "/var/lib/relay/stats.db") JsonValue.asString
  let webDir ← field value "web-dir" (some none) (readOption JsonValue.asString)
  let auth ← field value "auth" (some {}) WebAuthConfig.fromJson
  return { enable, listen, queryLogSize, sqlitePath, webDir, auth }

def Config.fromJson : JsonValue → Option Config := readStruct fun value => do
  let logLevel ← field value "log-level" (some .info) readLogLevel
  let listen ← field value "listen" none (readSocketAddr T)
  let manageResolvConf ← field value "manage-resolv-conf" (some false) JsonValue.asBool
  let strategy ← field value "strategy" (some .default) readIpStrategy
  let defaultNameserver ← field value "default-nameserver" (some []) (readList (readSocketAddr T))
  let groups ← field value "groups" none (readMap UpstreamGroupCfg.fromJson)
  let rulesets ← field value "rulesets" (some []) (readList RulesetEntry.fromJson)
  let hosts ← field value "hosts" (some .empty) (readMap (readIpAddr T))
  let cache ← field value "cache" (some {}) CacheConfig.fromJson
  let firewall ← field value "firewall" (some none) (readOption FirewallConfig.fromJson)
  let dhcp ← field value "dhcp" (some {}) (DhcpConfig.fromJson T)
  let web ← field value "web" (some {}) (WebConfig.fromJson T)
  return { logLevel, listen, manageResolvConf, strategy, defaultNameserver, groups, rulesets, hosts,
           cache, firewall, dhcp, web }

end Addresses

/-! ### Read back -/

section Values

@[simp] theorem field_cons (name name' : String) (value : JsonValue)
    (fields : List (String × JsonValue)) (missing : Option α) (read : JsonValue → Option α) :
    field (.object ((name', value) :: fields)) name missing read =
      if name' = name then read value else field (.object fields) name missing read := by
  by_cases h : name' = name
  · simp [field, JsonValue.get, h]
  · simp [field, JsonValue.get, h]

@[simp] theorem readStruct_object (read : JsonValue → Option α)
    (fields : List (String × JsonValue)) :
    readStruct read (.object fields) = read (.object fields) := rfl

@[simp] theorem asString_string (s : String) : JsonValue.asString (.string s) = some s := rfl

@[simp] theorem asBool_bool (b : Bool) : JsonValue.asBool (.bool b) = some b := rfl

@[simp] theorem readNat_jsonNat (n : Nat) : readNat (jsonNat n) = some n := rfl

@[simp] theorem readBits_jsonNat {w : Nat} (x : BitVec w) :
    readBits w (jsonNat x.toNat) = some x := by
  rw [readBits, readNat_jsonNat, Option.bind_some, if_pos x.isLt, BitVec.ofNat_toNat,
    BitVec.setWidth_eq]

@[simp] theorem readLogLevel_serdeName (level : LogLevel) :
    readLogLevel (.string level.serdeName) = some level := by
  cases level <;> rfl

@[simp] theorem readIpStrategy_serdeName (strategy : IpStrategy) :
    readIpStrategy (.string strategy.serdeName) = some strategy := by
  cases strategy <;> rfl

@[simp] theorem readDhcpV6Mode_serdeName (mode : DhcpV6Mode) :
    readDhcpV6Mode (.string mode.serdeName) = some mode := by
  cases mode <;> rfl

variable {read : JsonValue → Option α} {json : α → JsonValue}

/-- Nothing else is written as `null`. -/
theorem readOption_jsonOption {a : Option α} (hnull : read .null = none)
    (h : ∀ x ∈ a, read (json x) = some x) : readOption read (jsonOption json a) = some a := by
  cases a with
  | none => rfl
  | some x =>
      have hx := h x rfl
      unfold jsonOption readOption
      dsimp only
      split
      · rename_i hjson
        rw [hjson, hnull] at hx
        cases hx
      · rw [hx, Option.map_some]

@[simp] theorem readOption_string (a : Option String) :
    readOption JsonValue.asString (jsonOption .string a) = some a :=
  readOption_jsonOption rfl fun _ _ => rfl

theorem readList_jsonList {items : List α} (h : ∀ x ∈ items, read (json x) = some x) :
    readList read (jsonList json items) = some items := by
  change (items.map json).mapM read = some items
  induction items with
  | nil => rfl
  | cons x items ih =>
      have hrest := ih fun other hother => h other (List.mem_cons_of_mem x hother)
      rw [List.map_cons, List.mapM_cons, h x List.mem_cons_self, hrest]
      rfl

/-- A map comes back with its entries in order. -/
theorem readMap_jsonMap {m : IndexMap α}
    (h : ∀ entry ∈ m.entries, read (json entry.2) = some entry.2) :
    ∃ m', readMap read (jsonMap json m) = some m' ∧ m'.Same m := by
  obtain ⟨_, hperm⟩ := orderEntries_spec m.nodup
  have hids : (orderEntries m.entries).map id = orderEntries m.entries := List.map_id _
  have hstep : ∀ map : IndexMap α, ∀ entry ∈ orderEntries m.entries,
      map.containsKey entry.1 = false →
      (read (json entry.2)).map (map.insert entry.1) = pure (map.insert entry.1 entry.2) := by
    intro map entry hentry _
    rw [h entry (hperm.mem_iff.mp hentry)]
    rfl
  have hnodup : ((IndexMap.empty.entries ++ (orderEntries m.entries).map id).map
      Prod.fst).Nodup := by
    rw [hids]
    exact (hperm.map Prod.fst).symm.nodup m.nodup
  obtain ⟨m', hread, hm'⟩ := IndexMap.foldlM_insert hstep hnodup
  refine ⟨m', ?_, ?_⟩
  · unfold readMap jsonMap
    dsimp only
    rw [List.foldlM_map]
    exact hread
  · rw [IndexMap.Same, hm']
    exact (List.Perm.of_eq hids).trans hperm

/-- Maps that are equal are written as one object. -/
theorem jsonMap_congr (json : α → JsonValue) {m m' : IndexMap α} (h : m.Same m') :
    jsonMap json m = jsonMap json m' := by
  rw [jsonMap, jsonMap, orderEntries_congr m.nodup h]

end Values

theorem CacheConfig.fromJson_toJson (cache : CacheConfig) :
    CacheConfig.fromJson cache.toJson = some cache := by
  unfold CacheConfig.fromJson CacheConfig.toJson
  rw [readStruct_object]
  simp

theorem FirewallConfig.fromJson_toJson (fw : FirewallConfig) :
    FirewallConfig.fromJson fw.toJson = some fw := by
  unfold FirewallConfig.fromJson FirewallConfig.toJson
  rw [readStruct_object]
  simp

theorem WebAuthConfig.fromJson_toJson (auth : WebAuthConfig) :
    WebAuthConfig.fromJson auth.toJson = some auth := by
  unfold WebAuthConfig.fromJson WebAuthConfig.toJson WebAuthConfig.jsonFields
  rw [readStruct_object]
  simp

section Addresses

variable {T : NetText}

/-- The text of an address is read back as that address. -/
def ReadsSocketAddr (T : NetText) (addr : SocketAddr) : Prop :=
  T.socketAddr (socketAddrText addr) = some addr

def ReadsIpAddr (T : NetText) (ip : IpAddr) : Prop := T.ipAddr (ipAddrText ip) = some ip

instance (T : NetText) (addr : SocketAddr) : Decidable (ReadsSocketAddr T addr) :=
  inferInstanceAs (Decidable (_ = _))

instance (T : NetText) (ip : IpAddr) : Decidable (ReadsIpAddr T ip) :=
  inferInstanceAs (Decidable (_ = _))

theorem readIpv4_jsonIpv4 {addr : BitVec 32} (h : ReadsIpAddr T (.v4 addr)) :
    readIpv4 T (jsonIpv4 addr) = some addr := by
  have hread : readIpAddr T (jsonIpv4 addr) = some (.v4 addr) := h
  rw [readIpv4, hread]

theorem readIpv6_jsonIpv6 {addr : BitVec 128} (h : ReadsIpAddr T (.v6 addr)) :
    readIpv6 T (jsonIpv6 addr) = some addr := by
  have hread : readIpAddr T (jsonIpv6 addr) = some (.v6 addr) := h
  rw [readIpv6, hread]

theorem StaticLease.fromJson_toJson {lease : StaticLease} (h : ReadsIpAddr T (.v4 lease.ip)) :
    StaticLease.fromJson T lease.toJson = some lease := by
  unfold StaticLease.fromJson StaticLease.toJson
  rw [readStruct_object]
  simp [readIpv4_jsonIpv4 h]

/-- The addresses of a DHCP server's settings. -/
def DhcpV4Config.addrs (v4 : DhcpV4Config) : List (BitVec 32) :=
  [v4.range.1, v4.range.2, v4.subnet, v4.gateway] ++ v4.dns ++ v4.staticLeases.map StaticLease.ip

theorem DhcpV4Config.fromJson_toJson {v4 : DhcpV4Config}
    (h : ∀ addr ∈ v4.addrs, ReadsIpAddr T (.v4 addr)) :
    DhcpV4Config.fromJson T v4.toJson = some v4 := by
  have haddr : ∀ addr ∈ v4.addrs, readIpv4 T (jsonIpv4 addr) = some addr :=
    fun addr hmem => readIpv4_jsonIpv4 (h addr hmem)
  have hdns : readList (readIpv4 T) (jsonList jsonIpv4 v4.dns) = some v4.dns :=
    readList_jsonList fun addr hmem => haddr addr (by simp [DhcpV4Config.addrs, hmem])
  have hleases : readList (StaticLease.fromJson T) (jsonList StaticLease.toJson v4.staticLeases) =
      some v4.staticLeases := by
    apply readList_jsonList
    intro lease hmem
    apply StaticLease.fromJson_toJson
    apply h
    exact List.mem_append_right _ (List.mem_map_of_mem hmem)
  have hrange : readRange T (.array [jsonIpv4 v4.range.1, jsonIpv4 v4.range.2]) = some v4.range := by
    rw [readRange, haddr v4.range.1 (by simp [DhcpV4Config.addrs]),
      haddr v4.range.2 (by simp [DhcpV4Config.addrs])]
    rfl
  have hsubnet := haddr v4.subnet (by simp [DhcpV4Config.addrs])
  have hgateway := haddr v4.gateway (by simp [DhcpV4Config.addrs])
  unfold DhcpV4Config.fromJson DhcpV4Config.toJson
  rw [readStruct_object]
  simp [hdns, hleases, hrange, hsubnet, hgateway]

theorem DhcpV6Config.fromJson_toJson {v6 : DhcpV6Config}
    (h : ∀ addr ∈ v6.dns, ReadsIpAddr T (.v6 addr)) :
    DhcpV6Config.fromJson T v6.toJson = some v6 := by
  have hdns : readList (readIpv6 T) (jsonList jsonIpv6 v6.dns) = some v6.dns :=
    readList_jsonList fun addr hmem => readIpv6_jsonIpv6 (h addr hmem)
  unfold DhcpV6Config.fromJson DhcpV6Config.toJson
  rw [readStruct_object]
  simp [hdns]

theorem RaConfig.fromJson_toJson {ra : RaConfig}
    (h : ∀ addr ∈ ra.rdnss, ReadsIpAddr T (.v6 addr)) :
    RaConfig.fromJson T ra.toJson = some ra := by
  have hrdnss : readList (readIpv6 T) (jsonList jsonIpv6 ra.rdnss) = some ra.rdnss :=
    readList_jsonList fun addr hmem => readIpv6_jsonIpv6 (h addr hmem)
  unfold RaConfig.fromJson RaConfig.toJson
  rw [readStruct_object]
  simp [hrdnss]

/-- The addresses of the DHCP and RA settings. -/
def DhcpConfig.ipAddrs (dhcp : DhcpConfig) : List IpAddr :=
  (dhcp.v4.toList.flatMap DhcpV4Config.addrs).map .v4 ++
    (dhcp.v6.toList.flatMap DhcpV6Config.dns ++ dhcp.ra.toList.flatMap RaConfig.rdnss).map .v6

theorem DhcpConfig.fromJson_toJson {dhcp : DhcpConfig}
    (h : ∀ ip ∈ dhcp.ipAddrs, ReadsIpAddr T ip) :
    DhcpConfig.fromJson T dhcp.toJson = some dhcp := by
  have hv4 : readOption (DhcpV4Config.fromJson T) (jsonOption DhcpV4Config.toJson dhcp.v4) =
      some dhcp.v4 := by
    apply readOption_jsonOption rfl
    intro v4 hv4
    apply DhcpV4Config.fromJson_toJson
    intro addr haddr
    apply h
    simp [DhcpConfig.ipAddrs, Option.mem_def.mp hv4, haddr]
  have hv6 : readOption (DhcpV6Config.fromJson T) (jsonOption DhcpV6Config.toJson dhcp.v6) =
      some dhcp.v6 := by
    apply readOption_jsonOption rfl
    intro v6 hv6
    apply DhcpV6Config.fromJson_toJson
    intro addr haddr
    apply h
    simp [DhcpConfig.ipAddrs, Option.mem_def.mp hv6, haddr]
  have hra : readOption (RaConfig.fromJson T) (jsonOption RaConfig.toJson dhcp.ra) =
      some dhcp.ra := by
    apply readOption_jsonOption rfl
    intro ra hra
    apply RaConfig.fromJson_toJson
    intro addr haddr
    apply h
    simp [DhcpConfig.ipAddrs, Option.mem_def.mp hra, haddr]
  unfold DhcpConfig.fromJson DhcpConfig.toJson
  rw [readStruct_object]
  simp [hv4, hv6, hra]

theorem WebConfig.fromJson_toJson {web : WebConfig} (h : ReadsSocketAddr T web.listen) :
    WebConfig.fromJson T web.toJson = some web := by
  have hlisten : readSocketAddr T (.string (socketAddrText web.listen)) = some web.listen := h
  unfold WebConfig.fromJson WebConfig.toJson
  rw [readStruct_object]
  simp [hlisten, WebAuthConfig.fromJson_toJson]

/-- The addresses whose texts a configuration contains are read back. -/
structure Config.TextsRead (T : NetText) (c : Config) : Prop where
  socketAddrs : ∀ addr ∈ c.listen :: c.web.listen :: c.defaultNameserver, ReadsSocketAddr T addr
  ipAddrs : ∀ ip ∈ c.hosts.values ++ c.dhcp.ipAddrs, ReadsIpAddr T ip

/-- What was written is read as an equal configuration. -/
theorem Config.fromJson_toJson {c : Config} (h : c.TextsRead T) :
    ∃ c', Config.fromJson T c.toJson = some c' ∧ c'.Same c := by
  obtain ⟨groups, hgroups, hsameGroups⟩ :=
    readMap_jsonMap (m := c.groups) fun entry _ => UpstreamGroupCfg.fromJson_toJson entry.2
  have hips : ∀ entry ∈ c.hosts.entries,
      readIpAddr T (.string (ipAddrText entry.2)) = some entry.2 := by
    intro entry hentry
    apply h.ipAddrs
    exact List.mem_append_left _ (List.mem_map_of_mem hentry)
  obtain ⟨hosts, hhosts, hsameHosts⟩ : ∃ hosts : IndexMap IpAddr,
      readMap (readIpAddr T) (jsonMap (fun ip => .string (ipAddrText ip)) c.hosts) = some hosts ∧
        hosts.Same c.hosts := readMap_jsonMap hips
  have hlisten : readSocketAddr T (.string (socketAddrText c.listen)) = some c.listen :=
    h.socketAddrs c.listen (by simp)
  have hns : readList (readSocketAddr T)
      (jsonList (fun addr => .string (socketAddrText addr)) c.defaultNameserver) =
      some c.defaultNameserver :=
    readList_jsonList fun addr hmem => h.socketAddrs addr (by simp [hmem])
  have hrulesets : readList RulesetEntry.fromJson (jsonList RulesetEntry.toJson c.rulesets) =
      some c.rulesets := readList_jsonList fun entry _ => RulesetEntry.fromJson_toJson entry
  have hfirewall : readOption FirewallConfig.fromJson (jsonOption FirewallConfig.toJson c.firewall) =
      some c.firewall :=
    readOption_jsonOption rfl fun fw _ => FirewallConfig.fromJson_toJson fw
  have hdhcp := DhcpConfig.fromJson_toJson fun ip hip =>
    h.ipAddrs ip (List.mem_append_right _ hip)
  have hweb : WebConfig.fromJson T c.web.toJson = some c.web :=
    WebConfig.fromJson_toJson (h.socketAddrs c.web.listen (by simp))
  refine ⟨{ c with groups, hosts }, ?_, ?_⟩
  · unfold Config.fromJson Config.toJson
    rw [readStruct_object]
    simp [hgroups, hhosts, hlisten, hns, hrulesets, hfirewall, hdhcp, hweb,
      CacheConfig.fromJson_toJson]
  · exact ⟨rfl, rfl, rfl, rfl, rfl, hsameGroups, rfl, hsameHosts, rfl, rfl, rfl, rfl⟩

end Addresses

/-- Equal configurations are written as one object. -/
theorem Config.Same.toJson {c c' : Config} (h : c.Same c') : c.toJson = c'.toJson := by
  rw [Config.toJson, Config.toJson, h.cache, h.defaultNameserver, h.dhcp, h.firewall,
    jsonMap_congr _ h.groups, jsonMap_congr _ h.hosts, h.listen, h.logLevel, h.manageResolvConf,
    h.rulesets, h.strategy, h.web]


end Relay
