import Relay.Config.Validate
import Relay.Dns.FromConfig
import Relay.Logic.Interleave
import Relay.Runtime.Firewall

/-!
`RuntimeHandle` of `runtime/mod.rs`: the configuration in force, the router,
the DHCP hosts table, the listener, the firewall rules, the DHCP services and
the configuration file, and `apply`, which replaces some of them. `apply` is a
list of phases with nothing shared read or written twice in one of them, so
that concurrent calls can be interleaved between any two phases.
-/

namespace Relay.Runtime

open Binary Dns Logic

/-- A value behind an `Arc`, with its identity. -/
structure Shared (α : Type) where
  id : Arc
  value : α

/-- The code outside the repository that a runtime runs with. -/
structure Platform where
  T : NetText
  U : UnicodeTables
  F : Ruleset.FstCrate
  R : Ruleset.RegexCrate
  C : CacheCrate
  /-- `serde_yaml::to_string` of the configuration's YAML form. -/
  yaml : Config → Option Bytes

variable (K : Platform)

/-- The running UDP and TCP listener tasks, with the router they captured. -/
structure DnsListener where
  id : Arc
  addr : SocketAddr
  router : Shared (Router K.F K.R K.C)

/-- The running DHCP and RA tasks, with the hosts table they write to. -/
structure DhcpServices where
  id : Arc
  config : DhcpConfig
  hosts : Arc
  deriving DecidableEq

structure Handle where
  baseDir : String
  config : Config
  router : Shared (Router K.F K.R K.C)
  dynamicHosts : Shared DynamicHosts
  listener : DnsListener K
  firewall : Firewall
  dhcp : DhcpServices
  /-- The configuration file. -/
  file : Option Bytes
  /-- The next identity to be given out. -/
  nextArc : Arc

/-- What one call meets outside the process. -/
structure Env where
  files : RulesetFiles
  /-- Both sockets can be bound to the address. -/
  binds : SocketAddr → Bool
  host : Host
  /-- The firewall backend installs the rules. -/
  redirects : Bool
  /-- The configuration file can be created and emptied. -/
  opens : Bool
  /-- Writing fails after this many bytes. -/
  cutAt : Option Nat

/-- `FirewallGuard::setup`: the backend that gets to install rules. -/
def Env.installs (env : Env) (config : FirewallConfig) : Option BackendKind :=
  if env.redirects then detectBackend env.host config.backend else none

structure ApplyReport where
  applied : List String := []
  ignored : List String := []
  deriving DecidableEq, Repr

inductive ApplyError where
  | validation (e : ValidateError)
  | build (e : BuildError)
  | bind (addr : SocketAddr)
  | firewall
  | save

/-- `dhcp_domain_of`. -/
def dhcpDomainOf (dhcp : DhcpConfig) : Option String :=
  match dhcp.v4.bind (·.domain) with
  | some domain => some domain
  | none => dhcp.v6.bind (·.domain)

/-! ### The state updates -/

variable {K}

def Handle.replaceHosts (s : Handle K) (domain : Option String) : Handle K :=
  { s with
    dynamicHosts := ⟨s.nextArc, DynamicHosts.new domain⟩
    nextArc := s.nextArc + 1 }

def Handle.replaceRouter (s : Handle K) (router : Router K.F K.R K.C) : Handle K :=
  { s with
    router := ⟨s.nextArc, router⟩
    nextArc := s.nextArc + 1 }

def Handle.replaceListener (s : Handle K) (addr : SocketAddr)
    (router : Shared (Router K.F K.R K.C)) : Handle K :=
  { s with
    listener := ⟨s.nextArc, addr, router⟩
    nextArc := s.nextArc + 1 }

def Handle.replaceDhcp (s : Handle K) (config : DhcpConfig) (hosts : Arc) : Handle K :=
  { s with
    dhcp := ⟨s.nextArc, config, hosts⟩
    nextArc := s.nextArc + 1 }

/-- Bytes written from the start of a file over what it holds. -/
def overlay (old new : Bytes) : Bytes := new ++ old.drop new.length

/-! ### The phases of `apply` -/

variable (K)

/-- The local variables of one call. What it uses of the configuration it has
loaded is how the new one differs from it. -/
structure Locals where
  new : Config
  domainChanged : Bool
  routingChanged : Bool
  listenChanged : Bool
  firewallChanged : Bool
  dhcpChanged : Bool
  report : ApplyReport
  built : Option (Router K.F K.R K.C) := none
  loadedRouter : Option (Shared (Router K.F K.R K.C)) := none
  loadedHosts : Option Arc := none

variable {K}

def Locals.rebuilds (l : Locals K) : Bool := l.routingChanged || l.domainChanged

def Locals.applied (l : Locals K) (name : String) : Locals K :=
  { l with report := { l.report with applied := l.report.applied ++ [name] } }

/-- `web.listen` and the login are read-only: the old values stay. -/
def pinned (old new : Config) : Config :=
  { new with
    web := { new.web with
      listen := old.web.listen
      auth := { new.web.auth with
        username := old.web.auth.username
        passwordHash := old.web.auth.passwordHash } } }

/-- The fields that are reported as ignored. -/
def ignoredFields (old new : Config) : List String :=
  (if new.web.listen ≠ old.web.listen then ["web.listen"] else []) ++
  (if new.web.auth.username ≠ old.web.auth.username ∨
      new.web.auth.passwordHash ≠ old.web.auth.passwordHash then
    ["web.auth (use change-password API)"] else []) ++
  (if old.manageResolvConf ≠ new.manageResolvConf then
    ["manage-resolv-conf (requires restart)"] else []) ++
  (if old.logLevel ≠ new.logLevel then ["log-level (requires restart)"] else [])

/-- From the loaded snapshot and the submitted configuration to the work that
is left: the read-only fields, the validation and the comparisons. -/
def plan (K : Platform) (old submitted : Config) : Except ValidateError (Locals K) := do
  let new := pinned old submitted
  new.validate K.T
  return {
    new := new
    domainChanged := dhcpDomainOf old.dhcp ≠ dhcpDomainOf new.dhcp
    routingChanged := ¬ old.SameRouting new
    listenChanged := old.listen ≠ new.listen
    firewallChanged := old.firewall ≠ new.firewall
    dhcpChanged := old.dhcp ≠ new.dhcp
    report := { ignored := ignoredFields old submitted } }

abbrev ApplyPhase (K : Platform) := Phase (Fault ApplyError) (Locals K) (Handle K)

variable (env : Env)

/-- `self.dynamic_hosts.store(fresh)`. -/
def storeHosts : ApplyPhase K := fun l s =>
  if l.domainChanged then (.ok l, s.replaceHosts (dhcpDomainOf l.new.dhcp)) else (.ok l, s)

def buildWith (s : Handle K) (new : Config) (hosts : Arc) : Run BuildError (Router K.F K.R K.C) :=
  Router.fromConfig K.T K.U K.F K.R K.C env.files s.baseDir hosts new

/-- `self.dynamic_hosts.load_full()` and `Router::from_config`. -/
def buildRouter : ApplyPhase K := fun l s =>
  if l.rebuilds then
    match buildWith env s l.new s.dynamicHosts.id with
    | .ok router => (.ok { l with built := some router }, s)
    | .error fault => (.error (fault.map .build), s)
  else (.ok l, s)

/-- `self.router.store(Arc::new(new_router))`. -/
def storeRouter : ApplyPhase K := fun l s =>
  match l.built with
  | some router => (.ok (l.applied "dns-routing"), s.replaceRouter router)
  | none => (.ok l, s)

/-- `rebind_dns_listener` up to `self.router.load_full()`. -/
def loadRouter : ApplyPhase K := fun l s =>
  if l.listenChanged then (.ok { l with loadedRouter := some s.router }, s) else (.ok l, s)

/-- `rebind_dns_listener` from the bind on. -/
def rebindListener : ApplyPhase K := fun l s =>
  match l.loadedRouter with
  | some router =>
      if env.binds l.new.listen then
        (.ok (l.applied "dns-listen"), s.replaceListener l.new.listen router)
      else (fail (.bind l.new.listen), s)
  | none => (.ok l, s)

def reapplyFirewall : ApplyPhase K := fun l s =>
  if l.firewallChanged then
    match s.firewall.reapply l.new.firewall l.new.listen.port env.installs with
    | (true, fw) => (.ok (l.applied "firewall"), { s with firewall := fw })
    | (false, fw) => (fail .firewall, { s with firewall := fw })
  else (.ok l, s)

/-- `restart_dhcp` up to `self.dynamic_hosts.load_full()`. -/
def loadHosts : ApplyPhase K := fun l s =>
  if l.dhcpChanged then (.ok { l with loadedHosts := some s.dynamicHosts.id }, s) else (.ok l, s)

/-- `restart_dhcp` from there on. -/
def restartDhcp : ApplyPhase K := fun l s =>
  match l.loadedHosts with
  | some hosts => (.ok (l.applied "dhcp"), s.replaceDhcp l.new.dhcp hosts)
  | none => (.ok l, s)

/-- The first half of `save_to`: the YAML text, and the file opened empty. -/
def startSave (new : Config) (s : Handle K) : Bool × Handle K :=
  if (K.yaml new).isSome ∧ env.opens then (true, { s with file := some [] }) else (false, s)

/-- The second half of `save_to`: the text is written. -/
def finishSave (new : Config) (s : Handle K) : Bool × Handle K :=
  let text := (K.yaml new).getD []
  match env.cutAt with
  | none => (true, { s with file := some (overlay (s.file.getD []) text) })
  | some n => (false, { s with file := some (overlay (s.file.getD []) (text.take n)) })

def openFile : ApplyPhase K := fun l s =>
  match startSave env l.new s with
  | (true, s) => (.ok l, s)
  | (false, s) => (fail .save, s)

def writeText : ApplyPhase K := fun l s =>
  match finishSave env l.new s with
  | (true, s) => (.ok l, s)
  | (false, s) => (fail .save, s)

/-- `self.config.store(Arc::new(new_config))`. -/
def storeConfig : ApplyPhase K := fun l s => (.ok l, { s with config := l.new })

def phases : List (ApplyPhase K) :=
  [storeHosts, buildRouter env, storeRouter, loadRouter, rebindListener env, reapplyFirewall env,
    loadHosts, restartDhcp, openFile env, writeText env, storeConfig]

/-- `RuntimeHandle::apply`, with the runtime after it. -/
def apply (submitted : Config) (s : Handle K) : Run ApplyError ApplyReport × Handle K :=
  match plan K s.config submitted with
  | .error e => (fail (.validation e), s)
  | .ok l =>
      match execute (phases env) l s with
      | (.ok l, s) => (.ok l.report, s)
      | (.error e, s) => (.error e, s)

/-- `RuntimeHandle::start` with a configuration that was loaded from the file. -/
def start (baseDir : String) (config : Config) (file : Option Bytes) :
    Run ApplyError (Handle K) := do
  let hosts : Shared DynamicHosts := ⟨0, DynamicHosts.new (dhcpDomainOf config.dhcp)⟩
  let router ← match Router.fromConfig K.T K.U K.F K.R K.C env.files baseDir hosts.id config with
    | .ok router => .ok (⟨1, router⟩ : Shared (Router K.F K.R K.C))
    | .error fault => .error (fault.map ApplyError.build)
  if ¬ env.binds config.listen then fail (.bind config.listen)
  else
    match ({} : Firewall).reapply config.firewall config.listen.port env.installs with
    | (false, _) => fail .firewall
    | (true, fw) => return {
        baseDir := baseDir
        config := config
        router := router
        dynamicHosts := hosts
        listener := ⟨2, config.listen, router⟩
        firewall := fw
        dhcp := ⟨3, config.dhcp, hosts.id⟩
        file := file
        nextArc := 4 }

end Relay.Runtime
