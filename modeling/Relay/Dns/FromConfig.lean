import Relay.Dns.Router
import Relay.Dns.Upstream.Url

/-!
`Router::from_config`: the upstream groups, the rulesets from their files, the
hosts table and an empty cache of a configuration.
-/

namespace Relay.Dns

open Binary Text Upstream Ruleset

inductive BuildError where
  | url (e : UrlError)
  | unreadable (path : String)
  | ruleset (path : String) (e : DrsError)

variable (T : NetText) (U : UnicodeTables) (F : FstCrate) (R : RegexCrate) (C : CacheCrate)

/-- `base.join(path)` for a relative path. -/
def joinPath (base path : String) : String :=
  if base = "" then path
  else if base.toList.getLast? = some '/' then base ++ path
  else base ++ "/" ++ path

def resolvePath (base path : String) : String :=
  if path = "" ∨ startsWith path "/" then path else joinPath base path

/-- `UpstreamServer::parse` for each server, and the group's strategy. -/
def buildGroup (resolver : List SocketAddr) (group : UpstreamGroupCfg) :
    Run BuildError UpstreamGroup :=
  match group.servers.mapM fun url => UpstreamServer.parse T url group resolver with
  | .ok servers => .ok { servers := servers, strategy := group.strategy }
  | .error e => fail (.url e)

def buildGroups (resolver : List SocketAddr) :
    List (String × UpstreamGroupCfg) → Run BuildError (StringMap UpstreamGroup)
  | [] => .ok ∅
  | (name, group) :: groups => do
      let group ← buildGroup T resolver group
      let groups ← buildGroups resolver groups
      return groups.insert name group

/-- What the ruleset files hold. -/
abbrev RulesetFiles := String → Option Bytes

/-- `DrsFile::load` of one entry. -/
def loadRule (files : RulesetFiles) (baseDir : String) (entry : RulesetEntry) :
    Run BuildError (LoadedRule F R) :=
  let path := resolvePath baseDir entry.path
  match files path with
  | none => fail (.unreadable path)
  | some bytes =>
      match fromBytes F R bytes with
      | .ok drs => .ok ⟨drs, entry.upstream⟩
      | .error .panic => panicked
      | .error (.error e) => fail (.ruleset path e)

def loadRules (files : RulesetFiles) (baseDir : String) :
    List RulesetEntry → Run BuildError (List (LoadedRule F R))
  | [] => .ok []
  | entry :: entries => do
      let rule ← loadRule F R files baseDir entry
      let rules ← loadRules files baseDir entries
      return rule :: rules

def cacheOf (cache : CacheConfig) : Option (DnsCache C) :=
  if cache.enable then some (DnsCache.new C cache.size cache.minTtl cache.maxTtl) else none

/-- `Router::from_config`. -/
def Router.fromConfig (files : RulesetFiles) (baseDir : String) (dynamicHosts : Arc)
    (config : Config) : Run BuildError (Router F R C) := do
  let upstreams ← buildGroups T config.defaultNameserver config.groups.entries
  let rules ← loadRules F R files baseDir config.rulesets
  return {
    hosts := HostsTable.new U config.hosts.entries
    rules := rules
    upstreams := upstreams
    cache := cacheOf C config.cache
    strategy := config.strategy
    dynamicHosts := dynamicHosts }

variable {T U F R C}

/-- A router is built for the tables it is given, and whether it can be built
does not depend on them. -/
theorem Router.fromConfig_dynamicHosts {files : RulesetFiles} {baseDir : String} {hosts : Arc}
    {config : Config} {router : Router F R C}
    (h : Router.fromConfig T U F R C files baseDir hosts config = .ok router) :
    router.dynamicHosts = hosts := by
  obtain ⟨upstreams, _, h⟩ := run_bind_eq_ok.mp h
  obtain ⟨rules, _, h⟩ := run_bind_eq_ok.mp h
  cases h
  rfl

end Relay.Dns
