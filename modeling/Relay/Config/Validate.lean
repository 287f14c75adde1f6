import Relay.Config.Types
import Relay.Text.Str

/-!
`Config::validate`: the checks a configuration passes before it is used, in
their order.
-/

namespace Relay

open Dns Text

inductive ValidateError where
  | noNameserver
  | resolvConfPort (port : UInt16)
  | defaultNameserverRequired
  | unknownUpstream (path upstream : String)
  | emptyPasswordHash
  | emptyUsername
  | zeroQueryLogSize
  deriving DecidableEq, Repr

variable (T : NetText)

/-- The host the check takes from a server's URL. -/
def hostOfUrl (url : String) : String :=
  let rest := match splitOnce url "://" with
    | none => ""
    | some (_, rest) =>
        match splitOnce rest "://" with
        | none => rest
        | some (middle, _) => middle
  beforeFirst ':' (beforeFirst '/' rest)

def hasEncryptedScheme (url : String) : Bool :=
  startsWith url "tls://" || startsWith url "https://" || startsWith url "quic://"

def Config.hasDomainUpstream (c : Config) : Bool :=
  c.groups.values.any fun g =>
    g.servers.any hasEncryptedScheme && g.servers.any fun s => (T.ipAddr (hostOfUrl s)).isNone

def Config.firewallEnabled (c : Config) : Bool :=
  match c.firewall with
  | some fw => fw.enable
  | none => false

def Config.validateRulesets (c : Config) : List RulesetEntry → Except ValidateError Unit
  | [] => .ok ()
  | entry :: entries =>
      if c.groups.containsKey entry.upstream then c.validateRulesets entries
      else .error (.unknownUpstream entry.path entry.upstream)

def WebConfig.validate (web : WebConfig) : Except ValidateError Unit :=
  if web.enable ∧ web.auth.enable ∧ web.auth.passwordHash = "" then .error .emptyPasswordHash
  else if web.enable ∧ web.auth.enable ∧ web.auth.username = "" then .error .emptyUsername
  else if web.enable ∧ web.queryLogSize = 0 then .error .zeroQueryLogSize
  else .ok ()

def Config.validate (c : Config) : Except ValidateError Unit :=
  if ¬ c.groups.containsKey "default" then .error .noNameserver
  else if c.manageResolvConf ∧ c.listen.port ≠ 53 then .error (.resolvConfPort c.listen.port)
  else if (c.firewallEnabled ∨ c.manageResolvConf) ∧ c.defaultNameserver = [] ∧
      c.hasDomainUpstream T then .error .defaultNameserverRequired
  else do
    c.validateRulesets c.rulesets
    c.web.validate

end Relay
