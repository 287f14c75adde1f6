import Relay.Config.Types

/-!
The redirect rules of `firewall/mod.rs`. A backend keeps its rules under one
fixed name: `setup` removes what stands there and installs the rules of a
configuration and a port, `cleanup` removes what stands there, whoever put it.
A `FirewallGuard` runs `cleanup` of its backend when it is dropped.
-/

namespace Relay.Runtime

inductive BackendKind where
  | nftables
  | iptables
  | pf
  deriving DecidableEq, Repr

/-- The system that `detect_backend` looks at: `cfg!(target_os = "macos")` and
the programs that exist. -/
structure Host where
  macos : Bool
  nft : Bool
  iptables : Bool

/-- `detect_backend`. -/
def detectBackend (host : Host) (preference : String) : Option BackendKind :=
  if preference = "nftables" then some .nftables
  else if preference = "iptables" then some .iptables
  else if preference = "pf" then some .pf
  else if preference ≠ "auto" then none
  else if host.macos then some .pf
  else if host.nft then some .nftables
  else if host.iptables then some .iptables
  else none

/-- The rules a backend has installed. -/
structure Rules where
  backend : BackendKind
  config : FirewallConfig
  port : UInt16
  deriving DecidableEq

/-- `FirewallBackend::cleanup`. -/
def cleanup (backend : BackendKind) (rules : List Rules) : List Rules :=
  rules.filter fun r => r.backend ≠ backend

/-- `FirewallBackend::setup`, where nothing fails. -/
def setup (backend : BackendKind) (config : FirewallConfig) (port : UInt16) (rules : List Rules) :
    List Rules :=
  cleanup backend rules ++ [⟨backend, config, port⟩]

/-- The end of the variable that a guard was taken into. -/
def dropGuard (guard : Option BackendKind) (rules : List Rules) : List Rules :=
  match guard with
  | some backend => cleanup backend rules
  | none => rules

/-- The rules in the system, and the guard that is held. -/
structure Firewall where
  rules : List Rules := []
  guard : Option BackendKind := none
  deriving DecidableEq

/-- `reapply_firewall`. `installs` is the backend that is detected for a
configuration, if it installs the rules. The guard that is taken out of its
slot is dropped when the function ends, so its clean-up runs after the new
rules are installed. -/
def Firewall.reapply (fw : Firewall) (config : Option FirewallConfig) (port : UInt16)
    (installs : FirewallConfig → Option BackendKind) : Bool × Firewall :=
  match config with
  | none => (true, ⟨dropGuard fw.guard fw.rules, none⟩)
  | some config =>
      if ¬ config.enable then (true, ⟨dropGuard fw.guard fw.rules, none⟩)
      else
        match installs config with
        | some backend =>
            (true, ⟨dropGuard fw.guard (setup backend config port fw.rules), some backend⟩)
        | none => (false, ⟨dropGuard fw.guard fw.rules, none⟩)

end Relay.Runtime
