import Relay.Logic.Run
import Relay.Ruleset.Crates
import Relay.Runtime.Outcome

/-!
Whether a reload reaches the queries. The listener tasks keep the router they
were started with, and hand it to the task of each TCP connection and of each
datagram, which no rebind ends. So a call that stores another router has to
rebind the listener as well, and to find no such task. Along runs in which every
call does, all tasks, the stored router and the DHCP services stay in step with
the configuration.
-/

namespace Relay.Runtime

open Binary Dns Logic

variable {K : Platform}

/-- A submitted configuration, and what the call meets. -/
abbrev Call := Env × Config

def call (s : Handle K) (c : Call) (s' : Handle K) : Prop := (apply c.1 c.2 s).2 = s'

/-- The router comes from a configuration with these routing fields. -/
def BuiltFrom (router : Router K.F K.R K.C) (config : Config) : Prop :=
  ∃ files baseDir config', config'.SameRouting config ∧
    Router.fromConfig K.T K.U K.F K.R K.C files baseDir router.dynamicHosts config' = .ok router

/-- The runtime, with the router of each task that its listeners have spawned
and that still runs: one for every TCP connection, which keeps it until the
connection ends, and one for every datagram that is being answered. -/
structure Server (K : Platform) where
  handle : Handle K
  tasks : List (Shared (Router K.F K.R K.C)) := []

/-- The routers that queries are answered with: the one the listener tasks give
to what they spawn next, and those of the tasks that run. -/
def Server.answering (s : Server K) : List (Shared (Router K.F K.R K.C)) :=
  s.handle.listener.router :: s.tasks

/-- What happens to a server. `apply` reads and ends none of the spawned tasks,
so a task that is spawned while a call goes on is spawned before the call if the
old listener does it, and after the call if the new one does. -/
inductive ServerEvent where
  /-- A connection is accepted, or a datagram is received. -/
  | spawned
  /-- A connection ends, or a datagram is answered. -/
  | ended (i : Nat)
  | apply (c : Call)

def Server.next (s : Server K) : ServerEvent → Server K
  | .spawned => { s with tasks := s.tasks ++ [s.handle.listener.router] }
  | .ended i => { s with tasks := s.tasks.eraseIdx i }
  | .apply c => { s with handle := (Runtime.apply c.1 c.2 s.handle).2 }

/-- All queries are answered with a router of this configuration, which reads
the table that the DHCP services write to. -/
def Serves (s : Server K) (config : Config) : Prop :=
  ∀ router ∈ s.answering,
    BuiltFrom router.value config ∧ router.value.dynamicHosts = s.handle.dhcp.hosts

/-- Every part that holds a router or a hosts table holds the current one. -/
structure InSync (s : Handle K) (config : Config) : Prop where
  listener : s.listener.router = s.router
  built : BuiltFrom s.router.value config
  hosts : s.router.value.dynamicHosts = s.dynamicHosts.id
  dhcp : s.dhcp.hosts = s.dynamicHosts.id

/-- And so does every task. -/
structure Server.InSync (s : Server K) (config : Config) : Prop where
  handle : Runtime.InSync s.handle config
  tasks : ∀ router ∈ s.tasks, router = s.handle.router

theorem BuiltFrom.strategy {router : Router K.F K.R K.C} {config : Config}
    (h : BuiltFrom router config) : router.strategy = config.strategy := by
  obtain ⟨files, baseDir, source, hsource, hbuild⟩ := h
  obtain ⟨upstreams, _, hbuild⟩ := run_bind_eq_ok.mp hbuild
  obtain ⟨rules, _, hbuild⟩ := run_bind_eq_ok.mp hbuild
  injection hbuild with hbuild
  rw [← hbuild]
  exact hsource.2.2.2.2.2

theorem InSync.with_firewall {s : Handle K} {config : Config} (h : InSync s config)
    (fw : Firewall) : InSync { s with firewall := fw } config :=
  ⟨h.listener, h.built, h.hosts, h.dhcp⟩

def smallPlatform : Platform where
  T := ⟨fun _ => none, fun _ => none, fun _ => false⟩
  U := asciiTables
  F := Ruleset.listFst
  R := Ruleset.literalRegex
  C := Storage.listLru
  yaml := fun _ => some []

/-- 127.0.0.1:53, and a default group that refuses. -/
def smallConfig : Config where
  listen := ⟨.v4 0x7f000001, 53⟩
  groups := ⟨[("default", { servers := ["rcode://refused"] })], by simp⟩

/-- There are no ruleset files, and nothing fails. -/
def quietEnv : Env where
  files := fun _ => none
  binds := fun _ => true
  host := { macos := false, nft := true, iptables := true }
  redirects := true
  opens := true
  cutAt := none

def smallRuntime : Handle smallPlatform :=
  (start quietEnv "/" smallConfig none).toOption.get rfl

theorem smallRuntime_start : start quietEnv "/" smallConfig none = .ok smallRuntime := rfl

def filtered : Config := { smallConfig with strategy := .onlyIpv4 }

def filteredAndMoved : Config := { filtered with listen := ⟨.v4 0x7f000001, 5353⟩ }

end Relay.Runtime
