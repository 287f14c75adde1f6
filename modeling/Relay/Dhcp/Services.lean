import Relay.Config.Types
import Relay.Logic.Run

/-!
The tasks of `dhcp/mod.rs` and what they spawn: `serve_abortable` keeps the
handles of the services it starts, and `restart_dhcp` of the runtime aborts
these before it starts the services of another configuration. A task that is
aborted is never polled again; what it has spawned is a task of its own.
-/

namespace Relay.Dhcp

open Logic

/-- What a task runs. -/
inductive Program where
  /-- `v4::server::serve`. -/
  | v4 (cfg : DhcpV4Config)
  /-- `v6::server::serve`. -/
  | v6 (cfg : DhcpV6Config)
  /-- `ra::sender::serve`. -/
  | ra (cfg : RaConfig)
  /-- `handle_packet` of either server. -/
  | packet
  /-- `listen_for_prefixes`, for `serve` or for `suppress_loop`. -/
  | listenForPrefixes (interface : String)
  | suppressLoop (interface : String)
  deriving DecidableEq

/-- Its handle is kept by `serve_abortable`. -/
def Program.isService : Program → Bool
  | .v4 _ | .v6 _ | .ra _ => true
  | .packet | .listenForPrefixes _ | .suppressLoop _ => false

/-- What a task spawns when it is polled first. -/
def Program.spawns : Program → List Program
  | .ra cfg =>
      .listenForPrefixes cfg.interface ::
        if cfg.suppressOtherRouters then [.suppressLoop cfg.interface] else []
  | .suppressLoop interface => [.listenForPrefixes interface]
  | .v4 _ | .v6 _ | .packet | .listenForPrefixes _ => []

/-- It spawns a task for each packet it receives. -/
def Program.receives : Program → Bool
  | .v4 _ | .v6 _ => true
  | .ra _ | .packet | .listenForPrefixes _ | .suppressLoop _ => false

inductive TaskStatus where
  | spawned
  | begun
  /-- It has returned. -/
  | finished
  | aborted
  deriving DecidableEq

/-- It may be polled. -/
def TaskStatus.isLive : TaskStatus → Bool
  | .spawned | .begun => true
  | .finished | .aborted => false

/-- `JoinHandle::abort`. -/
def TaskStatus.abort (status : TaskStatus) : TaskStatus :=
  if status.isLive then .aborted else status

structure ServiceTask where
  program : Program
  /-- The task that has spawned it, unless `serve_abortable` has. -/
  parent : Option Nat
  status : TaskStatus := .spawned

/-- All tasks so far, and the handles in `AbortableDhcpServices`. -/
structure DhcpTasks where
  tasks : List ServiceTask := []
  handles : List Nat := []

/-- The services that `serve_abortable` starts. -/
def enabledServices (config : DhcpConfig) : List Program :=
  ((config.v4.filter (·.enable)).map Program.v4).toList ++
    ((config.v6.filter (·.enable)).map Program.v6).toList ++
    ((config.ra.filter (·.enable)).map Program.ra).toList

inductive TaskEvent where
  /-- `abort` of the services that run, and `serve_abortable`. -/
  | restart (config : DhcpConfig)
  /-- The first poll of a task. -/
  | start (i : Nat)
  /-- A server receives a packet. -/
  | receive (i : Nat)
  /-- A task returns, with an error or without. -/
  | finish (i : Nat)
  deriving DecidableEq

def TaskEvent.isPossible (s : DhcpTasks) : TaskEvent → Bool
  | .restart _ => true
  | .start i => s.tasks[i]?.any fun task => decide (task.status = .spawned)
  | .receive i => s.tasks[i]?.any fun task => decide (task.status = .begun) && task.program.receives
  | .finish i => s.tasks[i]?.any fun task => decide (task.status = .begun)

/-- The status of the `i`-th task after an event. -/
def TaskEvent.leaves (s : DhcpTasks) (i : Nat) (status : TaskStatus) : TaskEvent → TaskStatus
  | .restart _ => if i ∈ s.handles then status.abort else status
  | .start j => if i = j then .begun else status
  | .receive _ => status
  | .finish j => if i = j then .finished else status

/-- The tasks that are new after an event. -/
def TaskEvent.spawned (s : DhcpTasks) : TaskEvent → List ServiceTask
  | .restart config => (enabledServices config).map fun program => ⟨program, none, .spawned⟩
  | .start i => (s.tasks[i]?.map fun task => task.program.spawns).getD [] |>.map fun program =>
      ⟨program, some i, .spawned⟩
  | .receive i => [⟨.packet, some i, .spawned⟩]
  | .finish _ => []

/-- The handles that are kept after an event. -/
def TaskEvent.keeps (s : DhcpTasks) : TaskEvent → List Nat
  | .restart config => List.range' s.tasks.length (enabledServices config).length
  | _ => s.handles

def DhcpTasks.next (s : DhcpTasks) (e : TaskEvent) : Option DhcpTasks :=
  if e.isPossible s then
    some {
      tasks := s.tasks.mapIdx (fun i task => { task with status := e.leaves s i task.status }) ++
        e.spawned s
      handles := e.keeps s }
  else none

def TaskEvent.config? : TaskEvent → Option DhcpConfig
  | .restart config => some config
  | _ => none

/-- The services of the last restart. -/
def latestServices (trace : List TaskEvent) : List Program :=
  ((trace.filterMap TaskEvent.config?).getLast?.map enabledServices).getD []

end Relay.Dhcp
