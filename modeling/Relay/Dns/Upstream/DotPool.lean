import Mathlib.Logic.Function.Basic
import Relay.Binary.Frame
import Relay.Dns.Message
import Relay.Logic.Run

/-!
`dns/upstream/dot.rs` as a transition system: concurrent queries on one pool of
TLS connections, and the server at the other end of each. A step is what a
query does between two `await`s, a piece of a frame that is written or read, an
answer of the server, or the end of a query whose future is dropped.
-/

namespace Relay.Dns.Upstream.Dot

open Binary

def poolCapacity : Nat := 8

/-- A TLS connection with what went over it. -/
structure Conn where
  /-- The queries that began to send a frame, each with its message. -/
  asked : List (Nat × Bytes) := []
  written : Bytes := []
  /-- The bytes of the frames that the server has answered. -/
  consumed : Nat := 0
  /-- The messages of those frames, each with its answer. -/
  answers : List (Bytes × Bytes) := []
  /-- The bytes of the answers that a query has read. -/
  read : Nat := 0

/-- The bytes that the server has sent. -/
def Conn.replies (conn : Conn) : Bytes := conn.answers.flatMap fun answer => frame answer.2

/-- Where a connection comes from: the pool, or the first or second attempt at
a new one. -/
inductive Source where
  | idle
  | fresh (attempt : Nat)
  deriving DecidableEq, Repr

inductive Outcome where
  /-- The bytes that came over the connection go to `Message::from_bytes`. -/
  | answered (conn : Nat) (bytes : Bytes)
  | failed
  | cancelled
  deriving DecidableEq, Repr

/-- Where a query stands: before its permit, before the pool's lock, within
`tcp_framed_exchange` with the bytes it has written and read, before a new
connection, in `put_back`. -/
inductive Phase where
  | queued
  | permitted
  | exchanging (source : Source) (conn sent : Nat) (got : Bytes)
  | connecting (attempt : Nat)
  | puttingBack (source : Source) (conn : Nat) (bytes : Bytes)
  | finished (outcome : Outcome)
  deriving DecidableEq, Repr

structure Call where
  request : Message
  wire : Bytes
  phase : Phase

structure State where
  idle : List Nat := []
  /-- The query that has the lock of `idle`. -/
  guard : Option Nat := none
  permits : Nat := poolCapacity
  conns : Nat → Option Conn := fun _ => none
  calls : Nat → Option Call := fun _ => none

/-- The `MutexGuard` in the head of `if let` lives to the end of its body, so a
query has the lock for as long as it works with a connection from the pool. -/
def Phase.locks : Phase → Bool
  | .exchanging .idle _ _ _ | .puttingBack .idle _ _ => true
  | _ => false

/-- A query holds a permit from `acquire` to its end. -/
def Phase.permits : Phase → Nat
  | .queued | .finished _ => 0
  | _ => 1

def Phase.isFinished : Phase → Bool
  | .finished _ => true
  | _ => false

def State.setPhase (s : State) (c : Nat) (call : Call) (phase : Phase) : State :=
  { s with calls := Function.update s.calls c (some { call with phase := phase }) }

def State.setConn (s : State) (i : Nat) (conn : Conn) : State :=
  { s with conns := Function.update s.conns i (some conn) }

/-- A query's end: its permit goes back, and the lock if it has it. -/
def State.finish (s : State) (c : Nat) (call : Call) (outcome : Outcome) : State :=
  State.setPhase
    { s with
      permits := s.permits + call.phase.permits
      guard := if call.phase.locks then none else s.guard }
    c call (.finished outcome)

/-- After a new connection has failed: the first attempt is followed by a
second. -/
def State.nextAttempt (s : State) (c : Nat) (call : Call) (attempt : Nat) : State :=
  if attempt = 0 then s.setPhase c call (.connecting 1) else s.finish c call .failed

/-- What `tcp_framed_exchange` still asks for: the two bytes of the length, and
then that many. A length below 12 is an error. -/
def wanted (got : Bytes) : Nat :=
  if got.length < 2 then 2 - got.length
  else
    let length := ofBe (got.take 2)
    if length < 12 then 0 else length + 2 - got.length

inductive Event where
  | start (c : Nat) (request : Message)
  | acquire (c : Nat)
  | reuse (c : Nat)
  | noneIdle (c : Nat)
  | connect (c conn : Nat)
  | connectFail (c : Nat)
  | write (c n : Nat)
  | answer (conn : Nat) (bytes : Bytes)
  | read (c n : Nat)
  | exchanged (c : Nat)
  | exchangeFail (c : Nat)
  | putBack (c : Nat)
  | cancel (c : Nat)

variable (H : HickoryCrate)

/-- One step of the pool. The server answers the frames of a connection in
their order, each of them once, at any time or never. An exchange can fail at
any time: an error, the end of the stream, a timeout. -/
inductive Step : State → Event → State → Prop where
  | start {s c request wire} :
      s.calls c = none → H.toVec request = some wire →
      Step s (.start c request)
        { s with calls := Function.update s.calls c (some ⟨request, wire, .queued⟩) }
  | acquire {s c call} :
      s.calls c = some call → call.phase = .queued → 0 < s.permits →
      Step s (.acquire c) (State.setPhase { s with permits := s.permits - 1 } c call .permitted)
  | reuse {s c call i rest conn} :
      s.calls c = some call → call.phase = .permitted → s.guard = none → s.idle = i :: rest →
      s.conns i = some conn →
      Step s (.reuse c)
        ((State.setConn { s with idle := rest, guard := some c } i
            { conn with asked := conn.asked ++ [(c, call.wire)] }).setPhase c call
          (.exchanging .idle i 0 []))
  | noneIdle {s c call} :
      s.calls c = some call → call.phase = .permitted → s.guard = none → s.idle = [] →
      Step s (.noneIdle c) (s.setPhase c call (.connecting 0))
  | connect {s c call attempt i} :
      s.calls c = some call → call.phase = .connecting attempt → s.conns i = none →
      Step s (.connect c i)
        ((s.setConn i { asked := [(c, call.wire)] }).setPhase c call
          (.exchanging (.fresh attempt) i 0 []))
  | connectFail {s c call attempt} :
      s.calls c = some call → call.phase = .connecting attempt →
      Step s (.connectFail c) (s.nextAttempt c call attempt)
  | write {s c call source i sent got conn n} :
      s.calls c = some call → call.phase = .exchanging source i sent got →
      s.conns i = some conn → sent + n ≤ (frame call.wire).length →
      Step s (.write c n)
        ((s.setConn i { conn with
            written := conn.written ++ ((frame call.wire).drop sent).take n }).setPhase c call
          (.exchanging source i (sent + n) got))
  | answer {s i conn query rest bytes} :
      s.conns i = some conn → unframe (conn.written.drop conn.consumed) = some (query, rest) →
      bytes.length < 65536 →
      Step s (.answer i bytes)
        (s.setConn i { conn with
          consumed := conn.consumed + (frame query).length
          answers := conn.answers ++ [(query, bytes)] })
  | read {s c call source i got conn n} :
      s.calls c = some call →
      call.phase = .exchanging source i (frame call.wire).length got →
      s.conns i = some conn → n ≤ wanted got → conn.read + n ≤ conn.replies.length →
      Step s (.read c n)
        ((s.setConn i { conn with read := conn.read + n }).setPhase c call
          (.exchanging source i (frame call.wire).length
            (got ++ (conn.replies.drop conn.read).take n)))
  | exchanged {s c call source i sent got bytes} :
      s.calls c = some call → call.phase = .exchanging source i sent got →
      unframe got = some (bytes, []) → 12 ≤ bytes.length →
      Step s (.exchanged c) (s.setPhase c call (.puttingBack source i bytes))
  | reuseFail {s c call i sent got} :
      s.calls c = some call → call.phase = .exchanging .idle i sent got →
      Step s (.exchangeFail c) (State.setPhase { s with guard := none } c call (.connecting 0))
  | freshFail {s c call attempt i sent got} :
      s.calls c = some call → call.phase = .exchanging (.fresh attempt) i sent got →
      Step s (.exchangeFail c) (s.nextAttempt c call attempt)
  | putBack {s c call source i bytes} :
      s.calls c = some call → call.phase = .puttingBack source i bytes → s.guard = none →
      Step s (.putBack c)
        (State.finish
          { s with idle := if s.idle.length < poolCapacity then s.idle ++ [i] else s.idle }
          c call (.answered i bytes))
  | cancel {s c call} :
      s.calls c = some call → call.phase.isFinished = false →
      Step s (.cancel c) (s.finish c call .cancelled)

end Relay.Dns.Upstream.Dot
