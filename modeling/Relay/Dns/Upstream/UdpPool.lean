import Mathlib.Data.List.AList
import Mathlib.Logic.Function.Basic
import Relay.Dns.Message
import Relay.Logic.Run

/-!
`UdpPool` of `dns/upstream/udp.rs` as a transition system: any number of
concurrent queries on one pool, the receive loops of its sockets, and the
datagrams between them and the upstream. Every `await` of a query, every
critical section and every wake-up of a receive loop is a step of its own.
-/

namespace Relay.Dns.Upstream

open Binary

/-- The message ID: the first two bytes, big endian. -/
def idOf : Bytes → Option (BitVec 16)
  | hi :: lo :: _ => some (BitVec.ofNat 16 (hi.toNat * 256 + lo.toNat))
  | _ => none

/-- The two bytes of an ID in place of the first two of a message. -/
def withId (id : BitVec 16) (wire : Bytes) : Bytes :=
  if 2 ≤ wire.length then
    UInt8.ofNat (id.toNat / 256) :: UInt8.ofNat (id.toNat % 256) :: wire.drop 2
  else wire

theorem idOf_withId {id id' : BitVec 16} {wire : Bytes} (h : idOf (withId id wire) = some id') :
    id' = id := by
  unfold withId at h
  split at h
  · simp only [idOf, Option.some.injEq, UInt8.toNat_ofNat'] at h
    subst h
    have hlt : id.toNat < 65536 := id.isLt
    apply BitVec.eq_of_toNat_eq
    simp only [BitVec.toNat_ofNat]
    omega
  · rename_i hshort
    cases wire with
    | nil => cases h
    | cons b rest =>
        cases rest with
        | nil => cases h
        | cons b' rest => simp at hshort

/-- One attempt of one query: the identity of its reply channel, and of the
datagram it sends. -/
structure Token where
  call : Nat
  attempt : Nat
  deriving DecidableEq, Repr

/-- The receiving end of a `oneshot` channel. -/
inductive Box where
  | waiting
  | value (bytes : Bytes)
  | closed
  deriving DecidableEq, Repr

/-- `PoolInner`: one connected socket. -/
structure Inner where
  nextId : BitVec 16 := 0
  pending : AList (fun _ : BitVec 16 => Token) := ∅
  recvRunning : Bool := true

/-- Why a query leaves the pending table without a reply. -/
inductive GivingUp where
  | sendFailed
  | closed
  | timedOut
  deriving DecidableEq, Repr

inductive PoolError where
  | bind
  | send
  | broken
  | timedOut
  | parse
  deriving DecidableEq, Repr

/-- How a query ends; `overTcp` asks again over TCP for a truncated reply. -/
inductive Outcome where
  | ok (response : Message)
  | overTcp
  | failed (e : PoolError)
  | cancelled
  deriving DecidableEq, Repr

/-- Where a query stands: before `get_or_create`, with a socket, in the
pending table before and after `send`, past its wait, at the pool's lock. -/
inductive Phase where
  | connecting (attempt : Nat)
  | connected (attempt inner : Nat)
  | registered (attempt inner : Nat) (qid : BitVec 16)
  | waiting (attempt inner : Nat) (qid : BitVec 16)
  | givingUp (attempt inner : Nat) (qid : BitVec 16) (why : GivingUp)
  | invalidating (attempt inner : Nat) (why : GivingUp)
  | finished (outcome : Outcome)
  deriving DecidableEq, Repr

structure Call where
  request : Message
  wire : Bytes
  phase : Phase

/-- A datagram on its way to the upstream through one socket. -/
structure Datagram where
  token : Token
  inner : Nat
  wire : Bytes
  deriving DecidableEq, Repr

structure State where
  installed : Option Nat := none
  inners : Nat → Option Inner := fun _ => none
  calls : Nat → Option Call := fun _ => none
  boxes : Token → Box := fun _ => .waiting
  sent : List Datagram := []
  answered : List (Datagram × Bytes) := []

/-- The choice of a query ID under the lock: the next one that is not pending,
or the last one tried. Also the new value of `next_id`. -/
def pickId (pending : AList (fun _ : BitVec 16 => Token)) :
    Nat → BitVec 16 → BitVec 16 × BitVec 16
  | 0, next => (next, next + 1)
  | tries + 1, next =>
      if next ∈ pending then pickId pending tries (next + 1) else (next, next + 1)

def Inner.pick (inner : Inner) : BitVec 16 × BitVec 16 :=
  pickId inner.pending 65535 inner.nextId

/-- The senders dropped with a pending entry wake their receivers. -/
def closeBox (boxes : Token → Box) (entry : Option Token) : Token → Box :=
  match entry with
  | some t => Function.update boxes t .closed
  | none => boxes

def State.setPhase (s : State) (c : Nat) (call : Call) (phase : Phase) : State :=
  { s with calls := Function.update s.calls c (some { call with phase := phase }) }

/-- `pending.insert(candidate, tx)`; a sender that was there is dropped. -/
def State.insertPending (s : State) (i : Nat) (inner : Inner) (t : Token) : State :=
  let (qid, next) := inner.pick
  { s with
    inners := Function.update s.inners i
      (some { inner with nextId := next, pending := inner.pending.insert qid t })
    boxes := Function.update (closeBox s.boxes (inner.pending.lookup qid)) t .waiting }

/-- `pending.remove(&qid)`, whoever's sender is there. -/
def State.removePending (s : State) (i : Nat) (inner : Inner) (qid : BitVec 16) : State :=
  { s with
    inners := Function.update s.inners i
      (some { inner with pending := inner.pending.erase qid })
    boxes := closeBox s.boxes (inner.pending.lookup qid) }

/-- The receive loop hands a message to the waiter of its ID, if any. -/
def State.deliver (s : State) (i : Nat) (inner : Inner) (bytes : Bytes) : State :=
  match idOf bytes with
  | none => s
  | some id =>
      match inner.pending.lookup id with
      | none => s
      | some t =>
          { s with
            inners := Function.update s.inners i
              (some { inner with pending := inner.pending.erase id })
            boxes := Function.update s.boxes t (.value bytes) }

/-- The receive loop ends on a socket error and drops every sender. -/
def State.clearPending (s : State) (i : Nat) (inner : Inner) : State :=
  { s with
    inners := Function.update s.inners i
      (some { inner with pending := ∅, recvRunning := false })
    boxes := fun t =>
      if inner.pending.entries.any (fun entry => decide (entry.2 = t)) then .closed
      else s.boxes t }

/-- `invalidate`: the pool forgets the socket if it is still the current one. -/
def State.invalidate (s : State) (i : Nat) : State :=
  { s with installed := if s.installed = some i then none else s.installed }

variable (H : HickoryCrate)

/-- What a query makes of the bytes it received. -/
def replyOutcome (originalId : BitVec 16) (bytes : Bytes) : Outcome :=
  match H.fromBytes (withId originalId bytes) with
  | none => .failed .parse
  | some response => if response.truncated then .overTcp else .ok response

/-- After `remove` of a pending entry: a timeout ends the query, the other
reasons go on to `invalidate`. -/
def afterRemove (attempt inner : Nat) : GivingUp → Phase
  | .timedOut => .finished (.failed .timedOut)
  | why => .invalidating attempt inner why

/-- After `invalidate`: the first attempt is followed by a second. -/
def afterInvalidate (attempt : Nat) : GivingUp → Phase
  | .sendFailed => if attempt = 0 then .connecting 1 else .finished (.failed .send)
  | _ => if attempt = 0 then .connecting 1 else .finished (.failed .broken)

/-- A query stands at an `await`, where its future can be dropped. -/
def Phase.awaits : Phase → Bool
  | .connecting _ | .registered _ _ _ | .waiting _ _ _ | .invalidating _ _ _ => true
  | _ => false

/-- A query holds an `Arc` of the socket. -/
def Phase.uses (i : Nat) : Phase → Bool
  | .connected _ inner | .registered _ inner _ | .waiting _ inner _
  | .givingUp _ inner _ _ | .invalidating _ inner _ => decide (inner = i)
  | _ => false

inductive Event where
  | start (c : Nat) (request : Message)
  | acquire (c : Nat)
  | create (c inner : Nat)
  | bindFail (c : Nat)
  | register (c : Nat)
  | send (c : Nat)
  | sendFail (c : Nat)
  | receive (c : Nat)
  | closed (c : Nat)
  | timeout (c : Nat)
  | remove (c : Nat)
  | invalidate (c : Nat)
  | cancel (c : Nat)
  | arrive (d : Datagram) (bytes : Bytes)
  | recvFail (inner : Nat)
  | dropInner (inner : Nat)

/-- One step of the pool. The upstream answers a datagram at most once, with
the datagram's ID, at any time or never. -/
inductive Step : State → Event → State → Prop where
  | start {s c request wire} :
      s.calls c = none → H.toVec request = some wire →
      Step s (.start c request)
        { s with calls := Function.update s.calls c (some ⟨request, wire, .connecting 0⟩) }
  | acquire {s c call attempt i} :
      s.calls c = some call → call.phase = .connecting attempt → s.installed = some i →
      Step s (.acquire c) (s.setPhase c call (.connected attempt i))
  | create {s c call attempt i} :
      s.calls c = some call → call.phase = .connecting attempt → s.installed = none →
      s.inners i = none →
      Step s (.create c i)
        (State.setPhase
          { s with installed := some i, inners := Function.update s.inners i (some {}) }
          c call (.connected attempt i))
  | bindFail {s c call attempt} :
      s.calls c = some call → call.phase = .connecting attempt → s.installed = none →
      Step s (.bindFail c) (s.setPhase c call (.finished (.failed .bind)))
  | register {s c call attempt i inner} :
      s.calls c = some call → call.phase = .connected attempt i → s.inners i = some inner →
      Step s (.register c)
        ((s.insertPending i inner ⟨c, attempt⟩).setPhase c call
          (.registered attempt i inner.pick.1))
  | send {s c call attempt i qid} :
      s.calls c = some call → call.phase = .registered attempt i qid →
      Step s (.send c)
        (State.setPhase
          { s with sent := s.sent ++ [⟨⟨c, attempt⟩, i, withId qid call.wire⟩] }
          c call (.waiting attempt i qid))
  | sendFail {s c call attempt i qid} :
      s.calls c = some call → call.phase = .registered attempt i qid →
      Step s (.sendFail c) (s.setPhase c call (.givingUp attempt i qid .sendFailed))
  | receive {s c call attempt i qid bytes} :
      s.calls c = some call → call.phase = .waiting attempt i qid →
      s.boxes ⟨c, attempt⟩ = .value bytes →
      Step s (.receive c)
        (s.setPhase c call (.finished (replyOutcome H call.request.id bytes)))
  | closed {s c call attempt i qid} :
      s.calls c = some call → call.phase = .waiting attempt i qid →
      s.boxes ⟨c, attempt⟩ = .closed →
      Step s (.closed c) (s.setPhase c call (.givingUp attempt i qid .closed))
  | timeout {s c call attempt i qid} :
      s.calls c = some call → call.phase = .waiting attempt i qid →
      Step s (.timeout c) (s.setPhase c call (.givingUp attempt i qid .timedOut))
  | remove {s c call attempt i qid why inner} :
      s.calls c = some call → call.phase = .givingUp attempt i qid why →
      s.inners i = some inner →
      Step s (.remove c)
        ((s.removePending i inner qid).setPhase c call (afterRemove attempt i why))
  | invalidate {s c call attempt i why} :
      s.calls c = some call → call.phase = .invalidating attempt i why →
      Step s (.invalidate c) ((s.invalidate i).setPhase c call (afterInvalidate attempt why))
  | cancel {s c call} :
      s.calls c = some call → call.phase.awaits = true →
      Step s (.cancel c) (s.setPhase c call (.finished .cancelled))
  | arrive {s d bytes inner id} :
      d ∈ s.sent → (∀ earlier, (d, earlier) ∉ s.answered) → s.inners d.inner = some inner →
      inner.recvRunning = true → idOf d.wire = some id → idOf bytes = some id →
      Step s (.arrive d bytes)
        (State.deliver { s with answered := s.answered ++ [(d, bytes)] } d.inner inner bytes)
  | recvFail {s i inner} :
      s.inners i = some inner → inner.recvRunning = true →
      Step s (.recvFail i) (s.clearPending i inner)
  | dropInner {s i inner} :
      s.inners i = some inner → s.installed ≠ some i →
      (∀ c call, s.calls c = some call → call.phase.uses i = false) →
      Step s (.dropInner i)
        { s with inners := Function.update s.inners i (some { inner with recvRunning := false }) }

end Relay.Dns.Upstream
