import Relay.Dns.Message
import Relay.Logic.Run

/-!
`dns/upstream/doh.rs`: queries over a shared HTTP client, which the first of
them to time out or fail to connect replaces, at most once in two seconds. The
tasks of the queries overlap wherever they wait, and each may be dropped there.
-/

namespace Relay.Dns.Upstream

open Binary Logic

/-- `RESET_COOLDOWN`, in nanoseconds of the monotone clock. -/
def resetCooldown : Nat := 2 * 10 ^ 9

/-- What `normalize_doh_url` uses of the `url` crate. -/
structure UrlCrate where
  Url : Type
  parse : String → Option Url
  path : Url → String
  setPath : Url → String → Url
  toString : Url → String

/-- `normalize_doh_url`. -/
def UrlCrate.normalizeDohUrl (U : UrlCrate) (url : String) : Option String := do
  let parsed ← U.parse url
  let parsed := if U.path parsed = "/" ∨ U.path parsed = "" then U.setPath parsed "/dns-query"
    else parsed
  return U.toString parsed

/-- A `reqwest::Client`, by when it took the place of another one. -/
structure HttpClient where
  installedAt : Option Nat
  deriving DecidableEq, Repr

inductive RecycleOutcome where
  /-- The client was replaced within the cooldown. -/
  | recent
  | recycled
  | buildFailed
  deriving DecidableEq, Repr

inductive DohError where
  | encode
  | url
  | post
  | status (code : Nat)
  | readBody
  | emptyBody
  | parse
  deriving DecidableEq, Repr

inductive DohPhase where
  | posting (dohUrl : String) (wire : Bytes)
  /-- `recycle` waits to read when the client was replaced last. -/
  | testing
  /-- It has found that long ago, and waits to be the one writer. -/
  | waiting
  /-- It is the writer since `now`, and waits to replace the client. -/
  | swapping (now : Nat)
  | answered (response : Message)
  | failed (e : DohError)
  /-- The POST failed, and `recycle` has returned. -/
  | recycled (outcome : RecycleOutcome) (now : Nat)
  | dropped

/-- A call of `query`, with its clone of the client. -/
structure DohTask where
  request : Message
  client : HttpClient
  phase : DohPhase

/-- `DohClient`, and the calls of `query`. -/
structure DohState where
  client : HttpClient := ⟨none⟩
  lastReset : Option Nat := none
  /-- The task that holds `last_reset` for writing. -/
  writer : Option Nat := none
  tasks : List DohTask := []

/-- `t.elapsed() < RESET_COOLDOWN`. -/
def isRecent (lastReset : Option Nat) (now : Nat) : Bool :=
  match lastReset with
  | some t => decide (now - t < resetCooldown)
  | none => false

variable (H : HickoryCrate) (U : UrlCrate)

/-- `query` up to the POST. -/
def startQuery (url : String) (request : Message) : DohPhase :=
  match H.toVec { request with id := 0 } with
  | none => .failed .encode
  | some wire =>
      match U.normalizeDohUrl url with
      | none => .failed .url
      | some dohUrl => .posting dohUrl wire

/-- `query` from the response on. -/
def readResponse (request : Message) (status : Nat) (body : Option Bytes) : DohPhase :=
  if status ≠ 200 then .failed (.status status)
  else
    match body with
    | none => .failed .readBody
    | some [] => .failed .emptyBody
    | some bytes =>
        match H.fromBytes bytes with
        | some response => .answered { response with id := request.id }
        | none => .failed .parse

inductive DohEvent where
  | query (url : String) (request : Message)
  /-- The `i`-th query has its response. -/
  | respond (i : Nat) (status : Nat) (body : Option Bytes)
  /-- Its POST fails; `recycles` after a timeout or a failed connection. -/
  | refuse (i : Nat) (recycles : Bool)
  | test (i : Nat) (now : Nat)
  /-- It is let to write, tests again, and builds a new client. -/
  | lock (i : Nat) (now : Nat) (built : Bool)
  | swap (i : Nat) (now : Nat)
  | drop (i : Nat)

def DohState.setPhase (s : DohState) (i : Nat) (task : DohTask) (phase : DohPhase) : DohState :=
  { s with tasks := s.tasks.set i { task with phase := phase } }

def DohState.next (s : DohState) : DohEvent → Option DohState
  | .query url request =>
      some { s with tasks := s.tasks ++ [⟨request, s.client, startQuery H U url request⟩] }
  | .respond i status body =>
      match s.tasks[i]? with
      | some ⟨request, client, .posting dohUrl wire⟩ =>
          some (s.setPhase i ⟨request, client, .posting dohUrl wire⟩
            (readResponse H request status body))
      | _ => none
  | .refuse i recycles =>
      match s.tasks[i]? with
      | some ⟨request, client, .posting dohUrl wire⟩ =>
          some (s.setPhase i ⟨request, client, .posting dohUrl wire⟩
            (if recycles then .testing else .failed .post))
      | _ => none
  | .test i now =>
      match s.tasks[i]?, s.writer with
      | some ⟨request, client, .testing⟩, none =>
          some (s.setPhase i ⟨request, client, .testing⟩
            (if isRecent s.lastReset now then .recycled .recent now else .waiting))
      | _, _ => none
  | .lock i now built =>
      match s.tasks[i]?, s.writer with
      | some ⟨request, client, .waiting⟩, none =>
          if isRecent s.lastReset now then
            some (s.setPhase i ⟨request, client, .waiting⟩ (.recycled .recent now))
          else if built then
            some { s.setPhase i ⟨request, client, .waiting⟩ (.swapping now) with writer := some i }
          else some (s.setPhase i ⟨request, client, .waiting⟩ (.recycled .buildFailed now))
      | _, _ => none
  | .swap i now =>
      match s.tasks[i]? with
      | some ⟨request, client, .swapping locked⟩ =>
          some { s.setPhase i ⟨request, client, .swapping locked⟩ (.recycled .recycled now) with
            client := ⟨some now⟩
            lastReset := some now
            writer := none }
      | _ => none
  | .drop i =>
      match s.tasks[i]? with
      | some task =>
          match task.phase with
          | .posting _ _ | .testing | .waiting => some (s.setPhase i task .dropped)
          | .swapping _ => some { s.setPhase i task .dropped with writer := none }
          | _ => none
      | none => none

/-! ### What a run has seen -/

/-- The reading of the clock in a step. -/
def DohEvent.reading? : DohEvent → Option Nat
  | .test _ now | .lock _ now _ | .swap _ now => some now
  | _ => none

def DohEvent.swapped? : DohEvent → Option Nat
  | .swap _ now => some now
  | _ => none

def readings (trace : List DohEvent) : List Nat := trace.filterMap DohEvent.reading?

/-- The clock of a run is monotone. -/
def DohClocked (trace : List DohEvent) : Prop := (readings trace).Pairwise (· ≤ ·)

/-- When the client was replaced. -/
def swapTimes (trace : List DohEvent) : List Nat := trace.filterMap DohEvent.swapped?

/-! ### One step -/

/-- What a step may leave a task at that neither takes nor holds the lock. -/
def DohPhase.Settled (s : DohState) (i : Nat) (request : Message) (e : DohEvent) :
    DohPhase → Prop
  | .posting _ _ | .swapping _ => False
  | .answered response =>
      ∃ body decoded, e = .respond i 200 (some body) ∧ body ≠ [] ∧
        H.fromBytes body = some decoded ∧ response = { decoded with id := request.id }
  | .recycled outcome now =>
      e.reading? = some now ∧ (outcome ≠ .buildFailed → isRecent s.lastReset now = true)
  | .testing | .waiting | .failed _ | .dropped => True

def DohPhase.isSwapping : DohPhase → Bool
  | .swapping _ => true
  | _ => false

/-- What a step can do. -/
inductive DohChange (s : DohState) : DohEvent → DohState → Prop where
  | began (url : String) (request : Message) :
      DohChange s (.query url request)
        { s with tasks := s.tasks ++ [⟨request, s.client, startQuery H U url request⟩] }
  | settled {e : DohEvent} {i : Nat} {task : DohTask} {phase : DohPhase}
      (place : s.tasks[i]? = some task) (outside : task.phase.isSwapping = false)
      (quiet : e.swapped? = none) (fits : phase.Settled H s i task.request e) :
      DohChange s e (s.setPhase i task phase)
  | locked {i now : Nat} {task : DohTask} (place : s.tasks[i]? = some task)
      (outside : task.phase.isSwapping = false) (free : s.writer = none)
      (old : isRecent s.lastReset now = false) :
      DohChange s (.lock i now true) { s.setPhase i task (.swapping now) with writer := some i }
  | swapped {i lockedAt now : Nat} {task : DohTask} (place : s.tasks[i]? = some task)
      (holds : task.phase = .swapping lockedAt) :
      DohChange s (.swap i now)
        { s.setPhase i task (.recycled .recycled now) with
          client := ⟨some now⟩
          lastReset := some now
          writer := none }
  | released {i lockedAt : Nat} {task : DohTask} (place : s.tasks[i]? = some task)
      (holds : task.phase = .swapping lockedAt) :
      DohChange s (.drop i) { s.setPhase i task .dropped with writer := none }

variable {H U} {s s' : DohState} {e : DohEvent} {trace : List DohEvent} {i : Nat}

theorem readResponse_settled (request : Message) (status : Nat) (body : Option Bytes) :
    (readResponse H request status body).Settled H s i request (.respond i status body) := by
  unfold readResponse
  by_cases hstatus : status = 200
  · subst hstatus
    match body with
    | none => trivial
    | some [] => trivial
    | some (first :: rest) =>
        simp only [ne_eq, not_true_eq_false, ↓reduceIte]
        cases hdecoded : H.fromBytes (first :: rest) with
        | none => trivial
        | some decoded => exact ⟨_, decoded, rfl, by simp, hdecoded, rfl⟩
  · rw [if_pos hstatus]
    trivial

theorem DohState.next_change (h : s.next H U e = some s') : DohChange H U s e s' := by
  cases e with
  | query url request =>
      cases h
      exact .began url request
  | respond i status body =>
      simp only [DohState.next] at h
      split at h
      · rename_i request client dohUrl wire hplace
        cases h
        exact .settled hplace rfl rfl (readResponse_settled request status body)
      · cases h
  | refuse i recycles =>
      simp only [DohState.next] at h
      split at h
      · rename_i request client dohUrl wire hplace
        cases h
        cases recycles with
        | true => exact .settled hplace rfl rfl trivial
        | false => exact .settled hplace rfl rfl trivial
      · cases h
  | test i now =>
      simp only [DohState.next] at h
      split at h
      · rename_i request client hplace hfree
        cases h
        split
        · rename_i hrecent
          exact .settled hplace rfl rfl ⟨rfl, fun _ => hrecent⟩
        · exact .settled hplace rfl rfl trivial
      · cases h
  | lock i now built =>
      simp only [DohState.next] at h
      split at h
      · rename_i request client hplace hfree
        split at h
        · rename_i hrecent
          cases h
          exact .settled hplace rfl rfl ⟨rfl, fun _ => hrecent⟩
        · rename_i hold
          split at h
          · rename_i hbuilt
            cases h
            subst hbuilt
            exact .locked hplace rfl hfree (by simpa using hold)
          · cases h
            exact .settled hplace rfl rfl ⟨rfl, fun hne => absurd rfl hne⟩
      · cases h
  | swap i now =>
      simp only [DohState.next] at h
      split at h
      · rename_i request client lockedAt hplace
        cases h
        exact .swapped hplace rfl
      · cases h
  | drop i =>
      simp only [DohState.next] at h
      split at h
      · rename_i task hplace
        split at h
        · rename_i hphase
          cases h
          exact .settled hplace (by rw [hphase]; rfl) rfl trivial
        · rename_i hphase
          cases h
          exact .settled hplace (by rw [hphase]; rfl) rfl trivial
        · rename_i hphase
          cases h
          exact .settled hplace (by rw [hphase]; rfl) rfl trivial
        · rename_i lockedAt hphase
          cases h
          exact .released hplace hphase
        · cases h
      · cases h

end Relay.Dns.Upstream
