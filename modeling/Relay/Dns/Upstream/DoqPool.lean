import Relay.Dns.Wire
import Relay.Logic.Run

/-!
`dns/upstream/doq.rs`: queries that share an idle connection behind a lock. A
query that takes the connection out holds the lock to the end of the block in
which it also waits for the lock, to put the connection back.
-/

namespace Relay.Dns.Upstream

open Binary Logic

inductive DoqPhase where
  /-- Waits for the lock, to take the idle connection. -/
  | locking (wire : Bytes)
  /-- Asks over the idle connection, with the lock. -/
  | reusing (conn : Nat) (wire : Bytes)
  /-- Has its reply and the lock, and waits for the lock to put the connection back. -/
  | returning (conn : Nat) (bytes : Bytes)
  /-- Resolves the host, opens a connection and asks over it. -/
  | connecting (wire : Bytes)
  /-- Waits for the lock, to put its own connection there. -/
  | storing (conn : Nat) (bytes : Bytes)
  | answered (response : Message)
  | failed
  | dropped

structure DoqTask where
  request : Message
  phase : DoqPhase

/-- The idle connection with its lock, and the calls of `query`. -/
structure DoqState where
  pool : Option Nat := none
  /-- The task that holds the lock where it waits for something else. -/
  holder : Option Nat := none
  /-- The number of the next connection. -/
  opened : Nat := 0
  tasks : List DoqTask := []

inductive DoqEvent where
  | query (request : Message)
  /-- The `i`-th query gets the lock, and takes what is in the pool. -/
  | lock (i : Nat)
  /-- It is answered over the idle connection. -/
  | respond (i : Nat) (bytes : Bytes)
  /-- The idle connection fails, or its five seconds are over. -/
  | refuse (i : Nat)
  /-- It has opened a connection and is answered over it. -/
  | connect (i : Nat) (bytes : Bytes)
  /-- The host is not resolved, or the new connection fails. -/
  | fail (i : Nat)
  /-- It gets the lock, and puts a connection into the pool. -/
  | store (i : Nat)
  | drop (i : Nat)

section

variable (H : HickoryCrate)

/-- `query` up to the lock. -/
def startDoq (request : Message) : DoqPhase :=
  match H.toVec { request with id := 0 } with
  | none => .failed
  | some wire => .locking wire

/-- `query` from where the connection is back. -/
def finishDoq (request : Message) (bytes : Bytes) : DoqPhase :=
  match H.fromBytes bytes with
  | some response => .answered { response with id := request.id }
  | none => .failed

def DoqState.setPhase (s : DoqState) (i : Nat) (task : DoqTask) (phase : DoqPhase) : DoqState :=
  { s with tasks := s.tasks.set i { task with phase := phase } }

def DoqState.next (s : DoqState) : DoqEvent → Option DoqState
  | .query request => some { s with tasks := s.tasks ++ [⟨request, startDoq H request⟩] }
  | .lock i =>
      match s.tasks[i]?, s.holder with
      | some ⟨request, .locking wire⟩, none =>
          match s.pool with
          | some conn =>
              some { s.setPhase i ⟨request, .locking wire⟩ (.reusing conn wire) with
                pool := none
                holder := some i }
          | none => some (s.setPhase i ⟨request, .locking wire⟩ (.connecting wire))
      | _, _ => none
  | .respond i bytes =>
      match s.tasks[i]? with
      | some ⟨request, .reusing conn wire⟩ =>
          some (s.setPhase i ⟨request, .reusing conn wire⟩ (.returning conn bytes))
      | _ => none
  | .refuse i =>
      match s.tasks[i]? with
      | some ⟨request, .reusing conn wire⟩ =>
          some { s.setPhase i ⟨request, .reusing conn wire⟩ (.connecting wire) with
            holder := none }
      | _ => none
  | .connect i bytes =>
      match s.tasks[i]? with
      | some ⟨request, .connecting wire⟩ =>
          some { s.setPhase i ⟨request, .connecting wire⟩ (.storing s.opened bytes) with
            opened := s.opened + 1 }
      | _ => none
  | .fail i =>
      match s.tasks[i]? with
      | some ⟨request, .connecting wire⟩ =>
          some (s.setPhase i ⟨request, .connecting wire⟩ .failed)
      | _ => none
  | .store i =>
      match s.tasks[i]?, s.holder with
      | some ⟨request, .returning conn bytes⟩, none =>
          some { s.setPhase i ⟨request, .returning conn bytes⟩ (finishDoq H request bytes) with
            pool := some conn }
      | some ⟨request, .storing conn bytes⟩, none =>
          some { s.setPhase i ⟨request, .storing conn bytes⟩ (finishDoq H request bytes) with
            pool := some conn }
      | _, _ => none
  | .drop i =>
      match s.tasks[i]? with
      | some task =>
          match task.phase with
          | .locking _ | .connecting _ | .storing _ _ => some (s.setPhase i task .dropped)
          -- with the future its connection and its lock are gone
          | .reusing _ _ | .returning _ _ =>
              some { s.setPhase i task .dropped with holder := none }
          | .answered _ | .failed | .dropped => none
      | none => none

end

/-! ### One step -/

/-- It holds the lock. -/
def DoqPhase.holds : DoqPhase → Bool
  | .reusing _ _ | .returning _ _ => true
  | _ => false

/-- It waits with the lock for the lock. -/
def DoqPhase.isReturning : DoqPhase → Bool
  | .returning _ _ => true
  | _ => false

def DoqPhase.isAnswered : DoqPhase → Bool
  | .answered _ => true
  | _ => false

def DoqPhase.isOver : DoqPhase → Bool
  | .answered _ | .failed | .dropped => true
  | _ => false

/-- How one task moves, and what it does to the pool and to the lock. -/
inductive DoqMove (H : HickoryCrate) (s : DoqState) (i : Nat) (request : Message) :
    DoqEvent → DoqPhase → DoqPhase → Option Nat → Option Nat → Prop where
  | reuse {conn : Nat} {wire : Bytes} (free : s.holder = none) (idle : s.pool = some conn) :
      DoqMove H s i request (.lock i) (.locking wire) (.reusing conn wire) none (some i)
  | miss {wire : Bytes} (free : s.holder = none) (empty : s.pool = none) :
      DoqMove H s i request (.lock i) (.locking wire) (.connecting wire) s.pool s.holder
  | respond {conn : Nat} {wire bytes : Bytes} :
      DoqMove H s i request (.respond i bytes) (.reusing conn wire) (.returning conn bytes) s.pool
        s.holder
  | refuse {conn : Nat} {wire : Bytes} :
      DoqMove H s i request (.refuse i) (.reusing conn wire) (.connecting wire) s.pool none
  | connect {wire bytes : Bytes} :
      DoqMove H s i request (.connect i bytes) (.connecting wire) (.storing s.opened bytes) s.pool
        s.holder
  | fail {wire : Bytes} :
      DoqMove H s i request (.fail i) (.connecting wire) .failed s.pool s.holder
  | putBack {conn : Nat} {bytes : Bytes} (free : s.holder = none) :
      DoqMove H s i request (.store i) (.returning conn bytes) (finishDoq H request bytes)
        (some conn) s.holder
  | store {conn : Nat} {bytes : Bytes} (free : s.holder = none) :
      DoqMove H s i request (.store i) (.storing conn bytes) (finishDoq H request bytes)
        (some conn) s.holder
  | leave {phase : DoqPhase} (lives : phase.isOver = false) (outside : phase.holds = false) :
      DoqMove H s i request (.drop i) phase .dropped s.pool s.holder
  | release {phase : DoqPhase} (holds : phase.holds = true) :
      DoqMove H s i request (.drop i) phase .dropped s.pool none

variable {H : HickoryCrate} {s s' : DoqState} {e : DoqEvent} {trace : List DoqEvent}
  {i : Nat} {task : DoqTask}

/-- A step begins a query or moves one. -/
theorem DoqState.next_cases (h : s.next H e = some s') :
    (∃ request, e = .query request ∧ s'.pool = s.pool ∧ s'.holder = s.holder ∧
        s'.tasks = s.tasks ++ [⟨request, startDoq H request⟩]) ∨
      ∃ (i : Nat) (task : DoqTask) (phase : DoqPhase), s.tasks[i]? = some task ∧
        s'.tasks = s.tasks.set i { task with phase := phase } ∧
        DoqMove H s i task.request e task.phase phase s'.pool s'.holder := by
  cases e with
  | query request =>
      cases h
      exact Or.inl ⟨request, rfl, rfl, rfl, rfl⟩
  | lock i =>
      simp only [DoqState.next] at h
      split at h
      · rename_i request wire hplace hfree
        split at h
        · rename_i conn hidle
          cases h
          exact Or.inr ⟨i, _, _, hplace, rfl, .reuse hfree hidle⟩
        · rename_i hempty
          cases h
          exact Or.inr ⟨i, _, _, hplace, rfl, .miss hfree hempty⟩
      · cases h
  | respond i bytes =>
      simp only [DoqState.next] at h
      split at h
      · rename_i request conn wire hplace
        cases h
        exact Or.inr ⟨i, _, _, hplace, rfl, .respond⟩
      · cases h
  | refuse i =>
      simp only [DoqState.next] at h
      split at h
      · rename_i request conn wire hplace
        cases h
        exact Or.inr ⟨i, _, _, hplace, rfl, .refuse⟩
      · cases h
  | connect i bytes =>
      simp only [DoqState.next] at h
      split at h
      · rename_i request wire hplace
        cases h
        exact Or.inr ⟨i, _, _, hplace, rfl, .connect⟩
      · cases h
  | fail i =>
      simp only [DoqState.next] at h
      split at h
      · rename_i request wire hplace
        cases h
        exact Or.inr ⟨i, _, _, hplace, rfl, .fail⟩
      · cases h
  | store i =>
      simp only [DoqState.next] at h
      split at h
      · rename_i request conn bytes hplace hfree
        cases h
        exact Or.inr ⟨i, _, _, hplace, rfl, .putBack hfree⟩
      · rename_i request conn bytes hplace hfree
        cases h
        exact Or.inr ⟨i, _, _, hplace, rfl, .store hfree⟩
      · cases h
  | drop i =>
      simp only [DoqState.next] at h
      split at h
      · rename_i task hplace
        split at h
        · rename_i hphase
          cases h
          exact Or.inr ⟨i, _, _, hplace, rfl, .leave (by rw [hphase]; rfl) (by rw [hphase]; rfl)⟩
        · rename_i hphase
          cases h
          exact Or.inr ⟨i, _, _, hplace, rfl, .leave (by rw [hphase]; rfl) (by rw [hphase]; rfl)⟩
        · rename_i hphase
          cases h
          exact Or.inr ⟨i, _, _, hplace, rfl, .leave (by rw [hphase]; rfl) (by rw [hphase]; rfl)⟩
        · rename_i hphase
          cases h
          exact Or.inr ⟨i, _, _, hplace, rfl, .release (by rw [hphase]; rfl)⟩
        · rename_i hphase
          cases h
          exact Or.inr ⟨i, _, _, hplace, rfl, .release (by rw [hphase]; rfl)⟩
        · cases h
        · cases h
        · cases h
      · cases h

theorem DoqPhase.not_over_of_holds {phase : DoqPhase} (h : phase.holds = true) :
    phase.isOver = false := by
  cases phase <;> first | rfl | cases h

/-- A task after a step of `i`: the one that moved, or another one. -/
theorem moved_cases {tasks : List DoqTask} {j : Nat} {other moved : DoqTask}
    (hplace : tasks[i]? = some task) (hj : (tasks.set i moved)[j]? = some other) :
    j = i ∧ other = moved ∨ j ≠ i ∧ tasks[j]? = some other := by
  obtain ⟨hlt, _⟩ := List.getElem?_eq_some_iff.mp hplace
  by_cases hsame : j = i
  · subst hsame
    rw [List.getElem?_set_self hlt] at hj
    cases hj
    exact Or.inl ⟨rfl, rfl⟩
  · rw [List.getElem?_set_ne (Ne.symm hsame)] at hj
    exact Or.inr ⟨hsame, hj⟩

/-- A task after one has begun. -/
theorem began_cases {tasks : List DoqTask} {j : Nat} {other new : DoqTask}
    (hj : (tasks ++ [new])[j]? = some other) :
    j = tasks.length ∧ other = new ∨ tasks[j]? = some other := by
  rcases Nat.lt_or_ge j tasks.length with hlt | hge
  · rw [List.getElem?_append_left hlt] at hj
    exact Or.inr hj
  · rw [List.getElem?_append_right hge, List.getElem?_singleton] at hj
    obtain ⟨hzero, hnew⟩ := Option.ite_none_right_eq_some.mp hj
    exact Or.inl ⟨by omega, (Option.some.inj hnew).symm⟩

/-! ### What a reply comes from -/

/-- What a phase says of the run so far and of the lock. -/
def DoqPhase.Sound (H : HickoryCrate) (trace : List DoqEvent) (s : DoqState) (i : Nat)
    (request : Message) : DoqPhase → Prop
  | .reusing _ _ | .returning _ _ => s.holder = some i ∧ s.pool = none
  | .storing _ bytes => .connect i bytes ∈ trace
  | .answered response =>
      ∃ bytes decoded, .connect i bytes ∈ trace ∧ H.fromBytes bytes = some decoded ∧
        response = { decoded with id := request.id }
  | .locking _ | .connecting _ | .failed | .dropped => True

def DoqState.Sound (H : HickoryCrate) (trace : List DoqEvent) (s : DoqState) : Prop :=
  ∀ (i : Nat) (task : DoqTask), s.tasks[i]? = some task → task.phase.Sound H trace s i task.request

/-- What another one may do: a task with the lock sees no change of pool and lock. -/
theorem DoqPhase.Sound.frame {request : Message} {phase : DoqPhase}
    (h : phase.Sound H trace s i request) (e : DoqEvent)
    (hlock : s.holder = some i → s'.holder = s.holder ∧ s'.pool = s.pool) :
    phase.Sound H (trace ++ [e]) s' i request := by
  cases phase with
  | reusing conn wire =>
      obtain ⟨hholder, hpool⟩ := hlock h.1
      exact ⟨hholder.trans h.1, hpool.trans h.2⟩
  | returning conn bytes =>
      obtain ⟨hholder, hpool⟩ := hlock h.1
      exact ⟨hholder.trans h.1, hpool.trans h.2⟩
  | storing conn bytes => exact List.mem_append_left _ h
  | answered response =>
      obtain ⟨bytes, decoded, hconnect, hfacts⟩ := h
      exact ⟨bytes, decoded, List.mem_append_left _ hconnect, hfacts⟩
  | _ => trivial

/-- While another one has the lock, no move changes the pool or the lock. -/
theorem DoqMove.alone {request : Message} {phase phase' : DoqPhase} {pool holder : Option Nat}
    (move : DoqMove H s i request e phase phase' pool holder)
    (hself : phase.Sound H trace s i request) {j : Nat} (hne : j ≠ i)
    (hholder : s.holder = some j) : holder = s.holder ∧ pool = s.pool := by
  have hheld : phase.holds = false := by
    by_contra hholds
    have : s.holder = some i := by
      cases phase <;> first | exact hself.1 | exact absurd rfl hholds
    rw [hholder] at this
    exact hne (Option.some.inj this)
  cases move with
  | reuse free => rw [free] at hholder; cases hholder
  | refuse => cases hheld
  | putBack free => rw [free] at hholder; cases hholder
  | store free => rw [free] at hholder; cases hholder
  | release holds => rw [hheld] at holds; cases holds
  | _ => exact ⟨rfl, rfl⟩

theorem finishDoq_sound {request : Message} {bytes : Bytes} (h : .connect i bytes ∈ trace) :
    (finishDoq H request bytes).Sound H trace s i request := by
  unfold finishDoq
  cases hdecoded : H.fromBytes bytes with
  | none => trivial
  | some decoded => exact ⟨bytes, decoded, h, hdecoded, rfl⟩

theorem DoqMove.sound {request : Message} {phase phase' : DoqPhase} {pool holder : Option Nat}
    (move : DoqMove H s i request e phase phase' pool holder)
    (hself : phase.Sound H trace s i request) (hpool : s'.pool = pool)
    (hholder : s'.holder = holder) : phase'.Sound H (trace ++ [e]) s' i request := by
  cases move with
  | reuse => exact ⟨hholder, hpool⟩
  | respond => exact ⟨hholder.trans hself.1, hpool.trans hself.2⟩
  | connect => exact List.mem_append_right _ (List.mem_singleton.mpr rfl)
  | putBack free =>
      have hlocked := hself.1
      rw [free] at hlocked
      cases hlocked
  | store => exact finishDoq_sound (List.mem_append_left _ hself)
  | miss | refuse | fail | leave | release => trivial

theorem startDoq_sound (request : Message) : (startDoq H request).Sound H trace s i request := by
  unfold startDoq
  split <;> trivial

theorem DoqState.Sound.step (h : s.Sound H trace) (hstep : s.next H e = some s') :
    s'.Sound H (trace ++ [e]) := by
  intro j other hj
  rcases DoqState.next_cases hstep with
    ⟨request, rfl, hpool, hholder, htasks⟩ | ⟨i, task, phase, hplace, htasks, move⟩
  · rw [htasks] at hj
    rcases began_cases hj with ⟨rfl, rfl⟩ | hold
    · exact startDoq_sound request
    · exact (h j other hold).frame _ fun _ => ⟨hholder, hpool⟩
  · rw [htasks] at hj
    have hself := h i task hplace
    rcases moved_cases hplace hj with ⟨rfl, rfl⟩ | ⟨hne, hold⟩
    · exact move.sound hself rfl rfl
    · exact (h j other hold).frame _ (move.alone hself hne)

theorem DoqState.Sound.run (run : Steps (fun s e t => s.next H e = some t) {} trace s) :
    s.Sound H trace := by
  induction run with
  | done =>
      intro i task hplace
      cases hplace
  | next _ hstep ih => exact ih.step hstep

/-! ### A query that waits for itself -/

theorem startDoq_not_answered (request : Message) :
    (startDoq H request).isAnswered = false := by
  unfold startDoq
  split <;> rfl

/-- Only with a free lock is a query answered. -/
theorem DoqMove.not_answered {request : Message} {phase phase' : DoqPhase}
    {pool holder : Option Nat} (move : DoqMove H s i request e phase phase' pool holder)
    (hlocked : s.holder ≠ none) : phase'.isAnswered = false := by
  cases move with
  | putBack free => exact absurd free hlocked
  | store free => exact absurd free hlocked
  | _ => rfl

/-- While a query waits with the lock for the lock, it stays and nobody is answered. -/
theorem DoqState.next_waits {conn : Nat} {bytes : Bytes} (hstep : s.next H e = some s')
    (hplace : s.tasks[i]? = some task) (hphase : task.phase = .returning conn bytes)
    (hholder : s.holder = some i) (he : e ≠ .drop i) :
    s'.tasks[i]? = some task ∧ ∀ (j : Nat) (other : DoqTask), s'.tasks[j]? = some other →
      other.phase.isAnswered = true → s.tasks[j]? = some other := by
  have hlocked : s.holder ≠ none := by
    rw [hholder]
    exact Option.some_ne_none i
  rcases DoqState.next_cases hstep with
    ⟨request, rfl, _, _, htasks⟩ | ⟨k, moving, phase, hmoving, htasks, move⟩
  · rw [htasks]
    obtain ⟨hlt, _⟩ := List.getElem?_eq_some_iff.mp hplace
    refine ⟨by rw [List.getElem?_append_left hlt, hplace], ?_⟩
    intro j other hj hanswered
    rcases began_cases hj with ⟨_, rfl⟩ | hold
    · rw [startDoq_not_answered] at hanswered
      cases hanswered
    · exact hold
  · have hne : k ≠ i := by
      rintro rfl
      rw [hplace] at hmoving
      cases hmoving
      rw [hphase] at move
      generalize s'.pool = pool, s'.holder = holder at move
      cases move with
      | putBack free => exact hlocked free
      | leave _ outside => cases outside
      | release => exact he rfl
    rw [htasks]
    refine ⟨by rw [List.getElem?_set_ne hne, hplace], ?_⟩
    intro j other hj hanswered
    rcases moved_cases hmoving hj with ⟨_, rfl⟩ | ⟨_, hold⟩
    · rw [move.not_answered hlocked] at hanswered
      cases hanswered
    · exact hold

theorem DoqState.run_waits {conn : Nat} {bytes : Bytes} {later : List DoqEvent}
    (h : s.Sound H trace) (hplace : s.tasks[i]? = some task)
    (hphase : task.phase = .returning conn bytes)
    (run : Steps (fun s e t => s.next H e = some t) s later s') (hkept : .drop i ∉ later) :
    s'.Sound H (trace ++ later) ∧ s'.tasks[i]? = some task ∧
      ∀ (j : Nat) (other : DoqTask), s'.tasks[j]? = some other → other.phase.isAnswered = true →
        s.tasks[j]? = some other := by
  induction run with
  | done =>
      rw [List.append_nil]
      exact ⟨h, hplace, fun _ _ hj _ => hj⟩
  | @next t u events e _ hstep ih =>
      obtain ⟨hsound, hthere, hearlier⟩ := ih fun hdrop => hkept (List.mem_append_left _ hdrop)
      have he : e ≠ .drop i := by
        rintro rfl
        exact hkept (List.mem_append_right _ List.mem_cons_self)
      have hself := hsound i task hthere
      rw [hphase] at hself
      obtain ⟨hstays, hsame⟩ := DoqState.next_waits hstep hthere hphase hself.1 he
      rw [← List.append_assoc]
      exact ⟨hsound.step hstep, hstays, fun j other hj hanswered =>
        hearlier j other (hsame j other hj hanswered) hanswered⟩

/-- In every run each answer comes over a connection that the query itself has
opened. One that has its reply over the idle connection does not return while its
future lives, and as long as it lives it has the lock, the pool is empty and no
other query is answered. When it is dropped the connection is gone. -/
theorem idle_connection_answers_nobody
    (run : Steps (fun s e t => DoqState.next H s e = some t) {} trace s) :
    (∀ (i : Nat) (task : DoqTask) response, s.tasks[i]? = some task →
      task.phase = .answered response →
      ∃ bytes decoded, .connect i bytes ∈ trace ∧ H.fromBytes bytes = some decoded ∧
        response = { decoded with id := task.request.id }) ∧
    ∀ (i : Nat) (task : DoqTask) conn bytes, s.tasks[i]? = some task →
      task.phase = .returning conn bytes →
      (∀ later s', Steps (fun s e t => DoqState.next H s e = some t) s later s' →
        .drop i ∉ later → s'.tasks[i]? = some task ∧ s'.holder = some i ∧ s'.pool = none ∧
          ∀ (j : Nat) (other : DoqTask), s'.tasks[j]? = some other →
            other.phase.isAnswered = true → s.tasks[j]? = some other) ∧
      ∀ s', s.next H (.drop i) = some s' → s'.holder = none ∧ s'.pool = none := by
  have hsound : s.Sound H trace := .run run
  refine ⟨?_, ?_⟩
  · intro i task response hplace hphase
    have hself := hsound i task hplace
    rw [hphase] at hself
    exact hself
  · intro i task conn bytes hplace hphase
    have hself := hsound i task hplace
    rw [hphase] at hself
    refine ⟨?_, ?_⟩
    · intro later s' rest hkept
      obtain ⟨hsound', hthere, hearlier⟩ :=
        DoqState.run_waits hsound hplace hphase rest hkept
      have hself' := hsound' i task hthere
      rw [hphase] at hself'
      exact ⟨hthere, hself'.1, hself'.2, hearlier⟩
    · intro s' hdrop
      simp only [DoqState.next, hplace, hphase] at hdrop
      cases hdrop
      exact ⟨rfl, hself.2⟩

/-- The question of the sample request comes back, under the ID 0. -/
def doqReply : Bytes := [0, 0, 0x80, 0, 0, 1, 0, 0, 0, 0, 0, 0] ++ [1, 97, 0, 0, 1, 0, 1]

/-- A query over a new connection, and another one that finds it in the pool. -/
def reusedTrace : List DoqEvent :=
  [.query sampleRequest, .lock 0, .connect 0 doqReply, .store 0,
    .query { sampleRequest with id := 9 }, .lock 1, .respond 1 doqReply]

theorem idle_connection_answers_nobody_second :
    ∃ (s : DoqState) (task : DoqTask),
      Steps (fun s e t => DoqState.next questionCodec s e = some t) {} reusedTrace s ∧
      s.tasks[1]? = some task ∧ task.phase = .returning 0 doqReply ∧
      ∀ later s', Steps (fun s e t => DoqState.next questionCodec s e = some t) s later s' →
        .drop 1 ∉ later → s'.tasks[1]? = some task ∧ s'.holder = some 1 := by
  let result := reusedTrace.foldlM (DoqState.next questionCodec) {}
  have hsome : result.isSome = true := rfl
  have run : Steps (fun s e t => DoqState.next questionCodec s e = some t) {} reusedTrace
      (result.get hsome) := .of_foldlM (Option.some_get hsome).symm
  obtain ⟨task, hplace⟩ : ∃ task, (result.get hsome).tasks[1]? = some task := ⟨_, rfl⟩
  have hphase : task.phase = .returning 0 doqReply := by
    cases hplace
    rfl
  refine ⟨_, task, run, hplace, hphase, ?_⟩
  intro later s' rest hkept
  obtain ⟨hstays, _⟩ := (idle_connection_answers_nobody run).2 1 task 0 doqReply hplace hphase
  obtain ⟨hthere, hholder, _⟩ := hstays later s' rest hkept
  exact ⟨hthere, hholder⟩

/-! ### Queries one after another -/

/-- Queries come one at a time, the server answers at once, and a query is given
up only when it waits for itself. -/
def DoqPrompt (H : HickoryCrate) (s : DoqState) : DoqEvent → Prop
  | .query request =>
      (∀ task ∈ s.tasks, task.phase.isOver = true) ∧
        (H.toVec { request with id := 0 }).isSome = true
  | .respond _ bytes | .connect _ bytes => (H.fromBytes bytes).isSome = true
  | .refuse _ | .fail _ => False
  | .drop i => (s.tasks[i]?.map fun task => task.phase.isReturning) = some true
  | .lock _ | .store _ => True

instance (s : DoqState) : (e : DoqEvent) → Decidable (DoqPrompt H s e)
  | .query _ => inferInstanceAs (Decidable (_ ∧ _))
  | .respond _ _ | .connect _ _ => inferInstanceAs (Decidable (_ = true))
  | .refuse _ | .fail _ => inferInstanceAs (Decidable False)
  | .drop _ => inferInstanceAs (Decidable (_ = some true))
  | .lock _ | .store _ => inferInstanceAs (Decidable True)

/-- The even ones open a connection, which the odd ones find. -/
def DoqPhase.Alternates (H : HickoryCrate) (s : DoqState) (i : Nat) : DoqPhase → Prop
  | .locking _ => s.holder = none ∧ s.pool.isSome = decide (i % 2 = 1)
  | .reusing _ _ | .returning _ _ => s.pool = none ∧ i % 2 = 1
  | .connecting _ => s.holder = none ∧ s.pool = none ∧ i % 2 = 0
  | .storing _ bytes => s.holder = none ∧ i % 2 = 0 ∧ (H.fromBytes bytes).isSome = true
  | .answered _ => i % 2 = 0
  | .dropped => i % 2 = 1
  | .failed => False

structure DoqState.Alternates (H : HickoryCrate) (s : DoqState) : Prop where
  phases : ∀ (i : Nat) (task : DoqTask), s.tasks[i]? = some task → task.phase.Alternates H s i
  /-- Only the last query is not over. -/
  last : ∀ (i : Nat) (task : DoqTask), s.tasks[i]? = some task → task.phase.isOver = false →
    i + 1 = s.tasks.length
  idle : (∀ task ∈ s.tasks, task.phase.isOver = true) →
    s.holder = none ∧ s.pool.isSome = decide (s.tasks.length % 2 = 1)

theorem DoqPhase.Alternates.of_over {phase : DoqPhase} (h : phase.Alternates H s i)
    (hover : phase.isOver = true) (s' : DoqState) : phase.Alternates H s' i := by
  cases phase with
  | answered response => exact h
  | failed => exact h
  | dropped => exact h
  | _ => cases hover

theorem DoqMove.not_over {request : Message} {phase phase' : DoqPhase}
    {pool holder : Option Nat} (move : DoqMove H s i request e phase phase' pool holder) :
    phase.isOver = false := by
  cases move with
  | leave lives => exact lives
  | release holds => exact DoqPhase.not_over_of_holds holds
  | _ => rfl

theorem DoqMove.alternates {phase : DoqPhase} {pool holder : Option Nat}
    (move : DoqMove H s i task.request e task.phase phase pool holder)
    (hself : task.phase.Alternates H s i) (hsound : task.phase.Sound H trace s i task.request)
    (hplace : s.tasks[i]? = some task) (hprompt : DoqPrompt H s e) (hpool : s'.pool = pool)
    (hholder : s'.holder = holder) :
    phase.Alternates H s' i ∧ (phase.isOver = true →
      s'.holder = none ∧ s'.pool.isSome = decide ((i + 1) % 2 = 1)) := by
  obtain ⟨request, before⟩ := task
  dsimp only at move hself hsound
  cases move with
  | reuse free idle =>
      have hodd : i % 2 = 1 := by
        have hfound := hself.2
        rw [idle] at hfound
        exact of_decide_eq_true hfound.symm
      exact ⟨⟨hpool, hodd⟩, nofun⟩
  | miss free empty =>
      have heven : ¬ i % 2 = 1 := by
        have hfound := hself.2
        rw [empty] at hfound
        exact of_decide_eq_false hfound.symm
      exact ⟨⟨hholder.trans free, hpool.trans empty, by omega⟩, nofun⟩
  | respond => exact ⟨⟨hpool.trans hself.1, hself.2⟩, nofun⟩
  | refuse => exact hprompt.elim
  | connect => exact ⟨⟨hholder.trans hself.1, hself.2.2, hprompt⟩, nofun⟩
  | fail => exact hprompt.elim
  | putBack free =>
      have hlocked := hsound.1
      rw [free] at hlocked
      cases hlocked
  | store free =>
      obtain ⟨_, heven, hread⟩ := hself
      obtain ⟨decoded, hdecoded⟩ := Option.isSome_iff_exists.mp hread
      rw [finishDoq, hdecoded]
      refine ⟨heven, fun _ => ⟨hholder.trans free, ?_⟩⟩
      rw [hpool, Option.isSome_some]
      exact (decide_eq_true (by omega)).symm
  | leave _ outside =>
      have hwaits : (s.tasks[i]?.map fun task => task.phase.isReturning) = some true := hprompt
      rw [hplace, Option.map_some, Option.some.injEq] at hwaits
      cases before with
      | returning => cases outside
      | _ => cases hwaits
  | release holds =>
      have hodd : before.Alternates H s i → s.pool = none ∧ i % 2 = 1 := by
        cases before <;> first | exact id | cases holds
      obtain ⟨hempty, hodd⟩ := hodd hself
      refine ⟨hodd, fun _ => ⟨hholder, ?_⟩⟩
      rw [hpool, hempty, Option.isSome_none]
      exact (decide_eq_false (by omega)).symm

theorem DoqState.Alternates.step (h : s.Alternates H) (hsound : s.Sound H trace)
    (hstep : s.next H e = some s') (hprompt : DoqPrompt H s e) : s'.Alternates H := by
  rcases DoqState.next_cases hstep with
    ⟨request, rfl, hpool, hholder, htasks⟩ | ⟨i, task, phase, hplace, htasks, move⟩
  · obtain ⟨hover, hencoded⟩ := hprompt
    obtain ⟨hfree, hidle⟩ := h.idle hover
    obtain ⟨wire, hwire⟩ := Option.isSome_iff_exists.mp hencoded
    have hnew : startDoq H request = .locking wire := by rw [startDoq, hwire]
    refine ⟨?_, ?_, ?_⟩
    · intro j other hj
      rw [htasks] at hj
      rcases began_cases hj with ⟨rfl, rfl⟩ | hold
      · rw [hnew]
        exact ⟨hholder.trans hfree, by rw [hpool]; exact hidle⟩
      · exact (h.phases j other hold).of_over (hover other (List.mem_of_getElem? hold)) s'
    · intro j other hj hlives
      rw [htasks] at hj ⊢
      rcases began_cases hj with ⟨rfl, rfl⟩ | hold
      · rw [List.length_append, List.length_singleton]
      · rw [hover other (List.mem_of_getElem? hold)] at hlives
        cases hlives
    · intro hall
      have hlast := hall ⟨request, startDoq H request⟩ (by rw [htasks]; simp)
      rw [hnew] at hlast
      cases hlast
  · have hlast := h.last i task hplace move.not_over
    obtain ⟨hself, hidle⟩ :=
      move.alternates (h.phases i task hplace) (hsound i task hplace) hplace hprompt rfl rfl
    have hother : ∀ (j : Nat) (other : DoqTask), j ≠ i → s.tasks[j]? = some other →
        other.phase.isOver = true := by
      intro j other hne hold
      by_contra hlives
      have := h.last j other hold (by simpa using hlives)
      omega
    refine ⟨?_, ?_, ?_⟩
    · intro j other hj
      rw [htasks] at hj
      rcases moved_cases hplace hj with ⟨rfl, rfl⟩ | ⟨hne, hold⟩
      · exact hself
      · exact (h.phases j other hold).of_over (hother j other hne hold) s'
    · intro j other hj hlives
      rw [htasks] at hj ⊢
      rw [List.length_set]
      rcases moved_cases hplace hj with ⟨rfl, _⟩ | ⟨hne, hold⟩
      · exact hlast
      · rw [hother j other hne hold] at hlives
        cases hlives
    · intro hall
      obtain ⟨hlt, _⟩ := List.getElem?_eq_some_iff.mp hplace
      rw [htasks, List.length_set, ← hlast]
      apply hidle
      refine hall { task with phase := phase } (List.mem_of_getElem? (i := i) ?_)
      rw [htasks, List.getElem?_set_self hlt]

/-- Of queries that come one at a time, to a server that answers each at once, the
even ones are answered, and the odd ones only when their time is up. -/
theorem every_second_query_lost
    (run : Steps (guarded (fun s e t => DoqState.next H s e = some t) (DoqPrompt H)) {} trace s) :
    ∀ (i : Nat) (task : DoqTask), s.tasks[i]? = some task → task.phase.isOver = true →
      i % 2 = 0 ∧ task.phase.isAnswered = true ∨ i % 2 = 1 ∧ task.phase = .dropped := by
  have halternates : s.Alternates H := by
    induction run with
    | done =>
        refine ⟨?_, ?_, fun _ => ⟨rfl, rfl⟩⟩
        · intro i task hplace
          cases hplace
        · intro i task hplace
          cases hplace
    | next before hstep ih =>
        have hsound := DoqState.Sound.run (before.mono fun _ _ _ h => h.1)
        exact ih.step hsound hstep.1 hstep.2
  intro i task hplace hover
  have hself := halternates.phases i task hplace
  cases hphase : task.phase with
  | answered response =>
      rw [hphase] at hself
      exact Or.inl ⟨hself, rfl⟩
  | dropped =>
      rw [hphase] at hself
      exact Or.inr ⟨hself, rfl⟩
  | failed =>
      rw [hphase] at hself
      exact hself.elim
  | _ =>
      rw [hphase] at hover
      cases hover

theorem every_second_query_lost_two :
    ∃ s : DoqState,
      Steps (guarded (fun s e t => DoqState.next questionCodec s e = some t)
        (DoqPrompt questionCodec)) {} (reusedTrace ++ [.drop 1]) s ∧
      (∃ task : DoqTask, s.tasks[0]? = some task ∧ task.phase.isAnswered = true) ∧
      ∃ task : DoqTask, s.tasks[1]? = some task ∧ task.phase = .dropped := by
  let next (s : DoqState) (e : DoqEvent) : Option DoqState :=
    if DoqPrompt questionCodec s e then s.next questionCodec e else none
  let result := (reusedTrace ++ [DoqEvent.drop 1]).foldlM next {}
  have hsome : result.isSome = true := rfl
  have steps : Steps (fun s e t => next s e = some t) {} (reusedTrace ++ [.drop 1])
      (result.get hsome) := .of_foldlM (Option.some_get hsome).symm
  have run : Steps (guarded (fun s e t => DoqState.next questionCodec s e = some t)
      (DoqPrompt questionCodec)) {} (reusedTrace ++ [.drop 1]) (result.get hsome) :=
    steps.mono fun s e t h => (Option.ite_none_right_eq_some.mp h).symm
  have hends := every_second_query_lost run
  refine ⟨_, run, ⟨_, rfl, ?_⟩, ⟨_, rfl, ?_⟩⟩
  · exact ((hends 0 _ rfl rfl).resolve_right (by simp)).2
  · exact ((hends 1 _ rfl rfl).resolve_left (by simp)).2

end Relay.Dns.Upstream
