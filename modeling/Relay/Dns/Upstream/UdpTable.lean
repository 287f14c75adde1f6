import Relay.Dns.Upstream.UdpDelivery

/-!
What a step of the UDP pool does to the pending tables, to the reply channels
and to the queries. Whatever else happens, an entry waits: its channel holds
no reply and is not closed, it is the only entry of its query's attempt, and
that attempt has been registered.
-/

namespace Relay.Dns.Upstream

open Binary

variable {H : HickoryCrate} {s s' : State} {e : Event}

/-- The table of socket `i` has this entry. -/
def State.Pending (s : State) (i : Nat) (qid : BitVec 16) (t : Token) : Prop :=
  ∃ inner, s.inners i = some inner ∧ inner.pending.lookup qid = some t

/-- The query that moves, if the step is one of a query. -/
def Event.caller : Event → Option Nat
  | .start c _ | .acquire c | .create c _ | .bindFail c | .register c | .send c | .sendFail c
  | .receive c | .closed c | .timeout c | .remove c | .invalidate c | .cancel c => some c
  | .arrive _ _ | .recvFail _ | .dropInner _ => none

/-- The other queries stay where they are. -/
theorem Step.other (h : Step H s e s') {c : Nat} (hc : e.caller ≠ some c) :
    s'.calls c = s.calls c := by
  cases h with
  | arrive =>
      unfold State.deliver
      split
      · rfl
      · dsimp only
        split <;> rfl
  | recvFail => rfl
  | dropInner => rfl
  | _ => exact Function.update_of_ne (fun heq => hc (congrArg some heq.symm)) _ _

/-- How a query moves, and what it has seen. -/
inductive State.Moves (s : State) (c : Nat) : Event → Phase → Phase → Prop where
  | acquire {a i} : s.installed = some i → Moves s c (.acquire c) (.connecting a) (.connected a i)
  | create {a i} : Moves s c (.create c i) (.connecting a) (.connected a i)
  | bindFail {a} : Moves s c (.bindFail c) (.connecting a) (.finished (.failed .bind))
  | register {a i inner} : s.inners i = some inner →
      Moves s c (.register c) (.connected a i) (.registered a i inner.pick.1)
  | send {a i q} : Moves s c (.send c) (.registered a i q) (.waiting a i q)
  | sendFail {a i q} :
      Moves s c (.sendFail c) (.registered a i q) (.givingUp a i q .sendFailed)
  | receive {a i q bytes outcome} : s.boxes ⟨c, a⟩ = .value bytes →
      Moves s c (.receive c) (.waiting a i q) (.finished outcome)
  | closed {a i q} : s.boxes ⟨c, a⟩ = .closed →
      Moves s c (.closed c) (.waiting a i q) (.givingUp a i q .closed)
  | timeout {a i q} : Moves s c (.timeout c) (.waiting a i q) (.givingUp a i q .timedOut)
  | remove {a i q why} : Moves s c (.remove c) (.givingUp a i q why) (afterRemove a i why)
  | invalidate {a i why} :
      Moves s c (.invalidate c) (.invalidating a i why) (afterInvalidate a why)
  | cancel {phase} : phase.awaits = true →
      Moves s c (.cancel c) phase (.finished .cancelled)

/-- The one query whose phase a step has changed. -/
theorem State.Moves.updated {c' : Nat} {call call' : Call} {before after : Phase}
    (h : s.Moves c' e before after) (hcall' : s.calls c' = some call')
    (hphase : call'.phase = before) {c : Nat} (hc : some c' = some c)
    (hcall : s.calls c = some call) :
    ∃ phase, Function.update s.calls c' (some { call' with phase := after }) c =
        some { call with phase := phase } ∧ s.Moves c e call.phase phase := by
  cases hc
  cases hcall.symm.trans hcall'
  rw [hphase]
  exact ⟨after, Function.update_self .., h⟩

theorem Step.moves (h : Step H s e s') {c : Nat} {call : Call} (hc : e.caller = some c)
    (hcall : s.calls c = some call) :
    ∃ phase, s'.calls c = some { call with phase := phase } ∧ s.Moves c e call.phase phase := by
  cases h with
  | start hnone hvec =>
      cases Option.some.inj hc
      rw [hnone] at hcall
      cases hcall
  | acquire hcall' hphase hinstalled =>
      exact State.Moves.updated (.acquire hinstalled) hcall' hphase hc hcall
  | create hcall' hphase _ _ => exact State.Moves.updated .create hcall' hphase hc hcall
  | bindFail hcall' hphase _ => exact State.Moves.updated .bindFail hcall' hphase hc hcall
  | register hcall' hphase hinner =>
      exact State.Moves.updated (.register hinner) hcall' hphase hc hcall
  | send hcall' hphase => exact State.Moves.updated .send hcall' hphase hc hcall
  | sendFail hcall' hphase => exact State.Moves.updated .sendFail hcall' hphase hc hcall
  | receive hcall' hphase hbox =>
      exact State.Moves.updated (.receive hbox) hcall' hphase hc hcall
  | closed hcall' hphase hbox =>
      exact State.Moves.updated (.closed hbox) hcall' hphase hc hcall
  | timeout hcall' hphase => exact State.Moves.updated .timeout hcall' hphase hc hcall
  | remove hcall' hphase _ => exact State.Moves.updated .remove hcall' hphase hc hcall
  | invalidate hcall' hphase => exact State.Moves.updated .invalidate hcall' hphase hc hcall
  | cancel hcall' hawaits => exact State.Moves.updated (.cancel hawaits) hcall' rfl hc hcall
  | arrive => cases hc
  | recvFail => cases hc
  | dropInner => cases hc

/-- A query that was not there starts from the beginning. -/
theorem Step.started (h : Step H s e s') {c : Nat} {call : Call} (hc : e.caller = some c)
    (hnone : s.calls c = none) (hcall : s'.calls c = some call) : call.phase = .connecting 0 := by
  cases h with
  | start hnone' hvec =>
      cases Option.some.inj hc
      dsimp only at hcall
      rw [Function.update_self] at hcall
      cases hcall
      rfl
  | arrive => cases hc
  | recvFail => cases hc
  | dropInner => cases hc
  | _ =>
      cases Option.some.inj hc
      cases hnone.symm.trans ‹s.calls c = some _›

/-! ### Entries -/

section Entries

variable {i j : Nat} {inner : Inner} {qid : BitVec 16} {t : Token}

theorem pending_update {inner' : Inner} (s : State) (i : Nat) :
    State.Pending { s with inners := Function.update s.inners i (some inner') } j qid t ↔
      (j = i ∧ inner'.pending.lookup qid = some t) ∨ (j ≠ i ∧ s.Pending j qid t) := by
  unfold State.Pending
  dsimp only
  by_cases hj : j = i
  · subst hj
    rw [Function.update_self]
    constructor
    · rintro ⟨inner'', heq, hlookup⟩
      cases heq
      exact Or.inl ⟨rfl, hlookup⟩
    · rintro (⟨_, hlookup⟩ | ⟨hne, _⟩)
      · exact ⟨inner', rfl, hlookup⟩
      · exact absurd rfl hne
  · rw [Function.update_of_ne hj]
    constructor
    · intro h
      exact Or.inr ⟨hj, h⟩
    · rintro (⟨heq, _⟩ | ⟨_, h⟩)
      · exact absurd heq hj
      · exact h

theorem pending_of_inner (hinner : s.inners i = some inner) :
    s.Pending i qid t ↔ inner.pending.lookup qid = some t := by
  constructor
  · rintro ⟨inner', hinner', hlookup⟩
    cases hinner.symm.trans hinner'
    exact hlookup
  · intro hlookup
    exact ⟨inner, hinner, hlookup⟩

/-- The new entry, and the old ones but for one it takes the place of. -/
theorem pending_insertPending (hinner : s.inners i = some inner) (new : Token) :
    (s.insertPending i inner new).Pending j qid t ↔
      (j = i ∧ qid = inner.pick.1 ∧ t = new) ∨
        (¬ (j = i ∧ qid = inner.pick.1) ∧ s.Pending j qid t) := by
  have hsame : (s.insertPending i inner new).Pending j qid t ↔
      State.Pending { s with inners := Function.update s.inners i (some { inner with
        nextId := inner.pick.2, pending := inner.pending.insert inner.pick.1 new }) } j qid t :=
    Iff.rfl
  rw [hsame, pending_update]
  by_cases hj : j = i
  · subst hj
    by_cases hq : qid = inner.pick.1
    · rw [hq, AList.lookup_insert]
      simp [eq_comm]
    · rw [AList.lookup_insert_ne hq]
      simp [hq, pending_of_inner hinner]
  · simp [hj]

theorem pending_removePending (hinner : s.inners i = some inner) (gone : BitVec 16) :
    (s.removePending i inner gone).Pending j qid t ↔
      ¬ (j = i ∧ qid = gone) ∧ s.Pending j qid t := by
  refine (pending_update s i).trans ?_
  by_cases hj : j = i
  · subst hj
    by_cases hq : qid = gone
    · subst hq
      simp [AList.lookup_erase]
    · simp [AList.lookup_erase_ne hq, hq, pending_of_inner hinner]
  · simp [hj]

theorem pending_clearPending :
    (s.clearPending i inner).Pending j qid t ↔ j ≠ i ∧ s.Pending j qid t := by
  refine (pending_update s i).trans ?_
  simp [AList.lookup_empty]

/-- A reply takes the entry of its ID with it. -/
theorem pending_deliver (hinner : s.inners i = some inner) {bytes : Bytes} {id : BitVec 16}
    (hid : idOf bytes = some id) :
    (s.deliver i inner bytes).Pending j qid t ↔ ¬ (j = i ∧ qid = id) ∧ s.Pending j qid t := by
  unfold State.deliver
  rw [hid]
  dsimp only
  cases hlookup : inner.pending.lookup id with
  | none =>
      dsimp only
      constructor
      · intro h
        refine ⟨?_, h⟩
        rintro ⟨rfl, rfl⟩
        rw [pending_of_inner hinner, hlookup] at h
        cases h
      · exact And.right
  | some t' => exact pending_removePending hinner id

end Entries

/-! ### Steps -/

/-- The step puts the token into the table of `i` under this ID. -/
def State.Registers (s : State) (e : Event) (t : Token) (i : Nat) (qid : BitVec 16) : Prop :=
  e = .register t.call ∧ ∃ call inner, s.calls t.call = some call ∧
    call.phase = .connected t.attempt i ∧ s.inners i = some inner ∧ qid = inner.pick.1

/-- The step takes whatever stands under this ID out of the table of `i`. -/
def State.Removes (s : State) (e : Event) (i : Nat) (qid : BitVec 16) : Prop :=
  match e with
  | .register _ => ∃ t, s.Registers e t i qid
  | .remove c => ∃ call attempt why, s.calls c = some call ∧
      call.phase = .givingUp attempt i qid why
  | .arrive d _ => s.Unanswered i qid d
  | .recvFail j => j = i
  | _ => False

variable {i : Nat} {qid : BitVec 16} {t : Token}

theorem registers_iff {c attempt j : Nat} {call : Call} {inner : Inner}
    (hcall : s.calls c = some call) (hphase : call.phase = .connected attempt j)
    (hinner : s.inners j = some inner) :
    s.Registers (.register c) t i qid ↔ i = j ∧ qid = inner.pick.1 ∧ t = ⟨c, attempt⟩ := by
  constructor
  · rintro ⟨hevent, call', inner', hcall', hphase', hinner', rfl⟩
    cases hevent
    cases hcall.symm.trans hcall'
    cases hphase.symm.trans hphase'
    cases hinner.symm.trans hinner'
    exact ⟨rfl, rfl, rfl⟩
  · rintro ⟨rfl, rfl, rfl⟩
    exact ⟨rfl, call, inner, hcall, hphase, hinner, rfl⟩

theorem removes_register_iff {c attempt j : Nat} {call : Call} {inner : Inner}
    (hcall : s.calls c = some call) (hphase : call.phase = .connected attempt j)
    (hinner : s.inners j = some inner) :
    s.Removes (.register c) i qid ↔ i = j ∧ qid = inner.pick.1 := by
  simp only [State.Removes, registers_iff hcall hphase hinner]
  constructor
  · rintro ⟨_, hi, hq, _⟩
    exact ⟨hi, hq⟩
  · rintro ⟨hi, hq⟩
    exact ⟨_, hi, hq, rfl⟩

theorem removes_remove_iff {c attempt j : Nat} {q : BitVec 16} {why : GivingUp} {call : Call}
    (hcall : s.calls c = some call) (hphase : call.phase = .givingUp attempt j q why) :
    s.Removes (.remove c) i qid ↔ i = j ∧ qid = q := by
  constructor
  · rintro ⟨call', attempt', why', hcall', hphase'⟩
    cases hcall.symm.trans hcall'
    cases hphase.symm.trans hphase'
    exact ⟨rfl, rfl⟩
  · rintro ⟨rfl, rfl⟩
    exact ⟨call, attempt, why, hcall, hphase⟩

theorem removes_arrive_iff {d : Datagram} {bytes : Bytes} {id : BitVec 16}
    (hsent : d ∈ s.sent) (honce : ∀ earlier, (d, earlier) ∉ s.answered)
    (hd : idOf d.wire = some id) :
    s.Removes (.arrive d bytes) i qid ↔ i = d.inner ∧ qid = id := by
  constructor
  · rintro ⟨_, rfl, hq, _⟩
    rw [hd] at hq
    exact ⟨rfl, (Option.some.inj hq).symm⟩
  · rintro ⟨rfl, rfl⟩
    exact ⟨hsent, rfl, hd, honce⟩

/-- The tables after a step: what it has registered, and what was there and is
not taken out. -/
theorem Step.pending_iff (h : Step H s e s') :
    s'.Pending i qid t ↔
      s.Registers e t i qid ∨ (¬ s.Removes e i qid ∧ s.Pending i qid t) := by
  cases h with
  | @create c call attempt j hcall hphase hinstalled hfree =>
      have hsame : State.Pending { s with inners := Function.update s.inners j (some {}) } i qid t ↔
          s.Pending i qid t := by
        rw [pending_update]
        constructor
        · rintro (⟨_, hlookup⟩ | ⟨_, hold⟩)
          · simp at hlookup
          · exact hold
        · intro hold
          refine Or.inr ⟨?_, hold⟩
          rintro rfl
          obtain ⟨inner, hinner, _⟩ := hold
          rw [hfree] at hinner
          cases hinner
      refine hsame.trans ?_
      simp [State.Registers, State.Removes]
  | @register c call attempt j inner hcall hphase hinner =>
      rw [removes_register_iff hcall hphase hinner, registers_iff hcall hphase hinner]
      exact pending_insertPending hinner _
  | @remove c call attempt j q why inner hcall hphase hinner =>
      rw [removes_remove_iff hcall hphase]
      refine (pending_removePending hinner q).trans ?_
      simp [State.Registers]
  | @arrive d bytes inner id hsent honce hinner hrunning hd hid =>
      rw [removes_arrive_iff hsent honce hd]
      refine (pending_deliver (by exact hinner) hid).trans ?_
      simp only [State.Registers, reduceCtorEq, false_and, false_or]
      exact Iff.rfl
  | @recvFail j inner hinner hrunning =>
      rw [pending_clearPending]
      simp only [State.Registers, State.Removes, reduceCtorEq, false_and, false_or, ne_eq,
        eq_comm]
  | @dropInner j inner hinner hinstalled hunused =>
      rw [pending_update]
      simp only [State.Registers, State.Removes, reduceCtorEq, false_and, false_or,
        not_false_eq_true, true_and]
      by_cases hij : i = j
      · subst hij
        simp [pending_of_inner hinner]
      · simp [hij]
  | _ =>
      simp only [State.Registers, State.Removes, reduceCtorEq, false_and, false_or,
        not_false_eq_true, true_and]
      exact Iff.rfl

private theorem closeBox_other {boxes : Token → Box} {entry : Option Token}
    (h : entry ≠ some t) : closeBox boxes entry t = boxes t := by
  cases entry with
  | none => rfl
  | some t' =>
      apply Function.update_of_ne
      rintro rfl
      exact h rfl

theorem Step.boxes_of_registers (h : Step H s e s') (hreg : s.Registers e t i qid) :
    s'.boxes t = .waiting := by
  obtain ⟨rfl, call, inner, hcall, hphase, hinner, rfl⟩ := hreg
  cases h with
  | register hcall' hphase' hinner' =>
      cases hcall.symm.trans hcall'
      cases hphase.symm.trans hphase'
      exact Function.update_self ..

/-- A reply channel changes when its entry is made and when the entry goes. -/
theorem Step.boxes_after (h : Step H s e s') (t : Token) :
    s'.boxes t = s.boxes t ∨ (∃ i qid, s.Registers e t i qid) ∨
      ∃ i qid, s.Pending i qid t ∧ s.Removes e i qid := by
  cases h with
  | @register c call attempt j inner hcall hphase hinner =>
      have hboxes : ∀ t, ((s.insertPending j inner ⟨c, attempt⟩).setPhase c call
          (.registered attempt j inner.pick.1)).boxes t =
            Function.update (closeBox s.boxes (inner.pending.lookup inner.pick.1)) ⟨c, attempt⟩
              .waiting t := fun _ => rfl
      rw [hboxes]
      by_cases hnew : t = ⟨c, attempt⟩
      · subst hnew
        exact Or.inr (Or.inl ⟨j, inner.pick.1, rfl, call, inner, hcall, hphase, hinner, rfl⟩)
      · rw [Function.update_of_ne hnew]
        by_cases hgone : inner.pending.lookup inner.pick.1 = some t
        · exact Or.inr (Or.inr ⟨j, inner.pick.1, ⟨inner, hinner, hgone⟩, ⟨c, attempt⟩, rfl, call,
            inner, hcall, hphase, hinner, rfl⟩)
        · exact Or.inl (closeBox_other hgone)
  | @remove c call attempt j q why inner hcall hphase hinner =>
      by_cases hgone : inner.pending.lookup q = some t
      · exact Or.inr (Or.inr ⟨j, q, ⟨inner, hinner, hgone⟩, call, attempt, why, hcall, hphase⟩)
      · exact Or.inl (closeBox_other hgone)
  | @arrive d bytes inner id hsent honce hinner hrunning hd hid =>
      unfold State.deliver
      rw [hid]
      dsimp only
      cases hlookup : inner.pending.lookup id with
      | none => exact Or.inl rfl
      | some t' =>
          by_cases ht : t = t'
          · subst ht
            exact Or.inr (Or.inr ⟨d.inner, id, ⟨inner, hinner, hlookup⟩, hsent, rfl, hd, honce⟩)
          · exact Or.inl (Function.update_of_ne ht _ _)
  | @recvFail j inner hinner hrunning =>
      by_cases hgone : inner.pending.entries.any fun entry => decide (entry.2 = t)
      · obtain ⟨entry, hmem, heq⟩ := List.any_eq_true.mp hgone
        have hlookup : inner.pending.lookup entry.1 = some t := by
          rw [← of_decide_eq_true heq]
          exact AList.mem_lookup_iff.mpr hmem
        exact Or.inr (Or.inr ⟨j, entry.1, ⟨inner, hinner, hlookup⟩, rfl⟩)
      · exact Or.inl (if_neg hgone)
  | _ => exact Or.inl rfl

/-- A receive error closes the channel of every entry of the socket. -/
theorem clearPending_boxes {inner : Inner} (h : inner.pending.lookup qid = some t) :
    (s.clearPending i inner).boxes t = .closed := by
  apply if_pos
  apply List.any_eq_true.mpr
  exact ⟨⟨qid, t⟩, AList.mem_lookup_iff.mp h, decide_eq_true rfl⟩

/-! ### What holds of every entry -/

/-- The query has registered this attempt. -/
def Phase.past (attempt : Nat) : Phase → Prop
  | .connecting a | .connected a _ => attempt < a
  | .registered a _ _ | .waiting a _ _ | .givingUp a _ _ _ | .invalidating a _ _ => attempt ≤ a
  | .finished _ => True

def State.Past (s : State) (t : Token) : Prop :=
  ∃ call, s.calls t.call = some call ∧ call.phase.past t.attempt

structure Entries (s : State) : Prop where
  waiting : ∀ i qid t, s.Pending i qid t → s.boxes t = .waiting
  once : ∀ i qid i' qid' t, s.Pending i qid t → s.Pending i' qid' t → i' = i ∧ qid' = qid
  past : ∀ i qid t, s.Pending i qid t → s.Past t

theorem Entries.initial : Entries {} := by
  constructor
  · rintro i qid t ⟨inner, hinner, _⟩
    cases hinner
  · rintro i qid i' qid' t ⟨inner, hinner, _⟩
    cases hinner
  · rintro i qid t ⟨inner, hinner, _⟩
    cases hinner

/-- A query does not go back behind an attempt. -/
theorem State.Moves.past {c : Nat} {phase phase' : Phase} (h : s.Moves c e phase phase')
    {attempt : Nat} (hpast : phase.past attempt) : phase'.past attempt := by
  cases h with
  | register _ => exact Nat.le_of_lt hpast
  | @remove a i q why =>
      cases why with
      | timedOut => exact trivial
      | _ => exact hpast
  | @invalidate a i why =>
      have hle : attempt ≤ a := hpast
      unfold afterInvalidate
      cases why <;> dsimp only <;> split <;> simp only [Phase.past] <;> omega
  | bindFail => exact trivial
  | receive _ => exact trivial
  | cancel _ => exact trivial
  | _ => exact hpast

theorem Step.past (h : Step H s e s') (hpast : s.Past t) : s'.Past t := by
  obtain ⟨call, hcall, hphase⟩ := hpast
  by_cases hcaller : e.caller = some t.call
  · obtain ⟨phase, hcall', hmoves⟩ := h.moves hcaller hcall
    exact ⟨_, hcall', hmoves.past hphase⟩
  · exact ⟨call, by rw [h.other hcaller, hcall], hphase⟩

/-- A token that is registered has not been before. -/
theorem State.Registers.not_past {i : Nat} {qid : BitVec 16} (h : s.Registers e t i qid) :
    ¬ s.Past t := by
  obtain ⟨_, call, inner, hcall, hphase, _⟩ := h
  rintro ⟨call', hcall', hpast⟩
  cases hcall.symm.trans hcall'
  rw [hphase] at hpast
  exact absurd hpast (lt_irrefl _)

theorem Step.past_of_registers (h : Step H s e s') {i : Nat} {qid : BitVec 16}
    (hreg : s.Registers e t i qid) : s'.Past t := by
  obtain ⟨rfl, call, inner, hcall, hphase, _⟩ := hreg
  obtain ⟨phase, hcall', hmoves⟩ := h.moves rfl hcall
  rw [hphase] at hmoves
  cases hmoves with
  | register _ => exact ⟨_, hcall', le_rfl⟩

/-- Two tokens are not registered in one step. -/
theorem State.Registers.unique {i i' : Nat} {qid qid' : BitVec 16} (h : s.Registers e t i qid)
    (h' : s.Registers e t i' qid') : i' = i ∧ qid' = qid := by
  obtain ⟨_, call, inner, hcall, hphase, hinner, rfl⟩ := h
  obtain ⟨_, call', inner', hcall', hphase', hinner', rfl⟩ := h'
  cases hcall.symm.trans hcall'
  cases hphase.symm.trans hphase'
  cases hinner.symm.trans hinner'
  exact ⟨rfl, rfl⟩

/-- Each step keeps them. -/
theorem Step.entries (h : Step H s e s') (hs : Entries s) : Entries s' := by
  constructor
  · intro i qid t hp
    rcases h.pending_iff.mp hp with hreg | ⟨hkept, hold⟩
    · exact h.boxes_of_registers hreg
    · rcases h.boxes_after t with hsame | ⟨i', qid', hreg⟩ | ⟨i', qid', hp', hremoves⟩
      · rw [hsame]
        exact hs.waiting i qid t hold
      · exact absurd (hs.past i qid t hold) hreg.not_past
      · obtain ⟨rfl, rfl⟩ := hs.once i qid i' qid' t hold hp'
        exact absurd hremoves hkept
  · intro i qid i' qid' t hp hp'
    rcases h.pending_iff.mp hp with hreg | ⟨_, hold⟩
    · rcases h.pending_iff.mp hp' with hreg' | ⟨_, hold'⟩
      · exact hreg.unique hreg'
      · exact absurd (hs.past i' qid' t hold') hreg.not_past
    · rcases h.pending_iff.mp hp' with hreg' | ⟨_, hold'⟩
      · exact absurd (hs.past i qid t hold) hreg'.not_past
      · exact hs.once i qid i' qid' t hold hold'
  · intro i qid t hp
    rcases h.pending_iff.mp hp with hreg | ⟨_, hold⟩
    · exact h.past_of_registers hreg
    · exact h.past (hs.past i qid t hold)

end Relay.Dns.Upstream
