import Relay.Dns.Upstream.UdpPending

/-!
How the UDP pool gets over a receive error. Only a query whose channel was
closed, or whose send failed, makes the pool forget its socket. So the pool
recovers as long as an error finds a query that waits, and such a query gets
to `invalidate`.
-/

namespace Relay.Dns.Upstream

open Binary Logic

variable {H : HickoryCrate} {s s' : State} {e : Event}

/-- The query waits in the table of socket `i`. -/
def State.Waits (s : State) (c i : Nat) : Prop :=
  ∃ call attempt qid, s.calls c = some call ∧ s.Pending i qid ⟨c, attempt⟩ ∧
    (call.phase = .registered attempt i qid ∨ call.phase = .waiting attempt i qid)

/-- Where a query stands on its way to `invalidate`, given which of its
channels are closed. -/
def Phase.invalidates (closed : Nat → Prop) (i : Nat) : Phase → Prop
  | .registered attempt j _ | .waiting attempt j _ => j = i ∧ closed attempt
  | .givingUp _ j _ why => j = i ∧ why ≠ .timedOut
  | .invalidating _ j _ => j = i
  | _ => False

/-- The query is about to make the pool forget socket `i`. -/
def State.WillInvalidate (s : State) (c i : Nat) : Prop :=
  ∃ call, s.calls c = some call ∧
    call.phase.invalidates (fun attempt => s.boxes ⟨c, attempt⟩ = .closed) i

/-- The replies to socket `i` are read. -/
def State.Reads (s : State) (i : Nat) : Prop :=
  ∃ inner, s.inners i = some inner ∧ inner.recvRunning = true

/-- The socket is there, and nobody reads it any more. -/
def State.Deaf (s : State) (i : Nat) : Prop :=
  ∃ inner, s.inners i = some inner ∧ inner.recvRunning = false

/-- The socket of the pool is read, or it is about to be forgotten. -/
def State.Recovering (s : State) : Prop :=
  ∀ i, s.installed = some i → s.Reads i ∨ (s.Deaf i ∧ ∃ c, s.WillInvalidate c i)

/-- The query gets socket `j` by this step. -/
def Event.connects (e : Event) (c j : Nat) (s' : State) : Prop :=
  (e = .acquire c ∨ e = .create c j) ∧
    ∃ call attempt, s'.calls c = some call ∧ call.phase = .connected attempt j

/-- A receive error finds a query that waits, and no query on its way to
`invalidate` the pool's deaf socket is cancelled or times out. -/
def Heeded (s : State) : Event → Prop
  | .recvFail i => s.installed = some i → ∃ c, s.Waits c i
  | .cancel c | .timeout c => ∀ i, s.installed = some i → s.Deaf i → ¬ s.WillInvalidate c i
  | _ => True

/-- After an error of socket `i`, once the queries that waited at the error are
finished, every query that connects, whether it starts then or has started
before, gets another socket: one whose replies are read, or one that another
error has hit and that is about to be forgotten. -/
def State.LaterQueriesRead (H : HickoryCrate) (s : State) : Prop :=
  ∀ i s₂ fs s₃ c gs s₄ e s₅ j, guarded (Step H) Heeded s (.recvFail i) s₂ →
    Steps (guarded (Step H) Heeded) s₂ fs s₃ →
    (∀ c', s.Waits c' i →
      ∃ call outcome, s₃.calls c' = some call ∧ call.phase = .finished outcome) →
    Steps (guarded (Step H) Heeded) s₃ gs s₄ →
    guarded (Step H) Heeded s₄ e s₅ → e.connects c j s₅ →
    j ≠ i ∧ (s₅.Reads j ∨ ∃ c', s₅.WillInvalidate c' j)

/-! ### Steps -/

/-- A channel that is closed stays closed. -/
theorem Step.closed_after (h : Step H s e s') (hentries : Entries s) {t : Token}
    (hclosed : s.boxes t = .closed) (hcaller : e ≠ .register t.call) :
    s'.boxes t = .closed := by
  rcases h.boxes_after t with hsame | ⟨i, qid, hreg⟩ | ⟨i, qid, hp, _⟩
  · rw [hsame, hclosed]
  · exact absurd hreg.1 hcaller
  · have hwaiting := hentries.waiting i qid t hp
    rw [hclosed] at hwaiting
    cases hwaiting

/-- Another socket in the place of one leaves the rest. -/
private theorem update_running {inners : Nat → Option Inner} {i j : Nat} {inner old new : Inner}
    (hinner : inners i = some inner) (hold : inners j = some old)
    (hrunning : new.recvRunning = old.recvRunning) :
    ∃ inner', Function.update inners j (some new) i = some inner' ∧
      inner'.recvRunning = inner.recvRunning := by
  by_cases hij : i = j
  · subst hij
    cases hinner.symm.trans hold
    exact ⟨new, Function.update_self .., hrunning⟩
  · exact ⟨inner, by rw [Function.update_of_ne hij, hinner], rfl⟩

/-- The receive loop of a socket ends by its error, or when the pool has
forgotten it. -/
theorem Step.inner_after (h : Step H s e s') {i : Nat} {inner : Inner}
    (hinner : s.inners i = some inner) :
    (∃ inner', s'.inners i = some inner' ∧ inner'.recvRunning = inner.recvRunning) ∨
      (s'.Deaf i ∧ (e = .recvFail i ∨ s.installed ≠ some i)) := by
  cases h with
  | @create c call attempt j hcall hphase hinstalled hfree =>
      have hij : i ≠ j := by
        rintro rfl
        rw [hfree] at hinner
        cases hinner
      refine Or.inl ⟨inner, ?_, rfl⟩
      unfold State.setPhase
      dsimp only
      rw [Function.update_of_ne hij, hinner]
  | register hcall hphase hinner' => exact Or.inl (update_running hinner hinner' rfl)
  | remove hcall hphase hinner' => exact Or.inl (update_running hinner hinner' rfl)
  | @arrive d bytes inner' id hsent honce hinner' hrunning hd hid =>
      unfold State.deliver
      rw [hid]
      dsimp only
      cases inner'.pending.lookup id with
      | none => exact Or.inl ⟨inner, hinner, rfl⟩
      | some t => exact Or.inl (update_running hinner hinner' rfl)
  | @recvFail j inner' hinner' hrunning =>
      by_cases hij : i = j
      · subst hij
        exact Or.inr ⟨⟨_, Function.update_self .., rfl⟩, Or.inl rfl⟩
      · exact Or.inl ⟨inner, (Function.update_of_ne hij _ _).trans hinner, rfl⟩
  | @dropInner j inner' hinner' hinstalled hunused =>
      by_cases hij : i = j
      · subst hij
        exact Or.inr ⟨⟨_, Function.update_self .., rfl⟩, Or.inr hinstalled⟩
      · exact Or.inl ⟨inner, (Function.update_of_ne hij _ _).trans hinner, rfl⟩
  | _ => exact Or.inl ⟨inner, hinner, rfl⟩

theorem Step.deaf_of_error {i : Nat} (h : Step H s (.recvFail i) s') : s'.Deaf i := by
  cases h with
  | recvFail hinner hrunning => exact ⟨_, Function.update_self .., rfl⟩

theorem Step.deaf_after (h : Step H s e s') {i : Nat} (hdeaf : s.Deaf i) : s'.Deaf i := by
  obtain ⟨inner, hinner, hfalse⟩ := hdeaf
  rcases h.inner_after hinner with ⟨inner', hinner', hsame⟩ | ⟨hdeaf', _⟩
  · exact ⟨inner', hinner', by rw [hsame, hfalse]⟩
  · exact hdeaf'

/-- A socket comes into the pool when it is created, and goes when a query
invalidates it. -/
theorem Step.installed_after (h : Step H s e s') {i : Nat} (hinstalled : s'.installed = some i) :
    s.installed = some i ∨ (s.inners i = none ∧ s'.Reads i) := by
  cases h with
  | create hcall hphase hnone hfree =>
      cases hinstalled
      exact Or.inr ⟨hfree, _, Function.update_self .., rfl⟩
  | @invalidate c call attempt j why hcall hphase =>
      have hforget : (s.invalidate j).installed = some i := hinstalled
      unfold State.invalidate at hforget
      dsimp only at hforget
      split at hforget
      · cases hforget
      · exact Or.inl hforget
  | arrive =>
      apply Or.inl
      unfold State.deliver at hinstalled
      split at hinstalled
      · exact hinstalled
      · dsimp only at hinstalled
        split at hinstalled <;> exact hinstalled
  | _ => exact Or.inl hinstalled

/-- A query on its way to `invalidate` gets there, unless it is cancelled or
times out. -/
theorem Step.willInvalidate_after (h : Step H s e s') (hentries : Entries s) {c i : Nat}
    (hc : s.WillInvalidate c i) :
    s'.WillInvalidate c i ∨ e = .cancel c ∨ e = .timeout c ∨ s'.installed ≠ some i := by
  obtain ⟨call, hcall, hphase⟩ := hc
  by_cases hcaller : e.caller = some c
  · obtain ⟨phase, hafter, hmoves⟩ := h.moves hcaller hcall
    generalize hold : call.phase = before at hmoves hphase
    cases hmoves with
    | @send a j q =>
        have hstays := h.closed_after hentries hphase.2 (fun heq => by cases heq)
        exact Or.inl ⟨_, hafter, hphase.1, hstays⟩
    | sendFail => exact Or.inl ⟨_, hafter, hphase.1, fun heq => by cases heq⟩
    | @receive a j q bytes outcome hbox =>
        rw [hphase.2] at hbox
        cases hbox
    | closed hbox => exact Or.inl ⟨_, hafter, hphase.1, fun heq => by cases heq⟩
    | timeout => exact Or.inr (Or.inr (Or.inl rfl))
    | @remove a j q why =>
        obtain ⟨hj, hwhy⟩ := hphase
        cases why with
        | timedOut => exact absurd rfl hwhy
        | _ => exact Or.inl ⟨_, hafter, hj⟩
    | @invalidate a j why =>
        obtain rfl : j = i := hphase
        refine Or.inr (Or.inr (Or.inr ?_))
        cases h with
        | invalidate hcall' hphase' =>
            cases hcall.symm.trans hcall'
            cases hold.symm.trans hphase'
            unfold State.setPhase State.invalidate
            dsimp only
            split
            · exact fun heq => by cases heq
            · assumption
    | cancel hawaits => exact Or.inr (Or.inl rfl)
    | _ => exact absurd hphase id
  · apply Or.inl
    refine ⟨call, by rw [h.other hcaller, hcall], ?_⟩
    generalize call.phase = phase at hphase
    have hnot : ∀ attempt, e ≠ .register (Token.mk c attempt).call := by
      rintro attempt rfl
      exact hcaller rfl
    cases phase with
    | registered a j q => exact ⟨hphase.1, h.closed_after hentries hphase.2 (hnot a)⟩
    | waiting a j q => exact ⟨hphase.1, h.closed_after hentries hphase.2 (hnot a)⟩
    | _ => exact hphase

/-- The error closes the channel of a query that waits. -/
theorem Step.waits_fail {i : Nat} (h : Step H s (.recvFail i) s') {c : Nat} (hc : s.Waits c i) :
    s'.WillInvalidate c i := by
  obtain ⟨call, attempt, qid, hcall, ⟨inner, hinner, hlookup⟩, hphase⟩ := hc
  cases h with
  | recvFail hinner' hrunning =>
      cases hinner.symm.trans hinner'
      have hclosed := clearPending_boxes (s := s) (i := i) hlookup
      refine ⟨call, hcall, ?_⟩
      rcases hphase with heq | heq <;> rw [heq] <;> exact ⟨rfl, hclosed⟩

/-- A heeded step keeps the pool recovering. -/
theorem Step.recovering (h : Step H s e s') (hheeded : Heeded s e) (hentries : Entries s)
    (hs : s.Recovering) : s'.Recovering := by
  intro i hinstalled'
  rcases h.installed_after hinstalled' with hinstalled | ⟨_, hreads⟩
  · rcases hs i hinstalled with ⟨inner, hinner, hrunning⟩ | ⟨hdeaf, c, hc⟩
    · rcases h.inner_after hinner with ⟨inner', hinner', hsame⟩ | ⟨hdeaf', rfl | hforgotten⟩
      · exact Or.inl ⟨inner', hinner', by rw [hsame, hrunning]⟩
      · obtain ⟨c, hc⟩ := hheeded hinstalled
        exact Or.inr ⟨hdeaf', c, h.waits_fail hc⟩
      · exact absurd hinstalled hforgotten
    · have hdeaf' := h.deaf_after hdeaf
      rcases h.willInvalidate_after hentries hc with hkept | rfl | rfl | hforgotten
      · exact Or.inr ⟨hdeaf', c, hkept⟩
      · exact absurd hc (hheeded i hinstalled hdeaf)
      · exact absurd hc (hheeded i hinstalled hdeaf)
      · exact absurd hinstalled' hforgotten
  · exact Or.inl hreads

/-! ### Runs -/

section Runs

variable {es : List Event} {i : Nat}

private theorem run_recovering (run : Steps (guarded (Step H) Heeded) s es s')
    (hs : Entries s ∧ s.Recovering) : Entries s' ∧ s'.Recovering := by
  apply @Steps.invariant _ _ _ (fun t => Entries t ∧ t.Recovering) _ _ _ run hs
  rintro t e u ⟨hentries, ht⟩ ⟨hstep, hheeded⟩
  exact ⟨hstep.entries hentries, hstep.recovering hheeded hentries ht⟩

/-- From an error on, the pool keeps the socket only as long as one of the
queries that waited then is on its way to `invalidate`. -/
private theorem run_waiter {P : Nat → Prop} (run : Steps (guarded (Step H) Heeded) s es s')
    (hentries : Entries s) (hdeaf : s.Deaf i)
    (hwaiter : s.installed = some i → ∃ c, P c ∧ s.WillInvalidate c i) :
    s'.Deaf i ∧ (s'.installed = some i → ∃ c, P c ∧ s'.WillInvalidate c i) := by
  have hrun := @Steps.invariant _ _ _ (fun t => Entries t ∧ t.Deaf i ∧
    (t.installed = some i → ∃ c, P c ∧ t.WillInvalidate c i)) _ _ _ run
    ⟨hentries, hdeaf, hwaiter⟩ ?_
  · exact hrun.2
  · rintro t e u ⟨hentries, hdeaf, hwaiter⟩ ⟨hstep, hheeded⟩
    refine ⟨hstep.entries hentries, hstep.deaf_after hdeaf, ?_⟩
    intro hinstalled'
    rcases hstep.installed_after hinstalled' with hinstalled | ⟨hnone, _⟩
    · obtain ⟨c, hP, hc⟩ := hwaiter hinstalled
      rcases hstep.willInvalidate_after hentries hc with hkept | rfl | rfl | hforgotten
      · exact ⟨c, hP, hkept⟩
      · exact absurd hc (hheeded i hinstalled hdeaf)
      · exact absurd hc (hheeded i hinstalled hdeaf)
      · exact absurd hinstalled' hforgotten
    · obtain ⟨inner, hinner, _⟩ := hdeaf
      rw [hnone] at hinner
      cases hinner

/-- A deaf socket that the pool has forgotten does not come back. -/
private theorem run_forgotten (run : Steps (guarded (Step H) Heeded) s es s')
    (hentries : Entries s) (hdeaf : s.Deaf i) (hforgotten : s.installed ≠ some i) :
    s'.Deaf i ∧ s'.installed ≠ some i := by
  obtain ⟨hdeaf', hnobody⟩ := run_waiter (P := fun _ => False) run hentries hdeaf
    (fun hinstalled => absurd hinstalled hforgotten)
  refine ⟨hdeaf', ?_⟩
  intro hinstalled
  obtain ⟨c, hfalse, _⟩ := hnobody hinstalled
  exact hfalse

/-- A query that gets a socket gets the pool's. -/
theorem Step.installed_of_connects (h : Step H s e s') {c j : Nat} (hconnects : e.connects c j s') :
    s'.installed = some j := by
  obtain ⟨hevent, call, attempt, hcall, hphase⟩ := hconnects
  rcases hevent with rfl | rfl
  · cases h with
    | acquire hcall' hphase' hinstalled =>
        simp only [State.setPhase, Function.update_self, Option.some.injEq] at hcall
        rw [← hcall] at hphase
        cases hphase
        exact hinstalled
  · cases h with
    | create => rfl

/-- In every run of heeded steps the socket of the pool is read or about to be
forgotten, and once the queries that waited at an error are finished, later
queries get another socket. -/
theorem pool_recovers (run : Steps (guarded (Step H) Heeded) {} es s) :
    s.Recovering ∧ s.LaterQueriesRead H := by
  obtain ⟨hentries, hrecovering⟩ :=
    run_recovering run ⟨Entries.initial, fun _ hnone => by cases hnone⟩
  refine ⟨hrecovering, ?_⟩
  rintro i s₂ fs s₃ c gs s₄ e s₅ j ⟨herror, hheeded⟩ hrun hdone hrun' ⟨hstep, hheeded'⟩ hconnects
  have hentries₂ := herror.entries hentries
  obtain ⟨hentries₃, hrecovering₃⟩ :=
    run_recovering hrun ⟨hentries₂, herror.recovering hheeded hentries hrecovering⟩
  have hdeaf₂ := herror.deaf_of_error
  have hwaiter : s₂.installed = some i → ∃ c', s.Waits c' i ∧ s₂.WillInvalidate c' i := by
    intro hinstalled
    rcases herror.installed_after hinstalled with hbefore | ⟨hnone, _⟩
    · obtain ⟨c', hc'⟩ := hheeded hbefore
      exact ⟨c', hc', herror.waits_fail hc'⟩
    · cases herror with
      | recvFail hinner hrunning =>
          rw [hnone] at hinner
          cases hinner
  obtain ⟨hdeaf₃, hwaiter₃⟩ := run_waiter hrun hentries₂ hdeaf₂ hwaiter
  -- The queries that waited are finished, so none of them is on its way any more.
  have hforgotten : s₃.installed ≠ some i := by
    intro hinstalled
    obtain ⟨c', hwaited, call, hcall, hphase⟩ := hwaiter₃ hinstalled
    obtain ⟨call', outcome, hcall', hfinished⟩ := hdone c' hwaited
    cases hcall.symm.trans hcall'
    rw [hfinished] at hphase
    exact hphase
  obtain ⟨hdeaf₄, hforgotten₄⟩ := run_forgotten hrun' hentries₃ hdeaf₃ hforgotten
  have hrecovering₅ : s₅.Recovering :=
    (run_recovering (hrun'.next ⟨hstep, hheeded'⟩) ⟨hentries₃, hrecovering₃⟩).2
  have hinstalled₅ := hstep.installed_of_connects hconnects
  constructor
  · rintro rfl
    rcases hstep.installed_after hinstalled₅ with hbefore | ⟨hnone, _⟩
    · exact hforgotten₄ hbefore
    · obtain ⟨inner, hinner, _⟩ := hdeaf₄
      rw [hnone] at hinner
      cases hinner
  · exact (hrecovering₅ j hinstalled₅).imp_right And.right

end Runs

private theorem asking_waits : asking.Waits 0 0 :=
  ⟨_, 0, _, asking_call, asking_pending, Or.inl rfl⟩

/-- An error while the first query waits. -/
theorem asking_recovers :
    ∃ s es, Steps (guarded (Step questionCodec) Heeded) {} es s ∧ s.Deaf 0 ∧ s.Recovering ∧
      s.LaterQueriesRead questionCodec := by
  obtain ⟨es, run⟩ := @asking_run Heeded (fun _ _ _ => trivial) (fun _ _ _ => trivial) trivial
  obtain ⟨inner, hinner, hrunning⟩ := asking_inner
  have herror := Step.recvFail (H := questionCodec) hinner hrunning
  have hfail := run.next ⟨herror, fun _ => ⟨0, asking_waits⟩⟩
  exact ⟨_, _, hfail, herror.deaf_of_error, pool_recovers hfail⟩

/-- A registered query that gets no reply leaves the table and nothing else. -/
private theorem times_out {c attempt i : Nat} {qid : BitVec 16} {call : Call} {inner : Inner}
    (hcall : s.calls c = some call) (hphase : call.phase = .registered attempt i qid)
    (hinner : s.inners i = some inner) :
    ∃ es t, Steps (Step H) s es t ∧ t.installed = s.installed ∧
      t.inners i = some { inner with pending := inner.pending.erase qid } ∧
        t.calls = Function.update s.calls c
          (some { call with phase := .finished (.failed .timedOut) }) := by
  have hsend := Step.send (H := H) hcall hphase
  have htimeout := @Step.timeout H
    (State.setPhase
      { s with sent := s.sent ++ [⟨⟨c, attempt⟩, i, withId qid call.wire⟩] }
      c call (.waiting attempt i qid))
    c { call with phase := .waiting attempt i qid } attempt i qid
    (by simp only [State.setPhase, Function.update_self]) rfl
  have hremove := @Step.remove H
    (State.setPhase
      (State.setPhase
        { s with sent := s.sent ++ [⟨⟨c, attempt⟩, i, withId qid call.wire⟩] }
        c call (.waiting attempt i qid))
      c { call with phase := .waiting attempt i qid } (.givingUp attempt i qid .timedOut))
    c { call with phase := .givingUp attempt i qid .timedOut } attempt i qid .timedOut inner
    (by simp only [State.setPhase, Function.update_self]) rfl hinner
  refine ⟨_, _, ((Steps.single hsend).next htimeout).next hremove, rfl, ?_, ?_⟩
  · simp only [State.setPhase, State.removePending, Function.update_self]
  · simp only [State.setPhase, State.removePending, Function.update_idem, afterRemove]

/-- The only query times out, and then the error comes: nobody is left to make
the pool forget its socket. -/
theorem error_after_timeout :
    ¬ ∀ (H : HickoryCrate) (s : State) (es : List Event), Steps (Step H) {} es s →
      s.Recovering := by
  intro hclaim
  obtain ⟨es, run⟩ := @asking_run (fun _ _ => True) (fun _ _ _ => trivial) (fun _ _ _ => trivial)
    trivial
  obtain ⟨inner, hinner, hrunning⟩ := asking_inner
  obtain ⟨fs, t, run', hinstalled, hinner', hcalls⟩ :=
    times_out (H := questionCodec) asking_call rfl hinner
  have hfail := Step.recvFail (H := questionCodec) hinner' hrunning
  have hrecovering :=
    hclaim questionCodec _ _ (((run.mono fun _ _ _ h => h.1).append run').next hfail)
  rcases hrecovering 0 hinstalled with ⟨inner', hinner'', hreads⟩ | ⟨_, c, call, hcall, hphase⟩
  · simp only [State.clearPending, Function.update_self, Option.some.injEq] at hinner''
    rw [← hinner''] at hreads
    cases hreads
  · rw [State.clearPending, hcalls] at hcall
    by_cases hc : c = 0
    · subst hc
      rw [Function.update_self] at hcall
      cases hcall
      exact hphase
    · rw [Function.update_of_ne hc, asking_calls hc] at hcall
      cases hcall

end Relay.Dns.Upstream
