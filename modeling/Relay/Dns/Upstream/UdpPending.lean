import Relay.Dns.Upstream.UdpTable

/-!
Who the entries of a pending table belong to. An entry is taken out by ID, so
it is its own query's as long as an ID is given out to one query at a time,
and it is taken out at all as long as no query is dropped that has one.
-/

namespace Relay.Dns.Upstream

open Binary Logic

variable {H : HickoryCrate} {s s' : State} {e : Event}

/-- The query has registered under this ID and has not yet given it back. -/
def Phase.holds (attempt i : Nat) (qid : BitVec 16) : Phase → Prop
  | .registered a j q | .waiting a j q | .givingUp a j q _ => a = attempt ∧ j = i ∧ q = qid
  | _ => False

def State.Holds (s : State) (c attempt i : Nat) (qid : BitVec 16) : Prop :=
  ∃ call, s.calls c = some call ∧ call.phase.holds attempt i qid

/-- Each entry belongs to a query that still waits for its reply. -/
def State.EntriesLive (s : State) : Prop :=
  ∀ i qid t, s.Pending i qid t → s.Holds t.call t.attempt i qid

/-- No table has more entries than there are queries in flight. -/
def State.Bounded (s : State) : Prop :=
  ∀ i inner (inFlight : Finset Nat), s.inners i = some inner →
    (∀ c call, s.calls c = some call → (∀ outcome, call.phase ≠ .finished outcome) →
      c ∈ inFlight) →
    inner.pending.keys.length ≤ inFlight.card

/-- The step is the reply to the query, the end of its wait, or an error of the
socket. -/
def Event.endsWait (e : Event) (t : Token) (i : Nat) : Prop :=
  match e with
  | .arrive d _ => d.token.call = t.call
  | .remove c => c = t.call
  | .recvFail j => j = i
  | _ => False

def State.RemovesOwn (s : State) (e : Event) (s' : State) : Prop :=
  ∀ i qid t, s.Pending i qid t → ¬ s'.Pending i qid t → e.endsWait t i

/-- No ID is given out that another query holds on the socket, or that an
unanswered datagram of another carries, and no query is dropped that has an
entry. -/
def Tidy (s : State) : Event → Prop
  | .register c => ∀ call attempt i inner, s.calls c = some call →
      call.phase = .connected attempt i → s.inners i = some inner →
      (∀ d, s.Unanswered i inner.pick.1 d → d.token.call = c) ∧
        ∀ c' attempt', ¬ s.Holds c' attempt' i inner.pick.1
  | .cancel c => ∀ i qid attempt, ¬ s.Pending i qid ⟨c, attempt⟩
  | _ => True

theorem Tidy.freshId (h : Tidy s e) : FreshId s e := by
  cases e with
  | register c =>
      intro call attempt i inner hcall hphase hinner
      obtain ⟨hdatagram, hholds⟩ := h call attempt i inner hcall hphase hinner
      refine ⟨hdatagram, ?_⟩
      intro c' call' attempt' hcall' hphase'
      exact absurd ⟨call', hcall', by rw [hphase']; exact ⟨rfl, rfl, rfl⟩⟩ (hholds c' attempt')
  | _ => trivial

structure Owned (s : State) : Prop where
  live : s.EntriesLive
  /-- A query that holds the ID of an entry is the entry's. -/
  own : ∀ i qid t c attempt, s.Pending i qid t → s.Holds c attempt i qid → c = t.call

theorem Owned.initial : Owned {} := by
  constructor
  · rintro i qid t ⟨inner, hinner, _⟩
    cases hinner
  · rintro i qid t c attempt ⟨inner, hinner, _⟩
    cases hinner

/-- An ID that is held afterwards was held before or is given out. -/
theorem Step.holds_before (h : Step H s e s') {c attempt i : Nat} {qid : BitVec 16}
    (hholds : s'.Holds c attempt i qid) :
    s.Holds c attempt i qid ∨ s.Registers e ⟨c, attempt⟩ i qid := by
  obtain ⟨call', hcall', hphase'⟩ := hholds
  by_cases hcaller : e.caller = some c
  · cases hcall : s.calls c with
    | none =>
        rw [h.started hcaller hcall hcall'] at hphase'
        exact absurd hphase' id
    | some call =>
        obtain ⟨phase, hafter, hmoves⟩ := h.moves hcaller hcall
        cases hcall'.symm.trans hafter
        have hbefore : call.phase.holds attempt i qid → s.Holds c attempt i qid :=
          fun hphase => ⟨call, hcall, hphase⟩
        generalize hold : call.phase = before at hmoves hbefore
        cases hmoves with
        | @register a j inner hinner =>
            obtain ⟨rfl, rfl, rfl⟩ := hphase'
            exact Or.inr ⟨rfl, call, inner, hcall, hold, hinner, rfl⟩
        | send => exact Or.inl (hbefore hphase')
        | sendFail => exact Or.inl (hbefore hphase')
        | closed hbox => exact Or.inl (hbefore hphase')
        | timeout => exact Or.inl (hbefore hphase')
        | @remove a j q why =>
            cases why <;> exact absurd hphase' id
        | @invalidate a j why =>
            unfold afterInvalidate at hphase'
            cases why <;> dsimp only at hphase' <;> split at hphase' <;> exact absurd hphase' id
        | _ => exact absurd hphase' id
  · rw [h.other hcaller] at hcall'
    exact Or.inl ⟨call', hcall', hphase'⟩

/-- A query whose entry stays goes on holding the ID. -/
theorem Step.holds_after (h : Step H s e s') (htidy : Tidy s e) (hentries : Entries s)
    {i : Nat} {qid : BitVec 16} {t : Token} (hp : s.Pending i qid t)
    (hkept : ¬ s.Removes e i qid) (hholds : s.Holds t.call t.attempt i qid) :
    s'.Holds t.call t.attempt i qid := by
  obtain ⟨call, hcall, hphase⟩ := hholds
  have hwaiting := hentries.waiting i qid t hp
  by_cases hcaller : e.caller = some t.call
  · obtain ⟨phase, hafter, hmoves⟩ := h.moves hcaller hcall
    refine ⟨_, hafter, ?_⟩
    dsimp only
    generalize hold : call.phase = before at hmoves hphase
    cases hmoves with
    | send => exact hphase
    | sendFail => exact hphase
    | timeout => exact hphase
    | @receive a j q bytes outcome hbox =>
        obtain ⟨rfl, rfl, rfl⟩ := hphase
        rw [hwaiting] at hbox
        cases hbox
    | @closed a j q hbox =>
        obtain ⟨rfl, rfl, rfl⟩ := hphase
        rw [hwaiting] at hbox
        cases hbox
    | @remove a j q why =>
        obtain ⟨rfl, rfl, rfl⟩ := hphase
        exact absurd ⟨call, t.attempt, why, hcall, hold⟩ hkept
    | cancel hawaits => exact absurd hp (htidy i qid t.attempt)
    | _ => exact absurd hphase id
  · exact ⟨call, by rw [h.other hcaller, hcall], hphase⟩

/-- What a tidy step keeps. -/
theorem Step.owned (h : Step H s e s') (htidy : Tidy s e) (hentries : Entries s)
    (hs : Owned s) : Owned s' := by
  constructor
  · intro i qid t hp
    rcases h.pending_iff.mp hp with hreg | ⟨hkept, hold⟩
    · obtain ⟨rfl, call, inner, hcall, hphase, hinner, rfl⟩ := hreg
      obtain ⟨phase, hafter, hmoves⟩ := h.moves rfl hcall
      rw [hphase] at hmoves
      cases hmoves with
      | register hinner' =>
          cases hinner.symm.trans hinner'
          exact ⟨_, hafter, rfl, rfl, rfl⟩
    · exact h.holds_after htidy hentries hold hkept (hs.live i qid t hold)
  · intro i qid t c attempt hp hholds
    rcases h.pending_iff.mp hp with hreg | ⟨_, hold⟩
    · rcases h.holds_before hholds with hheld | hreg'
      · obtain ⟨rfl, call, inner, hcall, hphase, hinner, rfl⟩ := hreg
        exact absurd hheld ((htidy call t.attempt i inner hcall hphase hinner).2 c attempt)
      · exact Event.register.inj (hreg'.1.symm.trans hreg.1)
    · rcases h.holds_before hholds with hheld | hreg'
      · exact hs.own i qid t c attempt hold hheld
      · obtain ⟨rfl, call, inner, hcall, hphase, hinner, rfl⟩ := hreg'
        exact absurd (hs.live i _ t hold)
          ((htidy call attempt i inner hcall hphase hinner).2 t.call t.attempt)

/-- An entry that goes is taken out for its own query. -/
theorem Step.removes_own (h : Step H s e s') (htidy : Tidy s e) (hsound : Sound H s)
    (hs : Owned s) : s.RemovesOwn e s' := by
  intro i qid t hp hgone
  have hremoves : s.Removes e i qid := by
    by_contra hkept
    exact hgone (h.pending_iff.mpr (Or.inr ⟨hkept, hp⟩))
  cases e with
  | register c =>
      obtain ⟨t', hevent, call, inner, hcall, hphase, hinner, rfl⟩ := hremoves
      cases hevent
      exact absurd (hs.live i _ t hp)
        ((htidy call t'.attempt i inner hcall hphase hinner).2 t.call t.attempt)
  | remove c =>
      obtain ⟨call, attempt, why, hcall, hphase⟩ := hremoves
      exact hs.own i qid t c attempt hp ⟨call, hcall, by rw [hphase]; exact ⟨rfl, rfl, rfl⟩⟩
  | arrive d bytes =>
      obtain ⟨inner, hinner, hlookup⟩ := hp
      exact hsound.owner i inner qid t d hinner hlookup hremoves
  | recvFail j => exact hremoves
  | _ => exact absurd hremoves id

/-- Each entry has a query of its own, so there are no more entries than
queries. -/
theorem EntriesLive.bounded (h : s.EntriesLive) : s.Bounded := by
  intro i inner inFlight hinner hall
  obtain ⟨owner, howner⟩ : ∃ owner : BitVec 16 → Nat,
      ∀ qid ∈ inner.pending.keys, ∃ t, s.Pending i qid t ∧ t.call = owner qid := by
    refine ⟨fun qid => (inner.pending.lookup qid).elim 0 Token.call, ?_⟩
    intro qid hmem
    obtain ⟨t, ht⟩ := Option.isSome_iff_exists.mp (AList.lookup_isSome.mpr (AList.mem_keys.mpr hmem))
    exact ⟨t, ⟨inner, hinner, ht⟩, by simp only [ht, Option.elim_some]⟩
  have hcard := Finset.card_le_card_of_injOn (s := inner.pending.keys.toFinset) (t := inFlight)
    owner ?_ ?_
  · rwa [List.toFinset_card_of_nodup inner.pending.keys_nodup] at hcard
  · intro qid hmem
    obtain ⟨t, hp, hcaller⟩ := howner qid (List.mem_toFinset.mp hmem)
    obtain ⟨call, hcall, hphase⟩ := h i qid t hp
    rw [← hcaller]
    apply hall t.call call hcall
    intro outcome hfinished
    rw [hfinished] at hphase
    exact hphase
  · intro qid hmem qid' hmem' heq
    obtain ⟨t, hp, hcaller⟩ := howner qid (List.mem_toFinset.mp hmem)
    obtain ⟨t', hp', hcaller'⟩ := howner qid' (List.mem_toFinset.mp hmem')
    obtain ⟨call, hcall, hphase⟩ := h i qid t hp
    obtain ⟨call', hcall', hphase'⟩ := h i qid' t' hp'
    rw [hcaller', ← heq, ← hcaller] at hcall'
    cases hcall.symm.trans hcall'
    generalize call.phase = phase at hphase hphase'
    cases phase with
    | registered => exact hphase.2.2.symm.trans hphase'.2.2
    | waiting => exact hphase.2.2.symm.trans hphase'.2.2
    | givingUp => exact hphase.2.2.symm.trans hphase'.2.2
    | _ => exact absurd hphase id

/-- In every run of tidy steps each entry belongs to a query that waits, the
tables are no larger than the queries in flight, and every entry that goes is
taken out for its own query. -/
theorem pending_holds_live_queries {es : List Event}
    (run : Steps (guarded (Step H) Tidy) {} es s) :
    s.EntriesLive ∧ s.Bounded ∧
      ∀ e s', guarded (Step H) Tidy s e s' → s.RemovesOwn e s' := by
  have hkept : Entries s ∧ Sound H s ∧ Owned s := by
    apply run.invariant ⟨Entries.initial, Sound.initial, Owned.initial⟩
    rintro t e u ⟨hentries, hsound, howned⟩ ⟨hstep, htidy⟩
    exact ⟨hstep.entries hentries, hstep.sound hsound htidy.freshId,
      hstep.owned htidy hentries howned⟩
  obtain ⟨_, hsound, howned⟩ := hkept
  refine ⟨howned.live, EntriesLive.bounded howned.live, ?_⟩
  rintro e s' ⟨hstep, htidy⟩
  exact hstep.removes_own htidy hsound howned

/-! ### A query that is dropped -/

theorem asking_inner : ∃ inner, asking.inners 0 = some inner ∧ inner.recvRunning = true := by
  refine ⟨{ nextId := (Inner.pick {}).2
            pending := (∅ : AList fun _ : BitVec 16 => Token).insert (Inner.pick {}).1 ⟨0, 0⟩ },
    ?_, rfl⟩
  simp only [asking, State.setPhase, State.insertPending, Function.update_self]

theorem asking_pending : asking.Pending 0 (Inner.pick {}).1 ⟨0, 0⟩ :=
  (pending_insertPending opened_inner ⟨0, 0⟩).mpr (Or.inl ⟨rfl, rfl, rfl⟩)

private theorem opened_tidy : Tidy opened (.register 0) := by
  intro call attempt i inner hcall hphase hinner
  constructor
  · rintro d ⟨hsent, _⟩
    cases hsent
  · rintro c' attempt' ⟨call', hcall', hholds⟩
    by_cases hc : c' = 0
    · subst hc
      cases opened_call.symm.trans hcall'
      exact hholds
    · have hnone : opened.calls c' = none := by
        unfold opened State.setPhase
        dsimp only
        rw [Function.update_of_ne hc, Function.update_of_ne hc]
      rw [hnone] at hcall'
      cases hcall'

private theorem asking_tidy_run : ∃ es, Steps (guarded (Step questionCodec) Tidy) {} es asking :=
  asking_run (fun _ _ _ => trivial) (fun _ _ _ => trivial) opened_tidy

private theorem joined_tidy : Tidy joined (.register 1) := by
  intro call attempt i inner hcall hphase hinner
  cases hcall
  cases hphase
  cases hinner
  constructor
  · intro d hd
    exact absurd (joined_unseen hd) (by decide)
  · rintro c' attempt' ⟨call', hcall', hholds⟩
    by_cases hzero : c' = 0
    · subst hzero
      cases hcall'
      exact absurd hholds.2.2 (by decide)
    · by_cases hone : c' = 1
      · subst hone
        cases hcall'
        exact hholds
      · rw [joined_calls hzero hone] at hcall'
        cases hcall'

/-- Two queries are in flight, each with an entry of its own. -/
theorem two_hold_live_queries :
    ∃ es s, Steps (guarded (Step questionCodec) Tidy) {} es s ∧
      s.Pending 0 0 ⟨0, 0⟩ ∧ s.Pending 0 1 ⟨1, 0⟩ ∧ s.EntriesLive ∧ s.Bounded ∧
        ∀ e s', guarded (Step questionCodec) Tidy s e s' → s.RemovesOwn e s' := by
  obtain ⟨es, hrun⟩ := @joined_run Tidy (fun _ _ _ => trivial) (fun _ _ _ => trivial)
    (fun _ _ => trivial) (fun _ _ => trivial) opened_tidy
  have run := hrun.next ⟨Step.register (c := 1) rfl rfl rfl, joined_tidy⟩
  exact ⟨_, _, run, ⟨_, rfl, rfl⟩, ⟨_, rfl, rfl⟩, pending_holds_live_queries run⟩

/-- The query's future is dropped at its send, and its entry stays. -/
theorem dropped_query_leaves_entry :
    ¬ ∀ (H : HickoryCrate) (s : State) (es : List Event), Steps (Step H) {} es s →
      s.EntriesLive := by
  intro hclaim
  obtain ⟨es, hrun⟩ := asking_tidy_run
  have hcancel := Step.cancel (H := questionCodec) asking_call rfl
  have hlive := hclaim questionCodec _ _ ((hrun.mono fun _ _ _ h => h.1).next hcancel)
  obtain ⟨call, hcall, hholds⟩ := hlive 0 (Inner.pick {}).1 ⟨0, 0⟩ asking_pending
  have hdropped : call.phase = .finished .cancelled := by
    simp only [State.setPhase, Function.update_self, Option.some.injEq] at hcall
    rw [← hcall]
  rw [hdropped] at hholds
  exact hholds

end Relay.Dns.Upstream
