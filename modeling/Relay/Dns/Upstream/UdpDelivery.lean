import Relay.Dns.Upstream.UdpPool
import Relay.Dns.Wire

/-!
Which datagram a reply answers. A reply finds its waiter by message ID alone,
so the waiter is the datagram's own query as long as no ID is given to a query
while an older datagram that carries it can still be answered.
-/

namespace Relay.Dns.Upstream

open Binary Logic

variable (H : HickoryCrate)

/-- A datagram with this ID on this socket that the upstream may still answer. -/
def State.Unanswered (s : State) (i : Nat) (qid : BitVec 16) (d : Datagram) : Prop :=
  d ∈ s.sent ∧ d.inner = i ∧ idOf d.wire = some qid ∧ ∀ bytes, (d, bytes) ∉ s.answered

/-- The ID about to be registered is free in the network too: no other query's
datagram with it is unanswered, and no other query is about to send one. -/
def FreshId (s : State) : Event → Prop
  | .register c => ∀ call attempt i inner, s.calls c = some call →
      call.phase = .connected attempt i → s.inners i = some inner →
      (∀ d, s.Unanswered i inner.pick.1 d → d.token.call = c) ∧
        ∀ c' call' attempt', s.calls c' = some call' →
          call'.phase = .registered attempt' i inner.pick.1 → c' = c
  | _ => True

/-- The reply bytes answer a datagram that the query itself has sent. -/
def State.OwnAnswer (s : State) (c : Nat) (bytes : Bytes) : Prop :=
  ∃ d ∈ s.sent, d.token.call = c ∧ (d, bytes) ∈ s.answered

structure Sound (s : State) : Prop where
  /-- The waiter of an ID is the query of every unanswered datagram with it. -/
  owner : ∀ i inner qid t d, s.inners i = some inner → inner.pending.lookup qid = some t →
    s.Unanswered i qid d → d.token.call = t.call
  /-- It is also the query of every datagram about to be sent with it. -/
  sender : ∀ i inner qid t c call attempt, s.inners i = some inner →
    inner.pending.lookup qid = some t → s.calls c = some call →
    call.phase = .registered attempt i qid → c = t.call
  boxes : ∀ t bytes, s.boxes t = .value bytes → s.OwnAnswer t.call bytes
  finished : ∀ c call response, s.calls c = some call → call.phase = .finished (.ok response) →
    ∃ bytes, s.OwnAnswer c bytes ∧ H.fromBytes (withId call.request.id bytes) = some response

variable {H}

theorem Sound.initial : Sound H {} := by
  constructor
  · intro i inner qid t d h
    cases h
  · intro i inner qid t c call attempt h
    cases h
  · intro t bytes h
    cases h
  · intro c call response h
    cases h

/-- A step of one query that only moves it, to a phase that neither sends nor
has received. -/
theorem Sound.setPhase {s : State} (h : Sound H s) {c : Nat} {call : Call} {phase : Phase}
    (hsend : ∀ attempt i qid, phase ≠ .registered attempt i qid)
    (hok : ∀ response, phase = .finished (.ok response) →
      ∃ bytes, s.OwnAnswer c bytes ∧
        H.fromBytes (withId call.request.id bytes) = some response) :
    Sound H (s.setPhase c call phase) := by
  refine ⟨h.owner, ?_, h.boxes, ?_⟩
  · intro i inner qid t c' call' attempt hinner hpending hcall hphase
    by_cases hc : c' = c
    · subst hc
      simp only [State.setPhase, Function.update_self, Option.some.injEq] at hcall
      subst hcall
      exact absurd hphase (hsend attempt i qid)
    · simp only [State.setPhase, Function.update_of_ne hc] at hcall
      exact h.sender i inner qid t c' call' attempt hinner hpending hcall hphase
  · intro c' call' response hcall hphase
    by_cases hc : c' = c
    · subst hc
      simp only [State.setPhase, Function.update_self, Option.some.injEq] at hcall
      subst hcall
      exact hok response hphase
    · simp only [State.setPhase, Function.update_of_ne hc] at hcall
      exact h.finished c' call' response hcall hphase

/-- Entries that leave the pending table take no reply with them. -/
theorem Sound.shrink {s : State} (h : Sound H s) {i : Nat} {inner inner' : Inner}
    {boxes : Token → Box} (hinner : s.inners i = some inner)
    (hpending : ∀ qid t, inner'.pending.lookup qid = some t →
      inner.pending.lookup qid = some t)
    (hboxes : ∀ t bytes, boxes t = .value bytes → s.boxes t = .value bytes) :
    Sound H { s with inners := Function.update s.inners i (some inner'), boxes := boxes } := by
  have hkept : ∀ j inner'' qid t,
      Function.update s.inners i (some inner') j = some inner'' →
      inner''.pending.lookup qid = some t →
      ∃ before, s.inners j = some before ∧ before.pending.lookup qid = some t := by
    intro j inner'' qid t hj hlookup
    by_cases hji : j = i
    · subst hji
      rw [Function.update_self, Option.some.injEq] at hj
      subst hj
      exact ⟨inner, hinner, hpending qid t hlookup⟩
    · rw [Function.update_of_ne hji] at hj
      exact ⟨inner'', hj, hlookup⟩
  refine ⟨?_, ?_, ?_, h.finished⟩
  · intro j inner'' qid t d hj hlookup hd
    obtain ⟨before, hbefore, hold⟩ := hkept j inner'' qid t hj hlookup
    exact h.owner j before qid t d hbefore hold hd
  · intro j inner'' qid t c call attempt hj hlookup hcall hphase
    obtain ⟨before, hbefore, hold⟩ := hkept j inner'' qid t hj hlookup
    exact h.sender j before qid t c call attempt hbefore hold hcall hphase
  · intro t bytes hbox
    exact h.boxes t bytes (hboxes t bytes hbox)

private theorem closeBox_value {boxes : Token → Box} {entry : Option Token} {t : Token}
    {bytes : Bytes} (h : closeBox boxes entry t = .value bytes) : boxes t = .value bytes := by
  cases entry with
  | none => exact h
  | some t' =>
      simp only [closeBox] at h
      by_cases ht : t = t'
      · subst ht
        rw [Function.update_self] at h
        cases h
      · rwa [Function.update_of_ne ht] at h

private theorem lookup_of_lookup_erase {pending : AList (fun _ : BitVec 16 => Token)}
    {qid qid' : BitVec 16} {t : Token} (h : (pending.erase qid).lookup qid' = some t) :
    qid' ≠ qid ∧ pending.lookup qid' = some t := by
  by_cases hq : qid' = qid
  · subst hq
    rw [AList.lookup_erase] at h
    cases h
  · exact ⟨hq, by rwa [AList.lookup_erase_ne hq] at h⟩

theorem Sound.removePending {s : State} (h : Sound H s) {i : Nat} {inner : Inner}
    (hinner : s.inners i = some inner) (qid : BitVec 16) :
    Sound H (s.removePending i inner qid) :=
  h.shrink hinner (fun _ _ hlookup => (lookup_of_lookup_erase hlookup).2)
    (fun _ _ hbox => closeBox_value hbox)

theorem Sound.clearPending {s : State} (h : Sound H s) {i : Nat} {inner : Inner}
    (hinner : s.inners i = some inner) : Sound H (s.clearPending i inner) := by
  apply h.shrink hinner
  · intro qid t hlookup
    simp at hlookup
  · intro t bytes hbox
    split at hbox
    · cases hbox
    · exact hbox

/-- The upstream's answer goes to the query whose datagram it answers. -/
theorem Sound.deliver {s : State} (h : Sound H s) {d : Datagram} {bytes : Bytes} {inner : Inner}
    {id : BitVec 16} (hsent : d ∈ s.sent) (honce : ∀ earlier, (d, earlier) ∉ s.answered)
    (hinner : s.inners d.inner = some inner) (hd : idOf d.wire = some id)
    (hid : idOf bytes = some id) :
    Sound H (State.deliver { s with answered := s.answered ++ [(d, bytes)] } d.inner inner
      bytes) := by
  obtain ⟨s', hs'⟩ : ∃ s' : State, s' = { s with answered := s.answered ++ [(d, bytes)] } :=
    ⟨_, rfl⟩
  have hgrow : ∀ {c b}, s.OwnAnswer c b → s'.OwnAnswer c b := by
    rintro c b ⟨d', hd', hc, hmem⟩
    rw [hs']
    exact ⟨d', hd', hc, List.mem_append_left _ hmem⟩
  have hfewer : ∀ {i q d'}, s'.Unanswered i q d' → s.Unanswered i q d' := by
    rintro i q d' ⟨hmem, hi, hq, hnone⟩
    rw [hs'] at hmem hnone
    exact ⟨hmem, hi, hq, fun b hb => hnone b (List.mem_append_left _ hb)⟩
  have hanswered : Sound H s' := by
    refine ⟨?_, ?_, ?_, ?_⟩
    · intro i inner' qid t d' hi hlookup hun
      exact h.owner i inner' qid t d' (by rwa [hs'] at hi) hlookup (hfewer hun)
    · intro i inner' qid t c call attempt hi hlookup hcall hphase
      rw [hs'] at hi hcall
      exact h.sender i inner' qid t c call attempt hi hlookup hcall hphase
    · intro t b hbox
      rw [hs'] at hbox
      exact hgrow (h.boxes t b hbox)
    · intro c call response hcall hphase
      rw [hs'] at hcall
      obtain ⟨b, hown, hparse⟩ := h.finished c call response hcall hphase
      exact ⟨b, hgrow hown, hparse⟩
  have hinner' : s'.inners d.inner = some inner := by rw [hs']; exact hinner
  rw [← hs']
  unfold State.deliver
  rw [hid]
  simp only
  cases hlookup : inner.pending.lookup id with
  | none => exact hanswered
  | some t =>
      have hcall : d.token.call = t.call :=
        h.owner d.inner inner id t d hinner hlookup ⟨hsent, rfl, hd, honce⟩
      have hown : s'.OwnAnswer t.call bytes := by
        rw [hs']
        exact ⟨d, hsent, hcall, List.mem_append_right _ (List.mem_singleton.mpr rfl)⟩
      let erased : Inner := { inner with pending := inner.pending.erase id }
      have hshrunk : Sound H { s' with
          inners := Function.update s'.inners d.inner (some erased), boxes := s'.boxes } :=
        hanswered.shrink hinner' (fun _ _ hl => (lookup_of_lookup_erase hl).2) (fun _ _ hb => hb)
      refine ⟨hshrunk.owner, hshrunk.sender, ?_, hshrunk.finished⟩
      intro t' b hbox
      by_cases ht : t' = t
      · subst ht
        simp only [Function.update_self, Box.value.injEq] at hbox
        subst hbox
        exact hown
      · simp only [Function.update_of_ne ht] at hbox
        exact hshrunk.boxes t' b hbox

/-- Registering a query under an ID that is fresh in the network. -/
theorem Sound.register {s : State} (h : Sound H s) {c attempt i : Nat} {call : Call}
    {inner : Inner} (hcall : s.calls c = some call) (hphase : call.phase = .connected attempt i)
    (hinner : s.inners i = some inner) (hfresh : FreshId s (.register c)) :
    Sound H ((s.insertPending i inner ⟨c, attempt⟩).setPhase c call
      (.registered attempt i inner.pick.1)) := by
  obtain ⟨hfreshDatagram, hfreshSender⟩ := hfresh call attempt i inner hcall hphase hinner
  have hpending : ∀ j inner' qid t,
      Function.update s.inners i (some { inner with
        nextId := inner.pick.2, pending := inner.pending.insert inner.pick.1 ⟨c, attempt⟩ }) j =
        some inner' → inner'.pending.lookup qid = some t →
      (j = i ∧ qid = inner.pick.1 ∧ t.call = c) ∨
        ((j ≠ i ∨ qid ≠ inner.pick.1) ∧
          ∃ before, s.inners j = some before ∧ before.pending.lookup qid = some t) := by
    intro j inner' qid t hj hlookup
    by_cases hji : j = i
    · subst hji
      rw [Function.update_self, Option.some.injEq] at hj
      subst hj
      by_cases hq : qid = inner.pick.1
      · subst hq
        rw [AList.lookup_insert, Option.some.injEq] at hlookup
        subst hlookup
        exact Or.inl ⟨rfl, rfl, rfl⟩
      · rw [AList.lookup_insert_ne hq] at hlookup
        exact Or.inr ⟨Or.inr hq, inner, hinner, hlookup⟩
    · rw [Function.update_of_ne hji] at hj
      exact Or.inr ⟨Or.inl hji, inner', hj, hlookup⟩
  refine ⟨?_, ?_, ?_, ?_⟩
  · intro j inner' qid t d hj hlookup hun
    rcases hpending j inner' qid t hj hlookup with ⟨rfl, rfl, ht⟩ | ⟨_, before, hbefore, hold⟩
    · rw [ht]
      exact hfreshDatagram d hun
    · exact h.owner j before qid t d hbefore hold hun
  · intro j inner' qid t c' call' attempt' hj hlookup hcall' hphase'
    by_cases hc : c' = c
    · subst hc
      simp only [State.setPhase, Function.update_self, Option.some.injEq] at hcall'
      subst hcall'
      simp only [Phase.registered.injEq] at hphase'
      obtain ⟨_, rfl, rfl⟩ := hphase'
      rcases hpending i inner' inner.pick.1 t hj hlookup with ⟨_, _, ht⟩ | ⟨hne, _⟩
      · exact ht.symm
      · rcases hne with hne | hne
        · exact absurd rfl hne
        · exact absurd rfl hne
    · simp only [State.setPhase, Function.update_of_ne hc] at hcall'
      rcases hpending j inner' qid t hj hlookup with ⟨rfl, rfl, _⟩ | ⟨_, before, hbefore, hold⟩
      · exact absurd (hfreshSender c' call' attempt' hcall' hphase') hc
      · exact h.sender j before qid t c' call' attempt' hbefore hold hcall' hphase'
  · intro t bytes hbox
    simp only [State.setPhase, State.insertPending] at hbox
    by_cases ht : t = ⟨c, attempt⟩
    · subst ht
      rw [Function.update_self] at hbox
      cases hbox
    · rw [Function.update_of_ne ht] at hbox
      exact h.boxes t bytes (closeBox_value hbox)
  · intro c' call' response hcall' hphase'
    by_cases hc : c' = c
    · subst hc
      simp only [State.setPhase, Function.update_self, Option.some.injEq] at hcall'
      subst hcall'
      cases hphase'
    · simp only [State.setPhase, Function.update_of_ne hc] at hcall'
      exact h.finished c' call' response hcall' hphase'

/-- Sending the datagram of a registered query. -/
theorem Sound.send {s : State} (h : Sound H s) {c attempt i : Nat} {qid : BitVec 16} {call : Call}
    (hcall : s.calls c = some call) (hphase : call.phase = .registered attempt i qid) :
    Sound H (State.setPhase
      { s with sent := s.sent ++ [⟨⟨c, attempt⟩, i, withId qid call.wire⟩] }
      c call (.waiting attempt i qid)) := by
  have hgrow : ∀ {c' b}, s.OwnAnswer c' b → State.OwnAnswer
      { s with sent := s.sent ++ [⟨⟨c, attempt⟩, i, withId qid call.wire⟩] } c' b := by
    rintro c' b ⟨d, hd, hc, hmem⟩
    exact ⟨d, List.mem_append_left _ hd, hc, hmem⟩
  have hsent : Sound H
      { s with sent := s.sent ++ [⟨⟨c, attempt⟩, i, withId qid call.wire⟩] } := by
    refine ⟨?_, h.sender, fun t b hbox => hgrow (h.boxes t b hbox), ?_⟩
    · rintro j inner qid' t d hj hlookup ⟨hmem, hinner, hq, hnone⟩
      rcases List.mem_append.mp hmem with hold | hnew
      · exact h.owner j inner qid' t d hj hlookup ⟨hold, hinner, hq, hnone⟩
      · rw [List.mem_singleton] at hnew
        subst hnew
        have hqid := idOf_withId hq
        subst hqid hinner
        exact h.sender i inner qid' t c call attempt hj hlookup hcall hphase
    · intro c' call' response hcall' hphase'
      obtain ⟨b, hown, hparse⟩ := h.finished c' call' response hcall' hphase'
      exact ⟨b, hgrow hown, hparse⟩
  apply hsent.setPhase
  · intro attempt' i' qid' heq
    cases heq
  · intro response heq
    cases heq

/-- Every step whose registrations are fresh keeps a reply with its query. -/
theorem Step.sound {s s' : State} {e : Event} (h : Sound H s) (hstep : Step H s e s')
    (hfresh : FreshId s e) : Sound H s' := by
  cases hstep with
  | @start c request wire hnone hvec =>
      have hphase : Sound H (s.setPhase c ⟨request, wire, .connecting 0⟩ (.connecting 0)) :=
        h.setPhase (fun _ _ _ heq => by cases heq) (fun _ heq => by cases heq)
      exact hphase
  | acquire hcall hphase hinstalled =>
      exact h.setPhase (fun _ _ _ heq => by cases heq) (fun _ heq => by cases heq)
  | @create c call attempt i hcall hphase hinstalled hnone =>
      have hfreshInner : Sound H { s with
          installed := some i
          inners := Function.update s.inners i (some {}) } := by
        have hpending : ∀ j inner qid t,
            Function.update s.inners i (some {}) j = some inner →
            inner.pending.lookup qid = some t → s.inners j = some inner := by
          intro j inner qid t hj hlookup
          by_cases hji : j = i
          · subst hji
            rw [Function.update_self, Option.some.injEq] at hj
            subst hj
            simp at hlookup
          · rwa [Function.update_of_ne hji] at hj
        refine ⟨?_, ?_, h.boxes, h.finished⟩
        · intro j inner qid t d hj hlookup hun
          exact h.owner j inner qid t d (hpending j inner qid t hj hlookup) hlookup hun
        · intro j inner qid t c' call' attempt' hj hlookup hcall' hphase'
          exact h.sender j inner qid t c' call' attempt' (hpending j inner qid t hj hlookup)
            hlookup hcall' hphase'
      exact hfreshInner.setPhase (fun _ _ _ heq => by cases heq) (fun _ heq => by cases heq)
  | bindFail hcall hphase hinstalled =>
      exact h.setPhase (fun _ _ _ heq => by cases heq) (fun _ heq => by cases heq)
  | register hcall hphase hinner => exact h.register hcall hphase hinner hfresh
  | send hcall hphase => exact h.send hcall hphase
  | sendFail hcall hphase =>
      exact h.setPhase (fun _ _ _ heq => by cases heq) (fun _ heq => by cases heq)
  | @receive c call attempt i qid bytes hcall hphase hbox =>
      apply h.setPhase
      · intro _ _ _ heq
        cases heq
      · intro response heq
        refine ⟨bytes, h.boxes ⟨c, attempt⟩ bytes hbox, ?_⟩
        simp only [Phase.finished.injEq, replyOutcome] at heq
        split at heq
        · cases heq
        · rename_i parsed hparse
          split at heq
          · cases heq
          · cases heq
            exact hparse
  | closed hcall hphase hbox =>
      exact h.setPhase (fun _ _ _ heq => by cases heq) (fun _ heq => by cases heq)
  | timeout hcall hphase =>
      exact h.setPhase (fun _ _ _ heq => by cases heq) (fun _ heq => by cases heq)
  | @remove c call attempt i qid why inner hcall hphase hinner =>
      apply (h.removePending hinner qid).setPhase
      · intro _ _ _ heq
        cases why <;> cases heq
      · intro _ heq
        cases why <;> cases heq
  | @invalidate c call attempt i why hcall hphase =>
      have hforget : Sound H (s.invalidate i) := ⟨h.owner, h.sender, h.boxes, h.finished⟩
      apply hforget.setPhase
      · intro _ _ _ heq
        cases why <;> simp only [afterInvalidate] at heq <;> split at heq <;> cases heq
      · intro _ heq
        cases why <;> simp only [afterInvalidate] at heq <;> split at heq <;> cases heq
  | cancel hcall hawaits =>
      exact h.setPhase (fun _ _ _ heq => by cases heq) (fun _ heq => by cases heq)
  | arrive hsent honce hinner hrunning hd hid => exact h.deliver hsent honce hinner hd hid
  | recvFail hinner hrunning => exact h.clearPending hinner
  | dropInner hinner hinstalled hunused =>
      exact h.shrink hinner (fun _ _ hlookup => hlookup) (fun _ _ hbox => hbox)

/-! A run that wraps the ID counter. One query after another times out on one
socket, until an ID comes round again while its first datagram is unanswered. -/

def sampleWire : Bytes := [0, 0, 1, 0, 0, 1, 0, 0, 0, 0, 0, 0, 1, 97, 0, 0, 1, 0, 1]

/-- An answer to it under the ID zero. -/
def sampleReply : Bytes := [0, 0, 129, 128, 0, 1, 0, 0, 0, 0, 0, 0, 1, 97, 0, 0, 1, 0, 1]

def sampleResponse : Message :=
  { messageType := .response
    recursionDesired := true
    recursionAvailable := true
    queries := [⟨{ labels := [[97]] }, .a, 1⟩] }

/-- The datagram of the `n`-th query. -/
def sampleDatagram (n : Nat) : Datagram :=
  ⟨⟨n, 0⟩, 0, withId (BitVec.ofNat 16 n) sampleWire⟩

/-- Query `n` is next, nothing is pending and the upstream is silent. -/
structure Between (n : Nat) (s : State) : Prop where
  installed : s.installed = some 0
  inner : s.inners 0 = some { nextId := BitVec.ofNat 16 n }
  later : ∀ c, n ≤ c → s.calls c = none
  answered : s.answered = []

/-- Query `n` waits for the answer to its datagram. -/
structure Asked (n : Nat) (s : State) : Prop where
  installed : s.installed = some 0
  inner : s.inners 0 = some
    { nextId := BitVec.ofNat 16 (n + 1)
      pending := (∅ : AList fun _ : BitVec 16 => Token).insert (BitVec.ofNat 16 n) ⟨n, 0⟩ }
  call : s.calls n = some ⟨sampleRequest, sampleWire, .waiting 0 0 (BitVec.ofNat 16 n)⟩
  later : ∀ c, n < c → s.calls c = none
  answered : s.answered = []
  asked : sampleDatagram n ∈ s.sent

private theorem pick_of_empty (n : BitVec 16) : Inner.pick { nextId := n } = (n, n + 1) := by
  have hpick : pickId ∅ 65535 n = (n, n + 1) := by
    rw [show 65535 = 65534 + 1 from rfl, pickId, if_neg (AList.notMem_empty n)]
  exact hpick

private theorem erase_insert_empty (id : BitVec 16) (t : Token) :
    ((∅ : AList fun _ : BitVec 16 => Token).insert id t).erase id = ∅ := by
  rw [AList.insert_empty]
  apply AList.ext
  exact List.kerase_cons_eq rfl

/-- A query with a socket whose table is empty registers and sends. -/
private theorem asked_of_connected {n : Nat} {s : State}
    (hcall : s.calls n = some ⟨sampleRequest, sampleWire, .connected 0 0⟩)
    (hinner : s.inners 0 = some { nextId := BitVec.ofNat 16 n })
    (hinstalled : s.installed = some 0) (hlater : ∀ c, n < c → s.calls c = none)
    (hanswered : s.answered = []) :
    ∃ s₁ s₂, Step H s (.register n) s₁ ∧ Step H s₁ (.send n) s₂ ∧ Asked n s₂ ∧
      s.sent ⊆ s₂.sent := by
  have hregister := Step.register (H := H) hcall rfl hinner
  rw [pick_of_empty] at hregister
  have hregistered : ((s.insertPending 0 { nextId := BitVec.ofNat 16 n } ⟨n, 0⟩).setPhase n
      ⟨sampleRequest, sampleWire, .connected 0 0⟩ (.registered 0 0 (BitVec.ofNat 16 n))).calls n =
      some ⟨sampleRequest, sampleWire, .registered 0 0 (BitVec.ofNat 16 n)⟩ := by
    simp only [State.setPhase, Function.update_self]
  have hsend := Step.send (H := H) hregistered rfl
  refine ⟨_, _, hregister, hsend, ?_, ?_⟩
  · refine ⟨hinstalled, ?_, ?_, ?_, hanswered, ?_⟩
    · simp only [State.setPhase, State.insertPending, pick_of_empty, Function.update_self,
        BitVec.ofNat_add]
      rfl
    · simp only [State.setPhase, Function.update_self]
    · intro c hc
      simp only [State.setPhase, State.insertPending, Function.update_of_ne (Nat.ne_of_gt hc)]
      exact hlater c hc
    · simp [State.setPhase, sampleDatagram]
  · simp [State.setPhase, State.insertPending]

/-- The next query of a run without replies. -/
private theorem Between.ask {n : Nat} {s : State} (h : Between n s)
    (hvec : H.toVec sampleRequest = some sampleWire) :
    ∃ es s', Steps (Step H) s es s' ∧ Asked n s' ∧ s.sent ⊆ s'.sent := by
  have hstart := Step.start (H := H) (h.later n le_rfl) hvec
  have hacquire := Step.acquire (H := H)
    (s := { s with
      calls := Function.update s.calls n (some ⟨sampleRequest, sampleWire, .connecting 0⟩) })
    (c := n) (Function.update_self ..) rfl h.installed
  obtain ⟨s₁, s₂, hregister, hsend, hasked, hsent⟩ := asked_of_connected (H := H)
    (s := State.setPhase
      { s with
        calls := Function.update s.calls n (some ⟨sampleRequest, sampleWire, .connecting 0⟩) }
      n ⟨sampleRequest, sampleWire, .connecting 0⟩ (.connected 0 0))
    (n := n) (by simp only [State.setPhase, Function.update_self]) h.inner h.installed
    (by
      intro c hc
      simp only [State.setPhase, Function.update_of_ne (Nat.ne_of_gt hc)]
      exact h.later c (by omega))
    h.answered
  exact ⟨_, _, (((Steps.done s).next hstart).next hacquire).next hregister |>.next hsend, hasked,
    hsent⟩

/-- The query's wait ends without a reply; its ID is free again. -/
private theorem Asked.give_up {n : Nat} {s : State} (h : Asked n s) :
    ∃ es s', Steps (Step H) s es s' ∧ Between (n + 1) s' ∧ s'.sent = s.sent := by
  have htimeout := Step.timeout (H := H) h.call rfl
  have hgivingUp : (s.setPhase n ⟨sampleRequest, sampleWire, .waiting 0 0 (BitVec.ofNat 16 n)⟩
      (.givingUp 0 0 (BitVec.ofNat 16 n) .timedOut)).calls n =
      some ⟨sampleRequest, sampleWire, .givingUp 0 0 (BitVec.ofNat 16 n) .timedOut⟩ := by
    simp only [State.setPhase, Function.update_self]
  have hremove := Step.remove (H := H) hgivingUp rfl h.inner
  refine ⟨_, _, ((Steps.done s).next htimeout).next hremove, ?_, rfl⟩
  refine ⟨h.installed, ?_, ?_, h.answered⟩
  · simp only [State.setPhase, State.removePending, Function.update_self, erase_insert_empty]
  · intro c hc
    simp only [State.setPhase, State.removePending, Function.update_of_ne (show c ≠ n by omega)]
    exact h.later c (by omega)

/-- The upstream answers a datagram, and the query that waits for the ID zero
takes the answer. -/
private theorem Asked.take {n : Nat} {s : State} (h : Asked n s) {d : Datagram}
    (hsent : d ∈ s.sent) (hinner : d.inner = 0) (hid : idOf d.wire = some 0)
    (hn : BitVec.ofNat 16 n = 0) (hparse : H.fromBytes sampleReply = some sampleResponse) :
    ∃ es s' call, Steps (guarded (Step H) FreshId) s es s' ∧ s'.calls n = some call ∧
      call.phase = .finished (.ok sampleResponse) ∧ s'.answered = [(d, sampleReply)] := by
  obtain ⟨s₁, hs₁⟩ : ∃ s₁, State.deliver
      { s with answered := s.answered ++ [(d, sampleReply)] } d.inner
      { nextId := BitVec.ofNat 16 (n + 1)
        pending := (∅ : AList fun _ : BitVec 16 => Token).insert (BitVec.ofNat 16 n) ⟨n, 0⟩ }
      sampleReply = s₁ := ⟨_, rfl⟩
  have harrive : Step H s (.arrive d sampleReply) s₁ := by
    rw [← hs₁]
    exact Step.arrive hsent (by simp [h.answered]) (by rw [hinner, h.inner]) rfl hid (by rfl)
  have hreply : idOf sampleReply = some 0 := rfl
  rw [h.answered, State.deliver, hreply, hn] at hs₁
  simp only [AList.lookup_insert] at hs₁
  have hcall : s₁.calls n = some ⟨sampleRequest, sampleWire, .waiting 0 0 0⟩ := by
    rw [← hs₁, ← hn]
    exact h.call
  have hbox : s₁.boxes ⟨n, 0⟩ = .value sampleReply := by
    rw [← hs₁]
    exact Function.update_self ..
  have hreceive := Step.receive (H := H) hcall rfl hbox
  refine ⟨_, _, _, ((Steps.done s).next ⟨harrive, trivial⟩).next ⟨hreceive, trivial⟩,
    Function.update_self .., ?_, ?_⟩
  · have hoffered : H.fromBytes (withId sampleRequest.id sampleReply) = some sampleResponse :=
      hparse
    simp only [replyOutcome, hoffered]
    rfl
  · rw [← hs₁]
    rfl

private theorem Asked.after {n : Nat} {s : State} (h : Asked n s)
    (hvec : H.toVec sampleRequest = some sampleWire) (k : Nat) :
    ∃ es s', Steps (Step H) s es s' ∧ Asked (n + k) s' ∧ s.sent ⊆ s'.sent := by
  induction k with
  | zero => exact ⟨[], s, .done s, h, fun _ hd => hd⟩
  | succ k ih =>
      obtain ⟨es, s', hrun, hasked, hsub⟩ := ih
      obtain ⟨fs, t, hgive, hbetween, hsame⟩ := hasked.give_up (H := H)
      obtain ⟨gs, u, hask, hasked', hsub'⟩ := hbetween.ask hvec
      refine ⟨_, u, (hrun.append hgive).append hask, hasked', ?_⟩
      intro d hd
      exact hsub' (by rw [hsame]; exact hsub hd)

/-- The first query of a run opens the socket. -/
private theorem first_asked (hvec : H.toVec sampleRequest = some sampleWire) :
    ∃ es s', Steps (guarded (Step H) FreshId) {} es s' ∧ Asked 0 s' := by
  have hstart := Step.start (H := H) (s := {}) (c := 0) rfl hvec
  have hcreate := Step.create (H := H)
    (s := {
      calls := Function.update (fun _ => none) 0
        (some ⟨sampleRequest, sampleWire, .connecting 0⟩) })
    (c := 0) (i := 0) rfl rfl
    rfl rfl
  obtain ⟨s₁, s₂, hregister, hsend, hasked, _⟩ := asked_of_connected (H := H) (n := 0)
    (s := State.setPhase
      { installed := some 0
        inners := Function.update (fun _ => none) 0 (some {})
        calls := Function.update (fun _ => none) 0
          (some ⟨sampleRequest, sampleWire, .connecting 0⟩) }
      0 ⟨sampleRequest, sampleWire, .connecting 0⟩ (.connected 0 0))
    (by simp only [State.setPhase, Function.update_self]) rfl rfl
    (by
      intro c hc
      simp only [State.setPhase, Function.update_of_ne (Nat.ne_of_gt hc)])
    rfl
  have hdone : Steps (guarded (Step H) FreshId) {} [] {} := .done _
  have hconnected := (hdone.next ⟨hstart, trivial⟩).next ⟨hcreate, trivial⟩
  refine ⟨_, s₂, (hconnected.next ⟨hregister, ?_⟩).next ⟨hsend, trivial⟩, hasked⟩
  intro call attempt i inner hcall hphase hinner
  constructor
  · rintro d ⟨hd, _⟩
    cases hd
  · intro c' call' attempt' hcall' hphase'
    by_contra hne
    simp only [State.setPhase, Function.update_of_ne hne] at hcall'
    cases hcall'

/-- In every run that gives out only fresh IDs, a query that returns `Ok` over
UDP returns the upstream's answer to a datagram of its own. -/
theorem reply_answers_own_datagram {s : State} {es : List Event}
    (run : Steps (guarded (Step H) FreshId) {} es s) {c : Nat} {call : Call}
    {response : Message} (hcall : s.calls c = some call)
    (hphase : call.phase = .finished (.ok response)) :
    ∃ bytes, s.OwnAnswer c bytes ∧
      H.fromBytes (withId call.request.id bytes) = some response := by
  have hsound : Sound H s :=
    run.invariant Sound.initial (fun _ _ _ ht hstep => hstep.1.sound ht hstep.2)
  exact hsound.finished c call response hcall hphase

/-- The first query has opened the socket and is about to register. -/
def opened : State :=
  State.setPhase
    { installed := some 0
      inners := Function.update (fun _ => none) 0 (some {})
      calls := Function.update (fun _ => none) 0
        (some ⟨sampleRequest, sampleWire, .connecting 0⟩) }
    0 ⟨sampleRequest, sampleWire, .connecting 0⟩ (.connected 0 0)

theorem opened_call :
    opened.calls 0 = some ⟨sampleRequest, sampleWire, .connected 0 0⟩ := by
  simp only [opened, State.setPhase, Function.update_self]

theorem opened_calls {c : Nat} (h : c ≠ 0) : opened.calls c = none := by
  simp only [opened, State.setPhase, Function.update_of_ne h]

theorem opened_inner : opened.inners 0 = some {} := by
  simp only [opened, State.setPhase, Function.update_self]

/-- It has registered and stands at its send. -/
def asking : State :=
  (opened.insertPending 0 {} ⟨0, 0⟩).setPhase 0 ⟨sampleRequest, sampleWire, .connected 0 0⟩
    (.registered 0 0 (Inner.pick {}).1)

theorem asking_call :
    asking.calls 0 =
      some ⟨sampleRequest, sampleWire, .registered 0 0 (Inner.pick {}).1⟩ := by
  simp only [asking, State.setPhase, Function.update_self]

theorem asking_calls {c : Nat} (h : c ≠ 0) : asking.calls c = none := by
  simp only [asking, opened, State.setPhase, State.insertPending, Function.update_of_ne h]

theorem asking_run {guard : State → Event → Prop} (hstart : ∀ s c request, guard s (.start c request))
    (hcreate : ∀ s c i, guard s (.create c i)) (hregister : guard opened (.register 0)) :
    ∃ es, Steps (guarded (Step questionCodec) guard) {} es asking := by
  have started := Step.start (H := questionCodec) (s := {}) (c := 0) rfl
    (by rfl : questionCodec.toVec sampleRequest = some sampleWire)
  have created := Step.create (H := questionCodec)
    (s := {
      calls := Function.update (fun _ => none) 0
        (some ⟨sampleRequest, sampleWire, .connecting 0⟩) })
    (c := 0) (i := 0) rfl rfl rfl rfl
  have registered := Step.register (H := questionCodec) opened_call rfl opened_inner
  have run : Steps (guarded (Step questionCodec) guard) {} [] {} := .done _
  exact ⟨_, ((run.next ⟨started, hstart _ _ _⟩).next ⟨created, hcreate _ _ _⟩).next
    ⟨registered, hregister⟩⟩

/-- It waits for its answer, and a second query has the socket. -/
def joined : State :=
  let waiting := State.setPhase
    { asking with
      sent := asking.sent ++ [⟨⟨0, 0⟩, 0, withId (Inner.pick {}).1 sampleWire⟩] }
    0 ⟨sampleRequest, sampleWire, .registered 0 0 (Inner.pick {}).1⟩
    (.waiting 0 0 (Inner.pick {}).1)
  State.setPhase
    { waiting with
      calls := Function.update waiting.calls 1 (some ⟨sampleRequest, sampleWire, .connecting 0⟩) }
    1 ⟨sampleRequest, sampleWire, .connecting 0⟩ (.connected 0 0)

theorem joined_calls {c : Nat} (hzero : c ≠ 0) (hone : c ≠ 1) : joined.calls c = none := by
  simp only [joined, State.setPhase, Function.update_of_ne hzero, Function.update_of_ne hone,
    asking_calls hzero]

/-- What may still be answered carries another ID than the second query's. -/
theorem joined_unseen {i : Nat} {qid : BitVec 16} {d : Datagram}
    (h : joined.Unanswered i qid d) : qid = 0 := by
  obtain ⟨hsent, _, hid, _⟩ := h
  cases hsent with
  | head => exact (Option.some.inj hid).symm
  | tail _ hmore => cases hmore

theorem joined_run {guard : State → Event → Prop} (hstart : ∀ s c request, guard s (.start c request))
    (hcreate : ∀ s c i, guard s (.create c i)) (hacquire : ∀ s c, guard s (.acquire c))
    (hsend : ∀ s c, guard s (.send c)) (hregister : guard opened (.register 0)) :
    ∃ es, Steps (guarded (Step questionCodec) guard) {} es joined := by
  obtain ⟨es, hrun⟩ := asking_run hstart hcreate hregister
  have sent := hrun.next ⟨Step.send asking_call rfl, hsend _ _⟩
  have started := sent.next ⟨Step.start (c := 1) rfl
    (by rfl : questionCodec.toVec sampleRequest = some sampleWire), hstart _ _ _⟩
  exact ⟨_, started.next ⟨Step.acquire (c := 1) rfl rfl rfl, hacquire _ _⟩⟩

private theorem opened_fresh : FreshId opened (.register 0) := by
  intro call attempt i inner hcall hphase hinner
  constructor
  · rintro d ⟨hsent, _⟩
    cases hsent
  · intro c' call' attempt' hcall' hphase'
    by_contra hne
    rw [opened_calls hne] at hcall'
    cases hcall'

private theorem joined_fresh : FreshId joined (.register 1) := by
  intro call attempt i inner hcall hphase hinner
  cases hcall
  cases hphase
  cases hinner
  constructor
  · intro d hd
    exact absurd (joined_unseen hd) (by decide)
  · intro c' call' attempt' hcall' hphase'
    by_contra hone
    by_cases hzero : c' = 0
    · subst hzero
      cases hcall'
      cases hphase'
    · rw [joined_calls hzero hone] at hcall'
      cases hcall'

set_option maxRecDepth 1000 in
/-- Two queries are in flight at once, and the second is answered first. -/
theorem reply_answers_own_datagram_crossed :
    ∃ s es, Steps (guarded (Step questionCodec) FreshId) {} es s ∧
      s.answered = [(sampleDatagram 1, withId 1 sampleReply), (sampleDatagram 0, sampleReply)] ∧
      ∀ c ∈ [0, 1], ∃ call bytes, s.calls c = some call ∧
        call.phase = .finished (.ok sampleResponse) ∧ s.OwnAnswer c bytes ∧
          questionCodec.fromBytes (withId call.request.id bytes) = some sampleResponse := by
  obtain ⟨es, hrun⟩ := @joined_run FreshId (fun _ _ _ => trivial) (fun _ _ _ => trivial)
    (fun _ _ => trivial) (fun _ _ => trivial) opened_fresh
  have registered := hrun.next ⟨Step.register (c := 1) rfl rfl rfl, joined_fresh⟩
  have asked := registered.next ⟨Step.send (c := 1) rfl rfl, trivial⟩
  have crossed := asked.next (show guarded (Step questionCodec) FreshId _
    (.arrive (sampleDatagram 1) (withId 1 sampleReply)) _ from
      ⟨.arrive (.tail _ (.head _)) (fun _ h => by cases h) rfl rfl rfl rfl, trivial⟩)
  have second := crossed.next ⟨Step.receive (c := 1) rfl rfl rfl, trivial⟩
  have answered := second.next (show guarded (Step questionCodec) FreshId _
    (.arrive (sampleDatagram 0) sampleReply) _ from
      ⟨.arrive (.head _) (fun _ h => by cases h with | tail _ h => cases h) rfl rfl rfl rfl, trivial⟩)
  have received := answered.next ⟨Step.receive (c := 0) rfl rfl rfl, trivial⟩
  have hreply : replyOutcome questionCodec sampleRequest.id sampleReply = .ok sampleResponse := by
    rfl
  have hcrossed : replyOutcome questionCodec sampleRequest.id (withId 1 sampleReply) =
      .ok sampleResponse := by
    rfl
  refine ⟨_, _, received, rfl, ?_⟩
  intro c hc
  rcases List.mem_pair.mp hc with rfl | rfl
  · obtain ⟨bytes, hown⟩ := reply_answers_own_datagram received (c := 0) rfl
      (congrArg Phase.finished hreply)
    exact ⟨_, bytes, rfl, congrArg Phase.finished hreply, hown⟩
  · obtain ⟨bytes, hown⟩ := reply_answers_own_datagram received (c := 1) rfl
      (congrArg Phase.finished hcrossed)
    exact ⟨_, bytes, rfl, congrArg Phase.finished hcrossed, hown⟩

/-- The first query times out; 65535 queries later its ID is free again, and
its late answer is handed to the query that has the ID now. -/
theorem late_reply_after_wrap :
    ¬ ∀ (H : HickoryCrate) (s : State) (es : List Event) (c : Nat) (call : Call)
      (response : Message), Steps (Step H) {} es s → s.calls c = some call →
      call.phase = .finished (.ok response) →
      ∃ bytes, s.OwnAnswer c bytes ∧
        H.fromBytes (withId call.request.id bytes) = some response := by
  intro hclaim
  obtain ⟨es, s, hrun, hasked⟩ := first_asked (H := questionCodec) (by rfl)
  obtain ⟨fs, t, hrun', hasked', hsub⟩ := hasked.after (H := questionCodec) (by rfl) 65536
  obtain ⟨gs, u, call, hrun'', hcall, hphase, hanswered⟩ :=
    hasked'.take (H := questionCodec) (hsub hasked.asked) rfl rfl rfl (by rfl)
  have hwhole := ((hrun.mono fun _ _ _ h => h.1).append hrun').append
    (hrun''.mono fun _ _ _ h => h.1)
  obtain ⟨bytes, ⟨d, _, hcaller, hmem⟩, _⟩ :=
    hclaim questionCodec u _ (0 + 65536) call sampleResponse hwhole hcall hphase
  rw [hanswered, List.mem_singleton, Prod.mk.injEq] at hmem
  rw [hmem.1] at hcaller
  simp [sampleDatagram] at hcaller

end Relay.Dns.Upstream
