import Relay.Dns.Upstream.DotPool

/-!
Whose answer a query reads. There is no ID to match, so it is the one that the
server owes on the connection: a connection is in the pool or with one query,
and in the pool everything asked over it has been answered and read.
-/

namespace Relay.Dns.Upstream.Dot

open Binary Logic

/-! ### A connection -/

/-- Nothing is outstanding or unread: every query has written its whole frame,
the server has answered all of them, and the answers have been read. -/
structure Conn.Settled (conn : Conn) : Prop where
  written : conn.written = conn.asked.flatMap fun a => frame a.2
  answered : conn.answers.map Prod.fst = conn.asked.map Prod.snd
  consumed : conn.consumed = conn.written.length
  read : conn.read = conn.replies.length

/-- The bytes are the server's answer to the frame that the query sent. -/
def Conn.OwnAnswer (conn : Conn) (c : Nat) (wire bytes : Bytes) : Prop :=
  ∃ k : Nat, conn.asked[k]? = some (c, wire) ∧ conn.answers[k]? = some (wire, bytes)

/-- A query has sent this much of its frame over a settled connection. -/
def Conn.ask (past : Conn) (c : Nat) (wire : Bytes) (sent : Nat) : Conn :=
  { past with
    asked := past.asked ++ [(c, wire)]
    written := past.written ++ (frame wire).take sent }

/-- The server has answered it, and this much of the answer is read. -/
def Conn.reply (conn : Conn) (wire bytes : Bytes) (read : Nat) : Conn :=
  { conn with
    consumed := conn.consumed + (frame wire).length
    answers := conn.answers ++ [(wire, bytes)]
    read := conn.read + read }

/-- The connection of a query in its exchange, by what it has sent and got. -/
inductive Conn.Serving (c : Nat) (wire : Bytes) : Conn → Nat → Bytes → Prop where
  | asking {past : Conn} {sent : Nat} : past.Settled → sent ≤ (frame wire).length →
      Serving c wire (past.ask c wire sent) sent []
  | answered {past : Conn} {bytes got : Bytes} : past.Settled → bytes.length < 65536 →
      got <+: frame bytes →
      Serving c wire ((past.ask c wire (frame wire).length).reply wire bytes got.length)
        (frame wire).length got

theorem Conn.settled_new : ({} : Conn).Settled := ⟨rfl, rfl, rfl, rfl⟩

/-- The server has nothing to answer. -/
theorem Conn.Settled.unframe_eq_none {conn : Conn} (h : conn.Settled) :
    unframe (conn.written.drop conn.consumed) = none := by
  rw [h.consumed, List.drop_length]
  rfl

section Serving

variable {c : Nat} {wire : Bytes} {conn : Conn} {sent : Nat} {got bytes : Bytes}

theorem Conn.Settled.serving (h : conn.Settled) (c : Nat) (wire : Bytes) :
    Conn.Serving c wire { conn with asked := conn.asked ++ [(c, wire)] } 0 [] := by
  have hask : { conn with asked := conn.asked ++ [(c, wire)] } = conn.ask c wire 0 := by
    simp [Conn.ask]
  rw [hask]
  exact .asking h (Nat.zero_le _)

theorem Conn.Serving.write (h : Conn.Serving c wire conn sent got) {n : Nat}
    (hn : sent + n ≤ (frame wire).length) :
    Conn.Serving c wire
      { conn with written := conn.written ++ ((frame wire).drop sent).take n } (sent + n) got := by
  cases h with
  | @asking past _ hsettled _ =>
      have hask : { past.ask c wire sent with
          written := (past.ask c wire sent).written ++ ((frame wire).drop sent).take n } =
          past.ask c wire (sent + n) := by
        simp only [Conn.ask, List.append_assoc, List.take_add]
      rw [hask]
      exact .asking hsettled hn
  | answered hsettled hshort hgot =>
      have hzero : n = 0 := by omega
      subst hzero
      simpa using Conn.Serving.answered hsettled hshort hgot

/-- The server answers the frame of the query, once it is whole. -/
theorem Conn.Serving.answer (h : Conn.Serving c wire conn sent got) (hwire : wire.length < 65536)
    {query rest : Bytes} (hquery : unframe (conn.written.drop conn.consumed) = some (query, rest))
    (hshort : bytes.length < 65536) :
    Conn.Serving c wire
      { conn with
        consumed := conn.consumed + (frame query).length
        answers := conn.answers ++ [(query, bytes)] } sent got := by
  cases h with
  | @asking past _ hsettled hsent =>
      have hdrop : (past.ask c wire sent).written.drop (past.ask c wire sent).consumed =
          (frame wire).take sent := by
        simp only [Conn.ask]
        rw [hsettled.consumed, List.drop_left]
      rw [hdrop] at hquery
      by_cases hall : sent < (frame wire).length
      · rw [unframe_take hwire hall] at hquery
        cases hquery
      · have hfull : sent = (frame wire).length := by omega
        subst hfull
        have hwhole := unframe_frame hwire []
        rw [List.append_nil] at hwhole
        rw [List.take_length, hwhole] at hquery
        cases hquery
        exact .answered hsettled hshort (List.nil_prefix)
  | @answered past earlier _ hsettled _ _ =>
      have hdrop : ((past.ask c wire (frame wire).length).reply wire earlier got.length).written.drop
          ((past.ask c wire (frame wire).length).reply wire earlier got.length).consumed = [] := by
        simp only [Conn.ask, Conn.reply]
        rw [List.take_length, hsettled.consumed, ← List.length_append, List.drop_length]
      rw [hdrop] at hquery
      cases hquery

theorem Conn.Serving.read (h : Conn.Serving c wire conn sent got) {n : Nat}
    (hn : conn.read + n ≤ conn.replies.length) :
    Conn.Serving c wire { conn with read := conn.read + n } sent
      (got ++ (conn.replies.drop conn.read).take n) := by
  cases h with
  | @asking past _ hsettled hsent =>
      -- what there was to read has been read
      have hzero : n = 0 := by
        have hread : (past.ask c wire sent).read = (past.ask c wire sent).replies.length :=
          hsettled.read
        omega
      subst hzero
      simpa using Conn.Serving.asking (c := c) hsettled hsent
  | @answered past bytes got hsettled hshort hgot =>
      have hreplies : ((past.ask c wire (frame wire).length).reply wire bytes got.length).replies =
          past.replies ++ frame bytes := by
        simp only [Conn.ask, Conn.reply, Conn.replies, List.flatMap_append, List.flatMap_singleton]
      have hread : ((past.ask c wire (frame wire).length).reply wire bytes got.length).read =
          past.replies.length + got.length := by
        simp only [Conn.ask, Conn.reply, hsettled.read]
      have hpiece : got ++ ((past.replies ++ frame bytes).drop
          (past.replies.length + got.length)).take n = (frame bytes).take (got.length + n) := by
        rw [← List.drop_drop, List.drop_left, List.take_add, ← List.prefix_iff_eq_take.mp hgot]
      rw [hreplies, hread, List.length_append] at hn
      have hlength : ((frame bytes).take (got.length + n)).length = got.length + n := by
        rw [List.length_take]
        omega
      have hmore : Conn.Serving c wire _ _ _ := .answered hsettled hshort
        (List.take_prefix (got.length + n) (frame bytes))
      rw [hlength] at hmore
      rw [hreplies, hread, hpiece]
      simpa only [Conn.reply, Conn.ask, hsettled.read, Nat.add_assoc] using hmore

/-- The exchange is over: the connection is settled, and the bytes are the
server's answer. -/
theorem Conn.Serving.exchanged (h : Conn.Serving c wire conn sent got)
    (hbytes : unframe got = some (bytes, [])) :
    conn.Settled ∧ conn.OwnAnswer c wire bytes := by
  cases h with
  | asking => cases hbytes
  | @answered past bytes' _ hsettled hshort hgot =>
      obtain ⟨rfl, rfl⟩ := eq_frame_of_unframe hshort hgot hbytes
      have hlength : past.asked.length = past.answers.length := by
        have hmap := congrArg List.length hsettled.answered
        simpa using hmap.symm
      refine ⟨⟨?_, ?_, ?_, ?_⟩, past.asked.length, ?_, ?_⟩
      · simp only [Conn.reply, Conn.ask, List.take_length, List.flatMap_append,
          List.flatMap_singleton, hsettled.written]
      · simp only [Conn.reply, Conn.ask, List.map_append, List.map_cons, List.map_nil,
          hsettled.answered]
      · simp only [Conn.reply, Conn.ask, List.take_length, List.length_append, hsettled.consumed]
      · simp only [Conn.reply, Conn.ask, Conn.replies, List.flatMap_append,
          List.flatMap_singleton, List.length_append, hsettled.read]
      · simp only [Conn.reply, Conn.ask, List.getElem?_concat_length]
      · simp only [Conn.reply, Conn.ask, hlength, List.getElem?_concat_length]

end Serving

/-- What was asked and answered over a connection stays so. -/
structure Conn.Grows (conn conn' : Conn) : Prop where
  asked : conn.asked <+: conn'.asked
  answers : conn.answers <+: conn'.answers

theorem Conn.OwnAnswer.grows {conn conn' : Conn} {c : Nat} {wire bytes : Bytes}
    (h : conn.OwnAnswer c wire bytes) (hgrows : conn.Grows conn') :
    conn'.OwnAnswer c wire bytes := by
  obtain ⟨k, hasked, hanswer⟩ := h
  obtain ⟨_, hasked'⟩ := hgrows.asked
  obtain ⟨_, hanswers'⟩ := hgrows.answers
  refine ⟨k, ?_, ?_⟩
  · rw [← hasked', List.getElem?_append_left (List.getElem?_eq_some_iff.mp hasked).1]
    exact hasked
  · rw [← hanswers', List.getElem?_append_left (List.getElem?_eq_some_iff.mp hanswer).1]
    exact hanswer

/-! ### The pool -/

/-- The connection a query works with. -/
def Phase.conn : Phase → Option Nat
  | .exchanging _ i _ _ | .puttingBack _ i _ => some i
  | _ => none

/-- What is known of the connection of a query where it stands. -/
def Call.Valid (conns : Nat → Option Conn) (c : Nat) (call : Call) : Prop :=
  match call.phase with
  | .exchanging _ i sent got => ∃ conn, conns i = some conn ∧ conn.Serving c call.wire sent got
  | .puttingBack _ i bytes =>
      ∃ conn, conns i = some conn ∧ conn.Settled ∧ conn.OwnAnswer c call.wire bytes
  | .finished (.answered i bytes) =>
      ∃ conn, conns i = some conn ∧ conn.OwnAnswer c call.wire bytes
  | _ => True

/-- No other query works with the connection. -/
def State.FreeFor (s : State) (c i : Nat) : Prop :=
  ∀ c' call, s.calls c' = some call → call.phase.conn = some i → c' = c

structure Sound (s : State) : Prop where
  wires : ∀ c call, s.calls c = some call → call.wire.length < 65536
  calls : ∀ c call, s.calls c = some call → call.Valid s.conns c
  owned : ∀ c call i, s.calls c = some call → call.phase.conn = some i →
    i ∉ s.idle ∧ s.FreeFor c i
  idle : ∀ i ∈ s.idle, ∃ conn, s.conns i = some conn ∧ conn.Settled
  nodup : s.idle.Nodup
  room : s.idle.length ≤ poolCapacity

theorem Sound.initial : Sound {} := by
  constructor
  · intro c call h
    cases h
  · intro c call h
    cases h
  · intro c call i h
    cases h
  · intro i h
    cases h
  · exact List.nodup_nil
  · exact Nat.zero_le _

/-- What a query holds to be true of its connection stays true when others
change. -/
theorem Call.Valid.transfer {conns conns' : Nat → Option Conn} {c : Nat} {call : Call}
    (h : call.Valid conns c) (hsame : ∀ i, call.phase.conn = some i → conns' i = conns i)
    (hgrows : ∀ i conn, conns i = some conn → ∃ conn', conns' i = some conn' ∧ conn.Grows conn') :
    call.Valid conns' c := by
  unfold Call.Valid at h ⊢
  cases hphase : call.phase with
  | exchanging source i sent got =>
      rw [hphase] at h hsame
      obtain ⟨conn, hconn, hserving⟩ := h
      exact ⟨conn, (hsame i rfl).trans hconn, hserving⟩
  | puttingBack source i bytes =>
      rw [hphase] at h hsame
      obtain ⟨conn, hconn, hrest⟩ := h
      exact ⟨conn, (hsame i rfl).trans hconn, hrest⟩
  | finished outcome =>
      rw [hphase] at h
      cases outcome with
      | answered i bytes =>
          obtain ⟨conn, hconn, hown⟩ := h
          obtain ⟨conn', hconn', hmore⟩ := hgrows i conn hconn
          exact ⟨conn', hconn', hown.grows hmore⟩
      | failed => trivial
      | cancelled => trivial
  | queued => trivial
  | permitted => trivial
  | connecting => trivial

theorem Call.Valid.exists_conn {conns : Nat → Option Conn} {c : Nat} {call : Call} {i : Nat}
    (h : call.Valid conns c) (hi : call.phase.conn = some i) : ∃ conn, conns i = some conn := by
  unfold Call.Valid at h
  cases hphase : call.phase with
  | exchanging source j sent got =>
      rw [hphase] at h hi
      cases hi
      obtain ⟨conn, hconn, _⟩ := h
      exact ⟨conn, hconn⟩
  | puttingBack source j bytes =>
      rw [hphase] at h hi
      cases hi
      obtain ⟨conn, hconn, _⟩ := h
      exact ⟨conn, hconn⟩
  | _ =>
      rw [hphase] at hi
      cases hi

/-- A query moves, and at most one connection changes: one that neither another
query nor the pool has. -/
theorem Sound.move {s s' : State} (h : Sound s) {c : Nat} {call' : Call} (touched : Nat → Prop)
    (hcalls : s'.calls = Function.update s.calls c (some call'))
    (hwire : call'.wire.length < 65536) (hvalid : call'.Valid s'.conns c)
    (hconns : ∀ i, ¬ touched i → s'.conns i = s.conns i)
    (hgrows : ∀ i conn, s.conns i = some conn →
      ∃ conn', s'.conns i = some conn' ∧ conn.Grows conn')
    (htouched : ∀ i, touched i → i ∉ s'.idle ∧ s.FreeFor c i)
    (hheld : ∀ i, call'.phase.conn = some i → i ∉ s'.idle ∧ s.FreeFor c i)
    (hidle : ∀ i ∈ s'.idle, i ∈ s.idle ∨ s.FreeFor c i ∧ ∃ conn, s.conns i = some conn ∧
      conn.Settled)
    (hnodup : s'.idle.Nodup) (hroom : s'.idle.length ≤ poolCapacity) : Sound s' := by
  have hother : ∀ c' call, c' ≠ c → s'.calls c' = some call → s.calls c' = some call := by
    intro c' call hne hcall
    rwa [hcalls, Function.update_of_ne hne] at hcall
  have hself : ∀ call, s'.calls c = some call → call = call' := by
    intro call hcall
    rw [hcalls, Function.update_self] at hcall
    exact (Option.some.inj hcall).symm
  refine ⟨?_, ?_, ?_, ?_, hnodup, hroom⟩
  · intro c' call hcall
    by_cases hc : c' = c
    · rw [hc] at hcall
      rw [hself call hcall]
      exact hwire
    · exact h.wires c' call (hother c' call hc hcall)
  · intro c' call hcall
    by_cases hc : c' = c
    · rw [hc] at hcall ⊢
      rw [hself call hcall]
      exact hvalid
    · have hbefore := hother c' call hc hcall
      refine (h.calls c' call hbefore).transfer ?_ hgrows
      intro i hi
      apply hconns
      intro hit
      exact hc ((htouched i hit).2 c' call hbefore hi)
  · intro c' call i hcall hi
    by_cases hc : c' = c
    · rw [hc] at hcall ⊢
      rw [hself call hcall] at hi
      refine ⟨(hheld i hi).1, ?_⟩
      intro c'' call'' hcall'' hi''
      by_cases hc'' : c'' = c
      · exact hc''
      · exact (hheld i hi).2 c'' call'' (hother c'' call'' hc'' hcall'') hi''
    · have hbefore := hother c' call hc hcall
      obtain ⟨hnotIdle, hfree⟩ := h.owned c' call i hbefore hi
      constructor
      · intro hmem
        rcases hidle i hmem with hold | ⟨hfree', _⟩
        · exact hnotIdle hold
        · exact hc (hfree' c' call hbefore hi)
      · intro c'' call'' hcall'' hi''
        by_cases hc'' : c'' = c
        · rw [hc''] at hcall''
          rw [hself call'' hcall''] at hi''
          exact absurd ((hheld i hi'').2 c' call hbefore hi) hc
        · exact hfree c'' call'' (hother c'' call'' hc'' hcall'') hi''
  · intro i hmem
    have hbefore : ∃ conn, s.conns i = some conn ∧ conn.Settled := by
      rcases hidle i hmem with hold | ⟨_, hsettled⟩
      · exact h.idle i hold
      · exact hsettled
    obtain ⟨conn, hconn, hsettled⟩ := hbefore
    have hkept : ¬ touched i := fun hit => (htouched i hit).1 hmem
    exact ⟨conn, (hconns i hkept).trans hconn, hsettled⟩

/-- A query moves on its own. -/
theorem Sound.setPhase {s s' : State} (h : Sound s) {c : Nat} {call : Call} {phase : Phase}
    (hcall : s.calls c = some call)
    (hcalls : s'.calls = Function.update s.calls c (some { call with phase := phase }))
    (hconns : s'.conns = s.conns) (hidle : s'.idle = s.idle)
    (hvalid : Call.Valid s.conns c { call with phase := phase })
    (hheld : phase.conn = none ∨ phase.conn = call.phase.conn) : Sound s' := by
  refine h.move (fun _ => False) hcalls (h.wires c call hcall) (hconns ▸ hvalid) ?_ ?_ ?_ ?_ ?_
    (hidle ▸ h.nodup) (hidle ▸ h.room)
  · intro i _
    rw [hconns]
  · intro i conn hconn
    exact ⟨conn, hconns ▸ hconn, List.prefix_rfl, List.prefix_rfl⟩
  · intro i hi
    exact hi.elim
  · intro i hi
    rw [hidle]
    rcases hheld with hnone | hsame
    · rw [hnone] at hi
      cases hi
    · exact h.owned c call i hcall (hsame ▸ hi)
  · intro i hi
    exact Or.inl (hidle ▸ hi)

/-- A query and its connection move together. -/
theorem Sound.exchange {s s' : State} (h : Sound s) {c i : Nat} {call : Call} {source : Source}
    {sent sent' : Nat} {got got' : Bytes} {conn conn' : Conn} (hcall : s.calls c = some call)
    (hphase : call.phase = .exchanging source i sent got) (hconn : s.conns i = some conn)
    (hcalls : s'.calls = Function.update s.calls c
      (some { call with phase := .exchanging source i sent' got' }))
    (hconns : s'.conns = Function.update s.conns i (some conn')) (hidle : s'.idle = s.idle)
    (hserving : conn'.Serving c call.wire sent' got') (hgrows : conn.Grows conn') : Sound s' := by
  have howned := h.owned c call i hcall (by rw [hphase]; rfl)
  refine h.move (fun j => j = i) hcalls (h.wires c call hcall) ?_ ?_ ?_ ?_ ?_ ?_
    (hidle ▸ h.nodup) (hidle ▸ h.room)
  · exact ⟨conn', by rw [hconns, Function.update_self], hserving⟩
  · intro j hj
    rw [hconns, Function.update_of_ne hj]
  · intro j before hbefore
    by_cases hj : j = i
    · rw [hj, hconn] at hbefore
      cases hbefore
      exact ⟨conn', by rw [hj, hconns, Function.update_self], hgrows⟩
    · exact ⟨before, by rw [hconns, Function.update_of_ne hj]; exact hbefore,
        List.prefix_rfl, List.prefix_rfl⟩
  · rintro j rfl
    exact ⟨hidle ▸ howned.1, howned.2⟩
  · intro j hj
    cases hj
    exact ⟨hidle ▸ howned.1, howned.2⟩
  · intro j hj
    exact Or.inl (hidle ▸ hj)

/-- A query takes a settled connection that nobody has. -/
theorem Sound.take {s s' : State} (h : Sound s) {c i : Nat} {call : Call} {source : Source}
    {conn : Conn} (hcall : s.calls c = some call)
    (hcalls : s'.calls = Function.update s.calls c
      (some { call with phase := .exchanging source i 0 [] }))
    (hconns : s'.conns = Function.update s.conns i
      (some { conn with asked := conn.asked ++ [(c, call.wire)] }))
    (hsettled : conn.Settled) (hfree : s.FreeFor c i)
    (hbefore : ∀ before, s.conns i = some before → before = conn)
    (hidle : s'.idle.Sublist s.idle) (hgone : i ∉ s'.idle) : Sound s' := by
  refine h.move (fun j => j = i) hcalls (h.wires c call hcall) ?_ ?_ ?_ ?_ ?_ ?_
    (h.nodup.sublist hidle) (Nat.le_trans hidle.length_le h.room)
  · exact ⟨_, by rw [hconns, Function.update_self], hsettled.serving c call.wire⟩
  · intro j hj
    rw [hconns, Function.update_of_ne hj]
  · intro j before hj
    by_cases hji : j = i
    · rw [hji] at hj
      rw [hbefore before hj, hji, hconns, Function.update_self]
      exact ⟨_, rfl, List.prefix_append _ _, List.prefix_rfl⟩
    · exact ⟨before, by rw [hconns, Function.update_of_ne hji]; exact hj,
        List.prefix_rfl, List.prefix_rfl⟩
  · rintro j rfl
    exact ⟨hgone, hfree⟩
  · intro j hj
    cases hj
    exact ⟨hgone, hfree⟩
  · intro j hj
    exact Or.inl (hidle.subset hj)

variable {H : HickoryCrate}

/-- The server answers: the connection is one of a query in its exchange, or
one that was dropped. -/
theorem Sound.serverAnswers {s : State} (h : Sound s) {i : Nat} {conn : Conn}
    {query rest bytes : Bytes} (hconn : s.conns i = some conn)
    (hquery : unframe (conn.written.drop conn.consumed) = some (query, rest))
    (hshort : bytes.length < 65536) :
    Sound (s.setConn i { conn with
      consumed := conn.consumed + (frame query).length
      answers := conn.answers ++ [(query, bytes)] }) := by
  have hunsettled : ¬ conn.Settled := by
    intro hsettled
    rw [hsettled.unframe_eq_none] at hquery
    cases hquery
  refine ⟨h.wires, ?_, h.owned, ?_, h.nodup, h.room⟩
  · intro c call hcall
    have hvalid := h.calls c call hcall
    by_cases hi : call.phase.conn = some i
    · unfold Call.Valid at hvalid ⊢
      cases hphase : call.phase with
      | exchanging source j sent got =>
          rw [hphase] at hvalid hi
          cases hi
          obtain ⟨before, hbefore, hserving⟩ := hvalid
          rw [hconn] at hbefore
          cases hbefore
          exact ⟨_, Function.update_self .., hserving.answer (h.wires c call hcall) hquery hshort⟩
      | puttingBack source j bytes =>
          rw [hphase] at hvalid hi
          cases hi
          obtain ⟨before, hbefore, hsettled, _⟩ := hvalid
          rw [hconn] at hbefore
          cases hbefore
          exact absurd hsettled hunsettled
      | _ =>
          rw [hphase] at hi
          cases hi
    · refine hvalid.transfer ?_ ?_
      · intro j hj
        have hne : j ≠ i := fun heq => hi (heq ▸ hj)
        exact Function.update_of_ne hne _ _
      · intro j before hbefore
        by_cases hj : j = i
        · rw [hj, hconn] at hbefore
          cases hbefore
          rw [hj]
          exact ⟨_, Function.update_self .., List.prefix_rfl, List.prefix_append _ _⟩
        · exact ⟨before, (Function.update_of_ne hj _ _).trans hbefore, List.prefix_rfl,
            List.prefix_rfl⟩
  · intro j hj
    obtain ⟨before, hbefore, hsettled⟩ := h.idle j hj
    have hne : j ≠ i := by
      rintro rfl
      rw [hconn] at hbefore
      cases hbefore
      exact hunsettled hsettled
    exact ⟨before, (Function.update_of_ne hne _ _).trans hbefore, hsettled⟩

/-- The connection of a query in its exchange. -/
theorem Sound.serving {s : State} (h : Sound s) {c i : Nat} {call : Call} {source : Source}
    {sent : Nat} {got : Bytes} (hcall : s.calls c = some call)
    (hphase : call.phase = .exchanging source i sent got) :
    ∃ conn, s.conns i = some conn ∧ conn.Serving c call.wire sent got := by
  have hvalid := h.calls c call hcall
  unfold Call.Valid at hvalid
  rw [hphase] at hvalid
  exact hvalid

/-- The connection of a query that has its answer. -/
theorem Sound.returning {s : State} (h : Sound s) {c i : Nat} {call : Call} {source : Source}
    {bytes : Bytes} (hcall : s.calls c = some call)
    (hphase : call.phase = .puttingBack source i bytes) :
    ∃ conn, s.conns i = some conn ∧ conn.Settled ∧ conn.OwnAnswer c call.wire bytes := by
  have hvalid := h.calls c call hcall
  unfold Call.Valid at hvalid
  rw [hphase] at hvalid
  exact hvalid

/-- A query gives its connection to the pool, or drops it if that is full. -/
theorem Sound.putBack {s : State} (h : Sound s) {c i : Nat} {call : Call} {source : Source}
    {bytes : Bytes} (hcall : s.calls c = some call)
    (hphase : call.phase = .puttingBack source i bytes) :
    Sound (State.finish
      { s with idle := if s.idle.length < poolCapacity then s.idle ++ [i] else s.idle } c call
      (.answered i bytes)) := by
  obtain ⟨conn, hconn, hsettled, hown⟩ := h.returning hcall hphase
  obtain ⟨hnotIdle, hfree⟩ := h.owned c call i hcall (by rw [hphase]; rfl)
  refine h.move (fun _ => False) rfl (h.wires c call hcall) ⟨conn, hconn, hown⟩
    (fun _ _ => rfl) ?_ ?_ ?_ ?_ ?_ ?_
  · intro j before hbefore
    exact ⟨before, hbefore, List.prefix_rfl, List.prefix_rfl⟩
  · intro j hj
    exact hj.elim
  · intro j hj
    cases hj
  · intro j hj
    change j ∈ (if s.idle.length < poolCapacity then s.idle ++ [i] else s.idle) at hj
    split at hj
    · rcases List.mem_append.mp hj with hold | hnew
      · exact Or.inl hold
      · rw [List.mem_singleton.mp hnew]
        exact Or.inr ⟨hfree, conn, hconn, hsettled⟩
    · exact Or.inl hj
  · change (if s.idle.length < poolCapacity then s.idle ++ [i] else s.idle).Nodup
    split
    · exact List.nodup_append.mpr ⟨h.nodup, List.nodup_singleton i, by
        intro j hj k hk hjk
        rw [List.mem_singleton.mp hk] at hjk
        exact hnotIdle (hjk ▸ hj)⟩
    · exact h.nodup
  · change (if s.idle.length < poolCapacity then s.idle ++ [i] else s.idle).length ≤ _
    split
    case isTrue hroom =>
      rw [List.length_append, List.length_singleton]
      omega
    case isFalse => exact h.room

theorem Sound.step {s s' : State} {e : Event}
    (hH : ∀ message wire, H.toVec message = some wire → wire.length < 65536)
    (h : Sound s) (hstep : Step H s e s') : Sound s' := by
  cases hstep with
  | @start c request wire hnew hwire =>
      refine h.move (fun _ => False) rfl (hH request wire hwire) trivial (fun _ _ => rfl) ?_ ?_ ?_
        (fun i hi => Or.inl hi) h.nodup h.room
      · intro i conn hconn
        exact ⟨conn, hconn, List.prefix_rfl, List.prefix_rfl⟩
      · intro i hi
        exact hi.elim
      · intro i hi
        cases hi
  | acquire hcall hphase =>
      exact h.setPhase hcall rfl rfl rfl trivial (Or.inl rfl)
  | @reuse c call i rest conn hcall hphase _ hidle hconn =>
      have hmem : i ∈ s.idle := by
        rw [hidle]
        exact List.mem_cons_self
      have hfree : s.FreeFor c i := by
        intro c' call' hcall' hi
        exact absurd hmem (h.owned c' call' i hcall' hi).1
      obtain ⟨before, hbefore, hsettled⟩ := h.idle i hmem
      rw [hconn] at hbefore
      cases hbefore
      have hnodup := h.nodup
      rw [hidle] at hnodup
      refine h.take hcall rfl rfl hsettled hfree ?_ ?_ (List.nodup_cons.mp hnodup).1
      · intro before hbefore
        rw [hconn] at hbefore
        exact (Option.some.inj hbefore).symm
      · rw [hidle]
        exact List.sublist_cons_self i rest
  | noneIdle hcall hphase =>
      exact h.setPhase hcall rfl rfl rfl trivial (Or.inl rfl)
  | @connect c call attempt i hcall hphase hnew =>
      have hfresh : ∀ before, s.conns i ≠ some before := by
        intro before hbefore
        rw [hnew] at hbefore
        cases hbefore
      refine @Sound.take s _ h c i call (.fresh attempt) {} hcall rfl rfl Conn.settled_new ?_ ?_
        (List.Sublist.refl _) ?_
      · intro c' call' hcall' hi
        obtain ⟨before, hbefore⟩ := (h.calls c' call' hcall').exists_conn hi
        exact absurd hbefore (hfresh before)
      · intro before hbefore
        exact absurd hbefore (hfresh before)
      · intro hmem
        obtain ⟨before, hbefore, _⟩ := h.idle i hmem
        exact hfresh before hbefore
  | connectFail hcall hphase =>
      unfold State.nextAttempt
      split
      · exact h.setPhase hcall rfl rfl rfl trivial (Or.inl rfl)
      · exact h.setPhase hcall rfl rfl rfl trivial (Or.inl rfl)
  | write hcall hphase hconn hn =>
      obtain ⟨before, hbefore, hserving⟩ := h.serving hcall hphase
      rw [hconn] at hbefore
      cases hbefore
      exact h.exchange hcall hphase hconn rfl rfl rfl (hserving.write hn)
        ⟨List.prefix_rfl, List.prefix_rfl⟩
  | answer hconn hquery hshort => exact h.serverAnswers hconn hquery hshort
  | read hcall hphase hconn _ hn =>
      obtain ⟨before, hbefore, hserving⟩ := h.serving hcall hphase
      rw [hconn] at hbefore
      cases hbefore
      exact h.exchange hcall hphase hconn rfl rfl rfl (hserving.read hn)
        ⟨List.prefix_rfl, List.prefix_rfl⟩
  | exchanged hcall hphase hbytes =>
      obtain ⟨conn, hconn, hserving⟩ := h.serving hcall hphase
      obtain ⟨hsettled, hown⟩ := hserving.exchanged hbytes
      exact h.setPhase hcall rfl rfl rfl ⟨conn, hconn, hsettled, hown⟩
        (Or.inr (by rw [hphase]; rfl))
  | reuseFail hcall hphase =>
      exact h.setPhase hcall rfl rfl rfl trivial (Or.inl rfl)
  | freshFail hcall hphase =>
      unfold State.nextAttempt
      split
      · exact h.setPhase hcall rfl rfl rfl trivial (Or.inl rfl)
      · exact h.setPhase hcall rfl rfl rfl trivial (Or.inl rfl)
  | putBack hcall hphase => exact h.putBack hcall hphase
  | cancel hcall hphase =>
      exact h.setPhase hcall rfl rfl rfl trivial (Or.inl rfl)

/-- In every state of every run the bytes that a query returns are the server's
answer to its own frame, nothing is unread or outstanding on an idle
connection, and no more than eight of them are idle. A message takes no more
than 65535 bytes. -/
theorem dot_own_answers (hH : ∀ message wire, H.toVec message = some wire → wire.length < 65536)
    {s : State} {events : List Event} (run : Steps (Step H) {} events s) :
    (∀ c call i bytes, s.calls c = some call → call.phase = .finished (.answered i bytes) →
        ∃ conn, s.conns i = some conn ∧ conn.OwnAnswer c call.wire bytes) ∧
      (∀ i ∈ s.idle, ∃ conn, s.conns i = some conn ∧ conn.Settled) ∧
      s.idle.length ≤ poolCapacity := by
  have hsound : Sound s := run.invariant Sound.initial fun _ _ _ h hstep => h.step hH hstep
  refine ⟨?_, hsound.idle, hsound.room⟩
  intro c call i bytes hcall hphase
  have hvalid := hsound.calls c call hcall
  unfold Call.Valid at hvalid
  rw [hphase] at hvalid
  exact hvalid

/-! ### One query over a new connection -/

private def header (response : Bool) : Bytes :=
  [0, 0, if response then 0x80 else 0, 0, 0, 0, 0, 0, 0, 0, 0, 0]

/-- Messages of a header alone. -/
private def headerCodec : HickoryCrate where
  display := fun _ => "."
  debugType := fun _ => "A"
  fromStr := fun _ => none
  toVec := fun message => if message = {} then some (header false) else none
  fromBytes := fun bytes =>
    if bytes = header true then some { messageType := .response } else none

private def firstCall (phase : Phase) : Call := ⟨{}, header false, phase⟩

private def askedConn (written : Bytes) : Conn where
  asked := [(0, header false)]
  written := written

/-- Its connection once this much is read of the answer. -/
private def firstConn (read : Nat) : Conn where
  asked := [(0, header false)]
  written := frame (header false)
  consumed := 14
  answers := [(header false, header true)]
  read := read

private theorem first_query :
    ∃ events s, Steps (Step headerCodec) {} events s ∧
      s.calls 0 = some (firstCall (.finished (.answered 0 (header true)))) ∧ s.idle = [0] ∧
      s.conns 0 = some (firstConn 14) ∧ s.guard = none ∧ s.permits = poolCapacity ∧
      ∀ c, c ≠ 0 → s.calls c = none := by
  have h₁ := Steps.single (Step.start (H := headerCodec) (s := {}) (c := 0) rfl
    (rfl : headerCodec.toVec {} = some (header false)))
  have h₂ := h₁.next (.acquire (c := 0) (rfl : _ = some (firstCall .queued)) rfl (by decide))
  have h₃ := h₂.next (.noneIdle (c := 0) (rfl : _ = some (firstCall .permitted)) rfl rfl rfl)
  have h₄ := h₃.next (.connect (c := 0) (i := 0) (rfl : _ = some (firstCall (.connecting 0))) rfl rfl)
  have h₅ := h₄.next (.write (c := 0) (n := 14)
    (rfl : _ = some (firstCall (.exchanging (.fresh 0) 0 0 []))) rfl
    (rfl : _ = some (askedConn [])) (by decide))
  have h₆ := h₅.next (.answer (i := 0)
    (rfl : _ = some (askedConn (frame (header false))))
    (rfl : _ = some (header false, [])) (by decide : (header true).length < 65536))
  have h₇ := (h₆.next (.read (c := 0) (n := 2)
    (rfl : _ = some (firstCall (.exchanging (.fresh 0) 0 14 []))) rfl
    (rfl : _ = some (firstConn 0)) (by decide) (by decide))).next (.read (c := 0) (n := 12)
    (rfl : _ = some (firstCall (.exchanging (.fresh 0) 0 14 [0, 12]))) rfl
    (rfl : _ = some (firstConn 2)) (by decide) (by decide))
  have h₈ := h₇.next (.exchanged (c := 0)
    (rfl : _ = some (firstCall (.exchanging (.fresh 0) 0 14 (frame (header true))))) rfl
    (rfl : _ = some (header true, [])) (by decide))
  have h₉ := h₈.next (.putBack (c := 0)
    (rfl : _ = some (firstCall (.puttingBack (.fresh 0) 0 (header true)))) rfl rfl)
  refine ⟨_, _, h₉, rfl, rfl, rfl, rfl, rfl, ?_⟩
  intro c hc
  simp only [State.finish, State.setPhase, State.setConn, Function.update_of_ne hc]

theorem dot_own_answers_first :
    ∃ (s : State) (conn : Conn), s.conns 0 = some conn ∧
      conn.OwnAnswer 0 (header false) (header true) ∧ s.idle = [0] ∧
      (∀ i ∈ s.idle, ∃ conn, s.conns i = some conn ∧ conn.Settled) ∧
      s.idle.length ≤ poolCapacity := by
  obtain ⟨events, s, run, hcall, hidle, -⟩ := first_query
  have hH : ∀ message wire, headerCodec.toVec message = some wire → wire.length < 65536 := by
    intro message wire hwire
    simp only [headerCodec] at hwire
    split at hwire
    · cases hwire
      decide
    · cases hwire
  obtain ⟨hown, hsettled, hroom⟩ := dot_own_answers hH run
  obtain ⟨conn, hconn, hanswer⟩ := hown 0 _ 0 _ hcall rfl
  exact ⟨s, conn, hconn, hanswer, hidle, hsettled, hroom⟩

/-! ### The lock of a query that has a connection from the pool -/

/-- A query that works with a connection from the pool has the pool's lock. -/
def Locked (s : State) : Prop :=
  ∀ c call, s.calls c = some call → call.phase.locks = true → s.guard = some c

@[simp] theorem Phase.locks_exchanging (source : Source) (i sent : Nat) (got : Bytes) :
    (Phase.exchanging source i sent got).locks = decide (source = .idle) := by
  cases source <;> rfl

@[simp] theorem Phase.locks_puttingBack (source : Source) (i : Nat) (bytes : Bytes) :
    (Phase.puttingBack source i bytes).locks = decide (source = .idle) := by
  cases source <;> rfl

theorem Locked.move {s s' : State} (h : Locked s) {c : Nat} {call' : Call}
    (hcalls : s'.calls = Function.update s.calls c (some call'))
    (hlocks : call'.phase.locks = true → s'.guard = some c)
    (hkept : ∀ c', c' ≠ c → s.guard = some c' → s'.guard = some c') : Locked s' := by
  intro c' call hcall hphase
  by_cases hc : c' = c
  · rw [hc, hcalls, Function.update_self] at hcall
    cases hcall
    rw [hc]
    exact hlocks hphase
  · rw [hcalls, Function.update_of_ne hc] at hcall
    exact hkept c' hc (h c' call hcall hphase)

theorem Locked.stays {s s' : State} (h : Locked s) {c : Nat} {call call' : Call}
    (hcall : s.calls c = some call) (hcalls : s'.calls = Function.update s.calls c (some call'))
    (hguard : s'.guard = s.guard) (hlocks : call.phase.locks = call'.phase.locks) : Locked s' := by
  apply h.move hcalls
  · intro hlocked
    rw [hguard]
    exact h c call hcall (hlocks.trans hlocked)
  · intro c' _ hc'
    rw [hguard]
    exact hc'

/-- A query that ends gives up its own lock and no other's. -/
theorem Locked.finish {s : State} (h : Locked s) {c : Nat} {call : Call}
    (hcall : s.calls c = some call) (idle : List Nat) (outcome : Outcome) :
    Locked (State.finish { s with idle := idle } c call outcome) := by
  refine h.move rfl Bool.noConfusion ?_
  intro c' hc hguard
  change (if call.phase.locks then none else s.guard) = some c'
  split
  case isTrue hlocks =>
    rw [h c call hcall hlocks] at hguard
    exact absurd (Option.some.inj hguard).symm hc
  case isFalse => exact hguard

theorem Locked.nextAttempt {s : State} (h : Locked s) {c attempt : Nat} {call : Call}
    (hcall : s.calls c = some call) : Locked (s.nextAttempt c call attempt) := by
  unfold State.nextAttempt
  split
  · exact h.move rfl Bool.noConfusion fun _ _ hguard => hguard
  · exact h.finish hcall s.idle .failed

theorem Locked.step {s s' : State} {e : Event} (h : Locked s) (hstep : Step H s e s') :
    Locked s' := by
  cases hstep with
  | start => exact h.move rfl Bool.noConfusion fun _ _ hguard => hguard
  | acquire => exact h.move rfl Bool.noConfusion fun _ _ hguard => hguard
  | reuse _ _ hfree =>
      refine h.move rfl (fun _ => rfl) ?_
      intro c' _ hguard
      rw [hfree] at hguard
      cases hguard
  | noneIdle => exact h.move rfl Bool.noConfusion fun _ _ hguard => hguard
  | connect => exact h.move rfl Bool.noConfusion fun _ _ hguard => hguard
  | connectFail hcall => exact h.nextAttempt hcall
  | write hcall hphase =>
      refine h.stays hcall rfl rfl ?_
      simp [hphase]
  | answer => exact h
  | read hcall hphase =>
      refine h.stays hcall rfl rfl ?_
      simp [hphase]
  | exchanged hcall hphase =>
      refine h.stays hcall rfl rfl ?_
      simp [hphase]
  | @reuseFail c call i sent got hcall hphase =>
      refine h.move rfl Bool.noConfusion ?_
      intro c' hc hguard
      rw [h c call hcall (by rw [hphase]; rfl)] at hguard
      exact absurd (Option.some.inj hguard).symm hc
  | freshFail hcall => exact h.nextAttempt hcall
  | putBack hcall => exact h.finish hcall _ _
  | cancel hcall => exact h.finish hcall s.idle .cancelled

/-- A query that waits for the lock in `put_back` stays there as long as it is
not free. -/
theorem Step.waits {s s' : State} {e : Event} (h : Step H s e s') {c i : Nat} {call : Call}
    {source : Source} {bytes : Bytes} (hcall : s.calls c = some call)
    (hphase : call.phase = .puttingBack source i bytes) (hguard : s.guard ≠ none)
    (he : e ≠ .cancel c) : s'.calls c = some call := by
  have hother : ∀ {c' : Nat} {call' : Call} {phase : Phase} (moved : Call),
      s.calls c' = some call' → call'.phase = phase → phase ≠ .puttingBack source i bytes →
        Function.update s.calls c' (some moved) c = some call := by
    rintro c' call' phase moved hcall' rfl hne
    rw [Function.update_of_ne ?_, hcall]
    rintro rfl
    rw [hcall] at hcall'
    cases hcall'
    exact hne hphase
  cases h with
  | @start c' _ _ hnew =>
      have hne : c ≠ c' := by
        rintro rfl
        rw [hcall] at hnew
        cases hnew
      exact (Function.update_of_ne hne _ _).trans hcall
  | acquire hcall' hphase' | reuse hcall' hphase' | noneIdle hcall' hphase'
  | connect hcall' hphase' | write hcall' hphase' | read hcall' hphase'
  | exchanged hcall' hphase' | reuseFail hcall' hphase' =>
      exact hother _ hcall' hphase' nofun
  | connectFail hcall' hphase' | freshFail hcall' hphase' =>
      unfold State.nextAttempt
      split
      · exact hother _ hcall' hphase' nofun
      · exact hother _ hcall' hphase' nofun
  | answer => exact hcall
  | putBack _ _ hfree => exact absurd hfree hguard
  | @cancel c' _ _ =>
      have hne : c ≠ c' := by
        rintro rfl
        exact he rfl
      exact (Function.update_of_ne hne _ _).trans hcall

/-- While the lock is taken, no step answers a query. -/
theorem Step.answered_before {s s' : State} {e : Event} (h : Step H s e s') {c i : Nat}
    {call : Call} {bytes : Bytes} (hguard : s.guard ≠ none) (hcall : s'.calls c = some call)
    (hphase : call.phase = .finished (.answered i bytes)) : s.calls c = some call := by
  have hmoved : ∀ {c' : Nat} {call' : Call},
      Function.update s.calls c' (some call') c = some call →
      call'.phase ≠ .finished (.answered i bytes) → s.calls c = some call := by
    intro c' call' hupdate hne
    by_cases hc : c = c'
    · rw [hc, Function.update_self] at hupdate
      cases hupdate
      exact absurd hphase hne
    · rwa [Function.update_of_ne hc] at hupdate
  cases h with
  | answer => exact hcall
  | connectFail | freshFail =>
      unfold State.nextAttempt at hcall
      split at hcall
      · exact hmoved hcall nofun
      · exact hmoved hcall nofun
  | putBack _ _ hfree => exact absurd hfree hguard
  | start | acquire | reuse | noneIdle | connect | write | read | exchanged | reuseFail | cancel =>
      exact hmoved hcall nofun

/-- `put_back` of a connection from the pool waits for the lock that its own
query has. Whatever else happens, the query stays there, with the pool's lock,
and no query of the pool is answered, until its future is dropped. -/
theorem reuse_never_returns {s s' : State} {events later : List Event} {c i : Nat} {call : Call}
    {bytes : Bytes} (run : Steps (Step H) {} events s) (hcall : s.calls c = some call)
    (hphase : call.phase = .puttingBack .idle i bytes) (rest : Steps (Step H) s later s')
    (hkept : Event.cancel c ∉ later) :
    s'.calls c = some call ∧ s'.guard = some c ∧
      ∀ (c' i' : Nat) (call' : Call) (bytes' : Bytes), s'.calls c' = some call' →
        call'.phase = .finished (.answered i' bytes') → s.calls c' = some call' := by
  have hlocked : Locked s :=
    run.invariant (fun _ _ h => nomatch h) fun _ _ _ h hstep => h.step hstep
  have hlocks : call.phase.locks = true := by
    rw [hphase]
    rfl
  induction rest with
  | done => exact ⟨hcall, hlocked c call hcall hlocks, fun _ _ _ _ hthere _ => hthere⟩
  | @next t u es e before hstep ih =>
      obtain ⟨hthere, hguard, hearlier⟩ := ih fun h => hkept (List.mem_append_left _ h)
      have hlocked' : Locked t := before.invariant hlocked fun _ _ _ h hstep => h.step hstep
      have he : e ≠ .cancel c := by
        rintro rfl
        exact hkept (List.mem_append_right _ List.mem_cons_self)
      have hheld : t.guard ≠ none := by
        rw [hguard]
        nofun
      have hstays := hstep.waits hthere hphase hheld he
      refine ⟨hstays, hlocked'.step hstep c call hstays hlocks, ?_⟩
      intro c' i' call' bytes' hcall' hphase'
      exact hearlier c' i' call' bytes' (hstep.answered_before hheld hcall' hphase') hphase'

/-- The connection of the first query while the second one asks over it. -/
private def secondConn (written : Bytes) (answers : List (Bytes × Bytes)) (read : Nat) : Conn where
  asked := [(0, header false), (1, header false)]
  written := frame (header false) ++ written
  consumed := 14 * answers.length
  answers := answers
  read := read

private theorem second_query :
    ∃ events s, Steps (Step headerCodec) {} events s ∧
      s.calls 1 = some (firstCall (.puttingBack .idle 0 (header true))) ∧ s.calls 2 = none ∧
      0 < s.permits := by
  obtain ⟨events, s, run, -, hidle, hconn, hguard, hpermits, hcalls⟩ := first_query
  have h₁ := run.next (.start (c := 1) (hcalls 1 nofun)
    (rfl : headerCodec.toVec {} = some (header false)))
  have h₂ := h₁.next (.acquire (c := 1) (rfl : _ = some (firstCall .queued)) rfl
    (by simp [hpermits, poolCapacity]))
  have h₃ := h₂.next (.reuse (c := 1) (rfl : _ = some (firstCall .permitted)) rfl hguard hidle hconn)
  have h₄ := h₃.next (.write (c := 1) (n := 14)
    (rfl : _ = some (firstCall (.exchanging .idle 0 0 []))) rfl
    (rfl : _ = some (secondConn [] [(header false, header true)] 14)) (by decide))
  have h₅ := h₄.next (.answer (i := 0)
    (rfl : _ = some (secondConn (frame (header false)) [(header false, header true)] 14))
    (rfl : _ = some (header false, [])) (by decide : (header true).length < 65536))
  have h₆ := (h₅.next (.read (c := 1) (n := 2)
    (rfl : _ = some (firstCall (.exchanging .idle 0 14 []))) rfl
    (rfl : _ = some (secondConn (frame (header false))
      [(header false, header true), (header false, header true)] 14)) (by decide)
    (by decide))).next (.read (c := 1) (n := 12)
    (rfl : _ = some (firstCall (.exchanging .idle 0 14 [0, 12]))) rfl
    (rfl : _ = some (secondConn (frame (header false))
      [(header false, header true), (header false, header true)] 16)) (by decide) (by decide))
  have h₇ := h₆.next (.exchanged (c := 1)
    (rfl : _ = some (firstCall (.exchanging .idle 0 14 (frame (header true))))) rfl
    (rfl : _ = some (header true, [])) (by decide))
  refine ⟨_, _, h₇, rfl, hcalls 2 nofun, ?_⟩
  simp only [State.setPhase, State.setConn, hpermits]
  decide

/-- A second query waits with the reply it has, and a third one behind it. -/
theorem reuse_never_returns_second :
    ∃ s t : State, s.calls 1 = some (firstCall (.puttingBack .idle 0 (header true))) ∧
      t.calls 1 = s.calls 1 ∧ t.calls 2 = some (firstCall .permitted) ∧ t.guard = some 1 ∧
      ∀ (c i : Nat) (call : Call) (bytes : Bytes), t.calls c = some call →
        call.phase = .finished (.answered i bytes) → s.calls c = some call := by
  obtain ⟨events, s, run, hcall, hnew, hpermits⟩ := second_query
  have later := (Steps.single (Step.start (c := 2) hnew
    (rfl : headerCodec.toVec {} = some (header false)))).next
    (.acquire (c := 2) (rfl : _ = some (firstCall .queued)) rfl hpermits)
  obtain ⟨hwaits, hguard, hearlier⟩ := reuse_never_returns run hcall rfl later (by simp)
  exact ⟨s, _, hcall, hwaits.trans hcall.symm, rfl, hguard, hearlier⟩

end Relay.Dns.Upstream.Dot
