import Relay.Dns.Listener
import Relay.Dns.Reply

/-!
What the peers of the listener read. On a connection it is what
`handle_request` made of its requests, framed, whole and in their order,
however its bytes arrive and whatever the other connections do; a datagram has
what was made of it, sent to its sender, or nothing.
-/

namespace Relay.Dns

open Binary Upstream Stats Logic Ruleset Storage

variable {H : HickoryCrate} {U : UnicodeTables} {F : FstCrate} {R : RegexCrate} {C : CacheCrate}

/-- One run of `handle_request`: the bytes it was given, and what it made of
them. -/
inductive Handled where
  | message (c : Nat) (msg : Bytes) (result : Run QueryError Bytes)
  | datagram (peer : SocketAddr) (buf : Bytes) (result : Run QueryError Bytes)

/-- The message of this connection, and what was made of it. -/
def Handled.onConn (c : Nat) : Handled → Option (Bytes × Run QueryError Bytes)
  | .message c' msg result => if c' = c then some (msg, result) else none
  | .datagram _ _ _ => none

/-- What is sent for a datagram. -/
def Handled.sent : Handled → Option (SocketAddr × Bytes)
  | .datagram peer _ (.ok reply) => some (peer, reply)
  | _ => none

/-- The tasks, with all that `handle_request` was given. -/
structure Watched (F : FstCrate) (R : RegexCrate) (C : CacheCrate) where
  tasks : DnsTasks F R C
  handled : List Handled := []

def Watched.onConn (w : Watched F R C) (c : Nat) : List (Bytes × Run QueryError Bytes) :=
  w.handled.filterMap (Handled.onConn c)

section

variable (H : HickoryCrate) (U : UnicodeTables)

/-- The run of `handle_request` that an event is. -/
def DnsTasks.handles (tasks : DnsTasks F R C) : TaskEvent F R C → Option Handled
  | .datagram peer bytes m =>
      let buf := bytes.take UDP_BUFFER
      some (.datagram peer buf (handleRequest H U tasks.router m peer.ip buf).1)
  | .turn c m _ => do
      let conn ← tasks.conns c
      let (msg, _) ← unframe (conn.received.drop conn.consumed)
      if msg = [] then none
      else some (.message c msg (handleRequest H U tasks.router m conn.peer.ip msg).1)
  | _ => none

/-- One event of the tasks. -/
def Watched.next (w : Watched F R C) (e : TaskEvent F R C) : Option (Watched F R C) :=
  (w.tasks.next H U e).map fun tasks =>
    { tasks := tasks, handled := w.handled ++ (w.tasks.handles H U e).toList }

def WatchedNext (w : Watched F R C) (e : TaskEvent F R C) (w' : Watched F R C) : Prop :=
  w.next H U e = some w'

end

/-- What is written for the last message of a connection, which ends with it:
nothing when it fails, and otherwise a part of the reply. -/
def Torn : Option (Bytes × Run QueryError Bytes) → Bytes → Prop
  | some (_, .ok reply), part => ∃ n < (frame reply).length, part = (frame reply).take n
  | _, part => part = []

theorem handleRequest_fits (hfits : ∀ m wire, H.toVec m = some wire → wire.length < 65536)
    {router : Router F R C} {m : Meeting} {peer : IpAddr} {buf reply : Bytes}
    (h : (handleRequest H U router m peer buf).1 = .ok reply) : reply.length < 65536 := by
  unfold handleRequest at h
  split at h
  · cases h
  · dsimp only at h
    unfold responseBytes at h
    split at h
    · exact hfits _ _ (encode_ok.mp h)
    · cases h

/-! ### One connection -/

/-- The messages that were handled of a connection: all but the last have their
whole replies, and of the last one's reply `part` was written. -/
structure TcpConn.Answered (conn : TcpConn) (handled : List (Bytes × Run QueryError Bytes))
    (exchanges : List (Bytes × Bytes)) (last : Option (Bytes × Run QueryError Bytes))
    (part : Bytes) : Prop where
  handled_eq : handled = exchanges.map (fun e => (e.1, .ok e.2)) ++ last.toList
  within : conn.consumed ≤ conn.received.length
  read : conn.received.take conn.consumed = (handled.map Prod.fst).flatMap frame
  wrote : conn.written = (exchanges.map Prod.snd).flatMap frame ++ part
  fits : ∀ e ∈ exchanges, e.2.length < 65536
  lastFits : ∀ msg reply, last = some (msg, .ok reply) → reply.length < 65536
  torn : Torn last part
  going : conn.isOpen = true → last = none

def TcpConn.InTurn (conn : TcpConn) (handled : List (Bytes × Run QueryError Bytes)) : Prop :=
  ∃ exchanges last part, conn.Answered handled exchanges last part

theorem TcpConn.inTurn_new (peer : SocketAddr) : ({ peer := peer } : TcpConn).InTurn [] :=
  ⟨[], none, [],
    { handled_eq := rfl
      within := Nat.le_refl 0
      read := rfl
      wrote := rfl
      fits := by simp
      lastFits := by simp
      torn := rfl
      going := fun _ => rfl }⟩

theorem TcpConn.InTurn.receive {conn : TcpConn} {handled : List (Bytes × Run QueryError Bytes)}
    (h : conn.InTurn handled) (bytes : Bytes) :
    ({ conn with received := conn.received ++ bytes } : TcpConn).InTurn handled := by
  obtain ⟨exchanges, last, part, h⟩ := h
  refine ⟨exchanges, last, part, { h with within := ?_, read := ?_ }⟩
  · have hwithin := h.within
    simp only [List.length_append]
    omega
  · dsimp only
    rw [List.take_append_of_le_length h.within]
    exact h.read

theorem TcpConn.InTurn.close {conn : TcpConn} {handled : List (Bytes × Run QueryError Bytes)}
    (h : conn.InTurn handled) : ({ conn with isOpen := false } : TcpConn).InTurn handled := by
  obtain ⟨exchanges, last, part, h⟩ := h
  exact ⟨exchanges, last, part, { h with going := fun hopen => Bool.noConfusion hopen }⟩

/-- What has been read once the next message is read too. -/
theorem take_consumed {received msg rest front : Bytes} {consumed : Nat}
    (hwithin : consumed ≤ received.length) (hread : received.take consumed = front)
    (hnext : received.drop consumed = frame msg ++ rest) :
    consumed + (frame msg).length ≤ received.length ∧
      received.take (consumed + (frame msg).length) = front ++ frame msg := by
  have hlength := congrArg List.length hnext
  rw [List.length_drop, List.length_append] at hlength
  refine ⟨by omega, ?_⟩
  rw [List.take_add, hread, hnext, List.take_left]

/-- A turn of the loop: the next message is handled, and its reply is written
whole, or the connection ends. -/
theorem TcpConn.InTurn.answer {conn : TcpConn} {handled : List (Bytes × Run QueryError Bytes)}
    (h : conn.InTurn handled) (hopen : conn.isOpen = true) {msg rest : Bytes}
    (hnext : unframe (conn.received.drop conn.consumed) = some (msg, rest))
    {result : Run QueryError Bytes} (hresult : ∀ reply, result = .ok reply → reply.length < 65536)
    (cut : Option Nat) : (conn.answer msg result cut).InTurn (handled ++ [(msg, result)]) := by
  obtain ⟨exchanges, last, part, h⟩ := h
  have hlast := h.going hopen
  subst hlast
  have hpart : part = [] := h.torn
  subst hpart
  obtain ⟨hwithin, hread⟩ := take_consumed h.within h.read (unframe_eq_some hnext).1
  have hreadAll : conn.received.take (conn.consumed + (frame msg).length) =
      ((handled ++ [(msg, result)]).map Prod.fst).flatMap frame := by
    rw [hread]
    simp
  have hwrote := h.wrote
  rw [List.append_nil] at hwrote
  have hhandled := h.handled_eq
  rw [Option.toList_none, List.append_nil] at hhandled
  -- a message without a whole reply is the last one
  have hends : ∀ part', Torn (some (msg, result)) part' →
      ({ conn with
        consumed := conn.consumed + (frame msg).length
        written := conn.written ++ part'
        isOpen := false } : TcpConn).InTurn (handled ++ [(msg, result)]) := by
    intro part' htorn
    refine ⟨exchanges, some (msg, result), part',
      { handled_eq := ?_
        within := hwithin
        read := hreadAll
        wrote := ?_
        fits := h.fits
        lastFits := ?_
        torn := htorn
        going := fun hopen => Bool.noConfusion hopen }⟩
    · rw [hhandled]
      rfl
    · rw [← hwrote]
    · intro msg' reply heq
      cases heq
      exact hresult reply rfl
  cases result with
  | error fault =>
      have hclosed := hends [] rfl
      rw [List.append_nil] at hclosed
      exact hclosed
  | ok reply =>
      have hfits := hresult reply rfl
      -- a message with a whole reply is one more exchange
      have hwhole : ∀ conn' : TcpConn, conn'.received = conn.received →
          conn'.consumed = conn.consumed + (frame msg).length →
          conn'.written = conn.written ++ frame reply →
          conn'.InTurn (handled ++ [(msg, .ok reply)]) := by
        intro conn' hreceived hconsumed hwritten
        refine ⟨exchanges ++ [(msg, reply)], none, [],
          { handled_eq := ?_
            within := ?_
            read := ?_
            wrote := ?_
            fits := ?_
            lastFits := by simp
            torn := rfl
            going := fun _ => rfl }⟩
        · rw [hhandled]
          simp
        · rw [hreceived, hconsumed]
          exact hwithin
        · rw [hreceived, hconsumed]
          exact hreadAll
        · rw [hwritten, hwrote]
          simp
        · intro e he
          rcases List.mem_append.mp he with hold | hnew
          · exact h.fits e hold
          · rw [List.mem_singleton.mp hnew]
            exact hfits
      cases cut with
      | none => exact hwhole _ rfl rfl rfl
      | some n =>
          by_cases hall : n < (frame reply).length
          · exact hends _ ⟨n, hall, rfl⟩
          · have htake : (frame reply).take n = frame reply :=
              List.take_of_length_le (Nat.le_of_not_lt hall)
            exact hwhole _ rfl rfl (congrArg (conn.written ++ ·) htake)

/-- Every connection is answered in turn, one that is not there has handled
nothing, and what is sent was made of the datagrams. -/
structure Watched.InTurn (w : Watched F R C) : Prop where
  conns : ∀ c conn, w.tasks.conns c = some conn → conn.InTurn (w.onConn c)
  absent : ∀ c, w.tasks.conns c = none → w.onConn c = []
  sent : w.tasks.sent = w.handled.filterMap Handled.sent

theorem Watched.onConn_append (w : Watched F R C) (tasks : DnsTasks F R C) (handled : List Handled)
    (c : Nat) : ({ tasks := tasks, handled := w.handled ++ handled } : Watched F R C).onConn c =
      w.onConn c ++ handled.filterMap (Handled.onConn c) := by
  unfold Watched.onConn
  exact List.filterMap_append

/-- A step at one connection, with what it hands to `handle_request` of it. -/
theorem Watched.InTurn.setConn {w : Watched F R C} (h : w.InTurn) {c : Nat} {conn : TcpConn}
    {tasks : DnsTasks F R C} {handled : List Handled}
    (hconns : tasks.conns = Function.update w.tasks.conns c (some conn))
    (hsent : tasks.sent = w.tasks.sent)
    (hothers : ∀ c', c' ≠ c → handled.filterMap (Handled.onConn c') = [])
    (hdatagrams : handled.filterMap Handled.sent = [])
    (hconn : conn.InTurn (w.onConn c ++ handled.filterMap (Handled.onConn c))) :
    Watched.InTurn { tasks := tasks, handled := w.handled ++ handled } where
  conns c' conn' hconn' := by
    rw [Watched.onConn_append]
    dsimp only at hconn'
    rw [hconns] at hconn'
    by_cases hsame : c' = c
    · subst hsame
      rw [Function.update_self, Option.some.injEq] at hconn'
      rw [← hconn']
      exact hconn
    · rw [Function.update_of_ne hsame] at hconn'
      rw [hothers c' hsame, List.append_nil]
      exact h.conns c' conn' hconn'
  absent c' hnone := by
    rw [Watched.onConn_append]
    dsimp only at hnone
    rw [hconns] at hnone
    by_cases hsame : c' = c
    · subst hsame
      rw [Function.update_self] at hnone
      cases hnone
    · rw [Function.update_of_ne hsame] at hnone
      rw [hothers c' hsame, List.append_nil]
      exact h.absent c' hnone
  sent := by
    dsimp only
    rw [List.filterMap_append, hdatagrams, List.append_nil, hsent]
    exact h.sent

/-- A step that changes no connection. -/
theorem Watched.InTurn.elsewhere {w : Watched F R C} (h : w.InTurn) {tasks : DnsTasks F R C}
    {handled : List Handled} (hconns : tasks.conns = w.tasks.conns)
    (hothers : ∀ c, handled.filterMap (Handled.onConn c) = [])
    (hsent : tasks.sent = w.tasks.sent ++ handled.filterMap Handled.sent) :
    Watched.InTurn { tasks := tasks, handled := w.handled ++ handled } where
  conns c conn hconn := by
    rw [Watched.onConn_append, hothers, List.append_nil]
    dsimp only at hconn
    rw [hconns] at hconn
    exact h.conns c conn hconn
  absent c hnone := by
    rw [Watched.onConn_append, hothers, List.append_nil]
    dsimp only at hnone
    rw [hconns] at hnone
    exact h.absent c hnone
  sent := by
    dsimp only
    rw [List.filterMap_append, hsent, h.sent]

/-- Every event leaves all connections in turn, and sends what was made of the
datagram that it is. -/
theorem WatchedNext.inTurn (hfits : ∀ m wire, H.toVec m = some wire → wire.length < 65536)
    {w w' : Watched F R C} {e : TaskEvent F R C} (h : w.InTurn) (hstep : WatchedNext H U w e w') :
    w'.InTurn := by
  obtain ⟨tasks', hnext, rfl⟩ := Option.map_eq_some_iff.mp hstep
  cases e with
  | datagram peer bytes m =>
      simp only [DnsTasks.next] at hnext
      simp only [DnsTasks.handles]
      obtain ⟨answer, hanswer⟩ : ∃ answer, answer =
          handleRequest H U w.tasks.router m peer.ip (bytes.take UDP_BUFFER) := ⟨_, rfl⟩
      rw [← hanswer] at hnext ⊢
      obtain ⟨result, router, report⟩ := answer
      cases result with
      | error fault =>
          cases hnext
          exact h.elsewhere rfl (fun _ => rfl) (List.append_nil _).symm
      | ok reply =>
          cases hnext
          exact h.elsewhere rfl (fun _ => rfl) rfl
  | accept c peer =>
      unfold DnsTasks.next at hnext
      dsimp only at hnext
      split at hnext
      · cases hnext
      · rename_i hnone
        cases hnext
        refine h.setConn rfl rfl (fun _ _ => rfl) rfl ?_
        rw [h.absent c hnone]
        exact TcpConn.inTurn_new peer
  | receive c bytes =>
      obtain ⟨conn, hconn, hnext⟩ := Option.bind_eq_some_iff.mp hnext
      cases hnext
      refine h.setConn rfl rfl (fun _ _ => rfl) rfl ?_
      simpa [DnsTasks.handles] using (h.conns c conn hconn).receive bytes
  | close c =>
      obtain ⟨conn, hconn, hnext⟩ := Option.bind_eq_some_iff.mp hnext
      cases hnext
      refine h.setConn rfl rfl (fun _ _ => rfl) rfl ?_
      simpa [DnsTasks.handles] using (h.conns c conn hconn).close
  | shared router =>
      cases hnext
      exact h.elsewhere rfl (fun _ => rfl) (List.append_nil _).symm
  | turn c m cut =>
      obtain ⟨conn, hconn, hnext⟩ := Option.bind_eq_some_iff.mp hnext
      obtain ⟨_, hopen, hnext⟩ := Option.bind_eq_some_iff.mp hnext
      obtain ⟨⟨msg, rest⟩, hunframe, hnext⟩ := Option.bind_eq_some_iff.mp hnext
      have hisOpen : conn.isOpen = true := by
        by_contra hclosed
        simp [guard, hclosed] at hopen
      dsimp only at hnext
      simp only [DnsTasks.handles, hconn, hunframe, Option.bind_eq_bind, Option.bind_some]
      split at hnext
      · rename_i hempty
        cases hnext
        rw [if_pos hempty]
        refine h.setConn rfl rfl (fun _ _ => rfl) rfl ?_
        simpa using (h.conns c conn hconn).close
      · rename_i hsome
        rw [if_neg hsome]
        obtain ⟨answer, hanswer⟩ : ∃ answer, answer =
            handleRequest H U w.tasks.router m conn.peer.ip msg := ⟨_, rfl⟩
        rw [← hanswer] at hnext ⊢
        have hresult : ∀ reply, answer.1 = .ok reply → reply.length < 65536 := by
          intro reply hreply
          rw [hanswer] at hreply
          exact handleRequest_fits hfits hreply
        obtain ⟨result, router, report⟩ := answer
        cases hnext
        refine h.setConn rfl rfl ?_ rfl ?_
        · intro c' hother
          simp [Handled.onConn, Ne.symm hother]
        · simpa [Handled.onConn] using
            (h.conns c conn hconn).answer hisOpen hunframe hresult cut

end Relay.Dns
