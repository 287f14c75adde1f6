import Mathlib.Data.Int.CardIntervalMod
import Relay.Dns.Upstream.Server
import Relay.Logic.Run

/-!
`query_round_robin`: the servers of a group one after another, from the place
the counter gives, and any number of queries at once that share the counter.
-/

namespace Relay.Dns.Upstream

open Binary Logic

variable {α : Type}

/-- `timeout(UPSTREAM_TIMEOUT, server.query(request))`. -/
inductive TimedResult (α : Type) where
  | answered (response : α)
  | failed
  | timedOut
  deriving DecidableEq, Repr

def TimedResult.answer : TimedResult α → Option α
  | .answered response => some response
  | .failed => none
  | .timedOut => none

/-- What a query returns, `none` for an error, and the servers it contacted. -/
structure Trail (α : Type) where
  result : Option α
  contacted : List Nat
  deriving DecidableEq, Repr

/-- The loop over the servers that are still to come. -/
def attempts (outcome : Nat → TimedResult α) : List Nat → Trail α
  | [] => ⟨none, []⟩
  | s :: rest =>
      match outcome s with
      | .answered response => ⟨some response, [s]⟩
      | .failed | .timedOut =>
          ⟨(attempts outcome rest).result, s :: (attempts outcome rest).contacted⟩

/-- The servers `(start + i) % n`. -/
def cyclicOrder (n start : Nat) : List Nat := (List.range n).map fun i => (start + i) % n

/-- `query_round_robin` over `n` servers, with the counter after it. -/
def queryRoundRobin (n : Nat) (counter : BitVec 64) (outcome : Nat → TimedResult α) :
    Trail α × BitVec 64 :=
  (attempts outcome (cyclicOrder n (counter.toNat % n)), counter + 1)

/-! ### The order of the servers -/

@[simp] theorem cyclicOrder_length (n start : Nat) : (cyclicOrder n start).length = n := by
  simp [cyclicOrder]

theorem cyclicOrder_get {n start i : Nat} (h : i < (cyclicOrder n start).length) :
    (cyclicOrder n start)[i] = (start + i) % n := by
  simp [cyclicOrder]

/-- Two turns less than `n` apart never come to the same server. -/
theorem turn_injective {n start i j : Nat} (hi : i < n) (hj : j < n)
    (h : (start + i) % n = (start + j) % n) : i = j := by
  have hmod : i ≡ j [MOD n] := Nat.ModEq.add_left_cancel' start h
  exact Nat.ModEq.eq_of_lt_of_lt hmod hi hj

theorem cyclicOrder_nodup (n start : Nat) : (cyclicOrder n start).Nodup := by
  apply List.Nodup.map_on _ List.nodup_range
  intro i hi j hj h
  exact turn_injective (List.mem_range.mp hi) (List.mem_range.mp hj) h

theorem mem_cyclicOrder {n start s : Nat} (hn : 1 ≤ n) : s ∈ cyclicOrder n start ↔ s < n := by
  constructor
  · intro h
    obtain ⟨i, -, rfl⟩ := List.mem_map.mp h
    exact Nat.mod_lt _ hn
  · -- As many servers as turns, and no server twice: every server has its turn.
    intro hs
    have hsub : (cyclicOrder n start).toFinset ⊆ Finset.range n := by
      intro t ht
      obtain ⟨i, -, rfl⟩ := List.mem_map.mp (List.mem_toFinset.mp ht)
      exact Finset.mem_range.mpr (Nat.mod_lt _ hn)
    have hcard : (Finset.range n).card ≤ (cyclicOrder n start).toFinset.card := by
      rw [List.toFinset_card_of_nodup (cyclicOrder_nodup n start)]
      simp
    have heq := Finset.eq_of_subset_of_card_le hsub hcard
    apply List.mem_toFinset.mp
    rw [heq]
    exact Finset.mem_range.mpr hs

/-! ### One query -/

variable {outcome : Nat → TimedResult α}

theorem attempts_result (outcome : Nat → TimedResult α) (order : List Nat) :
    (attempts outcome order).result = order.findSome? fun s => (outcome s).answer := by
  induction order with
  | nil => rfl
  | cons s rest ih =>
      cases h : outcome s with
      | answered response => simp [attempts, h, TimedResult.answer]
      | failed => simp [attempts, h, TimedResult.answer, ih]
      | timedOut => simp [attempts, h, TimedResult.answer, ih]

/-- Servers that do not answer are contacted, and the loop goes on. -/
theorem attempts_append {before : List Nat} (h : ∀ s ∈ before, (outcome s).answer = none)
    (rest : List Nat) :
    attempts outcome (before ++ rest) =
      ⟨(attempts outcome rest).result, before ++ (attempts outcome rest).contacted⟩ := by
  induction before with
  | nil => rfl
  | cons s before ih =>
      have hrest := ih (fun t ht => h t (List.mem_cons_of_mem s ht))
      have hs := h s List.mem_cons_self
      cases houtcome : outcome s with
      | answered response =>
          rw [houtcome] at hs
          cases hs
      | failed => simp [attempts, houtcome, hrest]
      | timedOut => simp [attempts, houtcome, hrest]

theorem attempts_answered {s : Nat} {response : α} (h : outcome s = .answered response)
    (rest : List Nat) : attempts outcome (s :: rest) = ⟨some response, [s]⟩ := by
  simp [attempts, h]

/-- The server whose turn it is is contacted, whatever comes of it. -/
theorem attempts_contacts (outcome : Nat → TimedResult α) (s : Nat) (rest : List Nat) :
    [s] <+: (attempts outcome (s :: rest)).contacted := by
  cases h : outcome s with
  | answered response => simp [attempts, h]
  | failed => simp [attempts, h]
  | timedOut => simp [attempts, h]

theorem contacted_in_order (outcome : Nat → TimedResult α) (order : List Nat) :
    (attempts outcome order).contacted <+: order := by
  induction order with
  | nil => exact List.prefix_refl []
  | cons s rest ih =>
      cases h : outcome s with
      | answered response => simp [attempts, h]
      | failed => simpa [attempts, h] using ih
      | timedOut => simpa [attempts, h] using ih

/-- The server that answers is the last one contacted. -/
theorem contacted_stops {order before after : List Nat} {s : Nat}
    (h : (attempts outcome order).contacted = before ++ s :: after)
    (hs : (outcome s).answer.isSome) : after = [] := by
  induction order generalizing before with
  | nil => simp [attempts] at h
  | cons t rest ih =>
      cases houtcome : outcome t with
      | answered response =>
          rw [attempts_answered houtcome] at h
          have hlength : 1 = before.length + (after.length + 1) := by
            simpa using congrArg List.length h
          apply List.eq_nil_of_length_eq_zero
          omega
      | failed =>
          simp only [attempts, houtcome] at h
          cases before with
          | nil =>
              obtain ⟨rfl, -⟩ := List.cons.inj h
              simp [houtcome, TimedResult.answer] at hs
          | cons first before => exact ih (List.cons.inj h).2
      | timedOut =>
          simp only [attempts, houtcome] at h
          cases before with
          | nil =>
              obtain ⟨rfl, -⟩ := List.cons.inj h
              simp [houtcome, TimedResult.answer] at hs
          | cons first before => exact ih (List.cons.inj h).2

/-- What a query over `n` servers from `start` on may contact and return. -/
structure Failover (n start : Nat) (outcome : Nat → TimedResult α) (t : Trail α) : Prop where
  ok_iff : t.result.isSome ↔ ∃ s < n, (outcome s).answer.isSome
  first : ∀ response, t.result = some response → ∃ i < n,
    outcome ((start + i) % n) = .answered response ∧
      ∀ j < i, (outcome ((start + j) % n)).answer = none
  nodup : t.contacted.Nodup
  stops : ∀ before s after, t.contacted = before ++ s :: after → (outcome s).answer.isSome →
    after = []

theorem attempts_failover {n : Nat} (hn : 1 ≤ n) (start : Nat) (outcome : Nat → TimedResult α) :
    Failover n start outcome (attempts outcome (cyclicOrder n start)) where
  ok_iff := by
    rw [attempts_result, List.findSome?_isSome_iff]
    simp only [mem_cyclicOrder hn]
  first := by
    intro response h
    rw [attempts_result] at h
    obtain ⟨before, s, after, horder, hs, hbefore⟩ := List.findSome?_eq_some_iff.mp h
    have hlength : before.length < (cyclicOrder n start).length := by
      rw [horder]
      simp
    have hturn : s = (start + before.length) % n := by
      rw [← cyclicOrder_get hlength]
      simp [horder]
    refine ⟨before.length, by simpa using hlength, ?_, ?_⟩
    · rw [← hturn]
      cases houtcome : outcome s with
      | answered answer => simpa [houtcome, TimedResult.answer] using hs
      | failed => simp [houtcome, TimedResult.answer] at hs
      | timedOut => simp [houtcome, TimedResult.answer] at hs
    · intro j hj
      apply hbefore
      rw [← cyclicOrder_get (hj.trans hlength)]
      simp [horder, List.getElem_append_left hj]
  nodup := (cyclicOrder_nodup n start).sublist (contacted_in_order outcome _).sublist
  stops _ _ _ h hs := contacted_stops h hs

/-! ### Queries that share the counter -/

/-- Where a query is in its loop: at the head of turn `i`, waiting for the
server of turn `i`, or done. -/
inductive LoopPoint (α : Type) where
  | idle
  | looping (start i : Nat)
  | asking (start i : Nat)
  | returned (start : Nat) (result : Option α)
  deriving DecidableEq, Repr

def LoopPoint.start : LoopPoint α → Option Nat
  | .idle => none
  | .looping start _ => some start
  | .asking start _ => some start
  | .returned start _ => some start

structure Inquiry (α : Type) where
  point : LoopPoint α := .idle
  contacted : List Nat := []
  deriving DecidableEq, Repr

/-- A query takes its place from the counter, comes to the head of its loop, or
hears from the server it has asked. -/
inductive Advance where
  | fetchAdd
  | turn
  | hear
  deriving DecidableEq, Repr

def Advance.count (counter : BitVec 64) : Advance → BitVec 64
  | .fetchAdd => counter + 1
  | .turn => counter
  | .hear => counter

def Inquiry.step (n : Nat) (counter : BitVec 64) (outcome : Nat → TimedResult α) (a : Inquiry α)
    (m : Advance) : Option (Inquiry α) :=
  match m, a.point with
  | .fetchAdd, .idle => some { a with point := .looping (counter.toNat % n) 0 }
  | .turn, .looping start i =>
      if i < n then some ⟨.asking start i, a.contacted ++ [(start + i) % n]⟩
      else some { a with point := .returned start none }
  | .hear, .asking start i =>
      match outcome ((start + i) % n) with
      | .answered response => some { a with point := .returned start (some response) }
      | .failed | .timedOut => some { a with point := .looping start (i + 1) }
  | _, _ => none

variable {ι : Type} [DecidableEq ι]

/-- The group's counter, and every query that is made to the group. -/
structure Inquiries (ι α : Type) where
  counter : BitVec 64
  inquiry : ι → Inquiry α

def Inquiries.idle (counter : BitVec 64) : Inquiries ι α := ⟨counter, fun _ => ⟨.idle, []⟩⟩

/-- One step of one query; `outcome` is what each query gets from each server. -/
def Inquiries.step (n : Nat) (outcome : ι → Nat → TimedResult α) (q : Inquiries ι α)
    (e : ι × Advance) : Option (Inquiries ι α) :=
  ((q.inquiry e.1).step n q.counter (outcome e.1) e.2).map fun a =>
    ⟨e.2.count q.counter, Function.update q.inquiry e.1 a⟩

/-- A run in which the queries take turns in any order. -/
abbrev Interleaving (n : Nat) (outcome : ι → Nat → TimedResult α) (counter : BitVec 64) :
    List (ι × Advance) → Inquiries ι α → Prop :=
  Steps (fun q e q' => q.step n outcome e = some q') (Inquiries.idle counter)

/-- The queries that have taken their place, in the order they did. -/
def begun (events : List (ι × Advance)) : List ι :=
  (events.filter fun e => e.2 = .fetchAdd).map Prod.fst

/-! ### One query among others -/

variable {n : Nat} {counter : BitVec 64}

theorem Inquiry.step_cases {a b : Inquiry α} {m : Advance}
    (h : a.step n counter outcome m = some b) :
    (m = .fetchAdd ∧ a.point = .idle ∧ b = ⟨.looping (counter.toNat % n) 0, a.contacted⟩) ∨
    (∃ start i, a.point = .looping start i ∧ i < n ∧ m = .turn ∧
      b = ⟨.asking start i, a.contacted ++ [(start + i) % n]⟩) ∨
    (∃ start i, a.point = .looping start i ∧ n ≤ i ∧ m = .turn ∧
      b = ⟨.returned start none, a.contacted⟩) ∨
    (∃ start i response, a.point = .asking start i ∧ m = .hear ∧
      outcome ((start + i) % n) = .answered response ∧
      b = ⟨.returned start (some response), a.contacted⟩) ∨
    (∃ start i, a.point = .asking start i ∧ m = .hear ∧
      (outcome ((start + i) % n)).answer = none ∧ b = ⟨.looping start (i + 1), a.contacted⟩) := by
  unfold Inquiry.step at h
  split at h
  · rename_i hpoint
    exact .inl ⟨rfl, hpoint, (Option.some.inj h).symm⟩
  · rename_i start i hpoint
    split at h
    · rename_i hi
      exact .inr (.inl ⟨start, i, hpoint, hi, rfl, (Option.some.inj h).symm⟩)
    · rename_i hi
      exact .inr (.inr (.inl ⟨start, i, hpoint, not_lt.mp hi, rfl, (Option.some.inj h).symm⟩))
  · rename_i start i hpoint
    split at h
    · rename_i response houtcome
      exact .inr (.inr (.inr (.inl
        ⟨start, i, response, hpoint, rfl, houtcome, (Option.some.inj h).symm⟩)))
    · rename_i houtcome
      exact .inr (.inr (.inr (.inr
        ⟨start, i, hpoint, rfl, by simp [houtcome, TimedResult.answer], (Option.some.inj h).symm⟩)))
    · rename_i houtcome
      exact .inr (.inr (.inr (.inr
        ⟨start, i, hpoint, rfl, by simp [houtcome, TimedResult.answer], (Option.some.inj h).symm⟩)))
  · cases h

/-- A query under way has done what the loop on its own does up to its point. -/
def Inquiry.Sound (n : Nat) (outcome : Nat → TimedResult α) (a : Inquiry α) : Prop :=
  match a.point with
  | .idle => a.contacted = []
  | .looping start i =>
      i ≤ n ∧ a.contacted = (cyclicOrder n start).take i ∧
        ∀ s ∈ a.contacted, (outcome s).answer = none
  | .asking start i =>
      i < n ∧ a.contacted = (cyclicOrder n start).take i ++ [(start + i) % n] ∧
        ∀ s ∈ (cyclicOrder n start).take i, (outcome s).answer = none
  | .returned start result => attempts outcome (cyclicOrder n start) = ⟨result, a.contacted⟩

theorem cyclicOrder_split {start i : Nat} (hi : i < n) :
    cyclicOrder n start = (cyclicOrder n start).take i ++
      (start + i) % n :: (cyclicOrder n start).drop (i + 1) := by
  have hlength : i < (cyclicOrder n start).length := by simpa using hi
  rw [← cyclicOrder_get hlength, ← List.drop_eq_getElem_cons hlength, List.take_append_drop]

theorem Inquiry.Sound.step {a b : Inquiry α} {m : Advance} (h : a.Sound n outcome)
    (hstep : a.step n counter outcome m = some b) : b.Sound n outcome := by
  unfold Sound at h
  rcases step_cases hstep with ⟨-, hpoint, rfl⟩ | ⟨start, i, hpoint, hi, -, rfl⟩ |
    ⟨start, i, hpoint, hi, -, rfl⟩ | ⟨start, i, response, hpoint, -, houtcome, rfl⟩ |
    ⟨start, i, hpoint, -, houtcome, rfl⟩
  · rw [hpoint] at h
    simp only at h
    simp [Sound, h]
  · rw [hpoint] at h
    obtain ⟨-, hcontacted, hfailed⟩ := h
    refine ⟨hi, by simp only [hcontacted], ?_⟩
    rwa [hcontacted] at hfailed
  · rw [hpoint] at h
    obtain ⟨hle, hcontacted, hfailed⟩ := h
    have hall : a.contacted = cyclicOrder n start := by
      rw [hcontacted]
      apply List.take_of_length_le
      simpa using hi
    have hloop := attempts_append hfailed []
    rw [List.append_nil, hall] at hloop
    change attempts outcome (cyclicOrder n start) = ⟨none, a.contacted⟩
    rw [hloop, hall]
    simp [attempts]
  · rw [hpoint] at h
    obtain ⟨hi, hcontacted, hfailed⟩ := h
    change attempts outcome (cyclicOrder n start) = ⟨some response, a.contacted⟩
    rw [cyclicOrder_split hi, attempts_append hfailed, attempts_answered houtcome, hcontacted]
  · rw [hpoint] at h
    obtain ⟨hi, hcontacted, hfailed⟩ := h
    have hlength : i < (cyclicOrder n start).length := by simpa using hi
    have hnext : a.contacted = (cyclicOrder n start).take (i + 1) := by
      rw [hcontacted, List.take_add_one, List.getElem?_eq_getElem hlength, cyclicOrder_get hlength]
      rfl
    refine ⟨hi, hnext, ?_⟩
    intro s hs
    change s ∈ a.contacted at hs
    rw [hcontacted, List.mem_append, List.mem_singleton] at hs
    rcases hs with hs | rfl
    · exact hfailed s hs
    · exact houtcome

/-- What a query has contacted is what the loop on its own contacts first, and
all of it when the query is done. -/
theorem Inquiry.Sound.agrees {a : Inquiry α} {start : Nat} (h : a.Sound n outcome)
    (hstart : a.point.start = some start) :
    a.contacted <+: (attempts outcome (cyclicOrder n start)).contacted ∧
      ∀ result, a.point = .returned start result →
        attempts outcome (cyclicOrder n start) = ⟨result, a.contacted⟩ := by
  unfold Sound at h
  cases hpoint : a.point with
  | idle =>
      rw [hpoint] at hstart
      cases hstart
  | looping start' i =>
      rw [hpoint] at h hstart
      cases hstart
      obtain ⟨-, hcontacted, hfailed⟩ := h
      refine ⟨?_, fun _ hreturned => by cases hreturned⟩
      have hloop := attempts_append hfailed ((cyclicOrder n start).drop i)
      rw [hcontacted, List.take_append_drop] at hloop
      rw [hloop, hcontacted]
      apply List.prefix_append
  | asking start' i =>
      rw [hpoint] at h hstart
      cases hstart
      obtain ⟨hi, hcontacted, hfailed⟩ := h
      refine ⟨?_, fun _ hreturned => by cases hreturned⟩
      rw [cyclicOrder_split hi, attempts_append hfailed, hcontacted]
      exact (List.prefix_append_right_inj _).mpr (attempts_contacts outcome _ _)
  | returned start' result =>
      rw [hpoint] at h hstart
      cases hstart
      change attempts outcome (cyclicOrder n start) = ⟨result, a.contacted⟩ at h
      refine ⟨by rw [h], ?_⟩
      intro result' hreturned
      cases hreturned
      exact h

/-- How many steps of its own a query is from its return, at most. -/
def Inquiry.left (n : Nat) (a : Inquiry α) : Nat :=
  match a.point with
  | .idle => 2 * n + 2
  | .looping _ i => 2 * (n - i) + 1
  | .asking _ i => 2 * (n - i)
  | .returned _ _ => 0

/-- A query that has not returned has a next step, and is nearer its return
after it. -/
theorem Inquiry.Sound.moves_on {a : Inquiry α} (h : a.Sound n outcome) (counter : BitVec 64)
    (hopen : ∀ start result, a.point ≠ .returned start result) :
    ∃ m b, a.step n counter outcome m = some b ∧ b.left n < a.left n := by
  unfold Sound at h
  cases hpoint : a.point with
  | idle =>
      refine ⟨.fetchAdd, ⟨.looping (counter.toNat % n) 0, a.contacted⟩, ?_, ?_⟩
      · simp [Inquiry.step, hpoint]
      · simp [left, hpoint]
  | looping start i =>
      rcases Nat.lt_or_ge i n with hi | hi
      · refine ⟨.turn, ⟨.asking start i, a.contacted ++ [(start + i) % n]⟩, ?_, ?_⟩
        · simp [Inquiry.step, hpoint, hi]
        · simp [left, hpoint]
      · refine ⟨.turn, ⟨.returned start none, a.contacted⟩, ?_, ?_⟩
        · simp [Inquiry.step, hpoint, not_lt.mpr hi]
        · simp [left, hpoint]
  | asking start i =>
      rw [hpoint] at h
      obtain ⟨hi, -, -⟩ := h
      have hleft : 2 * (n - (i + 1)) + 1 < 2 * (n - i) := by omega
      have hpos : 0 < 2 * (n - i) := by omega
      cases houtcome : outcome ((start + i) % n) with
      | answered response =>
          refine ⟨.hear, ⟨.returned start (some response), a.contacted⟩, ?_, ?_⟩
          · simp [Inquiry.step, hpoint, houtcome]
          · simpa [left, hpoint] using hi
      | failed =>
          refine ⟨.hear, ⟨.looping start (i + 1), a.contacted⟩, ?_, ?_⟩
          · simp [Inquiry.step, hpoint, houtcome]
          · simpa [left, hpoint] using hleft
      | timedOut =>
          refine ⟨.hear, ⟨.looping start (i + 1), a.contacted⟩, ?_, ?_⟩
          · simp [Inquiry.step, hpoint, houtcome]
          · simpa [left, hpoint] using hleft
  | returned start result => exact absurd hpoint (hopen start result)

/-! ### Every interleaving -/

variable {outcomes : ι → Nat → TimedResult α} {q q' : Inquiries ι α} {events : List (ι × Advance)}

theorem Inquiries.step_eq_some {c : ι} {m : Advance} :
    q.step n outcomes (c, m) = some q' ↔ ∃ a,
      (q.inquiry c).step n q.counter (outcomes c) m = some a ∧
      q' = ⟨m.count q.counter, Function.update q.inquiry c a⟩ := by
  simp [Inquiries.step, eq_comm]

theorem Interleaving.sound (run : Interleaving n outcomes counter events q) (c : ι) :
    (q.inquiry c).Sound n (outcomes c) := by
  have hall : ∀ c, (q.inquiry c).Sound n (outcomes c) := by
    apply Steps.invariant run
    · intro c
      rfl
    · rintro q ⟨d, m⟩ q' hsound hstep c
      obtain ⟨a, ha, rfl⟩ := Inquiries.step_eq_some.mp hstep
      dsimp only
      rcases eq_or_ne c d with rfl | hne
      · rw [Function.update_self]
        exact (hsound c).step ha
      · rw [Function.update_of_ne hne]
        exact hsound c
  exact hall c

/-- Left to itself, a query returns. -/
theorem Interleaving.returns (run : Interleaving n outcomes counter events q) (c : ι) :
    ∃ more q' start result, Interleaving n outcomes counter (events ++ more) q' ∧
      (∀ e ∈ more, e.1 = c) ∧ (q'.inquiry c).point = .returned start result := by
  induction hleft : (q.inquiry c).left n using Nat.strong_induction_on generalizing events q with
  | _ left ih =>
      by_cases hreturned : ∃ start result, (q.inquiry c).point = .returned start result
      · obtain ⟨start, result, hpoint⟩ := hreturned
        exact ⟨[], q, start, result, by simpa using run, nofun, hpoint⟩
      · have hopen : ∀ start result, (q.inquiry c).point ≠ .returned start result :=
          fun start result hpoint => hreturned ⟨start, result, hpoint⟩
        obtain ⟨m, a, hstep, hless⟩ := (run.sound c).moves_on q.counter hopen
        have hnext := Inquiries.step_eq_some.mpr ⟨a, hstep, rfl⟩
        obtain ⟨more, q', start, result, hrun, hown, hpoint⟩ :=
          ih (a.left n) (hleft ▸ hless) (run.next hnext) (by simp)
        refine ⟨(c, m) :: more, q', start, result, by simpa using hrun, ?_, hpoint⟩
        intro e he
        rcases List.mem_cons.mp he with rfl | he
        · rfl
        · exact hown e he

/-- A query keeps the place it has taken. -/
theorem Inquiry.step_start {a b : Inquiry α} {m : Advance}
    (h : a.step n counter outcome m = some b) :
    (m = .fetchAdd ∧ a.point.start = none ∧ b.point.start = some (counter.toNat % n)) ∨
      (m ≠ .fetchAdd ∧ b.point.start = a.point.start) := by
  rcases step_cases h with ⟨rfl, hpoint, rfl⟩ | ⟨start, i, hpoint, -, rfl, rfl⟩ |
    ⟨start, i, hpoint, -, rfl, rfl⟩ | ⟨start, i, response, hpoint, rfl, -, rfl⟩ |
    ⟨start, i, hpoint, rfl, -, rfl⟩
  · exact .inl ⟨rfl, by simp [hpoint, LoopPoint.start], rfl⟩
  · exact .inr ⟨nofun, by simp [hpoint, LoopPoint.start]⟩
  · exact .inr ⟨nofun, by simp [hpoint, LoopPoint.start]⟩
  · exact .inr ⟨nofun, by simp [hpoint, LoopPoint.start]⟩
  · exact .inr ⟨nofun, by simp [hpoint, LoopPoint.start]⟩

omit [DecidableEq ι] in
theorem begun_concat (events : List (ι × Advance)) (c : ι) (m : Advance) :
    begun (events ++ [(c, m)]) = begun events ++ if m = .fetchAdd then [c] else [] := by
  unfold begun
  rw [List.filter_append, List.map_append]
  split <;> simp_all

/-- A step changes no place of a query that has one. -/
theorem starts_update (q : Inquiries ι α) {queries : List ι} {c : ι} {a : Inquiry α}
    (h : c ∈ queries → a.point.start = (q.inquiry c).point.start) :
    queries.map (fun d => (Function.update q.inquiry c a d).point.start) =
      queries.map fun d => (q.inquiry d).point.start := by
  apply List.map_congr_left
  intro d hd
  rcases eq_or_ne d c with rfl | hne
  · rw [Function.update_self, h hd]
  · rw [Function.update_of_ne hne]

/-- The counter counts the queries that have begun, and each of them has the
place it found. -/
theorem Interleaving.places (run : Interleaving n outcomes counter events q) :
    (begun events).Nodup ∧ q.counter = counter + BitVec.ofNat 64 (begun events).length ∧
      (begun events).map (fun c => (q.inquiry c).point.start) =
        (List.range (begun events).length).map fun j =>
          some ((counter + BitVec.ofNat 64 j).toNat % n) := by
  induction run with
  | done => exact ⟨List.nodup_nil, by simp [Inquiries.idle, begun], rfl⟩
  | @next q q' events e run hstep ih =>
      obtain ⟨hnodup, hcounter, hplaces⟩ := ih
      obtain ⟨c, m⟩ := e
      obtain ⟨a, ha, rfl⟩ := Inquiries.step_eq_some.mp hstep
      dsimp only
      rw [begun_concat]
      rcases Inquiry.step_start ha with ⟨rfl, hidle, hplace⟩ | ⟨hm, hplace⟩
      · -- A query that has no place yet is not among those that have begun.
        have hnew : c ∉ begun events := by
          intro hc
          have hmem := List.mem_map_of_mem (f := fun c => (q.inquiry c).point.start) hc
          rw [hplaces] at hmem
          simp [hidle] at hmem
        have hkept := starts_update q (a := a) fun hc => absurd hc hnew
        rw [if_pos rfl, List.length_append, List.length_singleton, List.map_append, hkept, hplaces,
          List.range_succ, List.map_append, List.map_singleton, List.map_singleton,
          Function.update_self, hplace, hcounter]
        refine ⟨?_, ?_, rfl⟩
        · rw [← List.concat_eq_append]
          exact hnodup.concat hnew
        · simp [Advance.count, BitVec.ofNat_add, BitVec.add_assoc]
      · have hkept := starts_update q (fun _ : c ∈ begun events => hplace)
        have hcount : m.count q.counter = q.counter := by
          cases m with
          | fetchAdd => exact absurd rfl hm
          | turn => rfl
          | hear => rfl
        rw [if_neg hm, List.append_nil, hkept, hcount]
        exact ⟨hnodup, hcounter, hplaces⟩

/-! ### Fairness -/

/-- Of `k * n` numbers in a row, `k` leave any one remainder. -/
theorem countP_mod {n s : Nat} (hs : s < n) (k c : Nat) :
    (List.range (k * n)).countP (fun j => (c + j) % n = s) = k := by
  have hpos : 0 < n := Nat.zero_lt_of_lt hs
  have hadd := Nat.count_add (p := (· ≡ s [MOD n])) c (k * n)
  rw [Nat.count_modEq_card _ hpos, Nat.count_modEq_card _ hpos, Nat.add_mul_div_right c k hpos,
    Nat.add_mul_mod_self_right] at hadd
  have hwindow : (k * n).count (fun j => c + j ≡ s [MOD n]) =
      (List.range (k * n)).countP (fun j => (c + j) % n = s) := by
    unfold Nat.count
    apply List.countP_congr
    intro j _
    simp [Nat.ModEq, Nat.mod_eq_of_lt hs]
  omega

/-- Of `k * n` queries that begin one after another, as the counter has them,
each server is the start of `k`. -/
theorem Interleaving.fair (run : Interleaving n outcomes counter events q)
    {before block after : List ι} {k : Nat} (hbegun : begun events = before ++ block ++ after)
    (hlength : block.length = k * n)
    (hwrap : (counter + BitVec.ofNat 64 before.length).toNat + k * n ≤ 2 ^ 64) {s : Nat}
    (hs : s < n) : block.countP (fun c => (q.inquiry c).point.start = some s) = k := by
  obtain ⟨-, -, hplaces⟩ := run.places
  rw [hbegun, List.length_append, List.length_append, List.range_add, List.range_add,
    List.map_append, List.map_append, List.map_append, List.map_append] at hplaces
  obtain ⟨hfront, -⟩ := List.append_inj hplaces (by simp)
  obtain ⟨-, hblock⟩ := List.append_inj hfront (by simp)
  rw [List.map_map, hlength] at hblock
  have hcounted : block.countP (fun c => (q.inquiry c).point.start = some s) =
      (block.map fun c => (q.inquiry c).point.start).countP (· = some s) := by
    rw [List.countP_map]
    rfl
  rw [hcounted, hblock, List.countP_map]
  refine Eq.trans ?_ (countP_mod hs k (counter + BitVec.ofNat 64 before.length).toNat)
  apply List.countP_congr
  intro j hj
  have hj := List.mem_range.mp hj
  have hplace : (counter + BitVec.ofNat 64 (before.length + j)).toNat =
      (counter + BitVec.ofNat 64 before.length).toNat + j := by
    rw [BitVec.ofNat_add, ← BitVec.add_assoc, BitVec.toNat_add, BitVec.toNat_ofNat,
      Nat.add_mod_mod, Nat.mod_eq_of_lt (by omega)]
  simp only [Function.comp_apply, hplace, Option.some.injEq]

/-! ### The group -/

/-- What the loop sees of a server's answer. -/
def timedResult : Run QueryError α → TimedResult α
  | .ok response => .answered response
  | .error (.error .timedOut) => .timedOut
  | .error _ => .failed

variable {H : HickoryCrate} {net : Network}

/-- What a group returns for what its loop has brought. -/
def Trail.run (t : Trail Message) : Run QueryError Message :=
  match t.result with
  | some response => .ok response
  | none => fail .allFailed

theorem UpstreamGroup.firstAnswer_eq_attempts {group : UpstreamGroup} {alternate : Bool}
    {request : Message} {order : List Nat}
    (hpanic : ∀ s ∈ order, group.ask H net alternate request s ≠ panicked) :
    group.firstAnswer H net alternate request order =
      (attempts (fun s => timedResult (group.ask H net alternate request s)) order).run := by
  induction order with
  | nil => rfl
  | cons s rest ih =>
      have hrest := ih (fun t ht => hpanic t (List.mem_cons_of_mem s ht))
      have hs := hpanic s List.mem_cons_self
      unfold UpstreamGroup.firstAnswer
      rcases hask : group.ask H net alternate request s with (_ | e) | response
      · exact absurd hask hs
      · -- A failure and a timeout are told apart by nothing but a message.
        have hnone : (timedResult (group.ask H net alternate request s)).answer = none := by
          rw [hask]
          cases e <;> rfl
        have hloop := @attempts_append Message
          (fun s => timedResult (group.ask H net alternate request s)) [s]
          (List.forall_mem_singleton.mpr hnone) rest
        rw [List.singleton_append] at hloop
        rw [hloop]
        exact hrest
      · have hanswered :
            timedResult (group.ask H net alternate request s) = .answered response := by
          rw [hask]
          rfl
        rw [attempts_answered hanswered]
        rfl

/-- A group of servers that ask without a panic does what the loop does. -/
theorem UpstreamGroup.query_eq_queryRoundRobin {group : UpstreamGroup} {alternate : Bool}
    {request : Message} (hservers : group.servers ≠ []) (hstrategy : group.strategy = .roundRobin)
    (hpanic : ∀ s < group.servers.length, group.ask H net alternate request s ≠ panicked) :
    group.query H net alternate request =
      ((queryRoundRobin group.servers.length group.counter
          fun s => timedResult (group.ask H net alternate request s)).1.run,
        { group with counter := group.counter + 1 }) := by
  have hlength : 1 ≤ group.servers.length := List.length_pos_of_ne_nil hservers
  have hround : group.round =
      cyclicOrder group.servers.length (group.counter.toNat % group.servers.length) := rfl
  unfold UpstreamGroup.query
  rw [if_neg (by simpa using hservers), hstrategy]
  dsimp only
  rw [hround, firstAnswer_eq_attempts]
  · rfl
  · intro s hs
    exact hpanic s ((mem_cyclicOrder hlength).mp hs)

/-! ### Round robin -/

/-- Each query fails over as the loop says, in any interleaving, and the
servers take turns at being the start. -/
theorem roundRobin_failover (n : Nat) (hn : 1 ≤ n) (counter : BitVec 64)
    (outcomes : ι → Nat → TimedResult α) :
    (∀ outcome : Nat → TimedResult α,
      Failover n (counter.toNat % n) outcome (queryRoundRobin n counter outcome).1) ∧
    ∀ events q, Interleaving n outcomes counter events q →
      (∀ c start, (q.inquiry c).point.start = some start →
        ∃ t, Failover n start (outcomes c) t ∧ (q.inquiry c).contacted <+: t.contacted ∧
          ∀ result, (q.inquiry c).point = .returned start result →
            t = ⟨result, (q.inquiry c).contacted⟩) ∧
      (∀ c, ∃ more q' start result, Interleaving n outcomes counter (events ++ more) q' ∧
        (∀ e ∈ more, e.1 = c) ∧ (q'.inquiry c).point = .returned start result) ∧
      (begun events).Nodup ∧
      ∀ before block after k, begun events = before ++ block ++ after → block.length = k * n →
        (counter + BitVec.ofNat 64 before.length).toNat + k * n ≤ 2 ^ 64 →
        ∀ s < n, block.countP (fun c => (q.inquiry c).point.start = some s) = k := by
  refine ⟨fun outcome => attempts_failover hn _ outcome, ?_⟩
  intro events q run
  refine ⟨?_, run.returns, run.places.1, ?_⟩
  · intro c start hstart
    obtain ⟨hcontacted, hreturned⟩ := (run.sound c).agrees hstart
    exact ⟨_, attempts_failover hn start (outcomes c), hcontacted, hreturned⟩
  · intro before block after k hbegun hlength hwrap s hs
    exact run.fair hbegun hlength hwrap hs

/-- Two servers, the first of which fails, and two queries at once. -/
theorem roundRobin_failover_two :
    ∃ q : Inquiries (Fin 2) Nat,
      Interleaving 2 (fun _ s => if s = 0 then .failed else .answered s) 0
        [(0, .fetchAdd), (0, .turn), (1, .fetchAdd), (0, .hear)] q ∧
      [(0 : Fin 2), 1].countP (fun c => (q.inquiry c).point.start = some 1) = 1 := by
  have hrun : (([(0, .fetchAdd), (0, .turn), (1, .fetchAdd), (0, .hear)] :
      List (Fin 2 × Advance)).foldlM (Inquiries.step 2 fun _ s =>
        if s = 0 then .failed else .answered s) (Inquiries.idle 0)).isSome := rfl
  obtain ⟨q, hq⟩ := Option.isSome_iff_exists.mp hrun
  have run := Steps.of_foldlM hq
  obtain ⟨-, hruns⟩ := roundRobin_failover 2 (by norm_num) 0
    fun (_ : Fin 2) s => if s = 0 then TimedResult.failed else .answered s
  obtain ⟨-, -, -, hfair⟩ := hruns _ q run
  exact ⟨q, run, hfair [] [0, 1] [] 1 rfl rfl (by decide) 1 (by norm_num)⟩

end Relay.Dns.Upstream
