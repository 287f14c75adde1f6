import Relay.Logic.Run
import Relay.Stats.Collector

/-!
`stats/persistence.rs` with the tasks of `cmd/run.rs`: the totals over the
lives of the process. A life starts from the table, as far as it can be read, and ends in a
crash or after a last flush. A flush loads the counters one by one, while calls of
`record_query` go on, and writes them in one transaction. A ledger of the
requests that each place has counted says what a crash loses.
-/

namespace Relay.Stats

open Logic

/-! ### The counters and their table -/

inductive Counter where
  | totalQueries
  | totalBlocked
  | totalFailed
  | cacheHits
  | hostsHits
  deriving DecidableEq, Repr

/-- In the order in which a snapshot loads them. -/
def Counter.all : List Counter :=
  [.totalQueries, .totalBlocked, .totalFailed, .cacheHits, .hostsHits]

/-- The key of its row. -/
def Counter.key : Counter → String
  | .totalQueries => "total_queries"
  | .totalBlocked => "total_blocked"
  | .totalFailed => "total_failed"
  | .cacheHits => "cache_hits"
  | .hostsHits => "hosts_hits"

def StatsCollector.counter (collector : StatsCollector) : Counter → BitVec 64
  | .totalQueries => collector.totalQueries
  | .totalBlocked => collector.totalBlocked
  | .totalFailed => collector.totalFailed
  | .cacheHits => collector.cacheHits
  | .hostsHits => collector.hostsHits

/-- The counter that a step increments. -/
def Effect.counter? : Effect → Option Counter
  | .totalQueries => some .totalQueries
  | .totalBlocked => some .totalBlocked
  | .totalFailed => some .totalFailed
  | .cacheHits => some .cacheHits
  | .hostsHits => some .hostsHits
  | _ => none

/-- The table `totals`. A value is written as an `i64` and read back as a `u64`,
with the same bits. -/
abbrev Totals := String → Option (BitVec 64)

/-- What the table says of a counter: of a row that is not there, zero. -/
def savedTotal (totals : Totals) (c : Counter) : BitVec 64 := (totals c.key).getD 0

/-- One value of `load_totals`. A `SELECT` that fails counts as zero as well. -/
def loadTotal (totals : Totals) (unread : List Counter) (c : Counter) : BitVec 64 :=
  if c ∈ unread then 0 else savedTotal totals c

/-- `restore_totals` of what `load_totals` reads. -/
def StatsCollector.restoreTotals (collector : StatsCollector) (totals : Totals)
    (unread : List Counter) : StatsCollector :=
  { collector with
    totalQueries := loadTotal totals unread .totalQueries
    totalBlocked := loadTotal totals unread .totalBlocked
    totalFailed := loadTotal totals unread .totalFailed
    cacheHits := loadTotal totals unread .cacheHits
    hostsHits := loadTotal totals unread .hostsHits }

/-- What a snapshot has loaded so far. -/
abbrev Hand := Counter → Option (BitVec 64)

/-- The upserts of `flush_totals`. -/
def flushTotals (totals : Totals) (hand : Hand) : Totals :=
  Counter.all.foldl (fun totals c => Function.update totals c.key (hand c)) totals

/-! ### The process -/

/-- `periodic_flush`, and the flush at the end of `run`. -/
inductive FlushTask where
  | periodic
  | shutdown
  deriving DecidableEq, Repr

structure Process where
  collector : StatsCollector
  /-- The database could be opened. -/
  attached : Bool
  inHand : FlushTask → Hand := fun _ _ => none

/-- The table outlives the process. -/
structure Machine where
  totals : Totals
  process : Option Process

inductive LifeEvent where
  /-- `unread` are the counters whose `SELECT` fails. -/
  | start (opened : Bool) (unread : List Counter) (capacity : Nat)
  /-- A step of some call of `record_query`. -/
  | effect (op : Effect)
  | load (task : FlushTask) (c : Counter)
  | commit (task : FlushTask)
  /-- The transaction fails and is rolled back. -/
  | failed (task : FlushTask)
  /-- The process is gone: it has come to its end, or it was killed. -/
  | stop

/-- The process as `run` sets it up. -/
def startProcess (totals : Totals) (opened : Bool) (unread : List Counter) (capacity : Nat) :
    Process :=
  if opened then
    { collector := ((StatsCollector.new capacity).restoreTotals totals unread).attachPersistence
      attached := true }
  else { collector := .new capacity, attached := false }

def Process.put (p : Process) (task : FlushTask) (hand : Hand) : Process :=
  { p with inHand := Function.update p.inHand task hand }

/-- The next counter of the snapshot is `c`. -/
def Hand.isNext (hand : Hand) (c : Counter) : Bool :=
  (hand c).isNone && (Counter.all.takeWhile (· ≠ c)).all fun c => (hand c).isSome

def Machine.next (m : Machine) : LifeEvent → Option Machine
  | .start opened unread capacity =>
      match m.process with
      | some _ => none
      | none => some { m with process := some (startProcess m.totals opened unread capacity) }
  | .effect op => do
      let p ← m.process
      some { m with process := some { p with collector := op.apply p.collector } }
  | .load task c => do
      let p ← m.process
      guard (p.attached && Hand.isNext (p.inHand task) c)
      some { m with
        process := some (p.put task
          (Function.update (p.inHand task) c (some (p.collector.counter c)))) }
  | .commit task => do
      let p ← m.process
      guard (p.attached && Counter.all.all fun c => (p.inHand task c).isSome)
      some
        { totals := flushTotals m.totals (p.inHand task)
          process := some (p.put task fun _ => none) }
  | .failed task => do
      let p ← m.process
      some { m with process := some (p.put task fun _ => none) }
  | .stop => do
      let _ ← m.process
      some { m with process := none }

/-- One event of a life. -/
def LifeStep (m : Machine) (e : LifeEvent) (m' : Machine) : Prop := m.next e = some m'

/-! ### The ledger -/

/-- What a place counts: what the table said at first, or not, and the
increments at these positions. -/
structure Account where
  first : Bool := false
  positions : List Nat := []

def Account.total (account : Account) (base : BitVec 64) : BitVec 64 :=
  (if account.first then base else 0) + .ofNat 64 account.positions.length

/-- What each place counts of one counter. -/
structure Ledger where
  stored : Account := { first := true }
  counted : Account := {}
  inHand : FlushTask → Account := fun _ => {}

/-- A process starts from what is stored, where that can be read, a load takes
what is counted, and a commit stores what was taken. -/
def Ledger.next (c : Counter) (ledger : Ledger) : LifeEvent × Nat → Ledger
  | (.start opened unread _, _) =>
      { ledger with counted := if opened = true ∧ c ∉ unread then ledger.stored else {} }
  | (.effect op, i) =>
      if op.counter? = some c then
        { ledger with
          counted := { ledger.counted with positions := ledger.counted.positions ++ [i] } }
      else ledger
  | (.load task c', _) =>
      if c' = c then { ledger with inHand := Function.update ledger.inHand task ledger.counted }
      else ledger
  | (.commit task, _) => { ledger with stored := ledger.inHand task }
  | _ => ledger

def ledgerOf (c : Counter) (events : List LifeEvent) : Ledger :=
  events.zipIdx.foldl (Ledger.next c) {}

def LifeEvent.increments (c : Counter) : LifeEvent → Bool
  | .effect op => op.counter? = some c
  | _ => false

/-- The positions of all increments. -/
def increments (c : Counter) (events : List LifeEvent) : List Nat :=
  (events.zipIdx.filter fun e => e.1.increments c).map Prod.snd

/-- The position behind the last start. -/
def lifeFrom (events : List LifeEvent) : Nat :=
  events.zipIdx.foldl (fun from_ e => match e.1 with
    | .start _ _ _ => e.2 + 1
    | _ => from_) 0

theorem ledgerOf_append (c : Counter) (events : List LifeEvent) (e : LifeEvent) :
    ledgerOf c (events ++ [e]) = (ledgerOf c events).next c (e, events.length) := by
  simp [ledgerOf, List.zipIdx_append]

theorem increments_append (c : Counter) (events : List LifeEvent) (e : LifeEvent) :
    increments c (events ++ [e]) =
      increments c events ++ if e.increments c then [events.length] else [] := by
  unfold increments
  rw [List.zipIdx_append, List.filter_append, List.map_append]
  cases hinc : e.increments c <;> simp [hinc]

theorem lifeFrom_append (events : List LifeEvent) (e : LifeEvent) :
    lifeFrom (events ++ [e]) = match e with
      | .start _ _ _ => events.length + 1
      | _ => lifeFrom events := by
  unfold lifeFrom
  rw [List.zipIdx_append, List.foldl_append]
  cases e <;> simp

/-! ### The machine follows the ledger -/

theorem savedTotal_flushTotals (totals : Totals) {hand : Hand} (c : Counter) :
    savedTotal (flushTotals totals hand) c = (hand c).getD 0 := by
  cases c <;> simp [savedTotal, flushTotals, Counter.all, Counter.key, Function.update]

theorem counter_restoreTotals (collector : StatsCollector) (totals : Totals)
    (unread : List Counter) (c : Counter) :
    ((collector.restoreTotals totals unread).attachPersistence).counter c =
      loadTotal totals unread c := by
  cases c <;> rfl

theorem counter_apply (collector : StatsCollector) (op : Effect) (c : Counter) :
    (op.apply collector).counter c =
      if op.counter? = some c then collector.counter c + 1 else collector.counter c := by
  cases op <;> cases c <;> simp [Effect.apply, Effect.counter?, StatsCollector.counter]

/-- The counters of every place are those of its ledger, above what the table had
at first; and no increment is counted twice in one place. -/
structure Ledger.Fits (ledger : Ledger) (c : Counter) (base : BitVec 64) (m : Machine)
    (all : List Nat) (from_ now : Nat) : Prop where
  stored : savedTotal m.totals c = ledger.stored.total base
  counted : ∀ p, m.process = some p → p.collector.counter c = ledger.counted.total base
  inHand : ∀ p task v, m.process = some p → p.inHand task c = some v →
    v = (ledger.inHand task).total base
  storedOnce : ledger.stored.positions.Sublist all
  countedOnce : ledger.counted.positions.Sublist all
  inHandOnce : ∀ task, (ledger.inHand task).positions.Sublist all
  /-- Of the present life nothing is missing. -/
  live : ∀ i ∈ all, from_ ≤ i → i ∈ ledger.counted.positions
  past : ∀ i ∈ all, i < now

/-- One increment more. -/
theorem Account.total_succ (account : Account) (base : BitVec 64) (i : Nat) :
    ({ account with positions := account.positions ++ [i] } : Account).total base =
      account.total base + 1 := by
  unfold Account.total
  rw [List.length_append, List.length_singleton, BitVec.ofNat_add, BitVec.add_assoc]
  rfl

section

variable {ledger : Ledger} {c : Counter} {base : BitVec 64} {m : Machine} {all : List Nat}
  {from_ now : Nat} {p : Process} {task : FlushTask}

theorem Ledger.Fits.past_succ (h : ledger.Fits c base m all from_ now) :
    ∀ i ∈ all, i < now + 1 :=
  fun i hi => Nat.lt_succ_of_lt (h.past i hi)

/-- A process starts from what is stored, or from nothing. -/
theorem Ledger.Fits.started (h : ledger.Fits c base m all from_ now) (opened : Bool)
    (unread : List Counter) (capacity : Nat) :
    (ledger.next c (.start opened unread capacity, now)).Fits c base
      { m with process := some (startProcess m.totals opened unread capacity) } all (now + 1)
      (now + 1) := by
  have hnothing : ({} : Account).total base = 0 := rfl
  refine ⟨h.stored, ?_, ?_, h.storedOnce, ?_, h.inHandOnce, ?_, h.past_succ⟩
  · intro p hp
    cases hp
    unfold Ledger.next
    dsimp only
    cases opened with
    | true =>
        refine (counter_restoreTotals _ _ _ _).trans ?_
        unfold loadTotal
        by_cases hunread : c ∈ unread
        · rw [if_pos hunread, if_neg (fun hboth => hboth.2 hunread), hnothing]
        · rw [if_neg hunread, if_pos ⟨rfl, hunread⟩]
          exact h.stored
    | false =>
        rw [if_neg (fun hboth => Bool.noConfusion hboth.1), hnothing]
        cases c <;> rfl
  · intro p task v hp hv
    cases hp
    cases opened <;> cases hv
  · unfold Ledger.next
    dsimp only
    split
    · exact h.storedOnce
    · exact List.nil_sublist _
  · intro i hi hfrom
    exact absurd (h.past i hi) (by omega)

/-- The increment of this counter is counted by the process alone. -/
theorem Ledger.Fits.counts (h : ledger.Fits c base m all from_ now) (hp : m.process = some p)
    {op : Effect} (hop : op.counter? = some c) :
    ({ ledger with
      counted := { ledger.counted with positions := ledger.counted.positions ++ [now] } } :
        Ledger).Fits c base
      { m with process := some { p with collector := op.apply p.collector } } (all ++ [now])
      from_ (now + 1) := by
  refine ⟨h.stored, ?_, ?_, ?_, ?_, ?_, ?_, ?_⟩
  · intro p' hp'
    cases hp'
    dsimp only
    rw [counter_apply, if_pos hop, h.counted p hp, Account.total_succ]
  · intro p' task v hp' hv
    cases hp'
    exact h.inHand p task v hp hv
  · exact h.storedOnce.trans (List.sublist_append_left _ _)
  · exact h.countedOnce.append (List.Sublist.refl _)
  · exact fun task => (h.inHandOnce task).trans (List.sublist_append_left _ _)
  · intro i hi hfrom
    rcases List.mem_append.mp hi with hold | hnew
    · exact List.mem_append_left _ (h.live i hold hfrom)
    · exact List.mem_append_right _ hnew
  · intro i hi
    rcases List.mem_append.mp hi with hold | hnew
    · exact h.past_succ i hold
    · rw [List.mem_singleton.mp hnew]
      exact Nat.lt_succ_self _

/-- The steps of a request that increment something else. -/
theorem Ledger.Fits.passes (h : ledger.Fits c base m all from_ now) (hp : m.process = some p)
    {op : Effect} (hop : op.counter? ≠ some c) :
    ledger.Fits c base { m with process := some { p with collector := op.apply p.collector } }
      all from_ (now + 1) := by
  refine ⟨h.stored, ?_, ?_, h.storedOnce, h.countedOnce, h.inHandOnce, h.live, h.past_succ⟩
  · intro p' hp'
    cases hp'
    dsimp only
    rw [counter_apply, if_neg hop, h.counted p hp]
  · intro p' task v hp' hv
    cases hp'
    exact h.inHand p task v hp hv

/-- A load takes what the process has counted. -/
theorem Ledger.Fits.loads (h : ledger.Fits c base m all from_ now) (hp : m.process = some p) :
    ({ ledger with inHand := Function.update ledger.inHand task ledger.counted } : Ledger).Fits
      c base
      { m with
        process := some (p.put task
          (Function.update (p.inHand task) c (some (p.collector.counter c)))) }
      all from_ (now + 1) := by
  refine ⟨h.stored, ?_, ?_, h.storedOnce, h.countedOnce, ?_, h.live, h.past_succ⟩
  · intro p' hp'
    cases hp'
    exact h.counted p hp
  · intro p' task' v hp' hv
    cases hp'
    unfold Process.put at hv
    dsimp only at hv ⊢
    by_cases htask : task' = task
    · subst htask
      rw [Function.update_self] at hv ⊢
      rw [Function.update_self, Option.some.injEq] at hv
      rw [← hv]
      exact h.counted p hp
    · rw [Function.update_of_ne htask] at hv ⊢
      exact h.inHand p task' v hp hv
  · intro task'
    dsimp only
    by_cases htask : task' = task
    · subst htask
      rw [Function.update_self]
      exact h.countedOnce
    · rw [Function.update_of_ne htask]
      exact h.inHandOnce task'

/-- A hand in which this counter is what it was, or is gone. -/
theorem Ledger.Fits.puts (h : ledger.Fits c base m all from_ now) (hp : m.process = some p)
    {hand : Hand} (hhand : ∀ v, hand c = some v → p.inHand task c = some v) :
    ledger.Fits c base { m with process := some (p.put task hand) } all from_ (now + 1) := by
  refine ⟨h.stored, ?_, ?_, h.storedOnce, h.countedOnce, h.inHandOnce, h.live, h.past_succ⟩
  · intro p' hp'
    cases hp'
    exact h.counted p hp
  · intro p' task' v hp' hv
    cases hp'
    unfold Process.put at hv
    dsimp only at hv
    by_cases htask : task' = task
    · subst htask
      rw [Function.update_self] at hv
      exact h.inHand p task' v hp (hhand v hv)
    · rw [Function.update_of_ne htask] at hv
      exact h.inHand p task' v hp hv

/-- A commit stores what the hand holds, once the hand holds every counter. -/
theorem Ledger.Fits.commits (h : ledger.Fits c base m all from_ now) (hp : m.process = some p)
    {v : BitVec 64} (hv : p.inHand task c = some v) :
    ({ ledger with stored := ledger.inHand task } : Ledger).Fits c base
      { totals := flushTotals m.totals (p.inHand task)
        process := some (p.put task fun _ => none) } all from_ (now + 1) := by
  have hput : ledger.Fits c base { m with process := some (p.put task fun _ => none) } all from_
      (now + 1) := by
    apply h.puts hp
    intro v hnone
    cases hnone
  refine ⟨?_, hput.counted, hput.inHand, h.inHandOnce task, h.countedOnce, h.inHandOnce, h.live,
    hput.past⟩
  rw [savedTotal_flushTotals, hv]
  exact h.inHand p task v hp hv

theorem Ledger.Fits.stops (h : ledger.Fits c base m all from_ now) :
    ledger.Fits c base { m with process := none } all from_ (now + 1) := by
  refine ⟨h.stored, ?_, ?_, h.storedOnce, h.countedOnce, h.inHandOnce, h.live, h.past_succ⟩
  · intro p' hp'
    cases hp'
  · intro p' task' v hp'
    cases hp'

end

theorem Ledger.Fits.step {ledger : Ledger} {c : Counter} {base : BitVec 64} {m m' : Machine}
    {events : List LifeEvent} {e : LifeEvent}
    (h : ledger.Fits c base m (increments c events) (lifeFrom events) events.length)
    (hstep : LifeStep m e m') :
    (ledger.next c (e, events.length)).Fits c base m' (increments c (events ++ [e]))
      (lifeFrom (events ++ [e])) (events.length + 1) := by
  rw [increments_append, lifeFrom_append]
  cases e with
  | start opened unread capacity =>
      rw [if_neg (by simp [LifeEvent.increments]), List.append_nil]
      unfold LifeStep Machine.next at hstep
      dsimp only at hstep
      split at hstep
      · cases hstep
      · cases hstep
        exact h.started opened unread capacity
  | effect op =>
      obtain ⟨p, hp, hnext⟩ := Option.bind_eq_some_iff.mp hstep
      cases hnext
      unfold Ledger.next
      dsimp only
      by_cases hop : op.counter? = some c
      · rw [if_pos hop, if_pos (by simpa [LifeEvent.increments] using hop)]
        exact h.counts hp hop
      · rw [if_neg hop, if_neg (by simpa [LifeEvent.increments] using hop), List.append_nil]
        exact h.passes hp hop
  | load task c' =>
      rw [if_neg (by simp [LifeEvent.increments]), List.append_nil]
      obtain ⟨p, hp, hnext⟩ := Option.bind_eq_some_iff.mp hstep
      obtain ⟨_, _, hnext⟩ := Option.bind_eq_some_iff.mp hnext
      cases hnext
      unfold Ledger.next
      dsimp only
      by_cases hsame : c' = c
      · subst hsame
        rw [if_pos rfl]
        exact h.loads hp
      · rw [if_neg hsame]
        apply h.puts hp
        intro v hv
        rwa [Function.update_of_ne (Ne.symm hsame)] at hv
  | commit task =>
      rw [if_neg (by simp [LifeEvent.increments]), List.append_nil]
      obtain ⟨p, hp, hnext⟩ := Option.bind_eq_some_iff.mp hstep
      obtain ⟨_, hguard, hnext⟩ := Option.bind_eq_some_iff.mp hnext
      cases hnext
      obtain ⟨v, hv⟩ : ∃ v, p.inHand task c = some v := by
        apply Option.isSome_iff_exists.mp
        by_contra hnone
        apply absurd hguard
        have hall : (Counter.all.all fun c => (p.inHand task c).isSome) = false := by
          rw [List.all_eq_false]
          exact ⟨c, by cases c <;> simp [Counter.all], hnone⟩
        simp [guard, hall]
      exact h.commits hp hv
  | failed task =>
      rw [if_neg (by simp [LifeEvent.increments]), List.append_nil]
      obtain ⟨p, hp, hnext⟩ := Option.bind_eq_some_iff.mp hstep
      cases hnext
      exact h.puts hp fun _ hnone => by cases hnone
  | stop =>
      rw [if_neg (by simp [LifeEvent.increments]), List.append_nil]
      obtain ⟨p, hp, hnext⟩ := Option.bind_eq_some_iff.mp hstep
      cases hnext
      exact h.stops

theorem Ledger.fits_start (c : Counter) (totals : Totals) :
    (ledgerOf c []).Fits c (savedTotal totals c) { totals := totals, process := none }
      (increments c []) (lifeFrom []) 0 where
  stored := (BitVec.add_zero _).symm
  counted _ hp := by cases hp
  inHand _ _ _ hp := by cases hp
  storedOnce := List.Sublist.refl []
  countedOnce := List.Sublist.refl []
  inHandOnce _ := List.Sublist.refl []
  live := List.forall_mem_nil _
  past := List.forall_mem_nil _

/-- A whole flush, with no request in between. -/
def flush (task : FlushTask) : List LifeEvent := Counter.all.map (.load task) ++ [.commit task]

theorem ledgerOf_flush (c : Counter) (before : List LifeEvent) (task : FlushTask) :
    (ledgerOf c (before ++ flush task)).stored = (ledgerOf c before).counted := by
  have hevents : before ++ flush task = before ++ [.load task .totalQueries] ++
      [.load task .totalBlocked] ++ [.load task .totalFailed] ++ [.load task .cacheHits] ++
      [.load task .hostsHits] ++ [.commit task] := by simp [flush, Counter.all]
  rw [hevents]
  simp only [ledgerOf_append]
  cases c <;> simp [Ledger.next]

/-- Over any number of lives, whatever ends them and wherever the steps of requests
fall between those of the flushes: the totals are those of the ledger, each
request is counted once at most, none of the present life is missing, and none
is lost of a life that ends with a whole flush, if the next one can read the
table; a life that cannot starts from nothing. -/
theorem totals_over_lives {totals : Totals} {events : List LifeEvent} {m : Machine}
    (run : Steps LifeStep { totals := totals, process := none } events m) (c : Counter) :
    (ledgerOf c events).Fits c (savedTotal totals c) m (increments c events) (lifeFrom events)
        events.length ∧
      (∀ before task unread capacity,
        events = before ++ flush task ++ [.stop] ++ [.start true unread capacity] → c ∉ unread →
          (ledgerOf c events).counted = (ledgerOf c before).counted) ∧
      ∀ before opened unread capacity, events = before ++ [.start opened unread capacity] →
        ¬ (opened = true ∧ c ∉ unread) → (ledgerOf c events).counted = {} := by
  refine ⟨?_, ?_, ?_⟩
  · induction run with
    | done => exact Ledger.fits_start c totals
    | next _ hstep ih =>
        rw [ledgerOf_append, List.length_append, List.length_singleton]
        exact ih.step hstep
  · rintro before task unread capacity rfl hread
    rw [ledgerOf_append, ledgerOf_append]
    unfold Ledger.next
    dsimp only
    rw [if_pos ⟨rfl, hread⟩]
    exact ledgerOf_flush c before task
  · rintro before opened unread capacity rfl hunread
    rw [ledgerOf_append]
    unfold Ledger.next
    dsimp only
    rw [if_neg hunread]

/-- Two requests, a flush that a third one overtakes, the next life, and one
that cannot read the total. -/
def sampleLives : List LifeEvent :=
  [.start true [] 5, .effect .totalQueries, .effect .totalQueries] ++
    Counter.all.map (.load .shutdown) ++
    [.effect .totalQueries, .commit .shutdown, .stop, .start true [] 5, .stop,
      .start true [.totalQueries] 5]

theorem totals_over_lives_two :
    ∃ m, Steps LifeStep { totals := fun _ => none, process := none } sampleLives m ∧
      (ledgerOf .totalQueries sampleLives).Fits .totalQueries 0 m
        (increments .totalQueries sampleLives) (lifeFrom sampleLives) sampleLives.length ∧
      (ledgerOf .totalQueries sampleLives).stored.positions.length = 2 ∧
      (ledgerOf .totalQueries sampleLives).counted.positions.length = 0 ∧
      (increments .totalQueries sampleLives).length = 3 := by
  have hrun : (sampleLives.foldlM Machine.next
      { totals := fun _ => none, process := none }).isSome = true := rfl
  obtain ⟨m, hm⟩ := Option.isSome_iff_exists.mp hrun
  have run : Steps LifeStep _ sampleLives m := .of_foldlM hm
  exact ⟨m, run, (totals_over_lives run .totalQueries).1, rfl, rfl, rfl⟩

end Relay.Stats
