import Relay.Config.Yaml
import Relay.Logic.Run
import Relay.Stats.Collector
import Relay.Text.Rfc3339

/-!
The query log in the database: `record_query` sends entries to a worker that
inserts them, and `cleanup_old` deletes what has outlived its retention. Times
are compared as the texts that are stored.
-/

namespace Relay.Stats

open Dns Logic Text

/-- A row of `query_log`. The latency stands for the `f64` that it widens to. -/
structure LogRow where
  id : String
  time : String
  client : String
  domain : String
  qtype : String
  upstream : String
  originalUpstream : String
  rcode : String
  latencyMs : F32
  rule : Option String
  cached : Bool
  blocked : Bool

/-- `IpAddr::to_string`. -/
def ipText : IpAddr → String
  | .v4 addr => ipv4Text addr
  | .v6 addr => ipv6Text addr

/-- What `insert_query` writes of an entry. -/
def rowOf (e : QueryEntry) : LogRow where
  id := e.id
  time := rfc3339 e.time
  client := ipText e.client
  domain := e.domain
  qtype := e.qtype
  upstream := e.upstream
  originalUpstream := e.originalUpstream
  rcode := e.rcode
  latencyMs := e.latencyMs
  rule := e.rule
  cached := e.cached
  blocked := e.blocked

/-- `INSERT OR REPLACE`: the id is the primary key. -/
def insertQuery (e : QueryEntry) (table : List LogRow) : List LogRow :=
  table.filter (fun row => decide (row.id ≠ e.id)) ++ [rowOf e]

/-- The whole second before which a clean-up at `now` deletes. -/
def cutoff (retention : Nat) (now : Int) : Int := (now / 1000000000 - retention) * 1000000000

/-- `cleanup_old`. -/
def cleanupOld (retention : Nat) (now : Int) (table : List LogRow) : List LogRow :=
  table.filter fun row => !decide (row.time < rfc3339 (cutoff retention now))

/-- The entries on their way to the worker, and the table. -/
structure LogStore where
  channel : List QueryEntry := []
  table : List LogRow := []

inductive LogEvent where
  /-- `record_query` sends the entry, under its own id or a new one. -/
  | record (entry : QueryEntry) (uuid : String)
  /-- The worker takes an entry; its insertion succeeds or not. -/
  | write (inserted : Bool)
  | cleanup (now : Int) (deleted : Bool)
  /-- The program ends or dies, and begins again with the same database. -/
  | restart

def LogStore.next (retention : Nat) (s : LogStore) : LogEvent → Option LogStore
  | .record entry uuid => some { s with channel := s.channel ++ [entry.withId uuid] }
  | .write inserted =>
      match s.channel with
      | [] => none
      | e :: rest => some ⟨rest, if inserted then insertQuery e s.table else s.table⟩
  | .cleanup now deleted =>
      some { s with table := if deleted then cleanupOld retention now s.table else s.table }
  | .restart => some { s with channel := [] }

/-! ### What the events say of the channel -/

/-- All entries that were recorded. -/
def recorded (trace : List LogEvent) : List QueryEntry :=
  trace.filterMap fun
    | .record entry uuid => some (entry.withId uuid)
    | _ => none

/-- The entries the worker has taken, and those that wait for it. -/
structure Queue where
  taken : List QueryEntry := []
  waiting : List QueryEntry := []

def Queue.after (q : Queue) : LogEvent → Queue
  | .record entry uuid => { q with waiting := q.waiting ++ [entry.withId uuid] }
  | .write _ => ⟨q.taken ++ q.waiting.take 1, q.waiting.drop 1⟩
  | .cleanup _ _ => q
  | .restart => { q with waiting := [] }

def queueAfter (trace : List LogEvent) : Queue := trace.foldl Queue.after {}

theorem queueAfter_snoc (trace : List LogEvent) (e : LogEvent) :
    queueAfter (trace ++ [e]) = (queueAfter trace).after e := by
  rw [queueAfter, List.foldl_append]
  rfl

theorem recorded_snoc (trace : List LogEvent) (e : LogEvent) :
    recorded (trace ++ [e]) = recorded trace ++ recorded [e] := List.filterMap_append

/-- What was taken and what waits has been recorded, in this order; a restart
loses what waits. -/
theorem queueAfter_sublist (trace : List LogEvent) :
    ((queueAfter trace).taken ++ (queueAfter trace).waiting).Sublist (recorded trace) := by
  induction trace using List.reverseRecOn with
  | nil => exact List.Sublist.refl _
  | append_singleton trace e ih =>
      rw [queueAfter_snoc, recorded_snoc]
      cases e with
      | record entry uuid =>
          rw [Queue.after, ← List.append_assoc]
          exact ih.append (List.Sublist.refl _)
      | write inserted =>
          rw [Queue.after, List.append_assoc, List.take_append_drop]
          exact ih.trans (List.sublist_append_left _ _)
      | cleanup now deleted => exact ih.trans (List.sublist_append_left _ _)
      | restart =>
          rw [Queue.after, List.append_nil]
          exact ((List.sublist_append_left _ _).trans ih).trans (List.sublist_append_left _ _)

/-- The worker has inserted the entry, and every clean-up since was within its
retention. -/
def Kept (retention : Nat) (trace : List LogEvent) (entry : QueryEntry) : Prop :=
  ∃ before rest after, trace = before ++ .write true :: after ∧
    (queueAfter before).waiting = entry :: rest ∧
    ∀ now, .cleanup now true ∈ after → cutoff retention now ≤ entry.time

variable {retention : Nat} {trace : List LogEvent} {e : LogEvent} {entry : QueryEntry}

theorem taken_of_prefix (before after : List LogEvent) (h : entry ∈ (queueAfter before).taken) :
    entry ∈ (queueAfter (before ++ after)).taken := by
  induction after using List.reverseRecOn with
  | nil => simpa using h
  | append_singleton after e ih =>
      rw [← List.append_assoc, queueAfter_snoc]
      cases e with
      | write inserted => exact List.mem_append_left _ ih
      | _ => exact ih

/-- What is kept was taken. -/
theorem Kept.taken (h : Kept retention trace entry) : entry ∈ (queueAfter trace).taken := by
  obtain ⟨before, rest, after, rfl, hhead, _⟩ := h
  rw [List.append_cons]
  apply taken_of_prefix
  rw [queueAfter_snoc, Queue.after, hhead]
  simp

theorem Kept.recorded (h : Kept retention trace entry) : entry ∈ recorded trace :=
  (queueAfter_sublist trace).subset (List.mem_append_left _ h.taken)

/-- One more event, unless it is a write, keeps what it does not outlive. -/
theorem kept_snoc (hwrite : ∀ inserted, e = .write inserted → inserted = false) :
    Kept retention (trace ++ [e]) entry ↔
      Kept retention trace entry ∧
        ∀ now, e = .cleanup now true → cutoff retention now ≤ entry.time := by
  constructor
  · rintro ⟨before, rest, after, hsplit, hhead, hsince⟩
    cases after using List.reverseRecOn with
    | nil =>
        have hlast := (List.append_inj' hsplit rfl).2
        cases hlast
        cases hwrite true rfl
    | append_singleton after last =>
        rw [← List.cons_append, ← List.append_assoc] at hsplit
        obtain ⟨rfl, hlast⟩ := List.append_inj' hsplit rfl
        cases hlast
        refine ⟨⟨before, rest, after, rfl, hhead, ?_⟩, ?_⟩
        · exact fun now hnow => hsince now (List.mem_append_left _ hnow)
        · rintro now rfl
          exact hsince now (List.mem_append_right _ (List.mem_singleton.mpr rfl))
  · rintro ⟨⟨before, rest, after, rfl, hhead, hsince⟩, hlast⟩
    refine ⟨before, rest, after ++ [e], by simp, hhead, ?_⟩
    intro now hnow
    rcases List.mem_append.mp hnow with hnow | hnow
    · exact hsince now hnow
    · exact hlast now (List.mem_singleton.mp hnow).symm

/-- A write keeps what was kept, and the entry it inserts. -/
theorem kept_write {first : QueryEntry} {rest : List QueryEntry}
    (hwaiting : (queueAfter trace).waiting = first :: rest) :
    Kept retention (trace ++ [.write true]) entry ↔ Kept retention trace entry ∨ entry = first := by
  constructor
  · rintro ⟨before, rest', after, hsplit, hhead, hsince⟩
    cases after using List.reverseRecOn with
    | nil =>
        obtain ⟨rfl, _⟩ := List.append_inj' hsplit rfl
        rw [hwaiting] at hhead
        cases hhead
        exact Or.inr rfl
    | append_singleton after last =>
        rw [← List.cons_append, ← List.append_assoc] at hsplit
        obtain ⟨rfl, _⟩ := List.append_inj' hsplit rfl
        exact Or.inl ⟨before, rest', after, rfl, hhead,
          fun now hnow => hsince now (List.mem_append_left _ hnow)⟩
  · rintro (⟨before, rest', after, rfl, hhead, hsince⟩ | rfl)
    · refine ⟨before, rest', after ++ [.write true], by simp, hhead, ?_⟩
      intro now hnow
      rcases List.mem_append.mp hnow with hnow | hnow
      · exact hsince now hnow
      · cases List.mem_singleton.mp hnow
    · exact ⟨trace, rest, [], rfl, hwaiting, fun now hnow => by cases hnow⟩

/-! ### The table through a run -/

/-- The channel is what the events say, and the table what is kept. -/
structure LogStore.Faithful (retention : Nat) (trace : List LogEvent) (s : LogStore) : Prop where
  channel : s.channel = (queueAfter trace).waiting
  rows : ∀ row, row ∈ s.table ↔ ∃ entry, row = rowOf entry ∧ Kept retention trace entry

/-- The identities of all entries differ, and their times have years of four
digits, as have the times that clean-ups compute. -/
structure WellTimed (retention : Nat) (trace : List LogEvent) : Prop where
  ids : ((recorded trace).map fun entry => entry.id).Nodup
  entries : ∀ entry ∈ recorded trace, FourDigitYear entry.time
  cleanups : ∀ now, .cleanup now true ∈ trace → FourDigitYear (cutoff retention now)

theorem WellTimed.front (h : WellTimed retention (trace ++ [e])) : WellTimed retention trace where
  ids := by
    have hids := h.ids
    rw [recorded_snoc, List.map_append] at hids
    exact hids.of_append_left
  entries entry hentry := by
    apply h.entries
    rw [recorded_snoc]
    exact List.mem_append_left _ hentry
  cleanups now hnow := h.cleanups now (List.mem_append_left _ hnow)

/-- A clean-up deletes by the time, though it compares texts. -/
theorem mem_cleanupOld {table : List LogRow} {now : Int} (hentry : FourDigitYear entry.time)
    (hcutoff : FourDigitYear (cutoff retention now)) :
    rowOf entry ∈ cleanupOld retention now table ↔
      rowOf entry ∈ table ∧ cutoff retention now ≤ entry.time := by
  have htime : (rowOf entry).time = rfc3339 entry.time := rfl
  rw [cleanupOld, List.mem_filter, htime, Bool.not_eq_true', decide_eq_false_iff_not,
    rfc3339_lt_iff hentry hcutoff, Int.not_lt]

/-- The events move the channel as they move the queue. -/
theorem LogStore.next_channel {s t : LogStore} (hchannel : s.channel = (queueAfter trace).waiting)
    (hstep : s.next retention e = some t) :
    t.channel = (queueAfter (trace ++ [e])).waiting := by
  rw [queueAfter_snoc]
  cases e with
  | record entry uuid =>
      cases hstep
      rw [Queue.after, ← hchannel]
  | write inserted =>
      rw [Queue.after, ← hchannel]
      unfold LogStore.next at hstep
      cases hwaiting : s.channel with
      | nil =>
          rw [hwaiting] at hstep
          cases hstep
      | cons first rest =>
          rw [hwaiting] at hstep
          cases hstep
          rfl
  | cleanup now deleted =>
      cases hstep
      exact hchannel
  | restart =>
      cases hstep
      rfl

variable {table : List LogRow}

/-- An event that inserts nothing and deletes nothing leaves the rows. -/
theorem rows_unchanged
    (hrows : ∀ row, row ∈ table ↔ ∃ entry, row = rowOf entry ∧ Kept retention trace entry)
    (hwrite : ∀ inserted, e = .write inserted → inserted = false)
    (hcleanup : ∀ now, e ≠ .cleanup now true) (row : LogRow) :
    row ∈ table ↔ ∃ entry, row = rowOf entry ∧ Kept retention (trace ++ [e]) entry := by
  rw [hrows]
  apply exists_congr
  intro entry
  rw [kept_snoc hwrite]
  exact and_congr_right fun _ =>
    ⟨fun hkept => ⟨hkept, fun now hnow => absurd hnow (hcleanup now)⟩, And.left⟩

/-- A clean-up leaves what is within the retention. -/
theorem rows_cleaned {now : Int} (htimed : WellTimed retention (trace ++ [.cleanup now true]))
    (hrows : ∀ row, row ∈ table ↔ ∃ entry, row = rowOf entry ∧ Kept retention trace entry)
    (row : LogRow) :
    row ∈ cleanupOld retention now table ↔
      ∃ entry, row = rowOf entry ∧ Kept retention (trace ++ [.cleanup now true]) entry := by
  have hlast : LogEvent.cleanup now true ∈ trace ++ [.cleanup now true] :=
    List.mem_append_right _ (List.mem_singleton.mpr rfl)
  have hcutoff := htimed.cleanups now hlast
  constructor
  · intro hrow
    obtain ⟨entry, rfl, hkept⟩ := (hrows row).mp (List.mem_of_mem_filter hrow)
    have hyear := htimed.front.entries entry hkept.recorded
    obtain ⟨_, hlate⟩ := (mem_cleanupOld hyear hcutoff).mp hrow
    refine ⟨entry, rfl, (kept_snoc (by simp)).mpr ⟨hkept, ?_⟩⟩
    rintro _ ⟨rfl⟩
    exact hlate
  · rintro ⟨entry, rfl, hkept⟩
    obtain ⟨hbefore, hlate⟩ := (kept_snoc (by simp)).mp hkept
    have hyear := htimed.front.entries entry hbefore.recorded
    exact (mem_cleanupOld hyear hcutoff).mpr ⟨(hrows _).mpr ⟨entry, rfl, hbefore⟩, hlate now rfl⟩

/-- An insertion replaces no row, as what is kept has other identities. -/
theorem rows_inserted {first : QueryEntry} {rest : List QueryEntry}
    (htimed : WellTimed retention (trace ++ [.write true]))
    (hwaiting : (queueAfter trace).waiting = first :: rest)
    (hrows : ∀ row, row ∈ table ↔ ∃ entry, row = rowOf entry ∧ Kept retention trace entry)
    (row : LogRow) :
    row ∈ insertQuery first table ↔
      ∃ entry, row = rowOf entry ∧ Kept retention (trace ++ [.write true]) entry := by
  have hdistinct : ∀ entry, Kept retention trace entry → entry.id ≠ first.id := by
    intro entry hkept
    have hids := ((queueAfter_sublist trace).map fun entry => entry.id).nodup htimed.front.ids
    rw [hwaiting, List.map_append] at hids
    exact (List.nodup_append.mp hids).2.2 _ (List.mem_map_of_mem hkept.taken) _
      (List.mem_map_of_mem List.mem_cons_self)
  simp only [insertQuery, List.mem_append, List.mem_filter, List.mem_singleton,
    decide_eq_true_eq, kept_write hwaiting, hrows]
  constructor
  · rintro (⟨⟨entry, rfl, hkept⟩, _⟩ | rfl)
    · exact ⟨entry, rfl, Or.inl hkept⟩
    · exact ⟨first, rfl, Or.inr rfl⟩
  · rintro ⟨entry, rfl, hkept | rfl⟩
    · exact Or.inl ⟨⟨entry, rfl, hkept⟩, hdistinct entry hkept⟩
    · exact Or.inr rfl

theorem LogStore.Faithful.step {s t : LogStore} (h : s.Faithful retention trace)
    (htimed : WellTimed retention (trace ++ [e])) (hstep : s.next retention e = some t) :
    t.Faithful retention (trace ++ [e]) := by
  refine ⟨LogStore.next_channel h.channel hstep, ?_⟩
  cases e with
  | record entry uuid =>
      cases hstep
      exact rows_unchanged h.rows (by simp) (by simp)
  | restart =>
      cases hstep
      exact rows_unchanged h.rows (by simp) (by simp)
  | cleanup now deleted =>
      cases hstep
      cases deleted with
      | false => exact rows_unchanged h.rows (by simp) (by simp)
      | true => exact rows_cleaned htimed h.rows
  | write inserted =>
      unfold LogStore.next at hstep
      cases hwaiting : s.channel with
      | nil =>
          rw [hwaiting] at hstep
          cases hstep
      | cons first rest =>
          rw [hwaiting] at hstep
          cases hstep
          rw [h.channel] at hwaiting
          cases inserted with
          | false => exact rows_unchanged h.rows (by simp) (by simp)
          | true => exact rows_inserted htimed hwaiting h.rows

theorem LogStore.Faithful.run {s : LogStore} (htimed : WellTimed retention trace)
    (run : Steps (fun s e t => LogStore.next retention s e = some t) {} trace s) :
    s.Faithful retention trace := by
  induction run with
  | done =>
      refine ⟨rfl, fun row => ⟨(fun h => by cases h), ?_⟩⟩
      rintro ⟨_, _, before, _, after, hsplit, _⟩
      cases before <;> cases hsplit
  | next _ hstep ih => exact (ih htimed.front).step htimed hstep

/-- In every run over any number of lives of the program, a row is in the
database exactly when the worker has inserted its entry and every clean-up since
found it within the retention; what the worker has taken so far and what still
waits is what was recorded, in order, less what restarts have lost. -/
theorem rows_within_retention {s : LogStore} (htimed : WellTimed retention trace)
    (run : Steps (fun s e t => LogStore.next retention s e = some t) {} trace s) :
    (∀ row, row ∈ s.table ↔ ∃ entry, row = rowOf entry ∧ Kept retention trace entry) ∧
      s.channel = (queueAfter trace).waiting ∧
      ((queueAfter trace).taken ++ s.channel).Sublist (recorded trace) := by
  have hfaithful := LogStore.Faithful.run htimed run
  refine ⟨hfaithful.rows, hfaithful.channel, ?_⟩
  rw [hfaithful.channel]
  exact queueAfter_sublist trace

/-! ### Two entries and a clean-up -/

def queriedAt (seconds : Int) : QueryEntry where
  id := ""
  time := seconds * 1000000000
  client := .v4 0x7f000001
  domain := "example.org"
  qtype := "A"
  upstream := "default"
  originalUpstream := "default"
  rcode := "NOERROR"
  latencyMs := 0
  upstreamLatencyMs := none
  rule := none
  cached := false
  blocked := false

def twoQueries : List LogEvent :=
  [.record (queriedAt 1700000000) "1", .write true, .record (queriedAt 1700000002) "2", .write true,
    .restart]

/-- Thirty days after a time between the two. -/
def monthLater : Int := (1700000001 + 2592000) * 1000000000

theorem rows_within_retention_month :
    ∃ s : LogStore, Steps (fun s e t => LogStore.next 2592000 s e = some t) {}
        (twoQueries ++ [.cleanup monthLater true]) s ∧
      rowOf ((queriedAt 1700000002).withId "2") ∈ s.table ∧
      rowOf ((queriedAt 1700000000).withId "1") ∉ s.table := by
  have htimed : WellTimed 2592000 (twoQueries ++ [.cleanup monthLater true]) := by
    refine ⟨by decide, ?_, ?_⟩
    · intro entry hentry
      rcases List.mem_pair.mp hentry with rfl | rfl <;> decide +kernel
    · intro now hnow
      have hsame : now = monthLater := by simpa [twoQueries] using hnow
      subst hsame
      decide +kernel
  let result := (twoQueries ++ [LogEvent.cleanup monthLater true]).foldlM (LogStore.next 2592000) {}
  have hsome : result.isSome = true := rfl
  have run : Steps (fun s e t => LogStore.next 2592000 s e = some t) {}
      (twoQueries ++ [.cleanup monthLater true]) (result.get hsome) :=
    .of_foldlM (Option.some_get hsome).symm
  obtain ⟨hrows, _⟩ := rows_within_retention htimed run
  refine ⟨_, run, (hrows _).mpr ⟨_, rfl, ?_⟩, ?_⟩
  · refine ⟨twoQueries.take 3, [], [.restart, .cleanup monthLater true], rfl, rfl, ?_⟩
    intro now hnow
    have hsame : now = monthLater := by simpa using hnow
    subst hsame
    decide
  · intro hrow
    obtain ⟨entry, hsame, hkept⟩ := (hrows _).mp hrow
    have hearly : entry.time < cutoff 2592000 monthLater := by
      rcases List.mem_pair.mp hkept.recorded with rfl | rfl
      · decide
      · have hid := congrArg LogRow.id hsame
        simp [rowOf, QueryEntry.withId, queriedAt] at hid
    have hlate := ((kept_snoc (fun _ h => by cases h)).mp hkept).2 monthLater rfl
    exact Int.not_le.mpr hearly hlate

end Relay.Stats
