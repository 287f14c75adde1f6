import Relay.Logic.Merge
import Relay.Stats.Collector

/-!
The statistics after calls of `record_query` that ran side by side. Each
component sees at most one step of a call, so whatever the order of the steps
every counter is a number of entries modulo 2^64, and below 2^64 calls they
balance; the log is the last entries in the order of their own steps.
-/

namespace Relay.Stats

open Dns Logic

/-- A call of `record_query`, with the id it would make up. -/
structure Call where
  entry : QueryEntry
  uuid : String

def Call.steps (casts : LatencyCasts) (call : Call) : List Effect :=
  recordQuery casts call.entry call.uuid

/-! ### What each component sees of a call -/

/-- An update of one upstream: its key, and the arguments of `record`. -/
structure UpstreamRecord where
  key : String
  success : Bool
  recordAsFailed : Bool
  latencyMicros : Option (BitVec 64)

def UpstreamRecord.update (r : UpstreamRecord) (stat : UpstreamStat) : UpstreamStat :=
  stat.record r.success r.recordAsFailed r.latencyMicros

namespace Effect

def total? : Effect → Option Unit
  | totalQueries => some ()
  | _ => none

def blocked? : Effect → Option Unit
  | totalBlocked => some ()
  | _ => none

def failed? : Effect → Option Unit
  | totalFailed => some ()
  | _ => none

def type? : Effect → Option String
  | byType qtype => some qtype
  | _ => none

def rcode? : Effect → Option String
  | byRcode rcode => some rcode
  | _ => none

def client? : Effect → Option IpAddr
  | client ip => some ip
  | _ => none

def upstream? : Effect → Option UpstreamRecord
  | upstream key success recordAsFailed latencyMicros =>
      some ⟨key, success, recordAsFailed, latencyMicros⟩
  | _ => none

def log? : Effect → Option QueryEntry
  | log entry => some entry
  | _ => none

end Effect

/-- The update of an upstream that the entry makes. -/
def QueryEntry.upstreamRecord (casts : LatencyCasts) (entry : QueryEntry) :
    Option UpstreamRecord :=
  entry.upstreamKey.map fun key =>
    ⟨key, !entry.blocked && entry.rcode == "NOERROR", entry.isFailure,
      if !entry.blocked then entry.upstreamLatencyMs.map casts.micros else none⟩

section Shown

variable (casts : LatencyCasts) (call : Call)

private theorem bind_ite {α β : Type} (c : Bool) (a b : Option α) (f : α → Option β) :
    (if c then a else b).bind f = if c then a.bind f else b.bind f := by
  cases c <;> rfl

private theorem filterMap_reduceOption {α β : Type} (steps : List (Option α))
    (seen : α → Option β) :
    steps.reduceOption.filterMap seen = (steps.map (·.bind seen)).reduceOption := by
  change (steps.filterMap id).filterMap seen = (steps.map (·.bind seen)).filterMap id
  rw [List.filterMap_filterMap, List.filterMap_map]
  rfl

/-- What is seen of a call: step by step what is seen of those it takes. -/
theorem Call.steps_seen {β : Type} (seen : Effect → Option β) :
    (call.steps casts).filterMap seen =
      [seen .totalQueries,
        if call.entry.blocked then seen .totalBlocked
        else if call.entry.rcode != "NOERROR" && call.entry.rcode != "Empty" then
          seen .totalFailed
        else none,
        if call.entry.cached then seen .cacheHits else none,
        if call.entry.upstream == "hosts" || call.entry.upstream == "dynamic-hosts" then
          seen .hostsHits
        else none,
        if !call.entry.blocked then
          call.entry.upstreamLatencyMs.bind fun upLat => seen (.latency (casts.microsX1000 upLat))
        else none,
        seen (.byType call.entry.qtype),
        seen (.byRcode call.entry.rcode),
        seen (.client call.entry.client),
        (call.entry.upstreamRecord casts).bind fun r =>
          seen (.upstream r.key r.success r.recordAsFailed r.latencyMicros),
        call.entry.rule.bind fun name => seen (.rule name),
        seen (.log (call.entry.withId call.uuid)),
        seen (.send (call.entry.withId call.uuid))].reduceOption := by
  unfold Call.steps recordQuery QueryEntry.upstreamRecord
  rw [filterMap_reduceOption]
  simp only [List.map_cons, List.map_nil, bind_ite, Option.bind_some, Option.bind_none,
    Option.bind_map, Function.comp_def]

theorem Call.shows_total :
    (call.steps casts).filterMap Effect.total? = (some ()).toList := by
  rw [Call.steps_seen]
  simp only [Effect.total?, Option.bind_fun_none, ite_self]
  rfl

theorem Call.shows_blocked :
    (call.steps casts).filterMap Effect.blocked? =
      (if call.entry.blocked then some () else none).toList := by
  rw [Call.steps_seen]
  simp only [Effect.blocked?, Option.bind_fun_none, ite_self]
  cases call.entry.blocked <;> rfl

theorem Call.shows_failed :
    (call.steps casts).filterMap Effect.failed? =
      (if call.entry.isFailure then some () else none).toList := by
  rw [Call.steps_seen]
  simp only [Effect.failed?, Option.bind_fun_none, ite_self]
  unfold QueryEntry.isFailure
  cases call.entry.blocked with
  | true => rfl
  | false =>
      rw [Bool.not_false, Bool.true_and]
      cases call.entry.rcode != "NOERROR" && call.entry.rcode != "Empty" <;> rfl

theorem Call.shows_type :
    (call.steps casts).filterMap Effect.type? = (some call.entry.qtype).toList := by
  rw [Call.steps_seen]
  simp only [Effect.type?, Option.bind_fun_none, ite_self]
  rfl

theorem Call.shows_rcode :
    (call.steps casts).filterMap Effect.rcode? = (some call.entry.rcode).toList := by
  rw [Call.steps_seen]
  simp only [Effect.rcode?, Option.bind_fun_none, ite_self]
  rfl

theorem Call.shows_client :
    (call.steps casts).filterMap Effect.client? = (some call.entry.client).toList := by
  rw [Call.steps_seen]
  simp only [Effect.client?, Option.bind_fun_none, ite_self]
  rfl

theorem Call.shows_upstream :
    (call.steps casts).filterMap Effect.upstream? =
      (call.entry.upstreamRecord casts).toList := by
  rw [Call.steps_seen]
  simp only [Effect.upstream?, Option.bind_fun_none, ite_self]
  cases call.entry.upstreamRecord casts <;> rfl

theorem Call.shows_log :
    (call.steps casts).filterMap Effect.log? =
      (some (call.entry.withId call.uuid)).toList := by
  rw [Call.steps_seen]
  simp only [Effect.log?, Option.bind_fun_none, ite_self]
  rfl

end Shown

/-! ### An upstream's counters -/

/-- Counted for the upstream. -/
def QueryEntry.attributedTo (key : String) (entry : QueryEntry) : Bool :=
  entry.upstreamKey == some key

/-- Neither a success nor a failure of its upstream. -/
def QueryEntry.isNeutral (entry : QueryEntry) : Bool := entry.blocked || entry.rcode == "Empty"

def QueryEntry.isSuccess (entry : QueryEntry) : Bool := !entry.blocked && entry.rcode == "NOERROR"

/-- The counters once the upstream has had these updates. -/
theorem foldl_update (records : List UpstreamRecord) :
    let stat := records.foldl (fun stat r => r.update stat) UpstreamStat.initial
    stat.queries = BitVec.ofNat 64 records.length ∧
      stat.success = BitVec.ofNat 64 (records.countP (·.success)) ∧
      stat.failed = BitVec.ofNat 64 (records.countP fun r => !r.success && r.recordAsFailed) := by
  refine ⟨?_, ?_, ?_⟩
  · have hfold : (records.foldl (fun stat r => r.update stat) UpstreamStat.initial).queries =
        records.foldl (fun n _ => n + 1) 0 := (List.foldl_hom _ fun _ _ => rfl).symm
    rw [hfold, foldl_succ]
    exact BitVec.zero_add _
  · have hfold : (records.foldl (fun stat r => r.update stat) UpstreamStat.initial).success =
        records.foldl (fun n r => if r.success then n + 1 else n) 0 :=
      (List.foldl_hom _ fun _ _ => rfl).symm
    rw [hfold, foldl_count]
    exact BitVec.zero_add _
  · have hfold : (records.foldl (fun stat r => r.update stat) UpstreamStat.initial).failed =
        records.foldl (fun n r => if !r.success && r.recordAsFailed then n + 1 else n) 0 :=
      (List.foldl_hom _ fun _ _ => rfl).symm
    rw [hfold, foldl_count]
    exact BitVec.zero_add _

/-! ### After the calls -/

/-- A new collector, with or without the database. -/
def StatsCollector.Fresh (start : StatsCollector) (capacity : Nat) : Prop :=
  start = .new capacity ∨ start = (StatsCollector.new capacity).attachPersistence

theorem StatsCollector.fresh_new (capacity : Nat) :
    (StatsCollector.new capacity).Fresh capacity := .inl rfl

section After

variable {casts : LatencyCasts} {start : StatsCollector} {calls : List Call}
  {history : List Effect}

/-- A counter is the number of calls that increment it. -/
theorem counter_after (read : StatsCollector → BitVec 64) (seen : Effect → Option Unit)
    (shown : Call → Option Unit) (h : Merged (calls.map (Call.steps casts)) history)
    (hstep : ∀ s op, read (Effect.apply s op) =
      ((seen op).map (fun _ => read s + 1)).getD (read s))
    (hshown : ∀ call, (Call.steps casts call).filterMap seen = (shown call).toList)
    (hstart : read start = 0) :
    read (history.foldl Effect.apply start) =
      BitVec.ofNat 64 (calls.countP (fun call => (shown call).isSome)) := by
  rw [foldl_component read seen (fun n _ => n + 1) hstep, foldl_succ, hstart,
    (h.observed seen hshown).length_eq, List.length_filterMap_eq_countP]
  exact BitVec.zero_add _

/-- A map of counters has counted the keys of the calls. -/
theorem tally_after {κ : Type} [DecidableEq κ] (read : StatsCollector → Tally κ)
    (seen : Effect → Option κ) (shown : QueryEntry → κ)
    (h : Merged (calls.map (Call.steps casts)) history)
    (hstep : ∀ s op, read (Effect.apply s op) = ((seen op).map (read s).bump).getD (read s))
    (hshown : ∀ call, (Call.steps casts call).filterMap seen = (some (shown call.entry)).toList)
    (hstart : read start = ∅) :
    ∃ keys : List κ, keys.Perm ((calls.map Call.entry).map shown) ∧
      read (history.foldl Effect.apply start) = keys.foldl Tally.bump ∅ := by
  refine ⟨history.filterMap seen, ?_, ?_⟩
  · have hperm := h.observed seen hshown
    rw [List.map_map]
    rwa [List.filterMap_eq_map'] at hperm
  · rw [foldl_component read seen Tally.bump hstep, hstart]

/-- The updates of one upstream, counted as entries. -/
theorem countP_updates (h : Merged (calls.map (Call.steps casts)) history) (key : String)
    (counted : UpstreamRecord → Bool) (shown : QueryEntry → Bool)
    (hshown : ∀ entry : QueryEntry, ∀ r, entry.upstreamRecord casts = some r →
      counted r = shown entry) :
    ((history.filterMap Effect.upstream?).filter fun r => r.key = key).countP counted =
      (calls.map Call.entry).countP fun entry => entry.attributedTo key && shown entry := by
  have hperm := (h.observed Effect.upstream? (Call.shows_upstream casts)).filter
    fun r => decide (r.key = key)
  rw [hperm.countP_eq, List.countP_filter, List.countP_filterMap, List.countP_map]
  apply List.countP_congr
  intro call _
  cases hrecord : call.entry.upstreamRecord casts with
  | none =>
      have hkey : call.entry.upstreamKey = none := Option.map_eq_none_iff.mp hrecord
      simp [QueryEntry.attributedTo, hkey]
  | some r =>
      have hcounted := hshown call.entry r hrecord
      obtain ⟨key', hkey, rfl⟩ := Option.map_eq_some_iff.mp hrecord
      rw [Option.map_some, Option.getD_some, hcounted]
      simp [QueryEntry.attributedTo, hkey, and_comm]

/-- An upstream that has had entries counts them, and those of its successes and
failures. -/
theorem upstream_after (h : Merged (calls.map (Call.steps casts)) history)
    (hstart : start.upstreamStats = ∅) (key : String) :
    (history.foldl Effect.apply start).upstreamStats.lookup key = none ∧
        (calls.map Call.entry).countP (·.attributedTo key) = 0 ∨
      ∃ stat, (history.foldl Effect.apply start).upstreamStats.lookup key = some stat ∧
        stat.queries = .ofNat 64 ((calls.map Call.entry).countP (·.attributedTo key)) ∧
        stat.success = .ofNat 64
          ((calls.map Call.entry).countP fun e => e.attributedTo key && e.isSuccess) ∧
        stat.failed = .ofNat 64
          ((calls.map Call.entry).countP fun e => e.attributedTo key && e.isFailure) := by
  have hstep : ∀ (s : StatsCollector) (op : Effect), (Effect.apply s op).upstreamStats =
      ((op.upstream?).map fun r => upsert .initial r.update s.upstreamStats r.key).getD
        s.upstreamStats := by
    intro s op
    cases op <;> rfl
  have hqueries := countP_updates h key (fun _ => true) (fun _ => true) fun _ _ _ => rfl
  have hsuccess := countP_updates h key (·.success) QueryEntry.isSuccess (by
    intro entry r hrecord
    obtain ⟨key', _, rfl⟩ := Option.map_eq_some_iff.mp hrecord
    rfl)
  have hfailed := countP_updates h key (fun r => !r.success && r.recordAsFailed)
    QueryEntry.isFailure (by
      intro entry r hrecord
      obtain ⟨key', _, rfl⟩ := Option.map_eq_some_iff.mp hrecord
      unfold QueryEntry.isFailure
      cases entry.blocked with
      | true => rfl
      | false => cases hrcode : entry.rcode == "NOERROR" <;> simp [bne, hrcode])
  simp only [List.countP_true, Bool.and_true] at hqueries
  have hfold := foldl_component StatsCollector.upstreamStats Effect.upstream?
    (fun m r => upsert .initial r.update m r.key) hstep history start
  rw [hfold, hstart, lookup_foldl_upsert]
  by_cases hnone : (history.filterMap Effect.upstream?).filter (fun r => r.key = key) = []
  · left
    rw [if_pos hnone, ← hqueries, hnone]
    exact ⟨rfl, rfl⟩
  · right
    obtain ⟨hq, hs, hf⟩ := foldl_update
      ((history.filterMap Effect.upstream?).filter fun r => r.key = key)
    rw [if_neg hnone]
    exact ⟨_, rfl, hqueries ▸ hq, hsuccess ▸ hs, hfailed ▸ hf⟩

/-- The log keeps the last entries. -/
theorem foldl_pushBack {capacity : Nat} (hcapacity : 1 ≤ capacity) (entries : List QueryEntry) :
    entries.foldl (pushBack capacity) [] = entries.drop (entries.length - capacity) := by
  induction entries using List.reverseRecOn with
  | nil => exact List.drop_nil.symm
  | append_singleton entries entry ih =>
      rw [List.foldl_append, ih, List.foldl_cons, List.foldl_nil, pushBack, List.length_append,
        List.length_singleton, List.length_drop]
      by_cases hfull : capacity ≤ entries.length
      · rw [if_pos (by omega), List.drop_drop, List.drop_append_of_le_length (by omega)]
        congr 2
        omega
      · rw [if_neg (by omega), Nat.sub_eq_zero_of_le (by omega : entries.length ≤ capacity),
          Nat.sub_eq_zero_of_le (by omega : entries.length + 1 ≤ capacity)]
        rfl

/-- The log's entries, with their ids, in the order of their own steps. -/
theorem queryLog_after {capacity : Nat} (h : Merged (calls.map (Call.steps casts)) history)
    (hcapacity : 1 ≤ capacity) (hfresh : start.Fresh capacity) :
    let order := history.filterMap Effect.log?
    order.Perm (calls.map fun call => call.entry.withId call.uuid) ∧
      (history.foldl Effect.apply start).queryLog = order.drop (order.length - capacity) := by
  dsimp only
  constructor
  · have hperm := h.observed Effect.log? (Call.shows_log casts)
    rwa [List.filterMap_eq_map'] at hperm
  · have hstep : ∀ (s : StatsCollector) (op : Effect),
        ((Effect.apply s op).queryLogCapacity, (Effect.apply s op).queryLog) =
          ((op.log?).map fun e => (s.queryLogCapacity,
            pushBack s.queryLogCapacity s.queryLog e)).getD (s.queryLogCapacity, s.queryLog) := by
      intro s op
      cases op <;> rfl
    have hfold := foldl_component (fun s => (s.queryLogCapacity, s.queryLog)) Effect.log?
      (fun p e => (p.1, pushBack p.1 p.2 e)) hstep history start
    have hstart : (start.queryLogCapacity, start.queryLog) = (capacity, []) := by
      rcases hfresh with rfl | rfl <;> rfl
    have hpair : (history.filterMap Effect.log?).foldl
        (fun (p : Nat × List QueryEntry) e => (p.1, pushBack p.1 p.2 e)) (capacity, []) =
        (capacity, (history.filterMap Effect.log?).foldl (pushBack capacity) []) :=
      List.foldl_hom (fun log => (capacity, log)) fun _ _ => rfl
    rw [hstart, hpair, foldl_pushBack hcapacity] at hfold
    exact congrArg Prod.snd hfold

/-! ### The balances -/

/-- Every counter is the number of its entries modulo 2^64. -/
structure Counted (collector : StatsCollector) (entries : List QueryEntry) : Prop where
  total : collector.totalQueries = .ofNat 64 entries.length
  blocked : collector.totalBlocked = .ofNat 64 (entries.countP (·.blocked))
  failed : collector.totalFailed = .ofNat 64 (entries.countP (·.isFailure))
  types : ∃ keys : List String, keys.Perm (entries.map (·.qtype)) ∧
    collector.byType = keys.foldl Tally.bump ∅
  rcodes : ∃ keys : List String, keys.Perm (entries.map (·.rcode)) ∧
    collector.byRcode = keys.foldl Tally.bump ∅
  clients : ∃ keys : List IpAddr, keys.Perm (entries.map (·.client)) ∧
    collector.clientStats = keys.foldl Tally.bump ∅
  upstreams : ∀ key,
    collector.upstreamStats.lookup key = none ∧ entries.countP (·.attributedTo key) = 0 ∨
    ∃ stat, collector.upstreamStats.lookup key = some stat ∧
      stat.queries = .ofNat 64 (entries.countP (·.attributedTo key)) ∧
      stat.success = .ofNat 64 (entries.countP fun e => e.attributedTo key && e.isSuccess) ∧
      stat.failed = .ofNat 64 (entries.countP fun e => e.attributedTo key && e.isFailure)

/-- What is asked of the counters, as numbers. -/
structure Balanced (collector : StatsCollector) (entries : List QueryEntry) : Prop where
  types : collector.totalQueries.toNat = collector.byType.total
  rcodes : collector.totalQueries.toNat = collector.byRcode.total
  clients : collector.totalQueries.toNat = collector.clientStats.total
  outcomes : collector.totalBlocked.toNat + collector.totalFailed.toNat ≤
    collector.totalQueries.toNat
  blocked : collector.totalBlocked.toNat = entries.countP (·.blocked)
  failed : collector.totalFailed.toNat = entries.countP (·.isFailure)
  apart : ∀ entry ∈ entries, ¬ (entry.blocked = true ∧ entry.isFailure = true)
  upstreams : ∀ key stat, collector.upstreamStats.lookup key = some stat →
    stat.queries.toNat = entries.countP (·.attributedTo key) ∧
      stat.success.toNat + stat.failed.toNat ≤ stat.queries.toNat ∧
      stat.queries.toNat - (stat.success.toNat + stat.failed.toNat) =
        entries.countP fun e => e.attributedTo key && e.isNeutral
  unlisted : ∀ key, collector.upstreamStats.lookup key = none →
    ∀ entry ∈ entries, entry.attributedTo key = false

/-- An entry counted for an upstream is a success, a failure or neutral, and only
one of them. -/
theorem QueryEntry.outcome (entry : QueryEntry) :
    (if entry.isSuccess then 1 else 0) + (if entry.isFailure then 1 else 0) +
      (if entry.isNeutral then 1 else 0) = 1 := by
  unfold isSuccess isFailure isNeutral
  cases entry.blocked with
  | true => rfl
  | false =>
      by_cases hnoerror : entry.rcode = "NOERROR"
      · rw [hnoerror]
        rfl
      · by_cases hempty : entry.rcode = "Empty"
        · rw [hempty]
          rfl
        · simp only [bne, beq_false_of_ne hnoerror, beq_false_of_ne hempty]
          rfl

theorem countP_outcomes (entries : List QueryEntry) (key : String) :
    (entries.countP fun e => e.attributedTo key && e.isSuccess) +
        (entries.countP fun e => e.attributedTo key && e.isFailure) +
        (entries.countP fun e => e.attributedTo key && e.isNeutral) =
      entries.countP (·.attributedTo key) := by
  induction entries with
  | nil => rfl
  | cons entry entries ih =>
      have houtcome := entry.outcome
      simp only [List.countP_cons]
      cases entry.attributedTo key with
      | false =>
          simp only [Bool.false_and, Bool.false_eq_true, if_false]
          omega
      | true =>
          simp only [Bool.true_and, if_true]
          omega

/-- A failure is not blocked. -/
theorem QueryEntry.isFailure_of_blocked {entry : QueryEntry} (h : entry.blocked = true) :
    entry.isFailure = false := by
  unfold isFailure
  rw [h]
  rfl

theorem countP_blocked_failure (entries : List QueryEntry) :
    entries.countP (·.blocked) + entries.countP (·.isFailure) ≤ entries.length := by
  induction entries with
  | nil => exact Nat.le_refl _
  | cons entry entries ih =>
      simp only [List.countP_cons, List.length_cons]
      cases hblocked : entry.blocked with
      | true =>
          rw [QueryEntry.isFailure_of_blocked hblocked, if_pos rfl, if_neg Bool.false_ne_true]
          omega
      | false =>
          rw [if_neg Bool.false_ne_true]
          split <;> omega

/-- Below 2^64 entries the counters are the numbers they stand for. -/
theorem Counted.balanced {collector : StatsCollector} {entries : List QueryEntry}
    (h : Counted collector entries) (hlength : entries.length < 2 ^ 64) :
    Balanced collector entries := by
  have hsmall : ∀ counted : QueryEntry → Bool,
      (BitVec.ofNat 64 (entries.countP counted)).toNat = entries.countP counted := by
    intro counted
    have hle : entries.countP counted ≤ entries.length := List.countP_le_length
    rw [BitVec.toNat_ofNat, Nat.mod_eq_of_lt (by omega)]
  have htotal : collector.totalQueries.toNat = entries.length := by
    rw [h.total, BitVec.toNat_ofNat, Nat.mod_eq_of_lt hlength]
  have hblocked : collector.totalBlocked.toNat = entries.countP (·.blocked) := by
    rw [h.blocked, hsmall]
  have hfailed : collector.totalFailed.toNat = entries.countP (·.isFailure) := by
    rw [h.failed, hsmall]
  have htally : ∀ {κ : Type} [DecidableEq κ] (shown : QueryEntry → κ) (tally : Tally κ),
      (∃ keys : List κ, keys.Perm (entries.map shown) ∧ tally = keys.foldl Tally.bump ∅) →
        collector.totalQueries.toNat = tally.total := by
    rintro κ _ shown tally ⟨keys, hperm, rfl⟩
    have hkeys : keys.length = entries.length := by
      rw [hperm.length_eq, List.length_map]
    rw [htotal, Tally.total_bumps_of_lt (by omega), hkeys]
  refine ⟨htally _ _ h.types, htally _ _ h.rcodes, htally _ _ h.clients, ?_, hblocked, hfailed,
    ?_, ?_, ?_⟩
  · rw [hblocked, hfailed, htotal]
    exact countP_blocked_failure entries
  · rintro entry _ ⟨hentry, hfailure⟩
    rw [QueryEntry.isFailure_of_blocked hentry] at hfailure
    cases hfailure
  · intro key stat hstat
    have houtcomes := countP_outcomes entries key
    rcases h.upstreams key with ⟨hnone, _⟩ | ⟨stat', hsome, hqueries, hsuccess, hfailed⟩
    · rw [hnone] at hstat
      cases hstat
    · rw [hsome] at hstat
      cases hstat
      rw [hqueries, hsuccess, hfailed, hsmall, hsmall, hsmall]
      omega
  · intro key hnone entry hentry
    rcases h.upstreams key with ⟨_, hzero⟩ | ⟨stat, hsome, _⟩
    · exact Bool.not_eq_true _ ▸ List.countP_eq_zero.mp hzero entry hentry
    · rw [hnone] at hsome
      cases hsome

/-- The log holds the last entries, with their ids, in the order in which they
were logged. -/
def LogKept (collector : StatsCollector) (capacity : Nat) (calls : List Call)
    (history : List Effect) : Prop :=
  ∃ order : List QueryEntry, order.Perm (calls.map fun call => call.entry.withId call.uuid) ∧
    order = history.filterMap Effect.log? ∧
    collector.queryLog = order.drop (calls.length - min calls.length capacity)

private theorem isSome_ite (b : Bool) : (if b then some () else none).isSome = b := by
  cases b <;> rfl

theorem counted_after {capacity : Nat} (h : Merged (calls.map (Call.steps casts)) history)
    (hfresh : start.Fresh capacity) :
    Counted (history.foldl Effect.apply start) (calls.map Call.entry) where
  total := by
    rw [counter_after (·.totalQueries) Effect.total? (fun _ => some ()) h
      (fun _ op => by cases op <;> rfl) (Call.shows_total casts)
      (by rcases hfresh with rfl | rfl <;> rfl), List.length_map]
    simp
  blocked := by
    rw [counter_after (·.totalBlocked) Effect.blocked? _ h (fun _ op => by cases op <;> rfl)
      (Call.shows_blocked casts) (by rcases hfresh with rfl | rfl <;> rfl), List.countP_map]
    simp only [isSome_ite]
    rfl
  failed := by
    rw [counter_after (·.totalFailed) Effect.failed? _ h (fun _ op => by cases op <;> rfl)
      (Call.shows_failed casts) (by rcases hfresh with rfl | rfl <;> rfl), List.countP_map]
    simp only [isSome_ite]
    rfl
  types := tally_after (·.byType) Effect.type? (·.qtype) h (fun _ op => by cases op <;> rfl)
    (Call.shows_type casts) (by rcases hfresh with rfl | rfl <;> rfl)
  rcodes := tally_after (·.byRcode) Effect.rcode? (·.rcode) h (fun _ op => by cases op <;> rfl)
    (Call.shows_rcode casts) (by rcases hfresh with rfl | rfl <;> rfl)
  clients := tally_after (·.clientStats) Effect.client? (·.client) h
    (fun _ op => by cases op <;> rfl) (Call.shows_client casts)
    (by rcases hfresh with rfl | rfl <;> rfl)
  upstreams := upstream_after h (by rcases hfresh with rfl | rfl <;> rfl)

/-- After any interleaving of any calls the counters are the numbers of the
entries modulo 2^64, balance below 2^64 calls, and the log is the last entries. -/
theorem statistics_balance {capacity : Nat} (h : Merged (calls.map (Call.steps casts)) history)
    (hfresh : start.Fresh capacity) (hcapacity : 1 ≤ capacity) :
    Counted (history.foldl Effect.apply start) (calls.map Call.entry) ∧
      (calls.length < 2 ^ 64 →
        Balanced (history.foldl Effect.apply start) (calls.map Call.entry)) ∧
      LogKept (history.foldl Effect.apply start) capacity calls history := by
  have hcounted := counted_after h hfresh
  refine ⟨hcounted, ?_, ?_⟩
  · intro hlength
    exact hcounted.balanced (by rwa [List.length_map])
  · obtain ⟨hperm, hlog⟩ := queryLog_after h hcapacity hfresh
    have hlength : (history.filterMap Effect.log?).length = calls.length := by
      rw [hperm.length_eq, List.length_map]
    refine ⟨_, hperm, rfl, ?_⟩
    rw [hlog, hlength]
    congr 1
    omega

end After

private def noCasts : LatencyCasts := ⟨fun _ => 0, fun _ => 0⟩

/-- An entry that is blocked or not, and answered. -/
private def answered (blocked : Bool) : Call where
  entry :=
    { id := "", time := 0, client := .v4 0, domain := "example.com", qtype := "A",
      upstream := "default", originalUpstream := "default", rcode := "NOERROR", latencyMs := 0,
      upstreamLatencyMs := none, rule := none, cached := false, blocked }
  uuid := "1"

theorem statistics_balance_two :
    let history := ([answered true, answered false].map (Call.steps noCasts)).flatten
    Balanced (history.foldl Effect.apply (.new 1)) [(answered true).entry, (answered false).entry] ∧
      (history.foldl Effect.apply (.new 1)).queryLog = [(answered false).entry.withId "1"] :=
  ⟨(statistics_balance (Merged.inTurn ([answered true, answered false].map (Call.steps noCasts)))
      (StatsCollector.fresh_new 1) (Nat.le_refl 1)).2.1 (by decide), rfl⟩

/-- One blocked entry more than 2^64 - 1 others, and there are no queries. -/
private theorem wrapped {n : Nat} (hn : n + 1 = 2 ^ 64) :
    let calls := answered true :: List.replicate n (answered false)
    ¬ Balanced ((calls.map (Call.steps noCasts)).flatten.foldl Effect.apply (.new 1))
      (calls.map Call.entry) := by
  intro calls hbalanced
  have hcounted := counted_after (Merged.inTurn (calls.map (Call.steps noCasts)))
    (StatsCollector.fresh_new 1)
  have htotal := hcounted.total
  have hlength : (calls.map Call.entry).length = 2 ^ 64 := by
    rw [List.length_map, List.length_cons, List.length_replicate, hn]
  have hwrapped : BitVec.ofNat 64 (2 ^ 64) = 0 := rfl
  rw [hlength, hwrapped] at htotal
  have hblocked : 0 < (calls.map Call.entry).countP (·.blocked) :=
    List.countP_pos_iff.mpr ⟨(answered true).entry, List.mem_cons_self, rfl⟩
  have houtcomes := hbalanced.outcomes
  have hzero : (0 : BitVec 64).toNat = 0 := rfl
  rw [htotal, hbalanced.blocked, hzero] at houtcomes
  omega

theorem statistics_wrap :
    ¬ ∀ (casts : LatencyCasts) (start : StatsCollector) (capacity : Nat) (calls : List Call)
      (history : List Effect), Merged (calls.map (Call.steps casts)) history →
      start.Fresh capacity → 1 ≤ capacity →
      Balanced (history.foldl Effect.apply start) (calls.map Call.entry) ∧
        LogKept (history.foldl Effect.apply start) capacity calls history := by
  intro hclaim
  have hn : 2 ^ 64 - 1 + 1 = 2 ^ 64 := by omega
  exact wrapped hn (hclaim noCasts (.new 1) 1 _ _ (Merged.inTurn _)
    (StatsCollector.fresh_new 1) (Nat.le_refl 1)).1

end Relay.Stats
