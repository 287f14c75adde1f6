import Relay.Dns.Message
import Relay.Logic.Tally

/-!
`stats/mod.rs`: the collector of query statistics. `record_query` is a list of
atomic steps: an increment, one entry of a map under its shard's lock, or the
log under its own.
-/

namespace Relay.Stats

open Dns Logic

/-- An `f32`, as its bits. -/
abbrev F32 := BitVec 32

/-- The casts of a latency in milliseconds to `u64`. -/
structure LatencyCasts where
  /-- `(ms * 1000.0) as u64`. -/
  micros : F32 → BitVec 64
  /-- `(ms * 1000.0 * 1000.0) as u64`. -/
  microsX1000 : F32 → BitVec 64

structure QueryEntry where
  id : String
  /-- `DateTime<Utc>`, in nanoseconds. -/
  time : Int
  client : IpAddr
  domain : String
  qtype : String
  upstream : String
  originalUpstream : String
  rcode : String
  latencyMs : F32
  upstreamLatencyMs : Option F32
  rule : Option String
  cached : Bool
  blocked : Bool

/-- `UpstreamStatInner`. -/
structure UpstreamStat where
  queries : BitVec 64
  success : BitVec 64
  failed : BitVec 64
  latencyEma : BitVec 64
  lastLatency : BitVec 64

def UpstreamStat.initial : UpstreamStat := ⟨0, 0, 0, 0, 0⟩

/-- `update_ema`. An exchange that fails changes nothing, so this is the one
that succeeds. -/
def updateEma (current observed : BitVec 64) : BitVec 64 :=
  if current = 0 then observed else observed / 10 + current * 9 / 10

def UpstreamStat.record (stat : UpstreamStat) (success recordAsFailed : Bool)
    (latencyMicros : Option (BitVec 64)) : UpstreamStat where
  queries := stat.queries + 1
  success := if success then stat.success + 1 else stat.success
  failed := if !success && recordAsFailed then stat.failed + 1 else stat.failed
  latencyEma := match latencyMicros with
    | some lat => updateEma stat.latencyEma (lat * 1000)
    | none => stat.latencyEma
  lastLatency := latencyMicros.getD stat.lastLatency

structure StatsCollector where
  totalQueries : BitVec 64
  totalBlocked : BitVec 64
  totalFailed : BitVec 64
  cacheHits : BitVec 64
  hostsHits : BitVec 64
  latencyEma : BitVec 64
  byType : Tally String
  byRcode : Tally String
  upstreamStats : AList fun _ : String => UpstreamStat
  ruleStats : Tally String
  clientStats : Tally IpAddr
  queryLog : List QueryEntry
  queryLogCapacity : Nat
  /-- What went through the channel to the database, if there is one. -/
  logTx : Option (List QueryEntry)

def StatsCollector.new (queryLogCapacity : Nat) : StatsCollector where
  totalQueries := 0
  totalBlocked := 0
  totalFailed := 0
  cacheHits := 0
  hostsHits := 0
  latencyEma := 0
  byType := ∅
  byRcode := ∅
  upstreamStats := ∅
  ruleStats := ∅
  clientStats := ∅
  queryLog := []
  queryLogCapacity := queryLogCapacity
  logTx := none

/-- `attach_persistence`. -/
def StatsCollector.attachPersistence (collector : StatsCollector) : StatsCollector :=
  { collector with logTx := some [] }

/-- The log's `pop_front` when it is full, and its `push_back`. -/
def pushBack (capacity : Nat) (log : List QueryEntry) (entry : QueryEntry) : List QueryEntry :=
  (if log.length ≥ capacity then log.drop 1 else log) ++ [entry]

/-! ### `record_query` -/

/-- One atomic step. -/
inductive Effect where
  | totalQueries
  | totalBlocked
  | totalFailed
  | cacheHits
  | hostsHits
  | latency (observed : BitVec 64)
  | byType (qtype : String)
  | byRcode (rcode : String)
  | client (ip : IpAddr)
  | upstream (key : String) (success recordAsFailed : Bool) (latencyMicros : Option (BitVec 64))
  | rule (name : String)
  | log (entry : QueryEntry)
  | send (entry : QueryEntry)

def Effect.apply (collector : StatsCollector) : Effect → StatsCollector
  | totalQueries => { collector with totalQueries := collector.totalQueries + 1 }
  | totalBlocked => { collector with totalBlocked := collector.totalBlocked + 1 }
  | totalFailed => { collector with totalFailed := collector.totalFailed + 1 }
  | cacheHits => { collector with cacheHits := collector.cacheHits + 1 }
  | hostsHits => { collector with hostsHits := collector.hostsHits + 1 }
  | latency observed =>
      { collector with latencyEma := updateEma collector.latencyEma observed }
  | byType qtype => { collector with byType := collector.byType.bump qtype }
  | byRcode rcode => { collector with byRcode := collector.byRcode.bump rcode }
  | client ip => { collector with clientStats := collector.clientStats.bump ip }
  | upstream key success recordAsFailed latencyMicros =>
      { collector with
        upstreamStats := upsert .initial (·.record success recordAsFailed latencyMicros)
          collector.upstreamStats key }
  | rule name => { collector with ruleStats := collector.ruleStats.bump name }
  | log entry =>
      { collector with
        queryLog := pushBack collector.queryLogCapacity collector.queryLog entry }
  | send entry => { collector with logTx := collector.logTx.map (· ++ [entry]) }

/-- The real failures: not blocked, and neither answered nor empty. -/
def QueryEntry.isFailure (entry : QueryEntry) : Bool :=
  !entry.blocked && entry.rcode != "NOERROR" && entry.rcode != "Empty"

/-- The upstream that `upstream_stats` counts the entry for. -/
def QueryEntry.upstreamKey (entry : QueryEntry) : Option String :=
  let key := entry.originalUpstream
  if key != "" && key != "strategy" && key != "hosts" && key != "dynamic-hosts" then some key
  else none

/-- The entry with an id, a new one where it has none. -/
def QueryEntry.withId (entry : QueryEntry) (uuid : String) : QueryEntry :=
  if entry.id = "" then { entry with id := uuid } else entry

/-- The steps of `record_query`, those it takes of them, with the id that
`Uuid::new_v4` would give. -/
def recordQuery (casts : LatencyCasts) (entry : QueryEntry) (uuid : String) : List Effect :=
  [some .totalQueries,
    if entry.blocked then some .totalBlocked
    else if entry.rcode != "NOERROR" && entry.rcode != "Empty" then some .totalFailed
    else none,
    if entry.cached then some .cacheHits else none,
    if entry.upstream == "hosts" || entry.upstream == "dynamic-hosts" then some .hostsHits
    else none,
    if !entry.blocked then
      entry.upstreamLatencyMs.map fun upLat => .latency (casts.microsX1000 upLat)
    else none,
    some (.byType entry.qtype),
    some (.byRcode entry.rcode),
    some (.client entry.client),
    entry.upstreamKey.map fun key =>
      .upstream key (!entry.blocked && entry.rcode == "NOERROR") entry.isFailure
        (if !entry.blocked then entry.upstreamLatencyMs.map casts.micros else none),
    entry.rule.map .rule,
    some (.log (entry.withId uuid)),
    some (.send (entry.withId uuid))].reduceOption

end Relay.Stats
