import Relay.Dns.Listener
import Relay.Dns.Selection

/-!
The numbers of the panel after a whole run of the listener. Each request is
counted for where it was answered, and the counters add up, in whatever order
the calls of `record_query` take their steps.
-/

namespace Relay.Dns

open Binary Upstream Stats Logic Ruleset Storage

/-- Where the reply to a request comes from. -/
inductive Answerer where
  | strategy
  | cache
  | hosts
  | dynamicHosts
  | upstream (source : Source)
  /-- The request fails. -/
  | nobody
  deriving DecidableEq, Repr

namespace Answerer

/-- The name that is reported. -/
def name : Answerer → String
  | strategy => "strategy"
  | cache => "cache"
  | hosts => "hosts"
  | dynamicHosts => "dynamic-hosts"
  | upstream source => source.upstream
  | nobody => "error"

def rule : Answerer → Option String
  | upstream source => if source.byRule then some source.upstream else none
  | _ => none

/-- A hosts table, or a group with the name of one. -/
def isHosts (answerer : Answerer) : Bool :=
  answerer.name == "hosts" || answerer.name == "dynamic-hosts"

/-- The default group. -/
def isDefault : Answerer → Bool
  | upstream source => !source.byRule
  | _ => false

end Answerer

section

variable (H : HickoryCrate) (U : UnicodeTables) {F : FstCrate} {R : RegexCrate} {C : CacheCrate}

def Router.answerer (router : Router F R C) (env : Env) (request : Message) : Answerer :=
  match request.queries.head? with
  | none => .nobody
  | some query =>
      let name := H.display query.name
      if suppresses router.strategy query.queryType then .strategy
      else if (router.cacheGet U name query.queryType env.lookedUpAt).1.isSome then .cache
      else if (router.hosts.lookup H U name query.queryType request.id).isSome then .hosts
      else if ((env.tables router.dynamicHosts).lookup H U name query.queryType
          request.id).isSome then .dynamicHosts
      else if (router.resolveWithMeta H U env request).1.isOk then .upstream (router.source name)
      else .nobody

/-- The answerer of a request that is reported. -/
def Router.answererOf (router : Router F R C) (m : Meeting) (buf : Bytes) : Option Answerer := do
  let request ← H.fromBytes buf
  match (router.resolveWithMeta H U m.env request).1 with
  | .error .panic => none
  | _ => some (router.answerer H U m.env request)

/-- The request that the event hands to `handle_request`. -/
def DnsTasks.asks (tasks : DnsTasks F R C) : TaskEvent F R C → Option (Meeting × Bytes)
  | .datagram _ bytes m => some (m, bytes.take UDP_BUFFER)
  | .turn c m _ => do
      let conn ← tasks.conns c
      guard conn.isOpen
      let (msg, _) ← unframe (conn.received.drop conn.consumed)
      if msg = [] then none else some (m, msg)
  | _ => none

/-- The tasks, with where their requests were answered. -/
structure Tracked (F : FstCrate) (R : RegexCrate) (C : CacheCrate) where
  tasks : DnsTasks F R C
  answerers : List Answerer := []

/-- One event of the tasks. -/
def Tracked.next (t : Tracked F R C) (e : TaskEvent F R C) : Option (Tracked F R C) :=
  (t.tasks.next H U e).map fun tasks =>
    { tasks := tasks
      answerers := t.answerers ++ ((t.tasks.asks e).bind fun asked =>
        t.tasks.router.answererOf H U asked.1 asked.2).toList }

def TrackedNext (t : Tracked F R C) (e : TaskEvent F R C) (t' : Tracked F R C) : Prop :=
  t.next H U e = some t'

end

variable {H : HickoryCrate} {U : UnicodeTables} {F : FstCrate} {R : RegexCrate} {C : CacheCrate}

/-! ### What is reported of one request -/

/-- The entry of a request that was answered there. -/
structure EntryOf (entry : QueryEntry) (answerer : Answerer) : Prop where
  upstream : entry.upstream = answerer.name
  rule : entry.rule = answerer.rule
  cached : entry.cached = decide (answerer = .cache)
  empty : (entry.rcode == "Empty") = decide (answerer = .strategy)

theorem rcodeName_ne_empty (code : ResponseCode) : (rcodeName code == "Empty") = false := by
  unfold rcodeName
  split <;> rfl

theorem entryOf_upstream (peer : IpAddr) (m : Meeting) (source : Source) (rcode : Bool)
    (name : String) (qtype : RecordType) (response : Message) :
    EntryOf (answeredEntry peer m (sourceMeta H U source rcode name qtype response))
      (.upstream source) :=
  ⟨rfl, rfl, rfl, rcodeName_ne_empty _⟩

theorem Router.answerFromUpstream_entry {router : Router F R C} {env : Env} {request : Message}
    {name : String} {qtype : RecordType} {response : Message} {info : ResolveMeta}
    (h : (router.answerFromUpstream H U env request name qtype).1 = .ok (response, info)) :
    ∃ rcode, info = sourceMeta H U (router.source name) rcode name qtype response := by
  obtain ⟨_, ⟨⟨e, he⟩, _⟩ | ⟨_, _, _, _, hok, _⟩⟩ :=
    router.answerFromUpstream_cases (H := H) (U := U) env request name qtype
  · rw [he] at h
    cases h
  · rw [hok] at h
    cases h
    exact ⟨_, rfl⟩

/-- What is reported of a request is an entry of its answerer. -/
theorem Router.answerer_reported (router : Router F R C) (m : Meeting) (peer : IpAddr)
    {request : Message} {entry : QueryEntry}
    (h : reportOf H U peer m request (router.resolveWithMeta H U m.env request).1 = some entry) :
    EntryOf entry (router.answerer H U m.env request) := by
  cases hquery : request.queries.head? with
  | none =>
      have hresult : (router.resolveWithMeta H U m.env request).1 = fail .emptyQuery := by
        unfold Router.resolveWithMeta
        rw [hquery]
      rw [hresult] at h
      cases h
      unfold Router.answerer
      rw [hquery]
      exact ⟨rfl, rfl, rfl, rfl⟩
  | some query =>
      unfold Router.answerer
      rw [hquery]
      dsimp only
      cases hsuppressed : suppresses router.strategy query.queryType with
      | true =>
          rw [Router.resolve_suppressed hquery hsuppressed] at h
          cases h
          exact ⟨rfl, rfl, rfl, rfl⟩
      | false =>
          rw [if_neg Bool.false_ne_true]
          cases hget : (router.cacheGet U (H.display query.name) query.queryType
              m.env.lookedUpAt).1 with
          | some hit =>
              rw [Router.resolve_cached hquery hsuppressed hget] at h
              cases h
              exact ⟨rfl, rfl, rfl, rcodeName_ne_empty _⟩
          | none =>
              rw [Option.isSome_none, if_neg Bool.false_ne_true]
              cases hstatic : router.hosts.lookup H U (H.display query.name) query.queryType
                  request.id with
              | some response =>
                  rw [Router.resolve_static hquery hsuppressed hget hstatic] at h
                  cases h
                  exact ⟨rfl, rfl, rfl, rcodeName_ne_empty _⟩
              | none =>
                  rw [Option.isSome_none, if_neg Bool.false_ne_true]
                  cases hdynamic : (m.env.tables router.dynamicHosts).lookup H U
                      (H.display query.name) query.queryType request.id with
                  | some response =>
                      rw [Router.resolve_dynamic hquery hsuppressed hget hstatic hdynamic] at h
                      cases h
                      exact ⟨rfl, rfl, rfl, rcodeName_ne_empty _⟩
                  | none =>
                      rw [Option.isSome_none, if_neg Bool.false_ne_true]
                      have hforward : router.resolveWithMeta H U m.env request =
                          (router.cacheGet U (H.display query.name) query.queryType
                            m.env.lookedUpAt).2.answerFromUpstream H U m.env request
                              (H.display query.name) query.queryType :=
                        Router.resolve_forwarded hquery hsuppressed (Prod.ext hget rfl) hstatic
                          hdynamic
                      have hkeeps := router.keeps_cacheGet (U := U) (H.display query.name)
                        query.queryType m.env.lookedUpAt
                      cases hresult : (router.resolveWithMeta H U m.env request).1 with
                      | ok answer =>
                          obtain ⟨response, info⟩ := answer
                          rw [hresult] at h
                          cases h
                          rw [hforward] at hresult
                          obtain ⟨rcode, rfl⟩ := Router.answerFromUpstream_entry hresult
                          rw [hkeeps.source]
                          exact entryOf_upstream peer m _ rcode _ _ response
                      | error fault =>
                          rw [hresult] at h
                          cases fault with
                          | panic => cases h
                          | error e =>
                              cases h
                              exact ⟨rfl, rfl, rfl, rfl⟩

/-- The report of `handle_request`, with its answerer. -/
theorem handleRequest_reported (router : Router F R C) (m : Meeting) (peer : IpAddr) (buf : Bytes) :
    List.Forall₂ EntryOf (handleRequest H U router m peer buf).2.2.toList
      (router.answererOf H U m buf).toList := by
  unfold handleRequest Router.answererOf
  cases hparse : H.fromBytes buf with
  | none => exact .nil
  | some request =>
      have hentry := @Router.answerer_reported H U F R C router m peer request
      dsimp only
      rw [Option.bind_eq_bind, Option.bind_some]
      cases hresult : (router.resolveWithMeta H U m.env request).1 with
      | ok answer =>
          rw [hresult] at hentry
          exact .cons (hentry rfl) .nil
      | error fault =>
          rw [hresult] at hentry
          cases fault with
          | panic => exact .nil
          | error e => exact .cons (hentry rfl) .nil

/-! ### What a run reports -/

/-- The entries, in order, are those of the answerers. -/
def Tracked.Aligned (t : Tracked F R C) : Prop :=
  List.Forall₂ EntryOf (t.tasks.calls.map Call.entry) t.answerers

theorem DnsTasks.handled_entries (tasks : DnsTasks F R C) (router : Router F R C)
    (report : Option QueryEntry) (m : Meeting) :
    (tasks.handled router report m).calls.map Call.entry =
      tasks.calls.map Call.entry ++ report.toList := by
  unfold DnsTasks.handled
  cases report <;> simp

/-- What the tasks hold besides the connections after an event. -/
theorem DnsTasks.next_calls {tasks tasks' : DnsTasks F R C} {e : TaskEvent F R C}
    (h : tasks.next H U e = some tasks') :
    match tasks.asks e with
    | some (m, buf) => ∃ peer, tasks'.calls.map Call.entry = tasks.calls.map Call.entry ++
        (handleRequest H U tasks.router m peer buf).2.2.toList
    | none => tasks'.calls = tasks.calls := by
  cases e with
  | datagram peer bytes m =>
      simp only [DnsTasks.next] at h
      have hentries := tasks.handled_entries
        (handleRequest H U tasks.router m peer.ip (bytes.take UDP_BUFFER)).2.1
        (handleRequest H U tasks.router m peer.ip (bytes.take UDP_BUFFER)).2.2 m
      refine ⟨peer.ip, ?_⟩
      split at h
      · rw [← Option.some.inj h]
        exact hentries
      · rw [← Option.some.inj h]
        exact hentries
  | accept c peer =>
      unfold DnsTasks.next at h
      dsimp only at h
      split at h
      · cases h
      · cases h
        rfl
  | receive c bytes =>
      obtain ⟨conn, hconn, hnext⟩ := Option.bind_eq_some_iff.mp h
      cases hnext
      rfl
  | close c =>
      obtain ⟨conn, hconn, hnext⟩ := Option.bind_eq_some_iff.mp h
      cases hnext
      rfl
  | shared router =>
      cases h
      rfl
  | turn c m cut =>
      obtain ⟨conn, hconn, hnext⟩ := Option.bind_eq_some_iff.mp h
      obtain ⟨_, hopen, hnext⟩ := Option.bind_eq_some_iff.mp hnext
      obtain ⟨⟨msg, rest⟩, hunframe, hnext⟩ := Option.bind_eq_some_iff.mp hnext
      unfold DnsTasks.asks
      simp only [hconn, hopen, hunframe, Option.bind_eq_bind, Option.bind_some]
      dsimp only at hnext
      split at hnext
      · rename_i hempty
        cases hnext
        rw [if_pos hempty]
        rfl
      · rename_i hmessage
        rw [if_neg hmessage]
        have hentries := tasks.handled_entries
          (handleRequest H U tasks.router m conn.peer.ip msg).2.1
          (handleRequest H U tasks.router m conn.peer.ip msg).2.2 m
        refine ⟨conn.peer.ip, ?_⟩
        rw [← Option.some.inj hnext]
        exact hentries

theorem TrackedNext.aligned {t t' : Tracked F R C} {e : TaskEvent F R C} (h : t.Aligned)
    (hstep : TrackedNext H U t e t') : t'.Aligned := by
  obtain ⟨tasks, hnext, rfl⟩ := Option.map_eq_some_iff.mp hstep
  have hcalls := DnsTasks.next_calls hnext
  unfold Tracked.Aligned
  dsimp only
  cases hasks : t.tasks.asks e with
  | none =>
      rw [hasks] at hcalls
      rw [hcalls, Option.bind_none, Option.toList_none, List.append_nil]
      exact h
  | some asked =>
      obtain ⟨m, buf⟩ := asked
      rw [hasks] at hcalls
      obtain ⟨peer, hcalls⟩ := hcalls
      rw [hcalls]
      exact List.rel_append h (handleRequest_reported t.tasks.router m peer buf)

theorem Tracked.aligned_run {router : Router F R C} {events : List (TaskEvent F R C)}
    {t : Tracked F R C}
    (run : Steps (TrackedNext H U) { tasks := { router := router } } events t) : t.Aligned :=
  have hstart : Tracked.Aligned { tasks := { router := router } } := .nil
  run.invariant hstart fun _ _ _ h hstep => TrackedNext.aligned h hstep

/-! ### What the counters come to -/

theorem countP_aligned {α β : Type} {related : α → β → Prop} {xs : List α} {ys : List β}
    (h : List.Forall₂ related xs ys) {p : α → Bool} {q : β → Bool}
    (hsame : ∀ x y, related x y → p x = q y) : xs.countP p = ys.countP q := by
  induction h with
  | nil => rfl
  | cons hxy _ ih => rw [List.countP_cons, List.countP_cons, ih, hsame _ _ hxy]

section Counters

variable {casts : LatencyCasts} {start : StatsCollector} {calls : List Stats.Call}
  {history : List Effect}

def cacheHit? : Effect → Option Unit
  | .cacheHits => some ()
  | _ => none

def hostsHit? : Effect → Option Unit
  | .hostsHits => some ()
  | _ => none

def rule? : Effect → Option String
  | .rule name => some name
  | _ => none

theorem shows_cacheHit (call : Stats.Call) :
    (call.steps casts).filterMap cacheHit? =
      (if call.entry.cached then some () else none).toList := by
  rw [Call.steps_seen]
  simp only [cacheHit?, Option.bind_fun_none, ite_self]
  cases call.entry.cached <;> rfl

theorem shows_hostsHit (call : Stats.Call) :
    (call.steps casts).filterMap hostsHit? =
      (if call.entry.upstream == "hosts" || call.entry.upstream == "dynamic-hosts" then some ()
        else none).toList := by
  rw [Call.steps_seen]
  simp only [hostsHit?, Option.bind_fun_none, ite_self]
  cases call.entry.upstream == "hosts" || call.entry.upstream == "dynamic-hosts" <;> rfl

theorem shows_rule (call : Stats.Call) :
    (call.steps casts).filterMap rule? = call.entry.rule.toList := by
  rw [Call.steps_seen]
  simp only [rule?, Option.bind_fun_none, ite_self]
  cases call.entry.rule <;> rfl

/-- A counter that some of the entries increment. -/
theorem flagged_after (read : StatsCollector → BitVec 64) (seen : Effect → Option Unit)
    (counted : QueryEntry → Bool) (h : Merged (calls.map (Call.steps casts)) history)
    (hstep : ∀ s op, read (Effect.apply s op) =
      ((seen op).map (fun _ => read s + 1)).getD (read s))
    (hshown : ∀ call : Stats.Call, (call.steps casts).filterMap seen =
      (if counted call.entry then some () else none).toList)
    (hstart : read start = 0) (hlength : calls.length < 2 ^ 64) :
    (read (history.foldl Effect.apply start)).toNat =
      (calls.map Call.entry).countP counted := by
  have hcount : (calls.countP fun call =>
      (if counted call.entry then some () else none : Option Unit).isSome) =
      (calls.map Call.entry).countP counted := by
    rw [List.countP_map]
    apply List.countP_congr
    intro call _
    cases hcounted : counted call.entry <;> simp [hcounted]
  have hle : (calls.map Call.entry).countP counted ≤ calls.length := by
    rw [← List.length_map (f := Call.entry)]
    exact List.countP_le_length
  rw [counter_after read seen _ h hstep hshown hstart, hcount, BitVec.toNat_ofNat,
    Nat.mod_eq_of_lt (by omega)]

theorem rules_after (h : Merged (calls.map (Call.steps casts)) history)
    (hstart : start.ruleStats = ∅) :
    ∃ keys : List String, keys.Perm ((calls.map Call.entry).filterMap (·.rule)) ∧
      (history.foldl Effect.apply start).ruleStats = keys.foldl Tally.bump ∅ := by
  refine ⟨history.filterMap rule?, ?_, ?_⟩
  · have hperm := h.observed rule? shows_rule
    rwa [List.filterMap_map]
  · rw [foldl_component StatsCollector.ruleStats rule? Tally.bump
      (fun _ op => by cases op <;> rfl), hstart]

end Counters

/-! ### The numbers of the panel -/

/-- The counters, as numbers of requests. -/
structure Numbers (collector : StatsCollector) (answerers : List Answerer) : Prop where
  total : collector.totalQueries.toNat = answerers.length
  cacheHits : collector.cacheHits.toNat = answerers.count .cache
  hostsHits : collector.hostsHits.toNat = answerers.countP (·.isHosts)
  empty : ((collector.byRcode.lookup "Empty").getD 0).toNat = answerers.count .strategy
  rules : ∀ name, ((collector.ruleStats.lookup name).getD 0).toNat =
    answerers.count (.upstream ⟨name, true⟩)
  parts : collector.totalQueries.toNat =
    collector.cacheHits.toNat + ((collector.byRcode.lookup "Empty").getD 0).toNat +
      collector.ruleStats.total + answerers.count .hosts + answerers.count .dynamicHosts +
      answerers.countP (·.isDefault) + answerers.count .nobody

/-- Each answerer is one of the parts. -/
theorem length_answerers (answerers : List Answerer) :
    answerers.length = answerers.count .cache + answerers.count .strategy +
      answerers.countP (·.rule.isSome) + answerers.count .hosts + answerers.count .dynamicHosts +
      answerers.countP (·.isDefault) + answerers.count .nobody := by
  induction answerers with
  | nil => rfl
  | cons answerer answerers ih =>
      simp only [List.length_cons, List.count_cons, List.countP_cons]
      rw [ih]
      cases answerer with
      | upstream source =>
          cases hrule : source.byRule with
          | false =>
              simp [Answerer.rule, Answerer.isDefault, hrule]
              omega
          | true =>
              simp [Answerer.rule, Answerer.isDefault, hrule]
              omega
      | _ =>
          simp [Answerer.rule, Answerer.isDefault]
          omega

theorem rule_eq_some {answerer : Answerer} {name : String} :
    (answerer.rule == some name) = decide (answerer = .upstream ⟨name, true⟩) := by
  rw [Bool.beq_eq_decide_eq]
  apply decide_eq_decide.mpr
  cases answerer with
  | upstream source =>
      obtain ⟨upstream, byRule⟩ := source
      cases byRule <;> simp [Answerer.rule]
  | _ => simp [Answerer.rule]

/-- After any run of the listener, and any interleaving of the calls it makes,
each request is counted once, for where it was answered. -/
theorem requests_counted_once {router : Router F R C} {events : List (TaskEvent F R C)}
    {t : Tracked F R C} (run : Steps (TrackedNext H U) { tasks := { router := router } } events t)
    {casts : LatencyCasts} {history : List Effect}
    (hmerged : Merged (t.tasks.calls.map (Call.steps casts)) history)
    {start : StatsCollector} {capacity : Nat} (hfresh : start.Fresh capacity)
    (hlength : t.tasks.calls.length < 2 ^ 64) :
    Numbers (history.foldl Effect.apply start) t.answerers := by
  have haligned : List.Forall₂ EntryOf (t.tasks.calls.map Call.entry) t.answerers :=
    Tracked.aligned_run run
  have hentries : (t.tasks.calls.map Call.entry).length < 2 ^ 64 := by rwa [List.length_map]
  have hsmall : ∀ counted : QueryEntry → Bool,
      (BitVec.ofNat 64 ((t.tasks.calls.map Call.entry).countP counted)).toNat =
        (t.tasks.calls.map Call.entry).countP counted := by
    intro counted
    have hle := @List.countP_le_length _ counted (t.tasks.calls.map Call.entry)
    rw [BitVec.toNat_ofNat, Nat.mod_eq_of_lt (by omega)]
  have htotal : (history.foldl Effect.apply start).totalQueries.toNat = t.answerers.length := by
    rw [(counted_after hmerged hfresh).total, BitVec.toNat_ofNat, Nat.mod_eq_of_lt hentries,
      haligned.length_eq]
  have hcache : (history.foldl Effect.apply start).cacheHits.toNat = t.answerers.count .cache := by
    rw [flagged_after (·.cacheHits) cacheHit? (·.cached) hmerged
      (fun _ op => by cases op <;> rfl) shows_cacheHit
      (by rcases hfresh with rfl | rfl <;> rfl) hlength]
    exact countP_aligned haligned fun entry answerer hentry => by rw [hentry.cached]; rfl
  have hhosts : (history.foldl Effect.apply start).hostsHits.toNat =
      t.answerers.countP (·.isHosts) := by
    rw [flagged_after (·.hostsHits) hostsHit?
      (fun e => e.upstream == "hosts" || e.upstream == "dynamic-hosts") hmerged
      (fun _ op => by cases op <;> rfl) shows_hostsHit
      (by rcases hfresh with rfl | rfl <;> rfl) hlength]
    exact countP_aligned haligned fun entry answerer hentry => by rw [hentry.upstream]; rfl
  have hempty : (((history.foldl Effect.apply start).byRcode.lookup "Empty").getD 0).toNat =
      t.answerers.count .strategy := by
    obtain ⟨keys, hperm, hrcodes⟩ := (counted_after hmerged hfresh).rcodes
    have hcount : keys.count "Empty" =
        (t.tasks.calls.map Call.entry).countP (·.rcode == "Empty") := by
      rw [hperm.count_eq, List.count, List.countP_map]
      rfl
    rw [hrcodes, Tally.lookup_bumps, hcount, hsmall]
    exact countP_aligned haligned fun entry answerer hentry => by rw [hentry.empty]; rfl
  obtain ⟨rules, hperm, hrules⟩ := rules_after hmerged
    (by rcases hfresh with rfl | rfl <;> rfl : start.ruleStats = ∅)
  have hruleLength : rules.length = t.answerers.countP (·.rule.isSome) := by
    rw [hperm.length_eq, List.length_filterMap_eq_countP]
    exact countP_aligned haligned fun entry answerer hentry => by rw [hentry.rule]
  have hruleSum : (history.foldl Effect.apply start).ruleStats.total =
      t.answerers.countP (·.rule.isSome) := by
    have hle := @List.countP_le_length _ (fun a : Answerer => a.rule.isSome) t.answerers
    have hanswerers := haligned.length_eq
    rw [hrules, Tally.total_bumps_of_lt (by omega), hruleLength]
  refine ⟨htotal, hcache, hhosts, hempty, ?_, ?_⟩
  · intro name
    have hcount : rules.count name =
        (t.tasks.calls.map Call.entry).countP (·.rule == some name) := by
      rw [hperm.count_eq, List.count_filterMap]
    rw [hrules, Tally.lookup_bumps, hcount, hsmall]
    exact countP_aligned haligned fun entry answerer hentry => by
      rw [hentry.rule, rule_eq_some]
      rfl
  · rw [htotal, hcache, hempty, hruleSum, length_answerers]

/-- The same request twice: the second is answered from the cache. -/
def sameTwice : List (TaskEvent listFst literalRegex listLru) :=
  let asked : TaskEvent listFst literalRegex listLru :=
    .datagram ⟨.v4 0xc0000263, 5300⟩ ((questionCodec.toVec sampleRequest).getD [])
      ⟨silentEnv, 0, 0, 0, ""⟩
  [asked, asked]

theorem requests_counted_once_twice :
    ∃ t, Steps (TrackedNext questionCodec asciiTables)
        { tasks := { router := refusingRouter [] } } sameTwice t ∧
      t.answerers = [.upstream ⟨"default", false⟩, .cache] ∧
      Numbers ((t.tasks.calls.map (Call.steps ⟨fun _ => 0, fun _ => 0⟩)).flatten.foldl
        Effect.apply (.new 1000)) t.answerers := by
  have hrun : (sameTwice.foldlM (Tracked.next questionCodec asciiTables)
      { tasks := { router := refusingRouter [] } }).any (fun t =>
        t.answerers = [.upstream ⟨"default", false⟩, .cache] && t.tasks.calls.length = 2) =
      true := rfl
  obtain ⟨t, hfold, hboth⟩ := (Option.any_eq_true _ _).mp hrun
  rw [Bool.and_eq_true] at hboth
  have hcalls : t.tasks.calls.length = 2 := of_decide_eq_true hboth.2
  refine ⟨t, .of_foldlM hfold, of_decide_eq_true hboth.1, ?_⟩
  exact requests_counted_once (.of_foldlM hfold) (Merged.inTurn _)
    (StatsCollector.fresh_new 1000) (by omega)

end Relay.Dns
