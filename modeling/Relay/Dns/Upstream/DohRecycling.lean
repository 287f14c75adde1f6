import Relay.Dns.Upstream.Doh
import Relay.Dns.Wire

/-!
The shared HTTP client over every run of overlapping queries: how often it is
replaced, and which client a later query is sent on.
-/

namespace Relay.Dns.Upstream

open Binary Logic

variable {H : HickoryCrate} {U : UrlCrate} {trace : List DohEvent} {s s' : DohState}
  {e : DohEvent} {i now : Nat} {request : Message}

/-! ### The cooldown -/

/-- The client is from at most one cooldown before then. -/
def ReplacedNear (lastReset : Option Nat) (now : Nat) : Prop :=
  ∃ t, lastReset = some t ∧ now < t + resetCooldown

theorem ReplacedNear.of_isRecent {lastReset : Option Nat} (h : isRecent lastReset now = true) :
    ReplacedNear lastReset now := by
  cases lastReset with
  | none => cases h
  | some t =>
      have hlt : now - t < resetCooldown := by simpa [isRecent] using h
      exact ⟨t, rfl, by omega⟩

theorem ReplacedNear.later {t : Nat} (hle : t ≤ now) :
    ReplacedNear (some now) t := by
  have hpos : 0 < resetCooldown := by simp [resetCooldown]
  exact ⟨now, rfl, by omega⟩

theorem cooldown_le {t : Nat} (h : isRecent (some t) now = false) : t + resetCooldown ≤ now := by
  have hpos : 0 < resetCooldown := by simp [resetCooldown]
  have hle : resetCooldown ≤ now - t := by simpa [isRecent] using h
  omega

/-! ### The invariant -/

/-- What a phase says about the run and the lock. -/
def DohPhase.Timed (H : HickoryCrate) (trace : List DohEvent) (s : DohState) (i : Nat)
    (request : Message) : DohPhase → Prop
  | .swapping lockedAt =>
      s.writer = some i ∧ lockedAt ∈ readings trace ∧ isRecent s.lastReset lockedAt = false
  | .recycled outcome now =>
      now ∈ readings trace ∧ (outcome ≠ .buildFailed → ReplacedNear s.lastReset now)
  | .answered response =>
      ∃ body decoded, .respond i 200 (some body) ∈ trace ∧ body ≠ [] ∧
        H.fromBytes body = some decoded ∧ response = { decoded with id := request.id }
  | .posting _ _ | .testing | .waiting | .failed _ | .dropped => True

structure DohState.Timed (H : HickoryCrate) (trace : List DohEvent) (s : DohState) : Prop where
  spaced : (swapTimes trace).Pairwise fun t u => t + resetCooldown ≤ u
  last : (swapTimes trace).getLast? = s.lastReset
  client : s.client.installedAt = s.lastReset
  held : ∀ i, s.writer = some i →
    ∃ task, s.tasks[i]? = some task ∧ task.phase.isSwapping = true
  tasks : ∀ i (task : DohTask), s.tasks[i]? = some task →
    task.phase.Timed H trace s i task.request

theorem readings_append (trace : List DohEvent) (e : DohEvent) :
    readings (trace ++ [e]) = readings trace ++ e.reading?.toList := by
  unfold readings
  rw [List.filterMap_append]
  cases e <;> rfl

theorem swapTimes_append (trace : List DohEvent) (e : DohEvent) :
    swapTimes (trace ++ [e]) = swapTimes trace ++ e.swapped?.toList := by
  unfold swapTimes
  rw [List.filterMap_append]
  cases e <;> rfl

theorem swapTimes_quiet (h : e.swapped? = none) (trace : List DohEvent) :
    swapTimes (trace ++ [e]) = swapTimes trace := by
  rw [swapTimes_append, h]
  exact List.append_nil _

theorem DohClocked.first {before after : List DohEvent} (h : DohClocked (before ++ after)) :
    DohClocked before := by
  unfold DohClocked readings at h
  rw [List.filterMap_append] at h
  exact (List.pairwise_append.mp h).1

/-- A step reads no earlier time than the steps before it. -/
theorem DohClocked.reading_le {t : Nat} (h : DohClocked (trace ++ [e]))
    (hreading : e.reading? = some now) (ht : t ∈ readings trace) : t ≤ now := by
  unfold DohClocked at h
  rw [readings_append, hreading] at h
  exact (List.pairwise_append.mp h).2.2 t ht now (by simp)

theorem readings_mono {t : Nat} (h : t ∈ readings trace) (e : DohEvent) :
    t ∈ readings (trace ++ [e]) := by
  rw [readings_append]
  exact List.mem_append_left _ h

theorem mem_readings_last (h : e.reading? = some now) : now ∈ readings (trace ++ [e]) := by
  rw [readings_append, h]
  simp

/-! ### One step -/

/-- A phase stays as it is where its lock, if it has one, is left alone. -/
theorem DohPhase.Timed.frame {phase : DohPhase} (h : phase.Timed H trace s i request)
    (e : DohEvent)
    (hlock : s.writer = some i → s'.writer = some i ∧ s'.lastReset = s.lastReset)
    (hnear : ∀ t ∈ readings trace, ReplacedNear s.lastReset t → ReplacedNear s'.lastReset t) :
    phase.Timed H (trace ++ [e]) s' i request := by
  cases phase with
  | swapping lockedAt =>
      obtain ⟨hwriter, hreading, hold⟩ := h
      obtain ⟨hwriter', hreset⟩ := hlock hwriter
      exact ⟨hwriter', readings_mono hreading e, by rw [hreset]; exact hold⟩
  | recycled outcome now =>
      obtain ⟨hreading, hreplaced⟩ := h
      exact ⟨readings_mono hreading e, fun hne => hnear now hreading (hreplaced hne)⟩
  | answered response =>
      obtain ⟨body, decoded, hmem, hfacts⟩ := h
      exact ⟨body, decoded, List.mem_append_left _ hmem, hfacts⟩
  | _ => trivial

theorem DohPhase.Settled.timed {phase : DohPhase} (h : phase.Settled H s i request e)
    (hreset : s'.lastReset = s.lastReset) : phase.Timed H (trace ++ [e]) s' i request := by
  cases phase with
  | posting dohUrl wire => trivial
  | swapping lockedAt => exact h.elim
  | answered response =>
      obtain ⟨body, decoded, rfl, hfacts⟩ := h
      exact ⟨body, decoded, by simp, hfacts⟩
  | recycled outcome now =>
      obtain ⟨hreading, hrecent⟩ := h
      refine ⟨mem_readings_last hreading, fun hne => ?_⟩
      rw [hreset]
      exact .of_isRecent (hrecent hne)
  | _ => trivial

theorem startQuery_timed (url : String) :
    (startQuery H U url request).Timed H trace s i request := by
  unfold startQuery
  split
  · trivial
  · split <;> trivial

/-- The task that holds the lock is its writer. -/
theorem DohState.Timed.writer (h : s.Timed H trace) {task : DohTask}
    (hplace : s.tasks[i]? = some task) {lockedAt : Nat} (hphase : task.phase = .swapping lockedAt) :
    s.writer = some i ∧ lockedAt ∈ readings trace ∧ isRecent s.lastReset lockedAt = false := by
  have htimed := h.tasks i task hplace
  rw [hphase] at htimed
  exact htimed

/-- A replacement comes a cooldown after all others when the lock's test found
the latest one old enough. -/
theorem DohState.Timed.spaced_swap (h : s.Timed H trace) {lockedAt : Nat}
    (hold : isRecent s.lastReset lockedAt = false) (hle : lockedAt ≤ now) :
    (swapTimes trace ++ [now]).Pairwise fun t u => t + resetCooldown ≤ u := by
  refine List.pairwise_append.mpr ⟨h.spaced, List.pairwise_singleton _ _, ?_⟩
  intro t ht u hu
  cases List.mem_singleton.mp hu
  have hlast : t ≤ (swapTimes trace).getLast (List.ne_nil_of_mem ht) := by
    rw [List.getLast_eq_getElem]
    obtain ⟨n, hn, rfl⟩ := List.getElem_of_mem ht
    rcases Nat.lt_or_ge n ((swapTimes trace).length - 1) with hlt | hge
    · have := List.pairwise_iff_getElem.mp h.spaced n _ hn (by omega) hlt
      omega
    · have heq : n = (swapTimes trace).length - 1 := by omega
      simp [← heq]
  have hreset := h.last
  rw [List.getLast?_eq_some_getLast (List.ne_nil_of_mem ht)] at hreset
  rw [← hreset] at hold
  have hcooldown := cooldown_le hold
  omega

/-- All tasks after a step on one of them: it is as told, the others as before. -/
theorem timed_set {tasks : List DohTask} {task : DohTask} {phase : DohPhase}
    {P : Nat → DohTask → Prop} (hplace : tasks[i]? = some task)
    (hself : P i { task with phase := phase })
    (hothers : ∀ j other, j ≠ i → tasks[j]? = some other → P j other) :
    ∀ j other, (tasks.set i { task with phase := phase })[j]? = some other → P j other := by
  intro j other hother
  obtain ⟨hlt, _⟩ := List.getElem?_eq_some_iff.mp hplace
  by_cases hj : j = i
  · subst hj
    rw [List.getElem?_set_self hlt] at hother
    cases hother
    exact hself
  · rw [List.getElem?_set_ne (Ne.symm hj)] at hother
    exact hothers j other hj hother

theorem held_set {tasks : List DohTask} {task : DohTask} {phase : DohPhase} {writer : Option Nat}
    (hplace : tasks[i]? = some task) (outside : task.phase.isSwapping = false)
    (held : ∀ j, writer = some j →
      ∃ task, tasks[j]? = some task ∧ task.phase.isSwapping = true) :
    ∀ j, writer = some j → ∃ other,
      (tasks.set i { task with phase := phase })[j]? = some other ∧
        other.phase.isSwapping = true := by
  intro j hwriter
  obtain ⟨other, hother, hswapping⟩ := held j hwriter
  have hne : i ≠ j := by
    rintro rfl
    rw [hplace] at hother
    cases hother
    rw [outside] at hswapping
    cases hswapping
  exact ⟨other, by rw [List.getElem?_set_ne hne, hother], hswapping⟩

theorem DohState.Timed.step (h : s.Timed H trace) (clocked : DohClocked (trace ++ [e]))
    (change : DohChange H U s e s') : s'.Timed H (trace ++ [e]) := by
  cases change with
  | began url request =>
      refine ⟨?_, ?_, h.client, ?_, ?_⟩
      · rw [swapTimes_quiet rfl]
        exact h.spaced
      · rw [swapTimes_quiet rfl]
        exact h.last
      · intro i hwriter
        obtain ⟨task, hplace, hswapping⟩ := h.held i hwriter
        obtain ⟨hlt, _⟩ := List.getElem?_eq_some_iff.mp hplace
        exact ⟨task, by rw [List.getElem?_append_left hlt, hplace], hswapping⟩
      · intro i task hplace
        rcases Nat.lt_or_ge i s.tasks.length with hlt | hge
        · rw [List.getElem?_append_left hlt] at hplace
          exact (h.tasks i task hplace).frame _ (fun hwriter => ⟨hwriter, rfl⟩) (fun _ _ h => h)
        · rw [List.getElem?_append_right hge, List.getElem?_singleton] at hplace
          cases (Option.ite_none_right_eq_some.mp hplace).2
          exact startQuery_timed url
  | @settled _ i task phase place outside quiet fits =>
      refine ⟨?_, ?_, h.client, held_set place outside h.held, ?_⟩
      · rw [swapTimes_quiet quiet]
        exact h.spaced
      · rw [swapTimes_quiet quiet]
        exact h.last
      · refine timed_set place (fits.timed rfl) fun j other _ hother => ?_
        exact (h.tasks j other hother).frame _ (fun hwriter => ⟨hwriter, rfl⟩) (fun _ _ h => h)
  | @locked i now task place outside free old =>
      refine ⟨?_, ?_, h.client, ?_, ?_⟩
      · rw [swapTimes_quiet rfl]
        exact h.spaced
      · rw [swapTimes_quiet rfl]
        exact h.last
      · rintro j hwriter
        cases hwriter
        obtain ⟨hlt, _⟩ := List.getElem?_eq_some_iff.mp place
        exact ⟨_, List.getElem?_set_self hlt, rfl⟩
      · refine timed_set place ⟨rfl, mem_readings_last rfl, old⟩ fun j other _ hother => ?_
        refine (h.tasks j other hother).frame _ (fun hwriter => ?_) (fun _ _ h => h)
        rw [free] at hwriter
        cases hwriter
  | @swapped i lockedAt now task place holds =>
      obtain ⟨hwriter, hreading, hold⟩ := h.writer place holds
      have hle : lockedAt ≤ now := clocked.reading_le rfl hreading
      refine ⟨?_, ?_, rfl, ?_, ?_⟩
      · rw [swapTimes_append]
        exact h.spaced_swap hold hle
      · rw [swapTimes_append]
        exact List.getLast?_concat
      · intro j hj
        cases hj
      · refine timed_set place ⟨mem_readings_last rfl, fun _ => .later (Nat.le_refl now)⟩
          fun j other hne hother => ?_
        refine (h.tasks j other hother).frame _ (fun hj => ?_) fun t ht _ =>
          .later (clocked.reading_le rfl ht)
        exact absurd (Option.some.inj (hj.symm.trans hwriter)) hne
  | @released i lockedAt task place holds =>
      obtain ⟨hwriter, _, _⟩ := h.writer place holds
      refine ⟨?_, ?_, h.client, ?_, ?_⟩
      · rw [swapTimes_quiet rfl]
        exact h.spaced
      · rw [swapTimes_quiet rfl]
        exact h.last
      · intro j hj
        cases hj
      · refine timed_set place trivial fun j other hne hother => ?_
        refine (h.tasks j other hother).frame _ (fun hj => ?_) (fun _ _ h => h)
        exact absurd (Option.some.inj (hj.symm.trans hwriter)) hne

/-! ### Whole runs -/

theorem DohState.Timed.run (run : Steps (fun s e t => s.next H U e = some t) {} trace s)
    (clocked : DohClocked trace) : s.Timed H trace := by
  induction run with
  | done => exact ⟨.nil, rfl, rfl, (fun _ h => by cases h), (fun _ _ h => by cases h)⟩
  | next _ hstep ih => exact (ih clocked.first).step clocked (next_change hstep)

/-- From then on the client is from at most one cooldown before `now`, and so
are those of the tasks from the `n`-th. -/
structure DohState.Healed (n now : Nat) (s : DohState) : Prop where
  near : ReplacedNear s.lastReset now
  client : s.client.installedAt = s.lastReset
  length : n ≤ s.tasks.length
  tasks : ∀ j (task : DohTask), n ≤ j → s.tasks[j]? = some task →
    ReplacedNear task.client.installedAt now

theorem DohState.Healed.setPhase {n : Nat} (h : s.Healed n now) {task : DohTask}
    (hplace : s.tasks[i]? = some task) (phase : DohPhase) :
    (s.setPhase i task phase).Healed n now := by
  refine ⟨h.near, h.client, by simpa [DohState.setPhase] using h.length, ?_⟩
  have htasks : ∀ j (other : DohTask), (s.setPhase i task phase).tasks[j]? = some other →
      n ≤ j → ReplacedNear other.client.installedAt now :=
    timed_set hplace (fun hi => h.tasks i task hi hplace)
      fun j other _ hother hj => h.tasks j other hj hother
  exact fun j other hj hother => htasks j other hother hj

theorem DohState.Healed.step {n : Nat} (h : s.Healed n now)
    (hlater : ∀ t, e.swapped? = some t → now ≤ t) (change : DohChange H U s e s') :
    s'.Healed n now := by
  cases change with
  | began url request =>
      refine ⟨h.near, h.client, by simpa using Nat.le_succ_of_le h.length, ?_⟩
      intro j task hj hplace
      rcases Nat.lt_or_ge j s.tasks.length with hlt | hge
      · rw [List.getElem?_append_left hlt] at hplace
        exact h.tasks j task hj hplace
      · rw [List.getElem?_append_right hge, List.getElem?_singleton] at hplace
        cases (Option.ite_none_right_eq_some.mp hplace).2
        simpa [h.client] using h.near
  | settled place => exact h.setPhase place _
  | @locked i lockedAt task place =>
      have hset := h.setPhase place (.swapping lockedAt)
      exact ⟨hset.near, hset.client, hset.length, hset.tasks⟩
  | @swapped i lockedAt t task place =>
      have hset := h.setPhase place (.recycled .recycled t)
      exact ⟨.later (hlater _ rfl), rfl, hset.length, hset.tasks⟩
  | released place =>
      have hset := h.setPhase place .dropped
      exact ⟨hset.near, hset.client, hset.length, hset.tasks⟩

theorem DohClocked.swapped_le {before after : List DohEvent}
    (h : DohClocked (before ++ after)) (hreading : now ∈ readings before) {t : Nat}
    (he : e ∈ after) (hswap : e.swapped? = some t) : now ≤ t := by
  unfold DohClocked readings at h
  rw [List.filterMap_append] at h
  refine (List.pairwise_append.mp h).2.2 now hreading t (List.mem_filterMap.mpr ⟨e, he, ?_⟩)
  cases e <;> first | exact hswap | cases hswap

theorem DohState.Healed.run {n : Nat} {after : List DohEvent} (h : s.Healed n now)
    (run : Steps (fun s e t => s.next H U e = some t) s after s')
    (hlater : ∀ e ∈ after, ∀ t, e.swapped? = some t → now ≤ t) : s'.Healed n now := by
  induction run with
  | done => exact h
  | next _ hstep ih =>
      have hfirst := ih fun e he => hlater e (List.mem_append_left _ he)
      exact hfirst.step (hlater _ (by simp)) (next_change hstep)

theorem DohState.Timed.healed (h : s.Timed H trace) {task : DohTask}
    {outcome : RecycleOutcome} (hplace : s.tasks[i]? = some task)
    (hphase : task.phase = .recycled outcome now) (hbuilt : outcome ≠ .buildFailed) :
    now ∈ readings trace ∧ s.Healed s.tasks.length now := by
  have htimed := h.tasks i task hplace
  rw [hphase] at htimed
  refine ⟨htimed.1, htimed.2 hbuilt, h.client, Nat.le_refl _, ?_⟩
  intro j other hj hother
  rw [List.getElem?_eq_none hj] at hother
  cases hother

/-- The client is replaced at most once in a cooldown, no matter how many
queries fail at once, and a query that begins after a failed one has come back
from `recycle` is sent on a client at most one cooldown older than that. Every
answer is what a response with status 200 has said, under the ID that was asked
for. The lock is never left with a task that is gone. -/
theorem client_recycled {before after : List DohEvent}
    (first : Steps (fun s e t => s.next H U e = some t) {} before s)
    (second : Steps (fun s e t => s.next H U e = some t) s after s')
    (clocked : DohClocked (before ++ after)) :
    (swapTimes (before ++ after)).Pairwise (fun t u => t + resetCooldown ≤ u) ∧
    (∀ (i : Nat) (task : DohTask) outcome now, s.tasks[i]? = some task →
      task.phase = .recycled outcome now → outcome ≠ .buildFailed →
      ∀ (j : Nat) (later : DohTask), s.tasks.length ≤ j → s'.tasks[j]? = some later →
        ∃ t, later.client.installedAt = some t ∧ now < t + resetCooldown) ∧
    (∀ (i : Nat) (task : DohTask) response, s'.tasks[i]? = some task →
      task.phase = .answered response → ∃ body decoded,
        .respond i 200 (some body) ∈ before ++ after ∧ body ≠ [] ∧
        H.fromBytes body = some decoded ∧
        response = { decoded with id := task.request.id }) ∧
    (∀ i, s'.writer = some i → ∃ (task : DohTask) (lockedAt : Nat),
      s'.tasks[i]? = some task ∧ task.phase = .swapping lockedAt) := by
  have htimed := DohState.Timed.run first clocked.first
  have hlast := DohState.Timed.run (first.append second) clocked
  refine ⟨hlast.spaced, ?_, ?_, ?_⟩
  · intro i task outcome now hplace hphase hbuilt j later hj hlater
    obtain ⟨hreading, hhealed⟩ := htimed.healed hplace hphase hbuilt
    have hend := hhealed.run second fun e he t => clocked.swapped_le hreading he
    exact hend.tasks j later hj hlater
  · intro i task response hplace hphase
    have hanswer := hlast.tasks i task hplace
    rw [hphase] at hanswer
    exact hanswer
  · intro i hwriter
    obtain ⟨task, hplace, hswapping⟩ := hlast.held i hwriter
    cases hphase : task.phase with
    | swapping lockedAt => exact ⟨task, lockedAt, hplace, hphase⟩
    | _ =>
        rw [hphase] at hswapping
        cases hswapping

/-! ### Two queries fail at once, and a third one is answered -/

/-- URLs that have their path. -/
def pathedUrls : UrlCrate := ⟨String, some, fun _ => "/dns-query", fun url _ => url, id⟩

def failingTrace : List DohEvent :=
  [.query "https://dns.example/dns-query" sampleRequest,
    .query "https://dns.example/dns-query" { sampleRequest with id := 9 },
    .refuse 0 true, .refuse 1 true, .test 0 5000000000, .test 1 5000000000,
    .lock 0 5000000001 true, .swap 0 5000000002, .lock 1 5000000003 true]

/-- The question comes back, under the ID 0. -/
def healedTrace : List DohEvent :=
  [.query "https://dns.example/dns-query" { sampleRequest with id := 7 },
    .respond 2 200 (some ([0, 0, 0x80, 0, 0, 1, 0, 0, 0, 0, 0, 0] ++ [1, 97, 0, 0, 1, 0, 1]))]

theorem client_recycled_once :
    ∃ s s' : DohState,
      Steps (fun s e t => s.next questionCodec pathedUrls e = some t) {} failingTrace s ∧
      Steps (fun s e t => s.next questionCodec pathedUrls e = some t) s healedTrace s' ∧
      (swapTimes (failingTrace ++ healedTrace)).Pairwise (fun t u => t + resetCooldown ≤ u) ∧
      ∃ (later : DohTask) (t : Nat), s'.tasks[2]? = some later ∧
        later.client.installedAt = some t ∧ 5000000003 < t + resetCooldown ∧
        ∃ response, later.phase = .answered response ∧
          ∃ body decoded, .respond 2 200 (some body) ∈ failingTrace ++ healedTrace ∧ body ≠ [] ∧
            questionCodec.fromBytes body = some decoded ∧
            response = { decoded with id := later.request.id } := by
  let result := failingTrace.foldlM (DohState.next questionCodec pathedUrls) {}
  have hsome : result.isSome = true := rfl
  let result' := healedTrace.foldlM (DohState.next questionCodec pathedUrls) (result.get hsome)
  have hsome' : result'.isSome = true := rfl
  have first : Steps (fun s e t => s.next questionCodec pathedUrls e = some t) {} failingTrace
      (result.get hsome) := .of_foldlM (Option.some_get hsome).symm
  have second : Steps (fun s e t => s.next questionCodec pathedUrls e = some t) (result.get hsome)
      healedTrace (result'.get hsome') := .of_foldlM (Option.some_get hsome').symm
  have clocked : DohClocked (failingTrace ++ healedTrace) := by
    unfold DohClocked
    change List.Pairwise (· ≤ ·) [5000000000, 5000000000, 5000000001, 5000000002, 5000000003]
    simp
  obtain ⟨hspaced, hhealed, hanswered, _⟩ := client_recycled first second clocked
  obtain ⟨later, hlater⟩ : ∃ later, (result'.get hsome').tasks[2]? = some later := ⟨_, rfl⟩
  obtain ⟨response, hphase⟩ : ∃ response, later.phase = .answered response := by
    cases hlater
    exact ⟨_, rfl⟩
  obtain ⟨t, hclient, hnear⟩ := hhealed 1 _ .recent 5000000003 rfl rfl (by simp) 2 later
    (Nat.le_refl 2) hlater
  exact ⟨_, _, first, second, hspaced, later, t, hlater, hclient, hnear, response, hphase,
    hanswered 2 later response hlater hphase⟩

end Relay.Dns.Upstream
