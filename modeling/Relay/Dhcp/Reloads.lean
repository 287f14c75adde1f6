import Relay.Dhcp.Services

/-!
Which tasks of the DHCP services are left after any restarts.
-/

namespace Relay.Dhcp

open Logic

variable {trace : List TaskEvent} {s s' : DhcpTasks} {e : TaskEvent} {i : Nat}
  {task : ServiceTask}

theorem enabledServices_isService {config : DhcpConfig} {program : Program}
    (h : program ∈ enabledServices config) : program.isService = true := by
  simp only [enabledServices, List.mem_append, Option.mem_toList, Option.map_eq_some_iff] at h
  rcases h with (⟨_, _, rfl⟩ | ⟨_, _, rfl⟩) | ⟨_, _, rfl⟩ <;> rfl

theorem spawns_isService {parent program : Program} (h : program ∈ parent.spawns) :
    program.isService = false := by
  cases parent with
  | ra cfg =>
      unfold Program.spawns at h
      rcases List.mem_cons.mp h with rfl | h
      · rfl
      · split at h
        · cases List.mem_singleton.mp h
          rfl
        · cases h
  | suppressLoop interface =>
      cases List.mem_singleton.mp h
      rfl
  | _ => cases h

/-! ### One step -/

theorem DhcpTasks.next_eq_some (h : s.next e = some s') :
    e.isPossible s = true ∧
      s'.tasks = s.tasks.mapIdx (fun i task =>
        { task with status := e.leaves s i task.status }) ++ e.spawned s ∧
      s'.handles = e.keeps s := by
  obtain ⟨hpossible, hnext⟩ := Option.ite_none_right_eq_some.mp h
  cases hnext
  exact ⟨hpossible, rfl, rfl⟩

/-- A task stays what it is but for its status. -/
theorem DhcpTasks.next_keeps (h : s.next e = some s') (hi : s.tasks[i]? = some task) :
    s'.tasks[i]? = some { task with status := e.leaves s i task.status } := by
  obtain ⟨_, htasks, _⟩ := next_eq_some h
  obtain ⟨hlt, _⟩ := List.getElem?_eq_some_iff.mp hi
  rw [htasks, List.getElem?_append_left (by simpa using hlt), List.getElem?_mapIdx, hi]
  rfl

/-- What is new after a step stands behind the tasks so far. -/
theorem DhcpTasks.next_spawns (h : s.next e = some s') {n : Nat} {new : ServiceTask}
    (hn : (e.spawned s)[n]? = some new) : s'.tasks[s.tasks.length + n]? = some new := by
  obtain ⟨_, htasks, _⟩ := next_eq_some h
  rw [htasks, List.getElem?_append_right (by simp)]
  simpa using hn

theorem DhcpTasks.next_cases (h : s.next e = some s') (hi : s'.tasks[i]? = some task) :
    (∃ old, s.tasks[i]? = some old ∧ task = { old with status := e.leaves s i old.status }) ∨
      s.tasks.length ≤ i ∧ task ∈ e.spawned s := by
  rcases Nat.lt_or_ge i s.tasks.length with hlt | hge
  · have hold := List.getElem?_eq_getElem hlt
    rw [next_keeps h hold] at hi
    cases hi
    exact Or.inl ⟨_, hold, rfl⟩
  · obtain ⟨_, htasks, _⟩ := next_eq_some h
    rw [htasks, List.getElem?_append_right (by simpa using hge)] at hi
    exact Or.inr ⟨hge, List.mem_of_getElem? hi⟩

theorem TaskEvent.spawned_status (h : task ∈ e.spawned s) : task.status = .spawned := by
  cases e with
  | finish i => cases h
  | receive i =>
      cases List.mem_singleton.mp h
      rfl
  | _ =>
      obtain ⟨_, _, rfl⟩ := List.mem_map.mp h
      rfl

/-- A step brings no task back to life. -/
theorem TaskEvent.live_before (hpossible : e.isPossible s = true)
    (hi : s.tasks[i]? = some task) (h : (e.leaves s i task.status).isLive = true) :
    task.status.isLive = true := by
  cases e with
  | restart config =>
      simp only [leaves] at h
      cases hstatus : task.status with
      | spawned => rfl
      | begun => rfl
      | finished => simp [hstatus, TaskStatus.abort, TaskStatus.isLive] at h
      | aborted => simp [hstatus, TaskStatus.abort, TaskStatus.isLive] at h
  | start j =>
      simp only [leaves] at h
      split at h
      · rename_i hij
        subst hij
        have hspawned : task.status = .spawned := by simpa [isPossible, hi] using hpossible
        rw [hspawned]
        rfl
      · exact h
  | receive j => exact h
  | finish j =>
      simp only [leaves] at h
      split at h
      · cases h
      · exact h

/-! ### The invariant -/

structure DhcpTasks.Tracked (trace : List TaskEvent) (s : DhcpTasks) : Prop where
  /-- The handles are those of the last services. -/
  handles : s.handles.map (fun i => s.tasks[i]?.map ServiceTask.program) =
    (latestServices trace).map some
  services : ∀ i (task : ServiceTask), s.tasks[i]? = some task → task.status.isLive = true →
    task.program.isService = true → i ∈ s.handles
  helpers : ∀ i (task : ServiceTask), s.tasks[i]? = some task →
    task.program.isService = false → (task.status.isLive = true ↔ .finish i ∉ trace)
  children : ∀ i, .start i ∈ trace → ∃ task, s.tasks[i]? = some task ∧
    ∀ program ∈ task.program.spawns, ∃ (j : Nat) (child : ServiceTask),
      s.tasks[j]? = some child ∧ child.program = program ∧ child.parent = some i
  finished : ∀ i, .finish i ∈ trace → i < s.tasks.length

theorem latestServices_restart (trace : List TaskEvent) (config : DhcpConfig) :
    latestServices (trace ++ [.restart config]) = enabledServices config := by
  have hlast : ((trace ++ [TaskEvent.restart config]).filterMap TaskEvent.config?).getLast? =
      some config := by
    rw [List.filterMap_append]
    exact List.getLast?_concat
  rw [latestServices, hlast]
  rfl

theorem latestServices_other (trace : List TaskEvent) (h : e.config? = none) :
    latestServices (trace ++ [e]) = latestServices trace := by
  have hsame : (trace ++ [e]).filterMap TaskEvent.config? = trace.filterMap TaskEvent.config? := by
    rw [List.filterMap_append, List.filterMap_cons_none h]
    exact List.append_nil _
  rw [latestServices, hsame]
  rfl

theorem latestServices_isService {program : Program} (h : program ∈ latestServices trace) :
    program.isService = true := by
  unfold latestServices at h
  cases hlatest : (trace.filterMap TaskEvent.config?).getLast? with
  | none =>
      rw [hlatest] at h
      cases h
  | some config =>
      rw [hlatest] at h
      exact enabledServices_isService h

/-- A handle is of a service. -/
theorem DhcpTasks.Tracked.handle_isService (h : s.Tracked trace) (hhandle : i ∈ s.handles)
    (hi : s.tasks[i]? = some task) : task.program.isService = true := by
  have hmem : s.tasks[i]?.map ServiceTask.program ∈ (latestServices trace).map some := by
    rw [← h.handles]
    exact List.mem_map_of_mem hhandle
  rw [hi, Option.map_some] at hmem
  obtain ⟨program, hprogram, heq⟩ := List.mem_map.mp hmem
  cases heq
  exact latestServices_isService hprogram

/-- Handles that are kept are of the same services. -/
theorem DhcpTasks.Tracked.same_handles (h : s.Tracked trace) (hstep : s.next e = some s')
    (hsame : s'.handles = s.handles) (he : e.config? = none) :
    s'.handles.map (fun i => s'.tasks[i]?.map ServiceTask.program) =
      (latestServices (trace ++ [e])).map some := by
  rw [latestServices_other trace he, ← h.handles, hsame]
  apply List.map_congr_left
  intro i hi
  have hmem : s.tasks[i]?.map ServiceTask.program ∈ (latestServices trace).map some := by
    rw [← h.handles]
    exact List.mem_map_of_mem hi
  cases hold : s.tasks[i]? with
  | none =>
      rw [hold] at hmem
      simp at hmem
  | some task =>
      rw [next_keeps hstep hold]
      rfl

theorem DhcpTasks.Tracked.next_handles (h : s.Tracked trace) (hstep : s.next e = some s') :
    s'.handles.map (fun i => s'.tasks[i]?.map ServiceTask.program) =
      (latestServices (trace ++ [e])).map some := by
  obtain ⟨_, _, hhandles⟩ := next_eq_some hstep
  cases e with
  | restart config =>
      rw [latestServices_restart, hhandles]
      apply List.ext_getElem?
      intro n
      rw [TaskEvent.keeps, List.getElem?_map, List.getElem?_map]
      rcases Nat.lt_or_ge n (enabledServices config).length with hlt | hge
      · have hspawned : (TaskEvent.spawned s (.restart config))[n]? =
            some ⟨(enabledServices config)[n], none, .spawned⟩ := by
          rw [TaskEvent.spawned, List.getElem?_map, List.getElem?_eq_getElem hlt]
          rfl
        rw [List.getElem?_range' hlt, List.getElem?_eq_getElem hlt, Option.map_some,
          Option.map_some, Nat.one_mul, next_spawns hstep hspawned]
        rfl
      · rw [List.getElem?_eq_none (by simpa using hge), List.getElem?_eq_none hge]
        rfl
  | start i => exact h.same_handles hstep hhandles rfl
  | receive i => exact h.same_handles hstep hhandles rfl
  | finish i => exact h.same_handles hstep hhandles rfl

/-- A helper's status changes at its end only. -/
theorem DhcpTasks.Tracked.next_helper (h : s.Tracked trace) (hstep : s.next e = some s')
    (hi : s'.tasks[i]? = some task) (hhelper : task.program.isService = false) :
    task.status.isLive = true ↔ .finish i ∉ trace ++ [e] := by
  obtain ⟨hpossible, _, _⟩ := next_eq_some hstep
  rcases next_cases hstep hi with ⟨old, hold, rfl⟩ | ⟨hge, hnew⟩
  · have hbefore := h.helpers i old hold hhelper
    rw [List.mem_append, List.mem_singleton, not_or, ← hbefore]
    cases e with
    | restart config =>
        have hnot : i ∉ s.handles := by
          intro hhandle
          have hservice := h.handle_isService hhandle hold
          rw [hhelper] at hservice
          cases hservice
        simp [TaskEvent.leaves, hnot]
    | start j =>
        by_cases hij : i = j
        · subst hij
          have hspawned : old.status = .spawned := by
            simpa [TaskEvent.isPossible, hold] using hpossible
          simp [TaskEvent.leaves, hspawned, TaskStatus.isLive]
        · simp [TaskEvent.leaves, hij]
    | receive j => simp [TaskEvent.leaves]
    | finish j =>
        by_cases hij : i = j
        · simp [TaskEvent.leaves, hij, TaskStatus.isLive]
        · simp [TaskEvent.leaves, hij]
  · have hlive : task.status.isLive = true := by
      rw [TaskEvent.spawned_status hnew]
      rfl
    have hearlier : .finish i ∉ trace := fun hmem =>
      absurd (h.finished i hmem) (Nat.not_lt_of_le hge)
    have hnow : TaskEvent.finish i ≠ e := by
      rintro rfl
      cases hnew
    simp [hlive, hearlier, hnow]

/-- A service that is new or was live before is among the last ones. -/
theorem DhcpTasks.Tracked.next_service (h : s.Tracked trace) (hstep : s.next e = some s')
    (hi : s'.tasks[i]? = some task) (hlive : task.status.isLive = true)
    (hservice : task.program.isService = true) : i ∈ s'.handles := by
  obtain ⟨hpossible, htasks, hhandles⟩ := next_eq_some hstep
  rcases next_cases hstep hi with ⟨old, hold, rfl⟩ | ⟨hge, hnew⟩
  · have hbefore := h.services i old hold (TaskEvent.live_before hpossible hold hlive) hservice
    cases e with
    | restart config =>
        -- what a restart finds in the handles it aborts
        simp only [TaskEvent.leaves, if_pos hbefore, TaskStatus.abort] at hlive
        split at hlive
        · cases hlive
        · rename_i hdead
          exact absurd hlive hdead
    | _ =>
        rw [hhandles]
        exact hbefore
  · cases e with
    | restart config =>
        rw [htasks, List.getElem?_append_right (by simpa using hge)] at hi
        obtain ⟨hlt, _⟩ := List.getElem?_eq_some_iff.mp hi
        simp only [TaskEvent.spawned, List.length_map, List.length_mapIdx] at hlt
        rw [hhandles, TaskEvent.keeps]
        exact List.mem_range'_1.mpr ⟨hge, by omega⟩
    | start j =>
        obtain ⟨program, hprogram, rfl⟩ := List.mem_map.mp hnew
        cases hparent : s.tasks[j]? with
        | none =>
            rw [hparent] at hprogram
            cases hprogram
        | some parent =>
            rw [hparent] at hprogram
            have hhelper := spawns_isService hprogram
            rw [hservice] at hhelper
            cases hhelper
    | receive j =>
        cases List.mem_singleton.mp hnew
        cases hservice
    | finish j => cases hnew

/-- What a task has spawned when it began stays behind it. -/
theorem DhcpTasks.Tracked.next_children (h : s.Tracked trace) (hstep : s.next e = some s')
    (hstart : .start i ∈ trace ++ [e]) : ∃ task, s'.tasks[i]? = some task ∧
      ∀ program ∈ task.program.spawns, ∃ (j : Nat) (child : ServiceTask),
        s'.tasks[j]? = some child ∧ child.program = program ∧ child.parent = some i := by
  obtain ⟨hpossible, _, _⟩ := next_eq_some hstep
  rcases List.mem_append.mp hstart with hstart | hstart
  · obtain ⟨task, htask, hchildren⟩ := h.children i hstart
    refine ⟨_, next_keeps hstep htask, ?_⟩
    intro program hprogram
    obtain ⟨j, child, hchild, hsame, hparent⟩ := hchildren program hprogram
    exact ⟨j, _, next_keeps hstep hchild, hsame, hparent⟩
  · cases List.mem_singleton.mp hstart
    cases hold : s.tasks[i]? with
    | none => simp [TaskEvent.isPossible, hold] at hpossible
    | some task =>
        refine ⟨_, next_keeps hstep hold, ?_⟩
        intro program hprogram
        obtain ⟨n, hn⟩ := List.mem_iff_getElem?.mp hprogram
        have hspawned : (TaskEvent.spawned s (.start i))[n]? =
            some ⟨program, some i, .spawned⟩ := by
          rw [TaskEvent.spawned, hold, Option.map_some, Option.getD_some, List.getElem?_map, hn]
          rfl
        exact ⟨_, _, next_spawns hstep hspawned, rfl, rfl⟩

theorem DhcpTasks.Tracked.next_finished (h : s.Tracked trace) (hstep : s.next e = some s')
    (hfinish : .finish i ∈ trace ++ [e]) : i < s'.tasks.length := by
  obtain ⟨hpossible, htasks, _⟩ := next_eq_some hstep
  have hlength : s.tasks.length ≤ s'.tasks.length := by
    rw [htasks]
    simp
  rcases List.mem_append.mp hfinish with hfinish | hfinish
  · exact Nat.lt_of_lt_of_le (h.finished i hfinish) hlength
  · cases List.mem_singleton.mp hfinish
    cases hold : s.tasks[i]? with
    | none => simp [TaskEvent.isPossible, hold] at hpossible
    | some task =>
        obtain ⟨hlt, _⟩ := List.getElem?_eq_some_iff.mp hold
        exact Nat.lt_of_lt_of_le hlt hlength

theorem DhcpTasks.Tracked.step (h : s.Tracked trace) (hstep : s.next e = some s') :
    s'.Tracked (trace ++ [e]) where
  handles := h.next_handles hstep
  services _ _ := h.next_service hstep
  helpers _ _ := h.next_helper hstep
  children _ := h.next_children hstep
  finished _ := h.next_finished hstep

theorem DhcpTasks.Tracked.run (run : Steps (fun s e t => DhcpTasks.next s e = some t) {} trace s) :
    s.Tracked trace := by
  induction run with
  | done =>
      exact ⟨rfl, (fun _ _ h => by cases h), (fun _ _ h => by cases h), (fun _ h => by cases h),
        (fun _ h => by cases h)⟩
  | next _ hstep ih => exact ih.step hstep

/-- Restarts end the services and nothing else. Of the services only those of
the last configuration are still polled; but every task that one of them has
spawned goes on until it returns by itself: the listener of each RA service
that has ever begun, and its suppress loop, also under a configuration that
has neither. -/
theorem helpers_outlive_restarts
    (run : Steps (fun s e t => DhcpTasks.next s e = some t) {} trace s) :
    (s.handles.map (fun i => s.tasks[i]?.map ServiceTask.program) =
        (latestServices trace).map some ∧
      ∀ i (task : ServiceTask), s.tasks[i]? = some task → task.status.isLive = true →
        task.program.isService = true → i ∈ s.handles) ∧
    (∀ i (task : ServiceTask), s.tasks[i]? = some task → task.program.isService = false →
      (task.status.isLive = true ↔ .finish i ∉ trace)) ∧
    (∀ i (task : ServiceTask), s.tasks[i]? = some task → .start i ∈ trace →
      ∀ program ∈ task.program.spawns, ∃ (j : Nat) (child : ServiceTask),
        s.tasks[j]? = some child ∧ child.program = program ∧ child.parent = some i ∧
          (child.status.isLive = true ↔ .finish j ∉ trace)) := by
  have htracked := DhcpTasks.Tracked.run run
  refine ⟨⟨htracked.handles, htracked.services⟩, htracked.helpers, ?_⟩
  intro i task hi hstart program hprogram
  obtain ⟨task', hi', hchildren⟩ := htracked.children i hstart
  rw [hi] at hi'
  cases hi'
  obtain ⟨j, child, hchild, hsame, hparent⟩ := hchildren program hprogram
  refine ⟨j, child, hchild, hsame, hparent, htracked.helpers j child hchild ?_⟩
  rw [hsame]
  exact spawns_isService hprogram

/-! ### Suppression is switched on and off again -/

def suppressingLan : DhcpConfig :=
  { ra := some { enable := true, interface := "br-lan", rdnss := [], suppressOtherRouters := true } }

def switchedOff : List TaskEvent := [.restart suppressingLan, .start 0, .start 2, .restart {}]

theorem helpers_outlive_restarts_switched_off :
    ∃ s : DhcpTasks, Steps (fun s e t => DhcpTasks.next s e = some t) {} switchedOff s ∧
      (∀ (i : Nat) (task : ServiceTask), s.tasks[i]? = some task →
        task.status.isLive = true → task.program.isService = false) ∧
      ∃ (j : Nat) (child : ServiceTask), s.tasks[j]? = some child ∧
        child.program = .suppressLoop "br-lan" ∧ child.status.isLive = true := by
  let result := switchedOff.foldlM DhcpTasks.next {}
  have hsome : result.isSome = true := rfl
  have run : Steps (fun s e t => DhcpTasks.next s e = some t) {} switchedOff (result.get hsome) :=
    .of_foldlM (Option.some_get hsome).symm
  obtain ⟨⟨_, hservices⟩, hhelpers, hchildren⟩ := helpers_outlive_restarts run
  have hhandles : (result.get hsome).handles = [] := rfl
  refine ⟨_, run, ?_, ?_⟩
  · intro i task hi hlive
    by_contra hservice
    have hmem := hservices i task hi hlive (by simpa using hservice)
    rw [hhandles] at hmem
    cases hmem
  · obtain ⟨service, hservice⟩ : ∃ service, (result.get hsome).tasks[0]? = some service := ⟨_, rfl⟩
    have hspawns : .suppressLoop "br-lan" ∈ service.program.spawns := by
      cases hservice
      exact List.mem_cons_of_mem _ List.mem_cons_self
    obtain ⟨j, child, hj, hprogram, _, hlive⟩ := hchildren 0 service hservice
      (by simp [switchedOff]) _ hspawns
    refine ⟨j, child, hj, hprogram, hlive.mpr ?_⟩
    simp [switchedOff]

end Relay.Dhcp
