import Relay.Storage.Effects
import Relay.Text.Utf8

/-!
`ResolvConfGuard` of `cmd/run.rs`: the file is backed up and overwritten when
a run starts and given back when its guard is dropped. A run that crashes
stops between any two effects and drops nothing.
-/

namespace Relay.Cmd

open Binary Text Storage

/-- `RESOLV_CONF` and `RESOLV_CONF_BAK`. -/
inductive ResolvPath where
  | resolvConf
  | backup
  deriving DecidableEq, Repr

/-- What `install` writes. -/
def generated : Bytes :=
  octets "# Generated by relay\n# Original backed up at /etc/resolv.conf.dnsroxy.bak\nnameserver 127.0.0.1\n"

/-- `ResolvConfGuard::install`. An existing backup only causes a warning. -/
def install (disk : Disk ResolvPath) : List (Effect ResolvPath) :=
  (match disk .resolvConf with
    | some content => writeFile .backup content
    | none => []) ++
  writeFile .resolvConf generated

/-- `Drop for ResolvConfGuard`. -/
def drop (disk : Disk ResolvPath) : List (Effect ResolvPath) :=
  match disk .backup with
  | some content => writeFile .resolvConf content ++ [.remove .backup]
  | none => []

/-- The effects of a run from its start to the end of its guard. -/
def runEffects (disk : Disk ResolvPath) : List (Effect ResolvPath) :=
  install disk ++ drop (applyAll (install disk) disk)

/-- A run ends when its guard has been dropped, or crashes after some number
of effects. -/
inductive Ending where
  | clean
  | crash (effects : Nat)
  deriving DecidableEq, Repr

def runOnce (disk : Disk ResolvPath) : Ending → Disk ResolvPath
  | .clean => applyAll (runEffects disk) disk
  | .crash effects => applyAll ((runEffects disk).take effects) disk

def runs (endings : List Ending) (disk : Disk ResolvPath) : Disk ResolvPath :=
  endings.foldl runOnce disk

/-- The files before the first run: some content or none, and no backup. -/
def initial (content : Option Bytes) : Disk ResolvPath
  | .resolvConf => content
  | .backup => none

/-- Runs that all crash. -/
def crashes (points : List Nat) : List Ending := points.map .crash

/-- What a clean run makes of the two files. -/
theorem runOnce_clean_of_some {disk : Disk ResolvPath} {content : Bytes}
    (h : disk .resolvConf = some content) :
    runOnce disk .clean = initial (some content) := by
  have hinstalled : applyAll (install disk) disk =
      Function.update (Function.update disk .backup (some content)) .resolvConf
        (some generated) := by
    simp [install, h, applyAll_append]
  have hbackup : applyAll (install disk) disk .backup = some content := by
    rw [hinstalled]
    simp
  rw [runOnce, runEffects, applyAll_append, drop, hbackup]
  simp only [applyAll_append, applyAll_writeFile, applyAll_cons, applyAll_nil, Effect.apply]
  funext path
  cases path <;> simp [initial, Function.update]

theorem runOnce_clean_of_none {disk : Disk ResolvPath} (h : disk .resolvConf = none)
    (hbackup : disk .backup = none) :
    runOnce disk .clean = initial (some generated) := by
  have hinstalled : applyAll (install disk) disk =
      Function.update disk .resolvConf (some generated) := by
    simp [install, h]
  rw [runOnce, runEffects, applyAll_append, hinstalled, drop]
  simp only [ne_eq, reduceCtorEq, not_false_eq_true, Function.update_of_ne, hbackup, applyAll_nil]
  funext path
  cases path <;> simp [initial, Function.update, hbackup]

/-- No run removes the file, wherever it stops. -/
private theorem remove_notMem_runEffects (disk : Disk ResolvPath) :
    Effect.remove .resolvConf ∉ runEffects disk := by
  unfold runEffects install drop
  rw [List.mem_append, List.mem_append, not_or, not_or]
  refine ⟨⟨?_, remove_notMem_writeFile _ _ _⟩, ?_⟩
  · split
    · exact remove_notMem_writeFile _ _ _
    · exact List.not_mem_nil
  · split
    · simp [writeFile]
    · exact List.not_mem_nil

/-- While there is no file there is no backup either: the first effect of a
run that finds none creates it. -/
def AbsentTogether (disk : Disk ResolvPath) : Prop :=
  disk .resolvConf = none → disk .backup = none

theorem runOnce_crash_isSome (disk : Disk ResolvPath) (effects : Nat)
    (h : (disk .resolvConf).isSome = true) :
    (runOnce disk (.crash effects) .resolvConf).isSome = true := by
  apply applyAll_isSome ?_ disk h
  intro hmem
  exact remove_notMem_runEffects disk (List.mem_of_mem_take hmem)

theorem runOnce_crash_absentTogether {disk : Disk ResolvPath} (effects : Nat)
    (h : AbsentTogether disk) : AbsentTogether (runOnce disk (.crash effects)) := by
  cases hfile : disk .resolvConf with
  | some content =>
      intro hnone
      have hsome := runOnce_crash_isSome disk effects (by simp [hfile])
      simp [hnone] at hsome
  | none =>
      cases effects with
      | zero => exact h
      | succ n =>
          intro hnone
          have hfirst : ∃ rest, runEffects disk = .truncate .resolvConf :: rest ∧
              Effect.remove ResolvPath.resolvConf ∉ rest := by
            have hnotMem := remove_notMem_runEffects disk
            simp only [runEffects, install, hfile, List.nil_append, writeFile, List.cons_append] at hnotMem ⊢
            exact ⟨_, rfl, fun hmem => hnotMem (List.mem_cons_of_mem _ hmem)⟩
          obtain ⟨rest, hrest, hnotMem⟩ := hfirst
          have hsome : (runOnce disk (.crash (n + 1)) .resolvConf).isSome = true := by
            rw [runOnce, hrest, List.take_succ_cons, applyAll_cons]
            apply applyAll_isSome
            · intro hmem
              exact hnotMem (List.mem_of_mem_take hmem)
            · simp [Effect.apply]
          simp [hnone] at hsome

theorem runs_crashes_absentTogether (points : List Nat) {disk : Disk ResolvPath}
    (h : AbsentTogether disk) : AbsentTogether (runs (crashes points) disk) := by
  induction points generalizing disk with
  | nil => exact h
  | cons n points ih => exact ih (runOnce_crash_absentTogether n h)

/-! ### What a crash leaves -/

/-- The effects of a run that finds the file: the backup, its own file, and the
way back. -/
theorem runEffects_of_some {disk : Disk ResolvPath} {found : Bytes}
    (h : disk .resolvConf = some found) :
    runEffects disk = writeFile .backup found ++ (writeFile .resolvConf generated ++
      (writeFile .resolvConf found ++ [.remove .backup])) := by
  have hbackup : applyAll (install disk) disk .backup = some found := by
    simp [install, h, applyAll_append]
  rw [runEffects, drop, hbackup, install, h]
  simp only [List.append_assoc]

/-- The file after a crash of a run that has found `found` in it: not touched,
cut short while the generated text was written, or while `found` was written
back. -/
def leftAfter (found : Bytes) (effects : Nat) : Bytes :=
  if effects ≤ found.length + 1 then found
  else if effects ≤ found.length + generated.length + 2 then
    generated.take (effects - (found.length + 2))
  else found.take (effects - (found.length + generated.length + 3))

theorem runOnce_crash_of_some {disk : Disk ResolvPath} {found : Bytes}
    (h : disk .resolvConf = some found) (effects : Nat) :
    runOnce disk (.crash effects) .resolvConf = some (leftAfter found effects) := by
  have hbackup : ∀ e ∈ writeFile ResolvPath.backup found, e.path ≠ .resolvConf := by
    intro e he
    rw [path_of_mem_writeFile he]
    exact ResolvPath.noConfusion
  have hremove : ∀ n, ∀ e ∈ [Effect.remove ResolvPath.backup].take n, e.path ≠ .resolvConf := by
    intro n e he
    cases List.mem_singleton.mp (List.mem_of_mem_take he)
    exact ResolvPath.noConfusion
  have hlength : ∀ (path : ResolvPath) (content : Bytes),
      (writeFile path content).length = content.length + 1 := by simp [writeFile]
  rw [runOnce, runEffects_of_some h]
  unfold leftAfter
  by_cases hearly : effects ≤ found.length + 1
  · -- the backup is being written
    rw [if_pos hearly, List.take_append_of_le_length (by rw [hlength]; exact hearly),
      applyAll_of_ne fun e he => hbackup e (List.mem_of_mem_take he)]
    exact h
  · rw [if_neg hearly, List.take_append, List.take_of_length_le (by rw [hlength]; omega), hlength,
      applyAll_append]
    by_cases hinstalling : effects ≤ found.length + generated.length + 2
    · obtain ⟨n, hn⟩ : ∃ n, effects - (found.length + 1) = n + 1 :=
        ⟨effects - (found.length + 2), by omega⟩
      have hcut : n = effects - (found.length + 2) := by omega
      rw [if_pos hinstalling, List.take_append_of_le_length (by rw [hlength]; omega), hn,
        take_writeFile, applyAll_writeFile, Function.update_self, hcut]
    · obtain ⟨n, hn⟩ : ∃ n, effects - (found.length + 1) - (generated.length + 1) = n + 1 :=
        ⟨effects - (found.length + generated.length + 3), by omega⟩
      have hcut : n = effects - (found.length + generated.length + 3) := by omega
      rw [if_neg hinstalling, List.take_append, applyAll_append, hlength, hn, List.take_append,
        applyAll_append, applyAll_of_ne (hremove _), take_writeFile, applyAll_writeFile,
        Function.update_self, hcut]

theorem runs_crashes_of_some (points : List Nat) {disk : Disk ResolvPath} {found : Bytes}
    (h : disk .resolvConf = some found) :
    runs (crashes points) disk .resolvConf = some (points.foldl leftAfter found) := by
  induction points generalizing disk found with
  | nil => exact h
  | cons n points ih => exact ih (runOnce_crash_of_some h n)

/-! ### When it is given back -/

/-- A crash before the run has touched the file, or after it has written `own`
back whole. -/
def Spares (own : Bytes) (effects : Nat) : Prop :=
  effects ≤ own.length + 1 ∨ 2 * own.length + generated.length + 3 ≤ effects

theorem Spares.leftAfter {own : Bytes} {effects : Nat} (h : Spares own effects) :
    leftAfter own effects = own := by
  unfold Cmd.leftAfter
  rcases h with hearly | hlate
  · rw [if_pos hearly]
  · rw [if_neg (by omega), if_neg (by omega)]
    exact List.take_of_length_le (by omega)

/-- It leaves less of `own`, or a front of the generated text. -/
theorem leftAfter_of_not_spares {own : Bytes} {effects : Nat} (h : ¬ Spares own effects) :
    leftAfter own effects <+: generated ∨
      leftAfter own effects <+: own ∧ leftAfter own effects ≠ own := by
  unfold Spares at h
  unfold leftAfter
  rw [if_neg (by omega)]
  split
  · exact Or.inl (List.take_prefix _ _)
  · refine Or.inr ⟨List.take_prefix _ _, fun hwhole => ?_⟩
    have hlength := congrArg List.length hwhole
    rw [List.length_take] at hlength
    omega

theorem leftAfter_prefix (found : Bytes) (effects : Nat) :
    leftAfter found effects <+: generated ∨ leftAfter found effects <+: found := by
  unfold leftAfter
  split
  · exact Or.inr (List.prefix_refl found)
  · split
    · exact Or.inl (List.take_prefix _ _)
    · exact Or.inr (List.take_prefix _ _)

/-- No later crash brings back what is lost. -/
theorem foldl_leftAfter_lost {own found : Bytes} (points : List Nat)
    (h : found <+: generated ∨ found <+: own ∧ found ≠ own) :
    points.foldl leftAfter found <+: generated ∨
      points.foldl leftAfter found <+: own ∧ points.foldl leftAfter found ≠ own := by
  induction points generalizing found with
  | nil => exact h
  | cons n points ih =>
      apply ih
      rcases leftAfter_prefix found n with hgenerated | hfront
      · exact Or.inl hgenerated
      · rcases h with hfound | ⟨hfound, hne⟩
        · exact Or.inl (hfront.trans hfound)
        · refine Or.inr ⟨hfront.trans hfound, ?_⟩
          intro hback
          rw [hback] at hfront
          exact hne (hfound.eq_of_length (Nat.le_antisymm hfound.length_le hfront.length_le))

/-- A text that is not a front of the generated one is there after the crashes
exactly when all of them have spared it. -/
theorem foldl_leftAfter_eq_self_iff {own : Bytes} (hown : ¬ own <+: generated)
    (points : List Nat) :
    points.foldl leftAfter own = own ↔ ∀ n ∈ points, Spares own n := by
  induction points with
  | nil => simp
  | cons n points ih =>
      rw [List.foldl_cons, List.forall_mem_cons]
      by_cases hn : Spares own n
      · rw [hn.leftAfter, ih]
        exact ⟨fun h => ⟨hn, h⟩, And.right⟩
      · constructor
        · intro hback
          have hlost := foldl_leftAfter_lost points (leftAfter_of_not_spares hn)
          rw [hback] at hlost
          rcases hlost with hgenerated | ⟨_, hne⟩
          · exact absurd hgenerated hown
          · exact absurd rfl hne
        · intro h
          exact absurd h.1 hn

/-- The length that a crash leaves when it finds a front of the generated text
of this length. -/
def frontLeft (found effects : Nat) : Nat :=
  if effects ≤ found + 1 then found
  else if effects ≤ found + generated.length + 2 then effects - (found + 2)
  else min (effects - (found + generated.length + 3)) found

theorem leftAfter_front {length : Nat} (h : length ≤ generated.length) (effects : Nat) :
    leftAfter (generated.take length) effects = generated.take (frontLeft length effects) ∧
      frontLeft length effects ≤ generated.length := by
  have hlength : (generated.take length).length = length := List.length_take_of_le h
  unfold leftAfter frontLeft
  rw [hlength]
  split
  · exact ⟨rfl, h⟩
  · split
    · exact ⟨rfl, by omega⟩
    · exact ⟨List.take_take .., by omega⟩

theorem foldl_leftAfter_front (points : List Nat) {length : Nat}
    (h : length ≤ generated.length) :
    points.foldl leftAfter (generated.take length) =
        generated.take (points.foldl frontLeft length) ∧
      points.foldl frontLeft length ≤ generated.length := by
  induction points generalizing length with
  | nil => exact ⟨rfl, h⟩
  | cons n points ih =>
      obtain ⟨hleft, hle⟩ := leftAfter_front h n
      rw [List.foldl_cons, List.foldl_cons, hleft]
      exact ih hle

theorem foldl_leftAfter_eq_front_iff {own : Bytes} (hown : own <+: generated)
    (points : List Nat) :
    points.foldl leftAfter own = own ↔ points.foldl frontLeft own.length = own.length := by
  obtain ⟨hleft, hle⟩ := foldl_leftAfter_front points hown.length_le
  have hself : generated.take own.length = own := (List.prefix_iff_eq_take.mp hown).symm
  rw [hself] at hleft
  rw [hleft]
  constructor
  · intro h
    have hlength := congrArg List.length h
    rwa [List.length_take_of_le hle] at hlength
  · intro h
    rw [h, hself]

/-- After the first clean stop the file has its initial content and the backup
is gone exactly when there was a file at first, and every crash before has
spared it; where its text is a front of the generated one, which a crash may
restore by chance, the lengths that the crashes leave come back to its own. -/
theorem given_back_iff (content : Option Bytes) (points : List Nat) :
    runs (crashes points ++ [.clean]) (initial content) = initial content ↔
      ∃ own, content = some own ∧
        (¬ own <+: generated → ∀ n ∈ points, Spares own n) ∧
        (own <+: generated → points.foldl frontLeft own.length = own.length) := by
  have hruns : runs (crashes points ++ [.clean]) (initial content) =
      runOnce (runs (crashes points) (initial content)) .clean := by
    simp [runs]
  have hread : ∀ {c d : Option Bytes}, initial c = initial d ↔ c = d := by
    intro c d
    constructor
    · intro h
      exact congrFun h .resolvConf
    · rintro rfl
      rfl
  rw [hruns]
  cases content with
  | none =>
      have habsent : AbsentTogether (runs (crashes points) (initial none)) :=
        runs_crashes_absentTogether points fun _ => rfl
      constructor
      · intro h
        cases hfile : runs (crashes points) (initial none) .resolvConf with
        | none =>
            rw [runOnce_clean_of_none hfile (habsent hfile), hread] at h
            cases h
        | some found =>
            rw [runOnce_clean_of_some hfile, hread] at h
            cases h
      · rintro ⟨own, hown, _⟩
        cases hown
  | some own =>
      rw [runOnce_clean_of_some (runs_crashes_of_some points rfl), hread, Option.some.injEq]
      by_cases hfront : own <+: generated
      · rw [foldl_leftAfter_eq_front_iff hfront]
        simp [hfront]
      · rw [foldl_leftAfter_eq_self_iff hfront]
        simp [hfront]

/-- A run that crashes while it is up leaves the generated file behind. -/
theorem runOnce_crash_installed (disk : Disk ResolvPath) :
    runOnce disk (.crash (install disk).length) .resolvConf = some generated := by
  rw [runOnce, runEffects, List.take_left]
  cases hfile : disk .resolvConf with
  | none => simp [install, hfile]
  | some content => simp [install, hfile, applyAll_append]

/-- The next run then backs the generated file up in place of the original. -/
theorem original_lost_after_crash :
    ¬ ∀ (content : Option Bytes) (points : List Nat),
      runs (crashes points ++ [.clean]) (initial content) = initial content := by
  intro h
  let disk := initial (some (octets "nameserver 192.0.2.1\n"))
  have hcrashed := runOnce_crash_installed disk
  have hstopped := h (some (octets "nameserver 192.0.2.1\n")) [(install disk).length]
  have hruns : runs (crashes [(install disk).length] ++ [.clean]) disk =
      runOnce (runOnce disk (.crash (install disk).length)) .clean := by
    simp only [runs, crashes, List.map_cons, List.map_nil, List.cons_append, List.nil_append,
      List.foldl_cons, List.foldl_nil]
  rw [hruns, runOnce_clean_of_some hcrashed] at hstopped
  have hcontent : some generated = some (octets "nameserver 192.0.2.1\n") :=
    congrFun hstopped .resolvConf
  simp [generated] at hcontent

end Relay.Cmd
