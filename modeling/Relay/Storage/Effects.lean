import Relay.Binary.Bytes

/-!
Files and the effects a program has on them, one at a time, so that a program
can be stopped between any two: a file is emptied, grows by a byte, or is
removed. Writing a whole file is not one effect but many.
-/

namespace Relay.Storage

open Binary

variable {π : Type} [DecidableEq π]

/-- What each path holds, `none` where there is no file. -/
abbrev Disk (π : Type) := π → Option Bytes

inductive Effect (π : Type) where
  | truncate (path : π)
  | append (path : π) (byte : UInt8)
  | remove (path : π)
  deriving DecidableEq, Repr

/-- The only path an effect changes. -/
def Effect.path : Effect π → π
  | truncate path => path
  | append path _ => path
  | remove path => path

def Effect.apply (disk : Disk π) : Effect π → Disk π
  | truncate path => Function.update disk path (some [])
  | append path byte => Function.update disk path (some ((disk path).getD [] ++ [byte]))
  | remove path => Function.update disk path none

def applyAll (effects : List (Effect π)) (disk : Disk π) : Disk π :=
  effects.foldl Effect.apply disk

/-- `fs::write(path, content)`, and `fs::copy` to `path` of a file that holds
`content`. -/
def writeFile (path : π) (content : Bytes) : List (Effect π) :=
  .truncate path :: content.map (.append path)

@[simp] theorem applyAll_nil (disk : Disk π) : applyAll [] disk = disk := rfl

@[simp] theorem applyAll_cons (e : Effect π) (effects : List (Effect π)) (disk : Disk π) :
    applyAll (e :: effects) disk = applyAll effects (e.apply disk) := rfl

theorem applyAll_append (xs ys : List (Effect π)) (disk : Disk π) :
    applyAll (xs ++ ys) disk = applyAll ys (applyAll xs disk) := by
  simp [applyAll]

private theorem applyAll_appends (path : π) (content front : Bytes) (disk : Disk π) :
    applyAll (content.map (.append path)) (Function.update disk path (some front)) =
      Function.update disk path (some (front ++ content)) := by
  induction content generalizing front with
  | nil => simp
  | cons b content ih =>
      have hstep : Effect.apply (Function.update disk path (some front)) (.append path b) =
          Function.update disk path (some (front ++ [b])) := by
        simp [Effect.apply]
      rw [List.map_cons, applyAll_cons, hstep, ih, List.append_assoc]
      rfl

/-- All effects of a write leave the content in the file and every other file
as it was. -/
@[simp] theorem applyAll_writeFile (path : π) (content : Bytes) (disk : Disk π) :
    applyAll (writeFile path content) disk = Function.update disk path (some content) := by
  rw [writeFile, applyAll_cons]
  exact applyAll_appends path content [] disk

/-- An effect elsewhere leaves a file as it was. -/
theorem apply_of_ne {path : π} {e : Effect π} (h : e.path ≠ path) (disk : Disk π) :
    e.apply disk path = disk path := by
  cases e <;> exact Function.update_of_ne (Ne.symm h) _ _

/-- A file that is never removed stays. -/
theorem applyAll_isSome {path : π} {effects : List (Effect π)}
    (h : Effect.remove path ∉ effects) (disk : Disk π) (hsome : (disk path).isSome = true) :
    (applyAll effects disk path).isSome = true := by
  induction effects generalizing disk with
  | nil => exact hsome
  | cons e effects ih =>
      rw [List.mem_cons, not_or] at h
      rw [applyAll_cons]
      apply ih h.2
      by_cases hpath : e.path = path
      · subst hpath
        cases e with
        | truncate p => simp [Effect.apply, Effect.path]
        | append p b => simp [Effect.apply, Effect.path]
        | remove p => exact absurd rfl h.1
      · rw [apply_of_ne hpath]
        exact hsome

omit [DecidableEq π] in
theorem remove_notMem_writeFile (path target : π) (content : Bytes) :
    Effect.remove path ∉ writeFile target content := by
  simp [writeFile]

/-- Effects elsewhere leave a file as it was. -/
theorem applyAll_of_ne {path : π} {effects : List (Effect π)} (h : ∀ e ∈ effects, e.path ≠ path)
    (disk : Disk π) : applyAll effects disk path = disk path := by
  induction effects generalizing disk with
  | nil => rfl
  | cons e effects ih =>
      rw [applyAll_cons, ih (fun e' he' => h e' (List.mem_cons_of_mem _ he'))]
      exact apply_of_ne (h e List.mem_cons_self) disk

omit [DecidableEq π] in
theorem path_of_mem_writeFile {path : π} {content : Bytes} {e : Effect π}
    (h : e ∈ writeFile path content) : e.path = path := by
  rcases List.mem_cons.mp h with rfl | h
  · rfl
  · obtain ⟨_, _, rfl⟩ := List.mem_map.mp h
    rfl

omit [DecidableEq π] in
/-- A write that is cut short leaves the front of its content. -/
theorem take_writeFile (path : π) (content : Bytes) (n : Nat) :
    (writeFile path content).take (n + 1) = writeFile path (content.take n) := by
  simp only [writeFile, List.take_succ_cons, List.map_take]

end Relay.Storage
