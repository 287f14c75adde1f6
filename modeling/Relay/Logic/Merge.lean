import Mathlib.Data.List.Basic

/-!
Programs that run side by side on one state: lists of atomic operations, and
the histories that switch between them at will. What a history comes to in one
component of the state is a fold of the operations that touch it, and up to
their order these are the ones of the programs.
-/

namespace Relay.Logic

variable {α β γ ι σ : Type}

/-- The history is all the programs, each in its own order, switched between
after any operation. -/
inductive Merged : List (List α) → List α → Prop where
  | done {programs : List (List α)} (h : ∀ program ∈ programs, program = []) :
      Merged programs []
  | step {before after : List (List α)} {op : α} {rest history : List α}
      (h : Merged (before ++ rest :: after) history) :
      Merged (before ++ (op :: rest) :: after) (op :: history)

/-- One program after another. -/
theorem Merged.inTurn (programs : List (List α)) : Merged programs programs.flatten := by
  -- the programs before are done
  have hturn : ∀ (rest done : List (List α)), (∀ program ∈ done, program = []) →
      Merged (done ++ rest) rest.flatten := by
    intro rest
    induction rest with
    | nil =>
        intro done hdone
        rw [List.append_nil]
        exact .done hdone
    | cons program rest ih =>
        intro done hdone
        induction program with
        | nil =>
            have hnext := ih (done ++ [[]]) (by
              intro program hprogram
              rcases List.mem_append.mp hprogram with h | h
              · exact hdone program h
              · exact List.mem_singleton.mp h)
            rw [List.append_assoc, List.singleton_append] at hnext
            exact hnext
        | cons op program ihProgram => exact .step ihProgram
  exact hturn programs [] (fun program h => absurd h List.not_mem_nil)

/-- A history has the operations of its programs. -/
theorem Merged.perm {programs : List (List α)} {history : List α}
    (h : Merged programs history) : history.Perm programs.flatten := by
  induction h with
  | done h => rw [List.flatten_eq_nil_iff.mpr h]
  | @step before after op rest history _ ih =>
      have hcons : (op :: history).Perm (op :: (before.flatten ++ (rest ++ after.flatten))) := by
        simpa only [List.flatten_append, List.flatten_cons] using ih.cons op
      rw [List.flatten_append, List.flatten_cons, List.cons_append]
      exact hcons.trans List.perm_middle.symm

/-- What a history shows of its operations is, up to its order, what its
programs show, when none shows more than one thing. -/
theorem Merged.observed {calls : List ι} {program : ι → List α} {history : List α}
    (h : Merged (calls.map program) history) (seen : α → Option β) {shown : ι → Option β}
    (hshown : ∀ call, (program call).filterMap seen = (shown call).toList) :
    (history.filterMap seen).Perm (calls.filterMap shown) := by
  have hprograms : (calls.map program).flatten.filterMap seen = calls.filterMap shown := by
    rw [← List.flatMap_def, List.filterMap_flatMap]
    simp only [hshown]
    exact List.filterMap_eq_flatMap_toList shown calls |>.symm
  rw [← hprograms]
  exact h.perm.filterMap seen

/-- A component of the state that is updated by the operations it sees. -/
theorem foldl_component {apply : σ → α → σ} (read : σ → β) (seen : α → Option γ)
    (update : β → γ → β)
    (h : ∀ s op, read (apply s op) = ((seen op).map (update (read s))).getD (read s))
    (history : List α) (s : σ) :
    read (history.foldl apply s) = (history.filterMap seen).foldl update (read s) := by
  induction history generalizing s with
  | nil => rfl
  | cons op history ih =>
      rw [List.foldl_cons, ih, h]
      cases hseen : seen op with
      | none => rw [List.filterMap_cons_none hseen, Option.map_none, Option.getD_none]
      | some y =>
          rw [List.filterMap_cons_some hseen, List.foldl_cons, Option.map_some, Option.getD_some]

end Relay.Logic
