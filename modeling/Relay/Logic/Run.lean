import Mathlib.Tactic

/-!
Finite runs of a labelled step relation, and the two ways facts travel along
them: an invariant of every step, and an invariant of the steps that meet a
guard.
-/

namespace Relay.Logic

variable {σ ε : Type}

/-- A run from `s` to `t` with its labels in order. -/
inductive Steps (step : σ → ε → σ → Prop) : σ → List ε → σ → Prop where
  | done (s : σ) : Steps step s [] s
  | next {s t u : σ} {es : List ε} {e : ε} :
      Steps step s es t → step t e u → Steps step s (es ++ [e]) u

/-- The steps taken from states and with labels that meet the guard. -/
def guarded (step : σ → ε → σ → Prop) (guard : σ → ε → Prop) : σ → ε → σ → Prop :=
  fun s e t => step s e t ∧ guard s e

/-- What every step preserves holds at the end of every run. -/
theorem Steps.invariant {step : σ → ε → σ → Prop} {Inv : σ → Prop} {s t : σ} {es : List ε}
    (run : Steps step s es t) (start : Inv s)
    (preserves : ∀ t e u, Inv t → step t e u → Inv u) : Inv t := by
  induction run with
  | done => exact start
  | next _ hstep ih => exact preserves _ _ _ ih hstep

theorem Steps.mono {step step' : σ → ε → σ → Prop} {s t : σ} {es : List ε}
    (run : Steps step s es t) (h : ∀ s e t, step s e t → step' s e t) : Steps step' s es t := by
  induction run with
  | done => exact .done _
  | next _ hstep ih => exact ih.next (h _ _ _ hstep)

/-- A run whose labels meet a guard in every state. -/
theorem Steps.guarded {step : σ → ε → σ → Prop} {guard : σ → ε → Prop} {s t : σ} {es : List ε}
    (run : Steps step s es t) (h : ∀ e ∈ es, ∀ s, guard s e) :
    Steps (guarded step guard) s es t := by
  induction run with
  | done => exact .done _
  | next _ hstep ih =>
      have hfirst := ih fun e he => h e (List.mem_append_left _ he)
      exact hfirst.next ⟨hstep, h _ (List.mem_append_right _ (List.mem_singleton.mpr rfl)) _⟩

theorem Steps.single {step : σ → ε → σ → Prop} {s t : σ} {e : ε} (h : step s e t) :
    Steps step s [e] t := by
  have start : Steps step s [] s := .done s
  have run := start.next h
  simpa using run

/-- A run of a step function is a run of its relation. -/
theorem Steps.of_foldlM {f : σ → ε → Option σ} {s t : σ} {es : List ε}
    (h : es.foldlM f s = some t) : Steps (fun s e t => f s e = some t) s es t := by
  induction es using List.reverseRecOn generalizing t with
  | nil =>
      cases h
      exact .done s
  | append_singleton es e ih =>
      rw [List.foldlM_append] at h
      obtain ⟨u, hfirst, hlast⟩ := Option.bind_eq_some_iff.mp h
      have hstep : f u e = some t := by simpa using hlast
      exact (ih hfirst).next hstep

theorem Steps.append {step : σ → ε → σ → Prop} {s t u : σ} {es fs : List ε}
    (first : Steps step s es t) (second : Steps step t fs u) : Steps step s (es ++ fs) u := by
  induction second with
  | done => simpa using first
  | next _ hstep ih =>
      rw [← List.append_assoc]
      exact ih.next hstep

/-- What is said of each step of a list and of the steps before it, one step at
a time. -/
theorem forall_step_cons {P : List ε → ε → Prop} {e : ε} {es : List ε} :
    (∀ seen a, seen ++ [a] <+: e :: es → P seen a) ↔
      P [] e ∧ ∀ seen a, seen ++ [a] <+: es → P (e :: seen) a := by
  constructor
  · intro h
    refine ⟨h [] e (by simp), fun seen a hseen => h (e :: seen) a ?_⟩
    exact List.cons_prefix_cons.mpr ⟨rfl, hseen⟩
  · rintro ⟨hfirst, hrest⟩ seen a hseen
    cases seen with
    | nil =>
        obtain ⟨rfl, _⟩ := List.cons_prefix_cons.mp hseen
        exact hfirst
    | cons x seen =>
        obtain ⟨rfl, hmore⟩ := List.cons_prefix_cons.mp hseen
        exact hrest seen a hmore

theorem forall_step_nil {P : List ε → ε → Prop} :
    ∀ seen a, seen ++ [a] <+: ([] : List ε) → P seen a := by
  intro seen a hseen
  simp at hseen

end Relay.Logic
