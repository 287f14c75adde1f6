import Relay.Logic.Run

/-!
Operations on a shared state that load a plan and then run phase by phase, and
concurrent runs of them, which switch between any two phases. When an operation
makes its first store with no other one between its first and its last, and has
read nothing that has changed since, the operations come to what they come to
one after another.
-/

namespace Relay.Logic

section Phases

variable {ε L σ : Type}

/-- A step from an operation's own variables and the shared state. -/
abbrev Phase (ε L σ : Type) := L → σ → Except ε L × σ

/-- One phase after another, up to the first that fails. -/
def execute : List (Phase ε L σ) → L → σ → Except ε L × σ
  | [], l, s => (.ok l, s)
  | phase :: rest, l, s =>
      match phase l s with
      | (.ok l, s) => execute rest l s
      | (.error e, s) => (.error e, s)

theorem execute_snoc {phases : List (Phase ε L σ)} {phase : Phase ε L σ} {l l' : L} {s s' : σ}
    (h : execute phases l s = (.ok l', s')) :
    execute (phases ++ [phase]) l s = phase l' s' := by
  induction phases generalizing l s with
  | nil =>
      cases h
      simp only [List.nil_append, execute]
      split
      · rename_i heq
        exact heq.symm
      · rename_i heq
        exact heq.symm
  | cons first rest ih =>
      simp only [List.cons_append, execute] at h ⊢
      rcases hfirst : first l s with ⟨e | l₁, s₁⟩
      · rw [hfirst] at h
        cases h
      · rw [hfirst] at h
        exact ih h

theorem execute_cons_ok {phase : Phase ε L σ} {rest : List (Phase ε L σ)} {l l' : L} {s s' : σ}
    (h : execute (phase :: rest) l s = (.ok l', s')) :
    ∃ l₁ s₁, phase l s = (.ok l₁, s₁) ∧ execute rest l₁ s₁ = (.ok l', s') := by
  unfold execute at h
  rcases hphase : phase l s with ⟨e | l₁, s₁⟩
  · rw [hphase] at h
    cases h
  · rw [hphase] at h
    exact ⟨l₁, s₁, rfl, h⟩

theorem execute_snoc_ok {phases : List (Phase ε L σ)} {phase : Phase ε L σ} {l l' : L} {s s' : σ}
    (h : execute (phases ++ [phase]) l s = (.ok l', s')) :
    ∃ l₁ s₁, execute phases l s = (.ok l₁, s₁) ∧ phase l₁ s₁ = (.ok l', s') := by
  rcases hphases : execute phases l s with ⟨e | l₁, s₁⟩
  · induction phases generalizing l s with
    | nil => cases hphases
    | cons first rest ih =>
        obtain ⟨l₂, s₂, hfirst, hrest⟩ := execute_cons_ok h
        simp only [execute, hfirst] at hphases
        obtain ⟨l₃, s₃, hok, _⟩ := ih hrest hphases
        cases hok
  · rw [execute_snoc hphases] at h
    exact ⟨l₁, s₁, rfl, h⟩

/-- A phase, and whether it stores anything, by the variables it finds. -/
structure Action (ε L σ : Type) where
  phase : Phase ε L σ
  stores : L → Bool

end Phases

variable {σ : Type}

structure Operation (σ : Type) : Type 1 where
  Fault : Type
  Local : Type
  load : σ → Except Fault Local
  actions : List (Action Fault Local σ)

/-- The load and the first `n` actions, with no switch in between. -/
def Operation.replay (op : Operation σ) (n : Nat) (s : σ) : Except op.Fault op.Local × σ :=
  match op.load s with
  | .ok l => execute ((op.actions.take n).map Action.phase) l s
  | .error e => (.error e, s)

def Operation.Succeeds (op : Operation σ) (s s' : σ) : Prop :=
  ∃ l, op.replay op.actions.length s = (.ok l, s')

/-- What is said to store nothing changes nothing, and the last action always
stores. -/
structure Operation.Lawful (op : Operation σ) : Prop where
  quiet : ∀ action ∈ op.actions, ∀ l s, action.stores l = false → (action.phase l s).2 = s
  commits : ∃ action, op.actions.getLast? = some action ∧ ∀ l, action.stores l = true

theorem Operation.replay_succ {op : Operation σ} {n : Nat} {s s' : σ} {l : op.Local}
    {action : Action op.Fault op.Local σ} (h : op.replay n s = (.ok l, s'))
    (haction : op.actions[n]? = some action) : op.replay (n + 1) s = action.phase l s' := by
  unfold replay at h ⊢
  cases hload : op.load s with
  | error e =>
      rw [hload] at h
      cases h
  | ok l₀ =>
      rw [hload] at h
      dsimp only at h ⊢
      rw [List.take_add_one, haction, List.map_append]
      exact execute_snoc h

/-- An operation on its own: its load, and all its phases. -/
theorem Operation.succeeds_iff {op : Operation σ} {s s' : σ} :
    op.Succeeds s s' ↔ ∃ l l', op.load s = .ok l ∧
      execute (op.actions.map Action.phase) l s = (.ok l', s') := by
  unfold Succeeds replay
  rw [List.take_length]
  cases op.load s with
  | error e =>
      constructor
      · rintro ⟨l, h⟩
        cases h
      · rintro ⟨l, l', h, _⟩
        cases h
  | ok l =>
      constructor
      · rintro ⟨l', h⟩
        exact ⟨l, l', rfl, h⟩
      · rintro ⟨l₁, l', h, hexec⟩
        cases h
        exact ⟨l', hexec⟩

theorem Operation.Lawful.last_stores {op : Operation σ} (h : op.Lawful) {n : Nat}
    {action : Action op.Fault op.Local σ} (haction : op.actions[n]? = some action)
    (hlast : n + 1 = op.actions.length) (l : op.Local) : action.stores l = true := by
  obtain ⟨last, hget, hstores⟩ := h.commits
  rw [List.getLast?_eq_getElem?, ← hlast, Nat.add_sub_cancel, haction] at hget
  cases hget
  exact hstores l

/-! ### Concurrent runs -/

/-- How far an operation is: the actions made, its variables after them, and
whether one of them stored something. -/
inductive Progress (op : Operation σ) where
  | idle
  | reached (n : Nat) (l : op.Local) (stored : Bool)

variable {ι : Type} [DecidableEq ι] (ops : ι → Operation σ)

structure World where
  shared : σ
  progress : ∀ i, Progress (ops i)

variable {ops}

def World.begin (ops : ι → Operation σ) (s : σ) : World ops := ⟨s, fun _ => .idle⟩

def World.move (w : World ops) (i : ι) (s : σ) (p : Progress (ops i)) : World ops :=
  ⟨s, Function.update w.progress i p⟩

@[simp] theorem World.move_shared (w : World ops) (i : ι) (s : σ) (p : Progress (ops i)) :
    (w.move i s p).shared = s := rfl

@[simp] theorem World.move_self (w : World ops) (i : ι) (s : σ) (p : Progress (ops i)) :
    (w.move i s p).progress i = p := Function.update_self ..

@[simp] theorem World.move_of_ne (w : World ops) {i j : ι} (h : j ≠ i) (s : σ)
    (p : Progress (ops i)) : (w.move i s p).progress j = w.progress j :=
  Function.update_of_ne h ..

/-- One operation loads its plan or makes its next action, which succeeds. -/
inductive Interleaved : World ops → ι → World ops → Prop where
  | load {w : World ops} {i : ι} {l : (ops i).Local} : w.progress i = .idle →
      (ops i).load w.shared = .ok l → Interleaved w i (w.move i w.shared (.reached 0 l false))
  | act {w : World ops} {i : ι} {n : Nat} {l l' : (ops i).Local} {stored : Bool}
      {action : Action (ops i).Fault (ops i).Local σ} {s' : σ} :
      w.progress i = .reached n l stored → (ops i).actions[n]? = some action →
      action.phase l w.shared = (.ok l', s') →
      Interleaved w i (w.move i s' (.reached (n + 1) l' (stored || action.stores l)))

def World.Finished (w : World ops) (i : ι) : Prop :=
  ∃ l stored, w.progress i = .reached (ops i).actions.length l stored

/-- Between the first store and the last action. -/
def World.Midway (w : World ops) (i : ι) : Prop :=
  ∃ n l, w.progress i = .reached n l true ∧ n < (ops i).actions.length

/-- An operation that makes its first store is alone with it and has read
nothing that it would find changed. -/
def StoresAlone (w : World ops) (i : ι) : Prop :=
  ∀ n l action, w.progress i = .reached n l false → (ops i).actions[n]? = some action →
    action.stores l = true →
    (∀ j, ¬ w.Midway j) ∧ (ops i).replay n w.shared = (.ok l, w.shared)

/-- The operations that are done, in the order of their stores, come to `τ`;
the shared state is `τ`, or what the one operation midway has made of it. -/
structure Serialized (s₀ : σ) (w : World ops) (order : List ι) (τ : σ) : Prop where
  nodup : order.Nodup
  serial : Steps (fun s i s' => (ops i).Succeeds s s') s₀ order τ
  mem : ∀ i, i ∈ order ↔ ∃ l, w.progress i = .reached (ops i).actions.length l true
  waiting : ∀ i n l, w.progress i = .reached n l false → n < (ops i).actions.length
  shared : ((∀ i, ¬ w.Midway i) ∧ w.shared = τ) ∨
    ∃ i n l, w.progress i = .reached n l true ∧ n < (ops i).actions.length ∧
      (∀ j, w.Midway j → j = i) ∧ (ops i).replay n τ = (.ok l, w.shared)

variable {s₀ τ : σ} {w : World ops} {order : List ι}

omit [DecidableEq ι] in
theorem Serialized.begin (s₀ : σ) : Serialized s₀ (World.begin ops s₀) [] s₀ := by
  refine ⟨List.nodup_nil, .done s₀, ?_, ?_, Or.inl ⟨?_, rfl⟩⟩
  · intro i
    constructor
    · intro hmem
      cases hmem
    · rintro ⟨l, hl⟩
      cases hl
  · intro i n l hi
    cases hi
  · rintro i ⟨n, l, hi, _⟩
    cases hi

/-- An action that leaves the state and stores nothing, or a load. -/
theorem Serialized.wait {i : ι} {n : Nat} {l : (ops i).Local} (h : Serialized s₀ w order τ)
    (hfresh : w.progress i = .idle ∨ ∃ m l', w.progress i = .reached m l' false)
    (hn : n < (ops i).actions.length) :
    Serialized s₀ (w.move i w.shared (.reached n l false)) order τ := by
  have hstored : ∀ m l', w.progress i ≠ .reached m l' true := by
    intro m l' heq
    rcases hfresh with hidle | ⟨m', l'', hreached⟩
    · rw [hidle] at heq
      cases heq
    · rw [hreached] at heq
      cases heq
  have hmidway : ∀ j, (w.move i w.shared (.reached n l false)).Midway j → w.Midway j := by
    rintro j ⟨m, l', hj, hm⟩
    rcases eq_or_ne j i with rfl | hne
    · rw [World.move_self] at hj
      cases hj
    · rw [World.move_of_ne _ hne] at hj
      exact ⟨m, l', hj, hm⟩
  refine ⟨h.nodup, h.serial, ?_, ?_, ?_⟩
  · intro j
    rw [h.mem j]
    rcases eq_or_ne j i with rfl | hne
    · rw [World.move_self]
      constructor
      · rintro ⟨l', hl'⟩
        exact absurd hl' (hstored _ l')
      · rintro ⟨l', hl'⟩
        cases hl'
    · rw [World.move_of_ne _ hne]
  · intro j m l' hj
    rcases eq_or_ne j i with rfl | hne
    · rw [World.move_self] at hj
      cases hj
      exact hn
    · rw [World.move_of_ne _ hne] at hj
      exact h.waiting j m l' hj
  · rcases h.shared with ⟨hnone, hτ⟩ | ⟨j, m, l', hj, hm, honly, hreplay⟩
    · exact Or.inl ⟨fun k hk => hnone k (hmidway k hk), hτ⟩
    · refine Or.inr ⟨j, m, l', ?_, hm, fun k hk => honly k (hmidway k hk), hreplay⟩
      rcases eq_or_ne j i with rfl | hne
      · exact absurd hj (hstored m l')
      · rw [World.move_of_ne _ hne]
        exact hj

/-- An action of the one operation that has stored something. -/
theorem Serialized.store {i : ι} {n : Nat} {l l' : (ops i).Local} {stored : Bool} {s' : σ}
    (h : Serialized s₀ w order τ) (hi : w.progress i = .reached n l stored)
    (hn : n < (ops i).actions.length) (honly : ∀ j, w.Midway j → j = i)
    (hreplay : (ops i).replay (n + 1) τ = (.ok l', s')) :
    ∃ order τ, Serialized s₀ (w.move i s' (.reached (n + 1) l' true)) order τ := by
  have hnew : i ∉ order := by
    intro hmem
    obtain ⟨l₁, hl₁⟩ := (h.mem i).mp hmem
    rw [hi] at hl₁
    cases hl₁
    exact Nat.lt_irrefl _ hn
  have hwaiting : ∀ j m l₁, (w.move i s' (.reached (n + 1) l' true)).progress j =
      .reached m l₁ false → m < (ops j).actions.length := by
    intro j m l₁ hj
    rcases eq_or_ne j i with rfl | hne
    · rw [World.move_self] at hj
      cases hj
    · rw [World.move_of_ne _ hne] at hj
      exact h.waiting j m l₁ hj
  have hmidway : ∀ j, j ≠ i → ¬ (w.move i s' (.reached (n + 1) l' true)).Midway j := by
    rintro j hne ⟨m, l₁, hj, hm⟩
    rw [World.move_of_ne _ hne] at hj
    exact hne (honly j ⟨m, l₁, hj, hm⟩)
  rcases Nat.lt_or_ge (n + 1) (ops i).actions.length with hlt | hge
  · refine ⟨order, τ, h.nodup, h.serial, ?_, hwaiting, Or.inr ⟨i, n + 1, l', ?_, hlt, ?_, hreplay⟩⟩
    · intro j
      rw [h.mem j]
      rcases eq_or_ne j i with rfl | hne
      · rw [World.move_self, hi]
        constructor
        · rintro ⟨l₁, hl₁⟩
          injection hl₁ with hlen
          omega
        · rintro ⟨l₁, hl₁⟩
          injection hl₁ with hlen
          omega
      · rw [World.move_of_ne _ hne]
    · exact World.move_self ..
    · intro j hj
      by_contra hne
      exact hmidway j hne hj
  · -- That was the last action: the operation joins the serial order.
    have hlast : n + 1 = (ops i).actions.length := Nat.le_antisymm hn hge
    refine ⟨order ++ [i], s', ?_, h.serial.next ⟨l', hlast ▸ hreplay⟩, ?_, hwaiting,
      Or.inl ⟨?_, rfl⟩⟩
    · exact List.nodup_append.mpr ⟨h.nodup, List.nodup_singleton i, by
        intro j hj k hk heq
        rw [List.mem_singleton] at hk
        exact hnew (hk ▸ heq ▸ hj)⟩
    · intro j
      rw [List.mem_append, List.mem_singleton]
      rcases eq_or_ne j i with rfl | hne
      · rw [World.move_self, ← hlast]
        exact ⟨fun _ => ⟨l', rfl⟩, fun _ => Or.inr rfl⟩
      · rw [World.move_of_ne _ hne, or_iff_left hne]
        exact h.mem j
    · rintro j ⟨m, l₁, hj, hm⟩
      rcases eq_or_ne j i with rfl | hne
      · rw [World.move_self] at hj
        cases hj
        exact absurd hm (by omega)
      · exact hmidway j hne ⟨m, l₁, hj, hm⟩

theorem Serialized.step {w' : World ops} {i : ι} (hlawful : ∀ i, (ops i).Lawful)
    (h : Serialized s₀ w order τ) (hstep : Interleaved w i w') (halone : StoresAlone w i) :
    ∃ order τ, Serialized s₀ w' order τ := by
  cases hstep with
  | load hidle hload =>
      have hpos : 0 < (ops i).actions.length := by
        obtain ⟨last, hget, _⟩ := (hlawful i).commits
        cases hactions : (ops i).actions with
        | nil =>
            rw [hactions] at hget
            cases hget
        | cons first rest => exact Nat.succ_pos _
      exact ⟨order, τ, h.wait (Or.inl hidle) hpos⟩
  | @act n l l' stored action s' hi haction hphase =>
      obtain ⟨hn, rfl⟩ := List.getElem?_eq_some_iff.mp haction
      cases stored with
      | true =>
          -- Only one operation is midway, so it is this one.
          rcases h.shared with ⟨hnone, _⟩ | ⟨j, m, l₁, hj, hm, honly, hreplay⟩
          · exact absurd ⟨n, l, hi, hn⟩ (hnone i)
          · obtain rfl := honly i ⟨n, l, hi, hn⟩
            rw [hi] at hj
            cases hj
            exact h.store hi hn honly ((Operation.replay_succ hreplay haction).trans hphase)
      | false =>
          cases hstores : (ops i).actions[n].stores l with
          | false =>
              have hquiet := (hlawful i).quiet _ (List.getElem_mem hn) l w.shared hstores
              rw [hphase] at hquiet
              dsimp only at hquiet
              subst hquiet
              have hnext : n + 1 < (ops i).actions.length := by
                rcases Nat.lt_or_ge (n + 1) (ops i).actions.length with hlt | hge
                · exact hlt
                · have hlast := (hlawful i).last_stores haction (Nat.le_antisymm hn hge) l
                  rw [hstores] at hlast
                  cases hlast
              exact ⟨order, τ, h.wait (Or.inr ⟨n, l, hi⟩) hnext⟩
          | true =>
              obtain ⟨hnone, hreplay⟩ := halone n l _ hi haction hstores
              have hτ : w.shared = τ := by
                rcases h.shared with ⟨_, hτ⟩ | ⟨j, m, l₁, hj, hm, _, _⟩
                · exact hτ
                · exact absurd ⟨m, l₁, hj, hm⟩ (hnone j)
              rw [hτ] at hreplay hphase
              exact h.store hi hn (fun j hj => absurd hj (hnone j))
                ((Operation.replay_succ hreplay haction).trans hphase)

/-- A run whose first stores are made alone ends in the state that the
operations come to one after another. -/
theorem serializable (hlawful : ∀ i, (ops i).Lawful) {events : List ι}
    (run : Steps (guarded Interleaved StoresAlone) (World.begin ops s₀) events w)
    (hfinished : ∀ i, w.Finished i) :
    ∃ order, order.Nodup ∧ (∀ i, i ∈ order) ∧
      Steps (fun s i s' => (ops i).Succeeds s s') s₀ order w.shared := by
  have hserialized : ∃ order τ, Serialized s₀ w order τ := by
    apply run.invariant ⟨[], s₀, Serialized.begin s₀⟩
    rintro t i u ⟨order, τ, ht⟩ ⟨hstep, halone⟩
    exact ht.step hlawful hstep halone
  obtain ⟨order, τ, h⟩ := hserialized
  have hdone : ∀ i, ∃ l, w.progress i = .reached (ops i).actions.length l true := by
    intro i
    obtain ⟨l, stored, hi⟩ := hfinished i
    cases stored with
    | true => exact ⟨l, hi⟩
    | false => exact absurd (h.waiting i _ l hi) (Nat.lt_irrefl _)
  have hshared : w.shared = τ := by
    rcases h.shared with ⟨_, hτ⟩ | ⟨i, n, l, hi, hn, _, _⟩
    · exact hτ
    · obtain ⟨l', hl'⟩ := hdone i
      rw [hi] at hl'
      cases hl'
      exact absurd hn (Nat.lt_irrefl _)
  refine ⟨order, h.nodup, fun i => (h.mem i).mpr (hdone i), ?_⟩
  rw [hshared]
  exact h.serial

/-! ### Operations that run without a switch -/

/-- The rest of an operation that is under way. -/
theorem Interleaved.finish {w : World ops} {i : ι} {n : Nat} {l l' : (ops i).Local} {stored : Bool} {s' : σ}
    (hi : w.progress i = .reached n l stored) (hn : n ≤ (ops i).actions.length)
    (hexec : execute (((ops i).actions.drop n).map Action.phase) l w.shared = (.ok l', s')) :
    ∃ events w', Steps Interleaved w events w' ∧ w'.shared = s' ∧ w'.Finished i ∧
      ∀ j, j ≠ i → w'.progress j = w.progress j := by
  rcases Nat.lt_or_ge n (ops i).actions.length with hlt | hge
  · rw [List.drop_eq_getElem_cons hlt, List.map_cons] at hexec
    obtain ⟨l₁, s₁, hphase, hrest⟩ := execute_cons_ok hexec
    have haction : (ops i).actions[n]? = some (ops i).actions[n] := List.getElem?_eq_getElem hlt
    have hstep := Interleaved.act hi haction hphase
    obtain ⟨events, w', hrun, hshared, hfinished, hothers⟩ :=
      Interleaved.finish (World.move_self w i s₁ _) hlt hrest
    refine ⟨i :: events, w', (Steps.single hstep).append hrun, hshared, hfinished, ?_⟩
    intro j hj
    rw [hothers j hj, World.move_of_ne w hj]
  · obtain rfl : n = (ops i).actions.length := Nat.le_antisymm hn hge
    rw [List.drop_length] at hexec
    cases hexec
    exact ⟨[], w, .done w, rfl, ⟨_, stored, hi⟩, fun _ _ => rfl⟩
termination_by (ops i).actions.length - n

theorem Operation.replay_of_succ {op : Operation σ} {n : Nat} {s s' : σ} {l' : op.Local}
    {action : Action op.Fault op.Local σ} (haction : op.actions[n]? = some action)
    (h : op.replay (n + 1) s = (.ok l', s')) :
    ∃ l s₁, op.replay n s = (.ok l, s₁) ∧ action.phase l s₁ = (.ok l', s') := by
  unfold replay at h ⊢
  cases hload : op.load s with
  | error e =>
      rw [hload] at h
      cases h
  | ok l₀ =>
      rw [hload] at h
      dsimp only at h ⊢
      rw [List.take_add_one, haction, List.map_append] at h
      exact execute_snoc_ok h

/-- An operation up to its action `n` while no other one is midway. -/
private theorem solo_upto {i : ι} (hlawful : (ops i).Lawful) (hidle : w.progress i = .idle)
    (hnone : ∀ j, ¬ w.Midway j) {n : Nat} (hn : n ≤ (ops i).actions.length) {l : (ops i).Local}
    {s : σ} (hreplay : (ops i).replay n w.shared = (.ok l, s)) :
    ∃ events stored, Steps (guarded Interleaved StoresAlone) w events
        (w.move i s (.reached n l stored)) ∧ (stored = false → s = w.shared) := by
  induction n generalizing l s with
  | zero =>
      unfold Operation.replay at hreplay
      cases hload : (ops i).load w.shared with
      | error e =>
          rw [hload] at hreplay
          cases hreplay
      | ok l₀ =>
          rw [hload] at hreplay
          cases hreplay
          refine ⟨[i], false, Steps.single ⟨.load hidle hload, ?_⟩, fun _ => rfl⟩
          intro n l action hi
          rw [hidle] at hi
          cases hi
  | succ n ih =>
      have haction : (ops i).actions[n]? = some (ops i).actions[n] := List.getElem?_eq_getElem hn
      obtain ⟨l₁, s₁, hbefore, hphase⟩ := Operation.replay_of_succ haction hreplay
      obtain ⟨events, stored, hrun, hsame⟩ := ih (Nat.le_of_succ_le hn) hbefore
      have hself : (w.move i s₁ (.reached n l₁ stored)).progress i = .reached n l₁ stored :=
        World.move_self ..
      have hstep := Interleaved.act hself haction hphase
      have hmove : (w.move i s₁ (.reached n l₁ stored)).move i s
          (.reached (n + 1) l (stored || (ops i).actions[n].stores l₁)) =
          w.move i s (.reached (n + 1) l (stored || (ops i).actions[n].stores l₁)) := by
        unfold World.move
        rw [Function.update_idem]
      rw [hmove] at hstep
      refine ⟨events ++ [i], _, hrun.next ⟨hstep, ?_⟩, ?_⟩
      · intro m l₂ action hi _ _
        rw [hself] at hi
        cases hi
        refine ⟨?_, ?_⟩
        · rintro j ⟨m, l₃, hj, hm⟩
          rcases eq_or_ne j i with rfl | hne
          · rw [hself] at hj
            cases hj
          · rw [World.move_of_ne w hne] at hj
            exact hnone j ⟨m, l₃, hj, hm⟩
        · have hshared := hsame rfl
          subst hshared
          exact hbefore
      · intro hstored
        rw [Bool.or_eq_false_iff] at hstored
        have hquiet := hlawful.quiet _ (List.getElem_mem hn) l₁ s₁ hstored.2
        rw [hphase] at hquiet
        exact hquiet.trans (hsame hstored.1)

/-- A whole operation while no other one is midway meets the guard. -/
theorem Interleaved.solo {i : ι} {s' : σ} (hlawful : (ops i).Lawful)
    (hidle : w.progress i = .idle) (hnone : ∀ j, ¬ w.Midway j)
    (hsucceeds : (ops i).Succeeds w.shared s') :
    ∃ events w', Steps (guarded Interleaved StoresAlone) w events w' ∧ w'.shared = s' ∧
      w'.Finished i ∧ ∀ j, j ≠ i → w'.progress j = w.progress j := by
  obtain ⟨l, hreplay⟩ := hsucceeds
  obtain ⟨events, stored, hrun, _⟩ := solo_upto hlawful hidle hnone (Nat.le_refl _) hreplay
  exact ⟨events, _, hrun, rfl, ⟨l, stored, World.move_self ..⟩,
    fun j hj => World.move_of_ne w hj _ _⟩

end Relay.Logic
