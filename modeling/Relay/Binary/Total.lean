import Relay.Binary.Scan

/-!
When a computation panics. A sequence panics at the first of its steps that
does, reads inside a buffer do not, and a byte string whose length is a
multiple of a width is the concatenation of its records of that width.
-/

namespace Relay.Binary

variable {ε σ α β : Type}

theorem run_bind_eq_panicked {action : Run ε α} {next : α → Run ε β} :
    (action >>= next) = panicked ↔ action = panicked ∨ ∃ a, action = .ok a ∧ next a = panicked := by
  cases action with
  | ok a => simp [panicked]
  | error e =>
      constructor
      · intro h
        cases h
        exact Or.inl rfl
      · rintro (h | ⟨a, h, _⟩)
        · cases h
          rfl
        · cases h

/-- The computation does not panic, and `P` holds of what it returns. -/
def Yields (P : α → Prop) (action : Run ε α) : Prop :=
  action ≠ panicked ∧ ∀ a, action = .ok a → P a

theorem Yields.ok {P : α → Prop} {a : α} (h : P a) : Yields P (.ok a : Run ε α) := by
  refine ⟨(fun hpanic => by cases hpanic), ?_⟩
  intro a' ha'
  cases ha'
  exact h

theorem Yields.fail {P : α → Prop} (e : ε) : Yields P (fail e : Run ε α) :=
  ⟨(fun hpanic => by cases hpanic), (fun a ha => by cases ha)⟩

theorem Yields.bind {P : α → Prop} {Q : β → Prop} {action : Run ε α} {next : α → Run ε β}
    (h : Yields P action) (hnext : ∀ a, P a → Yields Q (next a)) : Yields Q (action >>= next) := by
  constructor
  · rw [Ne, run_bind_eq_panicked]
    rintro (hpanic | ⟨a, ha, hpanic⟩)
    · exact h.1 hpanic
    · exact (hnext a (h.2 a ha)).1 hpanic
  · intro b hb
    obtain ⟨a, ha, hb⟩ := run_bind_eq_ok.mp hb
    exact (hnext a (h.2 a ha)).2 b hb

theorem byteAt_of_lt {bytes : Bytes} {i : Nat} (h : i < bytes.length) :
    (byteAt bytes i : Run ε UInt8) = .ok bytes[i] := by
  simp [byteAt, h]

theorem slice_of_le {bytes : Bytes} {lo hi : Nat} (hlo : lo ≤ hi) (hhi : hi ≤ bytes.length) :
    (slice bytes lo hi : Run ε Bytes) = .ok ((bytes.drop lo).take (hi - lo)) :=
  if_pos ⟨hlo, hhi⟩

theorem byteAt_eq_ok {bytes : Bytes} {i : Nat} {b : UInt8} :
    (byteAt bytes i : Run ε UInt8) = .ok b ↔ bytes[i]? = some b := by
  unfold byteAt
  cases bytes[i]? with
  | none => simp [panicked]
  | some c => simp

theorem slice_eq_ok {bytes out : Bytes} {lo hi : Nat} :
    (slice bytes lo hi : Run ε Bytes) = .ok out ↔
      (lo ≤ hi ∧ hi ≤ bytes.length) ∧ out = (bytes.drop lo).take (hi - lo) := by
  unfold slice
  split
  · rename_i hfits
    simp [hfits, eq_comm]
  · rename_i hfits
    simp [hfits, panicked]

theorem checkedAdd_eq_ok {a b c : Nat} :
    (checkedAdd a b : Run ε Nat) = .ok c ↔ a + b < 2 ^ 64 ∧ c = a + b := by
  unfold checkedAdd
  split
  · rename_i hfits
    rw [Except.ok.injEq]
    exact ⟨fun h => ⟨hfits, h.symm⟩, fun h => h.2.symm⟩
  · rename_i hfits
    exact ⟨(fun h => by cases h), (fun h => absurd h.1 hfits)⟩

/-- The fold of steps panics when it gets to a step that does. -/
theorem foldlM_eq_panicked {step : σ → α → Run ε σ} {bad : α → Prop} {good : σ → α → σ}
    (hbad : ∀ s x, bad x → step s x = panicked)
    (hgood : ∀ s x, ¬ bad x → step s x = .ok (good s x)) {xs : List α} {s : σ} :
    xs.foldlM step s = panicked ↔ ∃ x ∈ xs, bad x := by
  induction xs generalizing s with
  | nil => simp [panicked, pure, Except.pure]
  | cons x xs ih =>
      rw [List.foldlM_cons]
      by_cases hx : bad x
      · rw [hbad s x hx]
        constructor
        · intro _
          exact ⟨x, List.mem_cons_self, hx⟩
        · intro _
          rfl
      · rw [hgood s x hx, run_ok_bind, ih]
        simp [hx]

/-- The fold of steps that all go through. -/
theorem foldlM_of_good {step : σ → α → Run ε σ} {good : σ → α → σ} {xs : List α}
    (hgood : ∀ s, ∀ x ∈ xs, step s x = .ok (good s x)) (s : σ) :
    xs.foldlM step s = .ok (xs.foldl good s) := by
  induction xs generalizing s with
  | nil => rfl
  | cons x xs ih =>
      rw [List.foldlM_cons, hgood s x List.mem_cons_self, run_ok_bind, List.foldl_cons]
      exact ih (fun s y hy => hgood s y (List.mem_cons_of_mem x hy)) (good s x)

/-- Every step of a fold that goes through has gone through. -/
theorem foldlM_eq_ok_mem {step : σ → α → Except ε σ} {xs : List α} {s out : σ}
    (h : xs.foldlM step s = .ok out) {x : α} (hx : x ∈ xs) :
    ∃ before after, step before x = .ok after := by
  induction xs generalizing s with
  | nil => cases hx
  | cons y ys ih =>
      rw [List.foldlM_cons] at h
      obtain ⟨next, hnext, hrest⟩ := run_bind_eq_ok.mp h
      rcases List.mem_cons.mp hx with rfl | hlater
      · exact ⟨s, next, hnext⟩
      · exact ih hrest hlater

/-- What every turn of a loop keeps, the loop keeps. -/
theorem whileLt_preserves {P : σ → Prop} {len : Nat} {body : Nat → σ → Run ε (Nat × σ)}
    (hbody : ∀ i s next s', P s → body i s = .ok (next, s') → P s') {fuel i : Nat} {s out : σ}
    (h : whileLt len body fuel i s = .ok out) (hs : P s) : P out := by
  induction fuel generalizing i s with
  | zero =>
      rw [whileLt] at h
      split at h
      · cases h
      · cases h
        exact hs
  | succ fuel ih =>
      rw [whileLt] at h
      split at h
      · obtain ⟨⟨next, s'⟩, hturn, hrest⟩ := run_bind_eq_ok.mp h
        exact ih hrest (hbody i s next s' hs hturn)
      · cases h
        exact hs

/-- The records of `width` bytes that `bytes` consists of. -/
def recordsOf (width : Nat) (bytes : Bytes) : List Bytes :=
  (List.range (bytes.length / width)).map fun i => (bytes.drop (i * width)).take width

private theorem flatten_records (width n : Nat) (bytes : Bytes) :
    ((List.range n).map fun i => (bytes.drop (i * width)).take width).flatten =
      bytes.take (n * width) := by
  induction n with
  | zero => simp
  | succ n ih =>
      rw [List.range_succ, List.map_append, List.flatten_append, ih, Nat.succ_mul, List.take_add]
      simp

theorem flatten_recordsOf {width : Nat} {bytes : Bytes} (h : bytes.length % width = 0) :
    (recordsOf width bytes).flatten = bytes := by
  rw [recordsOf, flatten_records, Nat.div_mul_cancel (Nat.dvd_of_mod_eq_zero h), List.take_length]

/-- The records of a concatenation are what was put together. -/
theorem recordsOf_flatMap {width : Nat} (hpos : 0 < width) {enc : α → Bytes}
    (hwidth : ∀ x, (enc x).length = width) (xs : List α) :
    recordsOf width (xs.flatMap enc) = xs.map enc := by
  induction xs with
  | nil => simp [recordsOf]
  | cons x xs ih =>
      have hlength : (enc x ++ xs.flatMap enc).length / width =
          (xs.flatMap enc).length / width + 1 := by
        rw [List.length_append, hwidth, Nat.add_comm, Nat.add_div_right _ hpos]
      have hnext : ∀ i, (enc x ++ xs.flatMap enc).drop ((i + 1) * width) =
          (xs.flatMap enc).drop (i * width) := by
        intro i
        rw [Nat.succ_mul, Nat.add_comm, ← List.drop_drop, List.drop_left' (hwidth x)]
      rw [List.flatMap_cons, recordsOf, hlength, List.range_succ_eq_map, List.map_cons,
        List.map_map, List.map_cons, ← ih, recordsOf]
      simp only [Nat.zero_mul, List.drop_zero, List.take_left' (hwidth x)]
      congr 1
      apply List.map_congr_left
      intro i _
      exact congrArg (List.take width) (hnext i)

theorem length_of_mem_recordsOf {width : Nat} {bytes record : Bytes}
    (h : record ∈ recordsOf width bytes) : record.length = width := by
  obtain ⟨i, hi, rfl⟩ := List.mem_map.mp h
  have hlt := List.mem_range.mp hi
  have hle : (i + 1) * width ≤ bytes.length := by
    calc (i + 1) * width ≤ bytes.length / width * width := Nat.mul_le_mul_right _ hlt
      _ ≤ bytes.length := Nat.div_mul_le_self _ _
  rw [Nat.succ_mul] at hle
  rw [List.length_take, List.length_drop]
  omega

end Relay.Binary
