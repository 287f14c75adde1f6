import Relay.Stats.Collector

/-!
The latency average of `update_ema`: how far rounding down at every update can
take it from what was observed.
-/

namespace Relay.Stats

open Binary

/-! ### Means rounded down -/

/-- One part of `x` and `k - 1` parts of `v`, each rounded down. -/
def floorMean (k x v : Nat) : Nat := x / k + v * (k - 1) / k

/-- A multiple of `k` that neither is below bounds the mean from below. -/
theorem le_floorMean {k m x v : Nat} (hk : 0 < k) (hx : m ≤ x) (hv : k * (m / k) ≤ v) :
    k * (m / k) ≤ floorMean k x v := by
  have hfirst : m / k ≤ x / k := Nat.div_le_div_right hx
  have hsecond : m / k * (k - 1) ≤ v * (k - 1) / k := by
    rw [Nat.le_div_iff_mul_le hk]
    calc m / k * (k - 1) * k = k * (m / k) * (k - 1) := by ring
      _ ≤ v * (k - 1) := Nat.mul_le_mul_right (k - 1) hv
  calc k * (m / k) = m / k + m / k * (k - 1) := by
        obtain ⟨j, rfl⟩ := Nat.exists_eq_succ_of_ne_zero hk.ne'
        simp only [Nat.succ_eq_add_one, Nat.add_sub_cancel]
        ring
    _ ≤ floorMean k x v := Nat.add_le_add hfirst hsecond

theorem floorMean_le {k M x v : Nat} (hk : 0 < k) (hx : x ≤ M) (hv : v ≤ M) :
    floorMean k x v ≤ M := by
  have hsum : x / k + v * (k - 1) / k ≤ (x + v * (k - 1)) / k := Nat.div_add_div_le_add_div
  have htop : x + v * (k - 1) ≤ M * k := by
    obtain ⟨j, rfl⟩ := Nat.exists_eq_succ_of_ne_zero hk.ne'
    calc x + v * (j + 1 - 1) ≤ M + M * j := Nat.add_le_add hx (Nat.mul_le_mul_right j hv)
      _ = M * (j + 1) := by ring
  calc floorMean k x v ≤ (x + v * (k - 1)) / k := hsum
    _ ≤ M * k / k := Nat.div_le_div_right htop
    _ = M := Nat.mul_div_cancel M hk

/-! ### The average -/

def checkedMul64 (a b : BitVec 64) : Run Empty (BitVec 64) :=
  if a.toNat * b.toNat < 2 ^ 64 then .ok (a * b) else panicked

def checkedAdd64 (a b : BitVec 64) : Run Empty (BitVec 64) :=
  if a.toNat + b.toNat < 2 ^ 64 then .ok (a + b) else panicked

/-- `update_ema` with its arithmetic checked for overflow. -/
def updateEmaChecked (current observed : BitVec 64) : Run Empty (BitVec 64) :=
  if current = 0 then .ok observed
  else do
    let scaled ← checkedMul64 current 9
    checkedAdd64 (observed / 10) (scaled / 10)

/-- An average that has observed something, in its bounds. -/
def Within (m M : Nat) (v : BitVec 64) : Prop := 10 * (m / 10) ≤ v.toNat ∧ v.toNat ≤ M

variable {m M : Nat}

/-- The first observation is taken as it is. -/
theorem update_zero {x : BitVec 64} (hx : m ≤ x.toNat ∧ x.toNat ≤ M) :
    updateEmaChecked 0 x = .ok (updateEma 0 x) ∧ Within m M (updateEma 0 x) := by
  refine ⟨rfl, ?_, hx.2⟩
  exact (Nat.mul_div_le m 10).trans hx.1

theorem update_within (hm : 10 ≤ m) (hM : 9 * M < 2 ^ 64) {v x : BitVec 64} (hv : Within m M v)
    (hx : m ≤ x.toNat ∧ x.toNat ≤ M) :
    updateEmaChecked v x = .ok (updateEma v x) ∧ Within m M (updateEma v x) := by
  obtain ⟨hlow, hhigh⟩ := hv
  have hne : v ≠ 0 := by
    rintro rfl
    have hzero : (0 : BitVec 64).toNat = 0 := rfl
    omega
  have hmul : (v * 9).toNat = v.toNat * 9 := by
    rw [BitVec.toNat_mul]
    apply Nat.mod_eq_of_lt
    change v.toNat * 9 < 2 ^ 64
    omega
  have hmean : (x / 10).toNat + (v * 9 / 10).toNat = floorMean 10 x.toNat v.toNat := by
    rw [BitVec.toNat_udiv, BitVec.toNat_udiv, hmul]
    rfl
  have hle : floorMean 10 x.toNat v.toNat ≤ M := floorMean_le (by decide) hx.2 hhigh
  have hsum : (x / 10).toNat + (v * 9 / 10).toNat < 2 ^ 64 := by omega
  have hvalue : (updateEma v x).toNat = floorMean 10 x.toNat v.toNat := by
    rw [updateEma, if_neg hne, BitVec.toNat_add, Nat.mod_eq_of_lt hsum, hmean]
  refine ⟨?_, ?_, ?_⟩
  · have hfits : v.toNat * (9 : BitVec 64).toNat < 2 ^ 64 := by
      change v.toNat * 9 < 2 ^ 64
      omega
    rw [updateEmaChecked, if_neg hne, checkedMul64, if_pos hfits, run_ok_bind, checkedAdd64,
      if_pos hsum, updateEma, if_neg hne]
  · rw [hvalue]
    exact le_floorMean (by decide) hx.1 hlow
  · rw [hvalue]
    exact hle

/-- Further observations, from an average in its bounds. -/
theorem run_within (hm : 10 ≤ m) (hM : 9 * M < 2 ^ 64) {xs : List (BitVec 64)} {v : BitVec 64}
    (hv : Within m M v) (hxs : ∀ x ∈ xs, m ≤ x.toNat ∧ x.toNat ≤ M) :
    xs.foldlM updateEmaChecked v = .ok (xs.foldl updateEma v) ∧
      Within m M (xs.foldl updateEma v) := by
  induction xs generalizing v with
  | nil => exact ⟨rfl, hv⟩
  | cons x xs ih =>
      obtain ⟨hstep, hnext⟩ := update_within hm hM hv (hxs x List.mem_cons_self)
      obtain ⟨hrun, hend⟩ := ih hnext (fun y hy => hxs y (List.mem_cons_of_mem x hy))
      refine ⟨?_, hend⟩
      rw [List.foldlM_cons, hstep, run_ok_bind, hrun, List.foldl_cons]

/-- From the zero state, after each of the observations: nothing has
overflowed, and the average is in its bounds. -/
theorem observed_within (hm : 10 ≤ m) (hM : 9 * M < 2 ^ 64) {xs : List (BitVec 64)} (hne : xs ≠ [])
    (hxs : ∀ x ∈ xs, m ≤ x.toNat ∧ x.toNat ≤ M) :
    xs.foldlM updateEmaChecked 0 = .ok (xs.foldl updateEma 0) ∧
      Within m M (xs.foldl updateEma 0) := by
  obtain ⟨x, rest, rfl⟩ := List.exists_cons_of_ne_nil hne
  obtain ⟨hstep, hfirst⟩ := update_zero (hxs x List.mem_cons_self)
  obtain ⟨hrun, hend⟩ := run_within hm hM hfirst (fun y hy => hxs y (List.mem_cons_of_mem x hy))
  refine ⟨?_, hend⟩
  rw [List.foldlM_cons, hstep, run_ok_bind, hrun, List.foldl_cons]

/-- The average stays between the observations, the lower one rounded down to
a multiple of ten, and within nine of observations that are all the same. -/
theorem average_within (m M : Nat) (hm : 10 ≤ m) (hM : 9 * M < 2 ^ 64) (xs : List (BitVec 64))
    (hxs : ∀ x ∈ xs, m ≤ x.toNat ∧ x.toNat ≤ M) :
    ∀ seen, seen <+: xs → seen ≠ [] →
      seen.foldlM updateEmaChecked 0 = .ok (seen.foldl updateEma 0) ∧
      (10 * (m / 10) ≤ (seen.foldl updateEma 0).toNat ∧ (seen.foldl updateEma 0).toNat ≤ M) ∧
      ∀ x, (∀ y ∈ seen, y = x) →
        x.toNat ≤ (seen.foldl updateEma 0).toNat + 9 ∧
          (seen.foldl updateEma 0).toNat ≤ x.toNat := by
  intro seen hseen hne
  have hbounds : ∀ x ∈ seen, m ≤ x.toNat ∧ x.toNat ≤ M := fun x hx => hxs x (hseen.subset hx)
  obtain ⟨hrun, hwithin⟩ := observed_within hm hM hne hbounds
  refine ⟨hrun, hwithin, ?_⟩
  intro x hsame
  obtain ⟨y, hy⟩ := List.exists_mem_of_ne_nil seen hne
  have hx := hbounds y hy
  rw [hsame y hy] at hx
  have hconstant : ∀ z ∈ seen, x.toNat ≤ z.toNat ∧ z.toNat ≤ x.toNat := by
    intro z hz
    rw [hsame z hz]
    exact ⟨le_rfl, le_rfl⟩
  obtain ⟨-, hlow, hhigh⟩ := observed_within (hm.trans hx.1) (by omega) hne hconstant
  refine ⟨?_, hhigh⟩
  omega

/-- Observations of 19 and 25 units. -/
theorem average_within_two :
    [(19 : BitVec 64), 25].foldlM updateEmaChecked 0 =
        .ok ([(19 : BitVec 64), 25].foldl updateEma 0) ∧
      10 ≤ ([(19 : BitVec 64), 25].foldl updateEma 0).toNat := by
  have hbounds : ∀ x ∈ [(19 : BitVec 64), 25], 19 ≤ x.toNat ∧ x.toNat ≤ 25 := by
    intro x hx
    rcases List.mem_pair.mp hx with rfl | rfl <;> exact ⟨by decide, by decide⟩
  obtain ⟨hrun, hwithin, -⟩ := average_within 19 25 (by decide) (by decide) [19, 25] hbounds
    [19, 25] (List.prefix_refl _) (by decide)
  exact ⟨hrun, hwithin.1⟩

end Relay.Stats
