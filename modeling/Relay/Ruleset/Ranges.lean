import Relay.Ruleset.Drs

/-!
Merging address ranges. The merged list covers the same addresses as the list
it was made of, its endpoints are endpoints of that list, and its ranges stand
apart in ascending order, which is what the binary search needs.
-/

namespace Relay.Ruleset

variable {w : Nat}

/-- Some range of the list holds the address. -/
def Covers (ranges : List (BitVec w × BitVec w)) (addr : BitVec w) : Prop :=
  ∃ range ∈ ranges, range.1 ≤ addr ∧ addr ≤ range.2

theorem covers_cons {range : BitVec w × BitVec w} {ranges : List (BitVec w × BitVec w)}
    {addr : BitVec w} :
    Covers (range :: ranges) addr ↔ (range.1 ≤ addr ∧ addr ≤ range.2) ∨ Covers ranges addr := by
  simp [Covers]

/-- A range that starts no earlier than the last merged one is absorbed or
appended. -/
private theorem covers_mergeInto {out : List (BitVec w × BitVec w)} {range : BitVec w × BitVec w}
    (hsorted : ∀ last ∈ out.head?, last.1 ≤ range.1) {addr : BitVec w} :
    Covers (mergeInto out range) addr ↔
      Covers out addr ∨ (range.1 ≤ addr ∧ addr ≤ range.2) := by
  cases out with
  | nil =>
      rw [mergeInto, covers_cons]
      exact or_comm
  | cons last rest =>
      have hstart : last.1 ≤ range.1 := hsorted last rfl
      rw [mergeInto]
      split
      · rename_i htouch
        rw [covers_cons, covers_cons, or_right_comm]
        refine or_congr_left ?_
        simp only [BitVec.le_def] at hstart htouch ⊢
        split
        · rename_i hgrows
          simp only [BitVec.lt_def] at hgrows ⊢
          omega
        · rename_i hinside
          simp only [BitVec.lt_def] at hinside ⊢
          omega
      · rw [covers_cons]
        exact or_comm

private theorem head_mergeInto {out : List (BitVec w × BitVec w)} {range : BitVec w × BitVec w}
    (hsorted : ∀ last ∈ out.head?, last.1 ≤ range.1) :
    ∀ last ∈ (mergeInto out range).head?, last.1 ≤ range.1 := by
  cases out with
  | nil =>
      intro last hlast
      cases hlast
      exact BitVec.le_refl _
  | cons top rest =>
      have hstart : top.1 ≤ range.1 := hsorted top rfl
      rw [mergeInto]
      split
      · split
        · intro last hlast
          cases hlast
          exact hstart
        · intro last hlast
          cases hlast
          exact hstart
      · intro last hlast
        cases hlast
        exact BitVec.le_refl _

/-- The fold over ranges in the order of their starts. -/
private theorem covers_foldl {ranges out : List (BitVec w × BitVec w)}
    (hranges : ranges.Pairwise (fun a b => a.1 ≤ b.1))
    (hsorted : ∀ last ∈ out.head?, ∀ range ∈ ranges, last.1 ≤ range.1) {addr : BitVec w} :
    Covers (ranges.foldl mergeInto out) addr ↔ Covers out addr ∨ Covers ranges addr := by
  induction ranges generalizing out with
  | nil => simp [Covers]
  | cons range ranges ih =>
      obtain ⟨hfirst, hrest⟩ := List.pairwise_cons.mp hranges
      have hhead : ∀ last ∈ out.head?, last.1 ≤ range.1 :=
        fun last hlast => hsorted last hlast range List.mem_cons_self
      have hnext : ∀ last ∈ (mergeInto out range).head?, ∀ later ∈ ranges, last.1 ≤ later.1 :=
        fun last hlast later hlater =>
          BitVec.le_trans (head_mergeInto hhead last hlast) (hfirst later hlater)
      rw [List.foldl_cons, ih hrest hnext, covers_mergeInto hhead, covers_cons, or_assoc]

/-- Merging changes nothing about which addresses are covered. -/
theorem covers_mergeRanges (ranges : List (BitVec w × BitVec w)) (addr : BitVec w) :
    Covers (mergeRanges ranges) addr ↔ Covers ranges addr := by
  unfold mergeRanges
  split
  · exact Iff.rfl
  · have hsorted : (ranges.mergeSort (fun a b => decide (a.1 ≤ b.1))).Pairwise
        (fun a b => a.1 ≤ b.1) := by
      refine (List.pairwise_mergeSort ?_ ?_ ranges).imp (fun hab => by simpa using hab)
      · intro a b c hab hbc
        simp only [decide_eq_true_eq] at hab hbc ⊢
        exact BitVec.le_trans hab hbc
      · intro a b
        simpa using BitVec.le_total a.1 b.1
    have hfold := @covers_foldl w _ [] hsorted (fun last hlast => by cases hlast) addr
    have hsame : ∀ xs ys : List (BitVec w × BitVec w), (∀ r, r ∈ xs ↔ r ∈ ys) →
        (Covers xs addr ↔ Covers ys addr) := by
      intro xs ys hmem
      simp [Covers, hmem]
    rw [hsame _ _ (fun r => List.mem_reverse), hfold,
      hsame _ _ (fun r => (List.mergeSort_perm ranges _).mem_iff)]
    simp [Covers]

/-- Every endpoint of `out` is an endpoint of `ranges`. -/
def EndpointsFrom (ranges out : List (BitVec w × BitVec w)) : Prop :=
  ∀ r ∈ out, (∃ r' ∈ ranges, r.1 = r'.1) ∧ ∃ r' ∈ ranges, r.2 = r'.2

private theorem endpoints_mergeInto {ranges out : List (BitVec w × BitVec w)}
    {range : BitVec w × BitVec w} (hrange : range ∈ ranges) (h : EndpointsFrom ranges out) :
    EndpointsFrom ranges (mergeInto out range) := by
  have hown : ∀ r, r = range → (∃ r' ∈ ranges, r.1 = r'.1) ∧ ∃ r' ∈ ranges, r.2 = r'.2 := by
    rintro r rfl
    exact ⟨⟨r, hrange, rfl⟩, r, hrange, rfl⟩
  cases out with
  | nil =>
      intro r hr
      exact hown r (List.mem_singleton.mp hr)
  | cons last rest =>
      have hlast := h last List.mem_cons_self
      rw [mergeInto]
      split
      · intro r hr
        rcases List.mem_cons.mp hr with rfl | hr
        · split
          · exact ⟨hlast.1, range, hrange, rfl⟩
          · exact hlast
        · exact h r (List.mem_cons_of_mem _ hr)
      · intro r hr
        rcases List.mem_cons.mp hr with rfl | hr
        · exact hown _ rfl
        · exact h r hr

theorem endpoints_mergeRanges (ranges : List (BitVec w × BitVec w)) :
    EndpointsFrom ranges (mergeRanges ranges) := by
  unfold mergeRanges
  split
  · intro r hr
    exact ⟨⟨r, hr, rfl⟩, r, hr, rfl⟩
  · have hfold : ∀ (todo out : List (BitVec w × BitVec w)), (∀ r ∈ todo, r ∈ ranges) →
        EndpointsFrom ranges out → EndpointsFrom ranges (todo.foldl mergeInto out) := by
      intro todo
      induction todo with
      | nil => exact fun out _ h => h
      | cons range todo ih =>
          intro out htodo h
          exact ih _ (fun r hr => htodo r (List.mem_cons_of_mem _ hr))
            (endpoints_mergeInto (htodo range List.mem_cons_self) h)
    intro r hr
    refine hfold _ [] ?_ (fun r hr => by cases hr) r (List.mem_reverse.mp hr)
    intro r' hr'
    exact (List.mergeSort_perm ranges _).mem_iff.mp hr'

/-! ### Order -/

/-- No range is empty, and every range ends before the next one starts. -/
structure Apart (ranges : List (BitVec w × BitVec w)) : Prop where
  nonempty : ∀ range ∈ ranges, range.1 ≤ range.2
  ordered : ranges.Pairwise fun first second => first.2 < second.1

/-- A later range joins ranges that stand apart, listed from the last one. -/
private theorem apart_mergeInto {out : List (BitVec w × BitVec w)} {range : BitVec w × BitVec w}
    (hrange : range.1 ≤ range.2) (h : Apart out.reverse) :
    Apart (mergeInto out range).reverse := by
  cases out with
  | nil =>
      refine ⟨?_, by simp [mergeInto]⟩
      intro r hr
      obtain rfl : r = range := by simpa [mergeInto] using hr
      exact hrange
  | cons last rest =>
      obtain ⟨hnonempty, hordered⟩ := h
      simp only [List.reverse_cons, List.mem_append, List.mem_reverse, List.mem_singleton]
        at hnonempty
      obtain ⟨hrest, _, hbefore⟩ := List.pairwise_append.mp (List.reverse_cons ▸ hordered)
      have hlast : last.1 ≤ last.2 := hnonempty last (Or.inr rfl)
      rw [mergeInto]
      split
      · have hgrown : ∀ grown : BitVec w × BitVec w, grown.1 = last.1 → grown.1 ≤ grown.2 →
            Apart (grown :: rest).reverse := by
          intro grown hstart hend
          rw [List.reverse_cons]
          refine ⟨?_, List.pairwise_append.mpr ⟨hrest, List.pairwise_singleton .., ?_⟩⟩
          · intro r hr
            rcases List.mem_append.mp hr with hold | hnew
            · exact hnonempty r (Or.inl (List.mem_reverse.mp hold))
            · rw [List.mem_singleton.mp hnew]
              exact hend
          · intro r hr r' hr'
            rw [List.mem_singleton.mp hr', hstart]
            exact hbefore r hr last (List.mem_singleton_self _)
        split
        · rename_i hgrows
          exact hgrown (last.1, range.2) rfl
            (BitVec.le_trans hlast (BitVec.le_of_lt hgrows))
        · exact hgrown last rfl hlast
      · rename_i hafter
        have hgap : last.2 < range.1 := BitVec.not_le.mp hafter
        rw [List.reverse_cons]
        refine ⟨?_, List.pairwise_append.mpr ⟨hordered, List.pairwise_singleton .., ?_⟩⟩
        · intro r hr
          simp only [List.reverse_cons, List.mem_append, List.mem_reverse,
            List.mem_singleton] at hr
          rcases hr with hold | rfl
          · exact hnonempty r hold
          · exact hrange
        · intro r hr r' hr'
          rw [List.mem_singleton.mp hr']
          simp only [List.reverse_cons, List.mem_append, List.mem_singleton] at hr
          rcases hr with hold | rfl
          · have hbelow := hbefore r hold last (List.mem_singleton_self _)
            simp only [BitVec.lt_def, BitVec.le_def] at hbelow hlast hgap ⊢
            omega
          · exact hgap

/-- Merged ranges stand apart. -/
theorem apart_mergeRanges {ranges : List (BitVec w × BitVec w)}
    (h : ∀ range ∈ ranges, range.1 ≤ range.2) : Apart (mergeRanges ranges) := by
  unfold mergeRanges
  split
  · rename_i hshort
    refine ⟨h, ?_⟩
    rcases ranges with _ | ⟨range, _ | ⟨_, _⟩⟩
    · exact List.Pairwise.nil
    · exact List.pairwise_singleton ..
    · simp at hshort
  · have hfold : ∀ (todo out : List (BitVec w × BitVec w)), (∀ r ∈ todo, r.1 ≤ r.2) →
        Apart out.reverse → Apart (todo.foldl mergeInto out).reverse := by
      intro todo
      induction todo with
      | nil => exact fun out _ hout => hout
      | cons range todo ih =>
          intro out htodo hout
          exact ih _ (fun r hr => htodo r (List.mem_cons_of_mem _ hr))
            (apart_mergeInto (htodo range List.mem_cons_self) hout)
    apply hfold
    · intro r hr
      exact h r ((List.mergeSort_perm ranges _).mem_iff.mp hr)
    · exact ⟨by simp, List.Pairwise.nil⟩

/-- A value before one range is before all that follow. -/
theorem Apart.starts_after {ranges : List (BitVec w × BitVec w)} (h : Apart ranges) {v : BitVec w}
    {mid : Nat} {range : BitVec w × BitVec w} (hrange : ranges[mid]? = some range)
    (hbefore : v < range.1) :
    ∀ (i : Nat) later, mid ≤ i → ranges[i]? = some later → v < later.1 := by
  intro i later hi hlater
  obtain ⟨hinside, rfl⟩ := List.getElem?_eq_some_iff.mp hrange
  obtain ⟨hlen, rfl⟩ := List.getElem?_eq_some_iff.mp hlater
  rcases Nat.lt_or_eq_of_le hi with hgt | rfl
  · have hafter := List.pairwise_iff_getElem.mp h.ordered mid i hinside hlen hgt
    have hbetween := h.nonempty ranges[mid] (List.getElem_mem hinside)
    simp only [BitVec.lt_def, BitVec.le_def] at hbefore hbetween hafter ⊢
    omega
  · exact hbefore

/-- And a value behind one range is behind all in front of it. -/
theorem Apart.ends_before {ranges : List (BitVec w × BitVec w)} (h : Apart ranges) {v : BitVec w}
    {mid : Nat} {range : BitVec w × BitVec w} (hrange : ranges[mid]? = some range)
    (hafter : range.2 < v) :
    ∀ (i : Nat) earlier, i ≤ mid → ranges[i]? = some earlier → earlier.2 < v := by
  intro i earlier hi hearlier
  obtain ⟨hinside, rfl⟩ := List.getElem?_eq_some_iff.mp hrange
  obtain ⟨hlen, rfl⟩ := List.getElem?_eq_some_iff.mp hearlier
  rcases Nat.lt_or_eq_of_le hi with hlt | rfl
  · have hbefore := List.pairwise_iff_getElem.mp h.ordered i mid hlen hinside hlt
    have hbetween := h.nonempty ranges[mid] (List.getElem_mem hinside)
    simp only [BitVec.lt_def, BitVec.le_def] at hbefore hbetween hafter ⊢
    omega
  · exact hafter

/-- Between indices below which every range ends before the value and from
which every range starts after it, the search finds the value when some range
holds it. -/
theorem binarySearchRange_ok {ranges : List (BitVec w × BitVec w)} (h : Apart ranges)
    {v : BitVec w} {lo hi : Nat} (hhi : hi ≤ ranges.length)
    (hbelow : ∀ (i : Nat) range, i < lo → ranges[i]? = some range → range.2 < v)
    (habove : ∀ (i : Nat) range, hi ≤ i → ranges[i]? = some range → v < range.1) :
    ∃ found, binarySearchRange ranges v lo hi = .ok found ∧ (found = true ↔ Covers ranges v) := by
  induction hgap : hi - lo using Nat.strong_induction_on generalizing lo hi with
  | _ gap ih =>
      rw [binarySearchRange]
      split
      · rename_i hlt
        dsimp only
        obtain ⟨mid, hmid⟩ : ∃ mid, mid = lo + (hi - lo) / 2 := ⟨_, rfl⟩
        rw [← hmid]
        have hinside : mid < ranges.length := by omega
        obtain ⟨range, hrange⟩ : ∃ range, ranges[mid]? = some range :=
          ⟨_, List.getElem?_eq_getElem hinside⟩
        rw [hrange]
        dsimp only
        split
        · rename_i hbefore
          exact ih (mid - lo) (by omega) (by omega) hbelow (h.starts_after hrange hbefore) rfl
        · rename_i hstart
          split
          · rename_i hafter
            apply ih (hi - (mid + 1)) (by omega) hhi ?_ habove rfl
            intro i earlier hi' hearlier
            exact h.ends_before hrange hafter i earlier (Nat.le_of_lt_succ hi') hearlier
          · rename_i hend
            refine ⟨true, rfl, ?_⟩
            simp only [true_iff]
            exact ⟨range, List.mem_of_getElem? hrange, BitVec.not_lt.mp hstart,
              BitVec.not_lt.mp hend⟩
      · rename_i hdone
        refine ⟨false, rfl, ?_⟩
        simp only [Bool.false_eq_true, false_iff]
        rintro ⟨range, hmem, hstart, hend⟩
        obtain ⟨i, hi', hget⟩ := List.mem_iff_getElem.mp hmem
        have hsome : ranges[i]? = some range := List.getElem?_eq_some_iff.mpr ⟨hi', hget⟩
        rcases Nat.lt_or_ge i lo with hlow | hhigh
        · exact BitVec.not_le.mpr (hbelow i range hlow hsome) hend
        · exact BitVec.not_le.mpr (habove i range (by omega) hsome) hstart

/-- The search over all merged ranges finds exactly the addresses that the
ranges they were merged from hold. -/
theorem binarySearchRange_mergeRanges {ranges : List (BitVec w × BitVec w)}
    (h : ∀ range ∈ ranges, range.1 ≤ range.2) (v : BitVec w) :
    ∃ found, binarySearchRange (mergeRanges ranges) v 0 (mergeRanges ranges).length = .ok found ∧
      (found = true ↔ Covers ranges v) := by
  rw [← covers_mergeRanges]
  apply binarySearchRange_ok (apart_mergeRanges h) (Nat.le_refl _)
  · intro i range hi
    exact absurd hi (Nat.not_lt_zero i)
  · intro i range hi hrange
    rw [List.getElem?_eq_none hi] at hrange
    cases hrange

end Relay.Ruleset
