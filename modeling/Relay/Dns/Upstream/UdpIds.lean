import Relay.Dns.Upstream.UdpTable

/-!
The choice of a query ID. The search goes once around all IDs and does not look
at the last one it comes to. As long as an ID is free it finds one all the same,
wherever the counter stands, and no entry of a table is overwritten.
-/

namespace Relay.Dns.Upstream

open Binary Logic

/-- The search stops at the first ID that is free, or after the last try. -/
theorem pickId_spec (pending : AList (fun _ : BitVec 16 => Token)) (tries : Nat)
    (next : BitVec 16) :
    ∃ k ≤ tries, (pickId pending tries next).1 = next + BitVec.ofNat 16 k ∧
      (∀ m < k, next + BitVec.ofNat 16 m ∈ pending) ∧
      (k < tries → next + BitVec.ofNat 16 k ∉ pending) := by
  have hzero : ∀ id : BitVec 16, id + BitVec.ofNat 16 0 = id := fun _ => BitVec.add_zero _
  induction tries generalizing next with
  | zero =>
      refine ⟨0, le_rfl, ?_, ?_, ?_⟩
      · exact (hzero next).symm
      · intro m hm
        exact absurd hm (Nat.not_lt_zero m)
      · intro hlt
        exact absurd hlt (Nat.not_lt_zero 0)
  | succ tries ih =>
      have hshift : ∀ m, next + BitVec.ofNat 16 (m + 1) = next + 1 + BitVec.ofNat 16 m := by
        intro m
        rw [BitVec.add_assoc, BitVec.ofNat_add, BitVec.add_comm (BitVec.ofNat 16 m)]
        rfl
      by_cases hnext : next ∈ pending
      · obtain ⟨k, hk, hpick, htaken, hfree⟩ := ih (next + 1)
        refine ⟨k + 1, Nat.succ_le_succ hk, ?_, ?_, ?_⟩
        · rw [pickId, if_pos hnext, hpick, hshift]
        · intro m hm
          cases m with
          | zero => rwa [hzero]
          | succ m =>
              rw [hshift]
              exact htaken m (Nat.lt_of_succ_lt_succ hm)
        · intro hlt
          rw [hshift]
          exact hfree (Nat.lt_of_succ_lt_succ hlt)
      · refine ⟨0, Nat.zero_le _, ?_, ?_, ?_⟩
        · rw [pickId, if_neg hnext, hzero]
        · intro m hm
          exact absurd hm (Nat.not_lt_zero m)
        · intro _
          rwa [hzero]

/-- A table in which every ID from `next` on is taken holds all of them. -/
theorem length_of_cycle {pending : AList (fun _ : BitVec 16 => Token)} {next : BitVec 16}
    (h : ∀ m < 65536, next + BitVec.ofNat 16 m ∈ pending) : 65536 ≤ pending.keys.length := by
  have hsubset : (Finset.range 65536).image (fun m => next + BitVec.ofNat 16 m) ⊆
      pending.keys.toFinset := by
    intro id hid
    obtain ⟨m, hm, rfl⟩ := Finset.mem_image.mp hid
    exact List.mem_toFinset.mpr (AList.mem_keys.mp (h m (Finset.mem_range.mp hm)))
  have hinjective : Set.InjOn (fun m => next + BitVec.ofNat 16 m)
      (Finset.range 65536 : Finset Nat) := by
    intro m hm m' hm' heq
    have hlt := Finset.mem_range.mp (Finset.mem_coe.mp hm)
    have hlt' := Finset.mem_range.mp (Finset.mem_coe.mp hm')
    have hvalue := congrArg BitVec.toNat ((BitVec.add_right_inj next).mp heq)
    rw [BitVec.toNat_ofNat, BitVec.toNat_ofNat] at hvalue
    omega
  have hcard := Finset.card_le_card hsubset
  rwa [Finset.card_image_of_injOn hinjective, Finset.card_range,
    List.toFinset_card_of_nodup pending.keys_nodup] at hcard

/-- The chosen ID is free whenever one is. -/
theorem Inner.pick_free {inner : Inner} (hfew : inner.pending.keys.length < 65536) :
    inner.pick.1 ∉ inner.pending := by
  obtain ⟨k, hk, hpick, htaken, hfree⟩ := pickId_spec inner.pending 65535 inner.nextId
  have heq : inner.pick.1 = inner.nextId + BitVec.ofNat 16 k := hpick
  rw [heq]
  intro hmem
  rcases Nat.lt_or_eq_of_le hk with hlt | rfl
  · exact hfree hlt hmem
  · -- The last ID is not looked at, but all the others are taken.
    have hall : ∀ m < 65536, inner.nextId + BitVec.ofNat 16 m ∈ inner.pending := by
      intro m hm
      rcases Nat.lt_or_eq_of_le (Nat.le_of_lt_succ hm) with hlt | rfl
      · exact htaken m hlt
      · exact hmem
    exact absurd (length_of_cycle hall) (Nat.not_le_of_lt hfew)

variable {H : HickoryCrate} {s₀ s s' : State}

theorem Entries.of_empty (h : ∀ i qid t, ¬ s.Pending i qid t) : Entries s := by
  constructor
  · intro i qid t hp
    exact absurd hp (h i qid t)
  · intro i qid i' qid' t hp
    exact absurd hp (h i qid t)
  · intro i qid t hp
    exact absurd hp (h i qid t)

/-- In every run, whatever the counters stand at in the beginning: a query that
registers while fewer than 65536 entries are pending on its socket is given an
ID that none of them has. Its entry is made, and all others stay, with their
reply channels still open. -/
theorem registered_ids_free {es : List Event} (hempty : ∀ i qid t, ¬ s₀.Pending i qid t)
    (run : Steps (Step H) s₀ es s) {c attempt i : Nat} {call : Call} {inner : Inner}
    (hcall : s.calls c = some call) (hphase : call.phase = .connected attempt i)
    (hinner : s.inners i = some inner) (hfew : inner.pending.keys.length < 65536)
    (hstep : Step H s (.register c) s') :
    inner.pick.1 ∉ inner.pending ∧ s'.Pending i inner.pick.1 ⟨c, attempt⟩ ∧
      ∀ j qid t, s.Pending j qid t → s'.Pending j qid t ∧ s'.boxes t = .waiting := by
  have hentries : Entries s' := by
    apply (run.next hstep).invariant (Entries.of_empty hempty)
    intro t e u ht hstep
    exact hstep.entries ht
  have hfree := Inner.pick_free hfew
  refine ⟨hfree, ?_, ?_⟩
  · exact hstep.pending_iff.mpr (Or.inl ((registers_iff hcall hphase hinner).mpr ⟨rfl, rfl, rfl⟩))
  · intro j qid t hp
    have hkept : ¬ s.Removes (.register c) j qid := by
      intro hremoves
      obtain ⟨rfl, rfl⟩ := (removes_register_iff hcall hphase hinner).mp hremoves
      have htaken := (pending_of_inner hinner).mp hp
      exact hfree (AList.lookup_isSome.mp (by rw [htaken]; rfl))
    have hafter : s'.Pending j qid t := hstep.pending_iff.mpr (Or.inr ⟨hkept, hp⟩)
    exact ⟨hafter, hentries.waiting j qid t hafter⟩

/-! ### Around the end of the IDs -/

private def lastCall : Call := ⟨sampleRequest, sampleWire, .connected 0 0⟩

/-- Two queries are about to register, and the counter stands at its last value. -/
private def lastId : State where
  installed := some 0
  inners := fun i => if i = 0 then some { nextId := 65535 } else none
  calls := fun c => if c < 2 then some lastCall else none

private theorem lastId_empty (i : Nat) (qid : BitVec 16) (t : Token) : ¬ lastId.Pending i qid t := by
  rintro ⟨inner, hinner, hlookup⟩
  unfold lastId at hinner
  dsimp only at hinner
  split at hinner
  · cases hinner
    cases hlookup
  · cases hinner

/-- The first of the two has registered. -/
private def lastIdTaken : State :=
  (lastId.insertPending 0 { nextId := 65535 } ⟨0, 0⟩).setPhase 0 lastCall
    (.registered 0 0 (Inner.pick { nextId := 65535 }).1)

private def lastTaken : Inner where
  nextId := (Inner.pick { nextId := 65535 }).2
  pending := (∅ : AList fun _ : BitVec 16 => Token).insert (Inner.pick { nextId := 65535 }).1 ⟨0, 0⟩

theorem registered_ids_free_wrapping :
    lastIdTaken.Pending 0 65535 ⟨0, 0⟩ ∧
      ∃ s', Step questionCodec lastIdTaken (.register 1) s' ∧
        lastTaken.pick.1 ∉ lastTaken.pending ∧ s'.Pending 0 lastTaken.pick.1 ⟨1, 0⟩ ∧
          ∀ j qid t, lastIdTaken.Pending j qid t → s'.Pending j qid t ∧ s'.boxes t = .waiting := by
  have hinner : lastId.inners 0 = some { nextId := 65535 } := rfl
  have hfirst : Step questionCodec lastId (.register 0) lastIdTaken :=
    .register rfl rfl hinner
  have hinner₁ : lastIdTaken.inners 0 = some lastTaken := by
    simp only [lastIdTaken, State.setPhase, State.insertPending, Function.update_self]
    rfl
  have hcall : lastIdTaken.calls 1 = some lastCall := rfl
  have hsecond := Step.register (H := questionCodec) hcall rfl hinner₁
  refine ⟨⟨lastTaken, hinner₁, by decide⟩, _, hsecond, ?_⟩
  exact registered_ids_free lastId_empty (Steps.single hfirst) hcall rfl hinner₁ (by decide) hsecond

end Relay.Dns.Upstream
