import Relay.Binary.Frame

/-!
Streams of framed messages. What is read from a stream are the messages that
were written to it, in their order, up to one that is not all there.
-/

namespace Relay.Binary

theorem leBytes_ofLe (bytes : Bytes) : leBytes bytes.length (ofLe bytes) = bytes := by
  induction bytes with
  | nil => rfl
  | cons b bytes ih =>
      have hb := b.toNat_lt
      have hhead : UInt8.ofNat (b.toNat + 256 * ofLe bytes) = b := by
        apply UInt8.toNat_inj.mp
        rw [UInt8.toNat_ofNat']
        omega
      have htail : (b.toNat + 256 * ofLe bytes) / 256 = ofLe bytes := by omega
      rw [ofLe, List.length_cons, leBytes, hhead, htail, ih]

theorem beBytes_ofBe (bytes : Bytes) : beBytes bytes.length (ofBe bytes) = bytes := by
  have h := leBytes_ofLe bytes.reverse
  rw [List.length_reverse] at h
  rw [beBytes, ofBe, h, List.reverse_reverse]

/-- A message that was read stands in front, in its frame. -/
theorem unframe_eq_some {stream msg rest : Bytes} (h : unframe stream = some (msg, rest)) :
    stream = frame msg ++ rest ∧ msg.length < 65536 := by
  unfold unframe at h
  split at h
  · cases h
  · rename_i hlong
    dsimp only at h
    split at h
    · rename_i hall
      simp only [Option.some.injEq, Prod.mk.injEq] at h
      obtain ⟨rfl, rfl⟩ := h
      have htwo : (stream.take 2).length = 2 := by
        rw [List.length_take]
        omega
      have hlength : ((stream.drop 2).take (ofBe (stream.take 2))).length =
          ofBe (stream.take 2) := by
        rw [List.length_take]
        omega
      have hhead := beBytes_ofBe (stream.take 2)
      have hlt := ofBe_lt (stream.take 2)
      rw [htwo] at hhead hlt
      refine ⟨?_, ?_⟩
      · rw [frame, hlength, hhead, List.append_assoc, List.take_append_drop,
          List.take_append_drop]
      · rw [hlength]
        exact hlt
    · cases h

end Relay.Binary
