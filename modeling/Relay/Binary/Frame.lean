import Relay.Binary.Bytes

/-!
Messages on a byte stream, each behind its length in two bytes.
-/

namespace Relay.Binary

/-- The length in two bytes, big endian, and the message. -/
def frame (msg : Bytes) : Bytes := beBytes 2 msg.length ++ msg

/-- The first message of a stream and what follows it, once all of it is there. -/
def unframe (stream : Bytes) : Option (Bytes × Bytes) :=
  if stream.length < 2 then none
  else
    let length := ofBe (stream.take 2)
    let rest := stream.drop 2
    if length ≤ rest.length then some (rest.take length, rest.drop length) else none

@[simp] theorem frame_length (msg : Bytes) : (frame msg).length = msg.length + 2 := by
  rw [frame, List.length_append, beBytes_length, Nat.add_comm]

/-- A message that the two bytes can count is the first of its stream. -/
theorem unframe_frame {msg : Bytes} (h : msg.length < 65536) (rest : Bytes) :
    unframe (frame msg ++ rest) = some (msg, rest) := by
  have hhead : (frame msg ++ rest).take 2 = beBytes 2 msg.length := by
    rw [frame, List.append_assoc, List.take_left' (beBytes_length 2 _)]
  have htail : (frame msg ++ rest).drop 2 = msg ++ rest := by
    rw [frame, List.append_assoc, List.drop_left' (beBytes_length 2 _)]
  have hlength : ofBe (beBytes 2 msg.length) = msg.length := ofBe_beBytes_of_lt h
  have hlong : ¬ (frame msg ++ rest).length < 2 := by
    rw [List.length_append, frame_length]
    omega
  unfold unframe
  rw [if_neg hlong, hhead, htail, hlength]
  dsimp only
  rw [if_pos (by rw [List.length_append]; omega), List.take_left, List.drop_left]

/-- A frame that is cut short has no message yet. -/
theorem unframe_take {msg : Bytes} (h : msg.length < 65536) {n : Nat}
    (hn : n < (frame msg).length) : unframe ((frame msg).take n) = none := by
  rw [frame_length] at hn
  unfold unframe
  split
  case isTrue => rfl
  case isFalse hlong =>
    have htaken : ((frame msg).take n).length = n := by
      rw [List.length_take, frame_length]
      omega
    have hhead : ((frame msg).take n).take 2 = beBytes 2 msg.length := by
      rw [List.take_take, Nat.min_eq_left (by omega), frame,
        List.take_left' (beBytes_length 2 _)]
    dsimp only
    rw [hhead, ofBe_beBytes_of_lt h, if_neg]
    rw [List.length_drop, htaken]
    omega

/-- A part of a frame that holds a message is the frame. -/
theorem eq_frame_of_unframe {msg got bytes rest : Bytes} (h : msg.length < 65536)
    (hgot : got <+: frame msg) (hbytes : unframe got = some (bytes, rest)) :
    got = frame msg ∧ bytes = msg := by
  have htake := List.prefix_iff_eq_take.mp hgot
  have hle := hgot.length_le
  by_cases hall : got.length < (frame msg).length
  · rw [htake, unframe_take h hall] at hbytes
    cases hbytes
  · have heq : got = frame msg := by
      rw [htake]
      exact List.take_of_length_le (by omega)
    have hwhole := unframe_frame h []
    rw [List.append_nil, ← heq, hbytes] at hwhole
    cases hwhole
    exact ⟨heq, rfl⟩

end Relay.Binary
