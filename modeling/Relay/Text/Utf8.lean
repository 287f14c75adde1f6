import Relay.Binary.Bytes

/-!
Text as its UTF-8 bytes. A byte string is text when it decodes, and decoding
the bytes of a text gives it back.
-/

namespace Relay.Text

open Relay.Binary

/-- `s.as_bytes()`. -/
def octets (s : String) : Bytes := s.toByteArray.data.toList

/-- `std::str::from_utf8(bytes).ok()`. -/
def fromUtf8 (bytes : Bytes) : Option String := String.fromUTF8? ⟨bytes.toArray⟩

@[simp] theorem fromUtf8_octets (s : String) : fromUtf8 (octets s) = some s := by
  have hbytes : (⟨(octets s).toArray⟩ : ByteArray) = s.toByteArray := by simp [octets]
  unfold fromUtf8 String.fromUTF8?
  rw [hbytes, dif_pos s.isValidUTF8]
  rfl

/-- Bytes that decode are the bytes of the text. -/
theorem octets_of_fromUtf8 {bytes : Bytes} {s : String} (h : fromUtf8 bytes = some s) :
    octets s = bytes := by
  unfold fromUtf8 String.fromUTF8? at h
  split at h
  · cases h
    rfl
  · cases h

theorem octets_injective : Function.Injective octets := by
  intro s t h
  have hdecode := congrArg fromUtf8 h
  simpa using hdecode

@[simp] theorem octets_inj {s t : String} : octets s = octets t ↔ s = t :=
  octets_injective.eq_iff

@[simp] theorem octets_eq_nil {s : String} : octets s = [] ↔ s = "" := by
  rw [show ([] : Bytes) = octets "" from rfl, octets_inj]

theorem octets_ofList (cs : List Char) :
    octets (String.ofList cs) = cs.flatMap String.utf8EncodeChar := by
  unfold octets
  rw [String.toByteArray_ofList]
  simp [List.utf8Encode]

/-- A text is as long as its characters are together. -/
theorem octets_length (s : String) : (octets s).length = (s.toList.map Char.utf8Size).sum := by
  have hchars : octets s = s.toList.flatMap String.utf8EncodeChar := by
    rw [← octets_ofList, String.ofList_toList]
  rw [hchars, List.length_flatMap]
  simp

/-- An ASCII byte stands for its character wherever it occurs. -/
theorem toNat_of_mem_utf8EncodeChar {b : UInt8} {c : Char} (hb : b.toNat < 128)
    (h : b ∈ String.utf8EncodeChar c) : c.toNat = b.toNat := by
  have hc : c.val.toNat = c.toNat := rfl
  unfold String.utf8EncodeChar at h
  dsimp only at h
  rw [hc] at h
  split at h
  · rw [List.mem_singleton.mp h, UInt8.toNat_ofNat']
    omega
  · exfalso
    split at h
    · rcases List.mem_pair.mp h with rfl | rfl <;> rw [UInt8.toNat_ofNat'] at hb <;> omega
    · split at h <;> simp only [List.mem_cons, List.not_mem_nil, or_false] at h
      · rcases h with rfl | rfl | rfl <;> rw [UInt8.toNat_ofNat'] at hb <;> omega
      · rcases h with rfl | rfl | rfl | rfl <;> rw [UInt8.toNat_ofNat'] at hb <;> omega

theorem utf8EncodeChar_of_ascii {c : Char} (hc : c.toNat < 128) :
    String.utf8EncodeChar c = [UInt8.ofNat c.toNat] := by
  have hle : c.val.toNat ≤ 127 := by
    change c.toNat ≤ 127
    omega
  unfold String.utf8EncodeChar
  exact if_pos hle

/-- Text is cut at an ASCII byte as it is at the character. -/
theorem flatMap_utf8EncodeChar_cut {c : Char} (hc : c.toNat < 128) {cs : List Char}
    {front back : Bytes}
    (h : cs.flatMap String.utf8EncodeChar = front ++ UInt8.ofNat c.toNat :: back) :
    ∃ before after, cs = before ++ c :: after ∧
      before.flatMap String.utf8EncodeChar = front ∧ after.flatMap String.utf8EncodeChar = back := by
  have hbyte : (UInt8.ofNat c.toNat).toNat = c.toNat := by
    rw [UInt8.toNat_ofNat']
    omega
  induction cs generalizing front with
  | nil => simp at h
  | cons d cs ih =>
      rw [List.flatMap_cons] at h
      rcases List.append_eq_append_iff.mp h with ⟨rest, hfront, hrest⟩ | ⟨rest, hd, hrest⟩
      · obtain ⟨before, after, rfl, hbefore, hafter⟩ := ih hrest
        exact ⟨d :: before, after, rfl, by rw [List.flatMap_cons, hbefore, hfront], hafter⟩
      · cases rest with
        | nil =>
            obtain ⟨before, after, rfl, hbefore, hafter⟩ := @ih [] hrest.symm
            refine ⟨d :: before, after, rfl, ?_, hafter⟩
            rw [List.flatMap_cons, hbefore, hd]
            simp
        | cons b rest =>
            obtain ⟨hb, hback⟩ := List.cons.inj hrest
            subst hb
            have hmem : UInt8.ofNat c.toNat ∈ String.utf8EncodeChar d := by simp [hd]
            have hsame := toNat_of_mem_utf8EncodeChar (by rw [hbyte]; exact hc) hmem
            rw [hbyte] at hsame
            obtain rfl : d = c := Char.toNat_inj.mp hsame
            rw [utf8EncodeChar_of_ascii hc] at hd
            have hlength := congrArg List.length hd
            simp only [List.length_append, List.length_cons, List.length_nil] at hlength
            have hfront : front = [] := List.length_eq_zero_iff.mp (by omega)
            have hrest : rest = [] := List.length_eq_zero_iff.mp (by omega)
            subst hfront hrest
            exact ⟨[], cs, rfl, rfl, hback.symm⟩

theorem octets_cut {c : Char} (hc : c.toNat < 128) {s : String} {front back : Bytes}
    (h : octets s = front ++ UInt8.ofNat c.toNat :: back) :
    ∃ before after, s = before ++ String.singleton c ++ after ∧
      octets before = front ∧ octets after = back := by
  rw [← String.ofList_toList (s := s), octets_ofList] at h
  obtain ⟨before, after, hs, hbefore, hafter⟩ := flatMap_utf8EncodeChar_cut hc h
  refine ⟨String.ofList before, String.ofList after, ?_, ?_, ?_⟩
  · apply String.toList_injective
    simp [hs]
  · rw [octets_ofList, hbefore]
  · rw [octets_ofList, hafter]

/-- The front of an ASCII text's bytes is the front of the text. -/
theorem octets_prefix {s : String} (hascii : ∀ c ∈ s.toList, c.toNat < 128) {bytes : Bytes}
    (h : bytes <+: octets s) : ∃ n, bytes = octets (String.ofList (s.toList.take n)) := by
  have hone : ∀ cs : List Char, (∀ c ∈ cs, c.toNat < 128) →
      cs.flatMap String.utf8EncodeChar = cs.map fun c => UInt8.ofNat c.toNat := by
    intro cs hcs
    rw [← List.flatMap_singleton' (cs.map _), List.flatMap_map]
    apply List.flatMap_congr
    intro c hc
    exact utf8EncodeChar_of_ascii (hcs c hc)
  refine ⟨bytes.length, ?_⟩
  rw [octets_ofList, hone _ (fun c hc => hascii c (List.mem_of_mem_take hc)), List.map_take,
    ← hone _ hascii, ← octets_ofList, String.ofList_toList]
  exact List.prefix_iff_eq_take.mp h

end Relay.Text
