import Relay.Binary.Bytes

/-!
The one's complement sum of a byte string: its 16-bit words, big endian, added
with the carry brought around. It is the ordinary sum modulo 65535, with the
two forms of zero told apart by whether anything was added at all.
-/

namespace Relay.Binary

/-- The 16-bit words of a byte string. An odd last byte is a word's high byte. -/
def words : Bytes → List Nat
  | a :: b :: rest => (a.toNat * 256 + b.toNat) :: words rest
  | [a] => [a.toNat * 256]
  | [] => []

/-- Addition of 16-bit words with end-around carry. -/
def onesAdd (x y : Nat) : Nat := if x + y < 65536 then x + y else x + y - 65535

/-- The one's complement sum of the words. -/
def onesSum (bytes : Bytes) : Nat := (words bytes).foldl onesAdd 0

theorem words_lt {bytes : Bytes} {w : Nat} (h : w ∈ words bytes) : w < 65536 := by
  fun_induction words bytes with
  | case1 a b rest ih =>
      have ha := a.toNat_lt
      have hb := b.toNat_lt
      rcases List.mem_cons.mp h with rfl | hrest
      · omega
      · exact ih hrest
  | case2 a =>
      have ha := a.toNat_lt
      rw [List.mem_singleton.mp h]
      omega
  | case3 => cases h

/-- What follows an even number of bytes is split into the same words. -/
theorem words_append {front : Bytes} (back : Bytes) (heven : front.length % 2 = 0) :
    words (front ++ back) = words front ++ words back := by
  fun_induction words front with
  | case1 a b rest ih =>
      have hrest : rest.length % 2 = 0 := by
        simp only [List.length_cons] at heven
        omega
      rw [List.cons_append, List.cons_append, words, ih hrest, List.cons_append]
  | case2 a => simp at heven
  | case3 => rfl

theorem sum_words_le (bytes : Bytes) : (words bytes).sum ≤ 65535 * ((bytes.length + 1) / 2) := by
  fun_induction words bytes with
  | case1 a b rest ih =>
      have ha := a.toNat_lt
      have hb := b.toNat_lt
      simp only [List.sum_cons, List.length_cons]
      omega
  | case2 a =>
      have ha := a.toNat_lt
      simp
      omega
  | case3 => simp

/-- What a number of 16 bits keeps of a sum: its value modulo 65535, and
whether it is zero. -/
structure OnesOf (sum r : Nat) : Prop where
  lt : r < 65536
  modEq : r % 65535 = sum % 65535
  zero : r = 0 ↔ sum = 0

theorem OnesOf.of_lt {sum : Nat} (h : sum < 65536) : OnesOf sum sum := ⟨h, rfl, Iff.rfl⟩

theorem OnesOf.onesAdd {sum r w : Nat} (h : OnesOf sum r) (hw : w < 65536) :
    OnesOf (sum + w) (onesAdd r w) := by
  obtain ⟨hlt, hmod, hzero⟩ := h
  unfold Binary.onesAdd
  split
  · exact ⟨by omega, by omega, by omega⟩
  · exact ⟨by omega, by omega, by omega⟩

private theorem OnesOf.foldl {ws : List Nat} {sum r : Nat} (h : OnesOf sum r)
    (hws : ∀ w ∈ ws, w < 65536) : OnesOf (sum + ws.sum) (ws.foldl Binary.onesAdd r) := by
  induction ws generalizing sum r with
  | nil => exact h
  | cons w ws ih =>
      rw [List.sum_cons, ← Nat.add_assoc, List.foldl_cons]
      exact ih (h.onesAdd (hws w List.mem_cons_self))
        (fun w' hw' => hws w' (List.mem_cons_of_mem w hw'))

theorem onesOf_onesSum (bytes : Bytes) : OnesOf (words bytes).sum (onesSum bytes) := by
  have hfold := (OnesOf.of_lt (by omega : 0 < 65536)).foldl
    (fun w (hw : w ∈ words bytes) => words_lt hw)
  rwa [Nat.zero_add] at hfold

/-- The sum verifies when it is a multiple of 65535, and not nothing. -/
theorem onesSum_eq_ffff {bytes : Bytes} (hpos : 0 < (words bytes).sum)
    (hmod : (words bytes).sum % 65535 = 0) : onesSum bytes = 0xFFFF := by
  obtain ⟨hlt, heq, hzero⟩ := onesOf_onesSum bytes
  omega

end Relay.Binary
