import Mathlib.Tactic

/-!
Bounds-checked byte strings and fixed-width integers on the wire. A read
outside a buffer is a `panic`, kept apart from the errors a decoder returns,
so that a theorem about a decoder's result also says that no index of it was
out of range. Integers are little or big endian of any width; the round trips
hold for every width and every following suffix.
-/

namespace Relay.Binary

abbrev Bytes := List UInt8

/-- What ends a computation early: an out-of-range access or a checked
arithmetic operation that overflows (`panic`), or an error it reports. -/
inductive Fault (ε : Type) where
  | panic
  | error (e : ε)
  deriving DecidableEq, Repr

/-- The same fault with another form of its error. -/
def Fault.map {ε ε' : Type} (f : ε → ε') : Fault ε → Fault ε'
  | .panic => .panic
  | .error e => .error (f e)

abbrev Run (ε α : Type) := Except (Fault ε) α

variable {ε α β : Type}

def panicked : Run ε α := .error .panic

def fail (e : ε) : Run ε α := .error (.error e)

@[simp] theorem run_ok_bind (a : α) (next : α → Run ε β) :
    ((Except.ok a : Run ε α) >>= next) = next a := rfl

@[simp] theorem run_pure_bind (a : α) (next : α → Run ε β) :
    ((pure a : Run ε α) >>= next) = next a := rfl

/-- A sequence succeeds when both of its steps do, whatever its errors are. -/
theorem run_bind_eq_ok {action : Except ε α} {next : α → Except ε β} {b : β} :
    (action >>= next) = .ok b ↔ ∃ a, action = .ok a ∧ next a = .ok b := by
  cases action with
  | error e =>
      constructor
      · intro h
        cases h
      · rintro ⟨a, h, _⟩
        cases h
  | ok a => simp [bind, Except.bind]

/-- `bytes[i]`. -/
def byteAt (bytes : Bytes) (i : Nat) : Run ε UInt8 :=
  match bytes[i]? with
  | some b => .ok b
  | none => panicked

/-- `bytes[lo..hi]`. -/
def slice (bytes : Bytes) (lo hi : Nat) : Run ε Bytes :=
  if lo ≤ hi ∧ hi ≤ bytes.length then .ok ((bytes.drop lo).take (hi - lo))
  else panicked

/-- `bytes[at..at + src.len()].copy_from_slice(src)`. -/
def overwrite (bytes : Bytes) (start : Nat) (src : Bytes) : Run ε Bytes :=
  if start + src.length ≤ bytes.length then
    .ok (bytes.take start ++ src ++ bytes.drop (start + src.length))
  else panicked

/-- A subtraction of unsigned integers, checked. -/
def checkedSub (a b : Nat) : Run ε Nat :=
  if b ≤ a then .ok (a - b) else panicked

/-- An addition of `usize`s of 64 bits, checked. -/
def checkedAdd (a b : Nat) : Run ε Nat :=
  if a + b < 2 ^ 64 then .ok (a + b) else panicked

/-- A multiplication of `usize`s of 64 bits, checked. -/
def checkedMul (a b : Nat) : Run ε Nat :=
  if a * b < 2 ^ 64 then .ok (a * b) else panicked

/-- `x << n`: a shift by the width or more panics. -/
def checkedShl {w : Nat} (x : BitVec w) (n : Nat) : Run ε (BitVec w) :=
  if n < w then .ok (x <<< n) else panicked

/-- A subtraction of machine integers, checked. -/
def checkedBitSub {w : Nat} (x y : BitVec w) : Run ε (BitVec w) :=
  if y ≤ x then .ok (x - y) else panicked

theorem checkedAdd_ok {a b : Nat} (h : a + b < 2 ^ 64) :
    (checkedAdd a b : Run ε Nat) = .ok (a + b) := if_pos h

theorem checkedMul_ok {a b : Nat} (h : a * b < 2 ^ 64) :
    (checkedMul a b : Run ε Nat) = .ok (a * b) := if_pos h

/-- A slice is determined by where it starts and how long it is. -/
theorem slice_of_drop {bytes middle back : Bytes} {lo : Nat}
    (h : bytes.drop lo = middle ++ back) (hlo : lo ≤ bytes.length) :
    slice bytes lo (lo + middle.length) = (.ok middle : Run ε Bytes) := by
  have hlen : bytes.length = lo + middle.length + back.length := by
    have := congrArg List.length h
    simp only [List.length_drop, List.length_append] at this
    omega
  unfold slice
  rw [if_pos (by omega), h]
  simp

theorem byteAt_of_drop {bytes back : Bytes} {b : UInt8} {lo : Nat}
    (h : bytes.drop lo = b :: back) :
    byteAt bytes lo = (.ok b : Run ε UInt8) := by
  have hget : bytes[lo]? = some b := by
    rw [← List.head?_drop, h]
    rfl
  simp [byteAt, hget]

/-- A byte string behind a length byte, truncated to eight bits. -/
def prefixed (bytes : Bytes) : Bytes := UInt8.ofNat bytes.length :: bytes

@[simp] theorem prefixed_length (bytes : Bytes) : (prefixed bytes).length = bytes.length + 1 := rfl

theorem toNat_ofNat_length {bytes : Bytes} (h : bytes.length ≤ 255) :
    (UInt8.ofNat bytes.length).toNat = bytes.length := by
  simp only [UInt8.toNat_ofNat']
  omega

/-- A length-prefixed record that fits its length byte: the byte, the record
behind it, and that the record ends within the buffer. -/
theorem prefixed_of_drop {bytes record back : Bytes} {i : Nat}
    (h : bytes.drop i = prefixed record ++ back) (hi : i ≤ bytes.length)
    (hfits : record.length ≤ 255) :
    byteAt bytes i = (.ok (UInt8.ofNat record.length) : Run ε UInt8) ∧
      slice bytes (i + 1) (i + 1 + record.length) = (.ok record : Run ε Bytes) ∧
      i + 1 + record.length ≤ bytes.length := by
  have hlen := congrArg List.length h
  simp only [List.length_drop, List.length_append, prefixed_length] at hlen
  have htail : bytes.drop (i + 1) = record ++ back := by
    rw [← List.drop_drop, h]
    simp [prefixed]
  refine ⟨byteAt_of_drop h, slice_of_drop htail (by omega), by omega⟩

/-- The `width` little-endian bytes of a number, truncated to that width. -/
def leBytes : Nat → Nat → Bytes
  | 0, _ => []
  | width + 1, n => UInt8.ofNat n :: leBytes width (n / 256)

/-- The number a little-endian byte string stands for. -/
def ofLe : Bytes → Nat
  | [] => 0
  | b :: bs => b.toNat + 256 * ofLe bs

def beBytes (width n : Nat) : Bytes := (leBytes width n).reverse

def ofBe (bytes : Bytes) : Nat := ofLe bytes.reverse

@[simp] theorem leBytes_length (width n : Nat) : (leBytes width n).length = width := by
  induction width generalizing n with
  | zero => rfl
  | succ width ih => simp [leBytes, ih]

@[simp] theorem beBytes_length (width n : Nat) : (beBytes width n).length = width := by
  simp [beBytes]

/-- Reading back the truncated bytes of a number gives the number modulo the
width, as the machine integer of that width holds it. -/
theorem ofLe_leBytes (width n : Nat) : ofLe (leBytes width n) = n % 256 ^ width := by
  induction width generalizing n with
  | zero => simp [leBytes, ofLe, Nat.mod_one]
  | succ width ih =>
      have hbyte : (UInt8.ofNat n).toNat = n % 256 := by simp
      rw [leBytes, ofLe, ih, hbyte, pow_succ', Nat.mod_mul]

theorem ofLe_leBytes_of_lt {width n : Nat} (h : n < 256 ^ width) :
    ofLe (leBytes width n) = n := by
  rw [ofLe_leBytes, Nat.mod_eq_of_lt h]

theorem ofLe_lt (bytes : Bytes) : ofLe bytes < 256 ^ bytes.length := by
  induction bytes with
  | nil => exact Nat.one_pos
  | cons b bs ih =>
      have hb := b.toNat_lt
      rw [ofLe, List.length_cons, pow_succ']
      omega

theorem ofBe_lt (bytes : Bytes) : ofBe bytes < 256 ^ bytes.length := by
  have h := ofLe_lt bytes.reverse
  rwa [List.length_reverse] at h

theorem ofBe_beBytes (width n : Nat) : ofBe (beBytes width n) = n % 256 ^ width := by
  rw [ofBe, beBytes, List.reverse_reverse, ofLe_leBytes]

theorem ofBe_beBytes_of_lt {width n : Nat} (h : n < 256 ^ width) :
    ofBe (beBytes width n) = n := by
  rw [ofBe_beBytes, Nat.mod_eq_of_lt h]

/-- `x.to_le_bytes()` of an unsigned machine integer of `8 * width` bits. -/
def toLe {w : Nat} (width : Nat) (x : BitVec w) : Bytes := leBytes width x.toNat

/-- `x.to_be_bytes()`. -/
def toBe {w : Nat} (width : Nat) (x : BitVec w) : Bytes := beBytes width x.toNat

@[simp] theorem toLe_length {w : Nat} (width : Nat) (x : BitVec w) :
    (toLe width x).length = width := leBytes_length width x.toNat

@[simp] theorem toBe_length {w : Nat} (width : Nat) (x : BitVec w) :
    (toBe width x).length = width := beBytes_length width x.toNat

theorem ofNat_ofLe_toLe (w width : Nat) (hw : 2 ^ w = 256 ^ width) (x : BitVec w) :
    BitVec.ofNat w (ofLe (toLe width x)) = x := by
  rw [toLe, ofLe_leBytes_of_lt (by rw [← hw]; exact x.isLt)]
  simp

theorem ofNat_ofBe_toBe (w width : Nat) (hw : 2 ^ w = 256 ^ width) (x : BitVec w) :
    BitVec.ofNat w (ofBe (toBe width x)) = x := by
  rw [toBe, ofBe_beBytes_of_lt (by rw [← hw]; exact x.isLt)]
  simp

end Relay.Binary
