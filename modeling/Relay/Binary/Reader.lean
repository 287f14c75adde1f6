import Relay.Binary.Bytes

/-!
Readers of a message at an offset. What a reader returns depends on the bytes
up to where it stops, and not on those before a base, such as a header with
counts in it. So a message can be edited behind what was read.
-/

namespace Relay.Binary

variable {α : Type} {base : Nat}

/-- Reads a value at an offset and gives the offset behind it. -/
abbrev Reader (α : Type) := Bytes → Nat → Option (α × Nat)

/-- The same bytes from `base` up to `limit`. -/
def Agree (base limit : Nat) (bytes other : Bytes) : Prop :=
  ∀ i, base ≤ i → i < limit → other[i]? = bytes[i]?

theorem Agree.mono {bytes other : Bytes} {base' limit limit' : Nat}
    (h : Agree base limit bytes other) (hbase : base ≤ base') (hlimit : limit' ≤ limit) :
    Agree base' limit' bytes other :=
  fun i hlo hhi => h i (by omega) (by omega)

/-- A message that agrees is at least as long. -/
theorem Agree.le_length {bytes other : Bytes} {limit : Nat} (h : Agree base limit bytes other)
    (hbase : base < limit) (hlimit : limit ≤ bytes.length) : limit ≤ other.length := by
  by_contra hshort
  have hlast := h (limit - 1) (by omega) (by omega)
  rw [List.getElem?_eq_none (by omega), List.getElem?_eq_getElem (by omega)] at hlast
  cases hlast

theorem Agree.slice {bytes other : Bytes} {limit : Nat} (h : Agree base limit bytes other)
    {lo n : Nat} (hlo : base ≤ lo) (hhi : lo + n ≤ limit) :
    (other.drop lo).take n = (bytes.drop lo).take n := by
  apply List.ext_getElem?
  intro i
  rw [List.getElem?_take, List.getElem?_take, List.getElem?_drop, List.getElem?_drop]
  split
  · exact h (lo + i) (by omega) (by omega)
  · rfl

/-- An edit behind `kept` bytes. -/
theorem Agree.of_take (bytes back : Bytes) {kept : Nat} (h : kept ≤ bytes.length) :
    Agree base kept bytes (bytes.take kept ++ back) := by
  intro i _ hi
  rw [List.getElem?_append_left (by rw [List.length_take]; omega), List.getElem?_take, if_pos hi]

/-- A reader moves forward within the message, and reads the same from any
message with the same bytes up to where it stopped. -/
structure Local (base : Nat) (r : Reader α) : Prop where
  advances : ∀ {bytes pos a next}, r bytes pos = some (a, next) → pos < next ∧ next ≤ bytes.length
  frame : ∀ {bytes other pos a next}, base ≤ pos → r bytes pos = some (a, next) →
    Agree base next bytes other → r other pos = some (a, next)

/-- `n` values in a row. -/
def many (r : Reader α) : Nat → Reader (List α)
  | 0 => fun _ pos => some ([], pos)
  | n + 1 => fun bytes pos =>
      (r bytes pos).bind fun (a, mid) =>
        (many r n bytes mid).map fun (as, next) => (a :: as, next)

theorem many_succ_eq_some {r : Reader α} {n : Nat} {bytes : Bytes} {pos next : Nat}
    {as : List α} :
    many r (n + 1) bytes pos = some (as, next) ↔
      ∃ a mid rest, r bytes pos = some (a, mid) ∧ many r n bytes mid = some (rest, next) ∧
        as = a :: rest := by
  constructor
  · intro h
    obtain ⟨⟨a, mid⟩, ha, h⟩ := Option.bind_eq_some_iff.mp h
    obtain ⟨⟨rest, stop⟩, hrest, heq⟩ := Option.map_eq_some_iff.mp h
    cases heq
    exact ⟨a, mid, rest, ha, hrest, rfl⟩
  · rintro ⟨a, mid, rest, ha, hrest, rfl⟩
    simp [many, ha, hrest]

theorem many_length {r : Reader α} {n : Nat} {bytes : Bytes} {pos next : Nat} {as : List α}
    (h : many r n bytes pos = some (as, next)) : as.length = n := by
  induction n generalizing pos as with
  | zero =>
      cases h
      rfl
  | succ n ih =>
      obtain ⟨a, mid, rest, _, hrest, rfl⟩ := many_succ_eq_some.mp h
      rw [List.length_cons, ih hrest]

/-- A row of values is the one part of it behind the other. -/
theorem many_append_eq_some {r : Reader α} {m n : Nat} {bytes : Bytes} {pos next : Nat}
    {as : List α} :
    many r (m + n) bytes pos = some (as, next) ↔
      ∃ front mid back, many r m bytes pos = some (front, mid) ∧
        many r n bytes mid = some (back, next) ∧ as = front ++ back := by
  induction m generalizing pos as with
  | zero =>
      rw [Nat.zero_add]
      constructor
      · intro h
        exact ⟨[], pos, as, rfl, h, rfl⟩
      · rintro ⟨front, mid, back, hfront, hback, rfl⟩
        cases hfront
        exact hback
  | succ m ih =>
      rw [Nat.succ_add, many_succ_eq_some]
      constructor
      · rintro ⟨a, mid, rest, ha, hrest, rfl⟩
        obtain ⟨front, mid', back, hfront, hback, rfl⟩ := ih.mp hrest
        exact ⟨a :: front, mid', back, many_succ_eq_some.mpr ⟨a, mid, front, ha, hfront, rfl⟩,
          hback, rfl⟩
      · rintro ⟨front, mid', back, hfront, hback, rfl⟩
        obtain ⟨a, mid, rest, ha, hrest, rfl⟩ := many_succ_eq_some.mp hfront
        exact ⟨a, mid, rest ++ back, ha, ih.mpr ⟨rest, mid', back, hrest, hback, rfl⟩, rfl⟩

theorem Local.many_advances {r : Reader α} (hr : Local base r) {n : Nat} {bytes : Bytes}
    {pos next : Nat} {as : List α} (h : many r n bytes pos = some (as, next)) :
    pos ≤ next ∧ (pos ≤ bytes.length → next ≤ bytes.length) := by
  induction n generalizing pos as with
  | zero =>
      cases h
      exact ⟨le_rfl, id⟩
  | succ n ih =>
      obtain ⟨a, mid, rest, ha, hrest, rfl⟩ := many_succ_eq_some.mp h
      obtain ⟨hlt, hle⟩ := hr.advances ha
      obtain ⟨hnext, hbound⟩ := ih hrest
      exact ⟨by omega, fun _ => hbound hle⟩

theorem Local.many_frame {r : Reader α} (hr : Local base r) {n : Nat} {bytes other : Bytes}
    {pos next : Nat} {as : List α} (hbase : base ≤ pos)
    (h : many r n bytes pos = some (as, next)) (hagree : Agree base next bytes other) :
    many r n other pos = some (as, next) := by
  induction n generalizing pos as with
  | zero => exact h
  | succ n ih =>
      obtain ⟨a, mid, rest, ha, hrest, rfl⟩ := many_succ_eq_some.mp h
      have hlt := (hr.advances ha).1
      have hle := (hr.many_advances hrest).1
      apply many_succ_eq_some.mpr
      exact ⟨a, mid, rest, hr.frame hbase ha (hagree.mono le_rfl hle), ih (by omega) hrest, rfl⟩

/-- Nothing is read at the end of a message. -/
theorem Local.many_at_end {r : Reader α} (hr : Local base r) {n : Nat} {bytes : Bytes}
    {next : Nat} {as : List α} (h : many r n bytes bytes.length = some (as, next)) : as = [] := by
  cases n with
  | zero =>
      cases h
      rfl
  | succ n =>
      obtain ⟨a, mid, _, ha, _⟩ := many_succ_eq_some.mp h
      have := hr.advances ha
      omega

end Relay.Binary
