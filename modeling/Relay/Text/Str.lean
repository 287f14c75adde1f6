import Mathlib.Tactic

/-!
The operations on strings that the program takes from its standard library,
over the list of a string's characters.
-/

namespace Relay.Text

/-- `s.trim_end_matches('.')`. -/
def trimEndDots (s : String) : String :=
  String.ofList (s.toList.reverse.dropWhile (· == '.')).reverse

/-- `s.trim_end_matches(c)`. -/
def trimEndMatches (c : Char) (s : String) : String :=
  String.ofList (s.toList.reverse.dropWhile (· == c)).reverse

/-- `s.to_ascii_lowercase()`. -/
def toAsciiLowercase (s : String) : String := String.ofList (s.toList.map Char.toLower)

/-- `s.to_ascii_uppercase()`. -/
def toAsciiUppercase (s : String) : String := String.ofList (s.toList.map Char.toUpper)

/-- `s.is_ascii()`. -/
def isAscii (s : String) : Bool := s.toList.all fun c => decide (c.toNat < 128)

/-- `c.is_whitespace()`: the Unicode property White_Space. -/
def isWhitespace (c : Char) : Bool :=
  let n := c.toNat
  (0x9 ≤ n && n ≤ 0xd) || n == 0x20 || n == 0x85 || n == 0xa0 || n == 0x1680 ||
    (0x2000 ≤ n && n ≤ 0x200a) || n == 0x2028 || n == 0x2029 || n == 0x202f || n == 0x205f ||
    n == 0x3000

def trimStartChars (cs : List Char) : List Char := cs.dropWhile isWhitespace

def trimEndChars (cs : List Char) : List Char := (cs.reverse.dropWhile isWhitespace).reverse

def trimChars (cs : List Char) : List Char := trimEndChars (trimStartChars cs)

/-- `s.trim()`. -/
def trim (s : String) : String := String.ofList (trimChars s.toList)

/-- `s.strip_prefix(front)`. -/
def stripPrefixChars : List Char → List Char → Option (List Char)
  | [], cs => some cs
  | _ :: _, [] => none
  | p :: ps, c :: cs => if p = c then stripPrefixChars ps cs else none

theorem stripPrefixChars_eq_some {front cs rest : List Char}
    (h : stripPrefixChars front cs = some rest) : cs = front ++ rest := by
  induction front generalizing cs with
  | nil =>
      cases h
      rfl
  | cons p ps ih =>
      cases cs with
      | nil => cases h
      | cons c cs =>
          rw [stripPrefixChars] at h
          split at h
          · rename_i hpc
            rw [hpc, ih h]
            rfl
          · cases h

def stripPrefix (s front : String) : Option String :=
  (stripPrefixChars front.toList s.toList).map String.ofList

/-- `s.starts_with(front)`. -/
def startsWith (s front : String) : Bool := (stripPrefixChars front.toList s.toList).isSome

/-- `s.split_once(sep)`: what stands before and after the first `sep`. -/
def splitOnceChars (sep : List Char) : List Char → Option (List Char × List Char)
  | [] => (stripPrefixChars sep []).map fun back => ([], back)
  | c :: cs =>
      match stripPrefixChars sep (c :: cs) with
      | some back => some ([], back)
      | none => (splitOnceChars sep cs).map fun (front, back) => (c :: front, back)

def splitOnce (s sep : String) : Option (String × String) :=
  (splitOnceChars sep.toList s.toList).map fun (front, back) =>
    (String.ofList front, String.ofList back)

/-- `s.contains(part)`. -/
def contains (s part : String) : Bool := (splitOnceChars part.toList s.toList).isSome

/-- `s.split(c).next()`: everything before the first `c`. -/
def beforeFirst (c : Char) (s : String) : String :=
  String.ofList (s.toList.takeWhile (· ≠ c))

/-- `s.split(c)`. -/
def splitChar (c : Char) (s : String) : List String :=
  (s.toList.splitOn c).map String.ofList

/-- `s.split_whitespace()`. -/
def splitWhitespace (s : String) : List String :=
  ((s.toList.splitOnP isWhitespace).filter (· ≠ [])).map String.ofList

/-- The line end a line is read without: a line feed, or both characters. -/
def dropCarriageReturn (cs : List Char) : List Char :=
  if cs.getLast? = some '\r' then cs.dropLast else cs

/-- `s.lines()`: only what a line feed ends loses a carriage return, and
nothing after the last line feed is no line. -/
def linesOfChars (current : List Char) : List Char → List (List Char)
  | [] => if current = [] then [] else [current.reverse]
  | c :: cs =>
      if c = '\n' then dropCarriageReturn current.reverse :: linesOfChars [] cs
      else linesOfChars (c :: current) cs

def lines (s : String) : List String := (linesOfChars [] s.toList).map String.ofList

/-- What stands before and after the last `c`. -/
def splitLast (c : Char) (s : String) : Option (String × String) :=
  let (back, front) := s.toList.reverse.span (· ≠ c)
  match front with
  | [] => none
  | _ :: front => some (String.ofList front.reverse, String.ofList back.reverse)

/-- The value of a non-empty list of decimal digits. -/
def digitsValue (cs : List Char) : Option Nat :=
  if cs ≠ [] ∧ cs.all Char.isDigit then
    some (cs.foldl (fun n c => 10 * n + (c.toNat - 48)) 0)
  else none

/-- `s.parse()` at an unsigned type with this largest value; a sign `+` is
accepted. -/
def parseUnsigned (largest : Nat) (s : String) : Option Nat := do
  let cs := s.toList
  let digits := match cs with
    | '+' :: rest => rest
    | _ => cs
  let n ← digitsValue digits
  if n ≤ largest then some n else none

def hexDigitValue (c : Char) : Option Nat :=
  if c.isDigit then some (c.toNat - 48)
  else if 'a' ≤ c ∧ c ≤ 'f' then some (c.toNat - 87)
  else if 'A' ≤ c ∧ c ≤ 'F' then some (c.toNat - 55)
  else none

/-- `from_str_radix(s, 16)` at an unsigned type with this largest value. -/
def fromHex (largest : Nat) (s : String) : Option Nat := do
  let cs := s.toList
  let digits := match cs with
    | '+' :: rest => rest
    | _ => cs
  if digits = [] then none
  else
    let values ← digits.mapM hexDigitValue
    let n := values.foldl (fun n v => 16 * n + v) 0
    if n ≤ largest then some n else none

/-- `s.strip_suffix(c)`. -/
def stripSuffixChar (c : Char) (s : String) : Option String :=
  if s.toList.getLast? = some c then some (String.ofList s.toList.dropLast) else none

/-! ### Letter case and dots at the end -/

theorem isUpper_iff {c : Char} : c.isUpper = true ↔ 65 ≤ c.toNat ∧ c.toNat ≤ 90 := by
  change decide ('A'.val ≤ c.val ∧ c.val ≤ 'Z'.val) = true ↔ _
  rw [decide_eq_true_eq]
  exact Iff.rfl

theorem isLower_iff {c : Char} : c.isLower = true ↔ 97 ≤ c.toNat ∧ c.toNat ≤ 122 := by
  change (decide ('a'.val ≤ c.val) && decide (c.val ≤ 'z'.val)) = true ↔ _
  rw [Bool.and_eq_true, decide_eq_true_eq, decide_eq_true_eq]
  exact Iff.rfl

theorem isDigit_iff {c : Char} : c.isDigit = true ↔ 48 ≤ c.toNat ∧ c.toNat ≤ 57 := by
  change (decide ('0'.val ≤ c.val) && decide (c.val ≤ '9'.val)) = true ↔ _
  rw [Bool.and_eq_true, decide_eq_true_eq, decide_eq_true_eq]
  exact Iff.rfl

theorem toLower_of_not_isUpper {c : Char} (h : c.isUpper = false) : c.toLower = c := by
  unfold Char.toLower
  rw [dif_neg]
  intro hrange
  rw [isUpper_iff.mpr hrange] at h
  cases h

theorem toLower_eq_dot {c : Char} : c.toLower = '.' ↔ c = '.' := by
  cases hupper : c.isUpper with
  | false => rw [toLower_of_not_isUpper hupper]
  | true =>
      have hnat : 65 ≤ c.val.toNat ∧ c.val.toNat ≤ 90 := isUpper_iff.mp hupper
      have hrange : c.val ≥ 'A'.val ∧ c.val ≤ 'Z'.val := hnat
      constructor
      · intro h
        unfold Char.toLower at h
        rw [dif_pos hrange] at h
        have hval : (c.val + ('a'.val - 'A'.val)).toNat = '.'.val.toNat :=
          congrArg (fun d : Char => d.val.toNat) h
        have hshift : ('a'.val - 'A'.val).toNat = 32 := rfl
        have hdot : '.'.val.toNat = 46 := rfl
        rw [UInt32.toNat_add, hshift, hdot] at hval
        omega
      · rintro rfl
        simp at hnat

/-- A text without capital letters is its own lower case. -/
theorem toAsciiLowercase_eq_self {s : String} (h : s.toList.any Char.isUpper = false) :
    toAsciiLowercase s = s := by
  unfold toAsciiLowercase
  rw [List.map_congr_left (g := id), List.map_id, String.ofList_toList]
  intro c hc
  apply toLower_of_not_isUpper
  exact Bool.eq_false_iff.mpr (List.any_eq_false.mp h c hc)

/-- Dots are no letters, so they can be trimmed before or after. -/
theorem toAsciiLowercase_trimEndDots (s : String) :
    toAsciiLowercase (trimEndDots s) = trimEndDots (toAsciiLowercase s) := by
  have hdrop : ∀ cs : List Char, (cs.map Char.toLower).dropWhile (· == '.') =
      (cs.dropWhile (· == '.')).map Char.toLower := by
    intro cs
    induction cs with
    | nil => rfl
    | cons c cs ih =>
        rw [List.map_cons, List.dropWhile_cons, List.dropWhile_cons]
        have hsame : (c.toLower == '.') = (c == '.') := by
          rw [Bool.eq_iff_iff, beq_iff_eq, beq_iff_eq, toLower_eq_dot]
        rw [hsame, ih]
        split <;> rfl
  unfold toAsciiLowercase trimEndDots
  simp only [String.toList_ofList]
  rw [← List.map_reverse, hdrop, List.map_reverse]

/-! ### A number at the end -/

/-- A text and a number behind a colon can be told apart: the number has no
colon. -/
theorem append_colon_number {s t : String} {m n : Nat}
    (h : s ++ ":" ++ toString m = t ++ ":" ++ toString n) : s = t ∧ m = n := by
  have hcolon : ∀ k : Nat, ':' ∉ (toString k).toList := by
    intro k hmem
    have hdigits : (toString k).toList = Nat.toDigits 10 k := Nat.toList_repr
    rw [hdigits] at hmem
    have hdigit := Nat.isDigit_of_mem_toDigits (by omega) (by omega) hmem
    simp at hdigit
  have hchars := congrArg (fun x : String => x.toList.reverse) h
  simp only [String.toList_append, List.reverse_append, List.append_assoc] at hchars
  have hsplit := congrArg (List.splitOn ':') hchars
  have hfront : ∀ k : Nat, ':' ∉ (toString k).toList.reverse := fun k hmem =>
    hcolon k (List.mem_reverse.mp hmem)
  rw [show (":" : String).toList.reverse = [':'] from rfl, List.singleton_append,
    List.singleton_append, List.splitOn_append_cons_self_of_not_mem (hfront m),
    List.splitOn_append_cons_self_of_not_mem (hfront n)] at hsplit
  have hnumber : toString m = toString n := by
    have hreverse := (List.cons.inj hsplit).1
    exact String.toList_injective (List.reverse_injective hreverse)
  refine ⟨?_, ?_⟩
  · have hback := congrArg String.toList h
    rw [hnumber] at hback
    simp only [String.toList_append, List.append_left_inj] at hback
    exact String.toList_injective hback
  · have hdigits : Nat.toDigits 10 m = Nat.toDigits 10 n := by
      rw [← Nat.toList_repr, ← Nat.toList_repr]
      exact congrArg String.toList hnumber
    rw [← Nat.ofDigitChars_toDigits (b := 10) (n := m) (by omega) (by omega), hdigits,
      Nat.ofDigitChars_toDigits (by omega) (by omega)]

end Relay.Text
