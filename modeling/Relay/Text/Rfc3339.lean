import Mathlib.Data.Nat.Find
import Mathlib.Data.String.Basic

/-!
Times as RFC 3339 texts: the date of a day, numbers of a fixed width, and a
fraction of a second without the zeros it could do without. The order of the
texts is the order of the times as long as years have four digits.
-/

namespace Relay.Text

/-! ### Texts that differ before their ends -/

/-- Whatever follows, the first text comes first. -/
def Precedes (u v : List Char) : Prop := ∀ s t : List Char, u ++ s < v ++ t

theorem Precedes.append_left {u v : List Char} (h : Precedes u v) (w : List Char) :
    Precedes (w ++ u) (w ++ v) := by
  intro s t
  rw [List.append_assoc, List.append_assoc]
  exact List.append_left_lt (h s t)

theorem Precedes.cons {u v : List Char} (h : Precedes u v) (c : Char) :
    Precedes (c :: u) (c :: v) := h.append_left [c]

theorem Precedes.append_right {u v : List Char} (h : Precedes u v) (x y : List Char) :
    Precedes (u ++ x) (v ++ y) := by
  intro s t
  rw [List.append_assoc, List.append_assoc]
  exact h _ _

theorem precedes_of_head {a b : Char} (h : a < b) (u v : List Char) :
    Precedes (a :: u) (b :: v) := fun _ _ => List.cons_lt_cons_iff.mpr (Or.inl h)

/-! ### Numbers of a fixed width -/

def digit (n : Nat) : Char := Char.ofNat (48 + n)

/-- The last `w` decimal digits of `n`, as in `format!("{:0w$}", n)`. -/
def padded : Nat → Nat → List Char
  | 0, _ => []
  | w + 1, n => padded w (n / 10) ++ [digit (n % 10)]

theorem digit_lt : ∀ n < 10, ∀ m < n, digit m < digit n := by decide

theorem plus_lt_digit : ∀ n < 10, '+' < digit n := by decide

theorem padded_precedes {w m n : Nat} (h : m < n) (hn : n < 10 ^ w) :
    Precedes (padded w m) (padded w n) := by
  induction w generalizing m n with
  | zero =>
      rw [Nat.pow_zero] at hn
      omega
  | succ w ih =>
      have hbound : n / 10 < 10 ^ w := by
        rw [Nat.pow_succ] at hn
        omega
      rcases Nat.lt_or_ge (m / 10) (n / 10) with hlt | hge
      · exact (ih hlt hbound).append_right _ _
      · have hsame : m / 10 = n / 10 := by omega
        unfold padded
        rw [hsame]
        apply Precedes.append_left
        exact precedes_of_head (digit_lt _ (Nat.mod_lt _ (by omega)) _ (by omega)) _ _

/-- A number is its front and its back. -/
theorem padded_add (w k n : Nat) :
    padded (w + k) n = padded w (n / 10 ^ k) ++ padded k (n % 10 ^ k) := by
  induction k generalizing n with
  | zero => simp [padded]
  | succ k ih =>
      have hfront : n / 10 / 10 ^ k = n / 10 ^ (k + 1) := by
        rw [Nat.div_div_eq_div_mul, Nat.pow_succ, Nat.mul_comm]
      have hback : n / 10 % 10 ^ k = n % 10 ^ (k + 1) / 10 := by
        rw [Nat.pow_succ, Nat.mul_comm (10 ^ k), Nat.mod_mul_right_div_self]
      have hlast : n % 10 = n % 10 ^ (k + 1) % 10 := by
        rw [Nat.pow_succ, Nat.mod_mul_left_mod]
      rw [← Nat.add_assoc, padded, ih, padded, hfront, hback, hlast, List.append_assoc]

theorem padded_head {w n : Nat} (hw : 0 < w) : ∃ d < 10, ∃ rest, padded w n = digit d :: rest := by
  induction w generalizing n with
  | zero => omega
  | succ w ih =>
      cases w with
      | zero => exact ⟨n % 10, Nat.mod_lt _ (by omega), [], rfl⟩
      | succ w =>
          obtain ⟨d, hd, rest, hrest⟩ := ih (n := n / 10) (by omega)
          rw [padded, hrest]
          exact ⟨d, hd, rest ++ [digit (n % 10)], rfl⟩

/-! ### A fraction of a second -/

/-- Nanoseconds in as many groups of three digits as they need. -/
def fractionDigits (nanos : Nat) : List Char :=
  if nanos % 1000000 = 0 then padded 3 (nanos / 1000000)
  else if nanos % 1000 = 0 then padded 6 (nanos / 1000)
  else padded 9 nanos

def fraction (nanos : Nat) : List Char :=
  if nanos = 0 then [] else '.' :: fractionDigits nanos

/-- A number without its last `j` digits, which are zeros, before a longer one. -/
theorem cut_precedes {w j m n : Nat} {s t : List Char} (hj : 0 < j) (h : m * 10 ^ j < n)
    (hn : n < 10 ^ (w + j)) : padded w m ++ '+' :: s < padded (w + j) n ++ t := by
  have hpos : 0 < 10 ^ j := Nat.pow_pos (by omega)
  have hle : m ≤ n / 10 ^ j := (Nat.le_div_iff_mul_le hpos).mpr (Nat.le_of_lt h)
  rw [padded_add, List.append_assoc]
  rcases Nat.lt_or_eq_of_le hle with hlt | hsame
  · apply padded_precedes hlt
    rw [Nat.div_lt_iff_lt_mul hpos, ← Nat.pow_add]
    exact hn
  · obtain ⟨d, hd, rest, hrest⟩ := padded_head (n := n % 10 ^ j) hj
    rw [← hsame, hrest]
    exact List.append_left_lt (List.cons_lt_cons_iff.mpr (Or.inl (plus_lt_digit d hd)))

/-- A longer number before one without its last `j` digits, which are zeros. -/
theorem precedes_cut {w j m n : Nat} (h : m < n * 10 ^ j) (hn : n < 10 ^ w) :
    Precedes (padded (w + j) m) (padded w n) := by
  have hpos : 0 < 10 ^ j := Nat.pow_pos (by omega)
  have hlt : m / 10 ^ j < n := (Nat.div_lt_iff_lt_mul hpos).mpr h
  have hfront := (padded_precedes hlt hn).append_right (padded j (m % 10 ^ j)) []
  rw [padded_add]
  rwa [List.append_nil] at hfront

theorem fractionDigits_lt {m n : Nat} {s t : List Char} (h : m < n) (hn : n < 1000000000) :
    fractionDigits m ++ '+' :: s < fractionDigits n ++ '+' :: t := by
  unfold fractionDigits
  split
  · split
    · exact padded_precedes (by omega) (by omega) _ _
    · split
      · exact cut_precedes (w := 3) (j := 3) (by omega) (by omega) (by omega)
      · exact cut_precedes (w := 3) (j := 6) (by omega) (by omega) (by omega)
  · split
    · split
      · exact precedes_cut (w := 3) (j := 3) (by omega) (by omega) _ _
      · split
        · exact padded_precedes (by omega) (by omega) _ _
        · exact cut_precedes (w := 6) (j := 3) (by omega) (by omega) (by omega)
    · split
      · exact precedes_cut (w := 3) (j := 6) (by omega) (by omega) _ _
      · split
        · exact precedes_cut (w := 6) (j := 3) (by omega) (by omega) _ _
        · exact padded_precedes h hn _ _

theorem fraction_lt {m n : Nat} {s t : List Char} (h : m < n) (hn : n < 1000000000) :
    fraction m ++ '+' :: s < fraction n ++ '+' :: t := by
  unfold fraction
  rw [if_neg (by omega : n ≠ 0)]
  split
  · exact List.cons_lt_cons_iff.mpr (Or.inl (by decide))
  · exact List.cons_lt_cons_iff.mpr (Or.inr ⟨rfl, fractionDigits_lt h hn⟩)

/-! ### Dates -/

structure Date where
  year : Int
  month : Nat
  day : Nat
  deriving DecidableEq, Repr

/-- The days before the `y`-th year of a cycle of 400, whose years begin on
1 March. -/
def daysBefore (y : Nat) : Nat := 365 * y + y / 4 - y / 100 + y / 400

/-- The year of a cycle that a day of it lies in. -/
def yearOfCycle (day : Nat) : Nat := Nat.findGreatest (fun y => daysBefore y ≤ day) 400

/-- The date of a day, counted from 1 March of year 0. -/
def dateOf (days : Int) : Date :=
  let ofCycle := (days % 146097).toNat
  let y := yearOfCycle ofCycle
  let ofYear := ofCycle - daysBefore y
  let m := (5 * ofYear + 2) / 153
  { year := 400 * (days / 146097) + y + if m < 10 then 0 else 1
    month := if m < 10 then m + 3 else m - 9
    day := ofYear - (153 * m + 2) / 5 + 1 }

/-- The months of all years until a date's. -/
def Date.months (d : Date) : Int := 12 * d.year + d.month

theorem daysBefore_succ_le : ∀ y < 400, daysBefore (y + 1) ≤ daysBefore y + 366 := by
  decide +kernel

/-- A day lies in its year. -/
theorem yearOfCycle_spec {day : Nat} (h : day < 146097) :
    yearOfCycle day < 400 ∧ daysBefore (yearOfCycle day) ≤ day ∧
      day ≤ daysBefore (yearOfCycle day) + 365 := by
  have hle : yearOfCycle day ≤ 400 := Nat.findGreatest_le 400
  have hspec : daysBefore (yearOfCycle day) ≤ day :=
    Nat.findGreatest_spec (P := fun y => daysBefore y ≤ day) (Nat.zero_le 400) (Nat.zero_le day)
  have hne : yearOfCycle day ≠ 400 := by
    intro hlast
    rw [hlast] at hspec
    unfold daysBefore at hspec
    omega
  have hnext : ¬ daysBefore (yearOfCycle day + 1) ≤ day :=
    Nat.findGreatest_is_greatest (P := fun y => daysBefore y ≤ day) (Nat.lt_succ_self _) (by omega)
  have hlong := daysBefore_succ_le (yearOfCycle day) (by omega)
  exact ⟨by omega, hspec, by omega⟩

theorem yearOfCycle_le {m n : Nat} (h : m ≤ n) (hn : n < 146097) :
    yearOfCycle m ≤ yearOfCycle n := by
  obtain ⟨_, hm, _⟩ := yearOfCycle_spec (Nat.lt_of_le_of_lt h hn)
  apply Nat.le_findGreatest
  · exact (yearOfCycle_spec (Nat.lt_of_le_of_lt h hn)).1.le
  · exact Nat.le_trans hm h

/-- What the date of a day is made of: its year of March years, its month of
that year and what is left. -/
theorem dateOf_spec (days : Int) :
    ∃ (cycle : Int) (y m ofYear : Nat), days = 146097 * cycle + daysBefore y + ofYear ∧
      days / 146097 = cycle ∧ y = yearOfCycle (days % 146097).toNat ∧ y < 400 ∧ ofYear ≤ 365 ∧
      m = (5 * ofYear + 2) / 153 ∧ (dateOf days).months = 12 * (400 * cycle + y) + m + 3 ∧
      (dateOf days).day = ofYear - (153 * m + 2) / 5 + 1 ∧
      1 ≤ (dateOf days).month ∧ (dateOf days).month ≤ 12 := by
  have hbound : (days % 146097).toNat < 146097 := by omega
  obtain ⟨hyear, hlow, hhigh⟩ := yearOfCycle_spec hbound
  refine ⟨days / 146097, yearOfCycle (days % 146097).toNat, _,
    (days % 146097).toNat - daysBefore (yearOfCycle (days % 146097).toNat), ?_, rfl, rfl, hyear,
    ?_, rfl, ?_, rfl, ?_, ?_⟩
  · omega
  · omega
  · unfold Date.months dateOf
    dsimp only
    split <;> omega
  · unfold dateOf
    dsimp only
    split <;> omega
  · unfold dateOf
    dsimp only
    split <;> omega

/-- An earlier day has an earlier month, or an earlier day of the same one. -/
theorem dateOf_lt {a b : Int} (h : a < b) :
    (dateOf a).months < (dateOf b).months ∨
      (dateOf a).months = (dateOf b).months ∧ (dateOf a).day < (dateOf b).day := by
  obtain ⟨c, y, m, o, ha, hc, hy, hylt, ho, hm, hmonths, hday, -, -⟩ := dateOf_spec a
  obtain ⟨c', y', m', o', hb, hc', hy', hylt', ho', hm', hmonths', hday', -, -⟩ := dateOf_spec b
  have hcycle : c ≤ c' := by omega
  rw [hmonths, hmonths', hday, hday']
  rcases Int.lt_or_eq_of_le hcycle with hlt | hsame
  · left
    omega
  · have hyears : y ≤ y' := by
      rw [hy, hy']
      exact yearOfCycle_le (by omega) (by omega)
    rcases Nat.lt_or_eq_of_le hyears with hlt | hsameYear
    · left
      omega
    · subst hsame hsameYear
      omega

/-- A date's day of the month has two digits. -/
theorem dateOf_day_lt (days : Int) : (dateOf days).day < 100 := by
  obtain ⟨c, y, m, o, -, -, -, -, ho, hm, -, hday, -, -⟩ := dateOf_spec days
  omega

/-! ### Times -/

/-- `{:+05}` of a year that has not four digits. -/
def yearText (year : Int) : List Char :=
  if 0 ≤ year ∧ year ≤ 9999 then padded 4 year.toNat
  else
    (if year < 0 then '-' else '+') ::
      padded (max 4 (Nat.toDigits 10 year.natAbs).length) year.natAbs

def dateText (date : Date) : List Char :=
  yearText date.year ++ '-' :: (padded 2 date.month ++ '-' :: padded 2 date.day)

/-- The time of a day, from its seconds. -/
def clockText (seconds : Nat) : List Char :=
  padded 2 (seconds / 3600) ++ ':' :: (padded 2 (seconds / 60 % 60) ++
    ':' :: padded 2 (seconds % 60))

/-- The day of a time in nanoseconds since 1 January 1970. -/
def dayOf (time : Int) : Int := time / 86400000000000 + 719468

def nanosOfDay (time : Int) : Nat := (time % 86400000000000).toNat

def utcOffset : List Char := ['+', '0', '0', ':', '0', '0']

/-- `DateTime<Utc>::to_rfc3339`. -/
def rfc3339 (time : Int) : String :=
  String.ofList (dateText (dateOf (dayOf time)) ++ 'T' ::
    (clockText (nanosOfDay time / 1000000000) ++
      (fraction (nanosOfDay time % 1000000000) ++ utcOffset)))

/-- Its year is between 0 and 9999. -/
def FourDigitYear (time : Int) : Prop :=
  0 ≤ (dateOf (dayOf time)).year ∧ (dateOf (dayOf time)).year ≤ 9999

instance (time : Int) : Decidable (FourDigitYear time) :=
  inferInstanceAs (Decidable (_ ∧ _))

theorem dateText_precedes {a b : Int} (h : a < b)
    (ha : 0 ≤ (dateOf a).year ∧ (dateOf a).year ≤ 9999)
    (hb : 0 ≤ (dateOf b).year ∧ (dateOf b).year ≤ 9999) :
    Precedes (dateText (dateOf a)) (dateText (dateOf b)) := by
  obtain ⟨_, _, _, _, -, -, -, -, -, -, -, -, hlow, hhigh⟩ := dateOf_spec a
  obtain ⟨_, _, _, _, -, -, -, -, -, -, -, -, hlow', hhigh'⟩ := dateOf_spec b
  have horder := dateOf_lt h
  have hday := dateOf_day_lt b
  unfold Date.months at horder
  unfold dateText yearText
  rw [if_pos ha, if_pos hb]
  rcases Int.lt_trichotomy (dateOf a).year (dateOf b).year with hyear | hyear | hyear
  · exact (padded_precedes (w := 4) (by omega) (by omega)).append_right _ _
  · rw [hyear]
    refine (Precedes.cons ?_ _).append_left _
    rcases Nat.lt_trichotomy (dateOf a).month (dateOf b).month with hmonth | hmonth | hmonth
    · exact (padded_precedes (w := 2) hmonth (by omega)).append_right _ _
    · rw [hmonth]
      refine (Precedes.cons ?_ _).append_left _
      exact padded_precedes (by omega) hday
    · omega
  · omega

theorem clockText_precedes {m n : Nat} (h : m < n) (hn : n < 86400) :
    Precedes (clockText m) (clockText n) := by
  unfold clockText
  rcases Nat.lt_or_ge (m / 3600) (n / 3600) with hhour | hhour
  · exact (padded_precedes (w := 2) hhour (by omega)).append_right _ _
  · have hsame : m / 3600 = n / 3600 := by omega
    rw [hsame]
    refine (Precedes.cons ?_ _).append_left _
    rcases Nat.lt_or_ge (m / 60 % 60) (n / 60 % 60) with hminute | hminute
    · exact (padded_precedes (w := 2) hminute (by omega)).append_right _ _
    · have hsameMinute : m / 60 % 60 = n / 60 % 60 := by omega
      rw [hsameMinute]
      refine (Precedes.cons ?_ _).append_left _
      exact padded_precedes (by omega) (by omega)

theorem rfc3339_lt {s t : Int} (h : s < t) (hs : FourDigitYear s) (ht : FourDigitYear t) :
    rfc3339 s < rfc3339 t := by
  have hday : dayOf s ≤ dayOf t := by
    unfold dayOf
    omega
  simp only [String.lt_iff_toList_lt, rfc3339, String.toList_ofList]
  rcases Int.lt_or_eq_of_le hday with hlt | hsame
  · exact dateText_precedes hlt hs ht _ _
  · have hnanos : nanosOfDay s < nanosOfDay t := by
      unfold dayOf at hsame
      unfold nanosOfDay
      omega
    have hbound : nanosOfDay t < 86400000000000 := by
      unfold nanosOfDay
      omega
    rw [hsame]
    apply List.append_left_lt
    apply List.cons_lt_cons_iff.mpr
    refine Or.inr ⟨rfl, ?_⟩
    rcases Nat.lt_or_ge (nanosOfDay s / 1000000000) (nanosOfDay t / 1000000000) with hclock | hclock
    · exact clockText_precedes hclock (by omega) _ _
    · have hsameClock : nanosOfDay s / 1000000000 = nanosOfDay t / 1000000000 := by omega
      rw [hsameClock]
      apply List.append_left_lt
      exact fraction_lt (by omega) (by omega)

/-- The texts are ordered as the times are. -/
theorem rfc3339_lt_iff {s t : Int} (hs : FourDigitYear s) (ht : FourDigitYear t) :
    rfc3339 s < rfc3339 t ↔ s < t := by
  constructor
  · intro h
    by_contra hge
    rcases Int.lt_or_eq_of_le (Int.not_lt.mp hge) with hlt | rfl
    · exact lt_asymm h (rfc3339_lt hlt ht hs)
    · exact lt_irrefl _ h
  · exact fun h => rfc3339_lt h hs ht

example : rfc3339 1709210096789000000 = "2024-02-29T12:34:56.789+00:00" := by decide +kernel

end Relay.Text
