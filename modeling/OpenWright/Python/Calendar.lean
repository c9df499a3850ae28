import Mathlib.Algebra.GroupWithZero.Nat
import Mathlib.Algebra.Order.BigOperators.Group.List
import Mathlib.Algebra.Order.Group.Nat
import Mathlib.Data.List.GetD
import Mathlib.Tactic.Common

/-! # The proleptic Gregorian calendar

Dates and the days they are, counted from the first of January of year 1, which is day 1. A year may
be zero or negative.

* **`Date.ordinal_ofOrdinal`** — every day has a date, which is a date of the calendar.
* **`Date.ordinal_lt`** — later dates are later days. -/

namespace OpenWright.Python

/-- Whether a year has a 29th of February. -/
def isLeap (year : Int) : Bool := year % 4 = 0 && (year % 100 ≠ 0 || year % 400 = 0)

/-- The days of the months of a year. -/
def monthLengths (leap : Bool) : List Nat :=
  [31, if leap then 29 else 28, 31, 30, 31, 30, 31, 31, 30, 31, 30, 31]

/-- The days before the first of January of a year. -/
def daysBeforeYear (year : Int) : Int :=
  (year - 1) * 365 + (year - 1) / 4 - (year - 1) / 100 + (year - 1) / 400

/-- A date. -/
structure Date where
  year : Int
  month : Nat
  day : Nat
deriving DecidableEq

namespace Date

/-- The months of the date's year. -/
def months (d : Date) : List Nat := monthLengths (isLeap d.year)

/-- The date is one of the calendar. -/
def Valid (d : Date) : Prop :=
  1 ≤ d.month ∧ d.month ≤ 12 ∧ 1 ≤ d.day ∧ d.day ≤ d.months.getD (d.month - 1) 0

instance (d : Date) : Decidable d.Valid := instDecidableAnd

/-- The day that a date is. -/
def ordinal (d : Date) : Int :=
  daysBeforeYear d.year + ((d.months.take (d.month - 1)).sum : Nat) + d.day

/-- The month and the day of the month that are `n` days after the first of the listed months. -/
def ofDayOfYear : List Nat → Nat → Nat × Nat
  | [], n => (1, n + 1)
  | len :: lens, n =>
    if n < len then (1, n + 1)
    else
      let (month, day) := ofDayOfYear lens (n - len)
      (month + 1, day)

/-- The date of a day: whole periods of 400 years, of 100, of 4 and of one are taken off. -/
def ofOrdinal (ordinal : Int) : Date :=
  let n := ordinal - 1
  let n400 := n / 146097
  let n := n % 146097
  let n100 := n / 36524
  let n := n % 36524
  let n4 := n / 1461
  let n := n % 1461
  let n1 := n / 365
  let n := n % 365
  let year := n400 * 400 + n100 * 100 + n4 * 4 + n1 + 1
  -- the last day of a period of 100 or of 4 years has no period of a smaller kind left
  if n1 = 4 ∨ n100 = 4 then { year := year - 1, month := 12, day := 31 }
  else
    let (month, day) := ofDayOfYear (monthLengths (isLeap year)) n.toNat
    { year, month, day }

end Date

/-! ## Years -/

/-- The days of a year. -/
theorem daysBeforeYear_succ (year : Int) :
    daysBeforeYear (year + 1) = daysBeforeYear year + (monthLengths (isLeap year)).sum := by
  have hsum : ((monthLengths (isLeap year)).sum : Int) = if isLeap year then 366 else 365 := by
    cases isLeap year <;> rfl
  rw [hsum, daysBeforeYear, daysBeforeYear, isLeap]
  simp only [Bool.and_eq_true, Bool.or_eq_true, decide_eq_true_eq, ne_eq]
  split <;> omega

/-- A later year starts later. -/
theorem daysBeforeYear_mono {year year' : Int} (h : year ≤ year') :
    daysBeforeYear year ≤ daysBeforeYear year' := by
  rw [daysBeforeYear, daysBeforeYear]
  omega

namespace Date

variable {d d' : Date}

/-! ## Months -/

/-- The months before one of a year and the days of it are days of the year. -/
theorem take_sum_add_le (d : Date) (h : d.Valid) :
    (d.months.take (d.month - 1)).sum + d.day ≤ (d.months.take d.month).sum := by
  obtain ⟨hone, htwelve, -, hday⟩ := h
  have hlt : d.month - 1 < d.months.length := by
    rw [months, monthLengths]
    simp only [List.length_cons, List.length_nil]
    omega
  rw [List.getD_eq_getElem _ _ hlt] at hday
  rw [show d.month = d.month - 1 + 1 by omega, List.take_succ_eq_append_getElem hlt, List.sum_append,
    List.sum_singleton]
  simp only [Nat.add_sub_cancel]
  omega

/-- More months have more days. -/
theorem take_sum_mono (lens : List Nat) {m n : Nat} (h : m ≤ n) :
    (lens.take m).sum ≤ (lens.take n).sum :=
  List.Sublist.sum_le_sum (List.take_sublist_take_left h) fun _ _ => Nat.zero_le _

/-- A date is a day of its year. -/
theorem ordinal_bounds (h : d.Valid) :
    daysBeforeYear d.year < d.ordinal ∧ d.ordinal ≤ daysBeforeYear (d.year + 1) := by
  have hle := (take_sum_add_le d h).trans (take_sum_mono d.months h.2.1)
  have htotal : (d.months.take 12).sum = (monthLengths (isLeap d.year)).sum := by
    rw [months]
    cases isLeap d.year <;> rfl
  obtain ⟨-, -, hday, -⟩ := h
  rw [daysBeforeYear_succ, ordinal]
  omega

/-- **Later dates are later days.** -/
theorem ordinal_lt (h : d.Valid) (h' : d'.Valid)
    (hlt : d.year < d'.year ∨ d.year = d'.year ∧
      (d.month < d'.month ∨ d.month = d'.month ∧ d.day < d'.day)) : d.ordinal < d'.ordinal := by
  rcases hlt with hyear | ⟨hyear, hmonth | ⟨hmonth, hday⟩⟩
  · have hyears := daysBeforeYear_mono (show d.year + 1 ≤ d'.year by omega)
    have hbounds := ordinal_bounds h
    have hbounds' := ordinal_bounds h'
    omega
  · have hle := (take_sum_add_le d h).trans
      (take_sum_mono d.months (show d.month ≤ d'.month - 1 by omega))
    have hday := h'.2.2.1
    rw [ordinal, ordinal, months, months, ← hyear, ← months]
    rw [months] at hle
    rw [months]
    omega
  · rw [ordinal, ordinal, months, months, hyear, hmonth]
    omega

/-! ## The date of a day -/

/-- A day of the listed months is a day of one of them. -/
theorem ofDayOfYear_spec {lens : List Nat} {n : Nat} (h : n < lens.sum) :
    1 ≤ (ofDayOfYear lens n).1 ∧ (ofDayOfYear lens n).1 ≤ lens.length ∧
      1 ≤ (ofDayOfYear lens n).2 ∧
      (ofDayOfYear lens n).2 ≤ lens.getD ((ofDayOfYear lens n).1 - 1) 0 ∧
      (lens.take ((ofDayOfYear lens n).1 - 1)).sum + (ofDayOfYear lens n).2 = n + 1 := by
  induction lens generalizing n with
  | nil => exact absurd h (Nat.not_lt_zero n)
  | cons len lens ih =>
      rw [ofDayOfYear]
      by_cases hlen : n < len
      · rw [if_pos hlen]
        simp only [List.length_cons, Nat.sub_self, List.getD_cons_zero, List.take_zero,
          List.sum_nil]
        omega
      · rw [if_neg hlen]
        rw [List.sum_cons] at h
        obtain ⟨hone, hlength, hday, hle, hsum⟩ := ih (show n - len < lens.sum by omega)
        generalize ofDayOfYear lens (n - len) = md at *
        obtain ⟨month, day⟩ := md
        obtain ⟨month, rfl⟩ : ∃ m, month = m + 1 := ⟨month - 1, by simp only at hone; omega⟩
        simp only [Nat.add_sub_cancel, List.length_cons, List.getD_cons_succ, List.take_succ_cons,
          List.sum_cons] at *
        omega

/-- The days before a year that begins after whole periods of 400, 100, 4 years and of one. -/
theorem daysBeforeYear_periods {a b c e : Int} (hb : 0 ≤ b ∧ b < 4) (hc : 0 ≤ c ∧ c < 25)
    (he : 0 ≤ e ∧ e < 4) : daysBeforeYear (a * 400 + b * 100 + c * 4 + e + 1)
      = a * 146097 + b * 36524 + c * 1461 + e * 365 := by
  rw [daysBeforeYear]
  omega

/-- The last day of a year with a 29th of February. -/
theorem lastDay_spec {year : Int} (h : isLeap year = true) :
    ({ year, month := 12, day := 31 } : Date).Valid ∧
      ({ year, month := 12, day := 31 } : Date).ordinal = daysBeforeYear year + 366 := by
  have hmonths : ({ year, month := 12, day := 31 } : Date).months = monthLengths true :=
    congrArg monthLengths h
  rw [Valid, ordinal, hmonths]
  refine ⟨(by decide : 1 ≤ 12 ∧ 12 ≤ 12 ∧ 1 ≤ 31 ∧ 31 ≤ (monthLengths true).getD 11 0), ?_⟩
  change daysBeforeYear year + (335 : Nat) + (31 : Nat) = _
  omega

/-- **Every day has a date**, and it is a date of the calendar. -/
theorem ordinal_ofOrdinal (n : Int) : (ofOrdinal n).Valid ∧ (ofOrdinal n).ordinal = n := by
  rw [ofOrdinal]
  simp only
  -- centuries, four years, years and days, as they are taken off one after the other
  set a := (n - 1) / 146097
  set b := (n - 1) % 146097 / 36524
  set c := (n - 1) % 146097 % 36524 / 1461
  set e := (n - 1) % 146097 % 36524 % 1461 / 365
  set r := (n - 1) % 146097 % 36524 % 1461 % 365
  -- what is left is in range, except on the last day of a leap year
  have hn : n = a * 146097 + b * 36524 + c * 1461 + e * 365 + r + 1 := by omega
  have hr : 0 ≤ r ∧ r < 365 := by omega
  have he : 0 ≤ e ∧ e * 365 + r < 1461 := by omega
  have hc : 0 ≤ c ∧ c * 1461 + e * 365 + r < 36524 := by omega
  have hb : 0 ≤ b ∧ b * 36524 + c * 1461 + e * 365 + r < 146097 := by omega
  clear_value a b c e r
  split
  -- the last day of a leap year, which the divisions take for a day of the next
  · rename_i hlast
    have hleap : isLeap (a * 400 + b * 100 + c * 4 + e + 1 - 1) = true := by
      simp only [isLeap, Bool.and_eq_true, Bool.or_eq_true, decide_eq_true_eq, ne_eq]
      omega
    obtain ⟨hvalid, hordinal⟩ := lastDay_spec hleap
    refine ⟨hvalid, ?_⟩
    rw [hordinal, daysBeforeYear]
    omega
  · rename_i hlast
    -- any other day: the year is long enough for the days left
    have hyear := @daysBeforeYear_periods a b c e (by omega) (by omega) (by omega)
    have hlong : r.toNat < (monthLengths (isLeap (a * 400 + b * 100 + c * 4 + e + 1))).sum := by
      have hsum : ∀ leap, 365 ≤ (monthLengths leap).sum := by decide
      have := hsum (isLeap (a * 400 + b * 100 + c * 4 + e + 1))
      omega
    obtain ⟨hone, hlength, hday, hle, hsum⟩ := ofDayOfYear_spec hlong
    refine ⟨⟨hone, hlength, hday, hle⟩, ?_⟩
    rw [ordinal, hyear]
    simp only [months]
    omega

end Date

end OpenWright.Python
