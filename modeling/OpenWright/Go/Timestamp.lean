import OpenWright.Timestamps
import Mathlib.Tactic.Linarith
import Mathlib.Tactic.NormNum.GCD

/-! # Timestamps of the Go implementation

The Go implementation normalizes integers with 64-bit arithmetic, where the product of seconds and
`10**9` wraps, and quotients are truncated.

* **`toRFC3339_eq_iff`** — it writes what Python writes exactly where that product does not wrap. -/

namespace OpenWright.Go

open Python

/-- The year in `t.Format("2006")`, with at least four digits after its sign. -/
def formatYear (year : Int) : Str :=
  if year < 0 then cp 45 :: zeroPadded 4 (-year) else zeroPadded 4 year

/-- `ToRFC3339`. -/
def toRFC3339 (value : Int64) : Str :=
  let ns := if 100000000000000 < value then value else value * 1000000000
  let secs := ns / 1000000000
  let rem := ns % 1000000000
  let t := DateTime.ofUnix secs.toInt
  t.text (formatYear t.date.year) ++ cp 46 :: (zeroPadded 9 rem.toInt ++ [cp 90])

/-- The seconds whose nanoseconds are an `int64`, and the values that are nanoseconds. -/
def NoWrap (value : Int) : Prop :=
  10 ^ 14 < value ∨ (-9223372036 ≤ value ∧ value ≤ 9223372036)

instance (value : Int) : Decidable (NoWrap value) := instDecidableOr

/-- The nanoseconds of a value as Python computes them. -/
def nanoseconds (value : Int) : Int := if 10 ^ 14 < value then value else value * 1000000000

/-- What the 64-bit arithmetic computes, as integers. -/
theorem toRFC3339_eq (value : Int64) : toRFC3339 value =
    (DateTime.ofUnix (((nanoseconds value.toInt).bmod (2 ^ 64)).tdiv 1000000000)).text
        (formatYear (DateTime.ofUnix (((nanoseconds value.toInt).bmod (2 ^ 64)).tdiv
          1000000000)).date.year)
      ++ cp 46 :: (zeroPadded 9 (((nanoseconds value.toInt).bmod (2 ^ 64)).tmod 1000000000)
        ++ [cp 90]) := by
  have hns : (if 100000000000000 < value then value else value * 1000000000).toInt
      = (nanoseconds value.toInt).bmod (2 ^ 64) := by
    rw [nanoseconds]
    have hlt : (100000000000000 : Int64) < value ↔ (10 : Int) ^ 14 < value.toInt :=
      Int64.lt_iff_toInt_lt
    by_cases h : (10 : Int) ^ 14 < value.toInt
    · rw [if_pos (hlt.mpr h), if_pos h]
      exact value.toInt_bmod.symm
    · rw [if_neg (fun h' => h (hlt.mp h')), if_neg h, Int64.toInt_mul]
      rfl
  have hdiv : ∀ ns : Int64, (ns / 1000000000).toInt = ns.toInt.tdiv 1000000000 := fun ns =>
    Int64.toInt_div_of_ne_right ns 1000000000 (by decide)
  have hmod : ∀ ns : Int64, (ns % 1000000000).toInt = ns.toInt.tmod 1000000000 := fun ns =>
    Int64.toInt_mod ns 1000000000
  rw [toRFC3339, hdiv, hmod, hns]

/-- A year of four digits is not padded. -/
theorem formatYear_eq {year : Int} (h : 1000 ≤ year) : formatYear year = Json.intText year := by
  rw [formatYear, if_neg (by omega)]
  exact zeroPadded_eq_intText h

/-- Where nothing wraps the texts are the same. -/
theorem toRFC3339_of_noWrap {value : Int64} {s : Str} (hvalue : NoWrap value.toInt)
    (h : toRfc3339 (.int value.toInt) = .ok s) : toRFC3339 value = s := by
  have hlt := value.toInt_lt
  -- the nanoseconds fit an `int64`, and before 1970 they are whole seconds
  have hns : -9223372036000000000 ≤ nanoseconds value.toInt ∧
      nanoseconds value.toInt < 2 ^ 63 ∧
      (nanoseconds value.toInt < 0 → nanoseconds value.toInt % 1000000000 = 0) := by
    rw [nanoseconds]
    rcases hvalue with hlarge | hsmall
    · rw [if_pos hlarge]
      omega
    · split <;> omega
  rw [toRFC3339_eq]
  rw [toRfc3339] at h
  obtain ⟨-, rfl⟩ := ofNanoseconds_eq_ok.mp h
  change _ = (DateTime.ofUnix (nanoseconds value.toInt / 1000000000)).text
      (Json.intText (DateTime.ofUnix (nanoseconds value.toInt / 1000000000)).date.year)
    ++ cp 46 :: (zeroPadded 9 (nanoseconds value.toInt % 1000000000) ++ [cp 90])
  generalize nanoseconds value.toInt = ns at hns ⊢
  have hwrap : ns.bmod (2 ^ 64) = ns := Int.bmod_eq_of_le (by omega) (by omega)
  -- Go's division truncates and Python's floors, which differ on a negative remainder only
  have hdiv : ns.tdiv 1000000000 = ns / 1000000000 := by
    rcases le_or_gt 0 ns with hpos | hneg
    · exact Int.tdiv_eq_ediv_of_nonneg hpos
    · obtain ⟨k, rfl⟩ := Int.dvd_of_emod_eq_zero (hns.2.2 hneg)
      rw [Int.mul_tdiv_cancel_left _ (by decide), Int.mul_ediv_cancel_left _ (by decide)]
  have hmod : ns.tmod 1000000000 = ns % 1000000000 := by
    rw [Int.tmod_def, Int.emod_def, hdiv]
  -- a year of four digits is not padded
  have hyear : 1000 ≤ (DateTime.ofUnix (ns / 1000000000)).date.year := by
    rw [DateTime.le_year_ofUnix, show daysBeforeYear 1000 = 364877 from rfl]
    omega
  rw [hwrap, hdiv, hmod, formatYear_eq hyear]

/-- Where seconds wrap what is left is no whole number of seconds. -/
theorem tmod_ne_zero {value : Int} (hvalue : ¬NoWrap value) (h : -62135596800 ≤ value) :
    ((nanoseconds value).bmod (2 ^ 64)).tmod 1000000000 ≠ 0 := by
  have hsmall : ¬(10 : Int) ^ 14 < value := fun hlarge => hvalue (Or.inl hlarge)
  rw [nanoseconds, if_neg hsmall]
  intro hmod
  -- a multiple of `10 ** 9` that wraps does so by a multiple of `5 ** 9` rounds
  obtain ⟨k, hk⟩ : ∃ k, (value * 1000000000).bmod (2 ^ 64)
      = value * 1000000000 - 18446744073709551616 * k :=
    ⟨_, Int.bmod_eq_self_sub_mul_bdiv _ _⟩
  have hrange : -9223372036854775808 ≤ (value * 1000000000).bmod (2 ^ 64) :=
    Int.le_bmod (by decide)
  have hrange' : (value * 1000000000).bmod (2 ^ 64) < 9223372036854775808 :=
    Int.bmod_lt (by decide)
  rw [hk] at hrange hrange' hmod
  obtain ⟨m, hm⟩ := Int.dvd_of_tmod_eq_zero hmod
  have hdvd : (1953125 : Int) ∣ 36028797018963968 * k := ⟨value - m, by linarith⟩
  obtain ⟨j, rfl⟩ := Int.dvd_of_dvd_mul_right_of_gcd_one hdvd (by norm_num)
  obtain rfl : j = 0 := by omega
  exact hvalue (Or.inr ⟨by omega, by omega⟩)

/-- **Go and Python normalize alike exactly where nothing wraps.** -/
theorem toRFC3339_eq_iff {value : Int64} {s : Str} (h : toRfc3339 (.int value.toInt) = .ok s) :
    toRFC3339 value = s ↔ NoWrap value.toInt := by
  refine ⟨fun heq => ?_, fun hvalue => toRFC3339_of_noWrap hvalue h⟩
  by_contra hvalue
  rw [toRfc3339] at h
  obtain ⟨⟨hfirst, -⟩, rfl⟩ := ofNanoseconds_eq_ok.mp h
  have hsmall : ¬(10 : Int) ^ 14 < value.toInt := fun hlarge => hvalue (Or.inl hlarge)
  rw [if_neg hsmall, Int.mul_ediv_cancel _ (by decide)] at hfirst
  rw [DateTime.le_year_ofUnix, show daysBeforeYear 1 = 0 from rfl] at hfirst
  rw [if_neg hsmall, Int.mul_emod_left, toRFC3339_eq] at heq
  -- both texts are cut at their dots
  have hdot : cp 46 ∉ zeroPadded 9 0 ++ [cp 90] := by decide +kernel
  have hyear : ∀ z, cp 46 ∉ Json.intText z := by
    intro z hmem
    rw [← zeroPadded_zero] at hmem
    rcases of_mem_zeroPadded hmem with hdigit | hminus
    · exact absurd hdigit (by decide)
    · exact absurd hminus (by decide)
  have hcut := (List.append_cons_inj_of_notMem (DateTime.dot_notMem_text (hyear _) _) hdot).mp
    heq.symm
  have hrem := zeroPadded_injective 9 (List.append_cancel_right hcut.2.2)
  exact tmod_ne_zero hvalue (by omega) hrem.symm

/-- A time of the year 2026. -/
theorem toRFC3339_eq_iff_2026 : toRFC3339 1767225600 = lit "2026-01-01T00:00:00.000000000Z" ↔
    NoWrap (1767225600 : Int64).toInt :=
  toRFC3339_eq_iff (by decide +kernel)

/-- **A time of the year 2262 is written as one of the year 1677.** -/
theorem toRFC3339_wraps :
    toRfc3339 (.int (9223372037 : Int64).toInt) = .ok (lit "2262-04-11T23:47:17.000000000Z") ∧
      toRFC3339 9223372037 = lit "1677-09-21T00:12:44.-709551616Z" := by
  decide +kernel

end OpenWright.Go
