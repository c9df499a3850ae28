import OpenWright.Ed25519.Pure
import OpenWright.Edwards
import Mathlib.NumberTheory.LegendreSymbol.Basic
import Mathlib.Tactic.NormNum.Prime

/-! # The field of the curve

`2^255 - 19` is a prime, `-1` is a square modulo it and the constant of the curve is not. So the
addition on the curve is complete.

* **`prime_P`** — the modulus is a prime.
* **`complete_d`** — the constant satisfies what the group law asks of it. -/

namespace OpenWright.Ed25519Pure

open Python

/-! ## The modulus is a prime

Each prime that is too large to be tried by division has a witness of its own, down to factors that
are small. -/

/-- A factor of one less than the next prime. -/
theorem prime_2773320623 : Nat.Prime 2773320623 :=
  prime_of_lucas 5 [(2, 1), (2437, 1), (569003, 1)] (by norm_num) (by norm_num) (by norm_num)
    (by decide +kernel) (by decide +kernel)

/-- A factor of one less than the number of `prime_factor_of_factor`. -/
theorem prime_72106336199 : Nat.Prime 72106336199 := by
  refine prime_of_lucas 7 [(2, 1), (13, 1), (2773320623, 1)] (by norm_num) ?_ (by norm_num)
    (by decide +kernel) (by decide +kernel)
  intro f hf
  simp only [List.mem_cons, List.not_mem_nil, or_false] at hf
  rcases hf with rfl | rfl | rfl
  · norm_num
  · norm_num
  · exact prime_2773320623

/-- Another factor of it. -/
theorem prime_1919519569386763 : Nat.Prime 1919519569386763 :=
  prime_of_lucas 2 [(2, 1), (3, 1), (7, 1), (19, 1), (47, 2), (127, 1), (8574133, 1)] (by norm_num)
    (by norm_num) (by norm_num) (by decide +kernel) (by decide +kernel)

/-- A factor of one less than the number of `prime_factor`. -/
theorem prime_31757755568855353 : Nat.Prime 31757755568855353 :=
  prime_of_lucas 10 [(2, 3), (3, 1), (31, 1), (107, 1), (223, 1), (4153, 1), (430751, 1)]
    (by norm_num) (by norm_num) (by norm_num) (by decide +kernel) (by decide +kernel)

/-- The other large factor of it. -/
theorem prime_factor_of_factor : Nat.Prime 75445702479781427272750846543864801 := by
  refine prime_of_lucas 7 [(2, 5), (3, 2), (5, 2), (75707, 1), (72106336199, 1),
    (1919519569386763, 1)] (by norm_num) ?_ (by norm_num) (by decide +kernel) (by decide +kernel)
  intro f hf
  simp only [List.mem_cons, List.not_mem_nil, or_false] at hf
  rcases hf with rfl | rfl | rfl | rfl | rfl | rfl
  · norm_num
  · norm_num
  · norm_num
  · norm_num
  · exact prime_72106336199
  · exact prime_1919519569386763

/-- The largest factor of `P - 1`. -/
theorem prime_factor : Nat.Prime
    74058212732561358302231226437062788676166966415465897661863160754340907 := by
  refine prime_of_lucas 2 [(2, 1), (3, 1), (353, 1), (57467, 1), (132049, 1), (1923133, 1),
    (31757755568855353, 1), (75445702479781427272750846543864801, 1)] (by norm_num) ?_ (by norm_num)
    (by decide +kernel) (by decide +kernel)
  intro f hf
  simp only [List.mem_cons, List.not_mem_nil, or_false] at hf
  rcases hf with rfl | rfl | rfl | rfl | rfl | rfl | rfl | rfl
  · norm_num
  · norm_num
  · norm_num
  · norm_num
  · norm_num
  · norm_num
  · exact prime_31757755568855353
  · exact prime_factor_of_factor

/-- **The modulus is a prime.** -/
theorem prime_P : Nat.Prime P := by
  refine prime_of_lucas 2 [(2, 2), (3, 1), (65147, 1),
    (74058212732561358302231226437062788676166966415465897661863160754340907, 1)] (by decide +kernel) ?_
    (by decide +kernel) (by decide +kernel) (by decide +kernel)
  intro f hf
  simp only [List.mem_cons, List.not_mem_nil, or_false] at hf
  rcases hf with rfl | rfl | rfl | rfl
  · norm_num
  · norm_num
  · norm_num
  · exact prime_factor

instance : Fact P.Prime := ⟨prime_P⟩

/-- The field of the curve. -/
abbrev F := ZMod P

/-- The modulus is positive, -/
theorem P_pos : (0 : Int) < P := by decide

/-- and not zero. -/
theorem P_ne_zero : P ≠ 0 := by decide

/-! ## The constant of the curve -/

/-- The constant of the curve, in the field. -/
def d : F := (D : Int)

/-- **`_inv` inverts.** By Fermat's little theorem; the inverse of zero is zero on both sides. -/
theorem cast_inv (x : Int) : ((inv x : Int) : F) = (x : F)⁻¹ := by
  rw [inv, cast_pow_mod x (P - 2) P_ne_zero]
  by_cases hx : (x : F) = 0
  · rw [hx, inv_zero, zero_pow (by decide)]
  · refine eq_inv_of_mul_eq_one_left ?_
    rw [← pow_succ, show P - 2 + 1 = P - 1 from by decide]
    exact ZMod.pow_card_sub_one_eq_one hx

/-- `-1` is a square: the modulus is one modulo four. -/
theorem isSquare_neg_one : IsSquare (-1 : F) :=
  ZMod.exists_sq_eq_neg_one_iff.mpr (by decide)

/-- The characteristic is not two. -/
theorem two_ne_zero_F : (2 : F) ≠ 0 := by
  have h : ((2 : Nat) : F) ≠ 0 := by
    rw [Ne, ZMod.natCast_eq_zero_iff]
    decide
  exact_mod_cast h

/-- The constant of the curve to the power of Euler's criterion. -/
theorem pow_D : pow D (P / 2) P = P - 1 := by decide +kernel

/-- **The constant of the curve is not a square.** -/
theorem not_isSquare_d : ¬IsSquare d := by
  have hpow : d ^ (P / 2) = -1 := by
    rw [d, ← cast_pow_mod D (P / 2) P_ne_zero, pow_D]
    push_cast
    rw [ZMod.natCast_self, zero_sub]
  have hne : (-1 : F) ≠ 1 := by
    intro h
    refine two_ne_zero_F ?_
    linear_combination -h
  have hd : d ≠ 0 := by
    intro h
    rw [h, zero_pow (by decide)] at hpow
    exact one_ne_zero (neg_eq_zero.mp hpow.symm)
  rw [ZMod.euler_criterion P hd, hpow]
  exact hne

/-- **The addition on the curve is complete.** -/
theorem complete_d : Edwards.Complete d := ⟨isSquare_neg_one, not_isSquare_d, two_ne_zero_F⟩

instance : Fact (Edwards.Complete d) := ⟨complete_d⟩

end OpenWright.Ed25519Pure
