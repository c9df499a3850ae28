import Mathlib.NumberTheory.LucasPrimality
import Mathlib.Data.Nat.Log

/-! # Modular powers

`pow(x, e, m)` squares and multiplies, so that exponents of hundreds of bits are no burden.

* **`cast_pow_mod`** — modulo `m` it is the power.
* **`prime_of_lucas`** — Lucas's test, with the powers of the witness computed by it. -/

namespace OpenWright.Python

/-! ## Square and multiply -/

/-- The power over the `fuel` low bits of the exponent. -/
def powModAux (m : Nat) : Nat → Nat → Nat → Nat
  | 0, _, _ => 1 % m
  | fuel + 1, b, e =>
    let r := powModAux m fuel (b * b % m) (e / 2)
    if e % 2 = 1 then r * b % m else r

/-- `pow(b, e, m)` of natural numbers. -/
def powMod (b e m : Nat) : Nat := powModAux m (e.log2 + 1) b e

/-- `pow(x, e, m)`. -/
def pow (x : Int) (e m : Nat) : Int := powMod (x % m).toNat e m

/-- Over all bits of the exponent the power is computed. -/
theorem powModAux_eq (m : Nat) {fuel b e : Nat} (h : e < 2 ^ fuel) :
    powModAux m fuel b e = b ^ e % m := by
  induction fuel generalizing b e with
  | zero =>
      obtain rfl : e = 0 := by simpa using h
      rw [powModAux, pow_zero]
  | succ fuel ih =>
      have hhalf : e / 2 < 2 ^ fuel := by
        rw [pow_succ] at h
        omega
      have hsquare : (b * b % m) ^ (e / 2) % m = b ^ (2 * (e / 2)) % m := by
        rw [← Nat.pow_mod, pow_mul, sq]
      rw [powModAux, ih hhalf, hsquare]
      split
      · rename_i hodd
        rw [Nat.mod_mul_mod, ← pow_succ]
        congr 2
        omega
      · congr 2
        omega

/-- **`powMod` is the power modulo `m`.** -/
theorem powMod_eq (b e m : Nat) : powMod b e m = b ^ e % m :=
  powModAux_eq m Nat.lt_log2_self

/-- **`pow` is the power modulo `m`.** -/
theorem cast_pow_mod (x : Int) (e : Nat) {m : Nat} (hm : m ≠ 0) :
    ((pow x e m : Int) : ZMod m) = (x : ZMod m) ^ e := by
  have hnonneg : 0 ≤ x % m := Int.emod_nonneg x (by exact_mod_cast hm)
  have hcast : (((x % m).toNat : Nat) : ZMod m) = (x : ZMod m) := by
    rw [← Int.cast_natCast, Int.toNat_of_nonneg hnonneg, ZMod.intCast_mod]
  rw [pow, powMod_eq, Int.cast_natCast, ZMod.natCast_mod, Nat.cast_pow, hcast]

/-- A power modulo `m` is a residue. -/
theorem pow_nonneg_lt (x : Int) (e : Nat) {m : Nat} (hm : 0 < m) : 0 ≤ pow x e m ∧ pow x e m < m := by
  rw [pow, powMod_eq]
  exact ⟨Int.natCast_nonneg _, by exact_mod_cast Nat.mod_lt _ hm⟩

/-! ## Primality -/

/-- A power of a residue is one where it is computed to be one. -/
theorem cast_pow_eq_one {p : Nat} (hp : 1 < p) {a e : Nat} :
    (a : ZMod p) ^ e = 1 ↔ powMod a e p = 1 := by
  have hone : ((1 : Nat) : ZMod p) = 1 := Nat.cast_one
  rw [← Nat.cast_pow, ← hone, ZMod.natCast_eq_natCast_iff', powMod_eq, Nat.mod_eq_of_lt hp]

/-- **Lucas's test.** The witness has order `p - 1`, whose prime factors are given. -/
theorem prime_of_lucas {p : Nat} (a : Nat) (factors : List (Nat × Nat)) (hp : 1 < p)
    (hprime : ∀ f ∈ factors, f.1.Prime) (hprod : (factors.map fun f => f.1 ^ f.2).prod = p - 1)
    (hone : powMod a (p - 1) p = 1) (hne : ∀ f ∈ factors, powMod a ((p - 1) / f.1) p ≠ 1) :
    p.Prime := by
  refine lucas_primality p (a : ZMod p) ((cast_pow_eq_one hp).mpr hone) fun q hq hdvd => ?_
  rw [← hprod] at hdvd
  obtain ⟨n, hn, hqn⟩ := (Prime.dvd_prod_iff hq.prime).mp hdvd
  obtain ⟨f, hf, rfl⟩ := List.mem_map.mp hn
  obtain rfl : q = f.1 := (Nat.prime_dvd_prime_iff_eq hq (hprime f hf)).mp (hq.dvd_of_dvd_pow hqn)
  rw [Ne, cast_pow_eq_one hp]
  exact hne f hf

end OpenWright.Python
