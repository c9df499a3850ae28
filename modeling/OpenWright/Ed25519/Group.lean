import OpenWright.Ed25519.Field
import Mathlib.Algebra.Module.NatInt

/-! # The points of the fallback

The pairs of integers that the fallback adds are points of the curve, read modulo the prime. Its
sums are residues, so that equality of tuples is equality of points.

* **`pt_scalarmult`** — `_scalarmult` computes multiples.
* **`order_base`** — the multiple of the base point by `_L` is the neutral element.
* **`verify_genuine`** — a genuine signature is accepted. -/

namespace OpenWright.Ed25519Pure

open Python Hash

/-! ## Tuples and points -/

/-- A tuple, read modulo the prime. -/
def pt (p : Int × Int) : F × F := (p.1, p.2)

/-- Both coordinates are residues. -/
structure Reduced (p : Int × Int) : Prop where
  fst : 0 ≤ p.1 ∧ p.1 < P
  snd : 0 ≤ p.2 ∧ p.2 < P

/-- Residues are equal where they are equal modulo the prime. -/
theorem eq_of_cast_eq {x y : Int} (hx : 0 ≤ x ∧ x < P) (hy : 0 ≤ y ∧ y < P)
    (h : (x : F) = (y : F)) : x = y := by
  have hmod := (ZMod.intCast_eq_intCast_iff' x y P).mp h
  rwa [Int.emod_eq_of_lt hx.1 hx.2, Int.emod_eq_of_lt hy.1 hy.2] at hmod

/-- **Equality of reduced tuples is equality of points.** -/
theorem eq_of_pt_eq {p q : Int × Int} (hp : Reduced p) (hq : Reduced q) (h : pt p = pt q) : p = q := by
  obtain ⟨hfst, hsnd⟩ := Prod.mk.inj h
  exact Prod.ext (eq_of_cast_eq hp.fst hq.fst hfst) (eq_of_cast_eq hp.snd hq.snd hsnd)

/-- What is reduced is below the modulus. -/
theorem emod_P (x : Int) : 0 ≤ x % P ∧ x % P < P :=
  ⟨Int.emod_nonneg x (by decide), Int.emod_lt_of_pos x P_pos⟩

/-- The neutral point is reduced. -/
theorem reduced_zero : Reduced (0, 1) := ⟨by decide, by decide⟩

/-- A sum is reduced. -/
theorem reduced_edwardsAdd (p q : Int × Int) : Reduced (edwardsAdd p q) := ⟨emod_P _, emod_P _⟩

/-- It is the neutral element. -/
theorem pt_zero : pt (0, 1) = Edwards.zero := by
  simp [pt, Edwards.zero]

/-- **`_edwards_add` is the addition on the curve.** -/
theorem pt_edwardsAdd (p q : Int × Int) : pt (edwardsAdd p q) = Edwards.add d (pt p) (pt q) := by
  obtain ⟨x₁, y₁⟩ := p
  obtain ⟨x₂, y₂⟩ := q
  simp only [edwardsAdd, pt, Edwards.add, Edwards.cross, ZMod.intCast_mod, Prod.mk.injEq]
  constructor
  · push_cast [cast_inv]
    rw [div_eq_mul_inv, ← d]
  · push_cast [cast_inv]
    rw [div_eq_mul_inv, ← d]

/-- **`_is_on_curve` decides whether a tuple is a point.** -/
theorem isOnCurve_iff {p : Int × Int} : isOnCurve p = true ↔ Edwards.OnCurve d (pt p) := by
  obtain ⟨x, y⟩ := p
  simp only [isOnCurve, beq_iff_eq, ← Int.dvd_iff_emod_eq_zero, ← ZMod.intCast_zmod_eq_zero_iff_dvd]
  push_cast
  rw [← d, Edwards.OnCurve, pt]
  constructor
  · intro h
    linear_combination h
  · intro h
    linear_combination h

/-! ## Multiples -/

/-- **The loop of `_scalarmult`.** The result and the rest of the exponent times the addend make up the
multiple, in every round. -/
theorem pt_scalarmultLoop {fuel e : Nat} {result addend : Int × Int} {R A : Edwards.Point d}
    (hR : pt result = R.1) (hA : pt addend = A.1) (h : e < 2 ^ fuel) :
    pt (scalarmultLoop fuel result addend e) = (R + e • A).1 := by
  induction fuel generalizing result addend e R A with
  | zero =>
      obtain rfl : e = 0 := by simpa using h
      rw [scalarmultLoop, zero_nsmul, add_zero, hR]
  | succ fuel ih =>
      rw [scalarmultLoop]
      split
      · have hhalf : e / 2 < 2 ^ fuel := by
          rw [pow_succ] at h
          omega
        have hdouble : pt (edwardsAdd addend addend) = (A + A).1 := by
          rw [pt_edwardsAdd, hA, Edwards.val_add]
        -- the exponent is its last bit and twice the rest
        have hmultiple : e • A = (e % 2) • A + (e / 2) • (A + A) := by
          rw [← two_nsmul, ← mul_nsmul, ← add_nsmul, Nat.mod_add_div]
        split
        · rename_i hodd
          have hsum : pt (edwardsAdd result addend) = (R + A).1 := by
            rw [pt_edwardsAdd, hR, hA, Edwards.val_add]
          rw [ih hsum hdouble hhalf, hmultiple, hodd, one_nsmul, add_assoc]
        · rename_i hodd
          have heven : e % 2 = 0 := by omega
          rw [ih hR hdouble hhalf, hmultiple, heven, zero_nsmul, zero_add]
      · obtain rfl : e = 0 := by omega
        rw [zero_nsmul, add_zero, hR]

/-- **`_scalarmult` computes multiples.** -/
theorem pt_scalarmult {a : Int × Int} {A : Edwards.Point d} (hA : pt a = A.1) (e : Nat) :
    pt (scalarmult a e) = (e • A).1 := by
  have hzero : pt (0, 1) = (0 : Edwards.Point d).1 := pt_zero
  rw [scalarmult, pt_scalarmultLoop hzero hA Nat.lt_log2_self, zero_add]

/-- The loop keeps a reduced result. -/
theorem reduced_scalarmultLoop {fuel e : Nat} {result addend : Int × Int} (h : Reduced result) :
    Reduced (scalarmultLoop fuel result addend e) := by
  induction fuel generalizing result addend e with
  | zero => exact h
  | succ fuel ih =>
      rw [scalarmultLoop]
      split
      · split
        · exact ih (reduced_edwardsAdd _ _)
        · exact ih h
      · exact h

/-- A multiple is reduced. -/
theorem reduced_scalarmult (a : Int × Int) (e : Nat) : Reduced (scalarmult a e) :=
  reduced_scalarmultLoop reduced_zero

/-! ## The order of the base point

Modulo the prime the multiple is computed in projective coordinates, which need no inverses. -/

/-- Projective coordinates, as natural numbers. -/
abbrev Triple := Nat × Nat × Nat

/-- A triple, read modulo the prime. -/
def tripleF (T : Triple) : F × F × F := (T.1, T.2.1, T.2.2)

/-- The sum of two triples, modulo the prime. The last factor of a difference is its negative. -/
def addTriple (S T : Triple) : Triple :=
  let a := S.2.2 * T.2.2 % P
  let b := a * a % P
  let e := D.toNat * (S.1 * T.1 % P) % P * (S.2.1 * T.2.1 % P) % P
  let minus := (b + (P - 1) * e) % P
  let plus := (b + e) % P
  (a * minus % P * ((S.1 * T.2.1 + T.1 * S.2.1) % P) % P,
    a * plus % P * ((S.2.1 * T.2.1 + S.1 * T.1) % P) % P, minus * plus % P)

/-- The multiple of a triple over the `fuel` low bits. -/
def mulTriple : Nat → Triple → Nat → Triple
  | 0, _, _ => (0, 1, 1)
  | fuel + 1, T, e =>
    let M := mulTriple fuel (addTriple T T) (e / 2)
    if e % 2 = 1 then addTriple M T else M

/-- A number that is not negative is cast as it is. -/
theorem cast_toNat {x : Int} (h : 0 ≤ x) : ((x.toNat : Nat) : F) = (x : F) := by
  rw [← Int.cast_natCast, Int.toNat_of_nonneg h]

/-- The constant of the curve is cast to that of the group. -/
theorem cast_D : ((D.toNat : Nat) : F) = d := cast_toNat (emod_P _).1

/-- The number below the modulus is -1. -/
theorem cast_P_sub_one : ((P - 1 : Nat) : F) = -1 := by
  rw [Nat.cast_sub (by decide), ZMod.natCast_self, Nat.cast_one, zero_sub]

/-- `addTriple` is the projective addition. -/
theorem tripleF_addTriple (S T : Triple) :
    tripleF (addTriple S T) = Edwards.addProjective d (tripleF S) (tripleF T) := by
  simp only [addTriple, tripleF, Edwards.addProjective, ZMod.natCast_mod, Nat.cast_mul, Nat.cast_add,
    cast_D, cast_P_sub_one, neg_one_mul, ← sub_eq_add_neg]

/-- `mulTriple` computes multiples. -/
theorem represents_mulTriple {fuel e : Nat} {T : Triple} {A : Edwards.Point d}
    (hT : Edwards.Represents (tripleF T) A.1) (h : e < 2 ^ fuel) :
    Edwards.Represents (tripleF (mulTriple fuel T e)) (e • A).1 := by
  induction fuel generalizing e T A with
  | zero =>
      obtain rfl : e = 0 := by simpa using h
      rw [zero_nsmul]
      constructor <;> simp [mulTriple, tripleF, Edwards.zero]
  | succ fuel ih =>
      have hhalf : e / 2 < 2 ^ fuel := by
        rw [pow_succ] at h
        omega
      have hdouble : Edwards.Represents (tripleF (addTriple T T)) (A + A).1 := by
        rw [tripleF_addTriple]
        exact hT.add complete_d hT A.2 A.2
      -- the exponent is twice its half and its last bit
      have hmultiple : e • A = (e / 2) • (A + A) + (e % 2) • A := by
        rw [← two_nsmul, ← mul_nsmul, ← add_nsmul, Nat.div_add_mod]
      rw [mulTriple]
      split
      · rename_i hodd
        rw [tripleF_addTriple, hmultiple, hodd, one_nsmul]
        exact (ih hdouble hhalf).add complete_d hT (_ • (A + A)).2 A.2
      · rename_i hodd
        have heven : e % 2 = 0 := by omega
        rw [hmultiple, heven, zero_nsmul, add_zero]
        exact ih hdouble hhalf

/-- A pair stands for itself, with denominator one. -/
theorem represents_pair (x y : Nat) :
    Edwards.Represents (tripleF (x, y, 1)) ((x : F), (y : F)) := by
  constructor <;> simp [tripleF]

/-- The base point is reduced, -/
theorem reduced_B : Reduced B := ⟨emod_P _, emod_P _⟩

/-- and on the curve. -/
theorem isOnCurve_B : isOnCurve B = true := by decide +kernel

/-- The base point. -/
def base : Edwards.Point d := ⟨pt B, isOnCurve_iff.mp isOnCurve_B⟩

/-- The multiple of the base point by the order, in projective coordinates, is the neutral point. -/
theorem mulTriple_base : (mulTriple 253 (BX.toNat, BY.toNat, 1) L).1 = 0
    ∧ (mulTriple 253 (BX.toNat, BY.toNat, 1) L).2.1 = (mulTriple 253 (BX.toNat, BY.toNat, 1) L).2.2 := by
  decide +kernel

/-- **The order of the base point divides `_L`.** -/
theorem order_base : L • base = 0 := by
  have hB : Edwards.Represents (tripleF (BX.toNat, BY.toNat, 1)) base.1 := by
    have hpt : base.1 = (((BX.toNat : Nat) : F), ((BY.toNat : Nat) : F)) :=
      Prod.ext (cast_toNat reduced_B.fst.1).symm (cast_toNat reduced_B.snd.1).symm
    rw [hpt]
    exact represents_pair _ _
  obtain ⟨hne, hfst, hsnd⟩ := represents_mulTriple hB (show L < 2 ^ 253 from by decide)
  obtain ⟨hzero, hone⟩ := mulTriple_base
  rw [tripleF] at hne hfst hsnd
  dsimp only at hne hfst hsnd
  rw [hzero, Nat.cast_zero] at hfst
  rw [hone] at hsnd
  refine Subtype.ext (Prod.ext ?_ ?_)
  · exact (mul_eq_zero.mp hfst.symm).resolve_left hne
  · exact mul_left_cancel₀ hne (hsnd.symm.trans (mul_one _).symm)

/-! ## Genuine signatures -/

/-- The `n`-fold sum of the base point. -/
def multiple : Nat → Int × Int
  | 0 => (0, 1)
  | n + 1 => edwardsAdd (multiple n) B

/-- The multiples of the base point are those of the group. -/
theorem pt_multiple (n : Nat) : pt (multiple n) = (n • base).1 := by
  induction n with
  | zero => rw [multiple, pt_zero, zero_nsmul, Edwards.val_zero]
  | succ n ih => rw [multiple, pt_edwardsAdd, ih, succ_nsmul, Edwards.val_add, base]

/-- Multiples of the base point depend on the factor modulo `_L` only. -/
theorem mod_nsmul_base (n : Nat) : (n % L) • base = n • base := by
  conv_rhs =>
    rw [← Nat.mod_add_div n L, add_nsmul, mul_comm L, mul_nsmul', order_base, nsmul_zero, add_zero]

/-- `verify`, on encodings that decode and a scalar below `_L`. -/
theorem verify_of_decodepoint {sha512 : Bytes → Bytes} {publicKey encodedR message : Bytes} {s : Nat}
    {aPoint rPoint : Int × Int} (hpk : publicKey.length = 32) (hR : encodedR.length = 32)
    (ha : decodepoint publicKey = .ok aPoint) (hr : decodepoint encodedR = .ok rPoint) (hs : s < L) :
    verify sha512 publicKey (encodedR ++ toBytes 32 s) message
      = (scalarmult B s
          == edwardsAdd rPoint (scalarmult aPoint (challenge sha512 encodedR publicKey message))) := by
  have hfits : s < 256 ^ 32 := hs.trans (by decide)
  have hlength : (encodedR ++ toBytes 32 s).length = 64 := by
    rw [List.length_append, hR, length_toBytes]
  have htake : (encodedR ++ toBytes 32 s).take 32 = encodedR := List.take_left' hR
  have hdrop : (encodedR ++ toBytes 32 s).drop 32 = toBytes 32 s := List.drop_left' hR
  rw [verify, if_neg (by omega), htake, hdrop, hr, ha]
  dsimp only
  rw [fromBytes_toBytes hfits, if_neg (by omega)]

/-- **The fallback accepts every genuine signature.** Where the key is the encoding of `a` times the base
point and the first half of the signature that of `r` times, the second half `r + h a`, reduced
modulo `_L`, is accepted. -/
theorem verify_genuine (sha512 : Bytes → Bytes) (a r : Nat) (publicKey encodedR message : Bytes)
    (hpk : publicKey.length = 32) (hR : encodedR.length = 32)
    (ha : decodepoint publicKey = .ok (multiple a)) (hr : decodepoint encodedR = .ok (multiple r)) :
    verify sha512 publicKey (encodedR
        ++ toBytes 32 ((r + challenge sha512 encodedR publicKey message * a) % L)) message = true := by
  set h := challenge sha512 encodedR publicKey message
  have hs : (r + h * a) % L < L := Nat.mod_lt _ (by decide)
  rw [verify_of_decodepoint hpk hR ha hr hs, beq_iff_eq]
  refine eq_of_pt_eq (reduced_scalarmult _ _) (reduced_edwardsAdd _ _) ?_
  have hleft : pt (scalarmult B ((r + h * a) % L)) = ((r + h * a) • base).1 := by
    rw [pt_scalarmult (A := base) rfl, mod_nsmul_base]
  have hright : pt (scalarmult (multiple a) h) = (h • a • base).1 := pt_scalarmult (pt_multiple a) h
  rw [hleft, pt_edwardsAdd, hright, pt_multiple, add_nsmul, mul_comm, mul_nsmul, Edwards.val_add]

/-- The encoding of twice the base point. -/
def sampleKey : Bytes :=
  toBytes 32 0x2260cdf3092329c21da25ee8c9a21f5697390f51643851560e5f46ae6af8a3c9

/-- The encoding of three times the base point. -/
def sampleR : Bytes :=
  toBytes 32 0x1267b1d177ee69aba126a18e60269ef79f16ec176724030402c3684878f5b4d4

/-- The SHA-512 digest of the two and the message `ok`, read as a number. -/
def sampleDigest : Nat :=
  0xde0e53061f42a87a8efcef0733ce0b5f36fcbf02e8048f95e5fcd8539ebd167a * 2 ^ 256
    + 0xc586cbd18aab2e44d9ed008a415500697e9f9ee999706c294e251e212a64cf4e

/-- The signature by the scalar `2` with the nonce `3`. -/
theorem verify_genuine_sample :
    verify (fun _ => toBytes 64 sampleDigest) sampleKey (sampleR
      ++ toBytes 32 ((3 + challenge (fun _ => toBytes 64 sampleDigest) sampleR sampleKey [111, 107] * 2)
        % L)) [111, 107] = true :=
  verify_genuine _ 2 3 _ _ _ (length_toBytes _ _) (length_toBytes _ _) (by decide +kernel)
    (by decide +kernel)

end OpenWright.Ed25519Pure
