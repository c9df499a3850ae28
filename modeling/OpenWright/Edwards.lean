import Mathlib.Algebra.Field.Basic
import Mathlib.Algebra.Group.Even
import Mathlib.Tactic.FieldSimp
import Mathlib.Tactic.LinearCombination
import Mathlib.Tactic.Ring

/-! # Twisted Edwards curves

The curve `-x² + y² = 1 + d x² y²` over a field in which `-1` is a square and `d` is not. Its points
are a group under one formula without exceptional cases: the denominators do not vanish.

* **`den_ne_zero`** — the denominators of the sum of two points are not zero.
* **`add_assoc_of_onCurve`** — the sum is associative.
* **`instAddCommGroupPoint`** — the points are a commutative group. -/

namespace OpenWright.Edwards

universe u

variable {K : Type u} [Field K] {d : K}

/-! ## The curve and its addition -/

/-- A pair is on the curve. -/
def OnCurve (d : K) (P : K × K) : Prop := -P.1 ^ 2 + P.2 ^ 2 = 1 + d * P.1 ^ 2 * P.2 ^ 2

/-- The product by which the denominators of a sum differ from one. -/
def cross (d : K) (P Q : K × K) : K := d * P.1 * Q.1 * P.2 * Q.2

/-- The sum of two pairs. -/
def add (d : K) (P Q : K × K) : K × K :=
  ((P.1 * Q.2 + Q.1 * P.2) / (1 + cross d P Q), (P.2 * Q.2 + P.1 * Q.1) / (1 - cross d P Q))

/-- The neutral pair. -/
def zero : K × K := (0, 1)

/-- The opposite of a pair. -/
def neg (P : K × K) : K × K := (-P.1, P.2)

/-- What makes the addition complete: `-1` is a square, `d` is not, and two is not zero. -/
structure Complete (d : K) : Prop where
  isSquare_neg_one : IsSquare (-1 : K)
  not_isSquare : ¬IsSquare d
  two_ne_zero : (2 : K) ≠ 0

/-! ## Denominators -/

/-- With a cross product of square one, `d` is a square up to the square of a factor. -/
theorem sq_eq_of_cross {i ε : K} {P Q : K × K} (hi : i ^ 2 = -1) (hP : OnCurve d P)
    (hQ : OnCurve d Q) (hε : ε = cross d P Q) (hone : ε ^ 2 = 1) {δ : K} (hδ : δ ^ 2 = 1) :
    (i * P.1 + δ * ε * P.2) ^ 2 = d * (P.1 * P.2 * (i * Q.1 + δ * Q.2)) ^ 2 := by
  obtain ⟨x₁, y₁⟩ := P
  obtain ⟨x₂, y₂⟩ := Q
  simp only [OnCurve, cross] at *
  have hcross : ε * (x₁ * y₁) = d * x₁ ^ 2 * y₁ ^ 2 * (x₂ * y₂) := by
    rw [hε]
    ring
  have hsq : ε ^ 2 = d * x₁ ^ 2 * y₁ ^ 2 * (d * x₂ ^ 2 * y₂ ^ 2) := by
    rw [hε]
    ring
  linear_combination (x₁ ^ 2 - d * x₁ ^ 2 * y₁ ^ 2 * x₂ ^ 2) * hi + 2 * i * δ * hcross
    + (ε ^ 2 * y₁ ^ 2 - d * x₁ ^ 2 * y₁ ^ 2 * y₂ ^ 2) * hδ + (y₁ ^ 2 - 1) * hone + hP
    - d * x₁ ^ 2 * y₁ ^ 2 * hQ + hsq

/-- **The cross product of two points is neither one nor minus one.** -/
theorem cross_sq_ne_one (hd : Complete d) {P Q : K × K} (hP : OnCurve d P) (hQ : OnCurve d Q) :
    cross d P Q ^ 2 ≠ 1 := by
  intro hone
  obtain ⟨i, hi⟩ := hd.isSquare_neg_one
  have hi' : i ^ 2 = -1 := by rw [hi, sq]
  have hne : cross d P Q ≠ 0 := by
    intro h
    rw [h] at hone
    simp at hone
  have hfactor : P.1 * P.2 ≠ 0 := by
    intro h
    refine hne ?_
    rw [cross]
    linear_combination d * Q.1 * Q.2 * h
  -- unless a factor vanishes, `d` is the square of a quotient
  have hzero : ∀ δ : K, δ ^ 2 = 1 → i * Q.1 + δ * Q.2 = 0 := by
    intro δ hδ
    by_contra hQδ
    have hsq := sq_eq_of_cross hi' hP hQ rfl hone hδ
    have hden : P.1 * P.2 * (i * Q.1 + δ * Q.2) ≠ 0 := mul_ne_zero hfactor hQδ
    refine hd.not_isSquare ⟨(i * P.1 + δ * cross d P Q * P.2) / (P.1 * P.2 * (i * Q.1 + δ * Q.2)), ?_⟩
    rw [div_mul_div_comm, eq_div_iff (mul_ne_zero hden hden), ← sq, ← sq, hsq]
  have hplus := hzero 1 (by ring)
  have hminus := hzero (-1) (by ring)
  have hy : Q.2 = 0 := by
    have h2 : (2 : K) * Q.2 = 0 := by linear_combination hplus - hminus
    exact (mul_eq_zero.mp h2).resolve_left hd.two_ne_zero
  refine hne ?_
  rw [cross, hy, mul_zero]

/-- **The denominators of a sum of points are not zero.** -/
theorem den_ne_zero (hd : Complete d) {P Q : K × K} (hP : OnCurve d P) (hQ : OnCurve d Q) :
    1 + cross d P Q ≠ 0 ∧ 1 - cross d P Q ≠ 0 := by
  have hne := cross_sq_ne_one hd hP hQ
  constructor
  · intro h
    refine hne ?_
    linear_combination (cross d P Q - 1) * h
  · intro h
    refine hne ?_
    linear_combination (-cross d P Q - 1) * h

/-! ## The sum of points is a point -/

/-- The neutral pair is a point. -/
theorem onCurve_zero : OnCurve d (zero : K × K) := by
  simp [OnCurve, zero]

/-- The opposite of a point is a point. -/
theorem onCurve_neg {P : K × K} (h : OnCurve d P) : OnCurve d (neg P) := by
  rw [OnCurve] at h ⊢
  rw [neg, neg_sq]
  exact h

/-- A pair of quotients is a point where the numerators and denominators say so. -/
theorem onCurve_div {a b p q : K} (hp : p ≠ 0) (hq : q ≠ 0)
    (h : b ^ 2 * p ^ 2 - a ^ 2 * q ^ 2 = p ^ 2 * q ^ 2 + d * a ^ 2 * b ^ 2) :
    OnCurve d (a / p, b / q) := by
  rw [OnCurve, div_pow, div_pow]
  field_simp
  linear_combination h

/-- **The sum of two points is a point.** -/
theorem onCurve_add (hd : Complete d) {P Q : K × K} (hP : OnCurve d P) (hQ : OnCurve d Q) :
    OnCurve d (add d P Q) := by
  obtain ⟨hplus, hminus⟩ := den_ne_zero hd hP hQ
  obtain ⟨x₁, y₁⟩ := P
  obtain ⟨x₂, y₂⟩ := Q
  refine onCurve_div hplus hminus ?_
  simp only [OnCurve, cross] at *
  -- after expansion only the squares of the coordinates are left
  linear_combination ((1 + d ^ 2 * x₁ ^ 2 * y₁ ^ 2 * x₂ ^ 2 * y₂ ^ 2) * (y₂ ^ 2 - x₂ ^ 2)
        - d * x₂ ^ 2 * y₂ ^ 2 * (y₁ ^ 2 - x₁ ^ 2 + 1 + d * x₁ ^ 2 * y₁ ^ 2)) * hP
      + ((1 + d ^ 2 * x₁ ^ 2 * y₁ ^ 2 * x₂ ^ 2 * y₂ ^ 2) * (1 + d * x₁ ^ 2 * y₁ ^ 2)
        - d * x₁ ^ 2 * y₁ ^ 2 * (y₂ ^ 2 - x₂ ^ 2 + 1 + d * x₂ ^ 2 * y₂ ^ 2)) * hQ

/-! ## Group laws -/

/-- The cross product is symmetric. -/
theorem cross_comm (P Q : K × K) : cross d P Q = cross d Q P := by
  rw [cross, cross]
  ring

/-- **The sum is commutative.** -/
theorem add_comm_pair (P Q : K × K) : add d P Q = add d Q P := by
  rw [add, add, cross_comm P Q, Prod.mk.injEq]
  exact ⟨by rw [add_comm], by rw [mul_comm P.2, mul_comm P.1]⟩

/-- The neutral pair is neutral. -/
theorem zero_add_pair (P : K × K) : add d zero P = P := by
  simp [add, zero, cross]

/-- The opposite of a point is its opposite. -/
theorem neg_add_cancel_of_onCurve (hd : Complete d) {P : K × K} (hP : OnCurve d P) :
    add d (neg P) P = zero := by
  have hminus := (den_ne_zero hd (onCurve_neg hP) hP).2
  rw [OnCurve] at hP
  have hcross : 1 - cross d (neg P) P = -P.1 ^ 2 + P.2 ^ 2 := by
    rw [hP, cross, neg]
    ring
  rw [hcross] at hminus
  rw [add, zero, hcross, Prod.mk.injEq, div_eq_one_iff_eq hminus, neg]
  constructor
  · rw [div_eq_zero_iff]
    left
    ring
  · ring

/-- The numerators and denominators of a sum with a pair of quotients. -/
theorem add_div_pair {a b p q : K} (hp : p ≠ 0) (hq : q ≠ 0) (R : K × K) :
    add d (a / p, b / q) R = ((a * R.2 * q + R.1 * b * p) / (p * q + d * a * b * R.1 * R.2),
      (b * R.2 * p + a * R.1 * q) / (p * q - d * a * b * R.1 * R.2)) := by
  have hpq : p * q ≠ 0 := mul_ne_zero hp hq
  have hcross : cross d (a / p, b / q) R = d * a * b * R.1 * R.2 / (p * q) := by
    rw [cross]
    field_simp
  have hplus : 1 + cross d (a / p, b / q) R = (p * q + d * a * b * R.1 * R.2) / (p * q) := by
    rw [hcross]
    field_simp
  have hminus : 1 - cross d (a / p, b / q) R = (p * q - d * a * b * R.1 * R.2) / (p * q) := by
    rw [hcross]
    field_simp
  have hx : a / p * R.2 + R.1 * (b / q) = (a * R.2 * q + R.1 * b * p) / (p * q) := by
    field_simp
  have hy : b / q * R.2 + a / p * R.1 = (b * R.2 * p + a * R.1 * q) / (p * q) := by
    field_simp
  rw [add, hplus, hminus, hx, hy, div_div_div_cancel_right₀ hpq, div_div_div_cancel_right₀ hpq]

/-- Its denominators are not zero where those of the sum are not. -/
theorem den_ne_zero_div {a b p q : K} (hp : p ≠ 0) (hq : q ≠ 0) {R : K × K}
    (hplus : 1 + cross d (a / p, b / q) R ≠ 0) (hminus : 1 - cross d (a / p, b / q) R ≠ 0) :
    p * q + d * a * b * R.1 * R.2 ≠ 0 ∧ p * q - d * a * b * R.1 * R.2 ≠ 0 := by
  have hcross : cross d (a / p, b / q) R * (p * q) = d * a * b * R.1 * R.2 := by
    rw [cross]
    field_simp
  constructor
  · intro h
    refine hplus ((mul_eq_zero.mp ?_).resolve_right (mul_ne_zero hp hq))
    linear_combination h + hcross
  · intro h
    refine hminus ((mul_eq_zero.mp ?_).resolve_right (mul_ne_zero hp hq))
    linear_combination h - hcross

/-- **The sum of points is associative.** Both sides are quotients; their cross products differ by a
combination of the three equations of the curve. -/
theorem add_assoc_of_onCurve (hd : Complete d) {P Q R : K × K} (hP : OnCurve d P) (hQ : OnCurve d Q)
    (hR : OnCurve d R) : add d (add d P Q) R = add d P (add d Q R) := by
  -- completeness: none of the eight denominators is zero
  obtain ⟨hp, hq⟩ := den_ne_zero hd hP hQ
  obtain ⟨hp', hq'⟩ := den_ne_zero hd hQ hR
  obtain ⟨hplus, hminus⟩ := den_ne_zero hd (onCurve_add hd hP hQ) hR
  obtain ⟨hplus', hminus'⟩ := den_ne_zero hd (onCurve_add hd hQ hR) hP
  rw [add] at hplus hminus hplus' hminus'
  obtain ⟨hx, hy⟩ := den_ne_zero_div hp hq hplus hminus
  obtain ⟨hx', hy'⟩ := den_ne_zero_div hp' hq' hplus' hminus'
  -- after cross multiplication two polynomial equations are left, one for each coordinate
  rw [add_comm_pair P (add d Q R), add.eq_1 d P Q, add.eq_1 d Q R, add_div_pair hp hq,
    add_div_pair hp' hq',
    Prod.mk.injEq, div_eq_div_iff hx hx', div_eq_div_iff hy hy']
  obtain ⟨x₁, y₁⟩ := P
  obtain ⟨x₂, y₂⟩ := Q
  obtain ⟨x₃, y₃⟩ := R
  simp only [OnCurve, cross] at *
  constructor
  · linear_combination
      d * x₂ * y₂ * (x₃ * y₃ * (x₁ * y₂ * y₃ + x₁ * x₂ * x₃ - x₂ * y₁ * y₃ - x₃ * y₁ * y₂)
        + x₂ * y₂ * (y₃ ^ 2 - x₃ ^ 2 - 1)
          * (x₁ * y₂ * y₃ + x₂ * y₁ * y₃ + x₃ * y₁ * y₂ + x₁ * x₂ * x₃)) * hP
      - d ^ 2 * x₁ * y₁ * x₂ * y₂ * x₃ * y₃
        * (x₃ * y₃ * (x₁ * y₂ * y₃ + x₂ * y₁ * y₃ - x₃ * y₁ * y₂ - x₁ * x₂ * x₃)
          + x₁ * y₁ * (x₁ * y₂ * y₃ + x₁ * x₂ * x₃ - x₂ * y₁ * y₃ - x₃ * y₁ * y₂)) * hQ
      + d * x₂ * y₂ * (x₁ * y₁ * (x₁ * y₂ * y₃ + x₂ * y₁ * y₃ - x₃ * y₁ * y₂ - x₁ * x₂ * x₃)
        - x₂ * y₂ * (y₁ ^ 2 - x₁ ^ 2 - 1)
          * (x₁ * y₂ * y₃ + x₂ * y₁ * y₃ + x₃ * y₁ * y₂ + x₁ * x₂ * x₃)) * hR
  · linear_combination
      d * x₂ * y₂ * (x₃ * y₃ * (y₁ * y₂ * y₃ + x₂ * x₃ * y₁ - x₁ * x₂ * y₃ - x₁ * x₃ * y₂)
        + x₂ * y₂ * (y₃ ^ 2 - x₃ ^ 2 - 1)
          * (y₁ * y₂ * y₃ + x₁ * x₂ * y₃ + x₁ * x₃ * y₂ + x₂ * x₃ * y₁)) * hP
      + d ^ 2 * x₁ * y₁ * x₂ * y₂ * x₃ * y₃
        * (x₃ * y₃ * (y₁ * y₂ * y₃ + x₁ * x₂ * y₃ - x₁ * x₃ * y₂ - x₂ * x₃ * y₁)
          - x₁ * y₁ * (y₁ * y₂ * y₃ + x₂ * x₃ * y₁ - x₁ * x₂ * y₃ - x₁ * x₃ * y₂)) * hQ
      - d * x₂ * y₂ * (x₁ * y₁ * (y₁ * y₂ * y₃ + x₁ * x₂ * y₃ - x₁ * x₃ * y₂ - x₂ * x₃ * y₁)
        + x₂ * y₂ * (y₁ ^ 2 - x₁ ^ 2 - 1)
          * (y₁ * y₂ * y₃ + x₁ * x₂ * y₃ + x₁ * x₃ * y₂ + x₂ * x₃ * y₁)) * hR

/-! ## Projective coordinates

Sums without divisions: a common denominator is kept as the third coordinate. -/

/-- A triple of coordinates stands for a pair. -/
structure Represents (T : K × K × K) (P : K × K) : Prop where
  ne_zero : T.2.2 ≠ 0
  fst_eq : T.1 = T.2.2 * P.1
  snd_eq : T.2.1 = T.2.2 * P.2

/-- The sum of two triples. -/
def addProjective (d : K) (S T : K × K × K) : K × K × K :=
  let a := S.2.2 * T.2.2
  let b := a * a
  let e := d * (S.1 * T.1) * (S.2.1 * T.2.1)
  (a * (b - e) * (S.1 * T.2.1 + T.1 * S.2.1), a * (b + e) * (S.2.1 * T.2.1 + S.1 * T.1),
    (b - e) * (b + e))

/-- **The sum of triples stands for the sum of points.** -/
theorem Represents.add (hd : Complete d) {S T : K × K × K} {P Q : K × K} (hS : Represents S P)
    (hT : Represents T Q) (hP : OnCurve d P) (hQ : OnCurve d Q) :
    Represents (addProjective d S T) (add d P Q) := by
  obtain ⟨hplus, hminus⟩ := den_ne_zero hd hP hQ
  obtain ⟨x, y, z⟩ := S
  obtain ⟨x', y', z'⟩ := T
  obtain ⟨hz, hx, hy⟩ := hS
  obtain ⟨hz', hx', hy'⟩ := hT
  dsimp only at hz hx hy hz' hx' hy'
  subst hx hy hx' hy'
  -- the product of the two denominators of the point is that of the triple
  have hden : (z * z' * (z * z') - d * (z * P.1 * (z' * Q.1)) * (z * P.2 * (z' * Q.2)))
      * (z * z' * (z * z') + d * (z * P.1 * (z' * Q.1)) * (z * P.2 * (z' * Q.2)))
      = (z * z') ^ 4 * (1 - cross d P Q) * (1 + cross d P Q) := by
    rw [cross]
    ring
  have hpow : (z * z') ^ 4 ≠ 0 := pow_ne_zero 4 (mul_ne_zero hz hz')
  constructor
  · simp only [addProjective, hden]
    exact mul_ne_zero (mul_ne_zero hpow hminus) hplus
  · simp only [addProjective, hden, Edwards.add]
    rw [mul_assoc _ (1 + cross d P Q), mul_div_cancel₀ _ hplus, cross]
    ring
  · simp only [addProjective, hden, Edwards.add]
    rw [mul_right_comm _ (1 - cross d P Q), mul_assoc _ (1 - cross d P Q), mul_div_cancel₀ _ hminus,
      cross]
    ring

/-! ## The group of points -/

/-- The points of the curve. -/
def Point (d : K) : Type u := { P : K × K // OnCurve d P }

instance : Zero (Point d) := ⟨⟨zero, onCurve_zero⟩⟩

instance : Neg (Point d) := ⟨fun P => ⟨neg P.1, onCurve_neg P.2⟩⟩

/-- The neutral point. -/
@[simp] theorem val_zero : (0 : Point d).1 = zero := rfl

section Group

variable [hd : Fact (Complete d)]

instance : Add (Point d) := ⟨fun P Q => ⟨add d P.1 Q.1, onCurve_add hd.out P.2 Q.2⟩⟩

/-- The sum of two points. -/
@[simp] theorem val_add (P Q : Point d) : (P + Q).1 = add d P.1 Q.1 := rfl

/-- **The points are a commutative group.** -/
instance instAddCommGroupPoint : AddCommGroup (Point d) where
  add_assoc P Q R := Subtype.ext (add_assoc_of_onCurve hd.out P.2 Q.2 R.2)
  zero_add P := Subtype.ext (zero_add_pair P.1)
  add_zero P := Subtype.ext ((add_comm_pair P.1 zero).trans (zero_add_pair P.1))
  nsmul := nsmulRec
  zsmul := zsmulRec
  neg_add_cancel P := Subtype.ext (neg_add_cancel_of_onCurve hd.out P.2)
  add_comm P Q := Subtype.ext (add_comm_pair P.1 Q.1)

end Group

end OpenWright.Edwards
