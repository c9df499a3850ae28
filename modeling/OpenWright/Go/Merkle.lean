import Mathlib.Data.Int.Bitwise
import OpenWright.Merkle.Consistency

/-! # The Merkle tree in Go

The ports of the tree hash, of the two proof generators and of the consistency verifier. The verifier
works on machine integers of 64 bits: it looks at the lowest bit with a mask and halves by shifting.

* **`verifyConsistency_eq`** — on all sizes that trees have, it is the verifier in Python.
* **`merkle_agrees`** — the two languages hash the same trees, write the same proofs, and accept the
  same proofs. -/

namespace OpenWright.Go

open Python

/-! ## Hashing and proving -/

/-- `LeafHash`. -/
def leafHash (data : Bytes) : Bytes := Hash.sha256 ([0x00] ++ data)

/-- `NodeHash`. -/
def nodeHash (left right : Bytes) : Bytes := Hash.sha256 ([0x01] ++ left ++ right)

/-- `EmptyRoot`. -/
def emptyRoot : Bytes := Hash.sha256 []

/-- Doubling keeps a power of two positive. -/
theorem double_pos {k : Nat} (hk : 0 < k) : 0 < k * 2 := Nat.mul_pos hk Nat.two_pos

/-- The loop of `largestPow2Lt`. -/
def largestPow2LtLoop (n k : Nat) (hk : 0 < k) : Nat :=
  if k * 2 < n then largestPow2LtLoop n (k * 2) (double_pos hk) else k
termination_by n - k

/-- `largestPow2Lt`. -/
def largestPow2Lt (n : Nat) : Nat := largestPow2LtLoop n 1 Nat.one_pos

/-- The two loops are one. -/
theorem largestPow2LtLoop_eq (n k : Nat) (hk : 0 < k) :
    largestPow2LtLoop n k hk = Merkle.largestPow2LtLoop n k hk := by
  rw [largestPow2LtLoop, Merkle.largestPow2LtLoop]
  split
  · exact largestPow2LtLoop_eq n (k * 2) (by omega)
  · rfl
termination_by n - k

/-- Both compute the same split. -/
@[simp] theorem largestPow2Lt_eq (n : Nat) : largestPow2Lt n = Merkle.largestPow2Lt n :=
  largestPow2LtLoop_eq n 1 Nat.one_pos

/-- `TreeHash`. -/
def treeHash (leaves : List Bytes) : Bytes :=
  match leaves with
  | [] => emptyRoot
  | [leaf] => leaf
  | l₀ :: l₁ :: rest =>
    let k := largestPow2Lt (l₀ :: l₁ :: rest).length
    nodeHash (treeHash ((l₀ :: l₁ :: rest).take k)) (treeHash ((l₀ :: l₁ :: rest).drop k))
termination_by leaves.length
decreasing_by
  · have := Merkle.largestPow2Lt_lt (n := (l₀ :: l₁ :: rest).length) (by simp)
    rw [List.length_take, largestPow2Lt_eq]; omega
  · have := Merkle.largestPow2Lt_pos (n := (l₀ :: l₁ :: rest).length) (by simp)
    rw [List.length_drop, largestPow2Lt_eq]; simp only [List.length_cons] at *; omega

/-- `InclusionProof`; an index out of range has none. -/
def inclusionProof (leaves : List Bytes) (m : Int) : List Bytes :=
  if m < 0 ∨ m ≥ leaves.length then []
  else if leaves.length = 1 then []
  else
    let k := largestPow2Lt leaves.length
    if m < k then inclusionProof (leaves.take k) m ++ [treeHash (leaves.drop k)]
    else inclusionProof (leaves.drop k) (m - k) ++ [treeHash (leaves.take k)]
termination_by leaves.length
decreasing_by
  · have := Merkle.largestPow2Lt_lt (n := leaves.length) (by omega)
    rw [List.length_take, largestPow2Lt_eq]; omega
  · have := Merkle.largestPow2Lt_pos (n := leaves.length) (by omega)
    rw [List.length_drop, largestPow2Lt_eq]; omega

section Subproof

variable {m : Nat} {leaves : List Bytes} (hm : 0 < m ∧ m ≤ leaves.length) (hne : ¬m = leaves.length)

include hm hne

/-- The tree is cut into two parts that have leaves. -/
theorem largestPow2Lt_spec : 0 < largestPow2Lt leaves.length ∧
    largestPow2Lt leaves.length < leaves.length := by
  have hlen : 2 ≤ leaves.length := by omega
  rw [largestPow2Lt_eq]
  exact ⟨Merkle.largestPow2Lt_pos hlen, Merkle.largestPow2Lt_lt hlen⟩

/-- An old tree that ends in the left part has leaves there. -/
theorem old_le_left (hk : m ≤ largestPow2Lt leaves.length) :
    0 < m ∧ m ≤ (leaves.take (largestPow2Lt leaves.length)).length := by
  have hspec := largestPow2Lt_spec hm hne
  rw [List.length_take]
  omega

omit hne in
/-- An old tree that ends in the right part has leaves there. -/
theorem old_le_right (hk : ¬m ≤ largestPow2Lt leaves.length) : 0 < m - largestPow2Lt leaves.length ∧
    m - largestPow2Lt leaves.length ≤ (leaves.drop (largestPow2Lt leaves.length)).length := by
  rw [List.length_drop]
  omega

end Subproof

/-- `subproof`, whose caller keeps `m` between 1 and the number of leaves. -/
def subproof (m : Nat) (leaves : List Bytes) (b : Bool) (hm : 0 < m ∧ m ≤ leaves.length) :
    List Bytes :=
  if heq : m = leaves.length then
    -- the old tree is this whole tree, whose root the verifier may know
    if b then [] else [treeHash leaves]
  else
    if hk : m ≤ largestPow2Lt leaves.length then
      subproof m (leaves.take (largestPow2Lt leaves.length)) b (old_le_left hm heq hk)
        ++ [treeHash (leaves.drop (largestPow2Lt leaves.length))]
    else
      subproof (m - largestPow2Lt leaves.length) (leaves.drop (largestPow2Lt leaves.length)) false
          (old_le_right hm hk)
        ++ [treeHash (leaves.take (largestPow2Lt leaves.length))]
termination_by leaves.length
decreasing_by
  · have hspec := largestPow2Lt_spec hm heq
    rw [List.length_take]
    omega
  · have hspec := largestPow2Lt_spec hm heq
    rw [List.length_drop]
    omega

/-- `ConsistencyProof`; a size out of range has none. -/
def consistencyProof (leaves : List Bytes) (m : Int) : List Bytes :=
  if h : m ≤ 0 ∨ m > leaves.length then []
  else if m = leaves.length then []
  else subproof m.toNat leaves true (by omega)

/-! ## Verifying consistency -/

/-- Halving by a shift. -/
theorem toInt_shiftRight_one (x : Int64) : (x >>> (1 : Int64)).toInt = x.toInt / 2 := by
  rw [← Int64.toInt_toBitVec, Int64.toBitVec_shiftRight]
  simp [Int.shiftRight_eq_div_pow]

/-- The lowest bit. -/
theorem and_one_eq_one (x : Int64) : x &&& 1 = 1 ↔ x.toInt % 2 = 1 := by
  rw [← Int64.toBitVec_inj, Int64.toBitVec_and, ← Int64.toInt_toBitVec]
  generalize x.toBitVec = b
  have hand : (b &&& 1#64).toNat = b.toNat % 2 := by
    rw [BitVec.toNat_and]
    exact Nat.and_one_is_mod _
  have hnat : b &&& 1#64 = 1#64 ↔ b.toNat % 2 = 1 := by
    rw [← BitVec.toNat_inj, hand]
    rfl
  refine hnat.trans ?_
  rw [BitVec.toInt_eq_toNat_cond]
  split <;> omega

/-- `for fn&1 == 1`. (From `fn = -1`, an old size of zero, the loop of the source would not end; that
size never gets here.) -/
def skipOdd (fn sn : Int64) : Int64 × Int64 :=
  if fn &&& 1 = 1 ∧ fn ≠ -1 then skipOdd (fn >>> 1) (sn >>> 1) else (fn, sn)
termination_by fn.toInt.natAbs
decreasing_by
  rename_i h
  have hodd := (and_one_eq_one fn).mp h.1
  have hne : fn.toInt ≠ -1 := fun heq => h.2 (Int64.toInt_inj.mp heq)
  rw [toInt_shiftRight_one]
  omega

/-- `for (fn&1) == 0 && fn != 0`. -/
def skipLevels (fn sn : Int64) : Int64 × Int64 :=
  if fn &&& 1 ≠ 1 ∧ fn ≠ 0 then skipLevels (fn >>> 1) (sn >>> 1) else (fn, sn)
termination_by fn.toInt.natAbs
decreasing_by
  rename_i h
  have heven := mt (and_one_eq_one fn).mpr h.1
  have hne : fn.toInt ≠ 0 := fun heq => h.2 (Int64.toInt_inj.mp heq)
  rw [toInt_shiftRight_one]
  omega

/-- The loop of `VerifyConsistency` over the path: the `sn` and the two roots it ends with. -/
def consistencyLoop (fn sn : Int64) (fr sr : Bytes) : List Bytes → Option (Int64 × Bytes × Bytes)
  | [] => some (sn, fr, sr)
  | c :: path =>
    if sn = 0 then none
    else if fn &&& 1 = 1 ∨ fn = sn then
      let levels := if fn &&& 1 ≠ 1 then skipLevels fn sn else (fn, sn)
      consistencyLoop (levels.1 >>> 1) (levels.2 >>> 1) (nodeHash c fr) (nodeHash c sr) path
    else consistencyLoop (fn >>> 1) (sn >>> 1) fr (nodeHash sr c) path

/-- The path: the old root in front where the old tree is complete. -/
def splicedPath (firstSize : Int64) (firstRoot : Bytes) (proof : List Bytes) : List Bytes :=
  if firstSize &&& (firstSize - 1) = 0 then firstRoot :: proof else proof

/-- `VerifyConsistency`. -/
def verifyConsistency (firstSize secondSize : Int64) (firstRoot secondRoot : Bytes)
    (proof : List Bytes) : Bool :=
  if firstSize > secondSize then false
  else if firstSize = secondSize then proof.isEmpty && firstRoot == secondRoot
  -- every tree extends the empty one
  else if firstSize = 0 then proof.isEmpty
  else
    match splicedPath firstSize firstRoot proof with
    | [] => false
    | c :: path =>
      -- the nodes of the path up to the first joint have been left out of the proof
      let start := skipOdd (firstSize - 1) (secondSize - 1)
      match consistencyLoop start.1 start.2 c c path with
      | none => false
      | some (sn, fr, sr) => sn = 0 ∧ fr = firstRoot ∧ sr = secondRoot

/-! ## The two languages agree -/

/-- The tree hashes are one. -/
theorem treeHash_eq (leaves : List Bytes) : treeHash leaves = Merkle.treeHash leaves := by
  induction leaves using treeHash.induct with
  | case1 => rw [treeHash, Merkle.treeHash]; rfl
  | case2 leaf => rw [treeHash, Merkle.treeHash]
  | case3 l₀ l₁ rest k ih₁ ih₂ =>
      rw [treeHash, Merkle.treeHash]
      simp only [k, largestPow2Lt_eq] at ih₁ ih₂ ⊢
      rw [ih₁, ih₂]
      rfl

/-- An index in range has the audit path that Python gives it. -/
theorem inclusionProof_eq (leaves : List Bytes) {m : Int} (hm : 0 ≤ m ∧ m < leaves.length) :
    Merkle.inclusionProof leaves m = .ok (inclusionProof leaves m) := by
  induction leaves, m using inclusionProof.induct with
  | case1 leaves m h => omega
  | case2 leaves m h hone =>
      rw [inclusionProof, if_neg h, if_pos hone, Merkle.inclusionProof, if_neg (not_not.mpr hm),
        if_pos hone]
  | case3 leaves m h hone k hlt ih =>
      have hk := Merkle.largestPow2Lt_lt (n := leaves.length) (by omega)
      simp only [k, largestPow2Lt_eq] at hlt ih
      rw [inclusionProof, if_neg h, if_neg hone, Merkle.inclusionProof, if_neg (not_not.mpr hm),
        if_neg hone]
      simp only [largestPow2Lt_eq]
      rw [if_pos hlt, if_pos hlt, ih (by rw [List.length_take]; omega), treeHash_eq]
      rfl
  | case4 leaves m h hone k hlt ih =>
      have hk := Merkle.largestPow2Lt_lt (n := leaves.length) (by omega)
      simp only [k, largestPow2Lt_eq] at hlt ih
      rw [inclusionProof, if_neg h, if_neg hone, Merkle.inclusionProof, if_neg (not_not.mpr hm),
        if_neg hone]
      simp only [largestPow2Lt_eq]
      rw [if_neg hlt, if_neg hlt, ih (by rw [List.length_drop]; omega), treeHash_eq]
      rfl

/-- The recursive generators are one. -/
theorem subproof_eq (m : Nat) (leaves : List Bytes) (b : Bool) (hm : 0 < m ∧ m ≤ leaves.length) :
    subproof m leaves b hm = Merkle.subproof m leaves b hm := by
  rw [subproof, Merkle.subproof]
  simp only [largestPow2Lt_eq, treeHash_eq]
  split
  · rfl
  · rename_i hne
    have hlt := Merkle.largestPow2Lt_lt (n := leaves.length) (by omega)
    have hpos := Merkle.largestPow2Lt_pos (n := leaves.length) (by omega)
    split
    · rw [subproof_eq]
    · rw [subproof_eq]
termination_by leaves.length
decreasing_by
  · rw [List.length_drop]; omega
  · rw [List.length_take]; omega

/-- A size in range has the consistency proof that Python gives it. -/
theorem consistencyProof_eq (leaves : List Bytes) {m : Int} (hm : 0 < m ∧ m ≤ leaves.length) :
    Merkle.consistencyProof leaves m = .ok (consistencyProof leaves m) := by
  rw [Merkle.consistencyProof, dif_pos hm, consistencyProof, dif_neg (by omega), subproof_eq]
  split <;> rfl

/-- The levels of the old tree that are skipped. -/
theorem skipOdd_eq (fn sn : Int64) :
    Merkle.skipOdd fn.toInt sn.toInt = ((skipOdd fn sn).1.toInt, (skipOdd fn sn).2.toInt) := by
  induction fn, sn using skipOdd.induct with
  | case1 fn sn h ih =>
      have hodd := (and_one_eq_one fn).mp h.1
      have hne : fn.toInt ≠ -1 := fun heq => h.2 (Int64.toInt_inj.mp heq)
      rw [skipOdd, if_pos h, ← ih, toInt_shiftRight_one, toInt_shiftRight_one, Merkle.skipOdd,
        if_pos ⟨hodd, hne⟩]
  | case2 fn sn h =>
      rw [skipOdd, if_neg h, Merkle.skipOdd, if_neg]
      rintro ⟨hodd, hne⟩
      exact h ⟨(and_one_eq_one fn).mpr hodd, fun heq => hne (by rw [heq]; rfl)⟩

/-- The levels on which a node moves up alone. -/
theorem skipLevels_eq (fn sn : Int64) :
    Merkle.skipLevels fn.toInt sn.toInt = ((skipLevels fn sn).1.toInt, (skipLevels fn sn).2.toInt) := by
  induction fn, sn using skipLevels.induct with
  | case1 fn sn h ih =>
      have heven := mt (and_one_eq_one fn).mpr h.1
      have hne : fn.toInt ≠ 0 := fun heq => h.2 (Int64.toInt_inj.mp heq)
      rw [skipLevels, if_pos h, ← ih, toInt_shiftRight_one, toInt_shiftRight_one, Merkle.skipLevels,
        if_pos ⟨by omega, hne⟩]
  | case2 fn sn h =>
      rw [skipLevels, if_neg h, Merkle.skipLevels, if_neg]
      rintro ⟨heven, hne⟩
      refine h ⟨fun hone => ?_, fun heq => hne (by rw [heq]; rfl)⟩
      have hodd := (and_one_eq_one fn).mp hone
      omega

/-- **The loops of the verifiers are one.** -/
theorem consistencyLoop_eq (P : List Bytes) : ∀ (fn sn : Int64) (fr sr : Bytes),
    Merkle.consistencyLoop fn.toInt sn.toInt fr sr P
      = (consistencyLoop fn sn fr sr P).map fun t => (t.1.toInt, t.2) := by
  induction P with
  | nil => exact fun _ _ _ _ => rfl
  | cons c P ih =>
      intro fn sn fr sr
      have hzero : sn.toInt = 0 ↔ sn = 0 := ⟨fun h => Int64.toInt_inj.mp h, fun h => by rw [h]; rfl⟩
      have hsame : fn.toInt = sn.toInt ↔ fn = sn := Int64.toInt_inj
      have hodd := and_one_eq_one fn
      rw [Merkle.consistencyLoop, consistencyLoop]
      by_cases hsn : sn = 0
      · rw [if_pos hsn, if_pos (hzero.mpr hsn)]
        rfl
      · rw [if_neg hsn, if_neg (mt hzero.mp hsn)]
        by_cases hright : fn &&& 1 = 1 ∨ fn = sn
        · rw [if_pos hright, if_pos (by rwa [← hodd, hsame])]
          by_cases heven : fn &&& 1 ≠ 1
          · -- the node moves up alone first
            have hmod : fn.toInt % 2 = 0 := by have := mt hodd.mpr heven; omega
            simp only [if_pos heven, if_pos hmod, skipLevels_eq]
            rw [← toInt_shiftRight_one, ← toInt_shiftRight_one]
            exact ih _ _ _ _
          · have hmod : fn.toInt % 2 ≠ 0 := by have := hodd.mp (not_not.mp heven); omega
            simp only [if_neg heven, if_neg hmod]
            rw [← toInt_shiftRight_one, ← toInt_shiftRight_one]
            exact ih _ _ _ _
        · rw [if_neg hright, if_neg (by rwa [← hodd, hsame]), ← toInt_shiftRight_one,
            ← toInt_shiftRight_one]
          exact ih _ _ _ _

/-- The predecessor of a positive size. -/
theorem toInt_sub_one {x : Int64} (hx : 0 < x.toInt) : (x - 1).toInt = x.toInt - 1 := by
  have hlt := x.toInt_lt
  rw [Int64.toInt_sub]
  have hone : (1 : Int64).toInt = 1 := rfl
  rw [hone, Int.bmod_eq_of_le (by omega) (by omega)]

/-- The two tests for a complete tree are one. -/
theorem and_sub_one_eq_zero {x : Int64} (hx : 0 < x.toInt) :
    x &&& (x - 1) = 0 ↔ Int.land x.toInt (x.toInt - 1) = 0 := by
  have htoNat : ∀ y : Int64, 0 ≤ y.toInt → (y.toBitVec.toNat : Int) = y.toInt := by
    intro y hy
    have hcond := BitVec.toInt_eq_toNat_cond y.toBitVec
    rw [Int64.toInt_toBitVec] at hcond
    have hlt := y.toBitVec.isLt
    split at hcond <;> omega
  have hsub := toInt_sub_one hx
  have hn := htoNat x hx.le
  have hm := htoNat (x - 1) (by omega)
  have hland : Int.land x.toInt (x.toInt - 1)
      = ((x.toBitVec.toNat &&& (x - 1).toBitVec.toNat : Nat) : Int) := by
    rw [← hsub, ← hn, ← hm]
    rfl
  rw [hland, Int.natCast_eq_zero, ← BitVec.toNat_and, ← Int64.toBitVec_and, ← Int64.toBitVec_inj,
    ← BitVec.toNat_inj]
  rfl

/-- **The verifier in Go is the one in Python**, on all sizes from zero up to the largest machine
integer. -/
theorem verifyConsistency_eq {firstSize secondSize : Int64} (hfirst : 0 ≤ firstSize.toInt)
    (firstRoot secondRoot : Bytes) (proof : List Bytes) :
    verifyConsistency firstSize secondSize firstRoot secondRoot proof
      = Merkle.verifyConsistency firstSize.toInt secondSize.toInt firstRoot secondRoot proof := by
  have hzero : firstSize.toInt = 0 ↔ firstSize = 0 :=
    ⟨fun h => Int64.toInt_inj.mp h, fun h => by rw [h]; rfl⟩
  rw [verifyConsistency, Merkle.verifyConsistency]
  -- the cases of the source, in its order
  by_cases hlt : firstSize > secondSize
  · rw [if_pos hlt, if_pos (Int64.lt_iff_toInt_lt.mp hlt)]
  · have hlt' := mt Int64.lt_iff_toInt_lt.mpr hlt
    rw [if_neg hlt, if_neg hlt']
    by_cases hsame : firstSize = secondSize
    · rw [if_pos hsame, if_pos (Int64.toInt_inj.mpr hsame)]
    · have hsame' : firstSize.toInt ≠ secondSize.toInt := mt Int64.toInt_inj.mp hsame
      rw [if_neg hsame, if_neg hsame']
      by_cases h0 : firstSize = 0
      · rw [if_pos h0, if_pos (hzero.mpr h0)]
      -- only now the sizes are decreased and shifted, and neither can wrap above zero
      · have hpos : 0 < firstSize.toInt := by have := mt hzero.mp h0; omega
        have hpath : splicedPath firstSize firstRoot proof
            = Merkle.splicedPath firstSize.toInt firstRoot proof := by
          rw [splicedPath, Merkle.splicedPath]
          exact if_congr (and_sub_one_eq_zero hpos) rfl rfl
        rw [if_neg h0, if_neg (mt hzero.mp h0), hpath]
        cases Merkle.splicedPath firstSize.toInt firstRoot proof with
        | nil => rfl
        | cons c path =>
            have hstart := skipOdd_eq (firstSize - 1) (secondSize - 1)
            rw [toInt_sub_one hpos, toInt_sub_one (by omega)] at hstart
            simp only [hstart, consistencyLoop_eq]
            cases consistencyLoop _ _ _ _ _ with
            | none => rfl
            | some t =>
                -- what is left of the second size is the same number
                have hend : t.1.toInt = 0 ↔ t.1 = 0 :=
                  ⟨fun h => Int64.toInt_inj.mp h, fun h => by rw [h]; rfl⟩
                exact decide_eq_decide.mpr (and_congr_left fun _ => hend.symm)

/-- **The two languages agree on the Merkle tree.** For every list of leaf hashes they have one tree
hash; for every index and every old size the proof in Go is the one in Python, and empty where Python
raises; and between any two tree sizes that a machine integer holds they accept the same proofs for the
same roots. -/
theorem merkle_agrees (leaves : List Bytes) :
    treeHash leaves = Merkle.treeHash leaves ∧
      (∀ m : Int, inclusionProof leaves m = (Merkle.inclusionProof leaves m).toOption.getD []) ∧
      (∀ m : Int, consistencyProof leaves m = (Merkle.consistencyProof leaves m).toOption.getD []) ∧
      ∀ firstSize secondSize : Int64, 0 ≤ firstSize.toInt → ∀ firstRoot secondRoot proof,
        verifyConsistency firstSize secondSize firstRoot secondRoot proof
          = Merkle.verifyConsistency firstSize.toInt secondSize.toInt firstRoot secondRoot proof := by
  refine ⟨treeHash_eq leaves, fun m => ?_, fun m => ?_, fun _ _ h _ _ _ => verifyConsistency_eq h _ _ _⟩
  · by_cases hm : 0 ≤ m ∧ m < leaves.length
    · rw [inclusionProof_eq leaves hm]
      rfl
    · rw [Merkle.inclusionProof, if_pos hm, inclusionProof, if_pos (by omega)]
      rfl
  · by_cases hm : 0 < m ∧ m ≤ leaves.length
    · rw [consistencyProof_eq leaves hm]
      rfl
    · rw [Merkle.consistencyProof, dif_neg hm, consistencyProof, dif_pos (by omega)]
      rfl

/-- The consistency proof in Python for the first three of seven leaves. -/
theorem consistencyProof_seven (a b c d e f g : Bytes) :
    Merkle.consistencyProof [a, b, c, d, e, f, g] 3
      = .ok [c, d, Merkle.nodeHash a b, Merkle.nodeHash (Merkle.nodeHash e f) g] := by
  have h7 : Merkle.largestPow2Lt 7 = 4 := by decide +kernel
  have h4 : Merkle.largestPow2Lt 4 = 2 := by decide +kernel
  have h3 : Merkle.largestPow2Lt 3 = 2 := by decide +kernel
  have h2 : Merkle.largestPow2Lt 2 = 1 := by decide +kernel
  have hthree : Merkle.treeHash [e, f, g] = Merkle.nodeHash (Merkle.nodeHash e f) g := by
    rw [Merkle.treeHash_split (by simp)]
    simp [h3, Merkle.treeHash_pair]
  simp [Merkle.consistencyProof, Merkle.subproof, h7, h4, h2, hthree, Merkle.treeHash_pair]

/-- The leaves of seven records. -/
def sevenLeaves : List Bytes :=
  [leafHash [0], leafHash [1], leafHash [2], leafHash [3], leafHash [4], leafHash [5], leafHash [6]]

/-- The consistency proof for the first three of them. -/
def sevenProof : List Bytes :=
  [leafHash [2], leafHash [3], nodeHash (leafHash [0]) (leafHash [1]),
    nodeHash (nodeHash (leafHash [4]) (leafHash [5])) (leafHash [6])]

/-- Both languages write that proof, and Go accepts it between the tree hashes in Python. -/
theorem merkle_agrees_seven : consistencyProof sevenLeaves 3 = sevenProof ∧
    Merkle.consistencyProof sevenLeaves 3 = .ok sevenProof ∧
    inclusionProof sevenLeaves 4 = (Merkle.inclusionProof sevenLeaves 4).toOption.getD [] ∧
    treeHash sevenLeaves = Merkle.treeHash sevenLeaves ∧
    verifyConsistency 3 7 (Merkle.treeHash (sevenLeaves.take 3)) (Merkle.treeHash sevenLeaves) sevenProof
      = true := by
  obtain ⟨htree, hinclusion, hconsistency, hverify⟩ := merkle_agrees sevenLeaves
  have hproof : Merkle.consistencyProof sevenLeaves 3 = .ok sevenProof :=
    consistencyProof_seven _ _ _ _ _ _ _
  have hgo : consistencyProof sevenLeaves 3 = sevenProof := by
    rw [hconsistency, hproof]
    rfl
  refine ⟨hgo, hproof, hinclusion 4, htree, ?_⟩
  rw [hverify 3 7 (by decide)]
  exact Merkle.verifyConsistency_of_consistencyProof hproof

end OpenWright.Go
