import OpenWright.Python.PowMod
import OpenWright.Python.Json
import OpenWright.Hash.Sha256

/-! # Ed25519 without dependencies

The verification of Ed25519 signatures that runs where no cryptographic library is installed, over
the integers, as the fallback computes it. SHA-512 is a parameter. -/

namespace OpenWright.Ed25519Pure

open Python Hash

/-! ## The field and the curve -/

/-- `_P`. -/
def P : Nat := 2 ^ 255 - 19

/-- `_L`. -/
def L : Nat := 2 ^ 252 + 27742317777372353535851937790883648493

/-- `_inv`. -/
def inv (x : Int) : Int := pow x (P - 2) P

/-- `_D`. -/
def D : Int := (-121665 * inv 121666) % P

/-- `_I`. -/
def I : Int := pow 2 ((P - 1) / 4) P

/-- `_xrecover`. -/
def xrecover (y : Int) : Int :=
  let xx := (y * y - 1) * inv (D * y * y + 1)
  let x := pow xx ((P + 3) / 8) P
  let x := if (x * x - xx) % P ≠ 0 then x * I % P else x
  if x % 2 ≠ 0 then P - x else x

/-- `_BY`. -/
def BY : Int := 4 * inv 5 % P

/-- `_BX`. -/
def BX : Int := xrecover BY % P

/-- `_B`. -/
def B : Int × Int := (BX, BY)

/-! ## Points -/

/-- `_edwards_add`. -/
def edwardsAdd (p1 p2 : Int × Int) : Int × Int :=
  let (x1, y1) := p1
  let (x2, y2) := p2
  let denom := inv (1 + D * x1 * x2 * y1 * y2)
  let x3 := (x1 * y2 + x2 * y1) * denom % P
  let denom2 := inv (1 - D * x1 * x2 * y1 * y2)
  let y3 := (y1 * y2 + x1 * x2) * denom2 % P
  (x3, y3)

/-- The loop of `_scalarmult`, with fuel for the bits of `e`. -/
def scalarmultLoop : Nat → Int × Int → Int × Int → Nat → Int × Int
  | 0, result, _, _ => result
  | fuel + 1, result, addend, e =>
    if e > 0 then
      let result := if e % 2 = 1 then edwardsAdd result addend else result
      scalarmultLoop fuel result (edwardsAdd addend addend) (e / 2)
    else result

/-- `_scalarmult`. -/
def scalarmult (point : Int × Int) (e : Nat) : Int × Int :=
  scalarmultLoop (e.log2 + 1) (0, 1) point e

/-- `_is_on_curve`. -/
def isOnCurve (point : Int × Int) : Bool :=
  let (x, y) := point
  (-x * x + y * y - 1 - D * x * x * y * y) % P == 0

/-! ## Encodings -/

/-- `int.from_bytes(s, "little")`. -/
def fromBytes (s : Bytes) : Nat := s.foldr (fun b n => b.toNat + 256 * n) 0

/-- `n.to_bytes(length, "little")`, of an `n` that fits. -/
def toBytes : Nat → Nat → Bytes
  | 0, _ => []
  | length + 1, n => UInt8.ofNat n :: toBytes length (n / 256)

/-- A number is written with as many bytes as asked for. -/
theorem length_toBytes (length n : Nat) : (toBytes length n).length = length := by
  induction length generalizing n with
  | zero => rfl
  | succ length ih => rw [toBytes, List.length_cons, ih]

/-- **Bytes written are read back.** -/
theorem fromBytes_toBytes {length n : Nat} (h : n < 256 ^ length) :
    fromBytes (toBytes length n) = n := by
  induction length generalizing n with
  | zero =>
      obtain rfl : n = 0 := by simpa using h
      rfl
  | succ length ih =>
      have hrest : n / 256 < 256 ^ length := by
        rw [pow_succ] at h
        omega
      have hbyte : (UInt8.ofNat n).toNat = n % 256 := UInt8.toNat_ofNat'
      rw [toBytes, fromBytes, List.foldr_cons, ← fromBytes, ih hrest, hbyte, Nat.mod_add_div]

/-- The coordinate `y` of an encoded point: all bits but the highest. -/
def yOf (s : Bytes) : Nat := fromBytes s &&& (1 <<< 255 - 1)

/-- The highest bit of an encoded point. -/
def signOf (s : Bytes) : Nat := fromBytes s >>> 255 &&& 1

/-- The coordinate `x` of an encoded point. -/
def xOf (s : Bytes) : Int :=
  let x := xrecover (yOf s)
  if x % 2 ≠ signOf s then P - x else x

/-- `_decodepoint`. -/
def decodepoint (s : Bytes) : Except PyErr (Int × Int) :=
  let point : Int × Int := (xOf s, yOf s)
  if !isOnCurve point then .error { kind := .valueError } else .ok point

/-! ## Verification -/

/-- The scalar that binds a signature to the key and the message. -/
def challenge (sha512 : Bytes → Bytes) (encodedR publicKey message : Bytes) : Nat :=
  fromBytes (sha512 (encodedR ++ publicKey ++ message)) % L

/-- `verify`. -/
def verify (sha512 : Bytes → Bytes) (publicKey signature message : Bytes) : Bool :=
  if signature.length ≠ 64 ∨ publicKey.length ≠ 32 then false
  else
    match decodepoint (signature.take 32), decodepoint publicKey with
    | .ok rPoint, .ok aPoint =>
      let s := fromBytes (signature.drop 32)
      -- a scalar that is not reduced is refused, so a signature cannot be rewritten
      if s ≥ L then false
      else
        let h := challenge sha512 (signature.take 32) publicKey message
        let sb := scalarmult B s
        let ha := scalarmult aPoint h
        sb == edwardsAdd rPoint ha
    | _, _ => false

end OpenWright.Ed25519Pure
