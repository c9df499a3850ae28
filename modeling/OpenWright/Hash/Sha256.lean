import OpenWright.Python.Str
import Mathlib.Data.List.Nodup

/-! # SHA-256

The hash of `hashlib.sha256`, as the standard defines it: the padded message is cut into blocks of
sixteen 32-bit words, and each block is folded into a state of eight words by sixty-four rounds.

The definition runs, so that concrete digests can be computed. No proof about the program looks
inside it; all that is used of it are the digest length (`length_sha256`) and, where a statement
assumes it, that no two of finitely many named strings collide (`CollisionFree`). -/

namespace OpenWright.Hash

/-- A 32-bit word, as a number below `2 ^ 32`. -/
abbrev Word := Nat

/-- Addition modulo `2 ^ 32`. -/
def add32 (x y : Word) : Word := (x + y) % 0x100000000

/-- A rotation to the right. -/
def rotr (x : Word) (n : Nat) : Word := (x >>> n) ||| (x <<< (32 - n)) % 0x100000000

/-! ## The round function -/

/-- The round constants. -/
def roundConstants : List Word := [
  0x428a2f98, 0x71374491, 0xb5c0fbcf, 0xe9b5dba5, 0x3956c25b, 0x59f111f1, 0x923f82a4, 0xab1c5ed5,
  0xd807aa98, 0x12835b01, 0x243185be, 0x550c7dc3, 0x72be5d74, 0x80deb1fe, 0x9bdc06a7, 0xc19bf174,
  0xe49b69c1, 0xefbe4786, 0x0fc19dc6, 0x240ca1cc, 0x2de92c6f, 0x4a7484aa, 0x5cb0a9dc, 0x76f988da,
  0x983e5152, 0xa831c66d, 0xb00327c8, 0xbf597fc7, 0xc6e00bf3, 0xd5a79147, 0x06ca6351, 0x14292967,
  0x27b70a85, 0x2e1b2138, 0x4d2c6dfc, 0x53380d13, 0x650a7354, 0x766a0abb, 0x81c2c92e, 0x92722c85,
  0xa2bfe8a1, 0xa81a664b, 0xc24b8b70, 0xc76c51a3, 0xd192e819, 0xd6990624, 0xf40e3585, 0x106aa070,
  0x19a4c116, 0x1e376c08, 0x2748774c, 0x34b0bcb5, 0x391c0cb3, 0x4ed8aa4a, 0x5b9cca4f, 0x682e6ff3,
  0x748f82ee, 0x78a5636f, 0x84c87814, 0x8cc70208, 0x90befffa, 0xa4506ceb, 0xbef9a3f7, 0xc67178f2]

/-- `σ₀`, used by the message schedule. -/
def smallSigma0 (x : Word) : Word := rotr x 7 ^^^ rotr x 18 ^^^ (x >>> 3)

/-- `σ₁`, used by the message schedule. -/
def smallSigma1 (x : Word) : Word := rotr x 17 ^^^ rotr x 19 ^^^ (x >>> 10)

/-- `Σ₀`, used by the rounds. -/
def bigSigma0 (x : Word) : Word := rotr x 2 ^^^ rotr x 13 ^^^ rotr x 22

/-- `Σ₁`, used by the rounds. -/
def bigSigma1 (x : Word) : Word := rotr x 6 ^^^ rotr x 11 ^^^ rotr x 25

/-- `x` chooses between `y` and `z`. -/
def ch (x y z : Word) : Word := (x &&& y) ^^^ ((0xffffffff ^^^ x) &&& z)

/-- The majority of three bits. -/
def maj (x y z : Word) : Word := (x &&& y) ^^^ (x &&& z) ^^^ (y &&& z)

/-- The eight working words. -/
structure HashState where
  a : Word
  b : Word
  c : Word
  d : Word
  e : Word
  f : Word
  g : Word
  h : Word

/-- The initial state. -/
def initialState : HashState :=
  ⟨0x6a09e667, 0xbb67ae85, 0x3c6ef372, 0xa54ff53a, 0x510e527f, 0x9b05688c, 0x1f83d9ab, 0x5be0cd19⟩

/-- Extend a message schedule, last word first, by `n` words. The last sixteen words are matched, so
that evaluation does not look them up one by one. -/
def extendSchedule : Nat → List Word → List Word
  | n + 1, a :: b :: c :: d :: e :: f :: g :: h :: i :: j :: k :: l :: m :: o :: p :: q :: w =>
    extendSchedule n (add32 (add32 (smallSigma1 b) g) (add32 (smallSigma0 p) q)
      :: a :: b :: c :: d :: e :: f :: g :: h :: i :: j :: k :: l :: m :: o :: p :: q :: w)
  | _, w => w

/-- Run the rounds, one for each sum of a round constant and a schedule word. The working words
are separate arguments, so that evaluation keeps them in normal form. -/
def rounds : List Word → Word → Word → Word → Word → Word → Word → Word → Word → HashState
  | [], a, b, c, d, e, f, g, h => ⟨a, b, c, d, e, f, g, h⟩
  | kw :: rest, a, b, c, d, e, f, g, h =>
    let t1 := add32 (add32 h (bigSigma1 e)) (add32 (ch e f g) kw)
    rounds rest (add32 t1 (add32 (bigSigma0 a) (maj a b c))) a b c (add32 d t1) e f g

/-- Fold one block of sixteen words into the state. -/
def compress (s : HashState) (block : List Word) : HashState :=
  let w := (extendSchedule 48 block.reverse).reverse
  let r := rounds (List.zipWith add32 roundConstants w) s.a s.b s.c s.d s.e s.f s.g s.h
  ⟨add32 s.a r.a, add32 s.b r.b, add32 s.c r.c, add32 s.d r.d, add32 s.e r.e, add32 s.f r.f,
    add32 s.g r.g, add32 s.h r.h⟩

/-! ## Padding and the digest -/

/-- The lowest `k` bytes of `n`, most significant first. -/
def bigEndian (n : Nat) : Nat → Bytes
  | 0 => []
  | k + 1 => UInt8.ofNat (n >>> (8 * k)) :: bigEndian n k

/-- A number is written with as many bytes as asked for. -/
@[simp] theorem length_bigEndian (n : Nat) : ∀ k, (bigEndian n k).length = k
  | 0 => rfl
  | k + 1 => by rw [bigEndian, List.length_cons, length_bigEndian n k]

/-- The big-endian words of a byte string. -/
def toWords : Bytes → List Word
  | a :: b :: c :: d :: rest =>
    (a.toNat <<< 24 + b.toNat <<< 16 + c.toNat <<< 8 + d.toNat) :: toWords rest
  | _ => []

/-- A one bit, zero bits up to a block boundary less eight bytes, and the length in bits. -/
def pad (m : Bytes) : Bytes :=
  m ++ 0x80 :: List.replicate ((119 - m.length % 64) % 64) 0 ++ bigEndian (8 * m.length) 8

/-- The padded message is a whole number of blocks. -/
theorem length_pad_mod (m : Bytes) : (pad m).length % 64 = 0 := by
  simp only [pad, List.length_append, List.length_cons, List.length_replicate, length_bigEndian]
  omega

/-- Fold `n` blocks into the state. -/
def compressAll : Nat → List Word → HashState → HashState
  | 0, _, s => s
  | n + 1, ws, s => compressAll n (ws.drop 16) (compress s (ws.take 16))

/-- The bytes of a state. -/
def HashState.toBytes (s : HashState) : Bytes :=
  [s.a, s.b, s.c, s.d, s.e, s.f, s.g, s.h].flatMap fun w => bigEndian w 4

/-- `hashlib.sha256(m).digest()`. -/
def sha256 (m : Bytes) : Bytes :=
  let ws := toWords (pad m)
  (compressAll (ws.length / 16) ws initialState).toBytes

/-- **A digest has 32 bytes.** -/
@[simp] theorem length_sha256 (m : Bytes) : (sha256 m).length = 32 := by
  simp [sha256, HashState.toBytes]

set_option maxRecDepth 4096 in
example : (sha256 []).take 4 = [0xe3, 0xb0, 0xc4, 0x42] := by decide +kernel

/-! ## Collision-freeness -/

/-- No two strings of `S` have the same digest. -/
def CollisionFree (S : List Bytes) : Prop :=
  ∀ s ∈ S, ∀ t ∈ S, sha256 s = sha256 t → s = t

/-- Fewer strings, fewer collisions. -/
theorem CollisionFree.mono {S T : List Bytes} (h : CollisionFree T) (hST : ∀ s ∈ S, s ∈ T) :
    CollisionFree S :=
  fun s hs t ht => h s (hST s hs) t (hST t ht)

/-- A single string does not collide with itself. -/
theorem collisionFree_of_forall_eq {S : List Bytes} {s : Bytes} (h : ∀ t ∈ S, t = s) :
    CollisionFree S := by
  intro t ht u hu _
  rw [h t ht, h u hu]

/-- Two strings with different digests do not collide. -/
theorem collisionFree_of_forall_or {S : List Bytes} {s t : Bytes} (h : ∀ u ∈ S, u = s ∨ u = t)
    (hst : sha256 s ≠ sha256 t) : CollisionFree S := by
  intro u hu v hv heq
  rcases h u hu with rfl | rfl <;> rcases h v hv with rfl | rfl
  · rfl
  · exact absurd heq hst
  · exact absurd heq.symm hst
  · rfl

/-- Strings whose digests start differently do not collide. -/
theorem collisionFree_of_digests {S T digests : List Bytes} (hS : ∀ s ∈ S, s ∈ T)
    (hdigests : T.map (fun s => (sha256 s).take 2) = digests) (hnodup : digests.Nodup) :
    CollisionFree S := by
  intro s hs t ht heq
  rw [← hdigests] at hnodup
  exact List.inj_on_of_nodup_map hnodup (hS s hs) (hS t ht) (by rw [heq])

end OpenWright.Hash
