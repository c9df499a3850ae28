import Mathlib.Data.List.Basic
import Mathlib.Tactic.Common

/-! # Strings and byte strings

A Python string is a list of code points, lone surrogates included: a surrogate is what makes
`str.encode("utf-8")` fail. Byte strings are lists of bytes. Besides the literal embedding this
module has the UTF-8 codec, the hexadecimal codec of `bytes.hex` and `bytes.fromhex`, and the parts
of `str.split` the development needs. -/

namespace OpenWright

/-- A Python `bytes`. -/
abbrev Bytes := List UInt8

namespace Python

/-- A Unicode code point, surrogates included. -/
abbrev CodePoint := Fin 0x110000

/-- A Python `str`. -/
abbrev Str := List CodePoint

/-- The comparison of strings decides equality. -/
instance instLawfulBEqStr : LawfulBEq Str := inferInstance

/-- The code point of a natural number (taken modulo the number of code points). -/
abbrev cp (n : Nat) : CodePoint := Fin.ofNat 0x110000 n

/-! ## UTF-8 -/

/-- The UTF-8 encoding of a code point; a surrogate has none. -/
def utf8Char (c : CodePoint) : Option Bytes :=
  if c.val < 0x80 then some [UInt8.ofNat c.val]
  else if c.val < 0x800 then
    some [UInt8.ofNat (0xC0 + c.val / 0x40), UInt8.ofNat (0x80 + c.val % 0x40)]
  else if c.val < 0x10000 then
    if 0xD800 ≤ c.val ∧ c.val < 0xE000 then none
    else some [UInt8.ofNat (0xE0 + c.val / 0x1000), UInt8.ofNat (0x80 + c.val / 0x40 % 0x40),
      UInt8.ofNat (0x80 + c.val % 0x40)]
  else some [UInt8.ofNat (0xF0 + c.val / 0x40000), UInt8.ofNat (0x80 + c.val / 0x1000 % 0x40),
      UInt8.ofNat (0x80 + c.val / 0x40 % 0x40), UInt8.ofNat (0x80 + c.val % 0x40)]

/-- The UTF-8 encoding of a string, `none` for Python's `UnicodeEncodeError`. -/
def utf8 : Str → Option Bytes
  | [] => some []
  | c :: s => (utf8Char c).bind fun b => (utf8 s).map (b ++ ·)

/-- Read one code point off the front of a UTF-8 byte string. -/
def utf8Head : Bytes → Option (Nat × Bytes)
  | [] => none
  | a :: s =>
    if a.toNat < 0x80 then some (a.toNat, s)
    else if a.toNat < 0xE0 then
      match s with
      | b :: s => some ((a.toNat - 0xC0) * 0x40 + (b.toNat - 0x80), s)
      | _ => none
    else if a.toNat < 0xF0 then
      match s with
      | b :: c :: s =>
        some ((a.toNat - 0xE0) * 0x1000 + (b.toNat - 0x80) * 0x40 + (c.toNat - 0x80), s)
      | _ => none
    else
      match s with
      | b :: c :: d :: s =>
        some ((a.toNat - 0xF0) * 0x40000 + (b.toNat - 0x80) * 0x1000 + (c.toNat - 0x80) * 0x40
          + (d.toNat - 0x80), s)
      | _ => none

/-- Reading a one-byte code point. -/
theorem utf8Head_one {a : UInt8} (h : a.toNat < 0x80) (s : Bytes) :
    utf8Head (a :: s) = some (a.toNat, s) := by
  unfold utf8Head
  exact if_pos h

/-- Reading a two-byte code point. -/
theorem utf8Head_two {a : UInt8} (h : 0xC0 ≤ a.toNat) (h' : a.toNat < 0xE0) (b : UInt8)
    (s : Bytes) :
    utf8Head (a :: b :: s) = some ((a.toNat - 0xC0) * 0x40 + (b.toNat - 0x80), s) := by
  unfold utf8Head
  exact (if_neg (by omega)).trans (if_pos h')

/-- Reading a three-byte code point. -/
theorem utf8Head_three {a : UInt8} (h : 0xE0 ≤ a.toNat) (h' : a.toNat < 0xF0) (b c : UInt8)
    (s : Bytes) : utf8Head (a :: b :: c :: s) =
      some ((a.toNat - 0xE0) * 0x1000 + (b.toNat - 0x80) * 0x40 + (c.toNat - 0x80), s) := by
  unfold utf8Head
  exact (if_neg (by omega)).trans ((if_neg (by omega)).trans (if_pos h'))

/-- Reading a four-byte code point. -/
theorem utf8Head_four {a : UInt8} (h : 0xF0 ≤ a.toNat) (b c d : UInt8) (s : Bytes) :
    utf8Head (a :: b :: c :: d :: s) = some ((a.toNat - 0xF0) * 0x40000
      + (b.toNat - 0x80) * 0x1000 + (c.toNat - 0x80) * 0x40 + (d.toNat - 0x80), s) := by
  unfold utf8Head
  exact (if_neg (by omega)).trans ((if_neg (by omega)).trans (if_neg (by omega)))

/-- Read at most `n` code points of a UTF-8 byte string. -/
def utf8Points : Nat → Bytes → Str
  | 0, _ => []
  | n + 1, s =>
    match utf8Head s with
    | some (c, rest) => cp c :: utf8Points n rest
    | none => []

/-- A string literal, read off its bytes: `String.toList` is slow to evaluate in proofs. -/
def lit (s : String) : Str := utf8Points s.toByteArray.data.toList.length s.toByteArray.data.toList

instance : Coe String Str := ⟨lit⟩

/-- The bytes of a character are read. -/
theorem utf8Head_utf8EncodeChar (c : Char) (s : Bytes) :
    utf8Head (String.utf8EncodeChar c ++ s) = some (c.toNat, s) := by
  have hc : c.toNat < 0x110000 := by
    rcases c.valid with h | h <;> simp only [Char.toNat, UInt32.toNat] at h ⊢ <;> omega
  have byte : ∀ {n : Nat}, n < 256 → (UInt8.ofNat n).toNat = n := UInt8.toNat_ofNat_of_lt'
  have hv : c.val.toNat = c.toNat := rfl
  simp only [String.utf8EncodeChar, hv]
  -- as many bytes as the code point needs
  generalize c.toNat = n at hc
  split_ifs with h₁ h₂ h₃
  · rw [List.singleton_append, utf8Head_one (by rw [byte (by omega)]; omega), byte (by omega)]
  · have h₁ := @byte (n / 64 % 0x20 + 0xc0) (by omega)
    have h₂ := @byte (n % 0x40 + 0x80) (by omega)
    rw [List.cons_append, List.singleton_append, utf8Head_two (by omega) (by omega), h₁, h₂]
    exact congrArg (fun m => some (m, s)) (by omega)
  · have h₁ := @byte (n / 4096 % 0x10 + 0xe0) (by omega)
    have h₂ := @byte (n / 64 % 0x40 + 0x80) (by omega)
    have h₃ := @byte (n % 0x40 + 0x80) (by omega)
    rw [List.cons_append, List.cons_append, List.singleton_append,
      utf8Head_three (by omega) (by omega), h₁, h₂, h₃]
    exact congrArg (fun m => some (m, s)) (by omega)
  · have h₁ := @byte (n / 262144 % 0x08 + 0xf0) (by omega)
    have h₂ := @byte (n / 4096 % 0x40 + 0x80) (by omega)
    have h₃ := @byte (n / 64 % 0x40 + 0x80) (by omega)
    have h₄ := @byte (n % 0x40 + 0x80) (by omega)
    rw [List.cons_append, List.cons_append, List.cons_append, List.singleton_append,
      utf8Head_four (by omega), h₁, h₂, h₃, h₄]
    exact congrArg (fun m => some (m, s)) (by omega)

/-- Each character has a byte at least. -/
theorem length_le_flatMap (l : List Char) : l.length ≤ (l.flatMap String.utf8EncodeChar).length := by
  rw [List.length_flatMap]
  induction l with
  | nil => exact Nat.le_refl _
  | cons c l ih =>
      have hpos := c.utf8Size_pos
      rw [List.map_cons, List.sum_cons, String.length_utf8EncodeChar, List.length_cons]
      omega

/-- The bytes of characters are read one by one. -/
theorem utf8Points_flatMap (l : List Char) :
    ∀ n, l.length ≤ n → utf8Points n (l.flatMap String.utf8EncodeChar) = l.map fun c => cp c.toNat := by
  induction l with
  | nil =>
      intro n _
      cases n <;> rfl
  | cons c l ih =>
      intro n hn
      obtain ⟨n, rfl⟩ : ∃ m, n = m + 1 := ⟨n - 1, by rw [List.length_cons] at hn; omega⟩
      rw [List.flatMap_cons, utf8Points, utf8Head_utf8EncodeChar]
      dsimp only
      rw [ih n (by simpa using hn), List.map_cons]

/-- **A literal has the code points of its characters.** -/
theorem lit_eq (s : String) : lit s = s.toList.map fun c => cp c.toNat := by
  have hbytes : s.toByteArray.data.toList = s.toList.flatMap String.utf8EncodeChar := by
    conv_lhs => rw [← String.ofList_toList (s := s), String.toByteArray_ofList, List.utf8Encode,
      List.toList_data_toByteArray]
  rw [lit, hbytes]
  exact utf8Points_flatMap _ _ (length_le_flatMap _)

/-- Reading back an encoded code point. -/
theorem utf8Head_utf8Char {c : CodePoint} {b : Bytes} (h : utf8Char c = some b) (s : Bytes) :
    utf8Head (b ++ s) = some (c.val, s) := by
  have hc : c.val < 0x110000 := c.isLt
  have byte : ∀ {n : Nat}, n < 256 → (UInt8.ofNat n).toNat = n := UInt8.toNat_ofNat_of_lt'
  unfold utf8Char at h
  -- one case for each length of the encoding
  split at h
  · obtain rfl := Option.some.inj h
    have hb : (UInt8.ofNat c.val).toNat = c.val := byte (by omega)
    rw [List.singleton_append, utf8Head_one (by omega), hb]
  · split at h
    · obtain rfl := Option.some.inj h
      have h₁ := @byte (0xC0 + c.val / 0x40) (by omega)
      have h₂ := @byte (0x80 + c.val % 0x40) (by omega)
      rw [List.cons_append, List.singleton_append, utf8Head_two (by omega) (by omega), h₁, h₂,
        show 0xC0 + c.val / 0x40 - 0xC0 = c.val / 0x40 by omega,
        show 0x80 + c.val % 0x40 - 0x80 = c.val % 0x40 by omega,
        show c.val / 0x40 * 0x40 + c.val % 0x40 = c.val by omega]
    · split at h
      · split at h
        · exact absurd h (by simp)
        · obtain rfl := Option.some.inj h
          have h₁ := @byte (0xE0 + c.val / 0x1000) (by omega)
          have h₂ := @byte (0x80 + c.val / 0x40 % 0x40) (by omega)
          have h₃ := @byte (0x80 + c.val % 0x40) (by omega)
          rw [List.cons_append, List.cons_append, List.singleton_append,
            utf8Head_three (by omega) (by omega), h₁, h₂, h₃,
            show (0xE0 + c.val / 0x1000 - 0xE0) * 0x1000 + (0x80 + c.val / 0x40 % 0x40 - 0x80) * 0x40
              + (0x80 + c.val % 0x40 - 0x80) = c.val by omega]
      · obtain rfl := Option.some.inj h
        have h₁ := @byte (0xF0 + c.val / 0x40000) (by omega)
        have h₂ := @byte (0x80 + c.val / 0x1000 % 0x40) (by omega)
        have h₃ := @byte (0x80 + c.val / 0x40 % 0x40) (by omega)
        have h₄ := @byte (0x80 + c.val % 0x40) (by omega)
        rw [List.cons_append, List.cons_append, List.cons_append, List.singleton_append,
          utf8Head_four (by omega), h₁, h₂, h₃, h₄,
          show (0xF0 + c.val / 0x40000 - 0xF0) * 0x40000
            + (0x80 + c.val / 0x1000 % 0x40 - 0x80) * 0x1000
            + (0x80 + c.val / 0x40 % 0x40 - 0x80) * 0x40 + (0x80 + c.val % 0x40 - 0x80) = c.val
            by omega]

/-- No code point is encoded by the empty byte string. -/
theorem utf8Char_ne_nil {c : CodePoint} : utf8Char c ≠ some [] := by
  intro h
  have := utf8Head_utf8Char h []
  simp [utf8Head] at this

/-- **UTF-8 is injective.** -/
theorem utf8_injective : ∀ {s t : Str} {b : Bytes}, utf8 s = some b → utf8 t = some b → s = t
  | [], [], _, _, _ => rfl
  | [], c :: t, b, hs, ht => by
      obtain rfl : [] = b := by simpa [utf8] using hs
      obtain ⟨x, hx, y, hy, hxy⟩ : ∃ x, utf8Char c = some x ∧ ∃ y, utf8 t = some y ∧ x ++ y = [] :=
        by simpa [utf8, Option.bind_eq_some_iff] using ht
      exact absurd ((List.append_eq_nil_iff.mp hxy).1 ▸ hx) utf8Char_ne_nil
  | c :: s, [], b, hs, ht => by
      obtain rfl : [] = b := by simpa [utf8] using ht
      obtain ⟨x, hx, y, hy, hxy⟩ : ∃ x, utf8Char c = some x ∧ ∃ y, utf8 s = some y ∧ x ++ y = [] :=
        by simpa [utf8, Option.bind_eq_some_iff] using hs
      exact absurd ((List.append_eq_nil_iff.mp hxy).1 ▸ hx) utf8Char_ne_nil
  | c :: s, d :: t, b, hs, ht => by
      obtain ⟨x, hx, y, hy, hxy⟩ : ∃ x, utf8Char c = some x ∧ ∃ y, utf8 s = some y ∧ x ++ y = b :=
        by simpa [utf8, Option.bind_eq_some_iff] using hs
      obtain ⟨x', hx', y', hy', hxy'⟩ : ∃ x, utf8Char d = some x ∧ ∃ y, utf8 t = some y ∧ x ++ y = b
        := by simpa [utf8, Option.bind_eq_some_iff] using ht
      have h := utf8Head_utf8Char hx y
      rw [hxy, ← hxy', utf8Head_utf8Char hx' y', Option.some.injEq, Prod.mk.injEq] at h
      obtain ⟨hdc, rfl⟩ := h
      rw [Fin.ext hdc, utf8_injective hy hy']

/-! ## Hexadecimal -/

/-- A lower-case hexadecimal digit. -/
def hexDigit (n : Nat) : CodePoint := if n < 10 then cp (48 + n) else cp (87 + n)

/-- The value of a hexadecimal digit of either case. -/
def hexValue (c : CodePoint) : Option Nat :=
  if 48 ≤ c.val ∧ c.val ≤ 57 then some (c.val - 48)
  else if 97 ≤ c.val ∧ c.val ≤ 102 then some (c.val - 87)
  else if 65 ≤ c.val ∧ c.val ≤ 70 then some (c.val - 55)
  else none

/-- `bytes.hex`. -/
def hex : Bytes → Str
  | [] => []
  | b :: s => hexDigit (b.toNat / 16) :: hexDigit (b.toNat % 16) :: hex s

/-- ASCII whitespace. -/
def isAsciiSpace (c : CodePoint) : Bool := c.val = 32 ∨ (9 ≤ c.val ∧ c.val ≤ 13)

/-- `bytes.fromhex`, `none` for its `ValueError`: two digits a byte, whitespace between bytes
ignored. -/
def fromhex : Str → Option Bytes
  | [] => some []
  | [c] => if isAsciiSpace c then some [] else none
  | c :: d :: s =>
    if isAsciiSpace c then fromhex (d :: s)
    else
      match hexValue c, hexValue d with
      | some a, some b => (fromhex s).map (UInt8.ofNat (16 * a + b) :: ·)
      | _, _ => none

/-- A hexadecimal digit is read back, and is neither whitespace nor a colon. -/
theorem hexDigit_spec : ∀ n < 16, hexValue (hexDigit n) = some n ∧
    isAsciiSpace (hexDigit n) = false ∧ hexDigit n ≠ cp 58 := by
  decide

/-- **`bytes.fromhex` inverts `bytes.hex`.** -/
@[simp] theorem fromhex_hex : ∀ b : Bytes, fromhex (hex b) = some b
  | [] => rfl
  | b :: s => by
      have hb := b.toNat_lt
      obtain ⟨hhi, hsp, -⟩ := hexDigit_spec (b.toNat / 16) (by omega)
      obtain ⟨hlo, -, -⟩ := hexDigit_spec (b.toNat % 16) (by omega)
      rw [hex, fromhex, hsp, hhi, hlo]
      simp only [fromhex_hex s, Option.map_some, Bool.false_eq_true, if_false]
      rw [show 16 * (b.toNat / 16) + b.toNat % 16 = b.toNat by omega, UInt8.ofNat_toNat]

/-- Hexadecimal text has no colon. -/
theorem not_mem_hex : ∀ b : Bytes, cp 58 ∉ hex b
  | [] => List.not_mem_nil
  | b :: s => by
      have hb := b.toNat_lt
      obtain ⟨-, -, hhi⟩ := hexDigit_spec (b.toNat / 16) (by omega)
      obtain ⟨-, -, hlo⟩ := hexDigit_spec (b.toNat % 16) (by omega)
      rw [hex, List.mem_cons, List.mem_cons, not_or, not_or]
      exact ⟨hhi.symm, hlo.symm, not_mem_hex s⟩

/-! ## Splitting -/

/-- `s.split(sep)[-1]`: what follows the last `sep`. -/
def afterLast (sep : CodePoint) (s : Str) : Str :=
  (s.reverse.takeWhile (· ≠ sep)).reverse

/-- Without a separator in `t`, the text after the last one of `s ++ sep :: t` is `t`. -/
theorem afterLast_append {sep : CodePoint} (s : Str) {t : Str} (ht : sep ∉ t) :
    afterLast sep (s ++ sep :: t) = t := by
  have hall : ∀ c ∈ t.reverse, decide (c ≠ sep) = true := fun c hc => by
    rw [decide_eq_true_eq]
    rintro rfl
    exact ht (List.mem_reverse.mp hc)
  rw [afterLast, List.reverse_append, List.reverse_cons, List.append_assoc,
    List.takeWhile_append_of_pos hall]
  simp

/-- `s.split(sep)`. -/
def split (sep : CodePoint) : Str → List Str
  | [] => [[]]
  | c :: s =>
    if c = sep then [] :: split sep s
    else
      match split sep s with
      | [] => [[c]]
      | w :: ws => (c :: w) :: ws

end Python
end OpenWright
