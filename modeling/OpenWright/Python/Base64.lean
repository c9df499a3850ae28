import OpenWright.Python.Str

/-! # Base64

`base64.b64encode` and the lenient `base64.b64decode` of Python: characters outside the alphabet are
skipped, and a complete padding ends the input. `b64decode_b64encode` is the round trip. -/

namespace OpenWright.Python

/-- The character of a group of six bits. -/
def base64Char (n : Nat) : CodePoint :=
  if n < 26 then cp (65 + n)
  else if n < 52 then cp (71 + n)
  else if n < 62 then cp (n - 4)
  else if n = 62 then cp 43
  else cp 47

/-- The six bits of a character. -/
def base64Value (c : CodePoint) : Option Nat :=
  if 65 ≤ c.val ∧ c.val ≤ 90 then some (c.val - 65)
  else if 97 ≤ c.val ∧ c.val ≤ 122 then some (c.val - 71)
  else if 48 ≤ c.val ∧ c.val ≤ 57 then some (c.val + 4)
  else if c = cp 43 then some 62
  else if c = cp 47 then some 63
  else none

/-- `base64.b64encode`. -/
def b64encode : Bytes → Str
  | [] => []
  | [a] => [base64Char (a.toNat / 4), base64Char (a.toNat % 4 * 16), cp 61, cp 61]
  | [a, b] => [base64Char (a.toNat / 4), base64Char (a.toNat % 4 * 16 + b.toNat / 16),
      base64Char (b.toNat % 16 * 4), cp 61]
  | a :: b :: c :: s =>
    base64Char (a.toNat / 4) :: base64Char (a.toNat % 4 * 16 + b.toNat / 16)
      :: base64Char (b.toNat % 16 * 4 + c.toNat / 64) :: base64Char (c.toNat % 64) :: b64encode s

/-- The decoding loop: `quad` characters of the current group are read, `left` are the bits of them
not yet written, `pads` padding characters have been seen. -/
def b64decodeLoop (quad left pads : Nat) : Str → Option Bytes
  | [] => if quad = 0 then some [] else none
  | c :: s =>
    -- padding ends a group that has at least two characters, and is skipped before
    if c = cp 61 then
      if 2 ≤ quad then
        if 4 ≤ quad + (pads + 1) then some [] else b64decodeLoop quad left (pads + 1) s
      else b64decodeLoop quad left pads s
    else
      match base64Value c with
      -- what is not in the alphabet is skipped
      | none => b64decodeLoop quad left pads s
      | some v =>
        match quad with
        | 0 => b64decodeLoop 1 v 0 s
        | 1 => (b64decodeLoop 2 (v % 16) 0 s).map (UInt8.ofNat (left * 4 + v / 16) :: ·)
        | 2 => (b64decodeLoop 3 (v % 4) 0 s).map (UInt8.ofNat (left * 16 + v / 4) :: ·)
        | _ => (b64decodeLoop 0 0 0 s).map (UInt8.ofNat (left * 64 + v) :: ·)

/-- `base64.b64decode` of a string, `none` for its `ValueError`. -/
def b64decode (s : Str) : Option Bytes :=
  if s.all fun c => c.val < 128 then b64decodeLoop 0 0 0 s else none

/-- A character of the alphabet is read back, is ASCII and is no padding. -/
theorem base64Char_spec : ∀ n < 64, base64Value (base64Char n) = some n ∧ base64Char n ≠ cp 61 ∧
    (base64Char n).val < 128 := by
  decide

/-- Encoded text is ASCII. -/
theorem b64encode_ascii (s : Bytes) : ∀ c ∈ b64encode s, c.val < 128 := by
  -- three bytes give four digits of the alphabet, and the rest is padded
  induction s using b64encode.induct with
  | case1 => intro c hc; exact absurd hc List.not_mem_nil
  | case2 a =>
      have ha := a.toNat_lt
      have h₁ := (base64Char_spec (a.toNat / 4) (by omega)).2.2
      have h₂ := (base64Char_spec (a.toNat % 4 * 16) (by omega)).2.2
      intro c hc
      simp only [b64encode, List.mem_cons, List.not_mem_nil, or_false] at hc
      rcases hc with rfl | rfl | rfl | rfl
      exacts [h₁, h₂, by decide, by decide]
  | case3 a b =>
      have ha := a.toNat_lt
      have hb := b.toNat_lt
      have h₁ := (base64Char_spec (a.toNat / 4) (by omega)).2.2
      have h₂ := (base64Char_spec (a.toNat % 4 * 16 + b.toNat / 16) (by omega)).2.2
      have h₃ := (base64Char_spec (b.toNat % 16 * 4) (by omega)).2.2
      intro c hc
      simp only [b64encode, List.mem_cons, List.not_mem_nil, or_false] at hc
      rcases hc with rfl | rfl | rfl | rfl
      exacts [h₁, h₂, h₃, by decide]
  | case4 a b d s ih =>
      have ha := a.toNat_lt
      have hb := b.toNat_lt
      have hd := d.toNat_lt
      have h₁ := (base64Char_spec (a.toNat / 4) (by omega)).2.2
      have h₂ := (base64Char_spec (a.toNat % 4 * 16 + b.toNat / 16) (by omega)).2.2
      have h₃ := (base64Char_spec (b.toNat % 16 * 4 + d.toNat / 64) (by omega)).2.2
      have h₄ := (base64Char_spec (d.toNat % 64) (by omega)).2.2
      intro c hc
      simp only [b64encode, List.mem_cons] at hc
      rcases hc with rfl | rfl | rfl | rfl | hc
      exacts [h₁, h₂, h₃, h₄, ih c hc]

section Loop

variable {n : Nat} (hn : n < 64) (left pads : Nat) (s : Str)
include hn

/-- The first character of a group. -/
theorem b64decodeLoop_first :
    b64decodeLoop 0 left pads (base64Char n :: s) = b64decodeLoop 1 n 0 s := by
  obtain ⟨hv, hpad, -⟩ := base64Char_spec n hn
  rw [b64decodeLoop, if_neg hpad, hv]
  rfl

/-- The second character of a group completes a byte. -/
theorem b64decodeLoop_second : b64decodeLoop 1 left pads (base64Char n :: s)
    = (b64decodeLoop 2 (n % 16) 0 s).map (UInt8.ofNat (left * 4 + n / 16) :: ·) := by
  obtain ⟨hv, hpad, -⟩ := base64Char_spec n hn
  rw [b64decodeLoop, if_neg hpad, hv]
  rfl

/-- The third character of a group completes a byte. -/
theorem b64decodeLoop_third : b64decodeLoop 2 left pads (base64Char n :: s)
    = (b64decodeLoop 3 (n % 4) 0 s).map (UInt8.ofNat (left * 16 + n / 4) :: ·) := by
  obtain ⟨hv, hpad, -⟩ := base64Char_spec n hn
  rw [b64decodeLoop, if_neg hpad, hv]
  rfl

/-- The fourth character of a group completes a byte. -/
theorem b64decodeLoop_fourth : b64decodeLoop 3 left pads (base64Char n :: s)
    = (b64decodeLoop 0 0 0 s).map (UInt8.ofNat (left * 64 + n) :: ·) := by
  obtain ⟨hv, hpad, -⟩ := base64Char_spec n hn
  rw [b64decodeLoop, if_neg hpad, hv]
  rfl

end Loop

/-- The byte with number `n`. -/
theorem ofNat_eq {n : Nat} {a : UInt8} (h : n = a.toNat) : UInt8.ofNat n = a := by
  rw [h, UInt8.ofNat_toNat]

/-- The loop reads encoded text back. -/
theorem b64decodeLoop_b64encode (s : Bytes) (left pads : Nat) :
    b64decodeLoop 0 left pads (b64encode s) = some s := by
  -- four digits give back the three bytes they were made of
  induction s using b64encode.induct generalizing left pads with
  | case1 => rfl
  | case2 a =>
      have ha := a.toNat_lt
      rw [b64encode, b64decodeLoop_first (by omega), b64decodeLoop_second (by omega),
        ofNat_eq (show a.toNat / 4 * 4 + a.toNat % 4 * 16 / 16 = a.toNat by omega)]
      rfl
  | case3 a b =>
      have ha := a.toNat_lt
      have hb := b.toNat_lt
      rw [b64encode, b64decodeLoop_first (by omega), b64decodeLoop_second (by omega),
        b64decodeLoop_third (by omega),
        ofNat_eq (show a.toNat / 4 * 4 + (a.toNat % 4 * 16 + b.toNat / 16) / 16 = a.toNat by omega),
        ofNat_eq (show (a.toNat % 4 * 16 + b.toNat / 16) % 16 * 16 + b.toNat % 16 * 4 / 4 = b.toNat
          by omega)]
      rfl
  | case4 a b c s ih =>
      have ha := a.toNat_lt
      have hb := b.toNat_lt
      have hc := c.toNat_lt
      rw [b64encode, b64decodeLoop_first (by omega), b64decodeLoop_second (by omega),
        b64decodeLoop_third (by omega), b64decodeLoop_fourth (by omega), ih,
        ofNat_eq (show a.toNat / 4 * 4 + (a.toNat % 4 * 16 + b.toNat / 16) / 16 = a.toNat by omega),
        ofNat_eq (show (a.toNat % 4 * 16 + b.toNat / 16) % 16 * 16
          + (b.toNat % 16 * 4 + c.toNat / 64) / 4 = b.toNat by omega),
        ofNat_eq (show (b.toNat % 16 * 4 + c.toNat / 64) % 4 * 64 + c.toNat % 64 = c.toNat
          by omega)]
      rfl

/-- **`base64.b64decode` inverts `base64.b64encode`.** -/
@[simp] theorem b64decode_b64encode (s : Bytes) : b64decode (b64encode s) = some s := by
  have hascii : (b64encode s).all (fun c => c.val < 128) = true :=
    List.all_eq_true.mpr fun c hc => decide_eq_true (b64encode_ascii s c hc)
  rw [b64decode, if_pos hascii, b64decodeLoop_b64encode]

end OpenWright.Python
