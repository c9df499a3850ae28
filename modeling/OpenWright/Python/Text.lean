import OpenWright.Python.Json
import OpenWright.Lines

/-! # Text files

What a text file opened with `encoding="utf-8"` shows of its bytes: strict UTF-8 decoding, universal
newlines, lines; and `json.loads` of text and of bytes.

* **`decodeUtf8_of_utf8`** — decoding inverts encoding.
* **`loads_lineText`**, **`loadsBytes_utf8`** — a value written on a line of its own is read back. -/

namespace OpenWright.Python

/-! ## Decoding -/

/-- Decode at most `fuel` characters. A character is read only from the bytes it is encoded by. -/
def decodeUtf8Aux (encode : CodePoint → Option Bytes) : Nat → Bytes → Option Str
  | _, [] => some []
  | 0, _ :: _ => none
  | fuel + 1, a :: b =>
    match utf8Head (a :: b) with
    | none => none
    | some (n, s) =>
      if n < 0x110000 ∧ encode (cp n) = some ((a :: b).take ((a :: b).length - s.length)) then
        (decodeUtf8Aux encode fuel s).map (cp n :: ·)
      else none

/-- `b.decode("utf-8")`, `none` for Python's `UnicodeDecodeError`. -/
def decodeUtf8 (b : Bytes) : Option Str := decodeUtf8Aux utf8Char b.length b

/-- Encoding one character more. -/
theorem utf8_cons_eq_some {c : CodePoint} {s : Str} {b : Bytes} :
    utf8 (c :: s) = some b ↔ ∃ x y, utf8Char c = some x ∧ utf8 s = some y ∧ x ++ y = b := by
  simp [utf8, Option.bind_eq_some_iff]

/-- Encoding is done character by character. -/
theorem utf8_append {s t : Str} {a b : Bytes} (hs : utf8 s = some a) (ht : utf8 t = some b) :
    utf8 (s ++ t) = some (a ++ b) := by
  induction s generalizing a with
  | nil =>
      obtain rfl : [] = a := by simpa [utf8] using hs
      exact ht
  | cons c s ih =>
      obtain ⟨x, y, hx, hy, rfl⟩ := utf8_cons_eq_some.mp hs
      rw [List.cons_append, List.append_assoc]
      exact utf8_cons_eq_some.mpr ⟨x, y ++ b, hx, ih hy, rfl⟩

/-- What is encoded with more after it is encoded. -/
theorem utf8_append_eq_some {s t : Str} {b : Bytes} (h : utf8 (s ++ t) = some b) :
    ∃ x y, utf8 s = some x ∧ utf8 t = some y ∧ b = x ++ y := by
  induction s generalizing b with
  | nil => exact ⟨[], b, rfl, h, rfl⟩
  | cons c s ih =>
      obtain ⟨x, y, hx, hy, rfl⟩ := utf8_cons_eq_some.mp h
      obtain ⟨x', y', hx', hy', rfl⟩ := ih hy
      exact ⟨x ++ x', y', utf8_cons_eq_some.mpr ⟨x, x', hx, hx', rfl⟩, hy',
        (List.append_assoc x x' y').symm⟩

/-- **Decoding inverts encoding**, given enough fuel. -/
theorem decodeUtf8Aux_of_utf8 {encode : CodePoint → Option Bytes}
    (hencode : ∀ {c x}, utf8Char c = some x → encode c = some x) {s : Str} {b : Bytes}
    (h : utf8 s = some b) {fuel : Nat} (hfuel : b.length ≤ fuel) :
    decodeUtf8Aux encode fuel b = some s := by
  induction s generalizing b fuel with
  | nil =>
      obtain rfl : [] = b := by simpa [utf8] using h
      rw [decodeUtf8Aux]
  | cons c s ih =>
      obtain ⟨x, y, hx, hy, rfl⟩ := utf8_cons_eq_some.mp h
      cases x with
      | nil => exact absurd hx utf8Char_ne_nil
      | cons a x =>
          -- a character takes at least one byte, and so does a round of the loop
          obtain ⟨fuel, rfl⟩ : ∃ n, fuel = n + 1 := ⟨fuel - 1, by simp at hfuel; omega⟩
          have hhead := utf8Head_utf8Char hx y
          have hchar : cp c.val = c := Fin.ofNat_val_eq_self c
          -- what is in front of the rest is what encodes the character
          have hpre : (a :: x ++ y).take ((a :: x ++ y).length - y.length) = a :: x := by
            rw [List.length_append, Nat.add_sub_cancel, List.take_left]
          have hrest : y.length ≤ fuel := by simp at hfuel; omega
          rw [List.cons_append] at hhead hpre ⊢
          rw [decodeUtf8Aux, hhead]
          dsimp only
          rw [hpre, hchar, if_pos ⟨c.isLt, hencode hx⟩, ih hy hrest]
          rfl

/-- **Decoding inverts encoding.** -/
theorem decodeUtf8_of_utf8 {s : Str} {b : Bytes} (h : utf8 s = some b) : decodeUtf8 b = some s :=
  decodeUtf8Aux_of_utf8 id h (le_refl _)

/-! ## Newlines -/

/-- An ASCII character is the only one encoded with its byte. -/
theorem ascii_not_mem_utf8Char {n : Nat} (hn : n < 128) {c : CodePoint} {b : Bytes}
    (h : utf8Char c = some b) (hc : c.val ≠ n) : UInt8.ofNat n ∉ b := by
  have hlt : c.val < 0x110000 := c.isLt
  have hn' : n < 256 := by omega
  have byte : ∀ {m : Nat}, m < 256 → m ≠ n → UInt8.ofNat n ≠ UInt8.ofNat m := by
    intro m hm hne heq
    have hval := congrArg UInt8.toNat heq
    rw [UInt8.toNat_ofNat_of_lt' hn', UInt8.toNat_ofNat_of_lt' hm] at hval
    exact hne hval.symm
  -- the bytes of a character of several are all at least 128
  unfold utf8Char at h
  split_ifs at h
  · rw [← Option.some.inj h]
    simpa using byte (by omega) hc
  · rw [← Option.some.inj h]
    simp only [List.mem_cons, List.not_mem_nil, or_false, not_or]
    exact ⟨byte (by omega) (by omega), byte (by omega) (by omega)⟩
  · rw [← Option.some.inj h]
    simp only [List.mem_cons, List.not_mem_nil, or_false, not_or]
    exact ⟨byte (by omega) (by omega), byte (by omega) (by omega), byte (by omega) (by omega)⟩
  · rw [← Option.some.inj h]
    simp only [List.mem_cons, List.not_mem_nil, or_false, not_or]
    exact ⟨byte (by omega) (by omega), byte (by omega) (by omega), byte (by omega) (by omega),
      byte (by omega) (by omega)⟩

/-- Text without an ASCII character is encoded without its byte. -/
theorem ascii_not_mem_utf8 {n : Nat} (hn : n < 128) {s : Str} {b : Bytes} (h : utf8 s = some b)
    (hs : ∀ c ∈ s, c.val ≠ n) : UInt8.ofNat n ∉ b := by
  induction s generalizing b with
  | nil =>
      obtain rfl : [] = b := by simpa [utf8] using h
      exact List.not_mem_nil
  | cons c s ih =>
      obtain ⟨x, y, hx, hy, rfl⟩ := utf8_cons_eq_some.mp h
      rw [List.mem_append, not_or]
      exact ⟨ascii_not_mem_utf8Char hn hx (hs c List.mem_cons_self),
        ih hy fun d hd => hs d (List.mem_cons_of_mem c hd)⟩

/-- Universal newlines: `\r\n` and `\r` are read as `\n`. -/
def universalNewlines : Str → Str
  | [] => []
  | [c] => if c = cp 13 then [cp 10] else [c]
  | c :: d :: s =>
    if c = cp 13 then
      if d = cp 10 then cp 10 :: universalNewlines s else cp 10 :: universalNewlines (d :: s)
    else c :: universalNewlines (d :: s)

/-- Text without carriage returns is read as it is. -/
theorem universalNewlines_of_not_mem {s : Str} (h : cp 13 ∉ s) : universalNewlines s = s := by
  induction s with
  | nil => rfl
  | cons c s ih =>
      rw [List.mem_cons, not_or] at h
      cases s with
      | nil => rw [universalNewlines, if_neg (Ne.symm h.1)]
      | cons d s => rw [universalNewlines, if_neg (Ne.symm h.1), ih h.2]

/-- `c.isspace()`. -/
def isSpace (c : CodePoint) : Bool :=
  (9 ≤ c.val ∧ c.val ≤ 13) ∨ (28 ≤ c.val ∧ c.val ≤ 32) ∨ c.val = 0x85 ∨ c.val = 0xA0 ∨ c.val = 0x1680
    ∨ (0x2000 ≤ c.val ∧ c.val ≤ 0x200A) ∨ c.val = 0x2028 ∨ c.val = 0x2029 ∨ c.val = 0x202F
    ∨ c.val = 0x205F ∨ c.val = 0x3000

/-- Whether `s.strip()` is not empty. -/
def nonblank (s : Str) : Bool := s.any fun c => !isSpace c

/-- Whether `b.strip()` is not empty. -/
def nonblankBytes (b : Bytes) : Bool := b.any fun a => !(a.toNat = 32 ∨ (9 ≤ a.toNat ∧ a.toNat ≤ 13))

/-! ## JSON -/

/-- `json.loads` of text. -/
def loads (s : Str) : Except PyErr Val :=
  match Json.read s with
  | some v => .ok v
  | none => .error { kind := .jsonDecodeError }

/-- The UTF-8 encoding of a code point, of a surrogate as well. -/
def utf8CharPass (c : CodePoint) : Option Bytes :=
  if 0xD800 ≤ c.val ∧ c.val < 0xE000 then
    some [UInt8.ofNat (0xE0 + c.val / 0x1000), UInt8.ofNat (0x80 + c.val / 0x40 % 0x40),
      UInt8.ofNat (0x80 + c.val % 0x40)]
  else utf8Char c

/-- The code units of two bytes, `none` where the last is torn. -/
def units16 (big : Bool) : Bytes → Option (List Nat)
  | [] => some []
  | a :: b :: s =>
    (units16 big s).map ((if big then a.toNat * 256 + b.toNat else b.toNat * 256 + a.toNat) :: ·)
  | _ => none

/-- The code units of four bytes, `none` where the last is torn. -/
def units32 (big : Bool) : Bytes → Option (List Nat)
  | [] => some []
  | a :: b :: c :: d :: s =>
    (units32 big s).map <| List.cons <|
      if big then ((a.toNat * 256 + b.toNat) * 256 + c.toNat) * 256 + d.toNat
      else ((d.toNat * 256 + c.toNat) * 256 + b.toNat) * 256 + a.toNat
  | _ => none

/-- The characters of code units of two bytes. A surrogate without its pair is a character. -/
def joinSurrogates : List Nat → Str
  | [] => []
  | [u] => [cp u]
  | u :: l :: us =>
    if (0xD800 ≤ u ∧ u < 0xDC00) ∧ (0xDC00 ≤ l ∧ l < 0xE000) then
      cp (0x10000 + (u - 0xD800) * 0x400 + (l - 0xDC00)) :: joinSurrogates us
    else cp u :: joinSurrogates (l :: us)

/-- The encodings that JSON is read in; `big` where the first byte of a unit is the high one. -/
inductive Encoding
  | utf8
  | utf16 (big : Bool)
  | utf32 (big : Bool)

/-- `b.decode(encoding, "surrogatepass")`. -/
def Encoding.decode (b : Bytes) : Encoding → Option Str
  | utf8 => decodeUtf8Aux utf8CharPass b.length b
  | utf16 big => (units16 big b).map joinSurrogates
  | utf32 big =>
    (units32 big b).bind fun us => if us.all (· < 0x110000) then some (us.map cp) else none

/-- `json.detect_encoding`, and the length of the byte order mark. -/
def detectEncoding (b : Bytes) : Encoding × Nat :=
  if [0, 0, 0xFE, 0xFF].isPrefixOf b then (.utf32 true, 4)
  else if [0xFF, 0xFE, 0, 0].isPrefixOf b then (.utf32 false, 4)
  else if [0xFE, 0xFF].isPrefixOf b then (.utf16 true, 2)
  else if [0xFF, 0xFE].isPrefixOf b then (.utf16 false, 2)
  else if [0xEF, 0xBB, 0xBF].isPrefixOf b then (.utf8, 3)
  -- without a mark, the zeros among the first four bytes tell
  else
    match b with
    | [a, b] =>
      if a = 0 then (.utf16 true, 0) else if b = 0 then (.utf16 false, 0) else (.utf8, 0)
    | a :: b :: c :: d :: _ =>
      if a = 0 then if b ≠ 0 then (.utf16 true, 0) else (.utf32 true, 0)
      else if b = 0 then if c ≠ 0 ∨ d ≠ 0 then (.utf16 false, 0) else (.utf32 false, 0)
      else (.utf8, 0)
    | _ => (.utf8, 0)

/-- `json.loads` of bytes. -/
def loadsBytes (b : Bytes) : Except PyErr Val :=
  match (detectEncoding b).1.decode (b.drop (detectEncoding b).2) with
  | some s => loads s
  | none => .error { kind := .unicodeDecodeError }

/-- Text that starts with a brace and has no null is taken for UTF-8. -/
theorem detectEncoding_of_brace {b : Bytes} (h : (0 : UInt8) ∉ 123 :: b) :
    detectEncoding (123 :: b) = (.utf8, 0) := by
  have hne (a : UInt8) (ha : a ∈ b) : a ≠ 0 := by
    rintro rfl
    exact h (List.mem_cons_of_mem _ ha)
  match b with
  | [] => rfl
  | [a] =>
      have ha := hne a (by simp)
      simp [detectEncoding, List.isPrefixOf, ha]
  | [a, c] => simp [detectEncoding, List.isPrefixOf]
  | a :: c :: d :: b =>
      have ha := hne a (by simp)
      simp [detectEncoding, List.isPrefixOf, ha]

/-! ## A value on a line of its own -/

/-- The line a value is written on. -/
def lineText (v : Val) : Str := Json.dumps v ++ [cp 10]

/-- **The text of the line is read back.** -/
theorem loads_lineText {v : Val} (h : Json.IsJson v) : loads (lineText v) = .ok v := by
  have hstops : Json.Stops [cp 10] := Json.stops_cons (by decide) []
  have hread : Json.readValue (lineText v).length (lineText v) = some (v, [cp 10]) := by
    refine Json.readsDumps h _ _ ?_ hstops
    rw [lineText, List.length_append]
    exact Nat.le_add_right _ _
  have hspace : Json.skipSpace [cp 10] = [] := by decide
  rw [loads, Json.read, hread]
  simp only [hspace, if_true]

/-- The characters of a line are printable up to the newline. -/
theorem mem_lineText {v : Val} {c : CodePoint} (hc : c ∈ lineText v) :
    0x20 ≤ c.val ∨ c = cp 10 := by
  rcases List.mem_append.mp hc with hmem | hmem
  · exact Or.inl (Json.printable_dumps v c hmem)
  · exact Or.inr (List.mem_singleton.mp hmem)

/-- A line has no carriage return. -/
theorem carriageReturn_not_mem_lineText (v : Val) : cp 13 ∉ lineText v := by
  intro h
  rcases mem_lineText h with hle | heq
  · exact absurd hle (by decide)
  · exact absurd heq (by decide)

/-- The text of a line is a line. -/
theorem isLine_lineText (v : Val) : Lines.IsLine (cp 10) (lineText v) := by
  refine ⟨Json.dumps v, fun h => ?_, rfl⟩
  exact absurd (Json.printable_dumps v _ h) (by decide)

/-- A line that is encoded is the encoded text and the newline. -/
theorem utf8_lineText {v : Val} {line : Bytes} (h : utf8 (lineText v) = some line) :
    ∃ body, utf8 (Json.dumps v) = some body ∧ line = body ++ [10] := by
  obtain ⟨x, y, hx, hy, rfl⟩ := utf8_append_eq_some h
  have hnewline : utf8 [cp 10] = some [10] := by decide
  rw [hnewline, Option.some.injEq] at hy
  exact ⟨x, hx, by rw [← hy]⟩

/-- The bytes of a line are a line. -/
theorem isLine_utf8 {v : Val} {line : Bytes} (h : utf8 (lineText v) = some line) :
    Lines.IsLine 10 line := by
  obtain ⟨body, hbody, rfl⟩ := utf8_lineText h
  refine ⟨body, ?_, rfl⟩
  refine ascii_not_mem_utf8 (n := 10) (by decide) hbody fun c hc hval => ?_
  have hprintable := Json.printable_dumps v c hc
  omega

/-- The line of a dictionary starts with a brace. -/
theorem utf8_lineText_dict {kvs : Items} {line : Bytes}
    (h : utf8 (lineText (.dict kvs)) = some line) : ∃ rest, line = 123 :: rest := by
  obtain ⟨s, hs⟩ : ∃ s, lineText (.dict kvs) = cp 123 :: s := ⟨_, rfl⟩
  rw [hs] at h
  obtain ⟨x, y, hx, -, rfl⟩ := utf8_cons_eq_some.mp h
  have hbrace : utf8Char (cp 123) = some [123] := by decide
  rw [hbrace, Option.some.injEq] at hx
  exact ⟨y, by rw [← hx]; rfl⟩

/-- **The bytes of the line are read back.** -/
theorem loadsBytes_utf8 {kvs : Items} {line : Bytes} (hjson : Json.IsJson (.dict kvs))
    (h : utf8 (lineText (.dict kvs)) = some line) : loadsBytes line = .ok (.dict kvs) := by
  obtain ⟨rest, hbrace⟩ := utf8_lineText_dict h
  have hnul : (0 : UInt8) ∉ line := by
    refine ascii_not_mem_utf8 (n := 0) (by decide) h fun c hc hval => ?_
    rcases mem_lineText hc with hle | heq
    · omega
    · rw [heq] at hval
      exact absurd hval (by decide)
  subst hbrace
  have hpass : ∀ {c x}, utf8Char c = some x → utf8CharPass c = some x := by
    intro c x hx
    have hsurrogate : ¬(0xD800 ≤ c.val ∧ c.val < 0xE000) := by
      intro hc
      rw [utf8Char, if_neg (by omega), if_neg (by omega), if_pos (by omega), if_pos hc] at hx
      cases hx
    rw [utf8CharPass, if_neg hsurrogate, hx]
  have hdecode : Encoding.utf8.decode (123 :: rest) = some (lineText (.dict kvs)) :=
    decodeUtf8Aux_of_utf8 hpass h (le_refl _)
  rw [loadsBytes, detectEncoding_of_brace hnul]
  simp only [List.drop_zero, hdecode]
  exact loads_lineText hjson

/-- The line of a dictionary is not blank, as text. -/
theorem nonblank_lineText (kvs : Items) : nonblank (lineText (.dict kvs)) = true :=
  List.any_eq_true.mpr ⟨cp 123, List.mem_cons_self, by decide⟩

/-- The line of a dictionary is not blank, as bytes. -/
theorem nonblankBytes_utf8 {kvs : Items} {line : Bytes}
    (h : utf8 (lineText (.dict kvs)) = some line) : nonblankBytes line = true := by
  obtain ⟨rest, rfl⟩ := utf8_lineText_dict h
  exact List.any_eq_true.mpr ⟨123, List.mem_cons_self, by decide⟩

end OpenWright.Python
