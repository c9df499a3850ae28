import OpenWright.Encodable
import OpenWright.Python.Text

/-! # Go values

The values that Go's `encoding/json` and the evidence core written in Go work on. A string of Go is
a byte string, usually of UTF-8: a loop over it reads one rune after another, and U+FFFD for each
byte that no rune starts with. Strings are compared byte by byte.

* **`runes_utf8`**, **`bytes_le_iff`** — on text encoded in UTF-8 the loop reads the text, and the
  comparison is that of the code points. -/

namespace OpenWright.Go

open Python Canonical

/-! ## Strings -/

/-- A Go string. -/
abbrev GoString := Bytes

/-- The Go string of a text without surrogates. -/
def ofStr (s : Str) : GoString := (utf8 s).getD []

/-- A Go string literal. -/
def goLit (s : String) : GoString := ofStr (lit s)

/-- U+FFFD, which stands for bytes that are not UTF-8. -/
def runeError : CodePoint := cp 0xFFFD

/-- `utf8.DecodeRuneInString` of a string that is not empty, and what follows. A rune is read where
its encoding stands. -/
def decodeRune (a : UInt8) (s : GoString) : CodePoint × GoString :=
  match utf8Head (a :: s) with
  | some (n, rest) =>
    if n < 0x110000 ∧ utf8Char (cp n) = some ((a :: s).take ((a :: s).length - rest.length)) then
      (cp n, rest)
    else (runeError, s)
  | none => (runeError, s)

/-- The runes of a string, `fuel` of them at most. -/
def runesAux : Nat → GoString → Str
  | 0, _ => []
  | _ + 1, [] => []
  | fuel + 1, a :: s => (decodeRune a s).1 :: runesAux fuel (decodeRune a s).2

/-- The runes that `for _, r := range s` goes over. -/
def runes (s : GoString) : Str := runesAux s.length s

/-- `WriteRune`. -/
def writeRune (r : CodePoint) : Bytes := (utf8Char r).getD (ofStr [runeError])

/-- What `sort.Strings` and `<` compare. -/
def order (s : GoString) : List Nat := s.map UInt8.toNat

/-! ## Values -/

/-- A value in an `interface{}`. The entries of a map are in the order of an iteration over it. -/
inductive GoVal
  | nil
  | bool (b : Bool)
  | string (s : GoString)
  /-- `json.Number`. -/
  | number (s : GoString)
  | float64 (x : PyFloat)
  | int (z : Int)
  | int64 (z : Int)
  | slice (vs : List GoVal)
  | map (kvs : List (GoString × GoVal))
  /-- A value of any other type. -/
  | other (type : GoString)

/-- The entries of a map. -/
abbrev GoItems := List (GoString × GoVal)

instance : Inhabited GoVal := ⟨.nil⟩

/-- `sort.Strings` on the keys of entries. -/
def sortEntries {β : Type} (kvs : List (GoString × β)) : List (GoString × β) :=
  kvs.insertionSort fun a b => order a.1 ≤ order b.1

mutual
/-- The Go value of a JSON value: integers are numbers in decimal. -/
def goVal : Val → GoVal
  | .null => .nil
  | .bool b => .bool b
  | .int z => .number (ofStr (Json.intText z))
  | .float x => .float64 x
  | .str s => .string (ofStr s)
  | .list vs => .slice (goVals vs)
  | .tuple vs => .slice (goVals vs)
  | .dict kvs => .map (goItems kvs)

/-- `goVal`, elementwise. -/
def goVals : List Val → List GoVal
  | [] => []
  | v :: vs => goVal v :: goVals vs

/-- `goVal`, itemwise. -/
def goItems : Items → GoItems
  | [] => []
  | (k, v) :: kvs => (ofStr k, goVal v) :: goItems kvs
end

/-! ## Text in UTF-8 -/

/-- Text without surrogates is encoded by its Go string. -/
theorem utf8_ofStr {s : Str} (h : Scalar s) : utf8 s = some (ofStr s) := by
  obtain ⟨b, hb⟩ := exists_utf8 h
  rw [ofStr, hb, Option.getD_some]

/-- Empty text has no bytes. -/
@[simp] theorem ofStr_nil : ofStr [] = [] := rfl

/-- The Go string of joined texts. -/
theorem ofStr_append {s t : Str} (hs : Scalar s) (ht : Scalar t) :
    ofStr (s ++ t) = ofStr s ++ ofStr t := by
  rw [ofStr, utf8_append (utf8_ofStr hs) (utf8_ofStr ht), Option.getD_some]

/-- The Go string of a text, character by character. -/
theorem ofStr_cons {c : CodePoint} {s : Str} (h : Scalar (c :: s)) :
    ofStr (c :: s) = writeRune c ++ ofStr s := by
  have hc : Scalar [c] := scalar_cons.mpr ⟨(scalar_cons.mp h).1, scalar_nil⟩
  rw [show c :: s = [c] ++ s from rfl, ofStr_append hc (scalar_cons.mp h).2]
  obtain ⟨x, y, hx, hy, hxy⟩ := utf8_cons_eq_some.mp (utf8_ofStr hc)
  obtain rfl : [] = y := by simpa [utf8] using hy
  rw [writeRune, hx, Option.getD_some, ← hxy, List.append_nil]

/-- Reading an encoded character. -/
theorem decodeRune_utf8Char {c : CodePoint} {a : UInt8} {x : Bytes} (h : utf8Char c = some (a :: x))
    (s : GoString) : decodeRune a (x ++ s) = (c, s) := by
  have hhead : utf8Head (a :: (x ++ s)) = some (c.val, s) := utf8Head_utf8Char h s
  have hchar : cp c.val = c := Fin.ofNat_val_eq_self c
  have hpre : (a :: (x ++ s)).take ((a :: (x ++ s)).length - s.length) = a :: x := by
    rw [← List.cons_append, List.length_append, Nat.add_sub_cancel, List.take_left]
  rw [decodeRune, hhead]
  dsimp only
  rw [hpre, hchar, if_pos ⟨c.isLt, h⟩]

/-- The runes of encoded text are its characters, given enough fuel. -/
theorem runesAux_utf8 {s : Str} {b : Bytes} (h : utf8 s = some b) {fuel : Nat}
    (hfuel : b.length ≤ fuel) : runesAux fuel b = s := by
  induction s generalizing b fuel with
  | nil =>
      obtain rfl : [] = b := by simpa [utf8] using h
      cases fuel <;> rfl
  | cons c s ih =>
      obtain ⟨x, y, hx, hy, rfl⟩ := utf8_cons_eq_some.mp h
      cases x with
      | nil => exact absurd hx utf8Char_ne_nil
      | cons a x =>
          rw [List.cons_append, List.length_cons, List.length_append] at hfuel
          obtain ⟨fuel, rfl⟩ : ∃ n, fuel = n + 1 := ⟨fuel - 1, by omega⟩
          rw [List.cons_append, runesAux, decodeRune_utf8Char hx, ih hy (by omega)]

/-- **The runes of encoded text are its characters.** -/
theorem runes_utf8 {s : Str} (h : Scalar s) : runes (ofStr s) = s :=
  runesAux_utf8 (utf8_ofStr h) (le_refl _)

/-! ## The order of encoded text -/

/-- The smaller of two characters is encoded by the smaller bytes, whatever follows. -/
theorem order_utf8Char_lt {c d : CodePoint} {a b : Bytes} (hc : utf8Char c = some a)
    (hd : utf8Char d = some b) (h : c < d) (s t : List Nat) : order a ++ s < order b ++ t := by
  have hd' : d.val < 0x110000 := d.isLt
  have hlt : c.val < d.val := h
  have byte : ∀ {n : Nat}, n < 256 → (UInt8.ofNat n).toNat = n := UInt8.toNat_ofNat_of_lt'
  unfold utf8Char at hc hd
  -- one case for each pair of lengths; the first bytes that differ decide
  split_ifs at hc <;> split_ifs at hd <;> cases hc <;> cases hd <;>
    simp (disch := omega) only [order, List.map_cons, List.map_nil, List.cons_append,
      List.nil_append, List.cons_lt_cons_iff, byte] <;> omega

/-- Encoding keeps the order of texts. -/
theorem order_lt_of_lt {s t : Str} {a b : Bytes} (hs : utf8 s = some a) (ht : utf8 t = some b)
    (h : s < t) : order a < order b := by
  induction s generalizing t a b with
  | nil =>
      obtain rfl : [] = a := by simpa [utf8] using hs
      cases t with
      | nil => exact absurd h (lt_irrefl _)
      | cons d t =>
          obtain ⟨x, y, hx, -, rfl⟩ := utf8_cons_eq_some.mp ht
          cases x with
          | nil => exact absurd hx utf8Char_ne_nil
          | cons e x => exact List.nil_lt_cons _ _
  | cons c s ih =>
      cases t with
      | nil => exact absurd h (List.not_lt_nil _)
      | cons d t =>
          obtain ⟨x, y, hx, hy, rfl⟩ := utf8_cons_eq_some.mp hs
          obtain ⟨x', y', hx', hy', rfl⟩ := utf8_cons_eq_some.mp ht
          rw [order, order, List.map_append, List.map_append]
          rcases List.cons_lt_cons_iff.mp h with hlt | ⟨rfl, hlt⟩
          · exact order_utf8Char_lt hx hx' hlt _ _
          · obtain rfl : x = x' := Option.some.inj (hx.symm.trans hx')
            exact List.append_left_lt (ih hy hy' hlt)

/-- **Byte order is code-point order.** -/
theorem bytes_le_iff {s t : Str} (hs : Scalar s) (ht : Scalar t) :
    order (ofStr s) ≤ order (ofStr t) ↔ s ≤ t := by
  rcases lt_trichotomy s t with hlt | rfl | hlt
  · exact iff_of_true (order_lt_of_lt (utf8_ofStr hs) (utf8_ofStr ht) hlt).le hlt.le
  · exact iff_of_true (le_refl _) (le_refl _)
  · exact iff_of_false (order_lt_of_lt (utf8_ofStr ht) (utf8_ofStr hs) hlt).not_ge hlt.not_ge

end OpenWright.Go
