import OpenWright.Python.Value
import Mathlib.Algebra.Order.Field.Rat
import Mathlib.Algebra.Order.Floor.Defs
import Mathlib.Data.Nat.Log
import Mathlib.Data.Rat.Floor
import Mathlib.Tactic.Ring

/-! # JSON numbers

Integers in decimal, and floats as `float.__repr__` writes them: the shortest decimal that is rounded
back to the float. A finite float is the rational it denotes, so minus zero is zero here.

* **`readNumber_intText`** — an integer is read back from its text.
* **`ofRat_shortest`** — a float is rounded back to from its shortest decimal.
* **`readNumber_decimalText`** — the text of a decimal is read as the float next to it. -/

namespace OpenWright.Python

/-! ## Doubles -/

namespace PyFloat

/-- The largest `k` with `b ^ k ≤ q`, of a positive `q`. -/
def log (b : Nat) (q : Rat) : Int :=
  let k := (Nat.log b q.num.natAbs : Int) - Nat.log b q.den
  if (b : Rat) ^ k ≤ q then k else k - 1

/-- The nearest integer, and the even one of two that are. -/
def roundEven (q : Rat) : Int :=
  let below := q.floor
  if q - below < 1 / 2 then below
  else if 1 / 2 < q - below then below + 1
  else if below % 2 = 0 then below else below + 1

/-- The exponent of the last binary place of a double next to `q`. -/
def lastPlace (q : Rat) : Int := max (-1074) (log 2 q - 52)

/-- The nearest multiple of the last place. -/
def nearest (q : Rat) : Rat := roundEven (q / 2 ^ lastPlace q) * 2 ^ lastPlace q

/-- The float that `q` is rounded to. -/
def ofRat (q : Rat) : PyFloat :=
  let r := if q < 0 then -nearest (-q) else nearest q
  if |r| < 2 ^ (1024 : Int) then .finite r else .inf (q < 0)

/-- Whether a float is a double: what it denotes is rounded to itself. -/
def IsDouble : PyFloat → Prop
  | .finite q => ofRat q = .finite q
  | _ => True

/-- What a nonnegative number is rounded to is nearest to it. -/
theorem nearest_of_ofRat {q r : Rat} (hq : 0 ≤ q) (h : ofRat q = .finite r) : nearest q = r := by
  rw [ofRat, if_neg (not_lt.mpr hq)] at h
  split at h
  · exact finite.inj h
  · cases h

/-- Rounding does not see the sign. -/
theorem ofRat_neg {q r : Rat} (hq : q < 0) : ofRat q = .finite r ↔ ofRat (-q) = .finite (-r) := by
  have hneg : ¬-q < 0 := by linarith
  rw [ofRat, ofRat, if_pos hq, if_neg hneg, abs_neg]
  by_cases h : |nearest (-q)| < 2 ^ (1024 : Int)
  · rw [if_pos h, if_pos h, finite.injEq, finite.injEq, neg_eq_iff_eq_neg]
  · rw [if_neg h, if_neg h]
    exact iff_of_false (fun hcon => by cases hcon) fun hcon => by cases hcon

/-- Rounding to an integer goes up or down. -/
theorem roundEven_eq (q : Rat) : roundEven q = q.floor ∨ roundEven q = q.floor + 1 := by
  unfold roundEven
  dsimp only
  split_ifs
  · exact Or.inl rfl
  · exact Or.inr rfl
  · exact Or.inl rfl
  · exact Or.inr rfl

end PyFloat

/-! ## Decimals -/

namespace Json

/-- `digits * 10 ^ exponent`. -/
structure Decimal where
  digits : Nat
  exponent : Int

namespace Decimal

/-- The number it denotes. -/
def value (d : Decimal) : Rat := d.digits * 10 ^ d.exponent

/-- The decimal without trailing zeros. -/
def trim (digits : Nat) (exponent : Int) : Decimal :=
  if digits ≠ 0 ∧ digits % 10 = 0 then trim (digits / 10) (exponent + 1) else { digits, exponent }
termination_by digits

/-- The decimal of `n` digits that is nearest to `q` of those rounded to it. -/
def ofDigits (q : Rat) (n : Nat) : Option Decimal :=
  let exponent := PyFloat.log 10 q + 1 - n
  let scaled := q / 10 ^ exponent
  let back (m : Nat) : Bool := PyFloat.ofRat (value { digits := m, exponent }) = .finite q
  let below := scaled.floor.toNat
  if back below then
    if back (below + 1) then some (trim (PyFloat.roundEven scaled).toNat exponent)
    else some (trim below exponent)
  else if back (below + 1) then some (trim (below + 1) exponent)
  else none

/-- All the digits of a double. -/
def exact (q : Rat) : Decimal :=
  let place := PyFloat.lastPlace q
  let m := (PyFloat.roundEven (q / 2 ^ place)).toNat
  if 0 ≤ place then { digits := m * 2 ^ place.toNat, exponent := 0 }
  else { digits := m * 5 ^ (-place).toNat, exponent := place }

/-- The shortest decimal that is rounded to `q`: seventeen digits tell a double from all others. -/
def shortest (q : Rat) : Decimal :=
  ((List.range 17).findSome? fun n => ofDigits q (n + 1)).getD (exact q)

/-- A literal without a sign is not negative. -/
theorem value_nonneg (d : Decimal) : 0 ≤ d.value :=
  mul_nonneg (Nat.cast_nonneg _) (zpow_nonneg (by norm_num) _)

/-- Trailing zeros can be written into the exponent. -/
theorem trim_value (m : Nat) (e : Int) : (trim m e).value = value { digits := m, exponent := e } := by
  induction m using Nat.strongRecOn generalizing e with
  | ind m ih =>
      rw [trim]
      split
      · rename_i h
        have hm : m = m / 10 * 10 := by omega
        rw [ih (m / 10) (by omega), value, value]
        dsimp only
        conv_rhs => rw [hm]
        rw [zpow_add_one₀ (by norm_num)]
        push_cast
        ring
      · rfl

section Shortest

variable {q : Rat} (hq : 0 ≤ q)
include hq

/-- A decimal that is found is rounded to the number. -/
theorem ofRat_ofDigits {n : Nat} {d : Decimal} (h : ofDigits q n = some d) :
    PyFloat.ofRat d.value = .finite q := by
  have hscaled : 0 ≤ q / 10 ^ (PyFloat.log 10 q + 1 - n) :=
    div_nonneg hq (zpow_nonneg (by norm_num) _)
  have hfloor : 0 ≤ (q / 10 ^ (PyFloat.log 10 q + 1 - n)).floor := Rat.le_floor_iff.mpr hscaled
  unfold ofDigits at h
  simp only [decide_eq_true_eq] at h
  split_ifs at h with hbelow habove habove
  · -- both are, and the nearest is one of them
    rw [← Option.some.inj h, trim_value]
    rcases PyFloat.roundEven_eq (q / 10 ^ (PyFloat.log 10 q + 1 - n)) with heq | heq
    · rw [heq]
      exact hbelow
    · rw [heq, Int.toNat_add hfloor (by decide)]
      exact habove
  · rw [← Option.some.inj h, trim_value]
    exact hbelow
  · rw [← Option.some.inj h, trim_value]
    exact habove

variable (h : PyFloat.ofRat q = .finite q)
include h

/-- All the digits of a double denote it. -/
theorem exact_value : (exact q).value = q := by
  have hnearest := PyFloat.nearest_of_ofRat hq h
  rw [PyFloat.nearest] at hnearest
  have hm : 0 ≤ PyFloat.roundEven (q / 2 ^ PyFloat.lastPlace q) := by
    have hpos : (0 : Rat) < 2 ^ PyFloat.lastPlace q := zpow_pos (by norm_num) _
    rw [← hnearest] at hq
    exact_mod_cast nonneg_of_mul_nonneg_left hq hpos
  obtain ⟨m, hm'⟩ := Int.eq_ofNat_of_zero_le hm
  unfold exact
  simp only [hm', Int.toNat_natCast]
  rw [hm', Int.cast_natCast] at hnearest
  -- whole: the digits are followed by zeros
  split_ifs with hplace
  · obtain ⟨p, hp⟩ := Int.eq_ofNat_of_zero_le hplace
    rw [hp, zpow_natCast] at hnearest
    rw [value, hp, Int.toNat_natCast, zpow_zero, mul_one]
    push_cast
    exact hnearest
  · obtain ⟨p, hp⟩ : ∃ p : Nat, PyFloat.lastPlace q = -p := ⟨(-PyFloat.lastPlace q).toNat, by omega⟩
    -- with a fraction: two to the minus `p` is five to the `p` in the `p`-th decimal place
    have hten : (10 : Rat) ^ (-(p : Int)) = 2 ^ (-(p : Int)) / 5 ^ p := by
      rw [zpow_neg, zpow_neg, zpow_natCast, zpow_natCast, show (10 : Rat) = 2 * 5 by norm_num, mul_pow]
      field_simp
    rw [hp] at hnearest
    rw [value, hp, neg_neg, Int.toNat_natCast, hten]
    push_cast
    rw [mul_assoc, mul_div_cancel₀ _ (pow_ne_zero p (by norm_num : (5 : Rat) ≠ 0))]
    exact hnearest

/-- **A double is rounded back to** from its shortest decimal. -/
theorem ofRat_shortest : PyFloat.ofRat (shortest q).value = .finite q := by
  unfold shortest
  cases hfind : (List.range 17).findSome? fun n => ofDigits q (n + 1) with
  | none => rw [Option.getD_none, exact_value hq h, h]
  | some d =>
      obtain ⟨n, -, hn⟩ := List.exists_of_findSome?_eq_some hfind
      exact ofRat_ofDigits hq hn

/-- Only zero is written with the digit zero. -/
theorem shortest_digits (hzero : (shortest q).digits = 0) : q = 0 := by
  have hround := ofRat_shortest hq h
  have hofRat : PyFloat.ofRat 0 = .finite 0 := by decide +kernel
  rw [value, hzero, Nat.cast_zero, zero_mul, hofRat] at hround
  exact (PyFloat.finite.inj hround).symm

end Shortest

end Decimal

/-! ## Writing -/

/-- A natural number in decimal. -/
def natText (n : Nat) : Str :=
  if n < 10 then [cp (48 + n)] else natText (n / 10) ++ [cp (48 + n % 10)]

/-- An integer in decimal, of any size: the bound that an interpreter puts on the number of digits is
no part of it. -/
def intText (z : Int) : Str :=
  if z < 0 then cp 45 :: natText z.natAbs else natText z.natAbs

/-- An exponent, with its sign and at least two digits. -/
def exponentText (e : Int) : Str :=
  (if e < 0 then cp 45 else cp 43) ::
    ((if e.natAbs < 10 then [cp 48] else []) ++ natText e.natAbs)

/-- Digits with the point after the first `point` of them. -/
def positional (ds : Str) (point : Int) : Str :=
  if point ≤ 0 then cp 48 :: cp 46 :: (List.replicate (-point).toNat (cp 48) ++ ds)
  else if ds.length ≤ point then
    ds ++ List.replicate (point - ds.length).toNat (cp 48) ++ [cp 46, cp 48]
  else ds.take point.toNat ++ cp 46 :: ds.drop point.toNat

/-- Digits with the point after the first of them, and an exponent. -/
def scientific (ds : Str) (point : Int) : Str :=
  ds.take 1 ++ (if ds.length = 1 then [] else cp 46 :: ds.drop 1) ++ cp 101 :: exponentText (point - 1)

/-- A decimal, as `repr` writes it: with an exponent where the point is far from the digits. -/
def decimalText (d : Decimal) : Str :=
  let ds := natText d.digits
  let point := ds.length + d.exponent
  if -4 < point ∧ point ≤ 16 then positional ds point else scientific ds point

/-- A float, as `json.dumps` writes it. -/
def floatText : PyFloat → Str
  | .finite q =>
    if q < 0 then cp 45 :: decimalText (.shortest (-q)) else decimalText (.shortest q)
  | .inf false => lit "Infinity"
  | .inf true => lit "-Infinity"
  | .nan => lit "NaN"

/-! ## Reading -/

/-- Whether a character is an ASCII digit. -/
def isDigit (c : CodePoint) : Bool := 48 ≤ c.val ∧ c.val < 58

/-- The number that digits denote. -/
def natOf (ds : Str) : Nat := ds.foldl (fun n c => 10 * n + (c.val - 48)) 0

/-- Read the digits before the point: no leading zeros. -/
def readWhole : Str → Option (Str × Str)
  | [] => none
  | c :: s =>
    if c = cp 48 then some ([c], s)
    else if isDigit c then some (c :: s.takeWhile isDigit, s.dropWhile isDigit)
    else none

/-- Read a point and digits, if there are some. -/
def readFraction : Str → Str × Str
  | [] => ([], [])
  | c :: s =>
    if c = cp 46 ∧ s.takeWhile isDigit ≠ [] then (s.takeWhile isDigit, s.dropWhile isDigit)
    else ([], c :: s)

/-- Read an exponent, if there is one. -/
def readExponent : Str → Option Int × Str
  | [] => (none, [])
  | c :: s =>
    let t := if s.head? = some (cp 43) ∨ s.head? = some (cp 45) then s.tail else s
    let e := (natOf (t.takeWhile isDigit) : Int)
    if (c = cp 101 ∨ c = cp 69) ∧ t.takeWhile isDigit ≠ [] then
      (some (if s.head? = some (cp 45) then -e else e), t.dropWhile isDigit)
    else (none, c :: s)

/-- An unsigned number as it is written. -/
structure Numeral where
  whole : Str
  fraction : Str
  exponent : Option Int

namespace Numeral

/-- The number it denotes. -/
def value (n : Numeral) : Rat :=
  natOf (n.whole ++ n.fraction) * 10 ^ (n.exponent.getD 0 - n.fraction.length)

/-- The value it is read as: an integer without a fraction and an exponent. -/
def val (n : Numeral) (negative : Bool) : Val :=
  if n.fraction = [] ∧ n.exponent = none then
    .int (if negative then -natOf n.whole else natOf n.whole)
  else .float (.ofRat (if negative then -n.value else n.value))

end Numeral

/-- Read an unsigned number. -/
def readNumeral (s : Str) : Option (Numeral × Str) :=
  match readWhole s with
  | none => none
  | some (whole, s) =>
    let f := readFraction s
    let e := readExponent f.2
    some ({ whole, fraction := f.1, exponent := e.1 }, e.2)

/-- Read a number. -/
def readNumber (s : Str) : Option (Val × Str) :=
  if s.head? = some (cp 45) then (readNumeral s.tail).map fun p => (p.1.val true, p.2)
  else (readNumeral s).map fun p => (p.1.val false, p.2)

/-! ## Digits -/

/-- The code points of the digits. -/
theorem digit_spec : ∀ d < 10, isDigit (cp (48 + d)) = true ∧ (cp (48 + d)).val - 48 = d := by
  decide

/-- The digits of a longer number. -/
theorem foldl_digits (ds : Str) (n : Nat) :
    ds.foldl (fun n c => 10 * n + (c.val - 48)) n = n * 10 ^ ds.length + natOf ds := by
  induction ds generalizing n with
  | nil => simp [natOf]
  | cons c ds ih =>
      rw [natOf, List.foldl_cons, List.foldl_cons, ih, ih (10 * 0 + _), List.length_cons, pow_succ]
      ring

/-- Digits one after another. -/
theorem natOf_append (ds es : Str) : natOf (ds ++ es) = natOf ds * 10 ^ es.length + natOf es := by
  rw [natOf, List.foldl_append, foldl_digits]
  rfl

/-- Zeros denote zero. -/
theorem natOf_zeros (n : Nat) : natOf (List.replicate n (cp 48)) = 0 := by
  induction n with
  | zero => rfl
  | succ n ih =>
      rw [List.replicate_succ', natOf_append, ih]
      rfl

/-- Zeros are digits. -/
theorem isDigit_zeros {n : Nat} : ∀ c ∈ List.replicate n (cp 48), isDigit c = true := by
  intro c hc
  rw [List.eq_of_mem_replicate hc]
  decide

/-- The text of a number consists of digits and denotes the number. -/
theorem natText_digits (n : Nat) : (∀ c ∈ natText n, isDigit c = true) ∧ natOf (natText n) = n := by
  induction n using Nat.strongRecOn with
  | ind n ih =>
      rw [natText]
      split
      · rename_i hn
        obtain ⟨hdigit, hval⟩ := digit_spec n hn
        refine ⟨fun c hc => ?_, ?_⟩
        · rw [List.mem_singleton.mp hc]; exact hdigit
        · rw [natOf, List.foldl_cons, List.foldl_nil, hval]; omega
      · rename_i hn
        obtain ⟨hdigit, hval⟩ := digit_spec (n % 10) (by omega)
        obtain ⟨hall, hfold⟩ := ih (n / 10) (by omega)
        refine ⟨fun c hc => ?_, ?_⟩
        · rcases List.mem_append.mp hc with h | h
          · exact hall c h
          · rw [List.mem_singleton.mp h]; exact hdigit
        · rw [natOf_append, hfold, natOf, List.foldl_cons, List.foldl_nil, hval,
            List.length_singleton]
          omega

/-- A number's text starts with a digit, which is zero for zero only. -/
theorem natText_cons (n : Nat) :
    ∃ c rest, natText n = c :: rest ∧ (c = cp 48 → n = 0 ∧ rest = []) := by
  induction n using Nat.strongRecOn with
  | ind n ih =>
      rw [natText]
      split
      · rename_i hn
        refine ⟨cp (48 + n), [], rfl, fun h => ⟨?_, rfl⟩⟩
        have hval := (digit_spec n hn).2
        rw [h] at hval
        exact hval.symm
      · rename_i hn
        obtain ⟨c, rest, hc, hzero⟩ := ih (n / 10) (by omega)
        refine ⟨c, rest ++ [cp (48 + n % 10)], by rw [hc, List.cons_append], fun h => ?_⟩
        have := (hzero h).1
        omega

/-- Text that does not go on a number. -/
def Stops (s : Str) : Prop :=
  ∀ c, s.head? = some c → isDigit c = false ∧ c ≠ cp 46 ∧ c ≠ cp 101 ∧ c ≠ cp 69

/-- The end of the text stops a number. -/
theorem stops_nil : Stops [] := fun _ h => absurd h (by simp)

/-- Commas, brackets and the end of the text stop a number. -/
theorem stops_cons {c : CodePoint} (h : isDigit c = false ∧ c ≠ cp 46 ∧ c ≠ cp 101 ∧ c ≠ cp 69)
    (s : Str) : Stops (c :: s) := by
  intro d hd
  rwa [← Option.some.inj hd]

/-- Text whose first character is no digit. -/
def EndsDigits (s : Str) : Prop := ∀ c, s.head? = some c → isDigit c = false

/-- Digits end at what is none. -/
theorem endsDigits_cons {c : CodePoint} (h : isDigit c = false) (s : Str) : EndsDigits (c :: s) := by
  intro d hd
  rwa [← Option.some.inj hd]

/-- What stops a number ends its digits. -/
theorem Stops.endsDigits {s : Str} (h : Stops s) : EndsDigits s := fun c hc => (h c hc).1

/-- A run of digits is taken to its end. -/
theorem span_digits {ds s : Str} (hds : ∀ c ∈ ds, isDigit c = true) (hs : EndsDigits s) :
    (ds ++ s).takeWhile isDigit = ds ∧ (ds ++ s).dropWhile isDigit = s := by
  rw [List.takeWhile_append_of_pos hds, List.dropWhile_append_of_pos hds]
  cases s with
  | nil => simp
  | cons c s =>
      have hc := hs c rfl
      rw [List.takeWhile_cons_of_neg (by rw [hc]; decide),
        List.dropWhile_cons_of_neg (by rw [hc]; decide),
        List.append_nil]
      exact ⟨rfl, rfl⟩

/-! ## Reading back the parts of a number -/

/-- Digits without leading zeros. -/
structure IsWhole (ds : Str) : Prop where
  digits : ∀ c ∈ ds, isDigit c = true
  ne_nil : ds ≠ []
  zero : ds.head? = some (cp 48) → ds = [cp 48]

/-- A natural number is written without leading zeros. -/
theorem isWhole_natText (n : Nat) : IsWhole (natText n) := by
  obtain ⟨c, rest, hc, hzero⟩ := natText_cons n
  refine ⟨(natText_digits n).1, by rw [hc]; exact List.cons_ne_nil c rest, fun h => ?_⟩
  rw [hc, List.head?_cons, Option.some.injEq] at h
  rw [hc, h, (hzero h).2]

/-- The first digits have no leading zeros. -/
theorem IsWhole.take {ds : Str} (h : IsWhole ds) {k : Nat} (hk : 0 < k) : IsWhole (ds.take k) := by
  obtain ⟨c, rest, rfl⟩ := List.exists_cons_of_ne_nil h.ne_nil
  obtain ⟨k, rfl⟩ : ∃ m, k = m + 1 := ⟨k - 1, by omega⟩
  refine ⟨fun d hd => h.digits d (List.mem_of_mem_take hd), ?_, fun hzero => ?_⟩
  · rw [List.take_succ_cons]
    exact List.cons_ne_nil c _
  · rw [List.take_succ_cons, List.head?_cons] at hzero
    rw [h.zero hzero, List.take_succ_cons, List.take_nil]

/-- More zeros make no leading one. -/
theorem IsWhole.append_zeros {ds : Str} (h : IsWhole ds) {k : Nat}
    (hk : ds.head? = some (cp 48) → k = 0) : IsWhole (ds ++ List.replicate k (cp 48)) := by
  refine ⟨fun c hc => (List.mem_append.mp hc).elim (h.digits c) (isDigit_zeros c),
    List.append_ne_nil_of_left_ne_nil h.ne_nil _, fun hzero => ?_⟩
  rw [List.head?_append_of_ne_nil _ h.ne_nil] at hzero
  rw [hk hzero, List.replicate_zero, List.append_nil, h.zero hzero]

/-- The digits before the point are read back. -/
theorem readWhole_append {ds s : Str} (h : IsWhole ds) (hs : EndsDigits s) :
    readWhole (ds ++ s) = some (ds, s) := by
  obtain ⟨c, rest, rfl⟩ := List.exists_cons_of_ne_nil h.ne_nil
  rw [List.cons_append, readWhole]
  by_cases hc : c = cp 48
  · obtain rfl : rest = [] := (List.cons.inj (h.zero (by rw [hc]; rfl))).2
    rw [if_pos hc, List.nil_append]
  · obtain ⟨htake, hdrop⟩ := span_digits (fun d hd => h.digits d (List.mem_cons_of_mem c hd)) hs
    rw [if_neg hc, if_pos (h.digits c List.mem_cons_self), htake, hdrop]

/-- The digits after the point are read back. -/
theorem readFraction_append {ds s : Str} (hds : ∀ c ∈ ds, isDigit c = true) (hne : ds ≠ [])
    (hs : EndsDigits s) : readFraction (cp 46 :: (ds ++ s)) = (ds, s) := by
  obtain ⟨htake, hdrop⟩ := span_digits hds hs
  rw [readFraction, htake, hdrop, if_pos ⟨rfl, hne⟩]

/-- Without a point there is no fraction. -/
theorem readFraction_of_head {s : Str} (h : s.head? ≠ some (cp 46)) : readFraction s = ([], s) := by
  cases s with
  | nil => rfl
  | cons c s =>
      have hc : c ≠ cp 46 := fun heq => h (by rw [heq]; rfl)
      rw [readFraction, if_neg fun hcon => hc hcon.1]

/-- Without its letter there is no exponent. -/
theorem readExponent_of_head {s : Str} (h : s.head? ≠ some (cp 101)) (h' : s.head? ≠ some (cp 69)) :
    readExponent s = (none, s) := by
  cases s with
  | nil => rfl
  | cons c s =>
      have hc : ¬(c = cp 101 ∨ c = cp 69) := by
        rintro (rfl | rfl)
        · exact h rfl
        · exact h' rfl
      rw [readExponent]
      exact if_neg fun hcon => hc hcon.1

/-- The digits of an exponent denote it. -/
theorem exponent_digits (n : Nat) : let ds := (if n < 10 then [cp 48] else []) ++ natText n
    (∀ c ∈ ds, isDigit c = true) ∧ ds ≠ [] ∧ natOf ds = n := by
  obtain ⟨hall, hval⟩ := natText_digits n
  dsimp only
  split
  · have hzero : isDigit (cp 48) = true := by decide
    have hval' : natOf [cp 48] = 0 := by decide
    refine ⟨List.forall_mem_cons.mpr ⟨hzero, hall⟩, List.cons_ne_nil _ _, ?_⟩
    rw [natOf_append, hval, hval', Nat.zero_mul, Nat.zero_add]
  · exact ⟨hall, (isWhole_natText n).ne_nil, hval⟩

/-- **An exponent is read back.** -/
theorem readExponent_exponentText (e : Int) {s : Str} (hs : EndsDigits s) :
    readExponent (cp 101 :: (exponentText e ++ s)) = (some e, s) := by
  obtain ⟨hall, hne, hval⟩ := exponent_digits e.natAbs
  obtain ⟨htake, hdrop⟩ := span_digits hall hs
  rw [readExponent, exponentText, List.cons_append]
  by_cases he : e < 0
  · have hminus : cp 45 ≠ cp 43 := by decide
    simp only [he, if_true, List.head?_cons, or_true, List.tail_cons, htake, hdrop, hne, hval, ne_eq,
      not_false_eq_true, true_or, and_self]
    congr 2
    omega
  · have hplus : cp 43 ≠ cp 45 := by decide
    simp only [he, if_false, List.head?_cons, true_or, if_true, List.tail_cons, htake, hdrop, hne, hval,
      ne_eq, not_false_eq_true, and_self, Option.some.injEq, hplus]
    congr 2
    omega

section Numeral

variable {whole fraction s : Str} (hwhole : IsWhole whole)
include hwhole

/-- Digits alone are read as an integer. -/
theorem readNumeral_whole (hs : Stops s) :
    readNumeral (whole ++ s) = some ({ whole, fraction := [], exponent := none }, s) := by
  have hfraction : readFraction s = ([], s) :=
    readFraction_of_head fun h => (hs _ h).2.1 rfl
  have hexponent : readExponent s = (none, s) :=
    readExponent_of_head (fun h => (hs _ h).2.2.1 rfl) fun h => (hs _ h).2.2.2 rfl
  rw [readNumeral, readWhole_append hwhole hs.endsDigits]
  simp only [hfraction, hexponent]

/-- A number with an exponent is read back. -/
theorem readNumeral_exponent (e : Int) (hs : Stops s) :
    readNumeral (whole ++ cp 101 :: (exponentText e ++ s))
      = some ({ whole, fraction := [], exponent := some e }, s) := by
  have hends : EndsDigits (cp 101 :: (exponentText e ++ s)) :=
    endsDigits_cons (by decide) _
  have hfraction := @readFraction_of_head (cp 101 :: (exponentText e ++ s))
    (by rw [List.head?_cons]; decide)
  rw [readNumeral, readWhole_append hwhole hends]
  simp only [hfraction, readExponent_exponentText e hs.endsDigits]

variable (hfraction : ∀ c ∈ fraction, isDigit c = true) (hne : fraction ≠ [])
include hfraction hne

/-- A number with a fraction is read back. -/
theorem readNumeral_fraction (hs : Stops s) :
    readNumeral (whole ++ cp 46 :: (fraction ++ s))
      = some ({ whole, fraction, exponent := none }, s) := by
  have hends : EndsDigits (cp 46 :: (fraction ++ s)) :=
    endsDigits_cons (by decide) _
  have hexponent : readExponent s = (none, s) :=
    readExponent_of_head (fun h => (hs _ h).2.2.1 rfl) fun h => (hs _ h).2.2.2 rfl
  rw [readNumeral, readWhole_append hwhole hends]
  simp only [readFraction_append hfraction hne hs.endsDigits, hexponent]

/-- A number with a fraction and an exponent is read back. -/
theorem readNumeral_fraction_exponent (e : Int) (hs : Stops s) :
    readNumeral (whole ++ cp 46 :: (fraction ++ cp 101 :: (exponentText e ++ s)))
      = some ({ whole, fraction, exponent := some e }, s) := by
  have hends : EndsDigits (cp 46 :: (fraction ++ cp 101 :: (exponentText e ++ s))) :=
    endsDigits_cons (by decide) _
  have hends' : EndsDigits (cp 101 :: (exponentText e ++ s)) :=
    endsDigits_cons (by decide) _
  rw [readNumeral, readWhole_append hwhole hends]
  simp only [readFraction_append hfraction hne hends', readExponent_exponentText e hs.endsDigits]

end Numeral

/-! ## Reading back numbers -/

/-- **An integer is read back.** -/
theorem readNumber_intText (z : Int) {s : Str} (hs : Stops s) :
    readNumber (intText z ++ s) = some (.int z, s) := by
  have hread := readNumeral_whole (isWhole_natText z.natAbs) hs
  obtain ⟨c, rest, hc, -⟩ := natText_cons z.natAbs
  have hdigit : isDigit c = true := (natText_digits z.natAbs).1 c (hc ▸ List.mem_cons_self)
  have hminus : ¬(natText z.natAbs ++ s).head? = some (cp 45) := by
    rw [hc, List.cons_append, List.head?_cons, Option.some.injEq]
    rintro rfl
    exact absurd hdigit (by decide)
  unfold intText
  split
  · rename_i hz
    rw [List.cons_append, readNumber, List.head?_cons, if_pos rfl, List.tail_cons, hread,
      Option.map_some, Numeral.val, if_pos ⟨rfl, rfl⟩, if_pos rfl, (natText_digits _).2]
    congr 3
    omega
  · rename_i hz
    rw [readNumber, if_neg hminus, hread, Option.map_some, Numeral.val, if_pos ⟨rfl, rfl⟩,
      if_neg (by decide), (natText_digits _).2]
    congr 3
    omega

/-- A numeral and the rest of the text after it, read as a float that denotes `q`. -/
def ReadsAs (q : Rat) (t s : Str) : Prop :=
  ∃ n : Numeral, readNumeral t = some (n, s) ∧ n.value = q ∧ ¬(n.fraction = [] ∧ n.exponent = none)

section Digits

variable {ds s : Str} (hds : IsWhole ds) (hs : Stops s)
include hds hs

/-- Digits with a point among them are read back. -/
theorem readsAs_positional {point : Int} (hpoint : ds.head? = some (cp 48) → point ≤ 1) :
    ReadsAs (natOf ds * 10 ^ (point - ds.length)) (positional ds point ++ s) s := by
  have hzero : IsWhole [cp 48] := by
    have h := isWhole_natText 0
    rwa [natText] at h
  have hzeroVal : natOf [cp 48] = 0 := by decide
  have hpos : 0 < ds.length := List.length_pos_of_ne_nil hds.ne_nil
  unfold positional
  split_ifs with hbefore hafter
  · -- zeros between the point and the digits
    have hdigits : ∀ c ∈ List.replicate (-point).toNat (cp 48) ++ ds, isDigit c = true :=
      fun c hc => (List.mem_append.mp hc).elim (isDigit_zeros c) (hds.digits c)
    have hne := List.append_ne_nil_of_right_ne_nil (List.replicate (-point).toNat (cp 48)) hds.ne_nil
    have hread := readNumeral_fraction hzero hdigits hne hs
    rw [List.singleton_append] at hread
    refine ⟨_, hread, ?_, fun h => hne h.1⟩
    rw [Numeral.value, natOf_append, natOf_append, natOf_zeros, hzeroVal, Nat.zero_mul, Nat.zero_mul,
      Nat.zero_add, Nat.zero_add, List.length_append, List.length_replicate, Option.getD_none]
    congr 2
    omega
  · -- zeros between the digits and the point
    have hzeros : ds.head? = some (cp 48) → (point - ds.length).toNat = 0 := by
      intro h
      have := hpoint h
      omega
    have hread := readNumeral_fraction (hds.append_zeros hzeros) hzero.digits hzero.ne_nil hs
    have htext (t : Str) : t ++ [cp 46, cp 48] ++ s = t ++ cp 46 :: ([cp 48] ++ s) := by
      rw [List.append_assoc, List.cons_append]
    rw [← htext] at hread
    refine ⟨_, hread, ?_, fun h => hzero.ne_nil h.1⟩
    obtain ⟨n, hn⟩ : ∃ n : Nat, point - ds.length = n := ⟨_, (Int.toNat_of_nonneg (by omega)).symm⟩
    rw [Numeral.value, natOf_append, natOf_append, natOf_zeros, hzeroVal, List.length_replicate,
      List.length_singleton, Option.getD_none, hn, Int.toNat_natCast, zpow_natCast]
    push_cast
    ring
  · -- the point among the digits
    have hne : ds.drop point.toNat ≠ [] := by
      rw [ne_eq, List.drop_eq_nil_iff]
      omega
    have hread := readNumeral_fraction (hds.take (by omega : 0 < point.toNat))
      (fun c hc => hds.digits c (List.mem_of_mem_drop hc)) hne hs
    rw [← List.cons_append, ← List.append_assoc] at hread
    refine ⟨_, hread, ?_, fun h => hne h.1⟩
    rw [Numeral.value, List.take_append_drop, List.length_drop, Option.getD_none]
    congr 2
    omega

/-- Digits with an exponent are read back. -/
theorem readsAs_scientific {point : Int} :
    ReadsAs (natOf ds * 10 ^ (point - ds.length)) (scientific ds point ++ s) s := by
  have hpos : 0 < ds.length := List.length_pos_of_ne_nil hds.ne_nil
  have hwhole : IsWhole (ds.take 1) := hds.take Nat.one_pos
  have hrest : ∀ c ∈ ds.drop 1, isDigit c = true := fun c hc => hds.digits c (List.mem_of_mem_drop hc)
  unfold scientific
  split_ifs with hone
  -- one digit, without a point
  · have hread := readNumeral_exponent hwhole (point - 1) hs
    rw [← List.cons_append, ← List.append_assoc] at hread
    rw [List.append_nil]
    refine ⟨_, hread, ?_, fun h => by cases h.2⟩
    rw [Numeral.value, List.append_nil, List.take_of_length_le hone.le, List.length_nil,
      Option.getD_some]
    congr 2
    omega
  · have hne : ds.drop 1 ≠ [] := by
      rw [ne_eq, List.drop_eq_nil_iff]
      omega
    -- a point after the first digit
    have hread := readNumeral_fraction_exponent hwhole hrest hne (point - 1) hs
    rw [← List.cons_append, ← List.append_assoc, ← List.cons_append, ← List.append_assoc] at hread
    refine ⟨_, hread, ?_, fun h => hne h.1⟩
    rw [Numeral.value, List.take_append_drop, List.length_drop, Option.getD_some]
    congr 2
    omega

end Digits

/-- **The text of a decimal is read back.** -/
theorem readsAs_decimalText {d : Decimal} (hd : d.digits = 0 → d.exponent ≤ 0) {s : Str}
    (hs : Stops s) : ReadsAs d.value (decimalText d ++ s) s := by
  obtain ⟨-, hval⟩ := natText_digits d.digits
  have hwhole := isWhole_natText d.digits
  have hvalue : d.value = natOf (natText d.digits) *
      10 ^ (((natText d.digits).length + d.exponent) - ((natText d.digits).length : Int)) := by
    rw [hval, add_sub_cancel_left, Decimal.value]
  rw [decimalText, hvalue]
  split_ifs
  · refine readsAs_positional hwhole hs fun hzero => ?_
    obtain ⟨c, rest, hc, h⟩ := natText_cons d.digits
    rw [hc, List.head?_cons, Option.some.injEq] at hzero
    have hexp := hd (h hzero).1
    rw [hc, (h hzero).2, List.length_singleton]
    omega
  · exact readsAs_scientific hwhole hs

/-- A double that is not negative is read back. -/
theorem readsAs_shortest {q : Rat} (hq : 0 ≤ q) (h : PyFloat.ofRat q = .finite q) {s : Str}
    (hs : Stops s) :
    ∃ r, ReadsAs r (decimalText (.shortest q) ++ s) s ∧ PyFloat.ofRat r = .finite q ∧ 0 ≤ r := by
  refine ⟨_, readsAs_decimalText (fun hzero => ?_) hs, Decimal.ofRat_shortest hq h,
    Decimal.value_nonneg _⟩
  rw [Decimal.shortest_digits hq h hzero]
  decide +kernel

/-- The first character of a numeral is a digit. -/
theorem ReadsAs.head {q : Rat} {t s : Str} (h : ReadsAs q t s) :
    ∃ c rest, t = c :: rest ∧ isDigit c = true := by
  obtain ⟨n, hn, -, -⟩ := h
  cases t with
  | nil => cases hn
  | cons c rest =>
      refine ⟨c, rest, rfl, ?_⟩
      rw [readNumeral, readWhole] at hn
      by_cases hzero : c = cp 48
      · rw [hzero]
        decide
      · rw [if_neg hzero] at hn
        by_cases hdigit : isDigit c = true
        · exact hdigit
        · rw [if_neg hdigit] at hn
          cases hn

/-- **A finite float is read back.** -/
theorem readNumber_floatText {q : Rat} (h : PyFloat.IsDouble (.finite q)) {s : Str} (hs : Stops s) :
    readNumber (floatText (.finite q) ++ s) = some (.float (.finite q), s) := by
  rw [floatText]
  by_cases hq : q < 0
  · rw [if_pos hq]
    -- the minus is split off, and the rest is read and negated
    have hneg : PyFloat.ofRat (-q) = .finite (-q) := (PyFloat.ofRat_neg hq).mp h
    obtain ⟨r, ⟨n, hn, hr, hfloat⟩, hround, hnonneg⟩ := readsAs_shortest (by linarith) hneg hs
    have hr0 : r ≠ 0 := by
      rintro rfl
      have hzero : PyFloat.ofRat 0 = .finite 0 := by decide +kernel
      rw [hzero] at hround
      linarith [PyFloat.finite.inj hround]
    have hpos : -r < 0 := by linarith [lt_of_le_of_ne hnonneg hr0.symm]
    have hback : PyFloat.ofRat (-r) = .finite q :=
      (PyFloat.ofRat_neg hpos).mpr (by rw [neg_neg, hround])
    rw [List.cons_append, readNumber, List.head?_cons, if_pos rfl, List.tail_cons, hn,
      Option.map_some, Numeral.val, if_neg hfloat, if_pos rfl, hr, hback]
  · rw [if_neg hq]
    obtain ⟨r, hread, hround, -⟩ := readsAs_shortest (not_lt.mp hq) h hs
    obtain ⟨c, rest, hc, hdigit⟩ := hread.head
    obtain ⟨n, hn, hr, hfloat⟩ := hread
    -- without one the text starts with a digit
    have hminus : ¬(decimalText (.shortest q) ++ s).head? = some (cp 45) := by
      rw [hc, List.head?_cons, Option.some.injEq]
      rintro rfl
      exact absurd hdigit (by decide)
    rw [readNumber, if_neg hminus, hn, Option.map_some, Numeral.val, if_neg hfloat,
      if_neg (by decide), hr, hround]

example : floatText (.ofRat (2 ^ 50 + 3 / 4)) = lit "1125899906842624.8" := by decide +kernel
example : floatText (.ofRat (-5 / 10 ^ 324)) = lit "-5e-324" := by decide +kernel

end Json
end OpenWright.Python
