import OpenWright.Python.Calendar
import OpenWright.Python.Digits
import Mathlib.Data.Prod.Lex

/-! # RFC 3339 timestamps

The texts of RFC 3339 and the instants they denote. A timestamp gives a local time and its offset from
UTC, with any number of fractional digits, so that the order of texts is not the order of instants.

An instant is a minute of UTC and the seconds in it: a minute may have a leap second.

* **`Rfc3339.text_injective`** — a text is that of one timestamp.
* **`Rfc3339.text_lt`** — the order of texts is that of instants where the spellings agree. -/

namespace OpenWright

open Python

/-! ## Timestamps -/

/-- What follows the local time: `Z`, which may be lower case, or a numeric offset. -/
inductive Zone
  | utc (lower : Bool)
  | offset (negative : Bool) (hour : Fin 24) (minute : Fin 60)
deriving DecidableEq

namespace Zone

/-- The text of a zone. -/
def text : Zone → Str
  | .utc lower => [if lower then cp 122 else cp 90]
  | .offset negative hour minute =>
    (if negative then cp 45 else cp 43) :: (zeroPadded 2 hour ++ cp 58 :: zeroPadded 2 minute)

/-- The minutes that local time is ahead of UTC. -/
def minutes : Zone → Int
  | .utc _ => 0
  | .offset negative hour minute => (if negative then -1 else 1) * (hour * 60 + minute)

/-- The zone is written as a letter. -/
def IsLetter : Zone → Prop
  | .utc _ => True
  | .offset .. => False

end Zone

/-- A timestamp: `date-time` of RFC 3339. -/
structure Rfc3339 where
  date : Date
  hour : Nat
  minute : Nat
  second : Nat
  /-- The digits of the fraction; none where there is no point. -/
  fraction : Str
  /-- The `T` between date and time is lower case. -/
  lower : Bool
  zone : Zone
  date_valid : date.Valid
  year_range : 0 ≤ date.year ∧ date.year < 10000
  hour_lt : hour < 24
  minute_lt : minute < 60
  second_le : second ≤ 60
  fraction_digits : ∀ c ∈ fraction, Json.isDigit c = true

/-- Three numbers with a separator, of which the last two have two digits. -/
def triple (sep : CodePoint) (width : Nat) (a b c : Int) : Str :=
  zeroPadded width a ++ sep :: (zeroPadded 2 b ++ sep :: zeroPadded 2 c)

/-- The text of a fraction. -/
def fractionText : Str → Str
  | [] => []
  | c :: s => cp 46 :: c :: s

namespace Rfc3339

/-- The letter between date and time. -/
def separator (t : Rfc3339) : CodePoint := if t.lower then cp 116 else cp 84

/-- The text of a timestamp. -/
def text (t : Rfc3339) : Str :=
  triple (cp 45) 4 t.date.year t.date.month t.date.day
    ++ t.separator :: (triple (cp 58) 2 t.hour t.minute t.second
    ++ (fractionText t.fraction ++ t.zone.text))

/-- The minute of UTC, counted from the start of the calendar. -/
def utcMinute (t : Rfc3339) : Int :=
  t.date.ordinal * 1440 + t.hour * 60 + t.minute - t.zone.minutes

/-- The instant that a timestamp denotes. -/
def instant (t : Rfc3339) : ℤ ×ₗ ℚ := toLex (t.utcMinute, t.second + fracValue t.fraction)

/-- How a timestamp is written: its letters, its zone, and the number of its fractional digits. -/
structure Spelling where
  lower : Bool
  zone : Zone
  digits : Nat
deriving DecidableEq

/-- The spelling of a timestamp. -/
def spelling (t : Rfc3339) : Spelling := ⟨t.lower, t.zone, t.fraction.length⟩

/-- Two spellings have one letter between date and time and one offset, and a letter for the zone only
follows the longer fraction: a letter sorts after the digits, a sign before the point. -/
structure Spelling.Agrees (a b : Spelling) : Prop where
  lower : a.lower = b.lower
  minutes : a.zone.minutes = b.zone.minutes
  left : a.zone.IsLetter → b.digits ≤ a.digits
  right : b.zone.IsLetter → a.digits ≤ b.digits

end Rfc3339

/-! ## The order of texts -/

/-- **Three numbers are ordered as their texts.** -/
theorem triple_lt {sep : CodePoint} {k : Nat} {a b c a' b' c' : Int} (ha : 0 ≤ a)
    (ha' : a' < 10 ^ (k + 1)) (hb : 0 ≤ b ∧ b < 100) (hb' : 0 ≤ b' ∧ b' < 100) (hc : 0 ≤ c)
    (hc' : c' < 100) (h : a < a' ∨ a = a' ∧ (b < b' ∨ b = b' ∧ c < c')) :
    triple sep (k + 1) a b c < triple sep (k + 1) a' b' c' := by
  have hlength : ∀ {w : Nat} {x : Int}, 0 ≤ x → x < 10 ^ (w + 1) →
      (zeroPadded (w + 1) x).length = w + 1 := fun hx hlt => (zeroPadded_spec hx hlt).2.1
  rw [triple, triple]
  rcases h with hlt | ⟨rfl, hlt | ⟨rfl, hlt⟩⟩
  · refine append_lt_append ?_ (zeroPadded_lt ha hlt ha') _ _
    rw [hlength ha (hlt.trans ha'), hlength (ha.trans hlt.le) ha']
  · refine List.append_left_lt (List.cons_lt_cons_iff.mpr (Or.inr ⟨rfl, ?_⟩))
    refine append_lt_append ?_ (zeroPadded_lt hb.1 hlt (by omega)) _ _
    rw [hlength hb.1 (by omega), hlength hb'.1 (by omega)]
  · refine List.append_left_lt (List.cons_lt_cons_iff.mpr (Or.inr ⟨rfl, ?_⟩))
    refine List.append_left_lt (List.cons_lt_cons_iff.mpr (Or.inr ⟨rfl, ?_⟩))
    exact zeroPadded_lt hc hlt (by omega)

/-- Numbers in range have texts of one length. -/
theorem length_triple {sep : CodePoint} {k : Nat} {a b c : Int} (ha : 0 ≤ a ∧ a < 10 ^ (k + 1))
    (hb : 0 ≤ b ∧ b < 100) (hc : 0 ≤ c ∧ c < 100) : (triple sep (k + 1) a b c).length = k + 7 := by
  have hlength : ∀ {w : Nat} {x : Int}, 0 ≤ x → x < 10 ^ (w + 1) →
      (zeroPadded (w + 1) x).length = w + 1 := fun hx hlt => (zeroPadded_spec hx hlt).2.1
  have hb2 : (zeroPadded 2 b).length = 2 := hlength hb.1 (by omega)
  have hc2 : (zeroPadded 2 c).length = 2 := hlength hc.1 (by omega)
  simp only [triple, List.length_append, List.length_cons, hlength ha.1 ha.2, hb2, hc2]

/-- A zone starts with a letter or with a sign. -/
theorem Zone.text_cons (z : Zone) : ∃ c rest, z.text = c :: rest ∧ Json.isDigit c = false ∧
    c ≠ cp 46 ∧ (¬z.IsLetter → c.val < 46) := by
  cases z with
  | utc lower => cases lower <;> exact ⟨_, _, rfl, by decide, by decide, fun h => absurd trivial h⟩
  | offset negative hour minute =>
      cases negative <;> exact ⟨_, _, rfl, by decide, by decide, fun _ => by decide⟩

/-- Smaller digits are smaller with a zone after them, where a letter only follows the longer ones. -/
theorem digits_zone_lt {f g : Str} (hg : ∀ c ∈ g, Json.isDigit c = true) (h : f < g) {z z' : Zone}
    (hz : z.IsLetter → g.length ≤ f.length) : f ++ z.text < g ++ z'.text := by
  induction f generalizing g with
  | nil =>
      cases g with
      | nil => exact absurd h (lt_irrefl _)
      | cons d g =>
          obtain ⟨c, rest, hc, -, -, hsmall⟩ := z.text_cons
          have hsign : c.val < 46 := hsmall fun hletter => absurd (hz hletter) (by simp)
          have hd : 48 ≤ d.val ∧ d.val < 58 := by simpa [Json.isDigit] using hg d List.mem_cons_self
          rw [hc, List.nil_append, List.cons_append]
          exact List.cons_lt_cons_iff.mpr (Or.inl (show c.val < d.val by omega))
  | cons c f ih =>
      cases g with
      | nil => exact absurd h (List.not_lt_nil _)
      | cons d g =>
          rw [List.cons_append, List.cons_append]
          rcases List.cons_lt_cons_iff.mp h with hlt | ⟨rfl, hlt⟩
          · exact List.cons_lt_cons_iff.mpr (Or.inl hlt)
          · refine List.cons_lt_cons_iff.mpr (Or.inr ⟨rfl, ih (fun e he => hg e ?_) hlt ?_⟩)
            · exact List.mem_cons_of_mem _ he
            · exact fun hletter => Nat.le_of_succ_le_succ (hz hletter)

/-- The same with the point before the digits. -/
theorem fraction_zone_lt {f g : Str} (hg : ∀ c ∈ g, Json.isDigit c = true) (h : f < g) {z z' : Zone}
    (hz : z.IsLetter → g.length ≤ f.length) :
    fractionText f ++ z.text < fractionText g ++ z'.text := by
  cases g with
  | nil => exact absurd h (List.not_lt_nil _)
  | cons d g =>
      cases f with
      | nil =>
          obtain ⟨c, rest, hc, -, -, hsmall⟩ := z.text_cons
          have hsign : c.val < 46 := hsmall fun hletter => absurd (hz hletter) (by simp)
          rw [fractionText, fractionText, hc]
          exact List.cons_lt_cons_iff.mpr (Or.inl hsign)
      | cons c f =>
          exact List.cons_lt_cons_iff.mpr (Or.inr ⟨rfl, digits_zone_lt hg h hz⟩)

namespace Rfc3339

variable {t u : Rfc3339}

/-- The ranges of the numbers of a date. -/
theorem date_range (t : Rfc3339) : (0 ≤ t.date.year ∧ t.date.year < 10 ^ (3 + 1)) ∧
    (0 ≤ (t.date.month : Int) ∧ (t.date.month : Int) < 100) ∧
    (0 ≤ (t.date.day : Int) ∧ (t.date.day : Int) < 100) := by
  obtain ⟨-, hmonth, -, hday⟩ := t.date_valid
  have hlong : ∀ leap, ∀ i, (monthLengths leap).getD i 0 ≤ 31 := by
    intro leap i
    rcases Nat.lt_or_ge i 12 with hlt | hge
    · revert i leap
      decide
    · rw [List.getD_eq_default _ _ (by simpa [monthLengths] using hge)]
      omega
  have := hlong (isLeap t.date.year) (t.date.month - 1)
  have hyear := t.year_range
  rw [Date.months] at hday
  omega

/-- The ranges of the numbers of a time. -/
theorem time_range (t : Rfc3339) : (0 ≤ (t.hour : Int) ∧ (t.hour : Int) < 10 ^ (1 + 1)) ∧
    (0 ≤ (t.minute : Int) ∧ (t.minute : Int) < 100) ∧
    (0 ≤ (t.second : Int) ∧ (t.second : Int) < 100) := by
  have := t.hour_lt
  have := t.minute_lt
  have := t.second_le
  omega

/-- An earlier date is an earlier text. -/
theorem text_lt_of_date (h : u.date.year < t.date.year ∨ u.date.year = t.date.year ∧
    (u.date.month < t.date.month ∨ u.date.month = t.date.month ∧ u.date.day < t.date.day)) :
    u.text < t.text := by
  obtain ⟨hy, hm, hd⟩ := u.date_range
  obtain ⟨hy', hm', hd'⟩ := t.date_range
  refine append_lt_append ?_ (triple_lt hy.1 hy'.2 hm hm' hd.1 hd'.2 (by omega)) _ _
  rw [length_triple hy hm hd, length_triple hy' hm' hd']

/-- On one date an earlier time is an earlier text. -/
theorem text_lt_of_time (hdate : u.date = t.date) (hlower : u.lower = t.lower)
    (h : u.hour < t.hour ∨ u.hour = t.hour ∧
      (u.minute < t.minute ∨ u.minute = t.minute ∧ u.second < t.second)) : u.text < t.text := by
  obtain ⟨hh, hm, hs⟩ := u.time_range
  obtain ⟨hh', hm', hs'⟩ := t.time_range
  rw [text, text, separator, separator, hdate, hlower]
  refine List.append_left_lt (List.cons_lt_cons_iff.mpr (Or.inr ⟨rfl, ?_⟩))
  refine append_lt_append ?_ (triple_lt hh.1 hh'.2 hm hm' hs.1 hs'.2 (by omega)) _ _
  rw [length_triple hh hm hs, length_triple hh' hm' hs']

/-- Dates that are no other's predecessor are the same. -/
theorem date_trichotomy (d d' : Date) : d = d' ∨
    (d.year < d'.year ∨ d.year = d'.year ∧
      (d.month < d'.month ∨ d.month = d'.month ∧ d.day < d'.day)) ∨
    (d'.year < d.year ∨ d'.year = d.year ∧
      (d'.month < d.month ∨ d'.month = d.month ∧ d'.day < d.day)) := by
  obtain ⟨y, m, e⟩ := d
  obtain ⟨y', m', e'⟩ := d'
  rw [Date.mk.injEq]
  dsimp only
  omega

/-- **Earlier instants are earlier texts where the spellings agree.** -/
theorem text_lt (hagrees : u.spelling.Agrees t.spelling) (h : u.instant < t.instant) :
    u.text < t.text := by
  have hminutes : u.zone.minutes = t.zone.minutes := hagrees.minutes
  have hhour := u.hour_lt
  have hhour' := t.hour_lt
  have hminute := u.minute_lt
  have hminute' := t.minute_lt
  rw [instant, instant, Prod.Lex.toLex_lt_toLex, utcMinute, utcMinute, hminutes] at h
  rcases date_trichotomy u.date t.date with hdate | hlt | hgt
  · rw [hdate] at h
    by_cases htime : u.hour < t.hour ∨ u.hour = t.hour ∧
        (u.minute < t.minute ∨ u.minute = t.minute ∧ u.second < t.second)
    · exact text_lt_of_time hdate hagrees.lower htime
    · -- in one second the fraction decides
      have hsecond : u.hour = t.hour ∧ u.minute = t.minute ∧ t.second ≤ u.second := by
        rcases h with hlt | ⟨heq, -⟩ <;> omega
      obtain ⟨hh, hm, hle⟩ := hsecond
      have hrest : (u.second : ℚ) + fracValue u.fraction < t.second + fracValue t.fraction := by
        rcases h with hlt | ⟨-, hrest⟩
        · omega
        · exact hrest
      have hs : u.second = t.second := by
        have hpos := (fracValue_bounds u.fraction_digits).1
        have hless := (fracValue_bounds t.fraction_digits).2
        have hlt : (u.second : ℚ) < t.second + 1 := by linarith
        have hlt' : u.second < t.second + 1 := by exact_mod_cast hlt
        omega
      have hfrac : fracValue u.fraction < fracValue t.fraction := by
        rw [hs] at hrest
        linarith
      have hlower : u.lower = t.lower := hagrees.lower
      rw [text, text, separator, separator, hdate, hlower, hh, hm, hs]
      refine List.append_left_lt (List.cons_lt_cons_iff.mpr (Or.inr ⟨rfl, List.append_left_lt ?_⟩))
      exact fraction_zone_lt t.fraction_digits
        (lt_of_fracValue_lt u.fraction_digits t.fraction_digits hfrac) hagrees.left
  · exact text_lt_of_date hlt
  · -- on a later date it cannot be earlier
    have := Date.ordinal_lt t.date_valid u.date_valid hgt
    rcases h with hlt | ⟨heq, -⟩ <;> omega

end Rfc3339

/-! ## Texts are read one way -/

/-- Three numbers in range are read from their text. -/
theorem triple_inj {sep : CodePoint} {k : Nat} {a b c a' b' c' : Int}
    (ha : 0 ≤ a ∧ a < 10 ^ (k + 1)) (ha' : 0 ≤ a' ∧ a' < 10 ^ (k + 1)) (hb : 0 ≤ b ∧ b < 100)
    (hb' : 0 ≤ b' ∧ b' < 100) (h : triple sep (k + 1) a b c = triple sep (k + 1) a' b' c') :
    a = a' ∧ b = b' ∧ c = c' := by
  have hlength : ∀ {w : Nat} {x y : Int}, 0 ≤ x ∧ x < 10 ^ (w + 1) → 0 ≤ y ∧ y < 10 ^ (w + 1) →
      (zeroPadded (w + 1) x).length = (zeroPadded (w + 1) y).length := fun hx hy =>
    (zeroPadded_spec hx.1 hx.2).2.1.trans (zeroPadded_spec hy.1 hy.2).2.1.symm
  obtain ⟨hfirst, hrest⟩ := List.append_inj h (hlength ha ha')
  obtain ⟨hsecond, hthird⟩ := List.append_inj (List.cons.inj hrest).2
    (hlength (w := 1) (by omega) (by omega))
  exact ⟨zeroPadded_injective _ hfirst, zeroPadded_injective _ hsecond,
    zeroPadded_injective _ (List.cons.inj hthird).2⟩

/-- A zone is read from its text. -/
theorem Zone.text_injective : Function.Injective Zone.text := by
  -- a letter is no sign, and each is read back
  have hkind : ∀ lower negative : Bool,
      (if lower then cp 122 else cp 90) ≠ if negative then cp 45 else cp 43 := by decide
  have hletter : ∀ lower lower' : Bool, (if lower then cp 122 else cp 90)
      = (if lower' then cp 122 else cp 90) → lower = lower' := by decide
  have hsign : ∀ negative negative' : Bool, (if negative then cp 45 else cp 43)
      = (if negative' then cp 45 else cp 43) → negative = negative' := by decide
  intro z z' h
  cases z with
  | utc lower =>
      cases z' with
      | utc lower' => rw [hletter _ _ (List.cons.inj h).1]
      | offset negative' hour' minute' => exact absurd (List.cons.inj h).1 (hkind _ _)
  | offset negative hour minute =>
      cases z' with
      | utc lower' => exact absurd (List.cons.inj h).1.symm (hkind _ _)
      | offset negative' hour' minute' =>
          obtain ⟨hhead, hrest⟩ := List.cons.inj h
          have hx := zeroPadded_spec (k := 1) (z := hour) (by omega) (by omega)
          have hy := zeroPadded_spec (k := 1) (z := hour') (by omega) (by omega)
          -- two digits each
          obtain ⟨hhour, hminute⟩ := List.append_inj hrest (hx.2.1.trans hy.2.1.symm)
          have hh := zeroPadded_injective 2 hhour
          have hm := zeroPadded_injective 2 (List.cons.inj hminute).2
          rw [hsign _ _ hhead, Fin.ext (by exact_mod_cast hh : (hour : Nat) = hour'),
            Fin.ext (by exact_mod_cast hm : (minute : Nat) = minute')]

/-- Three numbers are of characters of ASCII where their separator is. -/
theorem ascii_triple {sep : CodePoint} (hsep : sep.val < 128) {width : Nat} {a b c : Int} :
    ∀ d ∈ triple sep width a b c, d.val < 128 := by
  intro d hd
  rw [triple, List.mem_append, List.mem_cons, List.mem_append, List.mem_cons] at hd
  rcases hd with hfirst | rfl | hsecond | rfl | hthird
  · exact ascii_zeroPadded hfirst
  · exact hsep
  · exact ascii_zeroPadded hsecond
  · exact hsep
  · exact ascii_zeroPadded hthird

/-- A zone is of characters of ASCII. -/
theorem Zone.ascii_text (z : Zone) : ∀ d ∈ z.text, d.val < 128 := by
  intro d hd
  cases z with
  | utc lower =>
      rw [List.mem_singleton.mp hd]
      cases lower <;> decide
  | offset negative hour minute =>
      rw [text, List.mem_cons, List.mem_append, List.mem_cons] at hd
      rcases hd with rfl | hhour | rfl | hminute
      · cases negative <;> decide
      · exact ascii_zeroPadded hhour
      · decide
      · exact ascii_zeroPadded hminute

/-- Digits with a point before them are of characters of ASCII. -/
theorem ascii_fractionText {f : Str} (hf : ∀ c ∈ f, Json.isDigit c = true) :
    ∀ d ∈ fractionText f, d.val < 128 := by
  intro d hd
  cases f with
  | nil => exact absurd hd List.not_mem_nil
  | cons c f =>
      rcases List.mem_cons.mp hd with rfl | hdigit
      · decide
      · have hval : 48 ≤ d.val ∧ d.val < 58 := by simpa [Json.isDigit] using hf d hdigit
        omega

/-- The digits at the start of a fraction with a zone after it. -/
theorem takeWhile_fraction {f : Str} (hf : ∀ c ∈ f, Json.isDigit c = true) (z : Zone) :
    f = (if (fractionText f ++ z.text).head? = some (cp 46) then
      ((fractionText f ++ z.text).drop 1).takeWhile Json.isDigit else []) := by
  obtain ⟨c, rest, hc, hdigit, hdot, -⟩ := z.text_cons
  cases f with
  | nil =>
      rw [fractionText, hc, List.nil_append, List.head?_cons, if_neg]
      exact fun h => hdot (Option.some.inj h)
  | cons d f =>
      rw [fractionText, List.cons_append, List.head?_cons, if_pos rfl, List.drop_one, List.tail_cons,
        List.takeWhile_append_of_pos hf, hc, List.takeWhile_cons_of_neg (by rw [hdigit]; decide),
        List.append_nil]

namespace Rfc3339

/-- **A text is of characters of ASCII.** -/
theorem ascii_text (t : Rfc3339) : ∀ d ∈ t.text, d.val < 128 := by
  intro d hd
  rw [text, List.mem_append, List.mem_cons, List.mem_append, List.mem_append] at hd
  rcases hd with hdate | rfl | htime | hfraction | hzone
  · exact ascii_triple (by decide) d hdate
  · rw [separator]
    cases t.lower <;> decide
  · exact ascii_triple (by decide) d htime
  · exact ascii_fractionText t.fraction_digits d hfraction
  · exact t.zone.ascii_text d hzone

/-- **A text is that of one timestamp.** -/
theorem text_injective : Function.Injective text := by
  intro t u h
  obtain ⟨hy, hm, hd⟩ := t.date_range
  obtain ⟨hy', hm', hd'⟩ := u.date_range
  obtain ⟨hh, hmi, hs⟩ := t.time_range
  obtain ⟨hh', hmi', hs'⟩ := u.time_range
  -- the dates have one length, so the texts split alike
  obtain ⟨hdate, hrest⟩ := List.append_inj h
    ((length_triple hy hm hd).trans (length_triple hy' hm' hd').symm)
  obtain ⟨hsep, hrest⟩ := List.cons.inj hrest
  obtain ⟨htime, hrest⟩ := List.append_inj hrest
    ((length_triple hh hmi hs).trans (length_triple hh' hmi' hs').symm)
  obtain ⟨hyear, hmonth, hday⟩ := triple_inj hy hy' hm hm' hdate
  obtain ⟨hhour, hminute, hsecond⟩ := triple_inj hh hh' hmi hmi' htime
  -- the fraction ends where the digits do
  have hfraction : t.fraction = u.fraction := by
    rw [takeWhile_fraction t.fraction_digits t.zone, hrest,
      ← takeWhile_fraction u.fraction_digits u.zone]
  have hzone : t.zone = u.zone := by
    rw [hfraction] at hrest
    exact Zone.text_injective (List.append_cancel_left hrest)
  -- the case of the separator is read off it
  have hlower : t.lower = u.lower := by
    revert hsep
    rw [separator, separator]
    generalize t.lower = a
    generalize u.lower = b
    revert a b
    decide
  obtain ⟨⟨y, m, d⟩, hour, minute, second, fraction, lower, zone⟩ := t
  obtain ⟨⟨y', m', d'⟩, hour', minute', second', fraction', lower', zone'⟩ := u
  simp only [Nat.cast_inj] at hyear hmonth hday hhour hminute hsecond hfraction hzone hlower
  subst hyear hmonth hday hhour hminute hsecond hfraction hzone hlower
  rfl

end Rfc3339

end OpenWright
