import OpenWright.Python.Calendar
import OpenWright.Python.Digits
import OpenWright.Python.Value

/-! # Timestamps

Timestamps are normalized to RFC 3339 texts of UTC with nine digits of fractional seconds. What is a
text already stays as it is.

* **`ofNanoseconds_eq_ok`** — an instant of the years 1 to 9999 is written with its date and time, and
  with the nanoseconds after them. -/

namespace OpenWright

open Python

/-! ## Date and time -/

/-- A date and a time of day. -/
structure DateTime where
  date : Date
  hour : Nat
  minute : Nat
  second : Nat
deriving DecidableEq

namespace DateTime

/-- The date and the time in UTC, a number of seconds after the start of 1970. -/
def ofUnix (secs : Int) : DateTime where
  date := Date.ofOrdinal (719163 + secs / 86400)
  hour := (secs % 86400 / 3600).toNat
  minute := (secs % 3600 / 60).toNat
  second := (secs % 60).toNat

/-- `%Y-%m-%dT%H:%M:%S` with the given text of the year. -/
def text (year : Str) (t : DateTime) : Str :=
  year ++ cp 45 :: (zeroPadded 2 t.date.month ++ cp 45 :: (zeroPadded 2 t.date.day
    ++ cp 84 :: (zeroPadded 2 t.hour ++ cp 58 :: (zeroPadded 2 t.minute
    ++ cp 58 :: zeroPadded 2 t.second))))

/-- The text has no dot. -/
theorem dot_notMem_text {year : Str} (hyear : cp 46 ∉ year) (t : DateTime) :
    cp 46 ∉ t.text year := by
  have hpadded : ∀ z : Int, cp 46 ∉ zeroPadded 2 z := by
    intro z hmem
    rcases of_mem_zeroPadded hmem with hdigit | hminus
    · exact absurd hdigit (by decide)
    · exact absurd hminus (by decide)
  have hsep : cp 46 ≠ cp 45 ∧ cp 46 ≠ cp 84 ∧ cp 46 ≠ cp 58 := by decide
  simp only [text, List.mem_append, List.mem_cons, hpadded, hyear, hsep, false_or, not_false_eq_true]

/-- A time is in a year or a later one from the first second of the year on. -/
theorem le_year_ofUnix {secs year : Int} :
    year ≤ (ofUnix secs).date.year ↔ (daysBeforeYear year - 719162) * 86400 ≤ secs := by
  obtain ⟨hvalid, hordinal⟩ := Date.ordinal_ofOrdinal (719163 + secs / 86400)
  have hbounds := Date.ordinal_bounds hvalid
  rw [hordinal] at hbounds
  change year ≤ (Date.ofOrdinal (719163 + secs / 86400)).year ↔ _
  generalize (Date.ofOrdinal (719163 + secs / 86400)).year = y at hbounds ⊢
  have hstart : year ≤ y ↔ daysBeforeYear year < 719163 + secs / 86400 := by
    constructor
    · intro h
      exact (daysBeforeYear_mono h).trans_lt hbounds.1
    · intro h
      by_contra hlt
      have := daysBeforeYear_mono (show y + 1 ≤ year by omega)
      omega
  rw [hstart]
  omega

end DateTime

/-! ## Normalization -/

/-- What a timestamp is given as. -/
inductive Timestamp
  /-- A `datetime`, by its `timedelta` from the start of 1970 in UTC. -/
  | datetime (days seconds microseconds : Int)
  | int (value : Int)
  | str (value : Str)
  | other (typeName : Str)

/-- What a value is taken for. -/
def Timestamp.ofVal : Val → Timestamp
  | .int z => .int z
  | .bool b => .int b.toInt
  | .str s => .str s
  | .null => .other (lit "NoneType")
  | .float _ => .other (lit "float")
  | .list _ => .other (lit "list")
  | .tuple _ => .other (lit "tuple")
  | .dict _ => .other (lit "dict")

/-- What `datetime.fromtimestamp` raises for seconds in a year that is not in the calendar: they do
not fit a `time_t`, or the year does not fit the `int` of `gmtime`, which counts from 1900. -/
def outOfRange (secs year : Int) : ErrKind :=
  if secs < -2 ^ 63 ∨ 2 ^ 63 ≤ secs then .overflowError
  else if year - 1900 < -2 ^ 31 ∨ 2 ^ 31 ≤ year - 1900 then .osError
  else .valueError

/-- The text of nanoseconds since the start of 1970. The year is not padded, and the calendar ends
with the years 1 and 9999. -/
def ofNanoseconds (ns : Int) : Except PyErr Str :=
  let secs := ns / 1000000000
  let t := DateTime.ofUnix secs
  if 1 ≤ t.date.year ∧ t.date.year ≤ 9999 then
    .ok (t.text (Json.intText t.date.year) ++ cp 46 :: (zeroPadded 9 (ns % 1000000000) ++ [cp 90]))
  else .error { kind := outOfRange secs t.date.year }

/-- **What is written** for an instant: it is one of the years from 1 to 9999. -/
theorem ofNanoseconds_eq_ok {ns : Int} {s : Str} : ofNanoseconds ns = .ok s ↔
    (1 ≤ (DateTime.ofUnix (ns / 1000000000)).date.year ∧
      (DateTime.ofUnix (ns / 1000000000)).date.year ≤ 9999) ∧
    s = (DateTime.ofUnix (ns / 1000000000)).text
        (Json.intText (DateTime.ofUnix (ns / 1000000000)).date.year)
      ++ cp 46 :: (zeroPadded 9 (ns % 1000000000) ++ [cp 90]) := by
  rw [ofNanoseconds]
  split
  · rename_i hyear
    rw [Except.ok.injEq, eq_comm, and_iff_right hyear]
  · rename_i hyear
    exact iff_of_false (fun h => nomatch h) fun h => hyear h.1

/-- `to_rfc3339`. -/
def toRfc3339 : Timestamp → Except PyErr Str
  | .datetime days seconds microseconds =>
    ofNanoseconds ((days * 86400 + seconds) * 1000000000 + microseconds * 1000)
  -- values above `10**14` are nanoseconds, others seconds
  | .int value => ofNanoseconds (if 10 ^ 14 < value then value else value * 1000000000)
  | .str value => .ok value
  | .other typeName =>
    .error { kind := .canonicalizationError,
             msg := [.text (lit "cannot normalize timestamp of type "), .text typeName] }

example : toRfc3339 (.int 1767225600) = .ok (lit "2026-01-01T00:00:00.000000000Z") := by
  decide +kernel

end OpenWright
