import RootedFS.Fault
import RootedFS.Number.Double

/-!
# Instants and random numbers

Entries are stamped with ticks of a clock that moves one second with every stamp. Instants have a
resolution of microseconds; in seconds they are the nearest number of binary double precision,
which is written with six decimals.

## Main definitions

* `Instant`, `Instant.ofMicros`, `Instant.ofTick`
* `Instant.ofHost`: the instant of a time that the host tells, if a calendar has it
* `Instant.secondsText`: an instant in seconds, with six decimals
* `Instant.describe`: the calendar form of an instant
* `Supply`, `Supply.draw`: the numbers that temporary names are made of
-/

namespace RootedFS

/-- A point in time, in microseconds since the start of 1970. -/
structure Instant where
  /-- Microseconds since the start of 1970. -/
  micros : Int
deriving DecidableEq, Repr

namespace Instant

/-- Whether a number of microseconds since the start of 1970 lies in the years 1 to 9999, which are
those that a calendar has. -/
def inCalendar (micros : Int) : Bool :=
  -62135596800000000 ≤ micros && micros < 253402300800000000

/-- The instant of a number of microseconds since the start of 1970. -/
def ofMicros (micros : Int) : Except Fault Instant :=
  if inCalendar micros then .ok ⟨micros⟩ else .error (.outOfRange .date)

/-- The start of 2024, in seconds since the start of 1970. -/
def firstTick : Int := 1704067200

/-- The instant of the `n`-th stamp. -/
def ofTick (n : Nat) : Instant :=
  ⟨(firstTick + n) * 1000000⟩

/-- The millionths of a second nearest to the number of double precision nearest to `micros`
millionths. -/
def nearestMicros (micros : Nat) : Nat :=
  match Double.ofFraction false ⟨micros, 1000000⟩ with
  | .finite _ mantissa exponent =>
    ((Double.magnitude mantissa exponent).timesPower 10 6).round
  | _ => micros

/-- A number padded with zeros to at least `width` digits. -/
def padded (width n : Nat) : String :=
  let digits := Nat.toDigits 10 n
  String.ofList (List.replicate (width - digits.length) '0' ++ digits)

/-- The instant in seconds since the start of 1970, with six decimals. -/
def secondsText (t : Instant) : String :=
  let m := nearestMicros t.micros.natAbs
  (if t.micros < 0 then "-" else "") ++ padded 1 (m / 1000000) ++ "." ++ padded 6 (m % 1000000)

/-- The year, month and day of a day counted from the start of 1970. -/
def civil (day : Int) : Int × Int × Int :=
  -- years begin in March, so that a leap day is the last of its year; an era is 400 years
  let shifted := day + 719468
  let era := shifted / 146097
  let dayOfEra := shifted % 146097
  let yearOfEra := (dayOfEra - dayOfEra / 1460 + dayOfEra / 36524 - dayOfEra / 146096) / 365
  let dayOfYear := dayOfEra - (365 * yearOfEra + yearOfEra / 4 - yearOfEra / 100)
  let month := (5 * dayOfYear + 2) / 153
  let dayOfMonth := dayOfYear - (153 * month + 2) / 5 + 1
  let m := if month < 10 then month + 3 else month - 9
  (yearOfEra + era * 400 + (if m ≤ 2 then 1 else 0), m, dayOfMonth)

/-- The years that a number of thirty-two bits can count from 1900 on. -/
def countsYear (year : Int) : Bool :=
  -0x80000000 ≤ year - 1900 && year - 1900 < 0x80000000

/-- The instant of a time that the host tells, in microseconds since the start of 1970. -/
def ofHost (micros : Int) : Except Fault Instant :=
  let (year, _, _) := civil (micros / 86400000000)
  if inCalendar micros then .ok ⟨micros⟩
  else .error (if countsYear year then .yearOutOfRange year else .unnamed .valueTooLarge)

theorem ofHost_of_inCalendar {micros : Int} (h : inCalendar micros = true) :
    ofHost micros = .ok ⟨micros⟩ :=
  if_pos h

/-- The calendar form of an instant in universal time: seconds are left out when they are zero and
no microseconds follow, and microseconds when they are zero. -/
def describe (t : Instant) : String :=
  let seconds := t.micros / 1000000
  let fraction := t.micros % 1000000
  let (year, month, day) := civil (seconds / 86400)
  let ofDay := seconds % 86400
  let tail :=
    if fraction ≠ 0 then [ofDay % 60, fraction]
    else if ofDay % 60 ≠ 0 then [ofDay % 60]
    else []
  let fields := [year, month, day, ofDay / 3600, ofDay % 3600 / 60] ++ tail
  "datetime.datetime(" ++ ", ".intercalate (fields.map toString)
    ++ ", tzinfo=datetime.timezone.utc)"

end Instant

/-- The numbers that temporary names are made of: those that are listed, then a count from zero. -/
structure Supply where
  /-- The numbers to use first. -/
  listed : List Int := []
  /-- The next number once the listed ones are used up. -/
  next : Nat := 0
deriving DecidableEq, Repr

/-- The next number, and the supply after it. -/
def Supply.draw (s : Supply) : Int × Supply :=
  match s.listed with
  | n :: rest => (n, { s with listed := rest })
  | [] => (s.next, { s with next := s.next + 1 })

end RootedFS
