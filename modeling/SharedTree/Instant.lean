import SharedTree.Instant.Calendar
import SharedTree.Text.Blank
import SharedTree.Text.Decimal
/-!
Points in time, to the nanosecond, in UTC. The written form is that of RFC 3339 with `Z` and with
0, 3, 6 or 9 digits of the second's fraction, the fewest that lose nothing. Reading is lenient in
white space and in the separators, and takes any offset of less than a day.
-/
namespace SharedTree

/-- Seconds since 1970-01-01T00:00:00Z and nanoseconds beyond them. A leap second is told by a
second's worth of nanoseconds on top of the second before it. -/
structure Instant where
  seconds : Int
  nanos : Fin 2000000000
deriving DecidableEq

namespace Instant

instance : Inhabited Instant := ⟨0, 0⟩

instance : Ord Instant :=
  ⟨fun a b => (compare a.seconds b.seconds).then (compare a.nanos b.nanos)⟩

def ofNanos (nanos : Int) : Instant :=
  ⟨nanos / 1000000000, Fin.ofNat _ (nanos % 1000000000).toNat⟩

def millis (instant : Instant) : Int := instant.seconds * 1000 + (instant.nanos.val / 1000000 : Nat)

def yearText (year : Int) : List Char :=
  if 0 ≤ year ∧ year ≤ 9999 then Decimal.fixed 4 year.natAbs
  else
    let sign := if year < 0 then '-' else '+'
    sign :: (if year.natAbs ≤ 9999 then Decimal.fixed 4 year.natAbs else Decimal.digits year.natAbs)

/-- The fraction of a second in the fewest groups of three digits that lose nothing. -/
def fractionText (nanos : Nat) : List Char :=
  if nanos = 0 then []
  else if nanos % 1000000 = 0 then '.' :: Decimal.fixed 3 (nanos / 1000000)
  else if nanos % 1000 = 0 then '.' :: Decimal.fixed 6 (nanos / 1000)
  else '.' :: Decimal.fixed 9 nanos

def text (instant : Instant) : List Char :=
  let date := Date.ofDay (instant.seconds / 86400)
  let ofDay := (instant.seconds % 86400).toNat
  let second := ofDay % 60 + instant.nanos.val / 1000000000
  yearText date.year ++ '-' :: Decimal.fixed 2 date.month ++ '-' :: Decimal.fixed 2 date.day ++
    'T' :: Decimal.fixed 2 (ofDay / 3600) ++ ':' :: Decimal.fixed 2 (ofDay / 60 % 60) ++
    ':' :: Decimal.fixed 2 second ++ fractionText (instant.nanos.val % 1000000000) ++ ['Z']

def spanDigits (most : Nat) (raw : List Char) : List Char × List Char :=
  let run := (raw.take most).takeWhile Decimal.isDigit
  (run, raw.drop run.length)

def readNumber? (most : Nat) (raw : List Char) : Option (Nat × List Char) :=
  let (run, rest) := spanDigits most (Text.trimStart raw)
  (Decimal.read? run).map fun number => (number, rest)

def readYear? (raw : List Char) : Option (Int × List Char) :=
  match Text.trimStart raw with
  | '-' :: rest =>
      let (run, tail) := spanDigits rest.length rest
      (Decimal.read? run).map fun number => (-(number : Int), tail)
  | '+' :: rest =>
      let (run, tail) := spanDigits rest.length rest
      (Decimal.read? run).map fun number => ((number : Int), tail)
  | rest => (readNumber? 4 rest).map fun (number, tail) => ((number : Int), tail)

def skip? (c : Char) (raw : List Char) : Option (List Char) :=
  match Text.trimStart raw with
  | d :: rest => if d = c then some rest else none
  | [] => none

def readFraction? (raw : List Char) : Option (Nat × List Char) :=
  match raw with
  | '.' :: rest =>
      let (run, tail) := spanDigits 9 rest
      (Decimal.read? run).map fun number =>
        (number * Nat.pow 10 (9 - run.length), tail.dropWhile Decimal.isDigit)
  | rest => some (0, rest)

def readPair? (raw : List Char) : Option (Nat × List Char) :=
  match raw with
  | a :: b :: rest =>
      match Decimal.value? a, Decimal.value? b with
      | some tens, some ones => some (tens * 10 + ones, rest)
      | _, _ => none
  | _ => none

def readHoursMinutes? (raw : List Char) : Option (Int × List Char) := do
  let (hours, rest) ← readPair? raw
  let (minutes, rest) ← readPair? (rest.dropWhile fun c => c == ':' || Text.isBlank c)
  if minutes < 60 then some ((hours * 3600 + minutes * 60 : Nat), rest) else none

def readOffset? (raw : List Char) : Option (Int × List Char) :=
  match Text.trimStart raw with
  | 'Z' :: rest => some (0, rest)
  | 'z' :: rest => some (0, rest)
  | '+' :: rest => readHoursMinutes? rest
  | '-' :: rest => (readHoursMinutes? rest).map fun (offset, tail) => (-offset, tail)
  | '−' :: rest => (readHoursMinutes? rest).map fun (offset, tail) => (-offset, tail)
  | u :: t :: c :: rest =>
      if Text.lowerAscii [u, t, c] = ['u', 't', 'c'] then some (0, rest) else none
  | _ => none

def firstYear : Int := -262143

def lastYear : Int := 262142

def firstSecond : Int := Date.toDay ⟨firstYear, 1, 1⟩ * 86400

def lastSecond : Int := Date.toDay ⟨lastYear, 12, 31⟩ * 86400 + 86399

/-- The instant of a date, a time of day and an offset, if they exist. The year must be in range
both as it is given and in UTC. Second 60 is a leap second. -/
def ofParts? (date : Date) (hour minute second nanos : Nat) (offset : Int) : Option Instant :=
  if date.isValid ∧ firstYear ≤ date.year ∧ date.year ≤ lastYear ∧ hour ≤ 23 ∧ minute ≤ 59 ∧
      second ≤ 60 ∧ offset.natAbs < 86400 then
    let leap := second / 60
    let seconds :=
      date.toDay * 86400 + (hour * 3600 + minute * 60 + (second - leap) : Nat) - offset
    if firstSecond ≤ seconds ∧ seconds ≤ lastSecond then
      some { seconds, nanos := Fin.ofNat 2000000000 (nanos + leap * 1000000000) }
    else none
  else none

def parse? (raw : List Char) : Option Instant := do
  let (year, rest) ← readYear? raw
  let rest ← skip? '-' rest
  let (month, rest) ← readNumber? 2 rest
  let rest ← skip? '-' rest
  let (day, rest) ← readNumber? 2 rest
  let rest ← match rest with
    | c :: tail => if c = 'T' ∨ c = 't' ∨ c = ' ' then some tail else none
    | [] => none
  let (hour, rest) ← readNumber? 2 rest
  let rest ← skip? ':' rest
  let (minute, rest) ← readNumber? 2 rest
  let rest ← skip? ':' rest
  let (second, rest) ← readNumber? 2 rest
  let (nanos, rest) ← readFraction? rest
  let (offset, rest) ← readOffset? rest
  if (Text.trimStart rest).isEmpty then ofParts? ⟨year, month, day⟩ hour minute second nanos offset
  else none

end Instant

end SharedTree
