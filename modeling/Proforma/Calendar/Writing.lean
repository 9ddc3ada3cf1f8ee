import Proforma.Calendar.Moment
import Proforma.Calendar.Pattern
import Proforma.Number.Double

/-! Dates and times written by a pattern. A field that a value does not have makes the whole
pattern unwritable. -/
namespace Proforma

def monthNames : List String :=
  ["January", "February", "March", "April", "May", "June", "July", "August", "September",
    "October", "November", "December"]

def weekdayNames : List String :=
  ["Monday", "Tuesday", "Wednesday", "Thursday", "Friday", "Saturday", "Sunday"]

namespace Padding

/-- Fills up to `width` characters, zeros after the sign and spaces before it. -/
def fill (padding : Padding) (width : Nat) (sign digits : List Char) : List Char :=
  let missing := width - (sign.length + digits.length)
  match padding with
  | none => sign ++ digits
  | zeros => sign ++ List.replicate missing '0' ++ digits
  | spaces => List.replicate missing ' ' ++ sign ++ digits

def writeNat (padding : Padding) (width n : Nat) : List Char :=
  padding.fill width [] (Nat.toDigits 10 n)

def writeInt (padding : Padding) (width : Nat) (n : Int) : List Char :=
  padding.fill width (if n < 0 then ['-'] else []) (Nat.toDigits 10 n.natAbs)

/-- Years of more or fewer than four digits, and years before zero, carry a sign. -/
def writeYear (padding : Padding) (year : Int) : List Char :=
  if 0 ≤ year ∧ year < 10000 then padding.fill 4 [] (Nat.toDigits 10 year.natAbs)
  else padding.fill 5 [if year < 0 then '-' else '+'] (Nat.toDigits 10 year.natAbs)

/-- A byte in two places. The tens are the character that many after zero, also past nine. -/
def writeByte (padding : Padding) (n : Int) : List Char :=
  let byte := (n % 256).toNat
  let tens := byte / 10
  let ones := Char.ofNat ('0'.toNat + byte % 10)
  if tens = 0 then
    match padding with
    | none => [ones]
    | zeros => ['0', ones]
    | spaces => [' ', ones]
  else [Char.ofNat ('0'.toNat + tens), ones]

end Padding

def twoDigits (n : Nat) : List Char := Padding.writeNat .zeros 2 n

/-- An offset from universal time, in whole minutes unless seconds are asked for. -/
def writeOffset (form : OffsetForm) (offset : Int) : Option (List Char) :=
  let sign := if offset < 0 then '-' else '+'
  let minutes := (offset.natAbs + 30) / 60
  match form with
  | .joined => some (sign :: twoDigits (minutes / 60) ++ twoDigits (minutes % 60))
  | .colon => some (sign :: twoDigits (minutes / 60) ++ ':' :: twoDigits (minutes % 60))
  | .seconds => some (sign :: twoDigits (offset.natAbs / 3600) ++
      ':' :: twoDigits (offset.natAbs / 60 % 60) ++ ':' :: twoDigits (offset.natAbs % 60))
  | .hours => some (sign :: twoDigits (offset.natAbs / 3600))
  | .lenient => none

namespace TimeOfDay

def writeFraction (t : TimeOfDay) : List Char :=
  let n := t.shownNanosecond
  if n = 0 then []
  else if n % 1000000 = 0 then '.' :: Padding.writeNat .zeros 3 (n / 1000000)
  else if n % 1000 = 0 then '.' :: Padding.writeNat .zeros 6 (n / 1000)
  else '.' :: Padding.writeNat .zeros 9 n

def write (t : TimeOfDay) : List Char :=
  twoDigits t.hour ++ ':' :: twoDigits t.minute ++ ':' :: twoDigits t.shownSecond

end TimeOfDay

def Date.write (d : Date) : List Char :=
  Padding.writeYear .zeros d.year ++ '-' :: twoDigits d.month ++ '-' :: twoDigits d.day

/-- The RFC 3339 form, with `+00:00` for universal time. -/
def Moment.write (m : Moment) : List Char :=
  m.date.write ++ 'T' :: m.time.write ++ m.time.writeFraction ++
    (writeOffset .colon m.offset).getD []

namespace NumericField

def writeDate? (field : NumericField) (padding : Padding) (d : Date) : Option (List Char) :=
  match field with
  | year => some (padding.writeYear d.year)
  | century => some (padding.writeByte (d.year / 100))
  | yearOfCentury => some (padding.writeByte (d.year % 100))
  | isoYear => some (padding.writeYear d.isoWeek.1)
  | isoYearOfCentury => some (padding.writeByte (d.isoWeek.1 % 100))
  | quarter => some (Nat.toDigits 10 d.quarter)
  | month => some (padding.writeByte d.month)
  | day => some (padding.writeByte d.day)
  | weekFromSunday => some (padding.writeByte d.weekFromSunday)
  | weekFromMonday => some (padding.writeByte d.weekFromMonday)
  | isoWeek => some (padding.writeByte d.isoWeek.2)
  | weekdayFromSunday => some (Nat.toDigits 10 d.daysFromSunday)
  | weekdayFromMonday => some (Nat.toDigits 10 (d.daysFromMonday + 1))
  | dayOfYear => some (padding.writeNat 3 d.ordinal)
  | _ => Option.none

def writeTime? (field : NumericField) (padding : Padding) (t : TimeOfDay) : Option (List Char) :=
  match field with
  | hour => some (padding.writeByte t.hour)
  | hour12 => some (padding.writeByte t.hour12)
  | minute => some (padding.writeByte t.minute)
  | second => some (padding.writeByte t.shownSecond)
  | nanosecond => some (padding.writeNat 9 t.shownNanosecond)
  | _ => Option.none

def write? (field : NumericField) (padding : Padding) (v : Temporal) : Option (List Char) :=
  match field with
  | timestamp => v.time?.map fun t =>
      padding.writeInt 9 (86400 * v.day.epochDay + t.secondOfDay - v.offset?.getD 0)
  | _ => field.writeDate? padding v.day <|> v.time?.bind (field.writeTime? padding)

end NumericField

def nameAt (names : List String) (index : Nat) : List Char := (names[index]?.getD "").toList

namespace WordField

def write? (field : WordField) (v : Temporal) : Option (List Char) :=
  match field with
  | shortMonth => some ((nameAt monthNames (v.day.month - 1)).take 3)
  | longMonth => some (nameAt monthNames (v.day.month - 1))
  | shortWeekday => some ((nameAt weekdayNames v.day.daysFromMonday).take 3)
  | longWeekday => some (nameAt weekdayNames v.day.daysFromMonday)
  | lowerHalfDay => v.time?.map fun t => if t.isAfternoon then ['p', 'm'] else ['a', 'm']
  | upperHalfDay => v.time?.map fun t => if t.isAfternoon then ['P', 'M'] else ['A', 'M']
  | fraction => v.time?.map (·.writeFraction)
  | fractionDigits count point => v.time?.map fun t =>
      (if point then ['.'] else []) ++
        Padding.writeNat .zeros count (t.shownNanosecond / Nat.pow 10 (9 - count))
  | zoneName => v.offset?.bind (writeOffset .colon)
  | zoneOffset form => v.offset?.bind (writeOffset form)
  | timestampText =>
    match v with
    | .moment m => some m.write
    | _ => none

end WordField

def PatternItem.write? (v : Temporal) : PatternItem → Option (List Char)
  | literal c => some [c]
  | number field padding => field.write? padding v
  | word field => field.write? v

/-- The text that a pattern gives for a value. -/
def Temporal.write? (v : Temporal) (pattern : List Char) : Option (List Char) := do
  let items ← readPattern? pattern
  let pieces ← items.mapM (·.write? v)
  some pieces.flatten

end Proforma
