import Proforma.Calendar.Moment
import Proforma.Number.Form
import Proforma.Text.Blank

/-!
Dates and times read from text: a bare date, an RFC 3339 timestamp, and a date and time without
an offset. Apart from timestamps, fields may have white space before them and need not be
filled up with zeros.
-/
namespace Proforma

open Text

namespace Calendar

def char? (c : Char) : List Char → Option (List Char)
  | d :: cs => if c = d then some cs else none
  | [] => none

/-- Exactly `width` digits. -/
def fixedDigits? (width : Nat) (cs : List Char) : Option (Nat × List Char) :=
  let digits := cs.take width
  if digits.length = width ∧ digits.all Char.isDigit then
    some (Double.digitsValue digits, cs.drop width)
  else none

/-- Up to `width` digits, and at least one. -/
def someDigits? (width : Nat) (cs : List Char) : Option (Nat × List Char) :=
  let digits := (cs.take width).takeWhile Char.isDigit
  if digits.isEmpty then none
  else some (Double.digitsValue digits, cs.drop digits.length)

/-- The digits of a fraction as nanoseconds; digits after the ninth do not count. -/
def fractionDigits? (cs : List Char) : Option (Nat × List Char) := do
  let (n, rest) ← someDigits? 9 cs
  let taken := ((cs.take 9).takeWhile Char.isDigit).length
  some (n * Nat.pow 10 (9 - taken), rest.dropWhile Char.isDigit)

def fraction? : List Char → Option (Nat × List Char)
  | '.' :: cs => fractionDigits? cs
  | cs => some (0, cs)

def field? (width : Nat) (cs : List Char) : Option (Nat × List Char) :=
  someDigits? width (skipBlanks cs)

/-- A year of up to four digits, or of any number of digits after a sign. -/
def year? (cs : List Char) : Option (Int × List Char) :=
  match skipBlanks cs with
  | '-' :: cs => (someDigits? cs.length cs).map fun (n, rest) => (-(n : Int), rest)
  | '+' :: cs => (someDigits? cs.length cs).map fun (n, rest) => ((n : Int), rest)
  | cs => (someDigits? 4 cs).map fun (n, rest) => ((n : Int), rest)

def date? (cs : List Char) : Option (Date × List Char) := do
  let (year, cs) ← year? cs
  let (month, cs) ← field? 2 (← char? '-' cs)
  let (day, cs) ← field? 2 (← char? '-' cs)
  some (← Date.ofFields? year month day, cs)

def time? (cs : List Char) : Option (TimeOfDay × List Char) := do
  let (hour, cs) ← field? 2 cs
  let (minute, cs) ← field? 2 (← char? ':' cs)
  let (second, cs) ← field? 2 (← char? ':' cs)
  let (nanosecond, cs) ← fraction? cs
  some (← TimeOfDay.ofFields? hour minute second nanosecond, cs)

/-- `Z`, or a sign, two digits of hours, a colon and two digits of minutes. The sign may be the
mathematical minus. -/
def offset? : List Char → Option (Int × List Char)
  | [] => none
  | c :: cs => do
    if c == 'Z' || c == 'z' then return (0, cs)
    if c != '+' && c != '-' && c != '\u2212' then none
    let (hours, cs) ← fixedDigits? 2 cs
    let (minutes, cs) ← fixedDigits? 2 (← char? ':' cs)
    if hours < 24 ∧ minutes < 60 then
      let seconds : Int := 3600 * hours + 60 * minutes
      some (if c == '+' then seconds else -seconds, cs)
    else none

def isDateTimeMark (c : Char) : Bool := c == 'T' || c == 't' || c == ' '

end Calendar

open Calendar

def Date.read? (cs : List Char) : Option Date :=
  match date? cs with
  | some (d, []) => some d
  | _ => none

/-- An RFC 3339 timestamp. -/
def Moment.read? (cs : List Char) : Option Moment := do
  let (year, cs) ← fixedDigits? 4 cs
  let (month, cs) ← fixedDigits? 2 (← char? '-' cs)
  let (day, cs) ← fixedDigits? 2 (← char? '-' cs)
  let date ← Date.ofFields? year month day
  match cs with
  | [] => none
  | mark :: cs =>
    if !isDateTimeMark mark then none
    let (hour, cs) ← fixedDigits? 2 cs
    let (minute, cs) ← fixedDigits? 2 (← char? ':' cs)
    let (second, cs) ← fixedDigits? 2 (← char? ':' cs)
    let (nanosecond, cs) ← fraction? cs
    let time ← TimeOfDay.ofFields? hour minute second nanosecond
    let (offset, cs) ← offset? cs
    if cs.isEmpty then some ⟨date, time, offset⟩ else none

/-- A date, a separator and a time of day. -/
def readClock? (separator : List Char → Option (List Char)) (cs : List Char) :
    Option (Date × TimeOfDay) := do
  let (date, cs) ← date? cs
  let (time, cs) ← time? (← separator cs)
  if cs.isEmpty then some (date, time) else none

def Temporal.read? (cs : List Char) : Option Temporal :=
  ((Date.read? cs).map date) <|> ((Moment.read? cs).map moment) <|>
    ((readClock? (char? 'T') cs).map fun (d, t) => clock d t) <|>
    ((readClock? (some <| skipBlanks ·) cs).map fun (d, t) => clock d t)

example : Temporal.read? "2024-3-5".toList = some (.date ⟨2024, 3, 5⟩) := by decide
example : Temporal.read? "2024-03-05t14:30:00.5z".toList =
    some (.moment ⟨⟨2024, 3, 5⟩, ⟨14, 30, 0, 500000000⟩, 0⟩) := by decide
example : Temporal.read? "2024-03-05 14:30:60".toList =
    some (.clock ⟨2024, 3, 5⟩ ⟨14, 30, 59, 1000000000⟩) := by decide
example : Temporal.read? "2024-03-05T14:30".toList = none := by decide

end Proforma
