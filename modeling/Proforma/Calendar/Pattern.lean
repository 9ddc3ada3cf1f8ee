import Proforma.Text.Blank

/-!
Date patterns: text in which a percent sign and a letter stand for a field of a date or time.
Between the two, a hyphen, an underscore or a zero changes the padding of a single numeric
field.
-/
namespace Proforma

inductive Padding where
  | none | zeros | spaces
  deriving DecidableEq, Repr

inductive NumericField where
  | year | century | yearOfCentury | isoYear | isoYearOfCentury | quarter | month | day
  | weekFromSunday | weekFromMonday | isoWeek | weekdayFromSunday | weekdayFromMonday
  | dayOfYear | hour | hour12 | minute | second | nanosecond | timestamp
  deriving DecidableEq, Repr

/-- How much of an offset from universal time is shown. -/
inductive OffsetForm where
  | joined | colon | seconds | hours
  /-- Read leniently and never written. -/
  | lenient
  deriving DecidableEq, Repr

inductive WordField where
  | shortMonth | longMonth | shortWeekday | longWeekday | lowerHalfDay | upperHalfDay
  /-- A point and 3, 6 or 9 digits of the second, or nothing for a whole second. -/
  | fraction
  | fractionDigits (count : Nat) (point : Bool)
  | zoneName
  | zoneOffset (form : OffsetForm)
  | timestampText
  deriving DecidableEq, Repr

inductive PatternItem where
  | literal (c : Char)
  | number (field : NumericField) (padding : Padding)
  | word (field : WordField)
  deriving DecidableEq, Repr

namespace PatternItem

def slash : PatternItem := literal '/'
def dash : PatternItem := literal '-'
def space : PatternItem := literal ' '
def colon : PatternItem := literal ':'

def padded (field : NumericField) : PatternItem := number field .zeros

def slashDate : List PatternItem :=
  [padded .month, slash, padded .day, slash, padded .yearOfCentury]

def clockTime : List PatternItem :=
  [padded .hour, colon, padded .minute, colon, padded .second]

/-- What a single letter after the percent sign stands for. -/
def ofLetter? : Char → Option (List PatternItem)
  | 'A' => some [word .longWeekday]
  | 'B' => some [word .longMonth]
  | 'C' => some [padded .century]
  | 'D' => some slashDate
  | 'F' => some [padded .year, dash, padded .month, dash, padded .day]
  | 'G' => some [padded .isoYear]
  | 'H' => some [padded .hour]
  | 'I' => some [padded .hour12]
  | 'M' => some [padded .minute]
  | 'P' => some [word .lowerHalfDay]
  | 'R' => some [padded .hour, colon, padded .minute]
  | 'S' => some [padded .second]
  | 'T' => some clockTime
  | 'U' => some [padded .weekFromSunday]
  | 'V' => some [padded .isoWeek]
  | 'W' => some [padded .weekFromMonday]
  | 'X' => some clockTime
  | 'Y' => some [padded .year]
  | 'Z' => some [word .zoneName]
  | 'a' => some [word .shortWeekday]
  | 'b' => some [word .shortMonth]
  | 'c' => some ([word .shortWeekday, space, word .shortMonth, space, number .day .spaces, space] ++
      clockTime ++ [space, padded .year])
  | 'd' => some [padded .day]
  | 'e' => some [number .day .spaces]
  | 'f' => some [padded .nanosecond]
  | 'g' => some [padded .isoYearOfCentury]
  | 'h' => some [word .shortMonth]
  | 'j' => some [padded .dayOfYear]
  | 'k' => some [number .hour .spaces]
  | 'l' => some [number .hour12 .spaces]
  | 'm' => some [padded .month]
  | 'n' => some [literal '\n']
  | 'p' => some [word .upperHalfDay]
  | 'q' => some [number .quarter .none]
  | 'r' => some [padded .hour12, colon, padded .minute, colon, padded .second, space,
      word .upperHalfDay]
  | 's' => some [number .timestamp .none]
  | 't' => some [literal '\t']
  | 'u' => some [number .weekdayFromMonday .none]
  | 'v' => some [number .day .spaces, dash, word .shortMonth, dash, padded .year]
  | 'w' => some [number .weekdayFromSunday .none]
  | 'x' => some slashDate
  | 'y' => some [padded .yearOfCentury]
  | 'z' => some [word (.zoneOffset .joined)]
  | '+' => some [word .timestampText]
  | '%' => some [literal '%']
  | _ => none

def repadded? (padding : Padding) : List PatternItem → Option (List PatternItem)
  | [number field _] => some [number field padding]
  | _ => none

def fractionCount? : Char → Option Nat
  | '3' => some 3
  | '6' => some 6
  | '9' => some 9
  | _ => none

/-- What stands after a percent sign, and how many characters it takes. -/
def specifier? : List Char → Option (List PatternItem × Nat)
  | [] => none
  | '-' :: c :: _ => ((ofLetter? c).bind (repadded? .none)).map (·, 2)
  | '_' :: c :: _ => ((ofLetter? c).bind (repadded? .spaces)).map (·, 2)
  | '0' :: c :: _ => ((ofLetter? c).bind (repadded? .zeros)).map (·, 2)
  | '#' :: 'z' :: _ => some ([word (.zoneOffset .lenient)], 2)
  | ':' :: ':' :: ':' :: 'z' :: _ => some ([word (.zoneOffset .hours)], 4)
  | ':' :: ':' :: 'z' :: _ => some ([word (.zoneOffset .seconds)], 3)
  | ':' :: 'z' :: _ => some ([word (.zoneOffset .colon)], 2)
  | '.' :: 'f' :: _ => some ([word .fraction], 2)
  | '.' :: c :: 'f' :: _ => (fractionCount? c).map fun n => ([word (.fractionDigits n true)], 3)
  | c :: rest =>
    match fractionCount? c, rest with
    | some n, 'f' :: _ => some ([word (.fractionDigits n false)], 2)
    | some _, _ => none
    | none, _ => (ofLetter? c).map (·, 1)

end PatternItem

/-- The items of a pattern; none if a percent sign has no meaning. -/
def readPattern? : List Char → Option (List PatternItem)
  | [] => some []
  | '%' :: cs =>
    match PatternItem.specifier? cs with
    | none => none
    | some (items, taken) => (readPattern? (cs.drop taken)).map (items ++ ·)
  | c :: cs => (readPattern? cs).map (.literal c :: ·)
termination_by cs => cs.length
decreasing_by
  · simp only [List.length_drop, List.length_cons]; omega
  · simp

def isPattern (pattern : String) : Bool := (readPattern? pattern.toList).isSome

end Proforma
