import Proforma.Calendar.Reading
import Proforma.Json.Basic
import Proforma.Text.Digit

/-!
TOML strings, numbers, booleans, dates and times. A date or time becomes an object with a single
member, which is mistaken for no other value.
-/
namespace Proforma.Toml

open Text Calendar

def isGap (c : Char) : Bool := c == ' ' || c == '\t'

def skipGaps (cs : List Char) : List Char := cs.dropWhile isGap

/-- The rest after a line feed, or after a carriage return and a line feed. -/
def lineEnd? : List Char → Option (List Char)
  | '\n' :: cs => some cs
  | '\r' :: '\n' :: cs => some cs
  | _ => none

/-- Control characters stand nowhere, except for tabs. -/
def isControl (c : Char) : Bool := (c.toNat < 0x20 && c != '\t') || c.toNat == 0x7F

def namedEscapes : List (Char × Char) :=
  [('b', '\x08'), ('t', '\t'), ('n', '\n'), ('f', '\x0c'), ('r', '\r'), ('e', '\x1b'),
    ('\x22', '\x22'), ('\\', '\\')]

/-- The character of an escape without its backslash, and how long the escape is. -/
def escape? : List Char → Option (Char × Nat)
  | [] => none
  | e :: cs =>
    let length := if e == 'x' then 2 else if e == 'u' then 4 else if e == 'U' then 8 else 0
    if length = 0 then (namedEscapes.lookup e).map fun c => (c, 1)
    else if cs.length < length then none
    else ((digitsIn? 16 (cs.take length)).bind charOf?).map fun c => (c, length + 1)

/-- The rest of a string on one line, after its first quote. `pending` characters were part of
the last escape. -/
def lineString? (quote : Char) (pending : Nat) : List Char → Option (List Char × List Char)
  | [] => none
  | c :: cs =>
    match pending with
    | n + 1 => lineString? quote n cs
    | 0 =>
      if c == quote then some ([], cs)
      else if isControl c then none
      else if c == '\\' && quote == '\x22' then do
        let (c, length) ← escape? cs
        (lineString? quote length cs).map fun (s, rest) => (c :: s, rest)
      else (lineString? quote 0 cs).map fun (s, rest) => (c :: s, rest)

/-- The rest of a string of several lines, after its three quotes. Up to two quotes may stand
before the three that end it. A backslash at the end of a line removes the white space up to the
next text. -/
def textString? (quote : Char) (skipping : Bool) (pending : Nat) :
    List Char → Option (List Char × List Char)
  | [] => none
  | c :: cs =>
    match pending with
    | n + 1 => textString? quote skipping n cs
    | 0 =>
      if skipping && (isGap c || c == '\n' || (c == '\r' && cs.head? == some '\n')) then
        textString? quote true 0 cs
      else if c == quote && cs.take 2 == [quote, quote] then
        let extra := ((cs.drop 2).take 2).takeWhile (· == quote)
        some (extra, cs.drop (2 + extra.length))
      else if c == '\n' then
        (textString? quote false 0 cs).map fun (s, rest) => ('\n' :: s, rest)
      else if c == '\r' && cs.head? == some '\n' then textString? quote false 0 cs
      else if isControl c then none
      else if c == '\\' && quote == '\x22' then
        if (lineEnd? (skipGaps cs)).isSome then textString? quote true 0 cs
        else do
          let (c, length) ← escape? cs
          (textString? quote false length cs).map fun (s, rest) => (c :: s, rest)
      else (textString? quote false 0 cs).map fun (s, rest) => (c :: s, rest)

def isQuote (c : Char) : Bool := c == '\x22' || c == '\x27'

/-- A string in any of its four forms. -/
def string? : List Char → Option (List Char × List Char)
  | [] => none
  | quote :: cs =>
    if !isQuote quote then none
    else if cs.take 2 == [quote, quote] then
      let cs := cs.drop 2
      textString? quote false 0 ((lineEnd? cs).getD cs)
    else lineString? quote 0 cs

/-- Removes the underscores of a number, each of which stands between two digits. -/
def digits? (isDigit : Char → Bool) : List Char → Option (List Char)
  | [] => none
  | [c] => if isDigit c then some [c] else none
  | c :: '_' :: cs => if isDigit c then (digits? isDigit cs).map (c :: ·) else none
  | c :: cs => if isDigit c then (digits? isDigit cs).map (c :: ·) else none

/-- Decimal digits without a needless zero in front. -/
def whole? (cs : List Char) : Option (List Char) :=
  (digits? Char.isDigit cs).filter fun ds => ds.length = 1 || ds.head? != some '0'

/-- No number may need more than 128 bits. -/
def fits (n : Int) : Bool := -(Int.pow 2 127) ≤ n && n < Int.pow 2 128

def radix? (base : Nat) (cs : List Char) : Option Json :=
  ((digits? (fun c => (digit? base c).isSome) cs).bind (digitsIn? base)).bind fun n =>
    if fits n then some (.number (.integer n)) else none

def integer? (cs : List Char) : Option Json := do
  let (negative, unsigned) := Double.readSign cs
  let n : Int := Double.digitsValue (← whole? unsigned)
  let n := if negative then -n else n
  if fits n then some (.number (.integer n)) else none

def isExponentMark (c : Char) : Bool := c == 'e' || c == 'E'

/-- A number with a point or an exponent. It must not be beyond the doubles. -/
def float? (cs : List Char) : Option Json := do
  let (negative, cs) := Double.readSign cs
  if cs == "inf".toList then return .number (.real (.infinite negative))
  if cs == "nan".toList then return .number (.real .nan)
  let isEnd (c : Char) : Bool := c == '.' || isExponentMark c
  let whole ← whole? (cs.takeWhile (!isEnd ·))
  let rest := cs.dropWhile (!isEnd ·)
  let (fraction, rest) ← match rest with
    | '.' :: cs => do
      let fraction ← digits? Char.isDigit (cs.takeWhile (!isExponentMark ·))
      some (fraction, cs.dropWhile (!isExponentMark ·))
    | _ => some ([], rest)
  let exponent ← match rest with
    | [] => if fraction.isEmpty then none else some 0
    | _ :: cs => do
      let (negative, cs) := Double.readSign cs
      let n : Int := Double.digitsValue (← digits? Char.isDigit cs)
      some (if negative then -n else n)
  let x := Double.ofDecimal negative (Double.digitsValue (whole ++ fraction))
    (exponent - fraction.length)
  if x.isFinite then some (.number (.real x)) else none

def number? : List Char → Option Json
  | '0' :: 'x' :: cs => radix? 16 cs
  | '0' :: 'o' :: cs => radix? 8 cs
  | '0' :: 'b' :: cs => radix? 2 cs
  | cs => integer? cs <|> float? cs

def date? (cs : List Char) : Option (List Char) := do
  let (year, cs) ← fixedDigits? 4 cs
  let (month, cs) ← fixedDigits? 2 (← char? '-' cs)
  let (day, cs) ← fixedDigits? 2 (← char? '-' cs)
  let _ ← Date.ofFields? year month day
  some cs

/-- Seconds, which may have a fraction. -/
def seconds? (cs : List Char) : Option (List Char) := do
  let (second, cs) ← fixedDigits? 2 cs
  if 60 < second then none
  match cs with
  | '.' :: cs => if (cs.takeWhile Char.isDigit).isEmpty then none else some (cs.dropWhile Char.isDigit)
  | cs => some cs

/-- A time of day, in which the seconds may be left out. -/
def time? (cs : List Char) : Option (List Char) := do
  let (hour, cs) ← fixedDigits? 2 cs
  let (minute, cs) ← fixedDigits? 2 (← char? ':' cs)
  if 23 < hour || 59 < minute then none
  match cs with
  | ':' :: cs => seconds? cs
  | cs => some cs

def offset? : List Char → Option (List Char)
  | c :: cs =>
    if c == 'Z' || c == 'z' then some cs
    else if c == '+' || c == '-' then do
      let (hour, cs) ← fixedDigits? 2 cs
      let (minute, cs) ← fixedDigits? 2 (← char? ':' cs)
      if 23 < hour || 59 < minute then none else some cs
    else none
  | [] => none

/-- A date, a time, or both with or without an offset; nothing may follow. -/
def isTemporal (cs : List Char) : Bool :=
  let ends (r : Option (List Char)) : Bool := r == some []
  ends (time? cs) ||
    match date? cs with
    | some [] => true
    | some (mark :: rest) =>
      (mark == 'T' || mark == 't' || mark == ' ') &&
        match time? rest with
        | some [] => true
        | some rest => ends (offset? rest)
        | none => false
    | none => false

def isWordChar (c : Char) : Bool :=
  c.isAlphanum || c == '_' || c == '-' || c == '+' || c == '.' || c == ':'

/-- The word at the front. A single space may stand between a date and a time. -/
def word (cs : List Char) : List Char × List Char :=
  let first := cs.takeWhile isWordChar
  let rest := cs.dropWhile isWordChar
  match rest with
  | ' ' :: c :: tail =>
    if date? first == some [] && c.isDigit then
      (first ++ ' ' :: (c :: tail).takeWhile isWordChar, (c :: tail).dropWhile isWordChar)
    else (first, rest)
  | _ => (first, rest)

/-- The value of a word. -/
def ofWord? (cs : List Char) : Option Json :=
  if cs == "true".toList then some (.bool true)
  else if cs == "false".toList then some (.bool false)
  else if isTemporal cs then some (.object [("moment", .text (String.ofList cs))])
  else number? cs

def isBareKeyChar (c : Char) : Bool := c.isAlphanum || c == '_' || c == '-'

/-- A key: a bare word, or a string on one line. -/
def simpleKey? (cs : List Char) : Option (String × List Char) :=
  match cs with
  | c :: rest =>
    if isQuote c then (lineString? c 0 rest).map fun (s, rest) => (String.ofList s, rest)
    else
      let name := cs.takeWhile isBareKeyChar
      if name.isEmpty then none
      else some (String.ofList name, cs.dropWhile isBareKeyChar)
  | [] => none

/-- Keys with points between them. -/
def key? : Nat → List Char → Option (List String × List Char)
  | 0, _ => none
  | fuel + 1, cs => do
    let (first, cs) ← simpleKey? (skipGaps cs)
    match skipGaps cs with
    | '.' :: cs => (key? fuel cs).map fun (keys, rest) => (first :: keys, rest)
    | cs => some ([first], cs)

end Proforma.Toml
