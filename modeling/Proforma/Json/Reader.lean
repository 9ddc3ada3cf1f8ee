import Proforma.Json.Basic
import Proforma.Text.Digit

/-!
Reading JSON text. Arrays and objects nest at most 127 deep. A number whose magnitude is beyond
the doubles is read as an infinite one, so that it only matters where its value is looked at.
-/
namespace Proforma.Json

open Text

def isSpace (c : Char) : Bool := c == ' ' || c == '\n' || c == '\t' || c == '\r'

def skipSpaces (cs : List Char) : List Char := cs.dropWhile isSpace

/-- A code unit of UTF-16 that needs a second one after it. -/
def isHighSurrogate (n : Nat) : Bool := 0xD800 ≤ n && n < 0xDC00

def isLowSurrogate (n : Nat) : Bool := 0xDC00 ≤ n && n < 0xE000

def escaped? (c : Char) : Option Char :=
  if c == '\x22' || c == '\\' || c == '/' then some c
  else if c == 'b' then some '\x08'
  else if c == 'f' then some '\x0c'
  else if c == 'n' then some '\n'
  else if c == 'r' then some '\r'
  else if c == 't' then some '\t'
  else none

/-- The rest of a string, after its opening quote. -/
def readString? : List Char → Option (List Char × List Char)
  | [] => none
  | '\\' :: 'u' :: a :: b :: c :: d :: cs =>
    match digitsIn? 16 [a, b, c, d] with
    | none => none
    | some high =>
      if isLowSurrogate high then none
      else if isHighSurrogate high then
        match cs with
        | '\\' :: 'u' :: a :: b :: c :: d :: cs =>
          match digitsIn? 16 [a, b, c, d] with
          | none => none
          | some low =>
            if isLowSurrogate low then
              let n := 0x10000 + (high - 0xD800) * 0x400 + (low - 0xDC00)
              (readString? cs).map fun (s, rest) => (Char.ofNat n :: s, rest)
            else none
        | _ => none
      else (readString? cs).map fun (s, rest) => (Char.ofNat high :: s, rest)
  | '\\' :: c :: cs =>
    match escaped? c with
    | none => none
    | some c => (readString? cs).map fun (s, rest) => (c :: s, rest)
  | c :: cs =>
    if c == '\x22' then some ([], cs)
    else if c.toNat < 0x20 then none
    else (readString? cs).map fun (s, rest) => (c :: s, rest)

/-- A significand of 64 bits and the power of ten that it is scaled by. -/
structure Scaled where
  significand : Nat
  exponent : Int

namespace Scaled

def push? (x : Scaled) (c : Char) : Option Scaled :=
  let n := 10 * x.significand + Double.digitValue c
  if n < UInt64.size then some { x with significand := n } else none

/-- Digits before the point. From the first one that does not fit they only raise the power. -/
def pushWhole (x : Scaled) : List Char → Scaled
  | [] => x
  | c :: cs =>
    match x.push? c with
    | some y => y.pushWhole cs
    | none => { x with exponent := x.exponent + (cs.length + 1) }

/-- Digits after the point. From the first one that does not fit they are left out. -/
def pushFraction (x : Scaled) : List Char → Scaled
  | [] => x
  | c :: cs =>
    match x.push? c with
    | some y => { y with exponent := y.exponent - 1 }.pushFraction cs
    | none => x

/-- Rounds the significand and then the scaled value; exponents below the least power of ten
are divided out in steps. -/
def toDouble : Nat → Double → Int → Double
  | 0, x, _ => x
  | steps + 1, x, exponent =>
    if exponent.natAbs ≤ 308 then
      let power := Double.ofDecimal false 1 exponent.natAbs
      if 0 ≤ exponent then x.mul power else x.div power
    else if x = .zero false then x
    else if 0 < exponent then .infinite false
    else toDouble steps (x.div (Double.ofDecimal false 1 308)) (exponent + 308)

def value (x : Scaled) (negative : Bool) : Double :=
  match toDouble 4 (.ofNat false x.significand) x.exponent with
  | .finite _ m e => .finite negative m e
  | _ => .infinite negative

end Scaled

/-- Integers of 64 bits stay integers; minus zero and everything else is a double. -/
def integerNumber (negative : Bool) (digits : List Char) : Number :=
  let n := Double.digitsValue digits
  if !negative && n < UInt64.size then .integer n
  else if negative && 0 < n && n ≤ Nat.pow 2 63 then .integer (-n)
  else .real ((Scaled.pushWhole ⟨0, 0⟩ digits).value negative)

def readExponent? : List Char → Option (Int × List Char)
  | c :: cs =>
    if c == 'e' || c == 'E' then
      let (negative, cs) := Double.readSign cs
      let digits := cs.takeWhile Char.isDigit
      if digits.isEmpty then none
      else
        let n : Int := Double.digitsValue digits
        some (if negative then -n else n, cs.dropWhile Char.isDigit)
    else some (0, c :: cs)
  | [] => some (0, [])

def readNumber? (cs : List Char) : Option (Number × List Char) := do
  let (negative, cs) := match cs with
    | '-' :: cs => (true, cs)
    | cs => (false, cs)
  let whole := cs.takeWhile Char.isDigit
  let cs := cs.dropWhile Char.isDigit
  if whole.isEmpty || (whole.head? == some '0' && 1 < whole.length) then none
  match cs with
  | '.' :: cs =>
    let fraction := cs.takeWhile Char.isDigit
    if fraction.isEmpty then none
    let (exponent, cs) ← readExponent? (cs.dropWhile Char.isDigit)
    let x := (Scaled.pushWhole ⟨0, 0⟩ whole).pushFraction fraction
    some (.real ({ x with exponent := x.exponent + exponent }.value negative), cs)
  | c :: _ =>
    if c == 'e' || c == 'E' then
      let (exponent, cs) ← readExponent? cs
      let x := Scaled.pushWhole ⟨0, 0⟩ whole
      some (.real ({ x with exponent := x.exponent + exponent }.value negative), cs)
    else some (integerNumber negative whole, cs)
  | [] => some (integerNumber negative whole, [])

def readScalar? : List Char → Option (Json × List Char)
  | 'n' :: 'u' :: 'l' :: 'l' :: cs => some (null, cs)
  | 't' :: 'r' :: 'u' :: 'e' :: cs => some (bool true, cs)
  | 'f' :: 'a' :: 'l' :: 's' :: 'e' :: cs => some (bool false, cs)
  | c :: cs =>
    if c == '\x22' then (readString? cs).map fun (s, rest) => (text (String.ofList s), rest)
    else (readNumber? (c :: cs)).map fun (n, rest) => (number n, rest)
  | [] => none

/-- The items after an opening bracket, at least one of them, up to the closing bracket. -/
def readItems (read : List Char → Option (Json × List Char)) :
    Nat → List Char → Option (List Json × List Char)
  | 0, _ => none
  | fuel + 1, cs => do
    let (v, cs) ← read cs
    match skipSpaces cs with
    | ',' :: cs => (readItems read fuel cs).map fun (vs, rest) => (v :: vs, rest)
    | ']' :: cs => some ([v], cs)
    | _ => none

def readKey? (cs : List Char) : Option (String × List Char) :=
  match skipSpaces cs with
  | c :: cs =>
    if c == '\x22' then do
      let (key, cs) ← readString? cs
      match skipSpaces cs with
      | ':' :: cs => some (String.ofList key, cs)
      | _ => none
    else none
  | [] => none

/-- The members after an opening brace, at least one of them, up to the closing brace. -/
def readMembers (read : List Char → Option (Json × List Char)) :
    Nat → List Char → Option (List (String × Json) × List Char)
  | 0, _ => none
  | fuel + 1, cs => do
    let (key, cs) ← readKey? cs
    let (v, cs) ← read cs
    match skipSpaces cs with
    | ',' :: cs => (readMembers read fuel cs).map fun (ms, rest) => ((key, v) :: ms, rest)
    | '}' :: cs => some ([(key, v)], cs)
    | _ => none

def readValue? : Nat → List Char → Option (Json × List Char)
  | 0, cs => readScalar? (skipSpaces cs)
  | depth + 1, cs =>
    match skipSpaces cs with
    | '[' :: cs =>
      match skipSpaces cs with
      | ']' :: cs => some (array [], cs)
      | _ => (readItems (readValue? depth) cs.length cs).map fun (vs, rest) => (array vs, rest)
    | '{' :: cs =>
      match skipSpaces cs with
      | '}' :: cs => some (object [], cs)
      | _ =>
        (readMembers (readValue? depth) cs.length cs).map fun (ms, rest) => (object ms, rest)
    | cs => readScalar? cs

/-- The value that a whole text stands for. -/
def read? (s : String) : Option Json := do
  let (v, rest) ← readValue? 127 s.toList
  if (skipSpaces rest).isEmpty then some v else none

mutual

/-- Every number is a finite one. -/
def allFinite : Json → Bool
  | number (.real x) => x.isFinite
  | array items => allFiniteItems items
  | object members => allFiniteMembers members
  | _ => true

def allFiniteItems : List Json → Bool
  | [] => true
  | v :: vs => allFinite v && allFiniteItems vs

def allFiniteMembers : List (String × Json) → Bool
  | [] => true
  | (_, v) :: ms => allFinite v && allFiniteMembers ms

end

def readFinite? (s : String) : Option Json := (read? s).filter allFinite

end Proforma.Json
