import Proforma.Number.Form

/-!
Exact decimal amounts: a mantissa of at most 96 bits and at most 28 fraction digits. Reading
keeps as many digits as fit and rounds at the first fraction digit that does not; a negative
exponent that leaves too many fraction digits rounds again.
-/
namespace Proforma

structure Decimal where
  negative : Bool
  mantissa : Nat
  scale : Nat
  deriving DecidableEq, Repr

namespace Decimal

def greatest : Nat := Nat.pow 2 96 - 1

def greatestScale : Nat := 28

def isZero (d : Decimal) : Bool := d.mantissa == 0

/-- The last digit kept goes up when the next one is five or more. A mantissa that this carries
past the greatest one gives up a fraction digit. -/
def roundAt (negative : Bool) (mantissa scale next : Nat) : Option Decimal :=
  if next < 5 then some ⟨negative, mantissa, scale⟩
  else if mantissa + 1 ≤ greatest then some ⟨negative, mantissa + 1, scale⟩
  else if scale = 0 then none
  else some ⟨negative, (mantissa + 5) / 10, scale - 1⟩

/-- The first digit that does not fit decides how the digits kept are rounded. Nothing but digits
and underscores may follow them. -/
def roundRest (negative : Bool) (mantissa scale : Nat) (rest : List Char) : Option Decimal :=
  if rest.all fun c => c.isDigit || c == '_' then
    match rest.find? Char.isDigit with
    | some c => roundAt negative mantissa scale (Double.digitValue c)
    | none => some ⟨negative, mantissa, scale⟩
  else none

/-- What has been read so far. -/
structure Partial where
  negative : Bool
  mantissa : Nat
  scale : Nat
  afterPoint : Bool
  anyDigit : Bool

def readDigits : Partial → List Char → Option Decimal
  | p, [] => if p.anyDigit then some ⟨p.negative, p.mantissa, p.scale⟩ else none
  | p, c :: cs =>
    if c.isDigit then
      let mantissa := 10 * p.mantissa + Double.digitValue c
      let scale := if p.afterPoint then p.scale + 1 else 0
      if greatest < mantissa then
        if p.afterPoint then roundRest p.negative p.mantissa p.scale (c :: cs) else none
      else if p.afterPoint && greatestScale ≤ scale then roundRest p.negative mantissa scale cs
      else readDigits { p with mantissa, scale, anyDigit := true } cs
    else if c == '.' && !p.afterPoint then readDigits { p with afterPoint := true } cs
    else if c == '_' && p.anyDigit then readDigits p cs
    else none

/-- Digits with a sign in front, a point among them and underscores after the first digit. -/
def readPlain? : List Char → Option Decimal
  | '-' :: cs => readDigits ⟨true, 0, 0, false, false⟩ cs
  | '+' :: cs => readDigits ⟨false, 0, 0, false, false⟩ cs
  | cs => readDigits ⟨false, 0, 0, false, false⟩ cs

/-- Rounded half away from zero to the given number of fraction digits. -/
def round (d : Decimal) (places : Nat) : Decimal :=
  if d.scale ≤ places then d
  else
    let unit := Nat.pow 10 (d.scale - places)
    let quotient := d.mantissa / unit
    ⟨d.negative, if unit ≤ 2 * (d.mantissa % unit) then quotient + 1 else quotient, places⟩

def readExponent? (cs : List Char) : Option Nat :=
  let digits := match cs with
    | '+' :: digits => digits
    | digits => digits
  if digits.isEmpty || !digits.all Char.isDigit then none else some (Double.digitsValue digits)

/-- Moves the point: a positive exponent uses up fraction digits first and multiplies after
that; a negative one adds fraction digits, and those that do not fit are rounded away. -/
def shift? (d : Decimal) : Bool → Nat → Option Decimal
  | true, n =>
    if greatestScale < n then none
    else if d.scale + n ≤ greatestScale then some { d with scale := d.scale + n }
    else some { d.round (greatestScale - n) with scale := greatestScale }
  | false, n =>
    if n ≤ d.scale then some { d with scale := d.scale - n }
    else
      let mantissa := d.mantissa * Nat.pow 10 (n - d.scale)
      if n ≤ greatestScale ∧ mantissa ≤ greatest then some ⟨d.negative, mantissa, 0⟩ else none

/-- A plain amount, the letter `e` and an exponent. -/
def readScientific? (cs : List Char) : Option Decimal :=
  match cs.dropWhile (fun c => c != 'e' && c != 'E') with
  | [] => none
  | _ :: exponent => do
    let base ← readPlain? (cs.takeWhile fun c => c != 'e' && c != 'E')
    match exponent with
    | '-' :: digits => base.shift? true (← readExponent? digits)
    | digits => base.shift? false (← readExponent? digits)

def read? (cs : List Char) : Option Decimal := readPlain? cs <|> readScientific? cs

/-- Adds up to the given number of zeros to the fraction, as many as the mantissa has room
for. -/
def extend (d : Decimal) : Nat → Decimal
  | 0 => d
  | n + 1 =>
    if d.mantissa * 10 ≤ greatest then extend ⟨d.negative, d.mantissa * 10, d.scale + 1⟩ n
    else d

/-- The digits before and after the point, without the sign. -/
def parts (d : Decimal) : List Char × List Char :=
  let digits := Nat.toDigits 10 d.mantissa
  let padded := List.replicate (d.scale + 1 - digits.length) '0' ++ digits
  (padded.take (padded.length - d.scale), padded.drop (padded.length - d.scale))

example : read? "1_0.5e1".toList = some ⟨false, 105, 0⟩ := by decide
example : read? "0.004999999999999999999999999999".toList =
    some ⟨false, 50000000000000000000000000, 28⟩ := by decide
example : read? "0.0049999999999999999999999999_9".toList =
    some ⟨false, 50000000000000000000000000, 28⟩ := by decide
example : read? "0.05e-27".toList = some ⟨false, 1, 28⟩ := by decide
example : read? "1.2.3".toList = none := by decide
example : (round ⟨true, 5, 3⟩ 2) = ⟨true, 1, 2⟩ := by decide
example : parts ⟨false, 5, 2⟩ = (['0'], ['0', '5']) := by decide

end Decimal

end Proforma
