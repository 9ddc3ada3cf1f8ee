/-!
Double-precision numbers as exact data: a sign, a mantissa below `2 ^ 53` and a power of two.
Every operation rounds an exact quotient once, to the nearest double, ties to even.
-/
namespace Proforma

inductive Double where
  | nan
  | infinite (negative : Bool)
  /-- The number `± mantissa * 2 ^ exponent`. -/
  | finite (negative : Bool) (mantissa : Nat) (exponent : Int)
  deriving DecidableEq, Repr

namespace Double

def leastExponent : Int := -1074

def greatestExponent : Int := 971

def zero (negative : Bool) : Double := .finite negative 0 leastExponent

def isFinite : Double → Bool
  | finite .. => true
  | _ => false

/-- The quotient rounded to the nearest integer, ties to even. -/
def roundQuotient (num den : Nat) : Nat :=
  let quotient := num / den
  let rest := num % den
  if 2 * rest < den then quotient
  else if den < 2 * rest then quotient + 1
  else quotient + quotient % 2

/-- `2 ^ k ≤ num / den`. -/
def powerLe (k : Int) (num den : Nat) : Bool :=
  if 0 ≤ k then den * Nat.pow 2 k.toNat ≤ num else den ≤ num * Nat.pow 2 (-k).toNat

/-- The greatest `k` with `2 ^ k ≤ num / den`, for a positive quotient. -/
def binaryOrder (num den : Nat) : Int :=
  let k : Int := num.log2 - den.log2
  if powerLe k num den then k else k - 1

/-- The double nearest to `± num / den`. -/
def ofQuotient (negative : Bool) (num den : Nat) : Double :=
  if num = 0 then zero negative else
  let e := max (binaryOrder num den - 52) leastExponent
  let m := if 0 ≤ e then roundQuotient num (den * Nat.pow 2 e.toNat)
    else roundQuotient (num * Nat.pow 2 (-e).toNat) den
  let (m, e) := if m = Nat.pow 2 53 then (Nat.pow 2 52, e + 1) else (m, e)
  if greatestExponent < e then .infinite negative else .finite negative m e

/-- The value `mantissa * 2 ^ exponent` as a quotient. -/
def quotient (mantissa : Nat) (exponent : Int) : Nat × Nat :=
  if 0 ≤ exponent then (mantissa * Nat.pow 2 exponent.toNat, 1)
  else (mantissa, Nat.pow 2 (-exponent).toNat)

def decimalLength (n : Nat) : Nat := (Nat.toDigits 10 n).length

/-- The double nearest to `± digits * 10 ^ exponent`. Outside the order of magnitude of the
doubles the answer does not depend on the digits. -/
def ofDecimal (negative : Bool) (digits : Nat) (exponent : Int) : Double :=
  if digits = 0 then zero negative
  else if 310 < decimalLength digits + exponent then .infinite negative
  else if decimalLength digits + exponent < -330 then zero negative
  else if 0 ≤ exponent then ofQuotient negative (digits * Nat.pow 10 exponent.toNat) 1
  else ofQuotient negative digits (Nat.pow 10 (-exponent).toNat)

def ofNat (negative : Bool) (n : Nat) : Double := ofQuotient negative n 1

/-- Product of two positive doubles. -/
def mul : Double → Double → Double
  | finite _ m e, finite _ m' e' =>
    let (num, den) := quotient m e
    let (num', den') := quotient m' e'
    ofQuotient false (num * num') (den * den')
  | x, _ => x

/-- Quotient of two positive doubles. -/
def div : Double → Double → Double
  | finite _ m e, finite _ m' e' =>
    let (num, den) := quotient m e
    let (num', den') := quotient m' e'
    ofQuotient false (num * den') (den * num')
  | x, _ => x

/-- The integer that a double is equal to. -/
def toInt? : Double → Option Int
  | finite negative m e =>
    let (num, den) := quotient m e
    if num % den = 0 then some (if negative then -((num / den : Nat) : Int) else (num / den : Nat))
    else none
  | _ => none

example : ofDecimal false 1 (-1) = .finite false 7205759403792794 (-56) := by decide
example : ofDecimal false 9 400 = .infinite false := by decide
example : toInt? (ofDecimal true 25 2) = some (-2500) := by decide

end Proforma.Double
