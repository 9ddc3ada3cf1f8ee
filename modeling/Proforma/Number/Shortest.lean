import Proforma.Number.Double

/-!
The shortest decimal that reads back as a given double. The decimals of one digit are tried
first, then those of two, and so on to seventeen; of two candidates the nearer one is taken. Where
both are equally near, the form of the text decides.
-/
namespace Proforma.Double

/-- Digits and power of ten. -/
structure Decimals where
  digits : Nat
  exponent : Int
  deriving DecidableEq, Repr

/-- Which of two equally near decimals is taken. -/
inductive Tie where
  /-- The greater one. -/
  | up
  /-- The one with an even last digit. -/
  | even
  deriving DecidableEq, Repr

def Tie.choose (tie : Tie) (below : Nat) : Nat :=
  match tie with
  | up => below + 1
  | even => if below % 2 = 0 then below else below + 1

/-- The least `k` with `num / den < 10 ^ k`, for a positive quotient. -/
def decimalOrder (num den : Nat) : Int :=
  let k : Int := decimalLength num - decimalLength den
  let reached := if 0 ≤ k then den * Nat.pow 10 k.toNat ≤ num else den ≤ num * Nat.pow 10 (-k).toNat
  if reached then k + 1 else k

/-- The decimal on the grid `10 ^ p` that reads back as `m * 2 ^ e`, if there is one. All
quantities are counted in quarters of `2 ^ e`, the ends of the rounding interval included when
`m` is even. -/
def onGrid? (tie : Tie) (m : Nat) (e p : Int) : Option Nat :=
  let scale := Nat.pow 2 (e - 2).toNat * Nat.pow 10 (-p).toNat
  let unit := Nat.pow 10 p.toNat * Nat.pow 2 (2 - e).toNat
  let value := 4 * m * scale
  let low := (4 * m - if m = Nat.pow 2 52 ∧ leastExponent < e then 1 else 2) * scale
  let high := (4 * m + 2) * scale
  let reads (c : Nat) := if m % 2 = 0 then low ≤ c * unit && c * unit ≤ high
    else low < c * unit && c * unit < high
  let below := value / unit
  match reads below, reads (below + 1) with
  | true, true =>
    some (if 2 * (value % unit) < unit then below
      else if 2 * (value % unit) = unit then tie.choose below
      else below + 1)
  | true, false => some below
  | false, true => some (below + 1)
  | false, false => none

/-- Moves the zeros at the end of the digits into the exponent. -/
def dropZeros : Nat → Nat → Int → Decimals
  | 0, digits, exponent => ⟨digits, exponent⟩
  | fuel + 1, digits, exponent =>
    if digits % 10 = 0 then dropZeros fuel (digits / 10) (exponent + 1) else ⟨digits, exponent⟩

/-- The shortest decimal that reads back as `m * 2 ^ e`. -/
def shortest (tie : Tie) (m : Nat) (e : Int) : Decimals :=
  if m = 0 then ⟨0, 0⟩ else
  let (num, den) := quotient m e
  let order := decimalOrder num den
  let found := (List.range 17).findSome? fun (n : Nat) =>
    let p := order - (n + 1)
    (onGrid? tie m e p).map fun digits => dropZeros 17 digits p
  found.getD ⟨0, 0⟩

example : shortest .even 7205759403792794 (-56) = ⟨1, -1⟩ := by decide
example : shortest .up 1 (-1074) = ⟨5, -324⟩ := by decide +kernel
example : shortest .even 4503599627370497 (-2) = ⟨11258999068426242, -1⟩ := by decide
example : shortest .up 4503599627370497 (-2) = ⟨11258999068426243, -1⟩ := by decide

end Proforma.Double
