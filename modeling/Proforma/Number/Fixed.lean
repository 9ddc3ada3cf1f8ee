import Proforma.Number.Double

/-! Doubles written with a fixed number of decimal places, ties to even. -/
namespace Proforma.Double

def fixedDigits (places n : Nat) : List Char :=
  let digits := Nat.toDigits 10 n
  let digits := List.replicate (places + 1 - digits.length) '0' ++ digits
  let whole := digits.length - places
  if places = 0 then digits else digits.take whole ++ '.' :: digits.drop whole

def fixed (places : Nat) : Double → String
  | nan => "NaN"
  | infinite negative => if negative then "-inf" else "inf"
  | finite negative m e =>
    let (num, den) := quotient m e
    let digits := fixedDigits places (roundQuotient (num * Nat.pow 10 places) den)
    (if negative then "-" else "") ++ String.ofList digits

example : fixed 4 (ofQuotient false 200 3) = "66.6667" := by decide +kernel
example : fixed 4 (zero false) = "0.0000" := by decide +kernel
example : fixed 1 (ofQuotient false 1 4) = "0.2" := by decide +kernel

end Proforma.Double
