import Proforma.Number.Decimal

/-! Amounts of money: a sign, a symbol or code, grouped digits and two decimal places. -/
namespace Proforma

def currencyMark (code : String) : String :=
  match code with
  | "USD" => "$"
  | "EUR" => "€"
  | "GBP" => "£"
  | "JPY" => "¥"
  | "INR" => "₹"
  | code => code ++ " "

/-- A comma before every three digits counted from the end. -/
def groupThousands : List Char → List Char
  | [] => []
  | c :: cs =>
    if cs.length % 3 = 0 ∧ cs ≠ [] then c :: ',' :: groupThousands cs else c :: groupThousands cs

/-- The amount rounded half away from zero to two places. Where the mantissa has no room for
both, fewer places are written; without any, two zeros. -/
def writeCurrency (amount : Decimal) (code : String) : String :=
  let rounded := amount.round 2
  let (whole, fraction) := (rounded.extend (2 - rounded.scale)).parts
  let sign := if rounded.negative && !rounded.isZero then "-" else ""
  sign ++ currencyMark code ++ String.ofList (groupThousands whole) ++ "." ++
    String.ofList (if fraction.isEmpty then ['0', '0'] else fraction)

example : groupThousands "1234567".toList = "1,234,567".toList := by decide
example : writeCurrency ⟨true, 1234500, 3⟩ "USD" = "-$1,234.50" := by decide

end Proforma
