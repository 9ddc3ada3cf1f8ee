import Proforma.Number.Shortest

/-!
How a double is written and read as text. A form says where positional notation ends and how
the scientific notation beyond it looks; the digits are always the shortest ones.
-/
namespace Proforma.Double

structure Form where
  /-- Written positionally when the point stands after this many digits or more. -/
  leastPoint : Int
  /-- Written positionally when the point stands after this many digits or fewer. -/
  greatestPoint : Int
  /-- Whole numbers keep a `.0`. -/
  pointZero : Bool
  /-- Positive exponents carry a sign. -/
  plusSign : Bool
  tie : Tie

def zeros (n : Nat) : List Char := List.replicate n '0'

/-- Digits with a point after the first `point` of them, padded with zeros as needed. -/
def positional (digits : List Char) (point : Int) (pointZero : Bool) : List Char :=
  if point ≤ 0 then '0' :: '.' :: zeros (-point).toNat ++ digits
  else if digits.length ≤ point.toNat then
    digits ++ zeros (point.toNat - digits.length) ++ if pointZero then ['.', '0'] else []
  else digits.take point.toNat ++ '.' :: digits.drop point.toNat

def scientific (digits : List Char) (exponent : Int) (plusSign : Bool) : List Char :=
  let point := if digits.length ≤ 1 then [] else '.' :: digits.drop 1
  let sign := if exponent < 0 then ['-'] else if plusSign then ['+'] else []
  digits.take 1 ++ point ++ 'e' :: sign ++ Nat.toDigits 10 exponent.natAbs

def Form.writeFinite (form : Form) (m : Nat) (e : Int) : List Char :=
  let decimals := shortest form.tie m e
  let digits := Nat.toDigits 10 decimals.digits
  let point := digits.length + decimals.exponent
  if m = 0 then if form.pointZero then ['0', '.', '0'] else ['0']
  else if form.leastPoint ≤ point ∧ point ≤ form.greatestPoint then
    positional digits point form.pointZero
  else scientific digits (point - 1) form.plusSign

def Form.write (form : Form) : Double → String
  | nan => "NaN"
  | infinite negative => if negative then "-inf" else "inf"
  | finite negative m e =>
    (if negative then "-" else "") ++ String.ofList (form.writeFinite m e)

/-- Never an exponent, and no point on whole numbers. -/
def plainForm : Form := ⟨-400, 400, false, false, .up⟩

/-- In JSON text: positional from `1e-5` to below `1e16`. -/
def jsonForm : Form := ⟨-4, 16, true, true, .even⟩

/-- In front matter: as in JSON text, but no sign on positive exponents. -/
def frontMatterForm : Form := ⟨-4, 16, true, false, .even⟩

/-- A decimal numeral, not yet rounded. -/
structure Numeral where
  negative : Bool
  digits : Nat
  exponent : Int
  deriving DecidableEq, Repr

def Numeral.toDouble (n : Numeral) : Double := ofDecimal n.negative n.digits n.exponent

def readSign : List Char → Bool × List Char
  | '-' :: cs => (true, cs)
  | '+' :: cs => (false, cs)
  | cs => (false, cs)

def digitValue (c : Char) : Nat := c.toNat - '0'.toNat

def digitsValue (cs : List Char) : Nat := cs.foldl (fun n c => 10 * n + digitValue c) 0

/-- Digits, with a sign in front allowed; nothing else. -/
def readInteger? (cs : List Char) : Option Int :=
  let (negative, digits) := readSign cs
  if digits.isEmpty || !digits.all Char.isDigit then none
  else some (if negative then -(digitsValue digits : Int) else digitsValue digits)

/-- A decimal numeral: a sign, digits with at most one point among them, and an exponent. Sign,
point and exponent may be left out, and the digits on one side of the point. -/
def Numeral.read? (cs : List Char) : Option Numeral :=
  let (negative, cs) := readSign cs
  let whole := cs.takeWhile Char.isDigit
  let cs := cs.dropWhile Char.isDigit
  let (fraction, cs) := match cs with
    | '.' :: cs => (cs.takeWhile Char.isDigit, cs.dropWhile Char.isDigit)
    | _ => ([], cs)
  let digits := digitsValue (whole ++ fraction)
  if whole.isEmpty && fraction.isEmpty then none else
  match cs with
  | [] => some ⟨negative, digits, -fraction.length⟩
  | c :: cs =>
    if c == 'e' || c == 'E' then
      (readInteger? cs).map fun exponent => ⟨negative, digits, exponent - fraction.length⟩
    else none

/-- A numeral, or a name of infinity or of the undefined number in any letter case. -/
def read? (cs : List Char) : Option Double :=
  let (negative, unsigned) := readSign cs
  let word := String.ofList (unsigned.map Char.toLower)
  if word == "inf" || word == "infinity" then some (.infinite negative)
  else if word == "nan" then some .nan
  else (Numeral.read? cs).map Numeral.toDouble

example : plainForm.write (ofDecimal true 25 (-1)) = "-2.5" := by decide +kernel
example : plainForm.write (ofDecimal false 1 21) = "1000000000000000000000" := by decide +kernel
example : jsonForm.write (ofDecimal false 1 20) = "1e+20" := by decide +kernel
example : jsonForm.write (zero true) = "-0.0" := by decide +kernel
example : jsonForm.write (ofDecimal false 1 (-5)) = "0.00001" := by decide +kernel
example : frontMatterForm.write (ofDecimal false 15 299) = "1.5e300" := by decide +kernel

end Proforma.Double
