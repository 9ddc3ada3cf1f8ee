import Proforma.Number.Form

/-! Numbers of a record: integers, and doubles for everything written with a point or exponent. -/
namespace Proforma

inductive Number where
  | integer (n : Int)
  | real (x : Double)
  deriving DecidableEq, Repr

namespace Number

def text : Number → String
  | integer n => toString n
  | real x => Double.jsonForm.write x

/-- Whole numbers below `2 ^ 63` in magnitude become integers; only finite numbers count. -/
def ofDouble? (x : Double) : Option Number :=
  match x.toInt? with
  | some n => some (if n.natAbs < Nat.pow 2 63 then integer n else real x)
  | none => if x.isFinite then some (real x) else none

end Number

end Proforma
