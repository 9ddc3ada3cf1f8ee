/-! Numerals in a base of at most sixteen, and characters by their code. -/
namespace Proforma.Text

def digit? (base : Nat) (c : Char) : Option Nat :=
  let n :=
    if c.isDigit then c.toNat - 48
    else if 'a' ≤ c.toLower && c.toLower ≤ 'f' then c.toLower.toNat - 87
    else base
  if n < base then some n else none

/-- The value of a row of digits; zero if there are none. -/
def digitsIn? (base : Nat) (cs : List Char) : Option Nat :=
  cs.foldlM (fun n c => (digit? base c).map (base * n + ·)) 0

/-- The character with a code, which must not be a surrogate. -/
def charOf? (n : Nat) : Option Char :=
  if n < 0xD800 ∨ (0xDFFF < n ∧ n < 0x110000) then some (Char.ofNat n) else none

example : digitsIn? 16 "1F".toList = some 31 := by decide
example : digitsIn? 8 "18".toList = none := by decide

end Proforma.Text
