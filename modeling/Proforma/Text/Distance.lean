/-! Edit distance between words: insertions, deletions and replacements of one character. -/
namespace Proforma.Text

/-- The row of the distance table for one more character `a` of the first word. `left` is the
entry just written; the previous row starts at the diagonal neighbour. -/
def nextRow (a : Char) : Nat → List Nat → List Char → List Nat
  | left, diagonal :: above :: row, b :: bs =>
    let here := min (min left above + 1) (diagonal + if a = b then 0 else 1)
    here :: nextRow a here (above :: row) bs
  | _, _, _ => []

def distanceRow (b : List Char) : List Nat → List Char → List Nat
  | row, [] => row
  | row, c :: a =>
    let left := row.headD 0 + 1
    distanceRow b (left :: nextRow c left row b) a

def distance (a b : List Char) : Nat :=
  (distanceRow b (List.range (b.length + 1)) a).getLast?.getD 0

example : distance "kitten".toList "sitting".toList = 3 := by decide
example : distance [] "abc".toList = 3 := by decide

end Proforma.Text
