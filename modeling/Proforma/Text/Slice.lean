import Proforma.Text.Position

/-!
Slices of a text by byte offsets, the offsets of what is searched for, and loops that move through a
text. An offset past the end or inside a character gives no slice, and a loop that does not move on
gives no result.
-/
namespace Proforma.Text

/-- The characters after the first `n` bytes; none if byte `n` is inside a character or past the
end. -/
def dropBytes : Nat → List Char → Option (List Char)
  | 0, cs => some cs
  | _ + 1, [] => none
  | n + 1, c :: cs => if c.utf8Size ≤ n + 1 then dropBytes (n + 1 - c.utf8Size) cs else none

/-- The characters from byte `start` to byte `stop`. -/
def slice? (cs : List Char) (start stop : Nat) : Option (List Char) :=
  if start ≤ stop then (dropBytes start cs).bind (takeBytes (stop - start)) else none

/-- Where `mark` stands first. -/
def find? (mark : List Char) : List Char → Option Nat
  | [] => if mark.isEmpty then some 0 else none
  | c :: cs =>
    if mark.isPrefixOf (c :: cs) then some 0 else (find? mark cs).map (c.utf8Size + ·)

/-- Where the first character stands that satisfies `p`. -/
def findWhere? (p : Char → Bool) : List Char → Option Nat
  | [] => none
  | c :: cs => if p c then some 0 else (findWhere? p cs).map (c.utf8Size + ·)

/-- Takes a turn from a state, which may go on from another state that has less left. There is no
result if it goes on from one that has not: the loop might not end. -/
def loop {σ β : Type} (left : σ → Nat) (turn : (σ → Option β) → σ → Option β) (s : σ) :
    Option β :=
  turn (fun next => if left next < left s then loop left turn next else none) s
termination_by left s

end Proforma.Text
