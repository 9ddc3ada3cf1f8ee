import Proforma.Yaml.Cursor

/-! The lines of a YAML scalar, and how they are folded into one. -/
namespace Proforma.Yaml

def dropLastGaps (cs : List Char) : List Char := (cs.reverse.dropWhile isGap).reverse

/-- The lines of a text, at least one. -/
def lines : List Char → List (List Char)
  | [] => [[]]
  | c :: cs =>
    if c == '\n' then [] :: lines cs
    else
      match lines cs with
      | [] => [[c]]
      | line :: rest => (c :: line) :: rest

/-- Where a line is joined to the next, the line break after it does not count. -/
structure Line where
  text : List Char
  joined : Bool

/-- What a number of line breaks in a row becomes. -/
def gap (joined : Bool) (breaks : Nat) : List Char :=
  if breaks = 1 && !joined then [' '] else List.replicate (breaks - 1) '\n'

def foldFrom (joined : Bool) (breaks : Nat) : List Line → List Char
  | [] => []
  | line :: rest =>
    if line.text.isEmpty && !line.joined && !rest.isEmpty then foldFrom joined (breaks + 1) rest
    else gap joined breaks ++ line.text ++ foldFrom line.joined 1 rest

/-- One line from several: a single line break becomes a space, and of more the first is lost. -/
def fold : List Line → List Char
  | [] => []
  | line :: rest => line.text ++ foldFrom line.joined 1 rest

end Proforma.Yaml
