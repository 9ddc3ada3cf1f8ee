import Proforma.Yaml.Fold

/-!
Blocks of lines, literal or folded. The head of a block may say how far its lines are indented
and what becomes of the line breaks at its end.
-/
namespace Proforma.Yaml

/-- What happens to the line breaks at the end of a block of lines. -/
inductive Chomping where
  | strip | clip | keep
  deriving DecidableEq, Repr

structure BlockHead where
  folded : Bool
  chomping : Chomping
  /-- Columns that the lines are indented by, beyond the block around them. -/
  indent : Option Nat
  deriving DecidableEq, Repr

def BlockHead.readIndent? (h : BlockHead) : List Char → Option (BlockHead × List Char)
  | c :: cs =>
    if c == '0' then none
    else if c.isDigit then some ({ h with indent := some (c.toNat - '0'.toNat) }, cs)
    else some (h, c :: cs)
  | [] => some (h, [])

def BlockHead.readChomping (h : BlockHead) : List Char → BlockHead × List Char
  | '+' :: cs => ({ h with chomping := .keep }, cs)
  | '-' :: cs => ({ h with chomping := .strip }, cs)
  | cs => (h, cs)

/-- The marks after the first one, in any order. -/
def BlockHead.read? (folded : Bool) (cs : List Char) : Option (BlockHead × List Char) := do
  let h : BlockHead := ⟨folded, .clip, none⟩
  let (marked, rest) := h.readChomping cs
  let (h, rest) ← marked.readIndent? rest
  if marked.chomping = .clip then some (h.readChomping rest) else some (h, rest)

def indentation (line : List Char) : Nat := (line.takeWhile (· == ' ')).length

def isSpaces (line : List Char) : Bool := line.all (· == ' ')

/-- A line without text in a block that is indented by `indent`. -/
def isEmptyLine (indent : Nat) (line : List Char) : Bool :=
  isSpaces line && line.length ≤ indent

/-- The greatest indentation of the lines up to the first one with text. -/
def firstIndentation : List (List Char) → Nat
  | [] => 0
  | [line] => indentation line
  | line :: rest =>
    if isSpaces line then max line.length (firstIndentation rest) else indentation line

/-- The line of a block. Lines in column 0 end with a document. -/
def isBlockLine (indent : Nat) (line : List Char) : Bool :=
  isEmptyLine indent line ||
    (indent ≤ indentation line && !(indent = 0 && startsMarker '.' line))

def startsGap : List Char → Bool
  | c :: _ => isGap c
  | [] => false

/-- Folds the lines of a block. Line breaks next to an indented line stay. -/
def foldBlock (last : List Char) (breaks : Nat) : List (List Char) → List Char
  | [] => []
  | [] :: rest => foldBlock last (breaks + 1) rest
  | line :: rest =>
    let between := if startsGap last || startsGap line then List.replicate breaks '\n'
      else gap false breaks
    between ++ line ++ foldBlock line 1 rest

/-- The text of a block of lines, without the empty lines at its end. -/
def blockText (folded : Bool) (block : List (List Char)) : List Char :=
  if folded then
    let first := block.takeWhile List.isEmpty
    match block.dropWhile List.isEmpty with
    | [] => []
    | line :: rest => List.replicate first.length '\n' ++ line ++ foldBlock line 1 rest
  else ['\n'].intercalate block

/-- How a block ends. -/
inductive BlockEnd where
  /-- Lines that do not belong to it follow. -/
  | line
  /-- The text ends in its last line. -/
  | inText
  /-- The text ends after the spaces that indent a line, or fewer. -/
  | inSpaces (full : Bool)
  deriving DecidableEq

/-- The line breaks at the end of a block whose text is not empty, with `empties` empty lines
after it. -/
def BlockHead.lastBreaks (h : BlockHead) (e : BlockEnd) (empties : Nat) : Nat :=
  let further := if e = .inSpaces true then 1 else 0
  match h.chomping with
  | .strip => 0
  | .clip => 1 + further
  | .keep => 1 + further + empties

/-- The line breaks that make up a block without text. -/
def BlockHead.onlyBreaks (h : BlockHead) (e : BlockEnd) (empties : Nat) : Nat :=
  match h.chomping with
  | .strip => 0
  | .clip => if e = .line then 0 else 1
  | .keep => if e = .line then empties else max empties 1

/-- The text of the lines of a block, of which the last may be cut short. -/
def BlockHead.text (h : BlockHead) (indent : Nat) (block : List (List Char)) (complete : Bool) :
    List Char :=
  let last := block.getLast?.getD []
  let e : BlockEnd :=
    if complete then .line
    else if isEmptyLine indent last then .inSpaces (0 < indent && last.length = indent)
    else .inText
  let block := if e = .line ∨ e = .inText then block else block.dropLast
  let texts := block.map (·.drop indent)
  let kept := (texts.reverse.dropWhile List.isEmpty).reverse
  let empties := texts.length - kept.length
  if kept.isEmpty then List.replicate (h.onlyBreaks e empties) '\n'
  else blockText h.folded kept ++ List.replicate (h.lastBreaks e empties) '\n'

/-- The text of the block at the front, whose lines are indented by more than `outer`, and the
cursor after it. -/
def Cursor.block? (c : Cursor) (outer : Int) : Option (List Char × Cursor) := do
  let (h, rest) ← BlockHead.read? (c.rest.head? == some '>') (c.rest.drop 1)
  let head ← (c.dropTo rest).skipGaps?
  match head.rest with
  | [] => some ([], head)
  | x :: cs =>
    if x != '\n' || cs.head? == some '\t' then none
    let ls := lines cs
    let indent := match h.indent with
      | some n => (max outer 0).toNat + n
      | none => max (firstIndentation ls) (outer + 1).toNat
    let isBroken := (ls.find? fun line => !isEmptyLine indent line).any fun line =>
      indentation line < indent && outer < indentation line
    if isBroken then none
    let block := ls.takeWhile (isBlockLine indent)
    let length := (block.map fun line => line.length + 1).foldl (· + ·) 0
    some (h.text indent block (block.length < ls.length), head.drop (length + 1))

example : String.ofList (blockText true ["a".toList, "b".toList, [], "c".toList]) = "a b\nc" := by
  decide +kernel
example : ((Cursor.ofText "|+\n a\n\nb".toList).block? 0).map (fun b => String.ofList b.1) =
    some "a\n\n" := by decide +kernel

end Proforma.Yaml
