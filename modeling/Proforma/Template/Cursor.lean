import Proforma.Template.Block
import Proforma.Text.Slice

/-!
What stands between delimiters, read again by byte offsets. A cursor counts the bytes that it has
passed and slices its text wherever it looks at it. A reader gives nothing at all where a slice
fails or where a loop does not move on; the results are those of the readers of directives.
-/
namespace Proforma

open Text

/-- A place in a piece of a source. `base` is the offset where the piece begins. -/
structure Cursor where
  input : List Char
  pos : Nat
  base : Nat

/-- The bytes that a cursor has not passed. -/
def Cursor.left (c : Cursor) : Nat := byteLength c.input - c.pos

structure Located where
  fault : Fault
  offset : Nat

/-- A reader that moves a cursor. -/
abbrev Scan := StateT Cursor (ExceptT Located Option)

def Scan.ofSlice (slice : Option (List Char)) : Scan (List Char) := fun c =>
  slice.map fun cs => .ok (cs, c)

/-- Takes a turn, in which `again` stands for the next one. -/
def Scan.loop {α : Type} (turn : (again : Scan α) → Scan α) : Scan α :=
  Text.loop Cursor.left turn

/-- Reads a piece that begins at `base`. -/
def Scan.start {α : Type} (m : Scan α) (input : List Char) (base : Nat) :
    ExceptT Located Option α := m.run' ⟨input, 0, base⟩

namespace Cursor

def slice (start stop : Nat) : Scan (List Char) := do
  let c ← get
  .ofSlice (slice? c.input start stop)

def rest : Scan (List Char) := do
  let c ← get
  slice c.pos (byteLength c.input)

def offset : Scan Nat := do
  let c ← get
  return c.base + c.pos

def peek : Scan (Option Char) := do return (← rest).head?

def atEnd : Scan Bool := do
  let c ← get
  return decide (byteLength c.input ≤ c.pos)

def advance (c : Char) : Scan Unit :=
  modify fun cursor => { cursor with pos := cursor.pos + c.utf8Size }

def bump : Scan (Option Char) := do
  let found ← peek
  match found with
  | some c =>
    advance c
    return found
  | none => return found

def eat (expected : Char) : Scan Bool := do
  if (← peek) = some expected then
    advance expected
    return true
  else return false

def advanceWhile (p : Char → Bool) : Scan Unit := .loop fun again => do
  match ← peek with
  | some c =>
    if p c then
      advance c
      again
    else return ()
  | none => return ()

def takeWhile (p : Char → Bool) : Scan (List Char) := do
  let start ← get
  advanceWhile p
  let stop ← get
  slice start.pos stop.pos

def skipSpace : Scan Unit := advanceWhile isBlank

def fail {α : Type} (fault : Fault) (offset : Nat) : Scan α := throw ⟨fault, offset⟩

def failHere {α : Type} (fault : Fault) : Scan α := do fail fault (← offset)

def failUnexpected {α : Type} : Scan α := do
  match ← peek with
  | some c => failHere (.unexpected c)
  | none => failHere .unexpectedEnd

def identifier? : Scan (Option (List Char)) := do
  if (← peek).any startsIdentifier then
    return some (← takeWhile continuesIdentifier)
  else return none

def name : Scan String := do
  match ← identifier? with
  | some word => return String.ofList word
  | none => failHere (.notAttribute (← peek))

def index : Scan Nat := do
  let start ← offset
  let digits ← takeWhile Char.isDigit
  let n := Double.digitsValue digits
  if digits.isEmpty || UInt64.size ≤ n then fail .notIndex start else return n

def dotted : Scan Segment := do
  if (← peek).any Char.isDigit then return .index (← index) else return .field (← name)

def bracketed : Scan Segment := do
  let n ← index
  if ← eat ']' then return .index n else failHere .missingBracket

def segments : Scan (List Segment) := .loop fun again => do
  if ← eat '.' then
    let s ← dotted
    return s :: (← again)
  else if ← eat '[' then
    let s ← bracketed
    return s :: (← again)
  else return []

def path : Scan Path := do
  let head ← name
  return ⟨head, ← segments⟩

/-- The rest of a quoted text, after its opening quote; nothing if it does not end. -/
def quoted (quote : Char) : Scan (Option (List Char)) := .loop fun again => do
  match ← bump with
  | none => return none
  | some c =>
    if c = '\\' then
      match ← bump with
      | none => return none
      | some escaped => return (← again).map (escaped :: ·)
    else if c = quote then return some []
    else return (← again).map (c :: ·)

def number (start : Nat) : Scan Literal := do
  let text ← takeWhile isNumberChar
  match (Double.Numeral.read? text).map Double.Numeral.toDouble with
  | some x =>
    if x.isFinite then return .number x else fail (.invalidNumber (String.ofList text)) start
  | none => fail (.invalidNumber (String.ofList text)) start

def literal : Scan Literal := do
  let start ← offset
  match ← peek with
  | none => fail .notLiteral start
  | some c =>
    if isQuote c then
      let _ ← bump
      match ← quoted c with
      | some s => return .text (String.ofList s)
      | none => fail .unterminatedText start
    else if c.isDigit || c == '-' then number start
    else fail .notLiteral start

/-- The arguments after an opening parenthesis, at least one, up to the closing one. -/
def arguments : Scan (List Literal) := .loop fun again => do
  skipSpace
  let a ← literal
  skipSpace
  if ← eat ')' then return [a]
  else if ← eat ',' then return a :: (← again)
  else failUnexpected

def callArguments : Scan (List Literal) := do
  skipSpace
  if ← eat '(' then
    skipSpace
    if ← eat ')' then return [] else arguments
  else return []

def call : Scan FilterCall := do
  let start ← offset
  match ← identifier? with
  | none => fail .missingFilterName start
  | some name =>
    match Filter.ofName? (String.ofList name) with
    | none => fail (.unknownFilter (String.ofList name)) start
    | some filter =>
      let args ← callArguments
      let stop ← offset
      if filter.acceptsCount args.length then
        match filter.checkArguments args with
        | .ok () => return ⟨filter, args, ⟨start, stop⟩⟩
        | .error fault => fail (.badArgument filter fault) start
      else fail (.wrongCount filter args.length) start

def pipeline : Scan (List FilterCall) := .loop fun again => do
  skipSpace
  if ← atEnd then return []
  else if ← eat '|' then
    skipSpace
    let c ← call
    return c :: (← again)
  else failUnexpected

/-- A path with its filters. `start` is the offset of the opener. -/
def expression (start : Nat) : Scan (Path × List FilterCall) := do
  skipSpace
  if ← atEnd then fail .emptyExpression start
  else
    let p ← path
    return (p, ← pipeline)

/-- A path and nothing after it. `start` is the offset of the text. -/
def onlyPath (keyword : String) (start : Nat) : Scan Path := do
  skipSpace
  if ← atEnd then fail (.missingPath keyword) start
  else
    let p ← path
    skipSpace
    if ← atEnd then return p else failUnexpected

/-- What follows `for`. The path is read by a cursor of its own. -/
def loopHeader : Scan (String × Path) := do
  skipSpace
  let start ← offset
  match ← identifier? with
  | none => fail .missingBinding start
  | some binding =>
    if String.ofList binding = todayName then fail .reservedBinding start
    else
      skipSpace
      let middle ← offset
      if (← identifier?) = some ['i', 'n'] then
        let after ← offset
        let collection ← (onlyPath "for" after).start (← rest) after
        return (String.ofList binding, collection)
      else fail .missingIn middle

end Cursor

/-- Nothing but white space may stand in a text that begins at `offset`. -/
def scanNothing (keyword : String) (text : List Char) (offset : Nat) :
    ExceptT Located Option Unit :=
  let trimmed := skipBlanks text
  if (dropLastBlanks trimmed).isEmpty then return ()
  else throw ⟨.unwantedArguments keyword, offset + byteLength text - byteLength trimmed⟩

/-- Reads the content of a tag. `start` is the offset of the opener, `base` that of the content. -/
def scanDirective (content : List Char) (base start : Nat) : ExceptT Located Option Directive := do
  let trimmed := skipBlanks content
  let lead := byteLength content - byteLength trimmed
  let width := (findWhere? isBlank trimmed).getD (byteLength trimmed)
  let keyword ← ExceptT.lift (slice? trimmed 0 width)
  let rest ← ExceptT.lift (slice? trimmed width (byteLength trimmed))
  let offset := base + lead + width
  match String.ofList keyword with
  | "" => throw ⟨.emptyDirective, start⟩
  | "if" => return .openIf (← (Cursor.onlyPath "if" offset).start rest offset)
  | "else" =>
    scanNothing "else" rest offset
    return .middle
  | "endif" =>
    scanNothing "endif" rest offset
    return .closeIf
  | "for" =>
    let (binding, collection) ← Cursor.loopHeader.start rest offset
    return .openFor binding collection
  | "endfor" =>
    scanNothing "endfor" rest offset
    return .closeFor
  | keyword => throw ⟨.unknownDirective keyword, base + lead⟩

end Proforma
