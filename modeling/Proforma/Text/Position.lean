/-!
Places in a text. Offsets count UTF-8 bytes, columns count characters, and lines and columns
start at one.
-/
namespace Proforma.Text

/-- Number of bytes that a text takes in UTF-8. -/
def byteLength : List Char → Nat
  | [] => 0
  | c :: cs => c.utf8Size + byteLength cs

@[simp] theorem byteLength_nil : byteLength [] = 0 := rfl

@[simp] theorem byteLength_cons (c : Char) (cs : List Char) :
    byteLength (c :: cs) = c.utf8Size + byteLength cs := rfl

@[simp] theorem byteLength_append (a b : List Char) :
    byteLength (a ++ b) = byteLength a + byteLength b := by
  induction a with
  | nil => simp
  | cons c a ih => simp [ih, Nat.add_assoc]

/-- The characters in the first `n` bytes; none if byte `n` is inside a character or past the
end. -/
def takeBytes : Nat → List Char → Option (List Char)
  | 0, _ => some []
  | _ + 1, [] => none
  | n + 1, c :: cs =>
    if c.utf8Size ≤ n + 1 then (takeBytes (n + 1 - c.utf8Size) cs).map (c :: ·) else none

/-- The characters after the last line feed. -/
def lastLine (cs : List Char) : List Char := (cs.reverse.takeWhile (· != '\n')).reverse

structure Span where
  start : Nat
  stop : Nat
  deriving DecidableEq, Repr

structure Position where
  offset : Nat
  line : Nat
  column : Nat
  deriving DecidableEq, Repr

namespace Position

def start : Position := ⟨0, 1, 1⟩

/-- The position right after `before`. -/
def after (before : List Char) : Position :=
  ⟨byteLength before, 1 + before.count '\n', 1 + (lastLine before).length⟩

/-- An offset past the end means the end. Inside a character, line and column are those of the
end of the text. -/
def ofOffset (source : List Char) (offset : Nat) : Position :=
  let offset := min offset (byteLength source)
  { after ((takeBytes offset source).getD source) with offset }

/-- A position in a text that begins at `origin`, as a position in the enclosing text. Only the
first line shares a line with the origin. -/
def within (p origin : Position) : Position where
  offset := origin.offset + p.offset
  line := origin.line + p.line - 1
  column := if p.line = 1 then origin.column + p.column - 1 else p.column

def render (p : Position) : String := s!"{p.line}:{p.column}"

end Position

/-- Splits at line feeds. A final line feed ends the last line and opens no further one. -/
def splitLines : List Char → List (List Char)
  | [] => []
  | '\n' :: cs => [] :: splitLines cs
  | c :: cs =>
    match splitLines cs with
    | [] => [[c]]
    | line :: lines => (c :: line) :: lines

/-- The line with the given number, counted from one, without the carriage return of a
carriage return and line feed; empty if there is no such line. -/
def lineAt (source : List Char) (number : Nat) : List Char :=
  let lines := splitLines source
  let line := lines[number - 1]?.getD []
  let ended := number < lines.length || source.getLast? == some '\n'
  if ended && line.getLast? == some '\r' then line.dropLast else line

/-- The line that holds a position, and below it a caret under the position. -/
def excerpt (source : List Char) (p : Position) : String :=
  let number := toString p.line
  let gutter := String.ofList (List.replicate number.length ' ')
  let indent := String.ofList (List.replicate (p.column - 1) ' ')
  s!"{number} | {String.ofList (lineAt source p.line)}\n{gutter} | {indent}^\n"

end Proforma.Text
