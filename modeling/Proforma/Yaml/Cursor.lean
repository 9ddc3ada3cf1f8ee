/-!
A place in a YAML text and the text from there on. Every function that goes on in a text hands
over each character to `Place.after`, so the place tells what has been read.
-/
namespace Proforma.Yaml

def isGap (c : Char) : Bool := c == ' ' || c == '\t'

def isFlowMark (c : Char) : Bool := c == ',' || c == '[' || c == ']' || c == '{' || c == '}'

/-- An ASCII letter or digit, an underscore or a hyphen. -/
def isWord (c : Char) : Bool := c.isAlphanum || c == '_' || c == '-'

/-- A gap, a line break or the end of the text. -/
def startsBreak : List Char → Bool
  | [] => true
  | c :: _ => isGap c || c == '\n'

def startsFlowMark : List Char → Bool
  | [] => false
  | c :: _ => isFlowMark c

/-- The rest of the line holds no text, but it may hold a comment. -/
def endsLine (cs : List Char) : Bool :=
  match cs.dropWhile isGap with
  | [] => true
  | c :: _ => c == '\n' || c == '#'

/-- Three marks that stand for themselves. -/
def startsMarker (mark : Char) (cs : List Char) : Bool :=
  cs.take 3 == [mark, mark, mark] && startsBreak (cs.drop 3)

/-- At the start of a line, this begins or ends a document. -/
def startsDocumentMarker (cs : List Char) : Bool := startsMarker '-' cs || startsMarker '.' cs

structure Place where
  /-- Number of characters before this place. -/
  index : Nat
  line : Nat
  column : Nat
  /-- Nothing but gaps stands before it on its line. -/
  inMargin : Bool
  deriving DecidableEq, Repr

namespace Place

def start : Place := ⟨0, 0, 0, true⟩

def after (p : Place) (c : Char) : Place :=
  if c == '\n' then ⟨p.index + 1, p.line + 1, 0, true⟩
  else ⟨p.index + 1, p.line, p.column + 1, p.inMargin && isGap c⟩

end Place

structure Cursor where
  rest : List Char
  place : Place
  deriving DecidableEq, Repr

namespace Cursor

def ofText (cs : List Char) : Cursor := ⟨cs, Place.start⟩

/-- Goes over a number of characters. -/
def drop (c : Cursor) (n : Nat) : Cursor :=
  ⟨c.rest.drop n, (c.rest.take n).foldl Place.after c.place⟩

/-- Goes on to where only `rest` is left. -/
def dropTo (c : Cursor) (rest : List Char) : Cursor := c.drop (c.rest.length - rest.length)

/-- Skips gaps, and a comment if there is a gap before it. -/
def skipGaps? (c : Cursor) : Option Cursor :=
  let gaps := c.rest.takeWhile isGap
  let next := c.drop gaps.length
  if next.rest.head? == some '#' then
    if gaps.isEmpty then none else some (next.drop (next.rest.takeWhile (· != '\n')).length)
  else some next

end Cursor

/-- Skips white space, line breaks and comments. Tabs may stand before text only from column
`indent` on. -/
def skipFrom? (indent : Int) (comment : Bool) (p : Place) : List Char → Option Cursor
  | [] => some ⟨[], p⟩
  | c :: cs =>
    if c == '\n' then skipFrom? indent false (p.after c) cs
    else if comment || c == ' ' then skipFrom? indent comment (p.after c) cs
    else if c == '\t' then
      if p.inMargin && (p.column : Int) < indent && !endsLine cs then none
      else skipFrom? indent false (p.after c) cs
    else if c == '#' then skipFrom? indent true (p.after c) cs
    else some ⟨c :: cs, p⟩

def Cursor.skip? (c : Cursor) (indent : Int) : Option Cursor :=
  skipFrom? indent false c.place c.rest

/-- Skips spaces, line breaks and comments, but no tabs. -/
def skipSpacesFrom (comment : Bool) (p : Place) : List Char → Cursor
  | [] => ⟨[], p⟩
  | c :: cs =>
    if c == '\n' then skipSpacesFrom false (p.after c) cs
    else if comment || c == ' ' then skipSpacesFrom comment (p.after c) cs
    else if c == '#' then skipSpacesFrom true (p.after c) cs
    else ⟨c :: cs, p⟩

def Cursor.skipSpaces (c : Cursor) : Cursor := skipSpacesFrom false c.place c.rest

example : (Cursor.ofText "a\n b".toList).drop 3 = ⟨['b'], ⟨3, 1, 1, true⟩⟩ := by decide +kernel

end Proforma.Yaml
