import Proforma.Yaml.Cursor

/-!
The layout of a YAML text while its tokens are read: the blocks that are open and where they
stand, the flow collections around the cursor, and the token that may turn out to begin a key. A
key is only known by the colon after it; its tokens are then put in front of what it began with.
-/
namespace Proforma.Yaml

inductive Token where
  | scalar (isPlain : Bool) (text : String)
  | anchor (name : String)
  /-- A reference to an anchor. -/
  | reference (name : String)
  | tag (handle name : String)
  | item | key | value | comma
  | openSequence | closeSequence | openMapping | closeMapping
  | blockSequence | blockMapping | blockEnd
  | versionDirective
  /-- What a handle of tags stands for. -/
  | tagDirective (handle space : String)
  | documentStart | documentEnd
  deriving DecidableEq, Repr

/-- A column that what follows must not stand to the left of. -/
structure Level where
  column : Nat
  /-- Whether a block stands here, and not only room for one. -/
  isBlock : Bool
  deriving DecidableEq, Repr

/-- A node that is a key if a colon follows it. -/
structure PendingKey where
  /-- Number of tokens before it. -/
  tokens : Nat
  place : Place
  /-- Whether it stands where nothing but a key may stand. -/
  isRequired : Bool
  deriving DecidableEq, Repr

structure Layout where
  cursor : Cursor
  /-- The tokens read so far, last first. -/
  tokens : List Token
  count : Nat
  /-- Innermost first. -/
  levels : List Level
  /-- For each open flow collection, the key that may be pending outside; innermost first. -/
  outer : List (Option PendingKey)
  /-- For each open flow sequence, whether a pair without braces has begun in it; innermost
  first. -/
  pairs : List Bool
  pending : Option PendingKey
  /-- Whether a key may begin here. -/
  keyAllowed : Bool
  /-- Whether a mapping with braces or with a marked key has begun in a flow collection, and since
  then no pair without braces has ended. -/
  hasBraces : Bool
  /-- The place where a colon need not be followed by white space. -/
  adjacent : Nat

namespace Layout

/-- How many flow collections may be open. -/
def deepest : Nat := 255

/-- How many characters a key may have. -/
def longestKey : Nat := 1024

def ofText (cs : List Char) : Layout := ⟨.ofText cs, [], 0, [], [], [], none, true, false, 0⟩

def inFlow (l : Layout) : Bool := !l.outer.isEmpty

def column (l : Layout) : Nat := l.cursor.place.column

/-- The column of the innermost level, -1 if there is none. -/
def indent (l : Layout) : Int :=
  match l.levels with
  | [] => -1
  | level :: _ => level.column

def push (l : Layout) (t : Token) : Layout :=
  { l with tokens := t :: l.tokens, count := l.count + 1 }

/-- Puts a token in front of a pending key and all that has been read since. -/
def insert (l : Layout) (k : PendingKey) (t : Token) : Layout :=
  { l with tokens := l.tokens.insertIdx (l.count - k.tokens) t, count := l.count + 1 }

def drop (l : Layout) (n : Nat) : Layout := { l with cursor := l.cursor.drop n }

def allowKey (l : Layout) (b : Bool) : Layout := { l with keyAllowed := b }

def skipGaps? (l : Layout) : Option Layout :=
  l.cursor.skipGaps?.map fun cursor => { l with cursor }

/-- Skips white space and comments. After a line break a key may begin, except in a flow
collection. -/
def skip? (l : Layout) : Option Layout :=
  (l.cursor.skip? l.indent).map fun cursor =>
    { l with
      cursor
      keyAllowed :=
        l.keyAllowed || (!l.inFlow && l.cursor.place.line != cursor.place.line) }

/-- No colon can follow the pending key any more. -/
def dropKey? (l : Layout) : Option Layout :=
  if l.pending.any (·.isRequired) then none else some { l with pending := none }

/-- Outside flow collections, a key and its colon stand on one line and close together. -/
def dropFarKey? (l : Layout) : Option Layout :=
  let isFar := l.pending.any fun k =>
    k.place.line < l.cursor.place.line || k.place.index + longestKey < l.cursor.place.index
  if !l.inFlow && isFar then l.dropKey? else some l

/-- The next token may begin a key. -/
def markKey (l : Layout) : Layout :=
  let isRequired := match l.levels with
    | level :: _ => !l.inFlow && level.isBlock && level.column = l.column
    | [] => false
  if l.keyAllowed then { l with pending := some ⟨l.count, l.cursor.place, isRequired⟩ } else l

/-- Closes the levels to the right of a column. -/
def closeFrom (column : Int) (l : Layout) : List Level → Layout
  | [] => { l with levels := [] }
  | level :: rest =>
    if column < level.column then
      closeFrom column (if level.isBlock then l.push .blockEnd else l) rest
    else { l with levels := level :: rest }

def closeLevels (l : Layout) (column : Int) : Layout :=
  if l.inFlow then l else closeFrom column l l.levels

/-- Room one column to the right of a block, for what belongs to one of its entries. -/
def addRoom (l : Layout) : Layout :=
  match l.levels with
  | level :: _ =>
    if !l.inFlow && level.isBlock then
      { l with levels := ⟨level.column + 1, false⟩ :: l.levels }
    else l
  | [] => l

def dropRoom (l : Layout) : Layout :=
  { l with levels := l.levels.dropWhile fun level => !level.isBlock }

/-- Room that would be to the left of a new block is not needed. -/
def dropRoomBefore (l : Layout) (column : Nat) : Layout :=
  match l.levels with
  | level :: rest =>
    if !level.isBlock && level.column ≤ column then { l with levels := rest } else l
  | [] => l

/-- Opens a block at a column, unless one is open there. It begins at the pending key if one is
given. -/
def openBlock (l : Layout) (column : Nat) (k : Option PendingKey) (t : Token) : Layout :=
  if l.inFlow then l
  else
    let l := l.dropRoomBefore column
    if l.indent < column then
      let l := match k with
        | some k => l.insert k t
        | none => l.push t
      { l with levels := ⟨column, true⟩ :: l.levels }
    else l

/-- The innermost sequence begins a pair without braces. -/
def beginPair (l : Layout) : Layout :=
  { l with pairs := match l.pairs with
      | _ :: rest => true :: rest
      | [] => [] }

/-- Ends the pair without braces in the innermost sequence, if there is one. -/
def endPair (l : Layout) : Layout :=
  match l.pairs with
  | true :: rest => { l with pairs := false :: rest, hasBraces := false }.push .closeMapping
  | _ => l

end Layout

end Proforma.Yaml
