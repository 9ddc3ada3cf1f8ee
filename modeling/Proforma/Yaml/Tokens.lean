import Proforma.Yaml.Block
import Proforma.Yaml.Layout
import Proforma.Yaml.Plain
import Proforma.Yaml.Quoted
import Proforma.Yaml.Tag

/-!
The tokens of a YAML text. Each step reads one token, and with it the tokens that the layout
calls for: the ends of blocks to its right, the beginning of a block, the mark of a key.
-/
namespace Proforma.Yaml.Layout

/-- A token of `n` characters, after which a line may end in a comment. -/
def mark? (l : Layout) (t : Token) (n : Nat) : Option Layout :=
  ((l.drop n).skipGaps?).map (·.push t)

def openFlow? (l : Layout) (isSequence : Bool) (t : Token) : Option Layout :=
  let l := l.markKey.addRoom
  if deepest ≤ l.outer.length then none
  else
    { l with
      outer := l.pending :: l.outer
      pairs := if isSequence then false :: l.pairs else l.pairs
      pending := none
      keyAllowed := true
      hasBraces := l.hasBraces || !isSequence }.mark? t 1

/-- Which collection ends here shows when the tokens are put together. -/
def closeFlow? (l : Layout) (isSequence : Bool) (t : Token) : Option Layout := do
  let l ← l.dropKey?
  let l := if isSequence then l.endPair else l
  let l := { l with
    pairs := if isSequence then l.pairs.tail else l.pairs
    pending := l.outer.head?.join
    outer := l.outer.tail
    keyAllowed := false }
  let l ← l.mark? t 1
  some (if l.inFlow then { l with adjacent := l.cursor.place.index } else l)

def comma? (l : Layout) : Option Layout := do
  let l ← l.dropKey?
  (l.allowKey true).endPair.mark? .comma 1

/-- A hyphen that is kept from another one by a tab alone. -/
def hasTabbedItem (cs : List Char) : Bool :=
  (cs.takeWhile isGap).contains '\t' &&
    match cs.dropWhile isGap with
    | c :: cs => c == '-' && startsBreak cs
    | [] => false

def item? (l : Layout) : Option Layout := do
  if l.inFlow || !l.keyAllowed || hasTabbedItem (l.cursor.rest.drop 1) then none
  let opened := (l.drop 1).openBlock l.column none .blockSequence
  let l ← opened.skipGaps?
  let rest := l.cursor.rest
  let l := if rest.head? == some '\n' || startsFlowMark rest then l.addRoom else l
  let l ← l.dropKey?
  some ((l.allowKey true).push .item)

/-- The mark of a key that may be any node. -/
def markedKey? (l : Layout) : Option Layout := do
  if !l.inFlow && !l.keyAllowed then none
  let l := if l.inFlow then { l with hasBraces := true }
    else l.openBlock l.column none .blockMapping
  let l ← (l.allowKey !l.inFlow).dropKey?
  let l := l.drop 1
  let rest := l.cursor.rest
  if rest.isEmpty || rest.head? == some '\t' then none
  let l := { l with cursor := l.cursor.skipSpaces }
  if l.cursor.rest.head? == some '\t' then none
  some (l.push .key)

/-- Tabs without a space, and then a word. -/
def hasTabbedWord (cs : List Char) : Bool :=
  cs.head? == some '\t' && !(cs.takeWhile isGap).contains ' ' &&
    (cs.dropWhile isGap).head?.any isWord

/-- The colon after a key. If there is no pending key, the key was marked or is left out. In a
flow sequence, the pair is a mapping of its own. -/
def value? (l : Layout) : Option Layout := do
  let place := l.cursor.place
  if hasTabbedWord (l.cursor.rest.drop 1) then none
  let startsPair := !l.pairs.isEmpty && !l.hasBraces
  let l := (if startsPair then l.beginPair else l).drop 1
  match l.pending with
  | some k =>
    if startsPair && k.place.line < place.line then none
    let l := l.insert k .key
    let l := if startsPair then l.insert k .openMapping else l
    let l := (l.openBlock k.place.column (some k) .blockMapping).addRoom
    some ({ l with pending := none, keyAllowed := false }.push .value)
  | none =>
    let l := if startsPair then l.push .openMapping else l
    if !l.inFlow && !l.keyAllowed then none
    let l := (l.openBlock place.column none .blockMapping).addRoom
    some ((l.allowKey !l.inFlow).push .value)

def isAnchorName (c : Char) : Bool :=
  !isGap c && c != '\n' && c != '\ufeff' && !isFlowMark c

/-- An anchor or a reference to one. -/
def named? (l : Layout) (token : String → Token) : Option Layout :=
  let name := (l.cursor.rest.drop 1).takeWhile isAnchorName
  if name.isEmpty then none
  else some (((l.markKey.allowKey false).drop (name.length + 1)).push (token (String.ofList name)))

def tag? (l : Layout) : Option Layout := do
  let (t, rest) ← readTag? l.cursor.rest
  if startsBreak rest || (l.inFlow && startsFlowMark rest) then
    let l := l.markKey.allowKey false
    some ({ l with cursor := l.cursor.dropTo rest }.push (.tag t.handle t.name))
  else none

def block? (l : Layout) : Option Layout := do
  let l := (l.markKey.allowKey true).dropRoom
  let (words, cursor) ← l.cursor.block? l.indent
  some ({ l with cursor }.push (.scalar false (String.ofList words)))

/-- Whether text may go on after a quoted text that began on the given line. -/
def mayFollowQuoted (l : Layout) (line : Nat) : Bool :=
  match l.cursor.rest with
  | [] => true
  | c :: _ =>
    c == '\n' || (c == ':' && (l.inFlow || line = l.cursor.place.line)) ||
      (l.inFlow && (c == ',' || c == ']' || c == '}'))

def quoted? (l : Layout) (q : Quote) : Option Layout := do
  let line := l.cursor.place.line
  let (words, cursor) ← l.cursor.quoted? q l.indent
  let l ← { l.markKey.allowKey false with cursor }.skipGaps?
  if !l.mayFollowQuoted line then none
  let l ← l.skip?
  some ({ l with adjacent := l.cursor.place.index }.push (.scalar false (String.ofList words)))

def plain? (l : Layout) : Option Layout := do
  let l := (l.markKey.allowKey false).dropRoom
  let s ← l.cursor.plain? l.inFlow (l.indent + 1)
  some ({ l with cursor := s.next, keyAllowed := s.endsLine }.push
    (.scalar true (String.ofList s.text)))

/-- The mark that begins or ends a document closes all blocks. -/
def documentMark? (l : Layout) (t : Token) : Option Layout := do
  let l ← (l.closeLevels (-1)).dropKey?
  some (((l.allowKey false).drop 3).push t)

def documentEnd? (l : Layout) : Option Layout := do
  let l ← (← l.documentMark? .documentEnd).skipGaps?
  if l.cursor.rest.isEmpty || l.cursor.rest.head? == some '\n' then some l else none

/-- A number of one to nine digits. -/
def versionPart? (cs : List Char) : Option (List Char) :=
  let digits := cs.takeWhile Char.isDigit
  if digits.isEmpty || 9 < digits.length then none else some (cs.drop digits.length)

/-- What follows the name of a directive: the token, and the rest of the line. -/
def directiveValue? (name : String) (cs : List Char) : Option (Token × List Char) := do
  let value := cs.dropWhile isGap
  if name = "YAML" then
    match ← versionPart? value with
    | '.' :: rest => some (.versionDirective, ← versionPart? rest)
    | _ => none
  else if name = "TAG" then
    let (handle, rest) ← tagHandle? value
    if handle ≠ ['!'] ∧ (handle.length < 2 ∨ handle.getLast? ≠ some '!') then none
    let (space, rest) ← tagSpace? (rest.dropWhile isGap)
    if !startsBreak rest then none
    some (.tagDirective (String.ofList handle) (String.ofList space), rest)
  else some (.tagDirective "" "", cs.dropWhile (· != '\n'))

def directive? (l : Layout) : Option Layout := do
  let l ← (l.closeLevels (-1)).dropKey?
  let cs := l.cursor.rest.drop 1
  let name := cs.takeWhile isWord
  let rest := cs.drop name.length
  if name.isEmpty || !startsBreak rest then none
  let (t, rest) ← directiveValue? (String.ofList name) rest
  let l ← ({ l.allowKey false with cursor := l.cursor.dropTo rest }).skipGaps?
  if l.cursor.rest.isEmpty || l.cursor.rest.head? == some '\n' then some (l.push t) else none

/-- Whether the colon in front ends a key without white space after it. -/
def hasCloseColon (l : Layout) (cs : List Char) : Bool :=
  l.inFlow && (startsFlowMark cs || l.cursor.place.index = l.adjacent)

/-- Reads the token in front. -/
def token? (l : Layout) : Option Layout :=
  match l.cursor.rest with
  | [] => none
  | c :: cs =>
    let isMark := startsBreak cs
    match c with
    | '[' => l.openFlow? true .openSequence
    | '{' => l.openFlow? false .openMapping
    | ']' => l.closeFlow? true .closeSequence
    | '}' => l.closeFlow? false .closeMapping
    | ',' => l.comma?
    | '*' => l.named? .reference
    | '&' => l.named? .anchor
    | '!' => l.tag?
    | '\x27' => l.quoted? .single
    | '\x22' => l.quoted? .double
    | '%' | '@' | '\x60' => none
    | '-' => if isMark then l.item? else l.plain?
    | '?' => if isMark then l.markedKey? else l.plain?
    | ':' =>
      if isMark then l.value?
      else if l.hasCloseColon cs then
        if l.cursor.place.index != l.adjacent && (cs.head? == some '[' || cs.head? == some '{')
        then none else l.value?
      else l.plain?
    | '|' | '>' => if l.inFlow then l.plain? else l.block?
    | _ => l.plain?

/-- Reads what stands in front: a directive, the mark of a document or a token. -/
def step? (l : Layout) : Option Layout :=
  let rest := l.cursor.rest
  if l.column = 0 && rest.head? == some '%' then l.directive?
  else if l.column = 0 && startsMarker '-' rest then l.documentMark? .documentStart
  else if l.column = 0 && startsMarker '.' rest then l.documentEnd?
  else if (l.column : Int) < l.indent then none
  else l.token?

def finish? (l : Layout) : Option (List Token) :=
  if l.inFlow then none
  else l.dropKey?.map fun l => (l.closeLevels (-1)).tokens.reverse

/-- Reads up to `fuel` tokens, and the text must end with them. -/
def run? : Nat → Layout → Option (List Token)
  | 0, _ => none
  | fuel + 1, l => do
    let l ← (← l.skip?).dropFarKey?
    let l := l.closeLevels l.column
    if l.cursor.rest.isEmpty then l.finish? else run? fuel (← l.step?)

end Layout

/-- The tokens of a text. -/
def Token.ofText? (cs : List Char) : Option (List Token) :=
  (Layout.ofText cs).run? (cs.length + 1)

example : Token.ofText? "a: [b]".toList = some [.blockMapping, .key, .scalar true "a", .value,
    .openSequence, .scalar true "b", .closeSequence, .blockEnd] := by decide +kernel

end Proforma.Yaml
