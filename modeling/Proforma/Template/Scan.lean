import Proforma.Template.Cursor
import Proforma.Template.FrontMatter

/-!
Templates read again by byte offsets: a source is cut into tokens with slices of it, directives are
read with cursors, and front matter ends at the sum of the lengths of its lines. There is no
result at all where a slice fails, where a loop does not move on, or where tokens do not come in the
order in which they are cut.
-/
namespace Proforma

open Text

/-- Where the first directive opens, and its delimiter. -/
def nextOpen (cs : List Char) : Option (Nat × Delimiter) :=
  match find? Delimiter.expression.opener cs, find? Delimiter.tag.opener cs with
  | some e, some t => some (if e ≤ t then (e, .expression) else (t, .tag))
  | some e, none => some (e, .expression)
  | none, some t => some (t, .tag)
  | none, none => none

/-- The token of a text of `length` bytes. -/
def scanText (source : List Char) (start length : Nat) :
    ExceptT LexError Option (List (Token × Span)) := do
  let raw ← ExceptT.lift (slice? source start (start + length))
  return [(.text (String.ofList raw), ⟨start, start + length⟩)]

/-- The tokens of a directive that opens at `start`, and the offset after it. -/
def scanDelimited (source : List Char) (d : Delimiter) (start : Nat) :
    ExceptT LexError Option (List (Token × Span) × Nat) := do
  let inside := start + byteLength d.opener
  let inner ← ExceptT.lift (slice? source inside (byteLength source))
  match find? d.closer inner with
  | none => throw (.unterminated d start)
  | some length =>
    let content ← ExceptT.lift (slice? inner 0 length)
    match nextOpen content with
    | some (lead, nested) => throw (.nested d nested (inside + lead))
    | none =>
      let closing := inside + length
      let stop := closing + byteLength d.closer
      return ([(.opener d, ⟨start, inside⟩), (.content (String.ofList content), ⟨inside, closing⟩),
        (.closer d, ⟨closing, stop⟩)], stop)

/-- The tokens from `position` on, with those that `again` gives from where it goes on. -/
def scanTurn (source : List Char) (again : Nat → ExceptT LexError Option (List (Token × Span)))
    (position : Nat) : ExceptT LexError Option (List (Token × Span)) := do
  if position < byteLength source then
    let rest ← ExceptT.lift (slice? source position (byteLength source))
    match nextOpen rest with
    | some (length, d) =>
      let before ← if 0 < length then scanText source position length else pure []
      let (directive, stop) ← scanDelimited source d (position + length)
      return before ++ directive ++ (← again stop)
    | none =>
      let last ← scanText source position (byteLength rest)
      return last ++ (← again (position + byteLength rest))
  else return []

def scanTokensFrom (source : List Char) (position : Nat) :
    ExceptT LexError Option (List (Token × Span)) :=
  Text.loop (byteLength source - ·) (scanTurn source) position

def scanTokens (source : List Char) : ExceptT LexError Option (List (Token × Span)) :=
  scanTokensFrom source 0

def Located.toError (source : List Char) (l : Located) : ParseError :=
  .fault l.fault (.ofOffset source l.offset)

/-- Places the items that tokens stand for. -/
def Builder.scan (source : List Char) (b : Builder) :
    List (Token × Span) → ExceptT ParseError Option Builder
  | [] => return b
  | (.text raw, span) :: ts => (b.push (.text raw span)).scan source ts
  | (.opener .expression, opening) :: (.content raw, inside) :: (.closer .expression, closing) ::
      ts => do
    let content := (Cursor.expression opening.start).start raw.toList inside.start
    let (path, filters) ← content.adapt (Located.toError source)
    (b.push (.expression path filters ⟨opening.start, closing.stop⟩)).scan source ts
  | (.opener .tag, opening) :: (.content raw, inside) :: (.closer .tag, closing) :: ts => do
    let content := scanDirective raw.toList inside.start opening.start
    let d ← content.adapt (Located.toError source)
    match b.place (.directive d ⟨opening.start, closing.stop⟩) with
    | .ok b => b.scan source ts
    | .error f => throw (f.toError source)
  | _ => ExceptT.lift none

/-- Reads a template by byte offsets. -/
def scan (source : List Char) : ExceptT ParseError Option Tree := do
  let ts ← (scanTokens source).adapt fun e => ParseError.lex e (.ofOffset source e.offset)
  let b ← Builder.empty.scan source ts
  match b.finish with
  | .ok t => return t
  | .error f => throw (f.toError source)

namespace FrontMatter

/-- The offset after the first fence in lines that begin at `offset`. -/
def closeOffset? (offset : Nat) : List (List Char) → Option Nat
  | [] => none
  | line :: rest =>
    let offset := offset + byteLength line
    if isFence line then some offset else closeOffset? offset rest

/-- The offset where the body begins behind front matter. -/
def bodyOffset? (text : List Char) : Option Nat :=
  match fullLines text with
  | [] => none
  | first :: rest => if isFence first then closeOffset? (byteLength first) rest else none

end FrontMatter

/-- Where the body of a template begins that is read from a text. -/
def scanOrigin (text : List Char) : Position :=
  match FrontMatter.bodyOffset? text with
  | none => .start
  | some offset => .ofOffset text offset

end Proforma
