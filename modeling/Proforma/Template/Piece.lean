import Proforma.Text.Position

/-!
A template's source cut into literal text and directives. A directive runs from an opener to the
first closer of the same kind after it, and holds no further opener.
-/
namespace Proforma

open Text

inductive Delimiter where
  | expression | tag
  deriving DecidableEq, Repr

namespace Delimiter

def opener : Delimiter → List Char
  | expression => ['{', '{']
  | tag => ['{', '%']

def closer : Delimiter → List Char
  | expression => ['}', '}']
  | tag => ['%', '}']

def width : Nat := 2

theorem byteLength_opener (d : Delimiter) : byteLength d.opener = width := by
  cases d <;> decide

theorem byteLength_closer (d : Delimiter) : byteLength d.closer = width := by
  cases d <;> decide

end Delimiter

inductive LexError where
  | unterminated (delimiter : Delimiter) (offset : Nat)
  | nested (outer inner : Delimiter) (offset : Nat)
  deriving DecidableEq, Repr

namespace LexError

def offset : LexError → Nat
  | unterminated _ offset | nested _ _ offset => offset

def message : LexError → String
  | unterminated d _ =>
    "unterminated `" ++ String.ofList d.opener ++ "`: no matching `" ++
      String.ofList d.closer ++ "`"
  | nested outer inner _ =>
    "`" ++ String.ofList inner.opener ++ "` cannot appear inside `" ++
      String.ofList outer.opener ++ "`"

end LexError

/-- The text before the first opener, the opener's kind, and what follows it. -/
def splitOpener? : List Char → Option (List Char × Delimiter × List Char)
  | [] => none
  | '{' :: '{' :: cs => some ([], .expression, cs)
  | '{' :: '%' :: cs => some ([], .tag, cs)
  | c :: cs => (splitOpener? cs).map fun (before, d, after) => (c :: before, d, after)

/-- The text before the first closer, and what follows it. -/
def splitCloser? (d : Delimiter) : List Char → Option (List Char × List Char)
  | a :: b :: cs =>
    if d.closer = [a, b] then some ([], cs)
    else (splitCloser? d (b :: cs)).map fun (before, after) => (a :: before, after)
  | _ => none

theorem append_of_splitOpener? {cs before after : List Char} {d : Delimiter}
    (h : splitOpener? cs = some (before, d, after)) : cs = before ++ d.opener ++ after := by
  fun_induction splitOpener? cs generalizing before with
  | case1 => simp at h
  | case2 cs =>
    obtain ⟨rfl, rfl, rfl⟩ := by simpa using h
    rfl
  | case3 cs =>
    obtain ⟨rfl, rfl, rfl⟩ := by simpa using h
    rfl
  | case4 c cs _ _ ih =>
    obtain ⟨⟨b, d', a⟩, hs, he⟩ := Option.map_eq_some_iff.mp h
    obtain ⟨rfl, rfl, rfl⟩ := by simpa using he
    simp [ih hs]

theorem append_of_splitCloser? {d : Delimiter} {cs before after : List Char}
    (h : splitCloser? d cs = some (before, after)) : cs = before ++ d.closer ++ after := by
  fun_induction splitCloser? d cs generalizing before with
  | case1 a b cs hd =>
    obtain ⟨rfl, rfl⟩ := by simpa using h
    simp [hd]
  | case2 a b cs _ ih =>
    obtain ⟨⟨b, a⟩, hs, he⟩ := Option.map_eq_some_iff.mp h
    obtain ⟨rfl, rfl⟩ := by simpa using he
    simp [ih hs]
  | case3 => simp at h

/-- A piece of a source, with the offset where it starts. -/
inductive Piece where
  | text (start : Nat) (raw : List Char)
  | directive (start : Nat) (delimiter : Delimiter) (content : List Char)
  deriving DecidableEq, Repr

def Piece.ofText (start : Nat) (raw : List Char) : List Piece :=
  if raw.isEmpty then [] else [.text start raw]

/-- Cuts a source that starts at the given offset. -/
def piecesFrom (start : Nat) (cs : List Char) : Except LexError (List Piece) :=
  match _h : splitOpener? cs with
  | none => .ok (Piece.ofText start cs)
  | some (before, d, rest) =>
    let opened := start + byteLength before
    match _h' : splitCloser? d rest with
    | none => .error (.unterminated d opened)
    | some (content, after) =>
      let inside := opened + Delimiter.width
      match splitOpener? content with
      | some (lead, inner, _) => .error (.nested d inner (inside + byteLength lead))
      | none => do
        let pieces ← piecesFrom (inside + byteLength content + Delimiter.width) after
        .ok (Piece.ofText start before ++ .directive opened d content :: pieces)
termination_by cs.length
decreasing_by
  rw [append_of_splitOpener? _h, append_of_splitCloser? _h']
  cases d <;> simp [Delimiter.opener, Delimiter.closer] <;> omega

def pieces (source : List Char) : Except LexError (List Piece) := piecesFrom 0 source

inductive Token where
  | text (raw : String) | content (raw : String) | opener (d : Delimiter) | closer (d : Delimiter)
  deriving DecidableEq, Repr

/-- A piece as tokens, each with its span. -/
def Piece.tokens : Piece → List (Token × Span)
  | text start raw => [(.text (String.ofList raw), ⟨start, start + byteLength raw⟩)]
  | directive start d content =>
    let inside := start + Delimiter.width
    let closing := inside + byteLength content
    [(.opener d, ⟨start, inside⟩), (.content (String.ofList content), ⟨inside, closing⟩),
      (.closer d, ⟨closing, closing + Delimiter.width⟩)]

def tokens (source : List Char) : Except LexError (List (Token × Span)) :=
  (pieces source).map fun ps => ps.flatMap Piece.tokens

end Proforma
