import Proforma.Text.Digit
import Proforma.Yaml.Cursor
import Proforma.Yaml.Fold

/-!
Texts in single and double quotes. Their lines are folded, and the lines after the first keep
to the indentation of the block around them.
-/
namespace Proforma.Yaml

open Text

inductive Quote where
  | single | double
  deriving DecidableEq, Repr

def Quote.mark : Quote → Char
  | single => '\x27'
  | double => '\x22'

/-- The text up to the closing quote, without it. A backslash in double quotes, and a quote in
single quotes, may stand before a quote that does not close. -/
def Quote.close? (q : Quote) : List Char → Option (List Char)
  | [] => none
  | c :: d :: cs =>
    if (q = .double ∧ c = '\\') ∨ (q = .single ∧ c = '\x27' ∧ d = '\x27') then
      (close? q cs).map fun raw => c :: d :: raw
    else if c = q.mark then some []
    else (close? q (d :: cs)).map (c :: ·)
  | [c] => if c = q.mark then some [] else none

/-- A quote in a text in single quotes is written twice. -/
def halveQuotes : List Char → List Char
  | '\x27' :: '\x27' :: cs => '\x27' :: halveQuotes cs
  | c :: cs => c :: halveQuotes cs
  | [] => []

def namedEscapes : List (Char × Char) := [
  ('0', '\x00'), ('a', '\x07'), ('b', '\x08'), ('t', '\t'), ('\t', '\t'), ('n', '\n'),
  ('v', '\x0b'), ('f', '\x0c'), ('r', '\r'), ('e', '\x1b'), (' ', ' '), ('\x22', '\x22'),
  ('/', '/'), ('\\', '\\'), ('N', '\u0085'), ('_', '\u00a0'), ('L', '\u2028'), ('P', '\u2029')]

/-- How many hexadecimal digits follow the letter of an escape. -/
def codeLength? (c : Char) : Option Nat :=
  if c == 'x' then some 2 else if c == 'u' then some 4 else if c == 'U' then some 8 else none

/-- Replaces the escapes of a text in double quotes; `pending` characters of it were part of
the last escape. -/
def unescape? (pending : Nat) : List Char → Option (List Char)
  | [] => if pending = 0 then some [] else none
  | c :: cs =>
    match pending with
    | n + 1 => unescape? n cs
    | 0 =>
      if c == '\\' then
        match cs with
        | [] => none
        | e :: digits =>
          match codeLength? e with
          | some n => do
            if digits.length < n then none
            let c ← charOf? (← digitsIn? 16 (digits.take n))
            (unescape? (n + 1) cs).map (c :: ·)
          | none => do
            let c ← namedEscapes.lookup e
            (unescape? 1 cs).map (c :: ·)
      else (unescape? 0 cs).map (c :: ·)

def Quote.read? : Quote → List Char → Option (List Char)
  | single, cs => some (halveQuotes cs)
  | double, cs => unescape? 0 cs

/-- An odd number of backslashes stands at the end. -/
def endsEscaped (cs : List Char) : Bool :=
  (cs.reverse.takeWhile (· == '\\')).length % 2 == 1

/-- Removes the gaps at the end of a line, but none after a backslash in double quotes. A
backslash at the end of a line joins the next line to it. -/
def Line.ofQuoted (q : Quote) (cs : List Char) : Line :=
  let kept := dropLastGaps cs
  if q = .double && endsEscaped kept then
    match cs.drop kept.length with
    | [] => ⟨kept.dropLast, true⟩
    | c :: _ => ⟨kept ++ [c], false⟩
  else ⟨kept, false⟩

/-- Removes the gaps before the line breaks of a quoted text. -/
def endLines (q : Quote) : List (List Char) → List Line
  | [] => []
  | [last] => [⟨last, false⟩]
  | line :: rest => Line.ofQuoted q line :: endLines q rest

/-- Removes the gaps around the line breaks of a quoted text. -/
def quotedLines (q : Quote) : List (List Char) → List Line
  | [] => []
  | first :: rest => endLines q (first :: rest.map fun line => line.dropWhile isGap)

def Quote.text? (q : Quote) (raw : List Char) : Option (List Char) :=
  ((quotedLines q (lines raw)).mapM fun line =>
    (q.read? line.text).map fun text => { line with text }).map fold

/-- The lines after the first begin in column `indent` or further to the right, and no tab stands
further to the left. Lines of gaps need not, unless the text ends there. A text may also end at
once on a line that is joined to the one before. -/
def keepsIndent (q : Quote) (indent : Int) (joined : Bool) : List (List Char) → Bool
  | [] => true
  | line :: rest =>
    let gaps := line.takeWhile isGap
    let text := line.drop gaps.length ++ if rest.isEmpty then [q.mark] else []
    let isFree := text.isEmpty || (rest.isEmpty && joined && line.isEmpty)
    !(gaps.take indent.toNat).contains '\t' &&
      (isFree || (indent ≤ gaps.length && !(gaps.isEmpty && startsDocumentMarker text))) &&
      keepsIndent q indent (Line.ofQuoted q line).joined rest

/-- The text in the quotes at the front, and the cursor after them. -/
def Cursor.quoted? (c : Cursor) (q : Quote) (indent : Int) : Option (List Char × Cursor) := do
  let raw ← q.close? (c.rest.drop 1)
  let ls := lines raw
  let joined := (ls.head?.map fun line => (Line.ofQuoted q line).joined).getD false
  if keepsIndent q indent joined ls.tail then
    some (← q.text? raw, c.drop (raw.length + 2))
  else none

example : (Quote.text? .single "it''s".toList).map String.ofList = some "it's" := by
  decide +kernel
example : (Quote.text? .double "a \n\n b\\\n c\\u00e9".toList).map String.ofList =
    some "a\nbcé" := by decide +kernel

end Proforma.Yaml
