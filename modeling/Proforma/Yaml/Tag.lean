import Proforma.Text.Digit
import Proforma.Yaml.Cursor

/-!
Tags as they are written: a handle and a name, or the whole tag between angle brackets.
Characters that a tag cannot hold are written as their bytes, each after a percent sign.
-/
namespace Proforma.Yaml

open Text

def isTagMark (c : Char) : Bool := "#;/?:@&=+$,_.!~*\x27()[]%".toList.contains c

/-- What may stand in a whole tag. -/
def isUri (c : Char) : Bool := isWord c || isTagMark c

/-- What may stand in the name after a handle. -/
def isTagName (c : Char) : Bool := isUri c && !isFlowMark c && c != '!'

/-- How many bytes a character has, by its first byte. -/
def byteCount? (b : Nat) : Option Nat :=
  if b < 0x80 then some 1
  else if 0xC0 ≤ b ∧ b < 0xE0 then some 2
  else if 0xE0 ≤ b ∧ b < 0xF0 then some 3
  else if 0xF0 ≤ b ∧ b < 0xF8 then some 4
  else none

def readByte? : List Char → Option (Nat × List Char)
  | '%' :: a :: b :: cs => (digitsIn? 16 [a, b]).map fun n => (n, cs)
  | _ => none

/-- The further bytes of a character, beside those already in `code`. -/
def readBytes? (code : Nat) : Nat → List Char → Option (Nat × List Char)
  | 0, cs => some (code, cs)
  | n + 1, cs => do
    let (b, cs) ← readByte? cs
    if 0x80 ≤ b ∧ b < 0xC0 then readBytes? (code * 256 + b) n cs else none

/-- The character whose code is made up of the bytes at the front. -/
def readBytesChar? (cs : List Char) : Option (Char × List Char) := do
  let (b, rest) ← readByte? cs
  let (code, rest) ← readBytes? b ((← byteCount? b) - 1) rest
  some (← charOf? code, rest)

/-- The longest run of allowed characters, with at most `fuel` characters in it. -/
def tagRun? (allowed : Char → Bool) : Nat → List Char → Option (List Char × List Char)
  | 0, cs => some ([], cs)
  | _, [] => some ([], [])
  | fuel + 1, c :: cs => do
    if !allowed c then some ([], c :: cs)
    else
      let (x, rest) ← if c == '%' then readBytesChar? (c :: cs) else some (c, cs)
      let (run, rest) ← tagRun? allowed fuel rest
      some (x :: run, rest)

/-- An exclamation mark, word characters and maybe another exclamation mark. -/
def tagHandle? : List Char → Option (List Char × List Char)
  | '!' :: cs =>
    let word := cs.takeWhile isWord
    match cs.dropWhile isWord with
    | '!' :: rest => some ('!' :: word ++ ['!'], rest)
    | rest => some ('!' :: word, rest)
  | _ => none

/-- A tag as it is written. -/
structure WrittenTag where
  handle : String
  name : String
  deriving DecidableEq, Repr

/-- The tag at the front. -/
def readTag? (cs : List Char) : Option (WrittenTag × List Char) := do
  match cs with
  | '!' :: '<' :: cs =>
    let (name, rest) ← tagRun? isUri cs.length cs
    if rest.head? == some '>' then some (⟨"", String.ofList name⟩, rest.drop 1) else none
  | _ =>
    let (handle, rest) ← tagHandle? cs
    let (run, after) ← tagRun? isTagName rest.length rest
    if 2 ≤ handle.length && handle.getLast? == some '!' then
      if after.length = rest.length then none
      else some (⟨String.ofList handle, String.ofList run⟩, after)
    else
      let name := handle.drop 1 ++ run
      some (if name.isEmpty then ⟨"", "!"⟩ else ⟨"!", String.ofList name⟩, after)

/-- What a handle stands for: the beginning of a whole tag. -/
def tagSpace? : List Char → Option (List Char × List Char)
  | '!' :: cs => (tagRun? isUri cs.length cs).map fun (run, rest) => ('!' :: run, rest)
  | c :: cs => if isTagName c then tagRun? isUri (cs.length + 1) (c :: cs) else none
  | [] => none

example : readTag? "!!int 1".toList = some (⟨"!!", "int"⟩, " 1".toList) := by decide +kernel
example : readTag? "!<a%21> 1".toList = some (⟨"", "a!"⟩, " 1".toList) := by decide +kernel
example : readTag? "!! 1".toList = none := by decide +kernel

end Proforma.Yaml
