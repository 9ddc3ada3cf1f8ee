import Proforma.Toml.Scalar
import Proforma.Toml.Table

/-! Reading TOML text into the tree of a JSON object. -/
namespace Proforma.Toml

/-- A comment without its mark, up to the end of the line. -/
def comment? : List Char → Option (List Char)
  | [] => some []
  | '\r' :: '\n' :: cs => some ('\r' :: '\n' :: cs)
  | c :: cs => if c == '\n' then some (c :: cs) else if isControl c then none else comment? cs

/-- The rest of a line that holds nothing more than a comment. -/
def endLine? (cs : List Char) : Option (List Char) :=
  let rest? := match skipGaps cs with
    | '#' :: cs => comment? cs
    | cs => some cs
  match rest? with
  | some [] => some []
  | some cs => lineEnd? cs
  | none => none

/-- Skips white space, line breaks and comments. -/
def skipLines? : Nat → List Char → Option (List Char)
  | 0, cs => some cs
  | fuel + 1, cs =>
    match skipGaps cs with
    | '#' :: cs => (comment? cs).bind (skipLines? fuel)
    | cs =>
      match lineEnd? cs with
      | some cs => skipLines? fuel cs
      | none => some cs

mutual

def value? : Nat → List Char → Option (Json × List Char)
  | 0, _ => none
  | fuel + 1, cs =>
    match cs with
    | '[' :: cs => (items? fuel cs).map fun (vs, rest) => (.array vs, rest)
    | '{' :: cs => (members? fuel [] cs).map fun (es, rest) => (.object (toMembers es), rest)
    | c :: cs =>
      if isQuote c then (string? (c :: cs)).map fun (s, rest) => (.text (String.ofList s), rest)
      else
        let (w, rest) := word (c :: cs)
        (ofWord? w).map fun v => (v, rest)
    | [] => none

/-- The items of an array, after its opening bracket. -/
def items? : Nat → List Char → Option (List Json × List Char)
  | 0, _ => none
  | fuel + 1, cs => do
    match ← skipLines? cs.length cs with
    | ']' :: cs => some ([], cs)
    | cs =>
      let (v, cs) ← value? fuel cs
      match ← skipLines? cs.length cs with
      | ',' :: cs => (items? fuel cs).map fun (vs, rest) => (v :: vs, rest)
      | ']' :: cs => some ([v], cs)
      | _ => none

/-- The entries of a table within a value, after its opening brace. -/
def members? (fuel : Nat) (es : Entries) (cs : List Char) : Option (Entries × List Char) :=
  match fuel with
  | 0 => none
  | fuel + 1 => do
    match ← skipLines? cs.length cs with
    | '}' :: cs => some (es, cs)
    | cs =>
      let (keys, v, cs) ← entry? fuel cs
      let es ← es.insert? keys v
      match ← skipLines? cs.length cs with
      | ',' :: cs => members? fuel es cs
      | '}' :: cs => some (es, cs)
      | _ => none

/-- A key, an equals sign and a value. -/
def entry? : Nat → List Char → Option (List String × Json × List Char)
  | 0, _ => none
  | fuel + 1, cs => do
    let (keys, cs) ← key? cs.length cs
    match cs with
    | '=' :: cs =>
      let (v, cs) ← value? fuel (skipGaps cs)
      some (keys, v, cs)
    | _ => none

end

/-- A header: keys between brackets, and nothing else on the line. -/
def header? (width : Nat) (cs : List Char) : Option (List String × List Char) := do
  let (keys, cs) ← key? cs.length cs
  if cs.take width == List.replicate width ']' then some (keys, ← endLine? (cs.drop width))
  else none

/-- Reads the lines of a document into a table. -/
def readLines? (es : Entries) (header : List String) : Nat → List Char → Option Entries
  | 0, _ => none
  | fuel + 1, cs => do
    match ← skipLines? cs.length cs with
    | [] => some es
    | '[' :: '[' :: cs =>
      let (keys, cs) ← header? 2 cs
      readLines? (← es.openArray? keys) keys fuel cs
    | '[' :: cs =>
      let (keys, cs) ← header? 1 cs
      readLines? (← es.openTable? keys) keys fuel cs
    | cs =>
      let (keys, v, cs) ← entry? (2 * cs.length) cs
      readLines? (← es.insertAt? header keys v) header fuel (← endLine? cs)

def dropByteOrderMark : List Char → List Char
  | '\uFEFF' :: cs => cs
  | cs => cs

def read? (text : String) : Option Json :=
  let cs := dropByteOrderMark text.toList
  (readLines? [] [] (cs.length + 1) cs).map fun es => .object (toMembers es)

end Proforma.Toml
