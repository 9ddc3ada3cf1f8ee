import Proforma.Yaml.Node
import Proforma.Yaml.Tokens

/-!
Reading YAML text: its documents one after the other, each with the directives before it. A text
can be read if all of its documents can.
-/
namespace Proforma.Yaml

open NodeReader

/-- Reads the directives before a document. The last one alone counts, and at most one may give
the version. -/
def directives (hasVersion : Bool) : Nat → NodeReader Unit
  | 0 => pure ()
  | fuel + 1 => do
    match ← peek with
    | some .versionDirective =>
      if hasVersion then fail
      else
        modify fun s => { s with tokens := s.tokens.tail, spaces := [] }
        directives true fuel
    | some (.tagDirective handle space) =>
      modify fun s => { s with tokens := s.tokens.tail, spaces := [(handle, space)] }
      directives hasVersion fuel
    | _ => pure ()

def skipDocumentEnds : NodeReader Unit :=
  modify fun s => { s with tokens := s.tokens.dropWhile (· == .documentEnd) }

def isDirective : Token → Bool
  | .versionDirective | .tagDirective .. => true
  | _ => false

/-- Whether a marked document has ended already. -/
def endsDocument (t : Token) : Bool := isDirective t || t == .documentStart || t == .documentEnd

/-- A document. Without a mark one begins only where `bare` allows it. -/
def document (bare : Bool) : NodeReader Yaml := do
  let s ← get
  let depth := 3 * s.tokens.length + 3
  let isMarked := !bare || s.tokens.head?.any fun t => isDirective t || t == .documentStart
  directives false s.tokens.length
  if isMarked then
    if (← peek) != some .documentStart then fail
    else
      advance
      match ← peek with
      | none => pure .null
      | some t => if endsDocument t then pure .null else node true false depth
  else node true false depth

/-- The documents up to the end of the text. After one without a mark at its end the next one
begins with a mark, and with no directive. -/
def documents (bare : Bool) : Nat → NodeReader (List Yaml)
  | 0 => fail
  | fuel + 1 => do
    skipDocumentEnds
    if (← get).tokens.isEmpty then pure []
    else
      modify fun s => { s with anchors := [], spaces := [] }
      let v ← document bare
      match ← peek with
      | some .documentEnd => pure (v :: (← documents true fuel))
      | some t => if isDirective t then fail else pure (v :: (← documents false fuel))
      | none => pure [v]

/-- Each line break as a line feed. -/
def lineFeeds : List Char → List Char
  | '\r' :: '\n' :: cs => '\n' :: lineFeeds cs
  | c :: cs => (if c == '\r' then '\n' else c) :: lineFeeds cs
  | [] => []

/-- The first document of a text, null if there is none. A NUL character ends the text. -/
def read? (cs : List Char) : Option Yaml := do
  let tokens ← Token.ofText? (lineFeeds (cs.takeWhile (· != '\x00')))
  let (vs, _) ← documents true (tokens.length + 1) ⟨tokens, [], [], 0, []⟩
  some (vs.head?.getD .null)

end Proforma.Yaml
