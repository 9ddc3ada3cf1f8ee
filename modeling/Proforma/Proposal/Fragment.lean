import Proforma.Schema.Basic
import Proforma.Template.Path

/-!
Template text for the attributes that a template leaves out. Each attribute is shown only if the
record has it, in the way that suits its kind.
-/
namespace Proforma.Proposal

open Text

structure Options where
  sectionTitle : String
  /-- The pattern for moments in time. -/
  momentPattern : String
  deriving DecidableEq, Repr

def Options.standard : Options := ⟨"Additional Details", "%B %-d, %Y %H:%M"⟩

/-- The loop variable of a collection. -/
def itemName : List Char := "item".toList

/-- The field that stands for a reference without a usable one of its own. -/
def standardDisplayField : List Char := "Name".toList

def expression (content : List Char) : List Char :=
  '{' :: '{' :: ' ' :: content ++ [' ', '}', '}']

def tag (content : List Char) : List Char :=
  '{' :: '%' :: ' ' :: content ++ [' ', '%', '}']

/-- A text without braces, so that it opens no directive. -/
def plain (text : List Char) : List Char := text.filter fun c => c != '{' && c != '}'

/-- A text between single quotes; a backslash goes before each quote and backslash in it. -/
def quoted (text : List Char) : List Char :=
  '\x27' :: text.flatMap (fun c => if c == '\\' || c == '\x27' then ['\\', c] else [c]) ++ ['\x27']

/-- The field of a referenced entity that is shown. -/
def displayField (a : Attribute) : List Char :=
  match a.displayField with
  | some field => if isIdentifier field.toList then field.toList else standardDisplayField
  | none => standardDisplayField

/-- Shows the value at `path`. A collection has no form on a single line. -/
def snippet (o : Options) (path : List Char) (a : Attribute) : List Char :=
  match a.kind with
  | .text | .number => expression path
  | .currency => expression (path ++ " | currency".toList)
  | .date => expression (path ++ " | date".toList)
  | .moment =>
    expression (path ++ " | datetime(".toList ++ quoted o.momentPattern.toList ++ [')'])
  | .reference => expression (path ++ '.' :: displayField a)
  | .collection => []

/-- The fields of an item that have a form on a single line. -/
def itemFields (a : Attribute) : List Attribute :=
  a.fields.filter fun f => f.kind != .collection && isIdentifier f.name.toList

/-- Shows an item of a collection by its fields, or as a whole if none can be shown. -/
def itemLine (o : Options) (a : Attribute) : List Char :=
  match itemFields a with
  | [] => expression itemName
  | fields =>
    [',', ' '].intercalate
      (fields.map fun f => snippet o (itemName ++ '.' :: f.name.toList) f)

def body (o : Options) (a : Attribute) : List Char :=
  let name := a.name.toList
  let label := plain a.displayLabel.toList
  match a.kind with
  | .collection =>
    "\n### ".toList ++ label ++ "\n\n".toList ++
      tag ("for ".toList ++ itemName ++ " in ".toList ++ name) ++ "- ".toList ++ itemLine o a ++
      "\n".toList ++ tag "endfor".toList ++ "\n".toList
  | _ => "- **".toList ++ label ++ ":** ".toList ++ snippet o name a ++ "\n".toList

/-- Shows an attribute if it holds. -/
def entry (o : Options) (a : Attribute) : List Char :=
  tag ("if ".toList ++ a.name.toList) ++ body o a ++ tag "endif".toList

/-- A section with an entry for each attribute; nothing if there are none. -/
def fragmentText (o : Options) : List Attribute → List Char
  | [] => []
  | as =>
    "\n## ".toList ++ plain o.sectionTitle.toList ++ "\n\n".toList ++ as.flatMap (entry o)

end Proforma.Proposal
