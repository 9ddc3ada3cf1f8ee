import Proforma.Number.Form
import Proforma.Text.Digit

/-! YAML values, and what a scalar without quotes stands for. -/
namespace Proforma

inductive Yaml where
  | null
  | bool (b : Bool)
  | integer (n : Int)
  /-- A number with a point or an exponent, or one that needs more than 64 bits, as written. -/
  | real (source : String)
  | text (s : String)
  /-- A scalar that does not fit its tag, or a reference to a node from inside it. -/
  | invalid
  | sequence (items : List Yaml)
  | mapping (entries : List (Yaml × Yaml))

namespace Yaml

mutual

def same : Yaml → Yaml → Bool
  | null, null => true
  | bool a, bool b => a == b
  | integer m, integer n => m == n
  | real a, real b => a == b
  | text a, text b => a == b
  | invalid, invalid => true
  | sequence a, sequence b => sameItems a b
  | mapping a, mapping b => sameEntries a b
  | _, _ => false

def sameItems : List Yaml → List Yaml → Bool
  | [], [] => true
  | a :: as, b :: bs => same a b && sameItems as bs
  | _, _ => false

def sameEntries : List (Yaml × Yaml) → List (Yaml × Yaml) → Bool
  | [], [] => true
  | (k, v) :: as, (l, w) :: bs => same k l && same v w && sameEntries as bs
  | _, _ => false

end

/-- A tag: what its handle stands for, and the rest. -/
structure Tag where
  space : String
  name : String
  deriving DecidableEq, Repr

/-- The handle `!!` stands for the standard tags. -/
def Tag.standard : String := "tag:yaml.org,2002:"

def fits (n : Int) : Bool := -(Int.pow 2 63) ≤ n && n < Int.pow 2 63

/-- Digits of a base, with a sign in front allowed. -/
def readRadix? (base : Nat) (cs : List Char) : Option Int :=
  let (negative, digits) := Double.readSign cs
  if digits.isEmpty then none
  else (Text.digitsIn? base digits).map fun n => if negative then -(n : Int) else n

/-- An integer with a base or a plus sign in front. -/
def readMarked? : List Char → Option Int
  | '0' :: 'x' :: cs => (readRadix? 16 cs).filter fits
  | '0' :: 'o' :: cs => (readRadix? 8 cs).filter fits
  | '+' :: cs => (Double.readInteger? cs).filter fits
  | _ => none

def infinityNames : List String :=
  [".inf", ".Inf", ".INF", "+.inf", "+.Inf", "+.INF", "-.inf", "-.Inf", "-.INF"]

def undefinedNames : List String := [".nan", ".NaN", ".NAN"]

def isReal (cs : List Char) : Bool :=
  let s := String.ofList cs
  infinityNames.contains s || undefinedNames.contains s ||
    (cs.any Char.isDigit && (Double.read? cs).isSome)

/-- The value of a scalar without quotes and without a tag. -/
def ofPlain (cs : List Char) : Yaml :=
  let s := String.ofList cs
  match readMarked? cs, (Double.readInteger? cs).filter fits with
  | some n, _ => integer n
  | none, some n => integer n
  | none, none =>
    if ["", "~", "null"].contains s then null
    else if ["true", "True", "TRUE"].contains s then bool true
    else if ["false", "False", "FALSE"].contains s then bool false
    else if isReal cs then real s
    else text s

/-- The value of a scalar without quotes. -/
def ofTagged (tag : Option Tag) (cs : List Char) : Yaml :=
  let s := String.ofList cs
  match tag with
  | none => ofPlain cs
  | some t =>
    if t.space != Tag.standard then text s
    else match t.name with
    | "bool" => match ofPlain cs with
      | bool b => bool b
      | _ => invalid
    | "int" => (((Double.readInteger? cs).filter fits).map integer).getD invalid
    | "float" => if isReal cs then real s else invalid
    | "null" => if s = "~" ∨ s = "null" then null else invalid
    | _ => text s

def hasKey (entries : List (Yaml × Yaml)) (key : Yaml) : Bool := entries.any fun e => e.1.same key

/-- The mapping of keys and values that stand in turn. An invalid value is no key, and what comes
next takes its place. No key may occur twice. -/
def ofPairs? (entries : List (Yaml × Yaml)) : List Yaml → Option Yaml
  | [] => some (mapping entries)
  | invalid :: rest => ofPairs? entries rest
  | [_] => some (mapping entries)
  | key :: value :: rest =>
    if hasKey entries key then none else ofPairs? (entries ++ [(key, value)]) rest

example : (ofPlain "0x1F".toList).same (integer 31) = true := by decide +kernel
example : (ofPlain "007".toList).same (integer 7) = true := by decide +kernel
example : (ofPlain "3.10".toList).same (real "3.10") = true := by decide +kernel
example : (ofPlain "1_000".toList).same (text "1_000") = true := by decide +kernel

end Yaml

end Proforma
