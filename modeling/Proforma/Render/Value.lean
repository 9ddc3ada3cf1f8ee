import Proforma.Calendar.Writing
import Proforma.Json.Basic
import Proforma.Template.Path

/-! The values that a record holds, and what a path finds in them. Null is never found. -/
namespace Proforma

inductive Scalar where
  | null
  | bool (b : Bool)
  | number (n : Number)
  | text (s : String)
  | date (d : Date)
  | moment (m : Moment)
  deriving DecidableEq, Repr

namespace Scalar

def render : Scalar → String
  | null => ""
  | bool b => if b then "true" else "false"
  | number n => n.text
  | text s => s
  | date d => String.ofList d.write
  | moment m => String.ofList m.write

def kind : Scalar → String
  | null => "null"
  | bool _ => "boolean"
  | number _ => "number"
  | text _ => "text"
  | date _ => "date"
  | moment _ => "datetime"

end Scalar

inductive Value where
  | scalar (s : Scalar)
  | sequence (items : List Value)
  | object (fields : List (String × Value))

namespace Value

def text (s : String) : Value := scalar (.text s)

def kind : Value → String
  | scalar s => s.kind
  | sequence _ => "sequence"
  | object _ => "object"

def isNull : Value → Bool
  | scalar .null => true
  | _ => false

/-- An empty text or an empty sequence. -/
def isEmpty : Value → Bool
  | scalar (.text s) => s.isEmpty
  | sequence items => items.isEmpty
  | _ => false

/-- Null and `false` do not hold, nor does anything empty; the number zero does. -/
def holds : Value → Bool
  | scalar .null => false
  | scalar (.bool b) => b
  | v => !v.isEmpty

def presentOnly (v : Option Value) : Option Value := v.filter fun v => !v.isNull

/-- The value one step inside; absent if it is null. -/
def get? (v : Value) : Segment → Option Value
  | .field name =>
    match v with
    | object fields => presentOnly (fields.lookup name)
    | _ => none
  | .index n =>
    match v with
    | sequence items => presentOnly items[n]?
    | _ => none

def lookup? (v : Value) (steps : List Segment) : Option Value := steps.foldlM get? v

/-- Replaces the field of that name, or adds it. -/
def insertField (name : String) (v : Value) : List (String × Value) → List (String × Value)
  | [] => [(name, v)]
  | (n, w) :: fields =>
    if n = name then (name, v) :: fields else (n, w) :: insertField name v fields

mutual

/-- Of repeated keys the last one counts. -/
def ofJson : Json → Value
  | .null => scalar .null
  | .bool b => scalar (.bool b)
  | .number n => scalar (.number n)
  | .text s => text s
  | .array items => sequence (ofItems items)
  | .object members => object (ofMembers [] members)

def ofItems : List Json → List Value
  | [] => []
  | j :: js => ofJson j :: ofItems js

def ofMembers (fields : List (String × Value)) : List (String × Json) → List (String × Value)
  | [] => fields
  | (name, j) :: ms => ofMembers (insertField name (ofJson j) fields) ms

end

end Value

/-- The outcome of a resolution: a value, or nothing where the path leads nowhere. -/
abbrev Resolved := Option Value

namespace Resolved

def isMissingOrEmpty (r : Resolved) : Bool := r.all Value.isEmpty

def holds (r : Resolved) : Bool := r.any Value.holds

def isEmptyText (r : Resolved) : Bool :=
  match r with
  | some (.scalar (.text s)) => s.isEmpty
  | _ => false

end Resolved

end Proforma
