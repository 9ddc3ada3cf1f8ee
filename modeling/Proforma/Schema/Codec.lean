import Proforma.Json.Basic
import Proforma.Schema.Basic

/-!
Schemas as JSON values. An attribute and a schema are objects, or arrays of the same values in
order. Members that are not known do not matter; known ones must not be repeated.
-/
namespace Proforma

namespace Kind

def ofName? (s : String) : Option Kind :=
  if s = "date_time" ∨ s = "date-time" then some moment else all.find? fun k => k.name == s

theorem ofName?_name (k : Kind) : ofName? k.name = some k := by cases k <;> decide

/-- A name, or an object that holds null under that name. -/
def decode? : Json → Option Kind
  | .text s => ofName? s
  | .object [(s, .null)] => ofName? s
  | _ => none

end Kind

namespace Attribute

/-- What has been read of an attribute so far. -/
structure Draft where
  name : Option String
  kind : Option Kind
  label : Option (Option String)
  displayField : Option (Option String)
  fields : Option (List Attribute)

namespace Draft

def empty : Draft := ⟨none, none, none, none, none⟩

/-- Name and kind are needed. -/
def finish? (d : Draft) : Option Attribute := do
  some ⟨← d.name, ← d.kind, d.label.getD none, d.displayField.getD none, d.fields.getD []⟩

end Draft

/-- A value that was not set before. -/
def once {α : Type} (old new : Option α) : Option α := if old.isSome then none else new

/-- The members of an attribute, in the order in which an array holds them. -/
def keys : List String := ["name", "type", "label", "display_field", "fields"]

mutual

def decode? : Json → Option Attribute
  | .object members => (decodeMembers? .empty members).bind Draft.finish?
  | .array items => (decodeItems? .empty keys items).bind Draft.finish?
  | _ => none

def decodeMembers? (d : Draft) : List (String × Json) → Option Draft
  | [] => some d
  | (key, v) :: ms => (decodeMember? d key v).bind fun d => decodeMembers? d ms

def decodeItems? (d : Draft) (keys : List String) : List Json → Option Draft
  | [] => some d
  | v :: vs =>
    match keys with
    | [] => none
    | key :: keys => (decodeMember? d key v).bind fun d => decodeItems? d keys vs

def decodeMember? (d : Draft) (key : String) (v : Json) : Option Draft :=
  if key = "name" then (once d.name v.text?).map fun s => { d with name := some s }
  else if key = "type" then (once d.kind (Kind.decode? v)).map fun k => { d with kind := some k }
  else if key = "label" then
    (once d.label (v.nullOr? Json.text?)).map fun s => { d with label := some s }
  else if key = "display_field" then
    (once d.displayField (v.nullOr? Json.text?)).map fun s => { d with displayField := some s }
  else if key = "fields" then
    match v with
    | .array items => (once d.fields (decodeAll? items)).map fun fs => { d with fields := some fs }
    | _ => none
  else some d

def decodeAll? : List Json → Option (List Attribute)
  | [] => some []
  | v :: vs => (decode? v).bind fun a => (decodeAll? vs).map fun as => a :: as

end

/-- A member for a value that may be absent. -/
def optional (key : String) (s : Option String) : List (String × Json) :=
  s.toList.map fun s => (key, .text s)

mutual

def encode : Attribute → Json
  | ⟨name, kind, label, displayField, fields⟩ =>
    .object (("name", .text name) :: ("type", .text kind.name) :: optional "label" label ++
      optional "display_field" displayField ++
      match fields with
      | [] => []
      | f :: fs => [("fields", .array (encodeAll (f :: fs)))])

def encodeAll : List Attribute → List Json
  | [] => []
  | a :: as => encode a :: encodeAll as

end

end Attribute

namespace Schema

def keys : List String := ["entity", "version", "attributes"]

/-- The members of an object, or of an array in their order. -/
def members? : Json → Option (List (String × Json))
  | .object ms => if keys.all fun k => (ms.filter fun m => m.1 == k).length ≤ 1 then some ms else none
  | .array items => if items.length ≤ keys.length then some (keys.zip items) else none
  | _ => none

def decodeAttributes? : Json → Option (List Attribute)
  | .array items => Attribute.decodeAll? items
  | _ => none

/-- The entity is needed. -/
def decode? (v : Json) : Option Schema := do
  let ms ← members? v
  let entity ← (← ms.lookup "entity").text?
  let version ← match ms.lookup "version" with
    | some v => v.word?
    | none => some 0
  let attributes ← match ms.lookup "attributes" with
    | some v => decodeAttributes? v
    | none => some []
  some ⟨entity, version, attributes⟩

def encode (s : Schema) : Json :=
  .object [("entity", .text s.entity), ("version", .ofNat s.version.toNat),
    ("attributes", .array (Attribute.encodeAll s.attributes))]

end Schema

end Proforma
