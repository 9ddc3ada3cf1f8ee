import Proforma.Proofs.Tree
import Proforma.Schema.Codec

/-!
Schemas and their JSON form. What is written for a schema is read as that schema, with everything
that the writing leaves out; so what was read once, in whichever spelling, can be written and read
again without a change.
-/
namespace Proforma

theorem Json.word?_ofNat (n : UInt64) : (Json.ofNat n.toNat).word? = some n := by
  have hn : (n.toNat : Int).toNat < UInt64.size := by
    rw [Int.toNat_natCast]
    exact n.toNat_lt_size
  rw [Json.ofNat, Json.word?, if_pos ⟨Int.natCast_nonneg _, hn⟩, Int.toNat_natCast,
    UInt64.ofNat_toNat]

namespace Attribute

variable (d : Draft)

theorem decodeMember?_name (h : d.name = none) (s : String) :
    decodeMember? d "name" (.text s) = some { d with name := some s } := by
  simp [decodeMember?, once, h, Json.text?]

theorem decodeMember?_kind (h : d.kind = none) (k : Kind) :
    decodeMember? d "type" (.text k.name) = some { d with kind := some k } := by
  simp [decodeMember?, once, h, Kind.decode?, Kind.ofName?_name]

theorem decodeMember?_label (h : d.label = none) (s : String) :
    decodeMember? d "label" (.text s) = some { d with label := some (some s) } := by
  simp [decodeMember?, once, h, Json.nullOr?, Json.text?]

theorem decodeMember?_displayField (h : d.displayField = none) (s : String) :
    decodeMember? d "display_field" (.text s) = some { d with displayField := some (some s) } := by
  simp [decodeMember?, once, h, Json.nullOr?, Json.text?]

theorem decodeMember?_fields (h : d.fields = none) {items : List Json} {fs : List Attribute}
    (hi : decodeAll? items = some fs) :
    decodeMember? d "fields" (.array items) = some { d with fields := some fs } := by
  simp [decodeMember?, once, h, hi]

theorem decodeMembers?_cons {d e : Draft} {key : String} {v : Json}
    (h : decodeMember? d key v = some e) (ms : List (String × Json)) :
    decodeMembers? d ((key, v) :: ms) = decodeMembers? e ms := by
  rw [decodeMembers?, h, Option.bind_some]

/-- A member that may be absent says what it says, or nothing. -/
theorem decodeMembers?_label (h : d.label = none) (label : Option String)
    (ms : List (String × Json)) : decodeMembers? d (optional "label" label ++ ms) =
      decodeMembers? { d with label := label.map some } ms := by
  cases label with
  | none =>
    obtain ⟨_, _, _, _, _⟩ := d
    obtain rfl := h
    rfl
  | some s => exact decodeMembers?_cons (decodeMember?_label d h s) ms

theorem decodeMembers?_displayField (h : d.displayField = none) (field : Option String)
    (ms : List (String × Json)) : decodeMembers? d (optional "display_field" field ++ ms) =
      decodeMembers? { d with displayField := field.map some } ms := by
  cases field with
  | none =>
    obtain ⟨_, _, _, _, _⟩ := d
    obtain rfl := h
    rfl
  | some s => exact decodeMembers?_cons (decodeMember?_displayField d h s) ms

theorem finish?_eq (name : String) (kind : Kind) (label displayField : Option String)
    (fields : Option (List Attribute)) :
    Draft.finish? ⟨some name, some kind, label.map some, displayField.map some, fields⟩ =
      some ⟨name, kind, label, displayField, fields.getD []⟩ := by
  cases label <;> cases displayField <;> rfl

/-- All members of an attribute but its fields. -/
theorem decodeMembers?_front (name : String) (kind : Kind) (label displayField : Option String)
    (ms : List (String × Json)) :
    decodeMembers? .empty (("name", .text name) :: ("type", .text kind.name) ::
        optional "label" label ++ optional "display_field" displayField ++ ms) =
      decodeMembers? ⟨some name, some kind, label.map some, displayField.map some, none⟩ ms := by
  rw [List.append_assoc, List.cons_append, List.cons_append,
    decodeMembers?_cons (decodeMember?_name .empty rfl name),
    decodeMembers?_cons (decodeMember?_kind _ rfl kind),
    decodeMembers?_label _ rfl, decodeMembers?_displayField _ rfl]
  rfl

mutual

theorem decode?_encode : ∀ a : Attribute, decode? (encode a) = some a
  | ⟨name, kind, label, displayField, []⟩ => by
    rw [encode, decode?, decodeMembers?_front, decodeMembers?]
    exact finish?_eq name kind label displayField none
  | ⟨name, kind, label, displayField, f :: fs⟩ => by
    have hfields := decodeAll?_encodeAll (f :: fs)
    rw [encode, decode?, decodeMembers?_front,
      decodeMembers?_cons (decodeMember?_fields _ rfl hfields), decodeMembers?]
    exact finish?_eq name kind label displayField (some (f :: fs))

theorem decodeAll?_encodeAll : ∀ as : List Attribute, decodeAll? (encodeAll as) = some as
  | [] => rfl
  | a :: as => by
    rw [encodeAll, decodeAll?, decode?_encode a, decodeAll?_encodeAll as]
    rfl

end

end Attribute

namespace Schema

theorem decode?_object {entity version : Json} {items : List Json} :
    decode? (.object [("entity", entity), ("version", version), ("attributes", .array items)]) =
      entity.text?.bind fun entity => version.word?.bind fun version =>
        (Attribute.decodeAll? items).bind fun attributes => some ⟨entity, version, attributes⟩ := by
  rfl

theorem decode?_encode (s : Schema) : decode? s.encode = some s := by
  rw [encode, decode?_object, Json.word?_ofNat, Attribute.decodeAll?_encodeAll]
  rfl

end Schema

/-- What is written for a schema, whatever its attributes and their fields are, is read as that
schema. So a JSON value that is read as a schema, in its own spelling, order and defaults, and what
is written for that schema are read alike. -/
theorem schema_survives_encoding :
    (∀ s : Schema, Schema.decode? s.encode = some s) ∧
    ∀ (v : Json) (s : Schema), Schema.decode? v = some s →
      Schema.decode? s.encode = Schema.decode? v :=
  ⟨Schema.decode?_encode, fun _ s h => s.decode?_encode.trans h.symm⟩

/-- A schema in a spelling of its own: an array for the schema, another name for a kind, a null
label and a member that is not known. -/
theorem schema_survives_encoding_respelled :
    let due : Json := .object [("note", .null), ("type", .text "date_time"), ("label", .null),
      ("name", .text "DueAt")]
    let lines : Json := .array
      [.text "Lines", .object [("collection", .null)], .text "Items", .null, .array [due]]
    let v : Json := .array [.text "Order", .ofNat 7, .array [lines]]
    let field : Attribute := ⟨"DueAt", .moment, none, none, []⟩
    let s : Schema := ⟨"Order", 7, [⟨"Lines", .collection, some "Items", none, [field]⟩]⟩
    Schema.decode? v = some s ∧ Schema.decode? s.encode = Schema.decode? v := by
  intro due lines v field s
  have h : Schema.decode? v = some s := by rfl
  exact ⟨h, schema_survives_encoding.2 v s h⟩

end Proforma
