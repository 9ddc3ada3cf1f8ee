import Proforma.Schema.Label

/-! The attributes that an entity type offers, in the order of its owner. -/
namespace Proforma

/-- What the values of an attribute are. -/
inductive Kind where
  | text | number | currency | date | moment | reference | collection
  deriving DecidableEq, Repr

/-- Kinds that are presented together, in the order of presentation. -/
inductive Group where
  | texts | dates | amounts | references | collections
  deriving DecidableEq, Repr

namespace Group

def all : List Group := [texts, dates, amounts, references, collections]

/-- Place in the order of presentation. -/
def rank : Group → Nat
  | texts => 0
  | dates => 1
  | amounts => 2
  | references => 3
  | collections => 4

def name : Group → String
  | texts => "text"
  | dates => "dates"
  | amounts => "amounts"
  | references => "references"
  | collections => "collections"

def title : Group → String
  | texts => "Text"
  | dates => "Dates"
  | amounts => "Amounts"
  | references => "References"
  | collections => "Collections"

end Group

namespace Kind

def all : List Kind := [text, number, currency, date, moment, reference, collection]

def group : Kind → Group
  | text => .texts
  | date | moment => .dates
  | number | currency => .amounts
  | reference => .references
  | collection => .collections

def name : Kind → String
  | text => "text"
  | number => "number"
  | currency => "currency"
  | date => "date"
  | moment => "datetime"
  | reference => "reference"
  | collection => "collection"

end Kind

structure Attribute where
  name : String
  kind : Kind
  label : Option String
  /-- The field that stands for a referenced entity. -/
  displayField : Option String
  /-- Fields of the items of a collection, or of a referenced entity. -/
  fields : List Attribute

/-- The label that was given, else one made from the name. -/
def Attribute.displayLabel (a : Attribute) : String := a.label.getD (Label.ofName a.name)

structure Schema where
  entity : String
  /-- Raised by the owner whenever the attributes change. -/
  version : UInt64
  attributes : List Attribute

namespace Schema

/-- The first attribute of that name. -/
def attribute? (s : Schema) (name : String) : Option Attribute :=
  s.attributes.find? fun a => a.name == name

def size (s : Schema) : Nat := s.attributes.length

def isEmpty (s : Schema) : Bool := s.attributes.isEmpty

end Schema

end Proforma
