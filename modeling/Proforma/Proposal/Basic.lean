import Proforma.Proposal.Fragment
import Proforma.Render.Rendering
import Proforma.Template.Block

/-!
What could be added to a template so that it shows every attribute of a schema. A proposal
depends on the template and the schema alone, and never changes the template.
-/
namespace Proforma

open Text

/-- An attribute that a proposal shows. -/
structure ProposedAttribute where
  name : String
  kind : Kind
  label : String
  deriving DecidableEq, Repr

namespace ProposedAttribute

def ofAttribute (a : Attribute) : ProposedAttribute := ⟨a.name, a.kind, a.displayLabel⟩

def group (a : ProposedAttribute) : Group := a.kind.group

end ProposedAttribute

structure Proposal where
  entity : String
  schemaVersion : UInt64
  attributes : List ProposedAttribute
  /-- Names of attributes that no path can name. -/
  skipped : List String
  source : String
  /-- The source as a tree. -/
  fragment : Tree

namespace Proposal

def isEmpty (p : Proposal) : Bool := p.attributes.isEmpty

/-- The proposal by itself, rendered against a record; nothing if it is empty. -/
def supplement? (p : Proposal) (context : Context) (format : Format) : Option Rendering :=
  if p.isEmpty then none
  else some (render p.fragment p.source.toList context format)

end Proposal

/-- A path of the record can begin with this name. -/
def isUsable (name : String) : Bool := name != todayName && isIdentifier name.toList

namespace Schema

/-- The attributes that a tree never reads. -/
def unreferenced (s : Schema) (t : Tree) : List Attribute :=
  let referenced := t.referenced
  s.attributes.filter fun a => !referenced.contains a.name

/-- The attributes to show, group by group, otherwise in the order of the schema. -/
def missing (s : Schema) (t : Tree) : List Attribute :=
  ((s.unreferenced t).filter fun a => isUsable a.name).mergeSort fun a b =>
    a.kind.group.rank ≤ b.kind.group.rank

def skipped (s : Schema) (t : Tree) : List String :=
  ((s.unreferenced t).filter fun a => !isUsable a.name).map Attribute.name

end Schema

/-- Proposes what a tree leaves out. -/
def propose (t : Tree) (s : Schema) (o : Proposal.Options) : Except ParseError Proposal := do
  let attributes := s.missing t
  let source := Proposal.fragmentText o attributes
  let fragment ← parseChars source
  return {
    entity := s.entity
    schemaVersion := s.version
    attributes := attributes.map .ofAttribute
    skipped := s.skipped t
    source := String.ofList source
    fragment }

end Proforma
