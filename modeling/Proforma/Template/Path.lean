import Proforma.Text.Identifier

/-! Attribute paths: the name of an attribute of the record, then fields and indices inside it. -/
namespace Proforma

inductive Segment where
  | field (name : String)
  | index (n : Nat)
  deriving DecidableEq, Repr

def Segment.render : Segment → String
  | field name => name
  | index n => toString n

structure Path where
  head : String
  tail : List Segment
  deriving DecidableEq, Repr

namespace Path

def segments (p : Path) : List Segment := .field p.head :: p.tail

def render (p : Path) : String := String.intercalate "." (p.segments.map Segment.render)

end Path

/-- The name of the moment of rendering, which no loop may rebind. -/
def todayName : String := "_today"

end Proforma
