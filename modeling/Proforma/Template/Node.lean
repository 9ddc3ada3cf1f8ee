import Proforma.Template.Filter
import Proforma.Template.Path

/-! Templates as trees, and the paths that a tree reads. -/
namespace Proforma

open Text

inductive Node where
  | text (raw : String) (span : Span)
  | expression (path : Path) (filters : List FilterCall) (span : Span)
  | conditional (path : Path) (thenNodes : List Node) (elseNodes : Option (List Node))
      (span : Span)
  | loop (collection : Path) (binding : String) (body : List Node) (span : Span)

abbrev Tree := List Node

namespace Node

def span : Node → Span
  | text _ s | expression _ _ s | conditional _ _ _ s | loop _ _ _ s => s

def isText : Node → Bool
  | text .. => true
  | _ => false

mutual

/-- The paths that a node reads, in order, each with the loop bindings around it, innermost
last. -/
def pathsIn (bindings : List String) : Node → List (Path × List String)
  | text .. => []
  | expression path .. => [(path, bindings)]
  | conditional path thenNodes none _ => (path, bindings) :: allPathsIn bindings thenNodes
  | conditional path thenNodes (some elseNodes) _ =>
    (path, bindings) :: (allPathsIn bindings thenNodes ++ allPathsIn bindings elseNodes)
  | loop collection binding body _ =>
    (collection, bindings) :: allPathsIn (bindings ++ [binding]) body

def allPathsIn (bindings : List String) : List Node → List (Path × List String)
  | [] => []
  | n :: ns => pathsIn bindings n ++ allPathsIn bindings ns

end

end Node

namespace Tree

def isTextOnly (t : Tree) : Bool := t.all Node.isText

def paths (t : Tree) : List (Path × List String) := Node.allPathsIn [] t

/-- The head of a path that is an attribute of the record: neither bound by a loop nor the
moment of rendering. -/
def recordHead? (p : Path × List String) : Option String :=
  if p.1.head = todayName ∨ p.1.head ∈ p.2 then none else some p.1.head

/-- The attributes of the record that a tree reads, sorted and without repetition. -/
def referenced (t : Tree) : List String :=
  (t.paths.filterMap recordHead?).eraseDups.mergeSort (· ≤ ·)

end Tree

end Proforma
