import Proforma.Render.Apply
import Proforma.Template.Node

/-! What names mean while a template is rendered, and the values of expressions. -/
namespace Proforma

/-- What a template is rendered against. -/
structure Context where
  record : Value
  today : Moment

namespace Context

def todayValue (c : Context) : Value := .scalar (.moment c.today)

end Context

/-- A context with the loop variables around a node, innermost first. -/
structure Scope where
  context : Context
  bindings : List (String × Value)

namespace Scope

def ofContext (context : Context) : Scope := ⟨context, []⟩

def push (s : Scope) (name : String) (v : Value) : Scope :=
  { s with bindings := (name, v) :: s.bindings }

def pop (s : Scope) : Scope := { s with bindings := s.bindings.tail }

def depth (s : Scope) : Nat := s.bindings.length

/-- The value of a name: the innermost loop variable, else the moment of rendering, else an
attribute of the record. A loop variable that is null hides what is around it. -/
def root? (s : Scope) (name : String) : Option Value :=
  match s.bindings.lookup name with
  | some v => Value.presentOnly (some v)
  | none => if name = todayName then some s.context.todayValue
    else s.context.record.get? (.field name)

def resolve (s : Scope) (p : Path) : Resolved := (s.root? p.head).bind (·.lookup? p.tail)

end Scope

/-- The pipeline stops at the first filter that rejects its input. -/
def applyAll (format : Format) (calls : List FilterCall) (input : Resolved) :
    Except FilterError Resolved :=
  calls.foldlM (fun r call => call.filter.apply format call.args r) input

def evaluate (format : Format) (s : Scope) (p : Path) (calls : List FilterCall) :
    Except FilterError Resolved :=
  applyAll format calls (s.resolve p)

end Proforma
