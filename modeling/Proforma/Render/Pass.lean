import Proforma.Render.Rendering

/-!
Rendering in one pass over a tree. The pass carries a scope, into which each round of a loop puts
the loop variable and from which it takes it out again, and everything that was shown so far.
-/
namespace Proforma

/-- How far a rendering has come. -/
structure Pass where
  scope : Scope
  shown : Rendering

namespace Pass

def start (context : Context) : Pass := ⟨.ofContext context, .empty⟩

/-- Shows more. -/
def emit (p : Pass) (r : Rendering) : Pass := { p with shown := p.shown ++ r }

def enter (p : Pass) (binding : String) (v : Value) : Pass :=
  { p with scope := p.scope.push binding v }

def leave (p : Pass) : Pass := { p with scope := p.scope.pop }

mutual

def node (st : Setting) : Node → Pass → Pass
  | .text raw _, p => p.emit (.ofText raw)
  | .expression path calls span, p => p.emit (renderExpression st p.scope path calls span)
  | .conditional path thenNodes none _, p =>
    if (p.scope.resolve path).holds then nodes st thenNodes p else p
  | .conditional path thenNodes (some elseNodes) _, p =>
    if (p.scope.resolve path).holds then nodes st thenNodes p else nodes st elseNodes p
  | .loop collection binding body span, p =>
    match p.scope.resolve collection with
    | none => p
    | some (.sequence items) =>
      items.foldl (fun p item => (nodes st body (p.enter binding item)).leave) p
    | some other =>
      p.emit (st.diagnostic .notIterable collection span
        ("`" ++ collection.render ++ s!"` is a {other.kind}, not a sequence; loop skipped"))

def nodes (st : Setting) : List Node → Pass → Pass
  | [], p => p
  | n :: ns, p => nodes st ns (node st n p)

end

end Pass

end Proforma
