import Proforma.Render.Scope

/-!
Rendering a template. It never fails: what goes wrong with a single directive is recorded, and
the rest is still rendered.
-/
namespace Proforma

open Text

inductive DiagnosticKind where
  | unresolvedPath | filterError | notIterable | notRenderable
  deriving DecidableEq, Repr

namespace DiagnosticKind

def words : DiagnosticKind → String
  | unresolvedPath => "unresolved path"
  | filterError => "filter error"
  | notIterable => "not iterable"
  | notRenderable => "not renderable"

def slug : DiagnosticKind → String
  | unresolvedPath => "unresolved-path"
  | filterError => "filter-type"
  | notIterable => "not-iterable"
  | notRenderable => "not-renderable"

end DiagnosticKind

structure Diagnostic where
  kind : DiagnosticKind
  path : String
  message : String
  line : Nat
  column : Nat
  deriving DecidableEq, Repr

namespace Diagnostic

def render (d : Diagnostic) : String :=
  s!"{d.line}:{d.column}: {d.kind.words}: {d.message}"

/-- The diagnostic of a template that begins at `origin` in a file. -/
def within (d : Diagnostic) (origin : Position) : Diagnostic :=
  let p := (⟨0, d.line, d.column⟩ : Position).within origin
  { d with line := p.line, column := p.column }

end Diagnostic

structure Rendering where
  text : String
  diagnostics : List Diagnostic
  deriving DecidableEq, Repr

namespace Rendering

def empty : Rendering := ⟨"", []⟩

def ofText (s : String) : Rendering := ⟨s, []⟩

def ofDiagnostic (d : Diagnostic) : Rendering := ⟨"", [d]⟩

def append (a b : Rendering) : Rendering := ⟨a.text ++ b.text, a.diagnostics ++ b.diagnostics⟩

instance : Append Rendering := ⟨append⟩

def concat (rs : List Rendering) : Rendering := rs.foldr append empty

@[simp] theorem text_append (a b : Rendering) : (a ++ b).text = a.text ++ b.text := rfl

@[simp] theorem diagnostics_append (a b : Rendering) :
    (a ++ b).diagnostics = a.diagnostics ++ b.diagnostics := rfl

theorem append_assoc (a b c : Rendering) : a ++ b ++ c = a ++ (b ++ c) := by
  change append (append a b) c = append a (append b c)
  simp [append, String.append_assoc]

end Rendering

/-- The texts of a sequence of scalars; null items are left out. -/
def scalarTexts? : List Value → Option (List String)
  | [] => some []
  | .scalar .null :: vs => scalarTexts? vs
  | .scalar s :: vs => (scalarTexts? vs).map (s.render :: ·)
  | _ :: _ => none

/-- What rendering a template needs beside the scope. -/
structure Setting where
  source : List Char
  format : Format

def Setting.diagnostic (st : Setting) (kind : DiagnosticKind) (p : Path) (span : Span)
    (message : String) : Rendering :=
  let position := Position.ofOffset st.source span.start
  .ofDiagnostic ⟨kind, p.render, message, position.line, position.column⟩

def renderResolved (st : Setting) (p : Path) (span : Span) : Resolved → Rendering
  | none => st.diagnostic .unresolvedPath p span ("`" ++ p.render ++ "` did not resolve")
  | some (.scalar s) => .ofText s.render
  | some (.sequence items) =>
    match scalarTexts? items with
    | some texts => .ofText (String.intercalate ", " texts)
    | none =>
      st.diagnostic .notRenderable p span
        ("`" ++ p.render ++ "` is a sequence of objects; iterate it with `for`")
  | some (.object _) =>
    st.diagnostic .notRenderable p span
      ("`" ++ p.render ++ "` is an object; select one of its fields")

def renderExpression (st : Setting) (s : Scope) (p : Path) (calls : List FilterCall)
    (span : Span) : Rendering :=
  match evaluate st.format s p calls with
  | .ok r => renderResolved st p span r
  | .error e => st.diagnostic .filterError p span e.message

mutual

def renderNode (st : Setting) (s : Scope) : Node → Rendering
  | .text raw _ => .ofText raw
  | .expression path filters span => renderExpression st s path filters span
  | .conditional path thenNodes none _ =>
    if (s.resolve path).holds then renderNodes st s thenNodes else .empty
  | .conditional path thenNodes (some elseNodes) _ =>
    if (s.resolve path).holds then renderNodes st s thenNodes else renderNodes st s elseNodes
  | .loop collection binding body span =>
    match s.resolve collection with
    | none => .empty
    | some (.sequence items) =>
      .concat (items.map fun item => renderNodes st (s.push binding item) body)
    | some other =>
      st.diagnostic .notIterable collection span
        ("`" ++ collection.render ++ s!"` is a {other.kind}, not a sequence; loop skipped")

def renderNodes (st : Setting) (s : Scope) : List Node → Rendering
  | [] => .empty
  | n :: ns => renderNode st s n ++ renderNodes st s ns

end

/-- Renders a tree that was read from `source`. -/
def render (t : Tree) (source : List Char) (context : Context) (format : Format) : Rendering :=
  renderNodes ⟨source, format⟩ (.ofContext context) t

end Proforma
