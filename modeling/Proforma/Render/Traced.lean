import Proforma.Render.Rendering

/-!
Rendering with an account of what was written on the way: each amount with the code that it was
written in, and each date or moment with its pattern. Every step is that of the rendering itself;
only the two writers add to the account.
-/
namespace Proforma

open Text

/-- What a filter had written. -/
inductive Writing where
  | amount (amount : Decimal) (code : String)
  | temporal (value : Temporal) (pattern : String)
  deriving DecidableEq, Repr

/-- A result, and what was written for it, in order. -/
structure Traced (α : Type) where
  result : α
  writings : List Writing

namespace Traced

instance : Monad Traced where
  pure a := ⟨a, []⟩
  bind x f := ⟨(f x.result).result, x.writings ++ (f x.result).writings⟩

/-- One after the other for each item. -/
def forEach {α β : Type} (items : List α) (f : α → Traced β) : Traced (List β) :=
  ⟨items.map fun item => (f item).result, items.flatMap fun item => (f item).writings⟩

def writeCurrency (amount : Decimal) (code : String) : Traced String :=
  ⟨Proforma.writeCurrency amount code, [.amount amount code]⟩

def write? (value : Temporal) (pattern : String) : Traced (Option (List Char)) :=
  ⟨value.write? pattern.toList, [.temporal value pattern]⟩

def applyCurrency (format : Format) (args : List Literal) (v : Value) :
    Traced (Except FilterFault Value) :=
  match amountOf v with
  | .ok amount => do
    let s ← writeCurrency amount ((firstText? args).getD format.currency)
    return .ok (.text s)
  | .error fault => return .error fault

def applyPattern (pattern : String) (withTime : Bool) (v : Value) :
    Traced (Except FilterFault Value) :=
  match temporalOf? v with
  | none => return .error (.wrongKind (if withTime then "a date-time" else "a date") v.kind)
  | some t => do
    match ← write? (if withTime then t.withTime else t) pattern with
    | some s => return .ok (.text (String.ofList s))
    | none => return .error (.unwritable pattern v.kind)

def applyPresent (f : Filter) (format : Format) (args : List Literal) (v : Value) :
    Traced (Except FilterFault Value) :=
  match f with
  | .default => return .ok v
  | .currency => applyCurrency format args v
  | .date => applyPattern ((firstText? args).getD format.datePattern) false v
  | .datetime => applyPattern ((firstText? args).getD format.datePattern) true v

def apply (f : Filter) (format : Format) (args : List Literal) (input : Resolved) :
    Traced (Except FilterError Resolved) :=
  match f with
  | .default => return .ok (applyDefault args input)
  | _ =>
    if input.isEmptyText then return .ok input
    else
      match input with
      | none => return .ok none
      | some v => do
        match ← applyPresent f format args v with
        | .ok w => return .ok (some w)
        | .error fault => return .error ⟨f, fault⟩

def applyAll (format : Format) : List FilterCall → Resolved → Traced (Except FilterError Resolved)
  | [], r => return .ok r
  | call :: calls, r => do
    match ← apply call.filter format call.args r with
    | .ok r => applyAll format calls r
    | .error e => return .error e

def renderExpression (st : Setting) (s : Scope) (p : Path) (calls : List FilterCall)
    (span : Span) : Traced Rendering := do
  match ← applyAll st.format calls (s.resolve p) with
  | .ok r => return renderResolved st p span r
  | .error e => return st.diagnostic .filterError p span e.message

mutual

def renderNode (st : Setting) (s : Scope) : Node → Traced Rendering
  | .text raw _ => return .ofText raw
  | .expression path filters span => renderExpression st s path filters span
  | .conditional path thenNodes none _ =>
    if (s.resolve path).holds then renderNodes st s thenNodes else return .empty
  | .conditional path thenNodes (some elseNodes) _ =>
    if (s.resolve path).holds then renderNodes st s thenNodes else renderNodes st s elseNodes
  | .loop collection binding body span =>
    match s.resolve collection with
    | none => return .empty
    | some (.sequence items) => do
      let rounds ← forEach items fun item => renderNodes st (s.push binding item) body
      return .concat rounds
    | some other =>
      return st.diagnostic .notIterable collection span
        ("`" ++ collection.render ++ s!"` is a {other.kind}, not a sequence; loop skipped")

def renderNodes (st : Setting) (s : Scope) : List Node → Traced Rendering
  | [] => return .empty
  | n :: ns => do
    let r ← renderNode st s n
    let rs ← renderNodes st s ns
    return r ++ rs

end

/-- Renders a tree that was read from `source`. -/
def render (t : Tree) (source : List Char) (context : Context) (format : Format) :
    Traced Rendering :=
  renderNodes ⟨source, format⟩ (.ofContext context) t

end Traced

end Proforma
