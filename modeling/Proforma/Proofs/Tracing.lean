import Proforma.Proofs.Tree
import Proforma.Render.Traced

/-! Rendering with an account of what was written is rendering: the account changes no result. -/
namespace Proforma

open Text

namespace Traced

variable {α β : Type}

@[simp] theorem result_pure (a : α) : (pure a : Traced α).result = a := rfl

@[simp] theorem result_bind (x : Traced α) (f : α → Traced β) :
    (x >>= f).result = (f x.result).result := rfl

theorem result_applyCurrency (format : Format) (args : List Literal) (v : Value) :
    (applyCurrency format args v).result = Proforma.applyCurrency format args v := by
  unfold applyCurrency Proforma.applyCurrency
  cases amountOf v <;> rfl

theorem result_applyPattern (pattern : String) (withTime : Bool) (v : Value) :
    (applyPattern pattern withTime v).result = Proforma.applyPattern pattern withTime v := by
  unfold applyPattern Proforma.applyPattern
  cases temporalOf? v with
  | none => rfl
  | some t =>
    rw [result_bind, write?]
    dsimp only
    cases (if withTime then t.withTime else t).write? pattern.toList <;> rfl

theorem result_applyPresent (f : Filter) (format : Format) (args : List Literal) (v : Value) :
    (applyPresent f format args v).result = f.applyPresent format args v := by
  cases f with
  | default => rfl
  | currency => exact result_applyCurrency format args v
  | date => exact result_applyPattern _ false v
  | datetime => exact result_applyPattern _ true v

theorem result_apply (f : Filter) (format : Format) (args : List Literal) (input : Resolved) :
    (apply f format args input).result = f.apply format args input := by
  cases f with
  | default => rfl
  | currency | date | datetime =>
    unfold apply Filter.apply
    dsimp only
    split
    · rfl
    · cases input with
      | none => rfl
      | some v =>
        dsimp only
        rw [result_bind, result_applyPresent]
        cases Filter.applyPresent _ format args v <;> rfl

theorem result_applyAll (format : Format) (calls : List FilterCall) (input : Resolved) :
    (applyAll format calls input).result = Proforma.applyAll format calls input := by
  induction calls generalizing input with
  | nil => rfl
  | cons call calls ih =>
    unfold Proforma.applyAll
    rw [applyAll, result_bind, result_apply, List.foldlM_cons]
    cases call.filter.apply format call.args input with
    | error e => rfl
    | ok r => exact ih r

theorem result_renderExpression (st : Setting) (s : Scope) (p : Path) (calls : List FilterCall)
    (span : Span) : (renderExpression st s p calls span).result =
      Proforma.renderExpression st s p calls span := by
  unfold renderExpression Proforma.renderExpression evaluate
  rw [result_bind, result_applyAll]
  cases Proforma.applyAll st.format calls (s.resolve p) <;> rfl

theorem result_renderNodes_cons {st : Setting} {s : Scope} {n : Node} {ns : List Node}
    (hn : (renderNode st s n).result = Proforma.renderNode st s n)
    (hs : (renderNodes st s ns).result = Proforma.renderNodes st s ns) :
    (renderNodes st s (n :: ns)).result = Proforma.renderNodes st s (n :: ns) := by
  rw [renderNodes, Proforma.renderNodes, result_bind, result_bind, hn, hs, result_pure]

/-- The account does not change what is rendered. -/
theorem result_renderNodes (st : Setting) (s : Scope) (ns : List Node) :
    (renderNodes st s ns).result = Proforma.renderNodes st s ns := by
  induction ns using Tree.induction generalizing s with
  | nil => rfl
  | text raw span ns ih => exact result_renderNodes_cons rfl (ih s)
  | expression path calls span ns ih =>
    refine result_renderNodes_cons ?_ (ih s)
    exact result_renderExpression st s path calls span
  | conditional path thenNodes span ns ih₁ ih =>
    refine result_renderNodes_cons ?_ (ih s)
    rw [renderNode, Proforma.renderNode]
    split
    · exact ih₁ s
    · rfl
  | alternative path thenNodes elseNodes span ns ih₁ ih₂ ih =>
    refine result_renderNodes_cons ?_ (ih s)
    rw [renderNode, Proforma.renderNode]
    split
    · exact ih₁ s
    · exact ih₂ s
  | loop collection binding body span ns ih₁ ih =>
    refine result_renderNodes_cons ?_ (ih s)
    rw [renderNode, Proforma.renderNode]
    cases s.resolve collection with
    | none => rfl
    | some v =>
      cases v with
      | sequence items => simp only [forEach, result_bind, result_pure, ih₁]
      | scalar _ | object _ => rfl

theorem result_render (t : Tree) (source : List Char) (context : Context) (format : Format) :
    (render t source context format).result = Proforma.render t source context format :=
  result_renderNodes _ _ t

end Traced

end Proforma
