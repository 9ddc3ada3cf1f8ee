import Proforma.Proofs.Joining
import Proforma.Render.Rendering

/-!
The text of a rendering. It does not depend on the places of the nodes, and trees in a row show
one after the other.
-/
namespace Proforma

theorem applyAll_bare (format : Format) (calls : List FilterCall) (r : Resolved) :
    applyAll format (calls.map FilterCall.bare) r = applyAll format calls r := by
  unfold applyAll
  rw [List.foldlM_map]
  rfl

theorem text_renderResolved (st st' : Setting) (p : Path) (span span' : Text.Span) (r : Resolved) :
    (renderResolved st p span r).text = (renderResolved st' p span' r).text := by
  cases r with
  | none => rfl
  | some v =>
    cases v with
    | scalar s => rfl
    | sequence items =>
      unfold renderResolved
      dsimp only
      split <;> rfl
    | object fields => rfl

theorem text_renderExpression {st st' : Setting} (h : st.format = st'.format) (s : Scope)
    (p : Path) (calls : List FilterCall) (span span' : Text.Span) :
    (renderExpression st s p (calls.map FilterCall.bare) span).text =
      (renderExpression st' s p calls span').text := by
  unfold renderExpression evaluate
  rw [applyAll_bare, h]
  split
  · exact text_renderResolved st st' p span span' _
  · rfl

theorem Rendering.text_concat (rs : List Rendering) :
    (concat rs).text = (rs.map Rendering.text).foldr (· ++ ·) "" := by
  induction rs with
  | nil => rfl
  | cons r rs ih =>
    show r.text ++ (concat rs).text = _
    rw [ih]
    rfl

/-- The text of a rendering is that of the tree without its places, whatever the source. -/
theorem text_renderNodes_bare (st st' : Setting) (h : st.format = st'.format) (s : Scope)
    (t : Tree) : (renderNodes st s t.bare).text = (renderNodes st' s t).text := by
  unfold Tree.bare
  induction t using Tree.induction generalizing s with
  | nil => rfl
  | text raw span ns ih =>
    simp only [Node.allBare, Node.bare, renderNodes, renderNode, Rendering.text_append, ih]
  | expression path calls span ns ih =>
    simp only [Node.allBare, Node.bare, renderNodes, renderNode, Rendering.text_append, ih,
      text_renderExpression h s path calls .zero span]
  | conditional path thenNodes span ns ih₁ ih =>
    simp only [Node.allBare, Node.bare, renderNodes, renderNode, Rendering.text_append, ih]
    split <;> simp only [ih₁]
  | alternative path thenNodes elseNodes span ns ih₁ ih₂ ih =>
    simp only [Node.allBare, Node.bare, renderNodes, renderNode, Rendering.text_append, ih]
    split <;> simp only [ih₁, ih₂]
  | loop collection binding body span ns ih₁ ih =>
    simp only [Node.allBare, Node.bare, renderNodes, renderNode, Rendering.text_append, ih]
    congr 1
    split
    · rfl
    · next items _ =>
      have hi : ∀ v : Value, (renderNodes st (s.push binding v) (Node.allBare body)).text =
          (renderNodes st' (s.push binding v) body).text := fun v => ih₁ (s.push binding v)
      simp only [Rendering.text_concat, List.map_map, Function.comp_def, hi]
    · rfl

namespace Rendering

theorem ext {a b : Rendering} (ht : a.text = b.text) (hd : a.diagnostics = b.diagnostics) :
    a = b := by
  cases a
  cases b
  simp_all

theorem empty_append (r : Rendering) : empty ++ r = r := by
  refine ext ?_ rfl
  simp [empty]

theorem ofText_append (a b : String) : ofText (a ++ b) = ofText a ++ ofText b := rfl

end Rendering

/-- Trees in a row show one after the other. -/
theorem renderNodes_join (st : Setting) (s : Scope) (t u : Tree) :
    renderNodes st s (t.join u) = renderNodes st s t ++ renderNodes st s u := by
  unfold Tree.join
  induction t with
  | nil => exact (Rendering.empty_append _).symm
  | cons n t ih =>
    by_cases hm : t = [] ∧ ∃ m, u.head? = some m ∧ (Node.merge n m).isSome
    · obtain ⟨rfl, m, hu, hk⟩ := hm
      obtain ⟨u, rfl⟩ := List.head?_eq_some_iff.mp hu
      obtain ⟨k, hk⟩ := Option.isSome_iff_exists.mp hk
      obtain ⟨raw, raw', span, span', rfl, rfl, rfl⟩ := Node.exists_of_merge hk
      rw [glue_singleton hk]
      simp only [renderNodes, renderNode, Rendering.ofText_append, Rendering.append_assoc,
        Rendering.empty_append]
    · rw [glue_cons, renderNodes, renderNodes, ih, Rendering.append_assoc]
      intro ht m hu
      by_contra hk
      exact hm ⟨ht, m, hu, Option.isSome_iff_ne_none.mpr hk⟩

/-- A tree that is another tree up to places shows the same text. -/
theorem text_render_of_bare {t u : Tree} (h : t.bare = u.bare) (source source' : List Char)
    (context : Context) (format : Format) :
    (render t source context format).text = (render u source' context format).text := by
  have ht := text_renderNodes_bare ⟨source, format⟩ ⟨source, format⟩ rfl (.ofContext context) t
  have hu := text_renderNodes_bare ⟨source, format⟩ ⟨source', format⟩ rfl (.ofContext context) u
  rw [h] at ht
  exact ht.symm.trans hu

/-- Trees in a row show their texts one after the other, whatever their sources. -/
theorem text_render_join (t u : Tree) (source source' source'' : List Char) (context : Context)
    (format : Format) : (render (t.join u) source context format).text =
      (render t source' context format).text ++ (render u source'' context format).text := by
  rw [text_render_of_bare (t := t) rfl source' source,
    text_render_of_bare (t := u) rfl source'' source]
  exact congrArg Rendering.text (renderNodes_join _ _ t u)

end Proforma
