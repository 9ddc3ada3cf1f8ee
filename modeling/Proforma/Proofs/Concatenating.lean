import Proforma.Proofs.Aligning
import Proforma.Proofs.Showing

/-!
Renderings of sources in a row. What the whole shows is what the first source shows, and after it
what the second one shows, with its diagnostics placed from where the first source ends.
-/
namespace Proforma

open Text

namespace Rendering

/-- The rendering of a template that begins at `origin` in a file. -/
def within (r : Rendering) (origin : Position) : Rendering :=
  { r with diagnostics := r.diagnostics.map (·.within origin) }

theorem within_append (a b : Rendering) (origin : Position) :
    (a ++ b).within origin = a.within origin ++ b.within origin := by
  refine Rendering.ext rfl ?_
  exact List.map_append

theorem within_concat (rs : List Rendering) (origin : Position) :
    (concat rs).within origin = concat (rs.map (·.within origin)) := by
  induction rs with
  | nil => rfl
  | cons r rs ih =>
    exact (within_append r (concat rs) origin).trans (congrArg (r.within origin ++ ·) ih)

theorem within_start (r : Rendering) : r.within .start = r := by
  have h : ∀ d : Diagnostic, d.within .start = d := by
    intro d
    simp [Diagnostic.within, Position.within_start]
  simp [within, h]

end Rendering

section

variable {source source' : List Char} {origin : Position} {format : Format}

theorem diagnostic_within {span span' : Span}
    (h : Found source source' origin span.start span'.start) (kind : DiagnosticKind) (p : Path)
    (message : String) :
    Setting.diagnostic ⟨source', format⟩ kind p span' message =
      (Setting.diagnostic ⟨source, format⟩ kind p span message).within origin := by
  unfold Found at h
  simp only [Setting.diagnostic, h]
  rfl

theorem renderResolved_within {span span' : Span}
    (h : Found source source' origin span.start span'.start) (p : Path) (r : Resolved) :
    renderResolved ⟨source', format⟩ p span' r =
      (renderResolved ⟨source, format⟩ p span r).within origin := by
  cases r with
  | none => exact diagnostic_within h _ _ _
  | some v =>
    cases v with
    | scalar s => rfl
    | sequence items =>
      unfold renderResolved
      dsimp only
      split
      · rfl
      · exact diagnostic_within h _ _ _
    | object fields => exact diagnostic_within h _ _ _

theorem evaluate_of_bare {calls calls' : List FilterCall}
    (h : calls.map FilterCall.bare = calls'.map FilterCall.bare) (s : Scope) (p : Path) :
    evaluate format s p calls = evaluate format s p calls' := by
  unfold evaluate
  rw [← applyAll_bare, h, applyAll_bare]

theorem renderExpression_within {span span' : Span}
    (h : Found source source' origin span.start span'.start) {calls calls' : List FilterCall}
    (hc : calls.map FilterCall.bare = calls'.map FilterCall.bare) (s : Scope) (p : Path) :
    renderExpression ⟨source', format⟩ s p calls' span' =
      (renderExpression ⟨source, format⟩ s p calls span).within origin := by
  unfold renderExpression
  rw [evaluate_of_bare hc]
  cases evaluate format s p calls' with
  | ok r => exact renderResolved_within h p r
  | error e => exact diagnostic_within h _ _ _

/-- Nodes whose places are found from `origin` on show the same, with diagnostics from there on. -/
theorem renderNodes_within {ns ns' : List Node} (h : Aligned (Found source source' origin) ns ns')
    (s : Scope) : renderNodes ⟨source', format⟩ s ns' =
      (renderNodes ⟨source, format⟩ s ns).within origin := by
  induction h generalizing s with
  | nil => rfl
  | text raw span span' _ ih =>
    simp only [renderNodes, renderNode, Rendering.within_append, ih]
    rfl
  | expression path hc hs _ ih =>
    simp only [renderNodes, renderNode, Rendering.within_append, ih,
      renderExpression_within hs hc]
  | conditional path span span' _ _ ih₁ ih =>
    simp only [renderNodes, renderNode, Rendering.within_append, ih]
    split
    · rw [ih₁]
    · rfl
  | alternative path span span' _ _ _ ih₁ ih₂ ih =>
    simp only [renderNodes, renderNode, Rendering.within_append, ih]
    split
    · rw [ih₁]
    · rw [ih₂]
  | loop collection binding hs _ _ ih₁ ih =>
    simp only [renderNodes, renderNode, Rendering.within_append, ih]
    congr 1
    split
    · rfl
    · simp only [Rendering.within_concat, List.map_map, Function.comp_def, ih₁]
    · exact diagnostic_within hs _ _ _

end

/-- Sources in a row show one after the other: the text of the first and that of the second, the
diagnostics of the first and those of the second, placed from the end of the first. -/
theorem render_append {a b : String} {t u : Tree} (ht : parse a = .ok t) (hu : parse b = .ok u)
    (hs : Seamless a.toList b.toList) :
    ∃ v, parse (a ++ b) = .ok v ∧ ∀ context format,
      (render v (a ++ b).toList context format).text =
        (render t a.toList context format).text ++ (render u b.toList context format).text ∧
      (render v (a ++ b).toList context format).diagnostics =
        (render t a.toList context format).diagnostics ++
          (render u b.toList context format).diagnostics.map (·.within (.after a.toList)) := by
  obtain ⟨t', u', hv, hat, hau⟩ := parseChars_join ht hu hs
  rw [← String.toList_append] at hv hat hau
  refine ⟨Tree.join t' u', hv, fun context format => ?_⟩
  have hr : render (Tree.join t' u') (a ++ b).toList context format =
      render t a.toList context format ++
        (render u b.toList context format).within (.after a.toList) := by
    unfold render
    rw [renderNodes_join, renderNodes_within hat, renderNodes_within hau, Rendering.within_start]
  rw [hr]
  exact ⟨rfl, rfl⟩

/-- The line and the column of each diagnostic. -/
def Rendering.places (r : Rendering) : List (Nat × Nat) :=
  r.diagnostics.map fun d => (d.line, d.column)

theorem render_append_lines :
    let a := "Zürich\n\x7b% for x in Xs %\x7d\x7b\x7b x \x7d\x7d\x7b% endfor %\x7d é"
    let b := "é\x7b\x7b A \x7d\x7d\n\x7b\x7b B \x7d\x7d"
    let context : Context := ⟨.object [], ⟨⟨2024, 6, 1⟩, .midnight, 0⟩⟩
    Seamless a.toList b.toList ∧ ∃ t u v, parse a = .ok t ∧ parse b = .ok u ∧
      (render u b.toList context .standard).places = [(1, 2), (2, 1)] ∧
      parse (a ++ b) = .ok v ∧
      (render v (a ++ b).toList context .standard).text = "Zürich\n éé\n" ∧
      (render v (a ++ b).toList context .standard).places = [(2, 40), (3, 1)] := by
  intro a b context
  have hs : Seamless a.toList b.toList := by
    intro d hd
    have hn : a.toList.getLast? ≠ some '\x7b' := by decide +kernel
    exact (hn hd).elim
  have ha : ((parse a).toOption.map fun t => render t a.toList context .standard) =
      some ⟨"Zürich\n é", []⟩ := by decide +kernel
  have hb : ((parse b).toOption.map fun u => render u b.toList context .standard) =
      some ⟨"é\n", [⟨.unresolvedPath, "A", "`A` did not resolve", 1, 2⟩,
        ⟨.unresolvedPath, "B", "`B` did not resolve", 2, 1⟩]⟩ := by decide +kernel
  cases ht : parse a with
  | error e => simp [ht, Except.toOption] at ha
  | ok t =>
    cases hu : parse b with
    | error e => simp [hu, Except.toOption] at hb
    | ok u =>
      obtain ⟨v, hv, h⟩ := render_append ht hu hs
      obtain ⟨htext, hplaces⟩ := h context .standard
      rw [ht] at ha
      rw [hu] at hb
      have hrt : render t a.toList context .standard = _ := Option.some.inj ha
      have hru : render u b.toList context .standard = _ := Option.some.inj hb
      rw [hrt, hru] at htext hplaces
      refine ⟨hs, t, u, v, rfl, rfl, by rw [hru]; rfl, hv, htext.trans (by decide), ?_⟩
      rw [Rendering.places, hplaces]
      decide +kernel

end Proforma
