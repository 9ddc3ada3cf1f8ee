import Proforma.Proofs.Showing
import Proforma.Render.Pass

/-!
What the nodes of a tree can do to a rendering. A pass comes out of any nodes with the scope that it
had and with more shown, and what is added depends on nothing that was shown before. So the nodes
at one place of a tree show in each round of the loops around it what they show in the scope of that
round, and a directive that only ever fails can be taken out.
-/
namespace Proforma

open Text

namespace Rendering

theorem append_empty (r : Rendering) : r ++ empty = r := by
  refine ext ?_ ?_
  · simp [empty]
  · simp [empty]

theorem concat_cons (r : Rendering) (rs : List Rendering) : concat (r :: rs) = r ++ concat rs := rfl

theorem concat_append (rs qs : List Rendering) : concat (rs ++ qs) = concat rs ++ concat qs := by
  induction rs with
  | nil => exact (empty_append _).symm
  | cons r rs ih => rw [List.cons_append, concat_cons, concat_cons, ih, append_assoc]

theorem concat_flatMap {α : Type} (f : α → List Rendering) (as : List α) :
    concat (as.flatMap f) = concat (as.map fun a => concat (f a)) := by
  induction as with
  | nil => rfl
  | cons a as ih => rw [List.flatMap_cons, List.map_cons, concat_append, concat_cons, ih]

theorem diagnostics_concat (rs : List Rendering) :
    (concat rs).diagnostics = rs.flatMap Rendering.diagnostics := by
  induction rs with
  | nil => rfl
  | cons r rs ih => rw [concat_cons, diagnostics_append, ih, List.flatMap_cons]

end Rendering

namespace Pass

@[simp] theorem scope_emit (p : Pass) (r : Rendering) : (p.emit r).scope = p.scope := rfl

theorem emit_empty (p : Pass) : p.emit .empty = p := by
  unfold emit
  rw [Rendering.append_empty]

theorem emit_emit (p : Pass) (a b : Rendering) : (p.emit a).emit b = p.emit (a ++ b) := by
  unfold emit
  rw [Rendering.append_assoc]

/-- What is shown in a round of a loop is shown, and the scope is the one before the round. -/
theorem leave_emit_enter (p : Pass) (binding : String) (v : Value) (r : Rendering) :
    ((p.enter binding v).emit r).leave = p.emit r := rfl

/-- The rounds of a loop, if each of them only shows something. -/
theorem foldl_rounds {step : Pass → Pass} {shows : Scope → Rendering}
    (h : ∀ p, step p = p.emit (shows p.scope)) (binding : String) (items : List Value) (p : Pass) :
    items.foldl (fun p v => (step (p.enter binding v)).leave) p =
      p.emit (.concat (items.map fun v => shows (p.scope.push binding v))) := by
  induction items generalizing p with
  | nil => exact (emit_empty p).symm
  | cons v items ih =>
    have hround : (step (p.enter binding v)).leave =
        p.emit (shows (p.scope.push binding v)) := by
      rw [h, leave_emit_enter]
      rfl
    rw [List.foldl_cons, hround, ih, emit_emit]
    rfl

/-- Nodes leave the scope as it was and show more: what they show in that scope. -/
theorem nodes_eq (st : Setting) (ns : List Node) (p : Pass) :
    p.nodes st ns = p.emit (renderNodes st p.scope ns) := by
  induction ns using Tree.induction generalizing p with
  | nil => exact (emit_empty p).symm
  | text raw span ns ih => rw [nodes, node, ih, emit_emit]; rfl
  | expression path calls span ns ih => rw [nodes, node, ih, emit_emit]; rfl
  | conditional path thenNodes span ns ih₁ ih =>
    rw [nodes, node, renderNodes, renderNode]
    split
    · rw [ih₁, ih, emit_emit]
      rfl
    · rw [ih, Rendering.empty_append]
  | alternative path thenNodes elseNodes span ns ih₁ ih₂ ih =>
    rw [nodes, node, renderNodes, renderNode]
    split
    · rw [ih₁, ih, emit_emit]
      rfl
    · rw [ih₂, ih, emit_emit]
      rfl
  | loop collection binding body span ns ih₁ ih =>
    rw [nodes, node, renderNodes, renderNode, ih]
    cases p.scope.resolve collection with
    | none => simp only [Rendering.empty_append]
    | some v =>
      cases v with
      | sequence items =>
        have hrounds := @foldl_rounds (nodes st body) (fun s => renderNodes st s body) ih₁ binding
          items p
        simp only [hrounds, emit_emit, scope_emit]
      | _ => simp only [emit_emit, scope_emit]

end Pass

/-- A rendering is a pass from the start. -/
theorem render_eq_shown (t : Tree) (source : List Char) (context : Context) (format : Format) :
    render t source context format =
      ((Pass.start context).nodes ⟨source, format⟩ t).shown := by
  rw [Pass.nodes_eq]
  exact (Rendering.empty_append _).symm

/-- A place in a tree where nodes can be put. -/
inductive Slot where
  | here (before after : List Node)
  | inThen (before : List Node) (path : Path) (slot : Slot) (elseNodes : Option (List Node))
      (span : Span) (after : List Node)
  | inElse (before : List Node) (path : Path) (thenNodes : List Node) (slot : Slot) (span : Span)
      (after : List Node)
  | inBody (before : List Node) (collection : Path) (binding : String) (slot : Slot) (span : Span)
      (after : List Node)

/-- A stretch of a rendering: something that is shown, or a visit to the open place of a tree in the
scope of that visit. -/
inductive Stretch where
  | shown (r : Rendering)
  | visit (s : Scope)

/-- How a rendering of a tree with an open place goes. -/
abbrev Course := List Stretch

namespace Stretch

def scope? : Stretch → Option Scope
  | shown _ => none
  | visit s => some s

/-- What the stretch shows, if `f` is what a visit shows. -/
def rendering (f : Scope → Rendering) : Stretch → Rendering
  | shown r => r
  | visit s => f s

/-- The diagnostics of the stretch, if `f` gives those of a visit. -/
def diagnostics (f : Scope → List Diagnostic) : Stretch → List Diagnostic
  | shown r => r.diagnostics
  | visit s => f s

end Stretch

namespace Course

/-- The scopes of the visits, one after the other. -/
def scopes (c : Course) : List Scope := c.filterMap Stretch.scope?

def rendering (c : Course) (f : Scope → Rendering) : Rendering :=
  .concat (c.map (Stretch.rendering f))

def diagnostics (c : Course) (f : Scope → List Diagnostic) : List Diagnostic :=
  c.flatMap (Stretch.diagnostics f)

end Course

namespace Slot

/-- The tree with the nodes in that place. -/
def fill (ns : List Node) : Slot → Tree
  | here before after => before ++ ns ++ after
  | inThen before path slot elseNodes span after =>
    before ++ .conditional path (slot.fill ns) elseNodes span :: after
  | inElse before path thenNodes slot span after =>
    before ++ .conditional path thenNodes (some (slot.fill ns)) span :: after
  | inBody before collection binding slot span after =>
    before ++ .loop collection binding (slot.fill ns) span :: after

/-- How a rendering of the tree goes: the place is visited in every round of the loops around it,
unless a conditional around it turns to the other branch. -/
def course (st : Setting) (s : Scope) : Slot → Course
  | here before after =>
    [.shown (renderNodes st s before), .visit s, .shown (renderNodes st s after)]
  | inThen before path slot elseNodes _ after =>
    .shown (renderNodes st s before) ::
      (if (s.resolve path).holds then slot.course st s
        else [.shown (renderNodes st s (elseNodes.getD []))]) ++
      [.shown (renderNodes st s after)]
  | inElse before path thenNodes slot _ after =>
    .shown (renderNodes st s before) ::
      (if (s.resolve path).holds then [.shown (renderNodes st s thenNodes)]
        else slot.course st s) ++
      [.shown (renderNodes st s after)]
  | inBody before collection binding slot span after =>
    .shown (renderNodes st s before) ::
      (match s.resolve collection with
        | some (.sequence items) => items.flatMap fun v => slot.course st (s.push binding v)
        | _ => [.shown (renderNode st s (.loop collection binding [] span))]) ++
      [.shown (renderNodes st s after)]

end Slot

theorem renderNodes_append (st : Setting) (s : Scope) (ns ms : List Node) :
    renderNodes st s (ns ++ ms) = renderNodes st s ns ++ renderNodes st s ms := by
  induction ns with
  | nil => exact (Rendering.empty_append _).symm
  | cons n ns ih => rw [List.cons_append, renderNodes, renderNodes, ih, Rendering.append_assoc]

namespace Course

theorem rendering_shown (r : Rendering) (f : Scope → Rendering) :
    rendering [.shown r] f = r := Rendering.append_empty r

/-- A course between two things that are shown. -/
theorem rendering_around (a : Rendering) (c : Course) (b : Rendering) (f : Scope → Rendering) :
    rendering (.shown a :: c ++ [.shown b]) f = a ++ (c.rendering f ++ b) := by
  unfold rendering
  rw [List.cons_append, List.map_cons, List.map_append, Rendering.concat_cons,
    Rendering.concat_append]
  exact congrArg (a ++ ·) (congrArg (_ ++ ·) (rendering_shown b f))

theorem rendering_flatMap {α : Type} (c : α → Course) (as : List α) (f : Scope → Rendering) :
    rendering (as.flatMap c) f = .concat (as.map fun a => (c a).rendering f) := by
  unfold rendering
  rw [List.map_flatMap, Rendering.concat_flatMap]

theorem diagnostics_rendering (c : Course) (f : Scope → Rendering) :
    (c.rendering f).diagnostics = c.diagnostics fun s => (f s).diagnostics := by
  unfold rendering diagnostics
  rw [Rendering.diagnostics_concat, List.flatMap_map]
  refine List.flatMap_congr fun stretch _ => ?_
  cases stretch <;> rfl

theorem mem_scopes {c : Course} {s : Scope} (h : .visit s ∈ c) : s ∈ c.scopes :=
  List.mem_filterMap.mpr ⟨_, h, rfl⟩

/-- The text depends on the texts of the visits alone. -/
theorem text_rendering {c : Course} {f g : Scope → Rendering}
    (h : ∀ s ∈ c.scopes, (f s).text = (g s).text) :
    (c.rendering f).text = (c.rendering g).text := by
  unfold rendering
  rw [Rendering.text_concat, Rendering.text_concat, List.map_map, List.map_map]
  refine congrArg (List.foldr _ _) (List.map_congr_left fun stretch hs => ?_)
  cases stretch with
  | shown r => rfl
  | visit s => exact h s (mem_scopes hs)

end Course

/-- A node among others. -/
theorem renderNodes_around (st : Setting) (s : Scope) (before : List Node) (n : Node)
    (after : List Node) : renderNodes st s (before ++ n :: after) =
      renderNodes st s before ++ (renderNode st s n ++ renderNodes st s after) := by
  rw [renderNodes_append, renderNodes]

/-- Nodes at a place show, in every visit, what they show in the scope of that visit; nothing else
depends on them. -/
theorem Slot.renderNodes_fill (st : Setting) (slot : Slot) (ns : List Node) (s : Scope) :
    renderNodes st s (slot.fill ns) =
      (slot.course st s).rendering fun s' => renderNodes st s' ns := by
  induction slot generalizing s with
  | here before after =>
    rw [fill, course, renderNodes_append, renderNodes_append, Rendering.append_assoc]
    show _ = renderNodes st s before ++ (renderNodes st s ns ++ (renderNodes st s after ++ .empty))
    rw [Rendering.append_empty]
  | inThen before path slot elseNodes span after ih =>
    rw [fill, course, renderNodes_around, Course.rendering_around]
    congr 2
    cases elseNodes with
    | none =>
      rw [renderNode]
      split
      · exact ih s
      · exact (Course.rendering_shown _ _).symm
    | some elseNodes =>
      rw [renderNode]
      split
      · exact ih s
      · exact (Course.rendering_shown _ _).symm
  | inElse before path thenNodes slot span after ih =>
    rw [fill, course, renderNodes_around, Course.rendering_around, renderNode]
    congr 2
    split
    · exact (Course.rendering_shown _ _).symm
    · exact ih s
  | inBody before collection binding slot span after ih =>
    rw [fill, course, renderNodes_around, Course.rendering_around, renderNode, renderNode]
    congr 2
    cases s.resolve collection with
    | none => exact (Course.rendering_shown _ _).symm
    | some v =>
      cases v with
      | sequence items => simp only [Course.rendering_flatMap, ih]
      | _ => exact (Course.rendering_shown _ _).symm

/-- The text of a value that can be shown. -/
def Resolved.text? : Resolved → Option String
  | some (.scalar s) => some s.render
  | some (.sequence items) => (scalarTexts? items).map (String.intercalate ", ")
  | _ => none

/-- The text of an expression that can be shown in a scope. -/
def expressionText? (format : Format) (s : Scope) (p : Path) (calls : List FilterCall) :
    Option String :=
  (evaluate format s p calls).toOption.bind Resolved.text?

theorem renderResolved_of_text {r : Resolved} {text : String} (h : Resolved.text? r = some text)
    (st : Setting) (p : Path) (span : Span) : renderResolved st p span r = .ofText text := by
  match r with
  | none => simp [Resolved.text?] at h
  | some (.scalar s) =>
    obtain rfl := Option.some.inj h
    rfl
  | some (.object _) => simp [Resolved.text?] at h
  | some (.sequence items) =>
    obtain ⟨texts, ht, rfl⟩ := Option.map_eq_some_iff.mp h
    simp only [renderResolved, ht]

theorem renderResolved_of_no_text {r : Resolved} (h : Resolved.text? r = none) (st : Setting)
    (p : Path) (span : Span) :
    ∃ kind message, renderResolved st p span r = st.diagnostic kind p span message := by
  match r with
  | none => exact ⟨_, _, rfl⟩
  | some (.scalar s) => simp [Resolved.text?] at h
  | some (.object _) => exact ⟨_, _, rfl⟩
  | some (.sequence items) =>
    have ht : scalarTexts? items = none := Option.map_eq_none_iff.mp h
    simp only [renderResolved, ht]
    exact ⟨_, _, rfl⟩

theorem renderExpression_of_text {st : Setting} {s : Scope} {p : Path} {calls : List FilterCall}
    {text : String} (h : expressionText? st.format s p calls = some text) (span : Span) :
    renderExpression st s p calls span = .ofText text := by
  unfold expressionText? at h
  unfold renderExpression
  cases he : evaluate st.format s p calls with
  | error e => simp [he, Except.toOption] at h
  | ok r => exact renderResolved_of_text (by simpa [he, Except.toOption] using h) st p span

theorem renderExpression_of_no_text {st : Setting} {s : Scope} {p : Path}
    {calls : List FilterCall} (h : expressionText? st.format s p calls = none) (span : Span) :
    ∃ kind message, renderExpression st s p calls span = st.diagnostic kind p span message := by
  unfold expressionText? at h
  unfold renderExpression
  cases he : evaluate st.format s p calls with
  | error e => exact ⟨_, _, rfl⟩
  | ok r => exact renderResolved_of_no_text (by simpa [he, Except.toOption] using h) st p span

/-- An expression without a text gives one diagnostic. -/
theorem exists_diagnostic {st : Setting} {s : Scope} {p : Path} {calls : List FilterCall}
    (h : expressionText? st.format s p calls = none) (span : Span) :
    ∃ d, renderExpression st s p calls span = .ofDiagnostic d := by
  obtain ⟨kind, message, he⟩ := renderExpression_of_no_text h span
  exact ⟨_, he⟩

theorem renderNodes_singleton (st : Setting) (s : Scope) (n : Node) :
    renderNodes st s [n] = renderNode st s n := Rendering.append_empty _

/-- A pass through nodes keeps its scope and only shows more, which depends on the nodes, the scope,
the source and the format alone. A loop shows its rounds one after the other, each in the scope with
the item of that round; an expression shows its text, or gives one diagnostic. An expression that
has no text in any visit can be taken out of a tree: the text stays, and of the diagnostics exactly
those of the visits go. -/
theorem pass_contained (st : Setting) (p : Pass) :
    (∀ ns, p.nodes st ns = p.emit (renderNodes st p.scope ns)) ∧
    (∀ t context, render t st.source context st.format =
      ((Pass.start context).nodes st t).shown) ∧
    (∀ collection binding body span items,
      p.scope.resolve collection = some (.sequence items) →
      p.nodes st [.loop collection binding body span] =
        p.emit (.concat (items.map fun v => renderNodes st (p.scope.push binding v) body))) ∧
    (∀ path calls span,
      match expressionText? st.format p.scope path calls with
      | some text => p.nodes st [.expression path calls span] = p.emit (.ofText text)
      | none => ∃ kind message,
        p.nodes st [.expression path calls span] =
          p.emit (st.diagnostic kind path span message)) ∧
    (∀ (slot : Slot) ns, p.nodes st (slot.fill ns) =
      p.emit ((slot.course st p.scope).rendering fun s => renderNodes st s ns)) ∧
    (∀ (slot : Slot) path calls span,
      (∀ s ∈ (slot.course st p.scope).scopes, expressionText? st.format s path calls = none) →
      let kept := (p.nodes st (slot.fill [])).shown
      let whole := (p.nodes st (slot.fill [.expression path calls span])).shown
      kept.text = whole.text ∧
      (∀ s ∈ (slot.course st p.scope).scopes,
        ∃ d, renderExpression st s path calls span = .ofDiagnostic d) ∧
      whole.diagnostics = p.shown.diagnostics ++ (slot.course st p.scope).diagnostics
        (fun s => (renderExpression st s path calls span).diagnostics) ∧
      kept.diagnostics =
        p.shown.diagnostics ++ (slot.course st p.scope).diagnostics (fun _ => [])) := by
  refine ⟨fun ns => p.nodes_eq st ns,
    fun t context => render_eq_shown t st.source context st.format,
    fun collection binding body span items hc => ?_, fun path calls span => ?_,
    fun slot ns => ?_, fun slot path calls span hs => ?_⟩
  · rw [p.nodes_eq, renderNodes_singleton, renderNode, hc]
  · rw [p.nodes_eq, renderNodes_singleton, renderNode]
    split
    · next text h => rw [renderExpression_of_text h]
    · next h =>
      obtain ⟨kind, message, he⟩ := renderExpression_of_no_text h span
      exact ⟨kind, message, by rw [he]⟩
  · rw [p.nodes_eq, slot.renderNodes_fill]
  · intro kept whole
    have hd := fun s h => exists_diagnostic (hs s h) span
    have hshown : ∀ ns, (p.nodes st (slot.fill ns)).shown =
        p.shown ++ (slot.course st p.scope).rendering fun s => renderNodes st s ns := by
      intro ns
      rw [p.nodes_eq, slot.renderNodes_fill]
      rfl
    have hwhole : whole = p.shown ++ (slot.course st p.scope).rendering
        fun s => renderExpression st s path calls span := by
      simp only [whole, hshown, renderNodes_singleton, renderNode]
    have hkept : kept = p.shown ++ (slot.course st p.scope).rendering fun _ => .empty := hshown []
    have htext : ∀ s ∈ (slot.course st p.scope).scopes,
        Rendering.empty.text = (renderExpression st s path calls span).text := by
      intro s h
      obtain ⟨d, he⟩ := hd s h
      rw [he]
      rfl
    refine ⟨?_, hd, ?_, ?_⟩
    · rw [hkept, hwhole, Rendering.text_append, Rendering.text_append, Course.text_rendering htext]
    · rw [hwhole, Rendering.diagnostics_append, Course.diagnostics_rendering]
    · rw [hkept, Rendering.diagnostics_append, Course.diagnostics_rendering]
      rfl

/-- A name that no group has is asked for in every round of the loop over a group. -/
theorem pass_contained_nestedLoop :
    let items := fun names : List String => Value.object [("Items", .sequence (names.map .text))]
    let groups := [items ["a", "b"], items [], items ["c"]]
    let context : Context := ⟨.object [("Groups", .sequence groups)],
      ⟨⟨2024, 6, 1⟩, .midnight, 0⟩⟩
    let slot : Slot := .inBody [] ⟨"Groups", []⟩ "g"
      (.inBody [] ⟨"g", [.field "Items"]⟩ "i" (.here [.expression ⟨"i", []⟩ [] .zero] []) .zero
        [.text ";" .zero]) .zero []
    let st : Setting := ⟨[], .standard⟩
    let p := Pass.start context
    let name : Node := .expression ⟨"g", [.field "Name"]⟩ [] .zero
    (slot.course st p.scope).scopes.length = 3 ∧
    (∀ s ∈ (slot.course st p.scope).scopes,
      expressionText? .standard s ⟨"g", [.field "Name"]⟩ [] = none) ∧
    (p.nodes st (slot.fill [name])).shown.text = "ab;;c;" ∧
    (p.nodes st (slot.fill [name])).shown.diagnostics.length = 3 ∧
    (p.nodes st (slot.fill [])).shown = ⟨"ab;;c;", []⟩ := by
  intro items groups context slot st p name
  have hs : ∀ s ∈ (slot.course st p.scope).scopes,
      expressionText? .standard s ⟨"g", [.field "Name"]⟩ [] = none := by decide +kernel
  obtain ⟨-, -, -, -, -, hout⟩ := pass_contained st p
  obtain ⟨htext, -, hwhole, hkept⟩ := hout slot ⟨"g", [.field "Name"]⟩ [] .zero hs
  have hfull : (p.nodes st (slot.fill [name])).shown.text = "ab;;c;" := by decide +kernel
  refine ⟨by decide +kernel, hs, hfull, ?_, Rendering.ext (htext.trans hfull) ?_⟩
  · rw [hwhole]
    decide +kernel
  · rw [hkept]
    decide +kernel

end Proforma
