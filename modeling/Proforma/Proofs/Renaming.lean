import Proforma.Proofs.Containment

/-!
Names of loop variables do not matter. A loop that binds another name, with the variable renamed
where the body means it, renders the same text with diagnostics of the same kinds at the same
places, and the tree reads the same attributes of the record. The new name must not occur in the
body; around the loop it may mean anything.
-/
namespace Proforma

open Text

/-- One name in place of another. -/
def renameName (x y name : String) : String := if name = x then y else name

def Path.renameHead (x y : String) (p : Path) : Path := { p with head := renameName x y p.head }

mutual

/-- The heads of the paths in a node, and its loop variables. -/
def Node.names : Node → List String
  | .text .. => []
  | .expression path .. => [path.head]
  | .conditional path thenNodes none _ => path.head :: Node.allNames thenNodes
  | .conditional path thenNodes (some elseNodes) _ =>
    path.head :: (Node.allNames thenNodes ++ Node.allNames elseNodes)
  | .loop collection binding body _ => collection.head :: binding :: Node.allNames body

def Node.allNames : List Node → List String
  | [] => []
  | n :: ns => n.names ++ Node.allNames ns

end

mutual

/-- The node with `y` for the variable `x`. A loop that binds `x` again has its own `x` in its
body, but not in the path to its items. -/
def Node.rename (x y : String) : Node → Node
  | .text raw span => .text raw span
  | .expression path calls span => .expression (path.renameHead x y) calls span
  | .conditional path thenNodes none span =>
    .conditional (path.renameHead x y) (Node.renameAll x y thenNodes) none span
  | .conditional path thenNodes (some elseNodes) span =>
    .conditional (path.renameHead x y) (Node.renameAll x y thenNodes)
      (some (Node.renameAll x y elseNodes)) span
  | .loop collection binding body span =>
    .loop (collection.renameHead x y) binding
      (if binding = x then body else Node.renameAll x y body) span

def Node.renameAll (x y : String) : List Node → List Node
  | [] => []
  | n :: ns => n.rename x y :: Node.renameAll x y ns

end

theorem renameName_self (x name : String) : renameName x x name = name := by
  unfold renameName
  split
  · next h => exact h.symm
  · rfl

theorem renameName_of_ne {x name : String} (h : name ≠ x) (y : String) :
    renameName x y name = name := if_neg h

/-- A renamed name can only become `y`. -/
theorem renameName_ne {y name other : String} (h : name ≠ other) (hy : other ≠ y) (x : String) :
    renameName x y name ≠ other := by
  unfold renameName
  split
  · exact hy.symm
  · exact h

theorem renameHead_of_ne {x : String} {p : Path} (h : p.head ≠ x) (y : String) :
    p.renameHead x y = p := by
  rw [Path.renameHead, renameName_of_ne h]

theorem renameHead_self (x : String) (p : Path) : p.renameHead x x = p := by
  rw [Path.renameHead, renameName_self]

theorem Node.renameAll_self (x : String) (t : List Node) : Node.renameAll x x t = t := by
  induction t using Tree.induction with
  | nil => rfl
  | text raw span ns ih => rw [renameAll, rename, ih]
  | expression path calls span ns ih => rw [renameAll, rename, renameHead_self, ih]
  | conditional path thenNodes span ns ih₁ ih =>
    rw [renameAll, rename, renameHead_self, ih₁, ih]
  | alternative path thenNodes elseNodes span ns ih₁ ih₂ ih =>
    rw [renameAll, rename, renameHead_self, ih₁, ih₂, ih]
  | loop collection binding body span ns ih₁ ih =>
    rw [renameAll, rename, renameHead_self, ih₁, ih, ite_self]

/-- What a diagnostic says without naming anything. -/
def Diagnostic.site (d : Diagnostic) : DiagnosticKind × Nat × Nat := (d.kind, d.line, d.column)

/-- The same text, and diagnostics of the same kinds at the same places. -/
structure Rendering.Matches (a b : Rendering) : Prop where
  text : a.text = b.text
  sites : a.diagnostics.map Diagnostic.site = b.diagnostics.map Diagnostic.site

namespace Rendering

theorem Matches.refl (a : Rendering) : a.Matches a := ⟨rfl, rfl⟩

theorem Matches.append {a b a' b' : Rendering} (h : a.Matches a') (h' : b.Matches b') :
    (a ++ b).Matches (a' ++ b') where
  text := by rw [text_append, text_append, h.text, h'.text]
  sites := by
    rw [diagnostics_append, diagnostics_append, List.map_append, List.map_append, h.sites,
      h'.sites]

theorem Matches.concat_map {α : Type} {f g : α → Rendering} (h : ∀ a, (f a).Matches (g a))
    (as : List α) : (concat (as.map f)).Matches (concat (as.map g)) := by
  induction as with
  | nil => exact .refl _
  | cons a as ih => exact (h a).append ih

end Rendering

theorem renderResolved_matches (st : Setting) (p q : Path) (span : Span) (r : Resolved) :
    (renderResolved st p span r).Matches (renderResolved st q span r) := by
  match r with
  | none => exact ⟨rfl, rfl⟩
  | some (.scalar s) => exact .refl _
  | some (.object _) => exact ⟨rfl, rfl⟩
  | some (.sequence items) =>
    rw [renderResolved, renderResolved]
    cases scalarTexts? items with
    | none => exact ⟨rfl, rfl⟩
    | some texts => exact .refl _

namespace Scope

theorem root?_push (s : Scope) (binding : String) (v : Value) (name : String) :
    (s.push binding v).root? name =
      if name = binding then Value.presentOnly (some v) else s.root? name := by
  rw [root?, push, List.lookup_cons]
  by_cases h : name = binding
  · subst h
    simp
  · rw [beq_false_of_ne h, if_neg h]
    rfl

/-- Every name but `y` means in one scope what it means in the other after the renaming. -/
def Renames (x y : String) (s s' : Scope) : Prop :=
  ∀ name, name ≠ y → s.root? name = s'.root? (renameName x y name)

theorem renames_push (s : Scope) (x y : String) (v : Value) :
    Renames x y (s.push x v) (s.push y v) := by
  intro name hy
  rw [root?_push, root?_push, renameName]
  by_cases hx : name = x
  · rw [if_pos hx, if_pos hx, if_pos rfl]
  · rw [if_neg hx, if_neg hx, if_neg hy]

variable {x y : String} {s s' : Scope}

theorem Renames.resolve (h : Renames x y s s') {p : Path} (hp : p.head ≠ y) :
    s.resolve p = s'.resolve (p.renameHead x y) := by
  rw [Scope.resolve, h p.head hp]
  rfl

/-- Another loop variable means its item on both sides. -/
theorem Renames.push (h : Renames x y s s') {binding : String} (hx : binding ≠ x)
    (hy : binding ≠ y) (v : Value) : Renames x y (s.push binding v) (s'.push binding v) := by
  intro name hn
  rw [root?_push, root?_push]
  by_cases hb : name = binding
  · subst hb
    rw [renameName_of_ne hx, if_pos rfl, if_pos rfl]
  · rw [if_neg hb, if_neg (renameName_ne hb hy x), h name hn]

/-- Where `x` is bound again there is nothing to rename. -/
theorem Renames.shadow (h : Renames x y s s') (v : Value) :
    Renames y y (s.push x v) (s'.push x v) := by
  intro name hn
  rw [renameName_self, root?_push, root?_push]
  split
  · rfl
  · next hx => rw [h name hn, renameName_of_ne hx]

end Scope

theorem renderExpression_renamed (st : Setting) {x y : String} {s s' : Scope}
    (h : s.Renames x y s') {p : Path} (hp : p.head ≠ y) (calls : List FilterCall) (span : Span) :
    (renderExpression st s p calls span).Matches
      (renderExpression st s' (p.renameHead x y) calls span) := by
  rw [renderExpression, renderExpression, evaluate, evaluate, h.resolve hp]
  cases applyAll st.format calls (s'.resolve (p.renameHead x y)) with
  | ok r => exact renderResolved_matches st _ _ span r
  | error e => exact ⟨rfl, rfl⟩

/-- Loops over the same items match if their bodies do on every item. -/
theorem renderLoop_matches (st : Setting) {s s' : Scope} {collection collection' : Path}
    (hc : s.resolve collection = s'.resolve collection') {binding binding' : String}
    {body body' : List Node} (span : Span)
    (hb : ∀ v, (renderNodes st (s.push binding v) body).Matches
      (renderNodes st (s'.push binding' v) body')) :
    (renderNode st s (.loop collection binding body span)).Matches
      (renderNode st s' (.loop collection' binding' body' span)) := by
  rw [renderNode, renderNode, hc]
  cases s'.resolve collection' with
  | none => exact .refl _
  | some v =>
    cases v with
    | sequence items => exact .concat_map hb items
    | _ => exact ⟨rfl, rfl⟩

/-- Rows of nodes render alike in scopes that mean the same by the renamed names. -/
theorem renderNodes_renamed (st : Setting) {x y : String} (t : List Node) {s s' : Scope}
    (h : s.Renames x y s') (hy : y ∉ Node.allNames t) :
    (renderNodes st s t).Matches (renderNodes st s' (Node.renameAll x y t)) := by
  induction t using Tree.induction generalizing x s s' with
  | nil => exact .refl _
  | text raw span ns ih =>
    rw [Node.renameAll, Node.rename, renderNodes, renderNodes]
    exact .append (.refl _) (ih h hy)
  | expression path calls span ns ih =>
    simp only [Node.allNames, Node.names, List.mem_append, List.mem_singleton, not_or] at hy
    rw [Node.renameAll, Node.rename, renderNodes, renderNodes, renderNode, renderNode]
    exact (renderExpression_renamed st h (Ne.symm hy.1) calls span).append (ih h hy.2)
  | conditional path thenNodes span ns ih₁ ih =>
    simp only [Node.allNames, Node.names, List.mem_append, List.mem_cons, not_or] at hy
    obtain ⟨⟨hp, hthen⟩, hns⟩ := hy
    rw [Node.renameAll, Node.rename, renderNodes, renderNodes, renderNode, renderNode,
      h.resolve (Ne.symm hp)]
    refine .append ?_ (ih h hns)
    split
    · exact ih₁ h hthen
    · exact .refl _
  | alternative path thenNodes elseNodes span ns ih₁ ih₂ ih =>
    simp only [Node.allNames, Node.names, List.mem_append, List.mem_cons, not_or] at hy
    obtain ⟨⟨hp, hthen, helse⟩, hns⟩ := hy
    rw [Node.renameAll, Node.rename, renderNodes, renderNodes, renderNode, renderNode,
      h.resolve (Ne.symm hp)]
    refine .append ?_ (ih h hns)
    split
    · exact ih₁ h hthen
    · exact ih₂ h helse
  | loop collection binding body span ns ih₁ ih =>
    simp only [Node.allNames, Node.names, List.mem_append, List.mem_cons, not_or] at hy
    obtain ⟨⟨hc, hb, hbody⟩, hns⟩ := hy
    rw [Node.renameAll, Node.rename, renderNodes, renderNodes]
    refine .append (renderLoop_matches st (h.resolve (Ne.symm hc)) span fun v => ?_) (ih h hns)
    split
    · next hx =>
      subst hx
      have hshadow := ih₁ (h.shadow v) hbody
      rwa [Node.renameAll_self] at hshadow
    · next hx => exact ih₁ (h.push hx (Ne.symm hb) v) hbody

/-- The attribute that a path reads is the same after the renaming. -/
def Tree.RenamesBound (x y : String) (bs bs' : List String) : Prop :=
  ∀ p : Path, p.head ≠ y → recordHead? (p, bs) = recordHead? (p.renameHead x y, bs')

namespace Tree

/-- The attributes that a row of nodes reads, inside these loop variables. -/
def headsIn (bs : List String) (t : List Node) : List String :=
  (Node.allPathsIn bs t).filterMap recordHead?

theorem headsIn_cons (bs : List String) (n : Node) (ns : List Node) :
    headsIn bs (n :: ns) = (n.pathsIn bs).filterMap recordHead? ++ headsIn bs ns := by
  rw [headsIn, Node.allPathsIn, List.filterMap_append]
  rfl

theorem headsIn_append (bs : List String) (t u : List Node) :
    headsIn bs (t ++ u) = headsIn bs t ++ headsIn bs u := by
  rw [headsIn, Node.allPathsIn_append, List.filterMap_append]
  rfl

theorem filterMap_recordHead?_cons (p : Path × List String) (ps : List (Path × List String)) :
    (p :: ps).filterMap recordHead? = (recordHead? p).toList ++ ps.filterMap recordHead? := by
  rw [List.filterMap_cons]
  cases recordHead? p <;> rfl

theorem headsIn_expression (bs : List String) (path : Path) (calls : List FilterCall)
    (span : Span) (ns : List Node) : headsIn bs (.expression path calls span :: ns) =
      (recordHead? (path, bs)).toList ++ headsIn bs ns := by
  rw [headsIn_cons, Node.pathsIn, filterMap_recordHead?_cons, List.filterMap_nil, List.append_nil]

theorem headsIn_conditional (bs : List String) (path : Path) (thenNodes : List Node)
    (span : Span) (ns : List Node) : headsIn bs (.conditional path thenNodes none span :: ns) =
      (recordHead? (path, bs)).toList ++ headsIn bs thenNodes ++ headsIn bs ns := by
  rw [headsIn_cons, Node.pathsIn, filterMap_recordHead?_cons]
  rfl

theorem headsIn_alternative (bs : List String) (path : Path) (thenNodes elseNodes : List Node)
    (span : Span) (ns : List Node) :
    headsIn bs (.conditional path thenNodes (some elseNodes) span :: ns) =
      (recordHead? (path, bs)).toList ++ (headsIn bs thenNodes ++ headsIn bs elseNodes) ++
        headsIn bs ns := by
  rw [headsIn_cons, Node.pathsIn, filterMap_recordHead?_cons, List.filterMap_append]
  rfl

theorem headsIn_loop (bs : List String) (collection : Path) (binding : String)
    (body : List Node) (span : Span) (ns : List Node) :
    headsIn bs (.loop collection binding body span :: ns) =
      (recordHead? (collection, bs)).toList ++ headsIn (bs ++ [binding]) body ++ headsIn bs ns := by
  rw [headsIn_cons, Node.pathsIn, filterMap_recordHead?_cons]
  rfl

theorem recordHead?_concat {p : Path} {binding : String} (h : p.head ≠ binding)
    (bs : List String) : recordHead? (p, bs ++ [binding]) = recordHead? (p, bs) := by
  simp [recordHead?, h]

theorem recordHead?_concat_self {p : Path} {binding : String} (h : p.head = binding)
    (bs : List String) : recordHead? (p, bs ++ [binding]) = none := by
  simp [recordHead?, h]

variable {x y : String} {bs bs' : List String}

theorem renamesBound_concat (x y : String) (bs : List String) :
    RenamesBound x y (bs ++ [x]) (bs ++ [y]) := by
  intro p hp
  by_cases hx : p.head = x
  · rw [recordHead?_concat_self hx, recordHead?_concat_self (if_pos hx)]
  · rw [renameHead_of_ne hx, recordHead?_concat hx, recordHead?_concat hp]

theorem RenamesBound.concat (h : RenamesBound x y bs bs') {binding : String} (hx : binding ≠ x)
    (hy : binding ≠ y) : RenamesBound x y (bs ++ [binding]) (bs' ++ [binding]) := by
  intro p hp
  by_cases hb : p.head = binding
  · rw [renameHead_of_ne (hb.trans_ne hx), recordHead?_concat_self hb, recordHead?_concat_self hb]
  · have hr : (p.renameHead x y).head ≠ binding := renameName_ne hb hy x
    rw [recordHead?_concat hb, recordHead?_concat hr, h p hp]

theorem RenamesBound.shadow (h : RenamesBound x y bs bs') :
    RenamesBound y y (bs ++ [x]) (bs' ++ [x]) := by
  intro p hp
  rw [renameHead_self]
  by_cases hx : p.head = x
  · rw [recordHead?_concat_self hx, recordHead?_concat_self hx]
  · rw [recordHead?_concat hx, recordHead?_concat hx, h p hp, renameHead_of_ne hx]

/-- Renamed nodes read the same attributes. -/
theorem headsIn_renamed (t : List Node) (h : RenamesBound x y bs bs')
    (hy : y ∉ Node.allNames t) : headsIn bs t = headsIn bs' (Node.renameAll x y t) := by
  induction t using Tree.induction generalizing x bs bs' with
  | nil => rfl
  | text raw span ns ih =>
    rw [Node.renameAll, Node.rename, headsIn_cons, headsIn_cons, ih h hy]
    rfl
  | expression path calls span ns ih =>
    simp only [Node.allNames, Node.names, List.mem_append, List.mem_singleton, not_or] at hy
    rw [Node.renameAll, Node.rename, headsIn_expression, headsIn_expression,
      h path (Ne.symm hy.1), ih h hy.2]
  | conditional path thenNodes span ns ih₁ ih =>
    simp only [Node.allNames, Node.names, List.mem_append, List.mem_cons, not_or] at hy
    obtain ⟨⟨hp, hthen⟩, hns⟩ := hy
    rw [Node.renameAll, Node.rename, headsIn_conditional, headsIn_conditional,
      h path (Ne.symm hp), ih₁ h hthen, ih h hns]
  | alternative path thenNodes elseNodes span ns ih₁ ih₂ ih =>
    simp only [Node.allNames, Node.names, List.mem_append, List.mem_cons, not_or] at hy
    obtain ⟨⟨hp, hthen, helse⟩, hns⟩ := hy
    rw [Node.renameAll, Node.rename, headsIn_alternative, headsIn_alternative,
      h path (Ne.symm hp), ih₁ h hthen, ih₂ h helse, ih h hns]
  | loop collection binding body span ns ih₁ ih =>
    simp only [Node.allNames, Node.names, List.mem_append, List.mem_cons, not_or] at hy
    obtain ⟨⟨hc, hb, hbody⟩, hns⟩ := hy
    rw [Node.renameAll, Node.rename, headsIn_loop, headsIn_loop, h collection (Ne.symm hc),
      ih h hns]
    split
    · next hx =>
      subst hx
      have hshadow := ih₁ h.shadow hbody
      rw [Node.renameAll_self] at hshadow
      rw [hshadow]
    · next hx => rw [ih₁ (h.concat hx (Ne.symm hb)) hbody]

end Tree

/-- What stands at a place of a tree counts for the attributes that it reads there. -/
theorem Slot.headsIn_fill (slot : Slot) {ns ms : List Node}
    (h : ∀ bs, Tree.headsIn bs ns = Tree.headsIn bs ms) (bs : List String) :
    Tree.headsIn bs (slot.fill ns) = Tree.headsIn bs (slot.fill ms) := by
  induction slot generalizing bs with
  | here before after => simp only [fill, Tree.headsIn_append, h]
  | inThen before path slot elseNodes span after ih =>
    cases elseNodes with
    | none => simp only [fill, Tree.headsIn_append, Tree.headsIn_conditional, ih]
    | some elseNodes => simp only [fill, Tree.headsIn_append, Tree.headsIn_alternative, ih]
  | inElse before path thenNodes slot span after ih =>
    simp only [fill, Tree.headsIn_append, Tree.headsIn_alternative, ih]
  | inBody before collection binding slot span after ih =>
    simp only [fill, Tree.headsIn_append, Tree.headsIn_loop, ih]

/-- A course whose visits match shows as much. -/
theorem Course.matches_rendering {f g : Scope → Rendering} (h : ∀ s, (f s).Matches (g s))
    (c : Course) : (c.rendering f).Matches (c.rendering g) := by
  refine .concat_map (fun stretch => ?_) c
  cases stretch with
  | shown r => exact .refl r
  | visit s => exact h s

/-- A loop with another variable, renamed in its body, shows in every scope what it showed. -/
theorem renderNodes_renamedLoop (st : Setting) (s : Scope) (collection : Path) (x y : String)
    {body : List Node} (span : Span) (hy : y ∉ Node.allNames body) :
    (renderNodes st s [.loop collection x body span]).Matches
      (renderNodes st s [.loop collection y (Node.renameAll x y body) span]) := by
  rw [renderNodes_singleton, renderNodes_singleton]
  exact renderLoop_matches st rfl span fun v =>
    renderNodes_renamed st body (s.renames_push x y v) hy

/-- The variable of a loop, wherever the loop stands in a tree, can have any name that does not
occur in the body: the text stays the same, the diagnostics stay of the same kinds at the same
places, and the tree reads the same attributes of the record. -/
theorem loop_variable_local (slot : Slot) (collection : Path) (x y : String) {body : List Node}
    (span : Span) (hy : y ∉ Node.allNames body) :
    let t := slot.fill [.loop collection x body span]
    let t' := slot.fill [.loop collection y (Node.renameAll x y body) span]
    (∀ source context format,
      (render t' source context format).text = (render t source context format).text ∧
      (render t' source context format).diagnostics.map Diagnostic.site =
        (render t source context format).diagnostics.map Diagnostic.site) ∧
    t'.referenced = t.referenced := by
  intro t t'
  constructor
  · intro source context format
    have hm : (render t source context format).Matches (render t' source context format) := by
      unfold render
      rw [slot.renderNodes_fill, slot.renderNodes_fill]
      exact Course.matches_rendering
        (fun s => renderNodes_renamedLoop _ s collection x y span hy) _
    exact ⟨hm.text.symm, hm.sites.symm⟩
  · have hloop (bs : List String) : Tree.headsIn bs [.loop collection x body span] =
        Tree.headsIn bs [.loop collection y (Node.renameAll x y body) span] := by
      rw [Tree.headsIn_loop, Tree.headsIn_loop,
        Tree.headsIn_renamed body (Tree.renamesBound_concat x y bs) hy]
    have hheads : t.paths.filterMap Tree.recordHead? = t'.paths.filterMap Tree.recordHead? :=
      slot.headsIn_fill hloop []
    rw [Tree.referenced, Tree.referenced, hheads]

/-- The loop `{% for part in Parts %}{{ part.name }}{% for part in part.parts %}{{ part }}` with its
outer variable named after the attribute that it runs over. -/
theorem loop_variable_local_shadowed :
    let slot : Slot := .inThen [] ⟨"Parts", []⟩ (.here [] []) none .zero []
    let inner (head : String) : Node :=
      .loop ⟨head, [.field "parts"]⟩ "part" [.expression ⟨"part", []⟩ [] .zero] .zero
    let body (head : String) : List Node :=
      [.expression ⟨head, [.field "name"]⟩ [] .zero, inner head]
    let t := slot.fill [.loop ⟨"Parts", []⟩ "part" (body "part") .zero]
    let t' := slot.fill [.loop ⟨"Parts", []⟩ "Parts" (body "Parts") .zero]
    "Parts" ∉ Node.allNames (body "part") ∧
      (∀ source context format,
        (render t' source context format).text = (render t source context format).text) ∧
      t'.referenced = t.referenced := by
  intro slot inner body t t'
  have hy : "Parts" ∉ Node.allNames (body "part") := by decide +kernel
  have hr : Node.renameAll "part" "Parts" (body "part") = body "Parts" := by rfl
  have h := loop_variable_local slot ⟨"Parts", []⟩ "part" "Parts" .zero hy
  rw [hr] at h
  exact ⟨hy, fun source context format => (h.1 source context format).1, h.2⟩

end Proforma
