import Proforma.Proofs.Tree
import Proforma.Template.Block

/-!
Trees from rows of items. What has been read so far is always written in the stack of open
blocks, so a finished tree is written in the items it was read from; and items that write a tree
are read as that tree.
-/
namespace Proforma

open Text

namespace Node

@[simp] theorem allParts_nil : allParts [] = [] := rfl

@[simp] theorem allParts_cons (n : Node) (ns : List Node) :
    allParts (n :: ns) = n.parts ++ allParts ns := rfl

@[simp] theorem allParts_append (t u : List Node) :
    allParts (t ++ u) = allParts t ++ allParts u := Tree.parts_append t u

end Node

namespace Item

def parts : Item → List Part
  | leaf node => node.parts
  | directive d _ => [.directive d]

end Item

namespace Frame

/-- The parts of an open block from its opening directive on. -/
def parts : Frame → List Part
  | conditional path thenNodes none =>
    .directive (.openIf path) :: Node.allParts thenNodes
  | conditional path thenNodes (some elseNodes) =>
    .directive (.openIf path) ::
      (Node.allParts thenNodes ++ .directive .middle :: Node.allParts elseNodes)
  | loop collection binding body =>
    .directive (.openFor binding collection) :: Node.allParts body

theorem parts_push (node : Node) (f : Frame) : (f.push node).parts = f.parts ++ node.parts := by
  cases f with
  | conditional path thenNodes elseNodes => cases elseNodes <;> simp [push, parts]
  | loop => simp [push, parts]

theorem parts_node_of_isConditional {f : Frame} (h : Builder.isConditional f = true)
    (span : Span) : (f.node span).parts = f.parts ++ [.directive .closeIf] := by
  cases f with
  | conditional path thenNodes elseNodes => cases elseNodes <;> simp [node, parts, Node.parts]
  | loop => simp [Builder.isConditional] at h

theorem parts_node_of_isLoop {f : Frame} (h : Builder.isLoop f = true) (span : Span) :
    (f.node span).parts = f.parts ++ [.directive .closeFor] := by
  cases f with
  | conditional => simp [Builder.isLoop] at h
  | loop => simp [node, parts, Node.parts]

end Frame

namespace Builder

/-- The parts that have been read: those of the root, then those of the open blocks, outermost
first. -/
def parts (b : Builder) : List Part :=
  Node.allParts b.root ++ b.blocks.reverse.flatMap (·.frame.parts)

theorem parts_push (b : Builder) (node : Node) : (b.push node).parts = b.parts ++ node.parts := by
  obtain ⟨root, blocks⟩ := b
  cases blocks with
  | nil => simp [push, parts]
  | cons block outer => simp [push, parts, Frame.parts_push]

theorem parts_openBlock (b : Builder) (frame : Frame) (mark : Mark) :
    (b.openBlock frame mark).parts = b.parts ++ frame.parts := by
  simp [openBlock, parts]

theorem parts_close {b b' : Builder} {fits : Frame → Bool} {mark : Mark} {stop : Nat}
    {last : Part}
    (hf : ∀ f : Frame, fits f = true → ∀ span, (f.node span).parts = f.parts ++ [last])
    (h : b.close fits mark stop = .ok b') : b'.parts = b.parts ++ [last] := by
  obtain ⟨root, blocks⟩ := b
  cases blocks with
  | nil => simp [close] at h
  | cons block outer =>
    simp only [close] at h
    split at h
    · next hfit =>
      obtain rfl := Except.ok.inj h
      rw [parts_push, hf _ hfit]
      simp [parts]
    · simp at h

theorem parts_turn {b b' : Builder} {mark : Mark} (h : b.turn mark = .ok b') :
    b'.parts = b.parts ++ [.directive .middle] := by
  unfold turn at h
  split at h
  · next hb =>
    obtain rfl := Except.ok.inj h
    simp [parts, hb, Frame.parts]
  · simp at h

/-- Each step adds the parts of its item. -/
theorem parts_place {b b' : Builder} {i : Item} (h : b.place i = .ok b') :
    b'.parts = b.parts ++ i.parts := by
  cases i with
  | leaf node =>
    obtain rfl := Except.ok.inj h
    exact b.parts_push node
  | directive d span =>
    cases d with
    | openIf path =>
      obtain rfl := Except.ok.inj h
      simp [parts_openBlock, Frame.parts, Item.parts]
    | openFor binding collection =>
      obtain rfl := Except.ok.inj h
      simp [parts_openBlock, Frame.parts, Item.parts]
    | middle => exact parts_turn h
    | closeIf => exact parts_close (fun f hf => f.parts_node_of_isConditional hf) h
    | closeFor => exact parts_close (fun f hf => f.parts_node_of_isLoop hf) h

theorem parts_run {b b' : Builder} {is : List Item} (h : is.foldlM place b = .ok b') :
    b'.parts = b.parts ++ is.flatMap Item.parts := by
  induction is generalizing b with
  | nil =>
    obtain rfl := Except.ok.inj h
    simp
  | cons i is ih =>
    rw [List.foldlM_cons] at h
    cases hp : b.place i with
    | error e => simp [hp, bind, Except.bind] at h
    | ok b₁ =>
      rw [hp] at h
      rw [ih h, parts_place hp]
      simp

/-- A finished tree is written in the items it was read from. -/
theorem parts_of_finish {b : Builder} {t : Tree} {is : List Item}
    (h : is.foldlM place .empty = .ok b) (hf : b.finish = .ok t) :
    t.parts = is.flatMap Item.parts := by
  have hp := parts_run h
  obtain ⟨root, blocks⟩ := b
  cases blocks with
  | nil =>
    obtain rfl := Except.ok.inj hf
    simpa [Tree.parts, Builder.parts, empty] using hp
  | cons block outer => simp [finish, innermost?] at hf

/-- Adds a row of nodes to the innermost open block, or to the root. -/
def pushAll (b : Builder) (ns : List Node) : Builder := ns.foldl push b

theorem pushAll_cons (b : Builder) (n : Node) (ns : List Node) :
    b.pushAll (n :: ns) = (b.push n).pushAll ns := rfl

theorem pushAll_openBlock (b : Builder) (f : Frame) (mark : Mark) (ns : List Node) :
    (b.openBlock f mark).pushAll ns = b.openBlock (ns.foldl (fun f n => f.push n) f) mark := by
  induction ns generalizing f with
  | nil => rfl
  | cons n ns ih =>
    rw [pushAll_cons, List.foldl_cons, ← ih]
    rfl

theorem pushAll_empty (ns : List Node) : Builder.empty.pushAll ns = ⟨ns, []⟩ := by
  have h : ∀ root, (⟨root, []⟩ : Builder).pushAll ns = ⟨root ++ ns, []⟩ := by
    induction ns with
    | nil => simp [pushAll]
    | cons n ns ih =>
      intro root
      rw [pushAll_cons, push, ih]
      simp
  exact h []

end Builder

namespace Frame

theorem foldl_push_conditional (path : Path) (thenNodes ns : List Node) :
    ns.foldl (fun f n => f.push n) (conditional path thenNodes none) =
      conditional path (thenNodes ++ ns) none := by
  induction ns generalizing thenNodes with
  | nil => simp
  | cons n ns ih =>
    rw [List.foldl_cons, push, ih]
    simp

theorem foldl_push_alternative (path : Path) (thenNodes elseNodes ns : List Node) :
    ns.foldl (fun f n => f.push n) (conditional path thenNodes (some elseNodes)) =
      conditional path thenNodes (some (elseNodes ++ ns)) := by
  induction ns generalizing elseNodes with
  | nil => simp
  | cons n ns ih =>
    rw [List.foldl_cons, push, ih]
    simp

theorem foldl_push_loop (collection : Path) (binding : String) (body ns : List Node) :
    ns.foldl (fun f n => f.push n) (loop collection binding body) =
      loop collection binding (body ++ ns) := by
  induction ns generalizing body with
  | nil => simp
  | cons n ns ih =>
    rw [List.foldl_cons, push, ih]
    simp

end Frame

namespace Item

theorem eq_of_parts_text {i : Item} {raw : String} (h : i.parts = [.text raw]) :
    ∃ span, i = .leaf (.text raw span) := by
  cases i with
  | directive d span => simp [parts] at h
  | leaf n =>
    cases n with
    | text raw' span =>
      obtain rfl : raw' = raw := by simpa [parts, Node.parts] using h
      exact ⟨span, rfl⟩
    | expression => simp [parts, Node.parts] at h
    | conditional _ _ elseNodes _ => cases elseNodes <;> simp [parts, Node.parts] at h
    | loop => simp [parts, Node.parts] at h

theorem eq_of_parts_expression {i : Item} {path : Path} {calls : List Call}
    (h : i.parts = [.expression path calls]) :
    ∃ filters span, i = .leaf (.expression path filters span) ∧
      filters.map FilterCall.call = calls := by
  cases i with
  | directive d span => simp [parts] at h
  | leaf n =>
    cases n with
    | text => simp [parts, Node.parts] at h
    | expression path' filters span =>
      obtain ⟨rfl, hf⟩ := by simpa [parts, Node.parts] using h
      exact ⟨filters, span, rfl, hf⟩
    | conditional _ _ elseNodes _ => cases elseNodes <;> simp [parts, Node.parts] at h
    | loop => simp [parts, Node.parts] at h

theorem eq_of_parts_directive {i : Item} {d : Directive} (h : i.parts = [.directive d]) :
    ∃ span, i = .directive d span := by
  cases i with
  | directive d' span =>
    obtain rfl : d' = d := by simpa [parts] using h
    exact ⟨span, rfl⟩
  | leaf n =>
    cases n with
    | text => simp [parts, Node.parts] at h
    | expression => simp [parts, Node.parts] at h
    | conditional _ _ elseNodes _ => cases elseNodes <;> simp [parts, Node.parts] at h
    | loop => simp [parts, Node.parts] at h

theorem eq_directive_cons {is : List Item} {d : Directive} {ps : List (List Part)}
    (h : is.map parts = [.directive d] :: ps) :
    ∃ span is', is = .directive d span :: is' ∧ is'.map parts = ps := by
  obtain ⟨i, is', rfl, hi, hs⟩ := List.map_eq_cons_iff.mp h
  obtain ⟨span, rfl⟩ := eq_of_parts_directive hi
  exact ⟨span, is', rfl, hs⟩

theorem eq_append_directive_cons {is : List Item} {qs ps : List (List Part)} {d : Directive}
    (h : is.map parts = qs ++ [.directive d] :: ps) : ∃ is₁ span is₂,
      is = is₁ ++ .directive d span :: is₂ ∧ is₁.map parts = qs ∧ is₂.map parts = ps := by
  obtain ⟨is₁, is, rfl, hs₁, h⟩ := List.map_eq_append_iff.mp h
  obtain ⟨span, is₂, rfl, hs₂⟩ := eq_directive_cons h
  exact ⟨is₁, span, is₂, rfl, hs₁, hs₂⟩

end Item

theorem FilterCall.map_bare_eq {fs gs : List FilterCall} (h : fs.map call = gs.map call) :
    fs.map bare = gs.map bare := by
  have hb : ∀ f : FilterCall, f.bare = ⟨f.call.1, f.call.2, .zero⟩ := fun _ => rfl
  have hm : ∀ fs : List FilterCall,
      fs.map bare = (fs.map call).map fun c => ⟨c.1, c.2, Text.Span.zero⟩ := by
    intro fs
    rw [List.map_map]
    exact List.map_congr_left fun f _ => hb f
  rw [hm, hm, h]

namespace Builder

theorem place_openIf (b : Builder) (path : Path) (span : Span) :
    b.place (.directive (.openIf path) span) =
      .ok (b.openBlock (.conditional path [] none) ⟨"if", span.start⟩) := rfl

theorem place_openFor (b : Builder) (binding : String) (collection : Path) (span : Span) :
    b.place (.directive (.openFor binding collection) span) =
      .ok (b.openBlock (.loop collection binding []) ⟨"for", span.start⟩) := rfl

theorem place_middle (b : Builder) (path : Path) (ns : List Node) (mark : Mark) (span : Span) :
    (b.openBlock (.conditional path ns none) mark).place (.directive .middle span) =
      .ok (b.openBlock (.conditional path ns (some [])) mark) := rfl

theorem place_closeIf (b : Builder) (path : Path) (ns : List Node) (ms : Option (List Node))
    (mark : Mark) (span : Span) :
    (b.openBlock (.conditional path ns ms) mark).place (.directive .closeIf span) =
      .ok (b.push (.conditional path ns ms ⟨mark.offset, span.stop⟩)) := rfl

theorem place_closeFor (b : Builder) (collection : Path) (binding : String) (ns : List Node)
    (mark : Mark) (span : Span) :
    (b.openBlock (.loop collection binding ns) mark).place (.directive .closeFor span) =
      .ok (b.push (.loop collection binding ns ⟨mark.offset, span.stop⟩)) := rfl

/-- What is read inside an open block goes into its frame. -/
theorem foldlM_block {b b' : Builder} {frame frame' : Frame} {mark : Mark} {is₁ : List Item}
    {ns : List Node}
    (hr : is₁.foldlM place (b.openBlock frame mark) = .ok ((b.openBlock frame mark).pushAll ns))
    (hf : ns.foldl (fun f n => f.push n) frame = frame') {i : Item}
    (hi : (b.openBlock frame' mark).place i = .ok b') (is : List Item) :
    (is₁ ++ i :: is).foldlM place (b.openBlock frame mark) = is.foldlM place b' := by
  rw [pushAll_openBlock, hf] at hr
  rw [List.foldlM_append, hr, ok_bind, List.foldlM_cons, hi, ok_bind]

end Builder

/-- What a row of items is made into: a block of all that stands between its directives. -/
inductive Builds : List Item → List Node → Prop where
  | nil : Builds [] []
  | leaf (n : Node) {is : List Item} {ns : List Node} (h : Builds is ns) :
    Builds (.leaf n :: is) (n :: ns)
  | conditional (path : Path) (opening closing : Span) {is₁ is : List Item} {ns₁ ns : List Node}
    (h₁ : Builds is₁ ns₁) (h : Builds is ns) :
    Builds (.directive (.openIf path) opening :: (is₁ ++ .directive .closeIf closing :: is))
      (.conditional path ns₁ none ⟨opening.start, closing.stop⟩ :: ns)
  | alternative (path : Path) (opening middle closing : Span) {is₁ is₂ is : List Item}
    {ns₁ ns₂ ns : List Node} (h₁ : Builds is₁ ns₁) (h₂ : Builds is₂ ns₂) (h : Builds is ns) :
    Builds (.directive (.openIf path) opening ::
        (is₁ ++ .directive .middle middle :: (is₂ ++ .directive .closeIf closing :: is)))
      (.conditional path ns₁ (some ns₂) ⟨opening.start, closing.stop⟩ :: ns)
  | loop (binding : String) (collection : Path) (opening closing : Span) {is₁ is : List Item}
    {ns₁ ns : List Node} (h₁ : Builds is₁ ns₁) (h : Builds is ns) :
    Builds (.directive (.openFor binding collection) opening ::
        (is₁ ++ .directive .closeFor closing :: is))
      (.loop collection binding ns₁ ⟨opening.start, closing.stop⟩ :: ns)

/-- The nodes are added to the innermost open block, or to the root. -/
theorem Builds.run {is : List Item} {ns : List Node} (h : Builds is ns) (b : Builder) :
    is.foldlM Builder.place b = .ok (b.pushAll ns) := by
  induction h generalizing b with
  | nil => rfl
  | leaf n _ ih => exact ih (b.push n)
  | conditional path opening closing _ _ ih₁ ih =>
    rw [List.foldlM_cons, Builder.place_openIf, ok_bind, Builder.foldlM_block (ih₁ _)
      (Frame.foldl_push_conditional path [] _) (Builder.place_closeIf ..), ih]
    rfl
  | alternative path opening middle closing _ _ _ ih₁ ih₂ ih =>
    rw [List.foldlM_cons, Builder.place_openIf, ok_bind, Builder.foldlM_block (ih₁ _)
      (Frame.foldl_push_conditional path [] _) (Builder.place_middle ..), List.nil_append,
      Builder.foldlM_block (ih₂ _) (Frame.foldl_push_alternative path _ [] _)
      (Builder.place_closeIf ..), ih]
    rfl
  | loop binding collection opening closing _ _ ih₁ ih =>
    rw [List.foldlM_cons, Builder.place_openFor, ok_bind, Builder.foldlM_block (ih₁ _)
      (Frame.foldl_push_loop collection binding [] _) (Builder.place_closeFor ..), ih]
    rfl

theorem Builds.parts {is : List Item} {ns : List Node} (h : Builds is ns) :
    Node.allParts ns = is.flatMap Item.parts := by
  induction h with
  | nil => rfl
  | leaf n _ ih => simp [ih, Item.parts]
  | conditional _ _ _ _ _ ih₁ ih => simp [ih₁, ih, Item.parts, Node.parts]
  | alternative _ _ _ _ _ _ _ ih₁ ih₂ ih => simp [ih₁, ih₂, ih, Item.parts, Node.parts]
  | loop _ _ _ _ _ _ ih₁ ih => simp [ih₁, ih, Item.parts, Node.parts]

/-- Items that write a row of nodes are made into nodes that differ from it in their places
alone. -/
theorem exists_builds (t : List Node) {is : List Item}
    (h : is.map Item.parts = (Node.allParts t).map ([·])) :
    ∃ ns, Builds is ns ∧ Node.allBare ns = Node.allBare t := by
  induction t using Tree.induction generalizing is with
  | nil =>
    obtain rfl : is = [] := by simpa using h
    exact ⟨[], .nil, rfl⟩
  | text raw span ns ih =>
    obtain ⟨i, is, rfl, hi, hs⟩ := List.map_eq_cons_iff.mp h
    obtain ⟨span', rfl⟩ := Item.eq_of_parts_text hi
    obtain ⟨ns', hn, hb⟩ := ih hs
    exact ⟨_, .leaf (.text raw span') hn, by simp [Node.allBare, Node.bare, hb]⟩
  | expression path calls span ns ih =>
    obtain ⟨i, is, rfl, hi, hs⟩ := List.map_eq_cons_iff.mp h
    obtain ⟨filters, span', rfl, hf⟩ := Item.eq_of_parts_expression hi
    obtain ⟨ns', hn, hb⟩ := ih hs
    exact ⟨_, .leaf (.expression path filters span') hn,
      by simp [Node.allBare, Node.bare, hb, FilterCall.map_bare_eq hf]⟩
  | conditional path thenNodes span ns ih₁ ih =>
    simp only [Node.allParts_cons, Node.parts, List.cons_append, List.append_assoc, List.map_cons,
      List.map_append, List.nil_append] at h
    obtain ⟨opening, is, rfl, hblock⟩ := Item.eq_directive_cons h
    obtain ⟨is₁, closing, is, rfl, hs₁, hs⟩ := Item.eq_append_directive_cons hblock
    obtain ⟨ns₁, hn₁, hb₁⟩ := ih₁ hs₁
    obtain ⟨ns', hn, hb⟩ := ih hs
    exact ⟨_, .conditional path opening closing hn₁ hn, by simp [Node.allBare, Node.bare, hb, hb₁]⟩
  | alternative path thenNodes elseNodes span ns ih₁ ih₂ ih =>
    simp only [Node.allParts_cons, Node.parts, List.cons_append, List.append_assoc, List.map_cons,
      List.map_append, List.nil_append] at h
    obtain ⟨opening, is, rfl, hblock⟩ := Item.eq_directive_cons h
    obtain ⟨is₁, middle, is, rfl, hs₁, hrest⟩ := Item.eq_append_directive_cons hblock
    obtain ⟨is₂, closing, is, rfl, hs₂, hs⟩ := Item.eq_append_directive_cons hrest
    obtain ⟨ns₁, hn₁, hb₁⟩ := ih₁ hs₁
    obtain ⟨ns₂, hn₂, hb₂⟩ := ih₂ hs₂
    obtain ⟨ns', hn, hb⟩ := ih hs
    exact ⟨_, .alternative path opening middle closing hn₁ hn₂ hn,
      by simp [Node.allBare, Node.bare, hb, hb₁, hb₂]⟩
  | loop collection binding body span ns ih₁ ih =>
    simp only [Node.allParts_cons, Node.parts, List.cons_append, List.append_assoc, List.map_cons,
      List.map_append, List.nil_append] at h
    obtain ⟨opening, is, rfl, hblock⟩ := Item.eq_directive_cons h
    obtain ⟨is₁, closing, is, rfl, hs₁, hs⟩ := Item.eq_append_directive_cons hblock
    obtain ⟨ns₁, hn₁, hb₁⟩ := ih₁ hs₁
    obtain ⟨ns', hn, hb⟩ := ih hs
    exact ⟨_, .loop binding collection opening closing hn₁ hn,
      by simp [Node.allBare, Node.bare, hb, hb₁]⟩

end Proforma
