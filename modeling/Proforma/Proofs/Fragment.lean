import Proforma.Proofs.Roundtrip
import Proforma.Proposal.Basic

/-!
The tree that a proposal is meant to be, and the pieces that its text is written in.
-/
namespace Proforma.Proposal

open Text

/-- The path that is shown for an attribute. -/
def shownPath (path : Path) (a : Attribute) : Path :=
  match a.kind with
  | .reference => ⟨path.head, path.tail ++ [.field (String.ofList (displayField a))]⟩
  | _ => path

def shownCalls (o : Options) (a : Attribute) : List Call :=
  match a.kind with
  | .currency => [(.currency, [])]
  | .date => [(.date, [])]
  | .moment => [(.datetime, [.text o.momentPattern])]
  | _ => []

def snippetNode (o : Options) (path : Path) (a : Attribute) : Node :=
  .expression (shownPath path a) ((shownCalls o a).map fun c => ⟨c.1, c.2, .zero⟩) .zero

def itemPath : Path := ⟨String.ofList itemName, []⟩

def itemFieldPath (f : Attribute) : Path := ⟨String.ofList itemName, [.field f.name]⟩

def itemNodes (o : Options) (a : Attribute) : List Node :=
  match itemFields a with
  | [] => [.expression itemPath [] .zero]
  | fields => (fields.map fun f => snippetNode o (itemFieldPath f) f).intersperse (.text ", " .zero)

def label (a : Attribute) : List Char := plain a.displayLabel.toList

def attributePath (a : Attribute) : Path := ⟨a.name, []⟩

def bodyNodes (o : Options) (a : Attribute) : List Node :=
  match a.kind with
  | .collection =>
    [.text (String.ofList ("\n### ".toList ++ label a ++ "\n\n".toList)) .zero,
      .loop (attributePath a) (String.ofList itemName)
        (.text "- " .zero :: itemNodes o a ++ [.text "\n" .zero]) .zero,
      .text "\n" .zero]
  | _ =>
    [.text (String.ofList ("- **".toList ++ label a ++ ":** ".toList)) .zero,
      snippetNode o (attributePath a) a, .text "\n" .zero]

def entryNode (o : Options) (a : Attribute) : Node :=
  .conditional (attributePath a) (bodyNodes o a) none .zero

/-- The tree of a proposal. -/
def fragmentTree (o : Options) : List Attribute → Tree
  | [] => []
  | as =>
    .text (String.ofList ("\n## ".toList ++ plain o.sectionTitle.toList ++ "\n\n".toList)) .zero ::
      as.map (entryNode o)

def expressionChunk (content : List Char) : Chunk :=
  .directive .expression (' ' :: content ++ [' '])

def tagChunk (content : List Char) : Chunk := .directive .tag (' ' :: content ++ [' '])

def momentContent (o : Options) (path : List Char) : List Char :=
  path ++ " | datetime(".toList ++ quoted o.momentPattern.toList ++ [')']

def snippetContent (o : Options) (path : List Char) (a : Attribute) : List Char :=
  match a.kind with
  | .text | .number | .collection => path
  | .currency => path ++ " | currency".toList
  | .date => path ++ " | date".toList
  | .moment => momentContent o path
  | .reference => path ++ '.' :: displayField a

def snippetChunk (o : Options) (path : List Char) (a : Attribute) : Chunk :=
  expressionChunk (snippetContent o path a)

def itemChunks (o : Options) (a : Attribute) : List Chunk :=
  match itemFields a with
  | [] => [expressionChunk itemName]
  | fields =>
    (fields.map fun f => snippetChunk o (itemName ++ '.' :: f.name.toList) f).intersperse
      (.text [',', ' '])

def bodyChunks (o : Options) (a : Attribute) : List Chunk :=
  match a.kind with
  | .collection =>
    [.text ("\n### ".toList ++ label a ++ "\n\n".toList),
      tagChunk ("for ".toList ++ itemName ++ " in ".toList ++ a.name.toList)] ++
      (.text "- ".toList :: itemChunks o a ++ [.text "\n".toList]) ++
      [tagChunk "endfor".toList, .text "\n".toList]
  | _ =>
    [.text ("- **".toList ++ label a ++ ":** ".toList), snippetChunk o a.name.toList a,
      .text "\n".toList]

def entryChunks (o : Options) (a : Attribute) : List Chunk :=
  tagChunk ("if ".toList ++ a.name.toList) :: bodyChunks o a ++ [tagChunk "endif".toList]

/-- The pieces of a proposal's text. -/
def fragmentChunks (o : Options) : List Attribute → List Chunk
  | [] => []
  | as =>
    .text ("\n## ".toList ++ plain o.sectionTitle.toList ++ "\n\n".toList) ::
      as.flatMap (entryChunks o)

@[simp] theorem source_expressionChunk (content : List Char) :
    (expressionChunk content).source = expression content := by
  simp [expressionChunk, expression, Chunk.source, Delimiter.opener, Delimiter.closer]

@[simp] theorem source_tagChunk (content : List Char) :
    (tagChunk content).source = tag content := by
  simp [tagChunk, tag, Chunk.source, Delimiter.opener, Delimiter.closer]

theorem source_snippetChunk {o : Options} {path : List Char} {a : Attribute}
    (h : a.kind ≠ .collection) : (snippetChunk o path a).source = snippet o path a := by
  rw [snippetChunk, source_expressionChunk]
  unfold snippet snippetContent
  cases hk : a.kind with
  | collection => exact absurd hk h
  | _ => simp [momentContent]

theorem kind_of_mem_itemFields {a f : Attribute} (h : f ∈ itemFields a) : f.kind ≠ .collection := by
  simp only [itemFields, List.mem_filter, Bool.and_eq_true, bne_iff_ne] at h
  exact h.2.1

theorem isIdentifier_of_mem_itemFields {a f : Attribute} (h : f ∈ itemFields a) :
    isIdentifier f.name.toList = true := by
  simp only [itemFields, List.mem_filter, Bool.and_eq_true, bne_iff_ne] at h
  exact h.2.2

theorem sourceOf_intersperse (sep : Chunk) (cs : List Chunk) :
    sourceOf (cs.intersperse sep) = sep.source.intercalate (cs.map Chunk.source) := by
  induction cs with
  | nil => rfl
  | cons c cs ih =>
    cases cs with
    | nil => simp
    | cons c' cs =>
      simp only [List.map_cons, List.intercalate, List.intersperse_cons_cons, List.flatten_cons,
        sourceOf_cons] at ih ⊢
      rw [ih]

theorem sourceOf_itemChunks (o : Options) (a : Attribute) :
    sourceOf (itemChunks o a) = itemLine o a := by
  have hk : ∀ f ∈ itemFields a, f.kind ≠ .collection := fun f => kind_of_mem_itemFields
  unfold itemChunks itemLine
  cases hf : itemFields a with
  | nil => simp
  | cons f fs =>
    rw [hf] at hk
    dsimp only
    rw [sourceOf_intersperse, List.map_map]
    exact congrArg _ (List.map_congr_left fun f hf => source_snippetChunk (hk f hf))

theorem body_of_collection (o : Options) {a : Attribute} (h : a.kind = .collection) :
    body o a = "\n### ".toList ++ label a ++ "\n\n".toList ++
      tag ("for ".toList ++ itemName ++ " in ".toList ++ a.name.toList) ++ "- ".toList ++
      itemLine o a ++ "\n".toList ++ tag "endfor".toList ++ "\n".toList := by
  simp only [body, h, label]

theorem body_of_ne (o : Options) {a : Attribute} (h : a.kind ≠ .collection) :
    body o a = "- **".toList ++ label a ++ ":** ".toList ++ snippet o a.name.toList a ++
      "\n".toList := by
  unfold body
  split
  · contradiction
  · rfl

theorem sourceOf_bodyChunks (o : Options) (a : Attribute) :
    sourceOf (bodyChunks o a) = body o a := by
  unfold bodyChunks
  split
  · next hk => simp [body_of_collection o hk, sourceOf_itemChunks]
  · next hk => simp [body_of_ne o hk, source_snippetChunk hk]

theorem sourceOf_entryChunks (o : Options) (a : Attribute) :
    sourceOf (entryChunks o a) = entry o a := by
  simp [entryChunks, entry, sourceOf_bodyChunks]

/-- The text of a proposal is the text of its pieces. -/
theorem sourceOf_fragmentChunks (o : Options) (as : List Attribute) :
    sourceOf (fragmentChunks o as) = fragmentText o as := by
  have he : sourceOf (as.flatMap (entryChunks o)) = as.flatMap (entry o) := by
    induction as with
    | nil => rfl
    | cons a as ih => simp [sourceOf_entryChunks, ih]
  cases as with
  | nil => rfl
  | cons a as => simp only [fragmentChunks, fragmentText, sourceOf_cons, Chunk.source_text, he]

theorem quoted_eq (text : List Char) :
    quoted text = '\x27' :: escaped '\x27' text ++ ['\x27'] := by
  simp [quoted, escaped]

theorem written_append_field {p : Path} {cs : List Char} (h : p.Written cs) (name : List Char) :
    (Path.mk p.head (p.tail ++ [.field (String.ofList name)])).Written (cs ++ '.' :: name) := by
  obtain ⟨hs⟩ := h
  have hf : List.Forall₂ Segment.Written [.field (String.ofList name)] ['.' :: name] := by
    have := Segment.Written.field (String.ofList name)
    rw [String.toList_ofList] at this
    exact .cons this .nil
  have hw := Path.Written.intro (p := ⟨p.head, p.tail ++ [.field (String.ofList name)]⟩)
    (List.rel_append hs hf)
  simpa using hw

theorem expression_bare {p : Path} {cs : List Char} (h : p.Written cs) :
    ExpressionWritten p [] (' ' :: cs ++ [' ']) := by
  have hg : allBlank [' '] = true := rfl
  exact ExpressionWritten.intro hg h (.nil hg)

theorem expression_call {p : Path} {cs call : List Char} {c : Call} (h : p.Written cs)
    (hc : Call.Written c call) :
    ExpressionWritten p [c] (' ' :: (cs ++ (" | ".toList ++ call)) ++ [' ']) := by
  have hg : allBlank [' '] = true := rfl
  have hw := ExpressionWritten.intro hg h (.cons hg hg hc (.nil hg))
  simpa using hw

/-- The expression of an attribute is written as its snippet. -/
theorem snippet_written (o : Options) {p : Path} {cs : List Char} (h : p.Written cs)
    {a : Attribute} (hk : a.kind ≠ .collection) :
    ExpressionWritten (shownPath p a) (shownCalls o a) (' ' :: snippetContent o cs a ++ [' ']) := by
  unfold shownPath shownCalls snippetContent
  cases ha : a.kind with
  | text => exact expression_bare h
  | number => exact expression_bare h
  | currency => exact expression_call h (.bare .currency)
  | date => exact expression_call h (.bare .date)
  | moment =>
    have hg : allBlank [] = true := rfl
    have hq : isQuote '\x27' = true := rfl
    have hc := Call.Written.applied .datetime hg (.last hg (.text o.momentPattern hq) hg)
    have hw := expression_call h hc
    simpa [momentContent, quoted_eq, Filter.name] using hw
  | reference => exact expression_bare (written_append_field h _)
  | collection => exact absurd ha hk

/-- The pieces that show moments in time. -/
inductive Momentary (o : Options) : Part → Chunk → Prop where
  | intro {p : Path} {cs : List Char} (h : p.Written cs) (hp : p.WellFormed) :
    Momentary o (.expression p [(.datetime, [.text o.momentPattern])])
      (expressionChunk (momentContent o cs))

/-- A part is written in a piece that is read back, except that moments may be among them. -/
def Drafted (o : Options) (moments : Prop) (q : Part) (c : Chunk) : Prop :=
  q.Written c ∧ (q.WellFormed ∧ c.Undelimited ∨ moments ∧ Momentary o q c)

def DraftedIn (o : Options) (moments : Prop) (ns : List Node) (cs : List Chunk) : Prop :=
  List.Forall₂ (Drafted o moments) (Node.allParts ns) cs

section

variable {o : Options} {moments : Prop}

theorem Drafted.mono {moments' : Prop} (h : moments → moments') {q : Part} {c : Chunk}
    (hd : Drafted o moments q c) : Drafted o moments' q c :=
  ⟨hd.1, hd.2.imp_right fun hm => ⟨h hm.1, hm.2⟩⟩

theorem DraftedIn.mono {moments' : Prop} (h : moments → moments') {ns : List Node}
    {cs : List Chunk} (hd : DraftedIn o moments ns cs) : DraftedIn o moments' ns cs :=
  List.Forall₂.imp (fun _ _ => Drafted.mono h) hd

theorem DraftedIn.append {ns ms : List Node} {cs ds : List Chunk} (h : DraftedIn o moments ns cs)
    (h' : DraftedIn o moments ms ds) : DraftedIn o moments (ns ++ ms) (cs ++ ds) := by
  unfold DraftedIn at h h' ⊢
  rw [Node.allParts_append]
  exact List.rel_append h h'

theorem unopened_of_not_mem {cs : List Char} (h : '{' ∉ cs) : Unopened cs := by
  intro d hd
  obtain ⟨b, hb⟩ := d.opener_eq
  rw [hb] at hd
  exact h (hd.subset (by simp))

theorem drafted_text {raw : List Char} (hr : raw ≠ []) (hu : '{' ∉ raw) :
    DraftedIn o moments [.text (String.ofList raw) .zero] [.text raw] := by
  have hw := Part.Written.text (String.ofList raw)
  rw [String.toList_ofList] at hw
  have hq : (Part.text (String.ofList raw)).WellFormed := by
    refine ⟨by simpa using hr, ?_⟩
    rw [String.toList_ofList]
    exact unopened_of_not_mem hu
  exact .cons ⟨hw, .inl ⟨hq, trivial⟩⟩ .nil

theorem drafted_tag {d : Directive} {content : List Char} (h : d.Written (' ' :: content ++ [' ']))
    (hd : d.WellFormed) : Drafted o moments (.directive d) (tagChunk content) :=
  ⟨.directive h, .inl ⟨hd, trivial⟩⟩

theorem drafted_conditional {p : Path} {content : List Char} {ns : List Node} {cs : List Chunk}
    (h : Directive.Written (.openIf p) (' ' :: content ++ [' '])) (hp : p.WellFormed)
    (hs : DraftedIn o moments ns cs) :
    DraftedIn o moments [.conditional p ns none .zero]
      (tagChunk content :: cs ++ [tagChunk "endif".toList]) := by
  have hg : allBlank [' '] = true := rfl
  have hclose : Drafted o moments (.directive .closeIf) (tagChunk "endif".toList) :=
    drafted_tag (.closeIf hg hg) trivial
  simp only [DraftedIn, Node.allParts, Node.parts, List.append_nil]
  exact .cons (drafted_tag h hp) (List.rel_append hs (.cons hclose .nil))

theorem drafted_loop {p : Path} {binding : String} {content : List Char} {ns : List Node}
    {cs : List Chunk} (h : Directive.Written (.openFor binding p) (' ' :: content ++ [' ']))
    (hp : (Directive.openFor binding p).WellFormed) (hs : DraftedIn o moments ns cs) :
    DraftedIn o moments [.loop p binding ns .zero]
      (tagChunk content :: cs ++ [tagChunk "endfor".toList]) := by
  have hg : allBlank [' '] = true := rfl
  have hclose : Drafted o moments (.directive .closeFor) (tagChunk "endfor".toList) :=
    drafted_tag (.closeFor hg hg) trivial
  simp only [DraftedIn, Node.allParts, Node.parts, List.append_nil]
  exact .cons (drafted_tag h hp) (List.rel_append hs (.cons hclose .nil))

end

theorem isIdentifier_displayField (a : Attribute) : isIdentifier (displayField a) = true := by
  unfold displayField
  split
  · split
    · assumption
    · decide
  · decide

theorem wellFormed_shownPath {p : Path} (hp : p.WellFormed) (a : Attribute) :
    (shownPath p a).WellFormed := by
  unfold shownPath
  split
  · refine ⟨hp.1, fun s hs => ?_⟩
    rcases List.mem_append.mp hs with hs | hs
    · exact hp.2 s hs
    · obtain rfl := List.mem_singleton.mp hs
      show isIdentifier (String.ofList (displayField a)).toList = true
      rw [String.toList_ofList]
      exact isIdentifier_displayField a
  · exact hp

theorem clear_snippetContent {o : Options} {cs : List Char} (hc : Clear cs) {a : Attribute}
    (hm : a.kind ≠ .moment) : Clear (snippetContent o cs a) := by
  have hcurrency : Clear " | currency".toList := by decide
  have hdate : Clear " | date".toList := by decide
  have hfield : Clear ('.' :: displayField a) :=
    .cons (by decide) (clear_of_isIdentifier (isIdentifier_displayField a))
  unfold snippetContent
  cases hk : a.kind with
  | text => exact hc
  | number => exact hc
  | collection => exact hc
  | currency => exact hc.append hcurrency
  | date => exact hc.append hdate
  | moment => exact absurd hk hm
  | reference => exact hc.append hfield

theorem wellFormed_shownCalls {o : Options} {a : Attribute} (hm : a.kind ≠ .moment) :
    ∀ c ∈ shownCalls o a, Call.WellFormed c := by
  unfold shownCalls
  cases hk : a.kind with
  | moment => exact absurd hk hm
  | currency => simp only [List.mem_singleton, forall_eq]; decide
  | date => simp only [List.mem_singleton, forall_eq]; decide
  | _ => simp

theorem parts_snippetNode (o : Options) (p : Path) (a : Attribute) :
    (snippetNode o p a).parts = [.expression (shownPath p a) (shownCalls o a)] := by
  simp [snippetNode, Node.parts, FilterCall.call, Function.comp_def]

theorem snippet_drafted (o : Options) {p : Path} {cs : List Char} (h : p.Written cs)
    (hp : p.WellFormed) {a : Attribute} (hk : a.kind ≠ .collection) :
    DraftedIn o (a.kind = .moment) [snippetNode o p a] [snippetChunk o cs a] := by
  have hw := Part.Written.expression (snippet_written o h hk)
  simp only [DraftedIn, Node.allParts, parts_snippetNode, List.append_nil]
  refine .cons ⟨hw, ?_⟩ .nil
  by_cases hm : a.kind = .moment
  · refine .inr ⟨hm, ?_⟩
    simp only [shownPath, shownCalls, snippetChunk, snippetContent, hm]
    exact .intro h hp
  · refine .inl ⟨⟨wellFormed_shownPath hp a, wellFormed_shownCalls hm⟩, ?_⟩
    have hc := clear_snippetContent (o := o) (clear_path h hp) hm
    exact (Clear.cons (by decide) (hc.append (.cons (by decide) (by simp [Clear])))).undelimited

theorem written_itemPath : itemPath.Written itemName := by
  have h := Path.Written.intro (p := itemPath) .nil
  simpa [itemPath] using h

theorem wellFormed_itemPath : itemPath.WellFormed := by decide

theorem written_itemFieldPath (f : Attribute) :
    (itemFieldPath f).Written (itemName ++ '.' :: f.name.toList) := by
  simpa [itemPath, itemFieldPath] using written_append_field written_itemPath f.name.toList

theorem wellFormed_itemFieldPath {f : Attribute} (h : isIdentifier f.name.toList = true) :
    (itemFieldPath f).WellFormed := by
  refine ⟨wellFormed_itemPath.1, fun s hs => ?_⟩
  obtain rfl := List.mem_singleton.mp hs
  exact h

theorem written_attributePath (a : Attribute) : (attributePath a).Written a.name.toList := by
  simpa [attributePath] using Path.Written.intro (p := attributePath a) .nil

theorem wellFormed_attributePath {a : Attribute} (h : isIdentifier a.name.toList = true) :
    (attributePath a).WellFormed := ⟨h, by simp [attributePath]⟩

/-- A collection's items are shown with a moment if one of their fields is one. -/
def ItemsShowMoment (a : Attribute) : Prop := ∃ f ∈ itemFields a, f.kind = .moment

/-- A moment in time is shown for the attribute. -/
def ShowsMoment (a : Attribute) : Prop :=
  a.kind = .moment ∨ a.kind = .collection ∧ ItemsShowMoment a

theorem fields_drafted (o : Options) (fields : List Attribute)
    (hk : ∀ f ∈ fields, f.kind ≠ .collection ∧ isIdentifier f.name.toList = true) :
    DraftedIn o (∃ f ∈ fields, f.kind = .moment)
      ((fields.map fun f => snippetNode o (itemFieldPath f) f).intersperse (.text ", " .zero))
      ((fields.map fun f => snippetChunk o (itemName ++ '.' :: f.name.toList) f).intersperse
        (.text [',', ' '])) := by
  induction fields with
  | nil => exact .nil
  | cons f fields ih =>
    have hf := snippet_drafted o (written_itemFieldPath f)
      (wellFormed_itemFieldPath (hk f (by simp)).2) (hk f (by simp)).1
    have hfirst : f.kind = .moment → ∃ g ∈ f :: fields, g.kind = .moment :=
      fun hm => ⟨f, by simp, hm⟩
    have hrest : (∃ g ∈ fields, g.kind = .moment) → ∃ g ∈ f :: fields, g.kind = .moment :=
      fun ⟨g, hg, hm⟩ => ⟨g, List.mem_cons_of_mem _ hg, hm⟩
    have ih := ih fun g hg => hk g (List.mem_cons_of_mem _ hg)
    cases fields with
    | nil => exact hf.mono hfirst
    | cons g fields =>
      have hsep : DraftedIn o (∃ g' ∈ f :: g :: fields, g'.kind = .moment) [.text ", " .zero]
          [.text [',', ' ']] := drafted_text (by simp) (by decide)
      exact ((hf.mono hfirst).append hsep).append (ih.mono hrest)

theorem itemNodes_drafted (o : Options) (a : Attribute) :
    DraftedIn o (ItemsShowMoment a) (itemNodes o a) (itemChunks o a) := by
  have hk : ∀ f ∈ itemFields a, f.kind ≠ .collection ∧ isIdentifier f.name.toList = true :=
    fun f hf => ⟨kind_of_mem_itemFields hf, isIdentifier_of_mem_itemFields hf⟩
  unfold ItemsShowMoment itemNodes itemChunks
  cases hf : itemFields a with
  | nil =>
    have hw := Part.Written.expression (expression_bare written_itemPath)
    exact .cons ⟨hw, .inl ⟨⟨wellFormed_itemPath, by simp⟩, by decide⟩⟩ .nil
  | cons f fields =>
    rw [hf] at hk
    exact fields_drafted o (f :: fields) hk

theorem not_mem_label (a : Attribute) : '{' ∉ label a := by
  simp [label, plain]

theorem bodyNodes_of_collection (o : Options) {a : Attribute} (h : a.kind = .collection) :
    bodyNodes o a =
      [.text (String.ofList ("\n### ".toList ++ label a ++ "\n\n".toList)) .zero,
        .loop (attributePath a) (String.ofList itemName)
          (.text "- " .zero :: itemNodes o a ++ [.text "\n" .zero]) .zero,
        .text "\n" .zero] := by
  simp only [bodyNodes, h]

theorem bodyNodes_of_ne (o : Options) {a : Attribute} (h : a.kind ≠ .collection) :
    bodyNodes o a =
      [.text (String.ofList ("- **".toList ++ label a ++ ":** ".toList)) .zero,
        snippetNode o (attributePath a) a, .text "\n" .zero] := by
  unfold bodyNodes
  split
  · contradiction
  · rfl

theorem written_if (a : Attribute) : Directive.Written (.openIf (attributePath a))
    (' ' :: ("if ".toList ++ a.name.toList) ++ [' ']) := by
  have hg : IsSpace [' '] := ⟨by simp, rfl⟩
  simpa using Directive.Written.openIf hg.2 hg (written_attributePath a) hg.2

theorem written_for (a : Attribute) :
    Directive.Written (.openFor (String.ofList itemName) (attributePath a))
      (' ' :: ("for ".toList ++ itemName ++ " in ".toList ++ a.name.toList) ++ [' ']) := by
  have hg : IsSpace [' '] := ⟨by simp, rfl⟩
  simpa using Directive.Written.openFor (String.ofList itemName) hg.2 hg hg hg
    (written_attributePath a) hg.2

theorem bodyNodes_drafted (o : Options) {a : Attribute} (h : isIdentifier a.name.toList = true) :
    DraftedIn o (ShowsMoment a) (bodyNodes o a) (bodyChunks o a) := by
  have hbreak : DraftedIn o (ShowsMoment a) [.text "\n" .zero] [.text "\n".toList] :=
    drafted_text (by simp) (by decide)
  unfold bodyChunks
  split
  · next hk =>
    have htitle : DraftedIn o (ShowsMoment a)
        [.text (String.ofList ("\n### ".toList ++ label a ++ "\n\n".toList)) .zero]
        [.text ("\n### ".toList ++ label a ++ "\n\n".toList)] :=
      drafted_text (by simp) (by simp [not_mem_label])
    have hdash : DraftedIn o (ShowsMoment a) [.text "- " .zero] [.text "- ".toList] :=
      drafted_text (by simp) (by decide)
    have hitems : DraftedIn o (ShowsMoment a) (itemNodes o a) (itemChunks o a) :=
      (itemNodes_drafted o a).mono fun hm => .inr ⟨hk, hm⟩
    have hloop := drafted_loop (written_for a)
      ⟨by decide, by decide, wellFormed_attributePath h⟩ ((hdash.append hitems).append hbreak)
    rw [bodyNodes_of_collection o hk]
    simpa using (htitle.append hloop).append hbreak
  · next hk =>
    have htitle : DraftedIn o (ShowsMoment a)
        [.text (String.ofList ("- **".toList ++ label a ++ ":** ".toList)) .zero]
        [.text ("- **".toList ++ label a ++ ":** ".toList)] :=
      drafted_text (by simp) (by simp [not_mem_label])
    have hsnippet : DraftedIn o (ShowsMoment a) [snippetNode o (attributePath a) a]
        [snippetChunk o a.name.toList a] :=
      (snippet_drafted o (written_attributePath a) (wellFormed_attributePath h) hk).mono .inl
    rw [bodyNodes_of_ne o hk]
    exact (htitle.append hsnippet).append hbreak

theorem entryNode_drafted (o : Options) {a : Attribute} (h : isIdentifier a.name.toList = true) :
    DraftedIn o (ShowsMoment a) [entryNode o a] (entryChunks o a) :=
  drafted_conditional (written_if a) (wellFormed_attributePath h) (bodyNodes_drafted o h)

/-- Every part of a proposal is read back from its piece, except perhaps moments. -/
theorem fragmentTree_drafted (o : Options) {as : List Attribute}
    (h : ∀ a ∈ as, isIdentifier a.name.toList = true) :
    DraftedIn o (∃ a ∈ as, ShowsMoment a) (fragmentTree o as) (fragmentChunks o as) := by
  have hentries : ∀ bs : List Attribute, (∀ b ∈ bs, b ∈ as) →
      DraftedIn o (∃ a ∈ as, ShowsMoment a) (bs.map (entryNode o))
        (bs.flatMap (entryChunks o)) := by
    intro bs hb
    induction bs with
    | nil => exact .nil
    | cons b bs ih =>
      have he : DraftedIn o (∃ a ∈ as, ShowsMoment a) [entryNode o b] (entryChunks o b) :=
        (entryNode_drafted o (h b (hb b (by simp)))).mono fun hm => ⟨b, hb b (by simp), hm⟩
      exact he.append (ih fun c hc => hb c (List.mem_cons_of_mem _ hc))
  have htitle : DraftedIn o (∃ a ∈ as, ShowsMoment a)
      [.text (String.ofList ("\n## ".toList ++ plain o.sectionTitle.toList ++ "\n\n".toList)) .zero]
      [.text ("\n## ".toList ++ plain o.sectionTitle.toList ++ "\n\n".toList)] :=
    drafted_text (by simp) (by simp [plain])
  cases as with
  | nil => exact .nil
  | cons a as =>
    simp only [fragmentTree, fragmentChunks]
    exact htitle.append (hentries (a :: as) fun _ hb => hb)

end Proforma.Proposal
