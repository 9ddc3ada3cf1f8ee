import Proforma.Proofs.Nesting
import Proforma.Proofs.Places
import Proforma.Proofs.Showing

/-!
What the nodes of a tree account for. The spans of the nodes tile the source, and each of them holds
what its node is written as: a text itself, an expression between its delimiters, a block its tags
and between them stretches that the nodes inside it tile.
-/
namespace Proforma

open Text

/-- The span holds a directive from its opener to the first closer after it. -/
def IsDirective (source : List Char) (span : Span) (d : Delimiter) (content : List Char) : Prop :=
  IsSlice source span (d.opener ++ content ++ d.closer) ∧ d.Encloses content

/-- The span holds the expression. -/
def IsExpression (source : List Char) (span : Span) (path : Path) (filters : List FilterCall) :
    Prop :=
  ∃ content, IsDirective source span .expression content ∧
    readExpression (span.stop - Delimiter.width) content = .ok (path, filters)

/-- The span holds the tag: its first word is the keyword, and it is read as the directive. -/
def IsTag (source : List Char) (span : Span) (d : Directive) : Prop :=
  ∃ content, IsDirective source span .tag content ∧ keywordOf content = d.keyword ∧
    readDirective content = .ok d

mutual

/-- The node's span holds what the node is written as. -/
def Node.Covers (source : List Char) : Node → Prop
  | .text raw span => IsSlice source span raw.toList
  | .expression path filters span => IsExpression source span path filters
  | .conditional path thenNodes none span => ∃ a b, IsTag source ⟨span.start, a⟩ (.openIf path) ∧
    Tiles (thenNodes.map Node.span) a b ∧ Node.AllCover source thenNodes ∧
    IsTag source ⟨b, span.stop⟩ .closeIf
  | .conditional path thenNodes (some elseNodes) span => ∃ a b c d,
    IsTag source ⟨span.start, a⟩ (.openIf path) ∧
    Tiles (thenNodes.map Node.span) a b ∧ Node.AllCover source thenNodes ∧
    IsTag source ⟨b, c⟩ .middle ∧
    Tiles (elseNodes.map Node.span) c d ∧ Node.AllCover source elseNodes ∧
    IsTag source ⟨d, span.stop⟩ .closeIf
  | .loop collection binding body span => ∃ a b,
    IsTag source ⟨span.start, a⟩ (.openFor binding collection) ∧
    Tiles (body.map Node.span) a b ∧ Node.AllCover source body ∧
    IsTag source ⟨b, span.stop⟩ .closeFor

def Node.AllCover (source : List Char) : List Node → Prop
  | [] => True
  | n :: ns => n.Covers source ∧ Node.AllCover source ns

end

namespace Item

def span : Item → Span
  | leaf node => node.span
  | directive _ span => span

/-- The item's span holds what the item is written as. -/
def Covers (source : List Char) : Item → Prop
  | leaf node => node.Covers source
  | directive d span => IsTag source span d

/-- The item of a piece covers the piece, wherever that stands in the source. -/
theorem covers_ofPiece {source before after : List Char} {c : Chunk} {i : Item}
    (hw : source = before ++ c.source ++ after) (hs : c.Sound)
    (h : ofPiece source (c.pieceAt (byteLength before)) = .ok i) :
    i.span = ⟨byteLength before, byteLength before + byteLength c.source⟩ ∧ i.Covers source := by
  cases c with
  | text raw =>
    obtain rfl := Except.ok.inj h
    refine ⟨rfl, ?_⟩
    show IsSlice source _ (String.ofList raw).toList
    rw [String.toList_ofList]
    exact ⟨before, after, hw, rfl, rfl⟩
  | directive d content =>
    have hstop : byteLength before + Delimiter.width + byteLength content + Delimiter.width =
        byteLength before + byteLength (d.opener ++ content ++ d.closer) := by
      simp only [byteLength_append, Delimiter.byteLength_opener, Delimiter.byteLength_closer]
      omega
    have hd : IsDirective source ⟨byteLength before,
        byteLength before + Delimiter.width + byteLength content + Delimiter.width⟩ d content :=
      ⟨⟨before, after, hw, rfl, hstop⟩, hs⟩
    cases d with
    | expression =>
      simp only [ofPiece, Chunk.pieceAt] at h
      split at h
      · next hr =>
        obtain rfl := Except.ok.inj h
        refine ⟨congrArg (Span.mk _) hstop, content, hd, ?_⟩
        rwa [Nat.add_sub_cancel]
      · simp at h
    | tag =>
      simp only [ofPiece, Chunk.pieceAt] at h
      split at h
      · next hr =>
        obtain rfl := Except.ok.inj h
        exact ⟨congrArg (Span.mk _) hstop, content, hd, (keyword_of_readDirective hr).symm, hr⟩
      · simp at h

end Item

/-- The items of pieces one after the other tile what the pieces make up. -/
theorem Means.covers {source before after : List Char} {cs : List Chunk} {is : List Item}
    (h : Means source (placed (byteLength before) cs) is)
    (hw : source = before ++ sourceOf cs ++ after) (hs : ∀ c ∈ cs, c.Sound) :
    Tiles (is.map Item.span) (byteLength before) (byteLength (before ++ sourceOf cs)) ∧
      ∀ i ∈ is, i.Covers source := by
  induction cs generalizing before is with
  | nil =>
    cases h
    simp [Tiles]
  | cons c cs ih =>
    cases h with
    | cons hi h =>
      rw [sourceOf_cons, ← List.append_assoc] at hw ⊢
      rw [← byteLength_append] at h
      obtain ⟨htiles, hcovers⟩ := ih h hw fun c' hc => hs c' (List.mem_cons_of_mem _ hc)
      rw [List.append_assoc] at hw
      obtain ⟨hspan, hcover⟩ := Item.covers_ofPiece hw (hs c (List.mem_cons_self ..)) hi
      rw [byteLength_append before] at htiles
      refine ⟨?_, List.forall_mem_cons.mpr ⟨hcover, hcovers⟩⟩
      rw [List.map_cons, hspan]
      exact ⟨rfl, Nat.le_add_right _ _, htiles⟩

/-- What a tiling row of items is made into tiles the same stretch. -/
theorem Builds.covers {source : List Char} {is : List Item} {ns : List Node} (h : Builds is ns)
    {start stop : Nat} (ht : Tiles (is.map Item.span) start stop)
    (hc : ∀ i ∈ is, i.Covers source) :
    Tiles (ns.map Node.span) start stop ∧ Node.AllCover source ns := by
  induction h generalizing start stop with
  | nil => exact ⟨ht, trivial⟩
  | leaf n _ ih =>
    obtain ⟨hn, hc⟩ := List.forall_mem_cons.mp hc
    obtain ⟨hstart, hle, ht⟩ := ht
    obtain ⟨htiles, hcover⟩ := ih ht hc
    exact ⟨⟨hstart, hle, htiles⟩, hn, hcover⟩
  | conditional path opening closing _ _ ih₁ ih =>
    -- both tags are items, so the nodes inside tile what is left between them
    simp only [List.forall_mem_cons, List.forall_mem_append] at hc
    obtain ⟨hopen, hc₁, hclose, hc⟩ := hc
    simp only [List.map_cons, List.map_append] at ht
    obtain ⟨rfl, hle, ht⟩ := ht
    obtain ⟨ht₁, hle', ht⟩ := ht.split
    obtain ⟨htiles₁, hcover₁⟩ := ih₁ ht₁ hc₁
    obtain ⟨htiles, hcover⟩ := ih ht hc
    exact ⟨⟨rfl, hle.trans hle', htiles⟩,
      ⟨_, _, hopen, htiles₁, hcover₁, hclose⟩, hcover⟩
  | alternative path opening middle closing _ _ _ ih₁ ih₂ ih =>
    simp only [List.forall_mem_cons, List.forall_mem_append] at hc
    obtain ⟨hopen, hc₁, hmiddle, hc₂, hclose, hc⟩ := hc
    simp only [List.map_cons, List.map_append] at ht
    obtain ⟨rfl, hle, ht⟩ := ht
    obtain ⟨ht₁, hle₁, ht⟩ := ht.split
    obtain ⟨ht₂, hle₂, ht⟩ := ht.split
    obtain ⟨htiles₁, hcover₁⟩ := ih₁ ht₁ hc₁
    obtain ⟨htiles₂, hcover₂⟩ := ih₂ ht₂ hc₂
    obtain ⟨htiles, hcover⟩ := ih ht hc
    exact ⟨⟨rfl, hle.trans (hle₁.trans hle₂), htiles⟩,
      ⟨_, _, _, _, hopen, htiles₁, hcover₁, hmiddle, htiles₂, hcover₂, hclose⟩, hcover⟩
  | loop binding collection opening closing _ _ ih₁ ih =>
    simp only [List.forall_mem_cons, List.forall_mem_append] at hc
    obtain ⟨hopen, hc₁, hclose, hc⟩ := hc
    simp only [List.map_cons, List.map_append] at ht
    obtain ⟨rfl, hle, ht⟩ := ht
    obtain ⟨ht₁, hle', ht⟩ := ht.split
    obtain ⟨htiles₁, hcover₁⟩ := ih₁ ht₁ hc₁
    obtain ⟨htiles, hcover⟩ := ih ht hc
    exact ⟨⟨rfl, hle.trans hle', htiles⟩,
      ⟨_, _, hopen, htiles₁, hcover₁, hclose⟩, hcover⟩

/-- A tree that is read accounts for the whole of its source. -/
theorem covers_of_parseChars {source : List Char} {t : Tree} (h : parseChars source = .ok t) :
    Tiles (t.map Node.span) 0 (byteLength source) ∧ Node.AllCover source t := by
  obtain ⟨cs, hc, rfl, -⟩ := exists_cut_of_parseChars h
  obtain ⟨is, hm, hb⟩ := (parseChars_iff_builds hc).mp h
  have hm : Means (sourceOf cs) (placed (byteLength []) cs) is := hm
  obtain ⟨ht, hcover⟩ := hm.covers (List.append_nil _).symm hc.sound
  exact hb.covers ht hcover

/-- Texts that tile the rest of a source show it. -/
theorem renderNodes_of_texts {before rest : List Char} {ns : List Node}
    (ht : Tiles (ns.map Node.span) (byteLength before) (byteLength (before ++ rest)))
    (hc : Node.AllCover (before ++ rest) ns) (hx : ∀ n ∈ ns, n.isText = true) (st : Setting)
    (s : Scope) : renderNodes st s ns = .ofText (String.ofList rest) := by
  induction ns generalizing before rest with
  | nil =>
    have hl : byteLength before = byteLength (before ++ rest) := ht
    obtain rfl := byteLength_eq_zero.mp (show byteLength rest = 0 by
      rw [byteLength_append] at hl
      omega)
    rfl
  | cons n ns ih =>
    obtain ⟨hn, hns⟩ := List.forall_mem_cons.mp hx
    cases n with
    | text raw span =>
      obtain ⟨hstart, -, ht⟩ := ht
      obtain ⟨hslice, hc⟩ := hc
      have hstop : span.stop = byteLength (before ++ raw.toList) := by
        rw [IsSlice.stop_eq hslice, byteLength_append]
        exact congrArg (· + _) hstart
      obtain ⟨rest, rfl⟩ := IsSlice.prefix_of_start hslice hstart
      rw [← List.append_assoc] at ht hc
      rw [show (Node.text raw span).span.stop = _ from hstop] at ht
      rw [renderNodes, renderNode, ih ht hc hns, ← Rendering.ofText_append, String.ofList_append,
        String.ofList_toList]
    | expression | conditional | loop => simp [Node.isText] at hn

/-- A tree that is read tiles its source, and each span in it holds what its node is written as. A
tree of texts shows its source. -/
theorem parse_covers {source : String} {t : Tree} (h : parse source = .ok t) :
    Tiles (t.map Node.span) 0 (byteLength source.toList) ∧ Node.AllCover source.toList t ∧
      (t.isTextOnly = true → ∀ (context : Context) (format : Format),
        render t source.toList context format = .ofText source) := by
  obtain ⟨ht, hc⟩ := covers_of_parseChars h
  refine ⟨ht, hc, fun hx context format => ?_⟩
  have ht : Tiles (t.map Node.span) (byteLength []) (byteLength ([] ++ source.toList)) := ht
  have hr := renderNodes_of_texts ht hc (List.all_eq_true.mp hx) ⟨source.toList, format⟩
    (.ofContext context)
  exact hr.trans (congrArg Rendering.ofText String.ofList_toList)

theorem parse_covers_orders :
    let source := "Zürich\x7b% for x in Xs %\x7d\x7b\x7b x \x7d\x7d, \x7b% endfor %\x7d" ++
      "\x7b% if A %\x7dé\x7b% else %\x7d\x7b% endif %\x7d"
    (∃ t, parse source = .ok t ∧ t.map Node.span = [⟨0, 7⟩, ⟨7, 45⟩, ⟨45, 78⟩] ∧
      Tiles (t.map Node.span) 0 78 ∧ Node.AllCover source.toList t) ∧
    ∃ t, parse "\x7bé\n" = .ok t ∧ t.isTextOnly = true ∧
      ∀ context format, render t "\x7bé\n".toList context format = .ofText "\x7bé\n" := by
  intro source
  have hspans : (parse source).toOption.map (List.map Node.span) =
      some [⟨0, 7⟩, ⟨7, 45⟩, ⟨45, 78⟩] := by decide +kernel
  have htext : (parse "\x7bé\n").toOption.map Tree.isTextOnly = some true := by decide +kernel
  constructor
  · cases ht : parse source with
    | error e => simp [ht, Except.toOption] at hspans
    | ok t =>
      rw [ht] at hspans
      have hcovers := parse_covers ht
      have hlength : byteLength source.toList = 78 := by decide +kernel
      exact ⟨t, rfl, Option.some.inj hspans, hlength ▸ hcovers.1, hcovers.2.1⟩
  · cases ht : parse "\x7bé\n" with
    | error e => simp [ht, Except.toOption] at htext
    | ok t =>
      rw [ht] at htext
      have hx : t.isTextOnly = true := Option.some.inj htext
      exact ⟨t, rfl, hx, (parse_covers ht).2.2 hx⟩

end Proforma
