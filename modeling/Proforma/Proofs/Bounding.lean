import Proforma.Proofs.Covering
import Proforma.Proofs.Fronting
import Proforma.Proofs.Pointing

/-!
Offsets are between characters. Every span of a token, of a node and of a filter call is a slice of
the source, every offset of an error has a whole number of characters before it, and lines and
columns count what is before it.
-/
namespace Proforma

open Text

namespace Text

/-- The offset is between two characters of the text, or at an end of it. -/
def IsBoundary (source : List Char) (n : Nat) : Prop :=
  ∃ before after, source = before ++ after ∧ byteLength before = n

/-- The span runs forward, inside the text, and splits no character. -/
structure Span.Fits (source : List Char) (span : Span) : Prop where
  start_le : span.start ≤ span.stop
  stop_le : span.stop ≤ byteLength source
  start : IsBoundary source span.start
  stop : IsBoundary source span.stop

/-- The characters before the offset can be counted. The line of the position counts the line feeds
among them, its column the characters after the last one. -/
def Pinpoints (source : List Char) (p : Position) : Prop :=
  ∃ head line after, source = head ++ line ++ after ∧
    takeBytes p.offset source = some (head ++ line) ∧
    (head = [] ∨ head.getLast? = some '\n') ∧ '\n' ∉ line ∧
    p.line = 1 + (head ++ line).count '\n' ∧ p.column = 1 + line.length

theorem IsBoundary.le {source : List Char} {n : Nat} (h : IsBoundary source n) :
    n ≤ byteLength source := by
  obtain ⟨before, after, rfl, rfl⟩ := h
  rw [byteLength_append]
  exact Nat.le_add_right _ _

theorem IsSlice.fits {source cs : List Char} {span : Span} (h : IsSlice source span cs) :
    span.Fits source := by
  obtain ⟨before, after, rfl, hstart, hstop⟩ := h
  have hb : IsBoundary (before ++ cs ++ after) span.stop :=
    ⟨before ++ cs, after, rfl, by rw [hstop, byteLength_append]⟩
  exact ⟨by omega, hb.le, ⟨before, cs ++ after, List.append_assoc .., hstart.symm⟩, hb⟩

/-- What follows the rest of a line begins with a line feed. -/
theorem dropWhile_line (cs : List Char) : cs.dropWhile (· != '\n') = [] ∨
    (cs.dropWhile (· != '\n')).head? = some '\n' := by
  cases hd : cs.dropWhile (· != '\n') with
  | nil => exact .inl rfl
  | cons c rest =>
    have hc := List.head_dropWhile_not (· != '\n') (l := cs) (by simp [hd])
    simp only [hd, List.head_cons, bne_eq_false_iff_eq] at hc
    exact .inr (by simp [hc])

/-- What stands before the last line. -/
theorem exists_lastLine (cs : List Char) : ∃ head, cs = head ++ lastLine cs ∧
    (head = [] ∨ head.getLast? = some '\n') ∧ '\n' ∉ lastLine cs := by
  refine ⟨(cs.reverse.dropWhile (· != '\n')).reverse, ?_, ?_, ?_⟩
  · rw [lastLine, ← List.reverse_append, List.takeWhile_append_dropWhile, List.reverse_reverse]
  · rw [List.reverse_eq_nil_iff, List.getLast?_reverse]
    exact dropWhile_line cs.reverse
  · intro hm
    have hc := List.mem_takeWhile_imp (List.mem_reverse.mp hm)
    simp at hc

theorem IsBoundary.pinpoints {source : List Char} {n : Nat} (h : IsBoundary source n) :
    Pinpoints source (.ofOffset source n) := by
  obtain ⟨before, after, rfl, rfl⟩ := h
  obtain ⟨head, hb, hhead, hline⟩ := exists_lastLine before
  rw [Position.ofOffset_byteLength]
  refine ⟨head, lastLine before, after, by rw [← hb], ?_, hhead, hline, ?_, rfl⟩
  · rw [← hb]
    exact takeBytes_byteLength before after
  · rw [← hb]
    rfl

theorem IsBoundary.append {source : List Char} {n : Nat} (h : IsBoundary source n)
    (passed : List Char) : IsBoundary (passed ++ source) (byteLength passed + n) := by
  obtain ⟨before, after, rfl, rfl⟩ := h
  exact ⟨passed ++ before, after, (List.append_assoc ..).symm, byteLength_append ..⟩

theorem Tiles.le {ss : List Span} {start stop : Nat} (h : Tiles ss start stop) : start ≤ stop := by
  induction ss generalizing start with
  | nil => exact Nat.le_of_eq h
  | cons s ss ih => exact h.2.1.trans (ih h.2.2)

end Text

/-- The tokens are slices of the source. -/
theorem fits_of_tokens {source : List Char} {ts : List (Token × Span)}
    (h : tokens source = .ok ts) {t : Token × Span} (ht : t ∈ ts) : t.2.Fits source := by
  obtain ⟨cs, hc, rfl⟩ := tokens_eq_ok.mp h
  obtain ⟨-, rfl⟩ := isSegmentation_iff.mp hc
  have hwhole : sourceOf cs = [] ++ (cs.flatMap Chunk.tokens).flatMap Token.source ++ [] := by
    rw [flatMap_tokens, List.nil_append, List.append_nil]
  exact (Token.isSlice_placed hwhole t ht).fits

mutual

/-- The spans of a node: its own, and those of its filters and of the nodes inside it. -/
def Node.spans : Node → List Span
  | .text _ span => [span]
  | .expression _ calls span => span :: calls.map FilterCall.span
  | .conditional _ thenNodes none span => span :: Node.allSpans thenNodes
  | .conditional _ thenNodes (some elseNodes) span =>
    span :: (Node.allSpans thenNodes ++ Node.allSpans elseNodes)
  | .loop _ _ body span => span :: Node.allSpans body

def Node.allSpans : List Node → List Span
  | [] => []
  | n :: ns => n.spans ++ Node.allSpans ns

end

def Tree.spans (t : Tree) : List Span := Node.allSpans t

theorem Cursor.Agrees.suffix {α : Type} {input rest after : List Char} {base start : Nat} {a : α}
    {x : ExceptT Located Option (α × Cursor)}
    (h : Agrees input base start rest x (.ok (a, after))) : after <:+ rest := by
  cases h with
  | ok a ha => exact ha

/-- A filter call spans what is read as it. -/
theorem span_of_readCall {stop : Nat} {cs rest : List Char} {c : FilterCall}
    (h : readCall stop cs = .ok (c, rest)) :
    rest <:+ cs ∧ c.span = ⟨stop - byteLength cs, stop - byteLength rest⟩ := by
  unfold readCall at h
  split at h
  · simp [misread] at h
  · next name after hn =>
    split at h
    · simp [misread] at h
    · obtain ⟨⟨args, last⟩, ha, h⟩ := bind_eq_ok.mp h
      have hlast : last <:+ after := by
        have hc : Cursor.Agrees after 0 0 after _ _ := Cursor.agrees_callArguments List.suffix_rfl
        rw [ha] at hc
        exact hc.suffix
      dsimp only at h
      split at h
      · split at h
        · obtain ⟨rfl, rfl⟩ := Prod.mk.inj (Except.ok.inj h)
          exact ⟨hlast.trans (Cursor.suffix_of_readIdentifier? hn), rfl⟩
        · simp [misread] at h
      · simp [misread] at h

theorem spans_of_readPipeline {stop : Nat} {cs : List Char} {calls : List FilterCall}
    (h : readPipeline stop cs = .ok calls) : ∀ c ∈ calls, ∃ call rest, rest <:+ call ∧
      call <:+ cs ∧ c.span = ⟨stop - byteLength call, stop - byteLength rest⟩ := by
  fun_induction readPipeline stop cs generalizing calls with
  | case1 cs hs =>
    obtain rfl := Except.ok.inj h
    simp
  | case2 => simp at h
  | case3 cs rest hs c after hc ih =>
    obtain ⟨calls', hcalls, h⟩ := bind_eq_ok.mp h
    obtain rfl := Except.ok.inj h
    obtain ⟨hafter, hspan⟩ := span_of_readCall hc
    have hcall : skipBlanks rest <:+ cs := (Cursor.suffix_skipBlanks rest).trans
      (Cursor.suffix_of_cons (hs ▸ Cursor.suffix_skipBlanks cs))
    refine List.forall_mem_cons.mpr ⟨⟨_, _, hafter, hcall, hspan⟩, fun c' hc' => ?_⟩
    obtain ⟨call, last, hlast, hin, hspan'⟩ := ih hcalls c' hc'
    exact ⟨call, last, hlast, hin.trans (hafter.trans hcall), hspan'⟩
  | case4 cs hnil hbar =>
    exact (unexpected_ne_ok _ _ h).elim

theorem spans_of_readExpression {stop : Nat} {content : List Char} {path : Path}
    {calls : List FilterCall} (h : readExpression stop content = .ok (path, calls)) :
    ∀ c ∈ calls, ∃ call rest, rest <:+ call ∧ call <:+ content ∧
      c.span = ⟨stop - byteLength call, stop - byteLength rest⟩ := by
  unfold readExpression at h
  have hcs := Cursor.suffix_skipBlanks content
  split at h
  · simp [misread] at h
  · obtain ⟨⟨path', after⟩, hp, h⟩ := bind_eq_ok.mp h
    obtain ⟨calls', hcalls, h⟩ := bind_eq_ok.mp h
    obtain ⟨rfl, rfl⟩ := Prod.mk.inj (Except.ok.inj h)
    have hafter : after <:+ skipBlanks content := by
      have ha : Cursor.Agrees (skipBlanks content) 0 0 (skipBlanks content) _ _ :=
        Cursor.agrees_path List.suffix_rfl
      rw [hp] at ha
      exact ha.suffix
    intro c hc
    obtain ⟨call, rest, hr, hin, hspan⟩ := spans_of_readPipeline hcalls c hc
    exact ⟨call, rest, hr, hin.trans (hafter.trans hcs), hspan⟩

/-- The offset of what is left of a content is a boundary. -/
theorem isBoundary_of_suffix (before after : List Char) {content left : List Char}
    (h : left <:+ content) : IsBoundary (before ++ content ++ after)
      (byteLength before + byteLength content - byteLength left) := by
  obtain ⟨lead, rfl⟩ := h
  refine ⟨before ++ lead, left ++ after, by simp only [List.append_assoc], ?_⟩
  simp only [byteLength_append]
  omega

theorem fits_of_isExpression {source : List Char} {span : Span} {path : Path}
    {calls : List FilterCall} (h : IsExpression source span path calls) :
    span.Fits source ∧ ∀ c ∈ calls, c.span.Fits source := by
  obtain ⟨content, ⟨hs, -⟩, hr⟩ := h
  refine ⟨hs.fits, fun c hc => ?_⟩
  obtain ⟨call, rest, hrest, hcall, hspan⟩ := spans_of_readExpression hr c hc
  have hfits := hs.fits
  obtain ⟨before, after, rfl, -, hstop⟩ := hs
  have hwidth : span.stop - Delimiter.width =
      byteLength (before ++ Delimiter.expression.opener) + byteLength content := by
    rw [hstop]
    simp only [byteLength_append, Delimiter.byteLength_closer]
    omega
  have hbound : ∀ left, left <:+ content → IsBoundary (before ++ (Delimiter.expression.opener ++
      content ++ Delimiter.expression.closer) ++ after)
      (span.stop - Delimiter.width - byteLength left) := by
    intro left hl
    rw [hwidth]
    have hb := isBoundary_of_suffix (before ++ Delimiter.expression.opener)
      (Delimiter.expression.closer ++ after) hl
    simpa only [List.append_assoc] using hb
  have hle := byteLength_le_of_suffix hrest
  rw [hspan]
  exact ⟨by dsimp only; omega, (hbound rest (hrest.trans hcall)).le, hbound call hcall,
    hbound rest (hrest.trans hcall)⟩

theorem IsTag.fits {source : List Char} {span : Span} {d : Directive}
    (h : IsTag source span d) : span.Fits source := by
  obtain ⟨content, ⟨hs, -⟩, -⟩ := h
  exact hs.fits

/-- A block runs from its first tag to its last one. -/
theorem fits_of_tags {source : List Char} {span : Span} {a b : Nat} {opening closing : Directive}
    (ho : IsTag source ⟨span.start, a⟩ opening) (hle : a ≤ b)
    (hc : IsTag source ⟨b, span.stop⟩ closing) : span.Fits source where
  start_le := ho.fits.start_le.trans (hle.trans hc.fits.start_le)
  stop_le := hc.fits.stop_le
  start := ho.fits.start
  stop := hc.fits.stop

/-- The spans of a tree that covers its source split no character. -/
theorem fits_of_allCover {source : List Char} {t : List Node} (h : Node.AllCover source t) :
    ∀ s ∈ Node.allSpans t, s.Fits source := by
  induction t using Tree.induction with
  | nil => simp [Node.allSpans]
  | text raw span ns ih =>
    obtain ⟨hn, hns⟩ := h
    rw [Node.allSpans, Node.spans, List.singleton_append]
    exact List.forall_mem_cons.mpr ⟨IsSlice.fits hn, ih hns⟩
  | expression path calls span ns ih =>
    obtain ⟨hn, hns⟩ := h
    obtain ⟨hspan, hcalls⟩ := fits_of_isExpression hn
    rw [Node.allSpans, Node.spans]
    refine List.forall_mem_append.mpr ⟨List.forall_mem_cons.mpr ⟨hspan, ?_⟩, ih hns⟩
    exact List.forall_mem_map.mpr hcalls
  | conditional path thenNodes span ns ih₁ ih =>
    obtain ⟨⟨a, b, ho, ht, hthen, hc⟩, hns⟩ := h
    rw [Node.allSpans, Node.spans]
    refine List.forall_mem_append.mpr ⟨List.forall_mem_cons.mpr ⟨?_, ih₁ hthen⟩, ih hns⟩
    exact fits_of_tags ho ht.le hc
  | alternative path thenNodes elseNodes span ns ih₁ ih₂ ih =>
    obtain ⟨⟨a, b, c, d, ho, ht, hthen, hm, ht', helse, hc⟩, hns⟩ := h
    rw [Node.allSpans, Node.spans]
    refine List.forall_mem_append.mpr ⟨List.forall_mem_cons.mpr ⟨?_,
      List.forall_mem_append.mpr ⟨ih₁ hthen, ih₂ helse⟩⟩, ih hns⟩
    exact fits_of_tags ho (ht.le.trans (hm.fits.start_le.trans ht'.le)) hc
  | loop collection binding body span ns ih₁ ih =>
    obtain ⟨⟨a, b, ho, ht, hbody, hc⟩, hns⟩ := h
    rw [Node.allSpans, Node.spans]
    refine List.forall_mem_append.mpr ⟨List.forall_mem_cons.mpr ⟨?_, ih₁ hbody⟩, ih hns⟩
    exact fits_of_tags ho ht.le hc

theorem isBoundary_of_refused {source : List Char} {e : LexError} (h : Refused source e) :
    IsBoundary source e.offset := by
  obtain ⟨-, before, d, rest, rfl, hu, -⟩ := exists_unfinished_of_refused h
  cases hu with
  | unterminated => exact ⟨before, d.opener ++ rest, List.append_assoc .., rfl⟩
  | @nested inner lead more after =>
    exact ⟨before ++ d.opener ++ lead, inner.opener ++ more ++ d.closer ++ after,
      by simp only [List.append_assoc], rfl⟩

theorem Reaches.isBoundary {source : List Char} {cs rest : List Chunk} {b : Builder}
    (h : Reaches source cs rest b) : IsBoundary source (byteLength (sourceOf cs)) :=
  ⟨sourceOf cs, sourceOf rest, h.source_eq, rfl⟩

/-- A block directive stands where a piece of the source begins. -/
theorem exists_of_mem_marks {cs : List Chunk} {start : Nat} {m : Mark}
    (h : m ∈ marks (placed start cs)) : ∃ before after, sourceOf cs = before ++ after ∧
      after ≠ [] ∧ m.offset = start + byteLength before := by
  induction cs generalizing start with
  | nil => simp [placed, marks] at h
  | cons c cs ih =>
    have hcases : (c.pieceAt start).mark? = some m ∨
        m ∈ marks (placed (start + byteLength c.source) cs) := by
      simpa only [marks, placed, List.mem_filterMap, List.mem_cons, exists_eq_or_imp] using h
    rcases hcases with hc | hrest
    · cases c with
      | text raw => simp [Chunk.pieceAt, Piece.mark?] at hc
      | directive d content =>
        cases d with
        | expression => simp [Chunk.pieceAt, Piece.mark?] at hc
        | tag =>
          refine ⟨[], _, rfl, List.cons_ne_nil _ _, ?_⟩
          rw [← Option.some.inj hc]
          rfl
    · obtain ⟨before, after, hcs, hne, ho⟩ := ih hrest
      refine ⟨c.source ++ before, after, by rw [sourceOf_cons, hcs, List.append_assoc], hne, ?_⟩
      rw [ho, byteLength_append, Nat.add_assoc]

/-- The innermost open block begins at a boundary. -/
theorem Reaches.isBoundary_innermost {source : List Char} {cs rest : List Chunk} {b : Builder}
    (h : Reaches source cs rest b) {m : Mark} (hm : b.innermost? = some m) :
    IsBoundary source m.offset := by
  obtain ⟨before, after, hcs, -, ho⟩ := exists_of_mem_marks (h.mem_marks hm)
  rw [ho, Nat.zero_add]
  exact ⟨before, after ++ sourceOf rest, by rw [h.source_eq, hcs, List.append_assoc], rfl⟩

/-- The places that an error carries: the one at which a directive cannot be read, and of a block
mismatch those of its directives, the opening one first. -/
inductive ParseError.Carries : ParseError → List Position → Prop where
  | lex (error : LexError) (p : Position) : Carries (.lex error p) [p]
  | fault (f : Fault) (p : Position) : Carries (.fault f p) [p]
  | opening (s : Site) : Carries (.blockMismatch (some s) none) [s.position]
  | closing (s : Site) : Carries (.blockMismatch none (some s)) [s.position]
  | mismatch (opening closing : Site) :
    Carries (.blockMismatch (some opening) (some closing)) [opening.position, closing.position]

/-- All the places that an error carries are listed, and no others. -/
theorem ParseError.carries_iff {e : ParseError} {places : List Position} :
    e.Carries places ↔ e.positions = places ∧ places ≠ [] := by
  constructor
  · rintro ⟨⟩ <;> exact ⟨rfl, List.cons_ne_nil _ _⟩
  · rintro ⟨rfl, hne⟩
    cases e with
    | lex error p => exact .lex error p
    | fault f p => exact .fault f p
    | blockMismatch opening closing =>
      cases opening with
      | none =>
        cases closing with
        | none => exact absurd rfl hne
        | some s => exact .closing s
      | some s =>
        cases closing with
        | none => exact .opening s
        | some s' => exact .mismatch s s'

/-- An error of a source carries a place. -/
theorem Fails.carries {source : List Char} {e : ParseError} (h : Fails source e) :
    e.Carries e.positions := by
  refine ParseError.carries_iff.mpr ⟨rfl, ?_⟩
  cases h with
  | lex | fault | opening => exact List.cons_ne_nil _ _
  | closing => simp [ParseError.positions]

/-- The places of an error are those of boundaries. -/
theorem Fails.exists_boundary {source : List Char} {e : ParseError} (h : Fails source e) :
    ∀ p ∈ e.positions, ∃ n, IsBoundary source n ∧ p = .ofOffset source n := by
  intro p hp
  cases h with
  | @lex e hr =>
    obtain rfl := List.mem_singleton.mp hp
    exact ⟨_, isBoundary_of_refused hr, rfl⟩
  | @fault cs rest d content b f n hr hn =>
    obtain rfl := List.mem_singleton.mp hp
    refine ⟨n, ?_, rfl⟩
    rcases hn with rfl | ⟨left, hl, rfl⟩
    · exact hr.isBoundary
    · obtain ⟨⟨after, hs⟩, -⟩ := hr.hasDirective
      have hb := isBoundary_of_suffix (sourceOf cs ++ d.opener) (d.closer ++ after) hl
      simpa only [hs, byteLength_append, d.byteLength_opener, List.append_assoc] using hb
  | @closing cs rest content b hr =>
    have hsites : p ∈ (b.innermost?.map (·.site source)).toList.map Site.position ∨
        p = .ofOffset source (byteLength (sourceOf cs)) := by
      simpa [ParseError.positions, Mark.site] using hp
    rcases hsites with ho | rfl
    · cases hm : b.innermost? with
      | none => simp [hm] at ho
      | some m =>
        rw [hm] at ho
        obtain rfl := List.mem_singleton.mp ho
        exact ⟨_, hr.isBoundary_innermost hm, rfl⟩
    · exact ⟨_, hr.isBoundary, rfl⟩
  | opening hr hm =>
    obtain rfl := List.mem_singleton.mp hp
    exact ⟨_, hr.isBoundary_innermost hm, rfl⟩

theorem ParseError.positions_mapPositions (f : Position → Position) (e : ParseError) :
    (e.mapPositions f).positions = e.positions.map f := by
  cases e with
  | lex | fault => rfl
  | blockMismatch opening closing => cases opening <;> cases closing <;> rfl

theorem ParseError.mapPositions_id (e : ParseError) : e.mapPositions id = e := by
  cases e with
  | lex | fault => rfl
  | blockMismatch opening closing => cases opening <;> cases closing <;> rfl

theorem Template.exists_error_of_compile {t : Template} {e : ParseError}
    (h : t.compile = .error e) : ∃ e', parse t.body = .error e' := by
  cases hb : parse t.body with
  | error e' => exact ⟨e', rfl⟩
  | ok tree => simp [compile, hb, Except.mapError] at h

theorem Template.carries_of_compile {t : Template} {e : ParseError} (h : t.compile = .error e) :
    e.Carries e.positions := by
  obtain ⟨e', hb⟩ := exists_error_of_compile h
  rw [compile_eq_error hb] at h
  obtain rfl := Except.error.inj h
  obtain ⟨-, hne⟩ := ParseError.carries_iff.mp (fails_of_parseChars hb).carries
  refine ParseError.carries_iff.mpr ⟨rfl, ?_⟩
  rw [ParseError.positions_mapPositions]
  exact fun hn => hne (List.map_eq_nil_iff.mp hn)

/-- The places of an error in a template are those of boundaries of the whole text. -/
theorem Template.exists_boundary {t : Template} {e : ParseError} (h : t.compile = .error e) :
    ∀ p ∈ e.positions, ∃ n, IsBoundary t.text.toList n ∧ p = .ofOffset t.text.toList n := by
  obtain ⟨e', hb⟩ := exists_error_of_compile h
  rw [compile_eq_error hb] at h
  obtain rfl := Except.error.inj h
  intro p hp
  rw [ParseError.positions_mapPositions] at hp
  obtain ⟨q, hq, rfl⟩ := List.mem_map.mp hp
  obtain ⟨n, hn, rfl⟩ := (fails_of_parseChars hb).exists_boundary q hq
  refine ⟨byteLength t.head.toList + n, ?_, ?_⟩
  · rw [text, String.toList_append]
    exact hn.append t.head.toList
  · rw [offset_ofOffset_of_le hn.le]
    rfl

/-- No offset in a source splits a character. Read by byte offsets the source has its tokens and its
tree, or their errors, so that every slice is found; spans and offsets are boundaries, and positions
count the lines and the characters before them. The body of a template is a slice of its text, and
the errors of the body have their places in the whole text. -/
structure SplitsNoCharacter (source : String) : Prop where
  tokens_found : (scanTokens source.toList).run = some (tokens source.toList)
  tree_found : (scan source.toList).run = some (parse source)
  token_spans : ∀ ts, tokens source.toList = .ok ts → ∀ t ∈ ts, t.2.Fits source.toList
  token_errors : ∀ e, tokens source.toList = .error e → IsBoundary source.toList e.offset
  tree_spans : ∀ t, parse source = .ok t → ∀ s ∈ t.spans, s.Fits source.toList ∧
    Pinpoints source.toList (.ofOffset source.toList s.start)
  lex_errors : ∀ e p, parse source = .error (.lex e p) → IsBoundary source.toList e.offset
  tree_errors : ∀ e, parse source = .error e → e.Carries e.positions ∧
    ∀ p ∈ e.positions, Pinpoints source.toList p
  origin_found : ∀ name t, Template.ofMarkdown? name source = some t →
    t.text = source ∧ scanOrigin source.toList = t.origin
  body_found : ∀ t : Template, t.text = source →
    slice? source.toList t.origin.offset (byteLength source.toList) = some t.body.toList
  body_errors : ∀ t : Template, t.text = source → ∀ e, t.compile = .error e →
    e.Carries e.positions ∧ ∀ p ∈ e.positions, Pinpoints source.toList p

theorem offsets_split_no_character (source : String) : SplitsNoCharacter source where
  tokens_found := scanTokens_eq source.toList
  tree_found := scan_eq source.toList
  token_spans ts h t ht := fits_of_tokens h ht
  token_errors e h := isBoundary_of_refused (tokens_eq_error.mp h)
  tree_spans t h s hs := by
    have hfits := fits_of_allCover (covers_of_parseChars h).2 s hs
    exact ⟨hfits, hfits.start.pinpoints⟩
  lex_errors e p h := by
    cases fails_of_parseChars h with
    | lex hr => exact isBoundary_of_refused hr
  tree_errors e h := by
    have hf := fails_of_parseChars h
    refine ⟨hf.carries, fun p hp => ?_⟩
    obtain ⟨n, hn, rfl⟩ := hf.exists_boundary p hp
    exact hn.pinpoints
  origin_found name t h := by
    obtain ⟨htext, horigin⟩ := scanOrigin_eq h
    refine ⟨?_, horigin⟩
    rw [Template.text, ← String.toList_inj, String.toList_append, htext]
  body_found t ht := by
    rw [← ht]
    exact slice?_body t
  body_errors t ht e h := by
    refine ⟨Template.carries_of_compile h, fun p hp => ?_⟩
    obtain ⟨n, hn, rfl⟩ := Template.exists_boundary h p hp
    rw [← ht]
    exact hn.pinpoints

end Proforma
