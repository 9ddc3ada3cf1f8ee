import Proforma.Proofs.Parsing
import Proforma.Proofs.Places
import Proforma.Template.Basic

/-!
Templates with front matter. What follows the front matter is read and shown as it is on its own;
only the places count from the top of the whole text.
-/
namespace Proforma

open Text

namespace FrontMatter

/-- A line with its line feed. -/
def IsFullLine (line : List Char) : Prop := ∃ words, '\n' ∉ words ∧ line = words ++ ['\n']

/-- The first line of the text is a fence, and the body is what follows the first fence after it.
Only the end of the text can stand for the line feed of that fence. -/
inductive HasBody : List Char → List Char → Prop where
  | intro {first closing body : List Char} {inner : List (List Char)}
    (hlines : ∀ line ∈ first :: inner, IsFullLine line)
    (hlast : IsFullLine closing ∨ '\n' ∉ closing ∧ body = [])
    (hfirst : isFence first = true) (hinner : ∀ line ∈ inner, isFence line = false)
    (hclosing : isFence closing = true) :
    HasBody (first ++ inner.flatten ++ closing ++ body) body

theorem fullLines_append {line : List Char} (h : IsFullLine line) (rest : List Char) :
    fullLines (line ++ rest) = line :: fullLines rest := by
  obtain ⟨words, hn, rfl⟩ := h
  induction words with
  | nil => simp [fullLines]
  | cons c words ih =>
    rw [List.mem_cons, not_or] at hn
    have hc : (c == '\n') = false := beq_false_of_ne (Ne.symm hn.1)
    rw [List.cons_append, List.cons_append, fullLines, hc, ih hn.2]
    rfl

theorem fullLines_of_not_mem {cs : List Char} (h : '\n' ∉ cs) (hc : cs ≠ []) :
    fullLines cs = [cs] := by
  induction cs with
  | nil => exact (hc rfl).elim
  | cons c cs ih =>
    rw [List.mem_cons, not_or] at h
    rw [fullLines, beq_false_of_ne (Ne.symm h.1)]
    cases cs with
    | nil => rfl
    | cons c' cs => rw [ih h.2 (List.cons_ne_nil _ _)]; rfl

theorem fullLines_flatten_append {lines : List (List Char)} (h : ∀ line ∈ lines, IsFullLine line)
    (rest : List Char) : fullLines (lines.flatten ++ rest) = lines ++ fullLines rest := by
  induction lines with
  | nil => rfl
  | cons line lines ih =>
    obtain ⟨hline, h⟩ := List.forall_mem_cons.mp h
    rw [List.flatten_cons, List.append_assoc, fullLines_append hline, ih h, List.cons_append]

/-- A first line is full, or there is no other. -/
theorem fullLines_eq_cons {cs line : List Char} {rest : List (List Char)}
    (h : fullLines cs = line :: rest) :
    (IsFullLine line ∧ ∃ after, rest = fullLines after) ∨ '\n' ∉ line ∧ rest = [] := by
  by_cases hm : '\n' ∈ cs
  · obtain ⟨words, after, rfl, hn⟩ := List.eq_append_cons_of_mem hm
    have hline : IsFullLine (words ++ ['\n']) := ⟨words, hn, rfl⟩
    rw [← List.singleton_append, ← List.append_assoc, fullLines_append hline] at h
    obtain ⟨rfl, rfl⟩ := List.cons.inj h
    exact .inl ⟨hline, after, rfl⟩
  · have hc : cs ≠ [] := by
      rintro rfl
      simp [fullLines] at h
    rw [fullLines_of_not_mem hm hc] at h
    obtain ⟨rfl, rfl⟩ := List.cons.inj h
    exact .inr ⟨hm, rfl⟩

/-- Only the last line can be without a line feed. -/
theorem isFullLine_of_fullLines {cs line : List Char} {before rest : List (List Char)}
    (h : fullLines cs = before ++ line :: rest) :
    (∀ l ∈ before, IsFullLine l) ∧ (IsFullLine line ∨ '\n' ∉ line ∧ rest = []) := by
  induction before generalizing cs with
  | nil => exact ⟨by simp, (fullLines_eq_cons h).imp_left And.left⟩
  | cons first before ih =>
    rcases fullLines_eq_cons h with ⟨hfirst, after, he⟩ | ⟨-, he⟩
    · obtain ⟨hbefore, hline⟩ := ih he.symm
      exact ⟨List.forall_mem_cons.mpr ⟨hfirst, hbefore⟩, hline⟩
    · simp at he

theorem ne_nil_of_isFence {line : List Char} (h : isFence line = true) : line ≠ [] := by
  rintro rfl
  simp [isFence, dropLastBlanks] at h

theorem close?_eq_some {lines : List (List Char)} {p : Parts} : close? lines = some p ↔
    ∃ inner closing rest, lines = inner ++ closing :: rest ∧
      (∀ line ∈ inner, isFence line = false) ∧ isFence closing = true ∧
      p = ⟨inner, inner.flatten ++ closing, rest.flatten⟩ := by
  constructor
  · intro h
    induction lines generalizing p with
    | nil => simp [close?] at h
    | cons line lines ih =>
      rw [close?] at h
      split at h
      · next hf =>
        obtain rfl := Option.some.inj h
        exact ⟨[], line, lines, rfl, by simp, hf, rfl⟩
      · next hf =>
        obtain ⟨q, hq, rfl⟩ := Option.map_eq_some_iff.mp h
        obtain ⟨inner, closing, rest, rfl, hinner, hclosing, rfl⟩ := ih hq
        refine ⟨line :: inner, closing, rest, rfl, ?_, hclosing, ?_⟩
        · exact List.forall_mem_cons.mpr ⟨by simpa using hf, hinner⟩
        · simp
  · rintro ⟨inner, closing, rest, rfl, hinner, hclosing, rfl⟩
    induction inner with
    | nil => simp [close?, hclosing]
    | cons line inner ih =>
      obtain ⟨hf, hinner⟩ := List.forall_mem_cons.mp hinner
      rw [List.cons_append, close?, hf, ih hinner]
      simp

theorem HasBody.exists_split? {text body : List Char} (h : HasBody text body) :
    ∃ parts, split? text = some parts ∧ parts.body = body := by
  cases h with
  | @intro first closing _ inner hlines hlast hfirst hinner hclosing =>
    obtain ⟨hfull, hlines⟩ := List.forall_mem_cons.mp hlines
    have hrest : fullLines (closing ++ body) = closing :: fullLines body := by
      rcases hlast with hl | ⟨hl, rfl⟩
      · exact fullLines_append hl body
      · rw [List.append_nil, fullLines_of_not_mem hl (ne_nil_of_isFence hclosing)]
        rfl
    have hall : fullLines (first ++ inner.flatten ++ closing ++ body) =
        first :: (inner ++ closing :: fullLines body) := by
      rw [List.append_assoc, List.append_assoc, fullLines_append hfull,
        fullLines_flatten_append hlines, hrest]
    have hclose := close?_eq_some.mpr ⟨inner, closing, fullLines body, rfl, hinner, hclosing, rfl⟩
    refine ⟨⟨inner, first ++ (inner.flatten ++ closing), (fullLines body).flatten⟩, ?_,
      flatten_fullLines body⟩
    rw [split?, hall]
    simp only [hfirst, if_true, hclose, Option.map_some]

theorem hasBody_of_split? {text : List Char} {parts : Parts} (h : split? text = some parts) :
    HasBody text parts.body := by
  rw [split?] at h
  split at h
  · simp at h
  · next first lines hall =>
    split at h
    · next hfirst =>
      obtain ⟨q, hq, rfl⟩ := Option.map_eq_some_iff.mp h
      obtain ⟨inner, closing, rest, rfl, hinner, hclosing, rfl⟩ := close?_eq_some.mp hq
      have htext : text = first ++ inner.flatten ++ closing ++ rest.flatten := by
        rw [← flatten_fullLines text, hall]
        simp
      rw [← List.cons_append] at hall
      obtain ⟨hlines, hline⟩ := isFullLine_of_fullLines hall
      have hlast : IsFullLine closing ∨ '\n' ∉ closing ∧ rest.flatten = [] := by
        rcases hline with hl | ⟨hn, rfl⟩
        · exact .inl hl
        · exact .inr ⟨hn, rfl⟩
      rw [htext]
      exact .intro hlines hlast hfirst hinner hclosing
    · simp at h

end FrontMatter

namespace Text.Position

theorem ofOffset_offset (source : List Char) (n : Nat) :
    ofOffset source (ofOffset source n).offset = ofOffset source n := by
  simp only [ofOffset, Nat.min_assoc, Nat.min_self]

end Text.Position

namespace ParseError

/-- The error with its places put elsewhere. What a lexical error says about the scan, its offset
there included, stays as it is. -/
def mapPositions (f : Position → Position) : ParseError → ParseError
  | lex error p => lex error (f p)
  | blockMismatch opening closing =>
    let site (s : Site) : Site := { s with position := f s.position }
    blockMismatch (opening.map site) (closing.map site)
  | fault reason p => fault reason (f p)

theorem mapPositions_congr {f g : Position → Position} {e : ParseError}
    (h : ∀ p ∈ e.positions, f p = g p) : e.mapPositions f = e.mapPositions g := by
  cases e with
  | lex error p => rw [mapPositions, h p (List.mem_singleton_self p), mapPositions]
  | fault reason p => rw [mapPositions, h p (List.mem_singleton_self p), mapPositions]
  | blockMismatch opening closing =>
    cases opening <;> cases closing <;> simp_all [mapPositions, positions]

/-- The places of the error are places in the text. -/
def PlacedIn (source : List Char) (e : ParseError) : Prop :=
  ∀ p ∈ e.positions, p = .ofOffset source p.offset

end ParseError

theorem BlockFault.placedIn_toError (source : List Char) (f : BlockFault) :
    (f.toError source).PlacedIn source := by
  intro p hp
  simp only [toError, ParseError.positions, Option.toList_map, ← List.map_append,
    List.map_map] at hp
  obtain ⟨m, -, rfl⟩ := List.mem_map.mp hp
  exact (Position.ofOffset_offset source m.offset).symm

theorem placedIn_ofPiece {source : List Char} {p : Piece} {e : ParseError}
    (h : Item.ofPiece source p = .error e) : e.PlacedIn source := by
  cases p with
  | text start raw => simp [Item.ofPiece] at h
  | directive start d content =>
    have hfault : ∀ (f : Fault) (n : Nat),
        (ParseError.fault f (.ofOffset source n)).PlacedIn source := by
      intro f n p hp
      obtain rfl := List.mem_singleton.mp hp
      exact (Position.ofOffset_offset source n).symm
    cases d <;>
      · simp only [Item.ofPiece] at h
        split at h
        · simp at h
        · obtain rfl := Except.error.inj h
          split <;> exact hfault _ _

theorem placedIn_mapError {α : Type} {source : List Char} {x : Except BlockFault α}
    {e : ParseError} (h : x.mapError (·.toError source) = .error e) : e.PlacedIn source := by
  cases x with
  | error f =>
    obtain rfl := Except.error.inj h
    exact f.placedIn_toError source
  | ok a => simp [Except.mapError] at h

theorem placedIn_step {source : List Char} {b : Builder} {p : Piece} {e : ParseError}
    (h : b.step source p = .error e) : e.PlacedIn source := by
  unfold Builder.step at h
  cases hi : Item.ofPiece source p with
  | error e' =>
    rw [hi] at h
    obtain rfl := Except.error.inj h
    exact placedIn_ofPiece hi
  | ok i =>
    rw [hi, ok_bind] at h
    exact placedIn_mapError h

theorem placedIn_foldlM_step {source : List Char} {ps : List Piece} {b : Builder} {e : ParseError}
    (h : ps.foldlM (Builder.step source) b = .error e) : e.PlacedIn source := by
  induction ps generalizing b with
  | nil => simp [pure, Except.pure] at h
  | cons p ps ih =>
    rw [List.foldlM_cons] at h
    cases hb : b.step source p with
    | error e' =>
      rw [hb] at h
      obtain rfl := Except.error.inj h
      exact placedIn_step hb
    | ok b' =>
      rw [hb, ok_bind] at h
      exact ih h

/-- The places of an error are places in what is read. -/
theorem placedIn_parseChars {source : List Char} {e : ParseError}
    (h : parseChars source = .error e) : e.PlacedIn source := by
  unfold parseChars at h
  split at h
  · next l _ =>
    obtain rfl := Except.error.inj h
    intro p hp
    obtain rfl := List.mem_singleton.mp hp
    exact (Position.ofOffset_offset source l.offset).symm
  · next ps _ =>
    cases hb : ps.foldlM (Builder.step source) .empty with
    | error e' =>
      rw [hb] at h
      obtain rfl := Except.error.inj h
      exact placedIn_foldlM_step hb
    | ok b =>
      rw [hb, ok_bind] at h
      exact placedIn_mapError h

/-- The diagnostic put elsewhere. -/
def Diagnostic.placedAt (d : Diagnostic) (p : Position) : Diagnostic :=
  { d with line := p.line, column := p.column }

mutual

/-- Where the expressions and loops of a node start, which are what a diagnostic can be about. -/
def Node.starts : Node → List Nat
  | .text .. => []
  | .expression _ _ span => [span.start]
  | .conditional _ thenNodes none _ => Node.allStarts thenNodes
  | .conditional _ thenNodes (some elseNodes) _ =>
    Node.allStarts thenNodes ++ Node.allStarts elseNodes
  | .loop _ _ body span => span.start :: Node.allStarts body

def Node.allStarts : List Node → List Nat
  | [] => []
  | n :: ns => n.starts ++ Node.allStarts ns

end

/-- The diagnostics are placed where something of the tree starts. -/
def Rendering.StartsAt (r : Rendering) (source : List Char) (starts : List Nat) : Prop :=
  ∀ d ∈ r.diagnostics, ∃ n ∈ starts, d = d.placedAt (.ofOffset source n)

namespace Rendering.StartsAt

variable {source : List Char} {a b : Rendering} {starts more : List Nat}

theorem empty (source : List Char) (starts : List Nat) : Rendering.empty.StartsAt source starts :=
  by simp [StartsAt, Rendering.empty]

theorem append (ha : a.StartsAt source starts) (hb : b.StartsAt source more) :
    (a ++ b).StartsAt source (starts ++ more) := by
  intro d hd
  rcases List.mem_append.mp hd with hd | hd
  · obtain ⟨n, hn, he⟩ := ha d hd
    exact ⟨n, List.mem_append_left _ hn, he⟩
  · obtain ⟨n, hn, he⟩ := hb d hd
    exact ⟨n, List.mem_append_right _ hn, he⟩

theorem mono (ha : a.StartsAt source starts) (h : starts ⊆ more) : a.StartsAt source more := by
  intro d hd
  obtain ⟨n, hn, he⟩ := ha d hd
  exact ⟨n, h hn, he⟩

theorem concat {rs : List Rendering} (h : ∀ r ∈ rs, r.StartsAt source starts) :
    (Rendering.concat rs).StartsAt source starts := by
  induction rs with
  | nil => exact empty source starts
  | cons r rs ih =>
    obtain ⟨hr, h⟩ := List.forall_mem_cons.mp h
    exact (hr.append (ih h)).mono (by simp)

end Rendering.StartsAt

theorem startsAt_diagnostic (st : Setting) (kind : DiagnosticKind) (p : Path) (span : Span)
    (message : String) :
    (st.diagnostic kind p span message).StartsAt st.source [span.start] := by
  intro d hd
  obtain rfl := List.mem_singleton.mp hd
  exact ⟨span.start, List.mem_singleton_self _, rfl⟩

theorem startsAt_ofText (s : String) (source : List Char) (starts : List Nat) :
    (Rendering.ofText s).StartsAt source starts := by simp [Rendering.StartsAt, Rendering.ofText]

theorem startsAt_renderExpression (st : Setting) (s : Scope) (p : Path) (calls : List FilterCall)
    (span : Span) : (renderExpression st s p calls span).StartsAt st.source [span.start] := by
  unfold renderExpression
  split
  · next r _ =>
    unfold renderResolved
    split
    · exact startsAt_diagnostic st _ p span _
    · exact startsAt_ofText _ _ _
    · split
      · exact startsAt_ofText _ _ _
      · exact startsAt_diagnostic st _ p span _
    · exact startsAt_diagnostic st _ p span _
  · exact startsAt_diagnostic st _ p span _

/-- Each diagnostic is placed where an expression or a loop of the tree starts. -/
theorem startsAt_renderNodes (st : Setting) (s : Scope) (ns : List Node) :
    (renderNodes st s ns).StartsAt st.source (Node.allStarts ns) := by
  induction ns using Tree.induction generalizing s with
  | nil => exact .empty _ _
  | text raw span ns ih => exact (startsAt_ofText raw _ []).append (ih s)
  | expression path calls span ns ih =>
    exact (startsAt_renderExpression st s path calls span).append (ih s)
  | conditional path thenNodes span ns ih₁ ih =>
    rw [renderNodes, renderNode, Node.allStarts, Node.starts]
    refine .append ?_ (ih s)
    split
    · exact ih₁ s
    · exact .empty _ _
  | alternative path thenNodes elseNodes span ns ih₁ ih₂ ih =>
    rw [renderNodes, renderNode, Node.allStarts, Node.starts]
    refine .append ?_ (ih s)
    split
    · exact (ih₁ s).mono (List.subset_append_left _ _)
    · exact (ih₂ s).mono (List.subset_append_right _ _)
  | loop collection binding body span ns ih₁ ih =>
    rw [renderNodes, renderNode, Node.allStarts, Node.starts]
    refine .append ?_ (ih s)
    split
    · exact .empty _ _
    · next items _ =>
      refine (Rendering.StartsAt.concat fun r hr => ?_).mono (List.subset_cons_self _ _)
      obtain ⟨v, -, rfl⟩ := List.mem_map.mp hr
      exact ih₁ (s.push binding v)
    · exact (startsAt_diagnostic st _ collection span _).mono (by simp)

namespace Template

/-- An offset in the body as a place in the whole text. -/
def place (t : Template) (n : Nat) : Position :=
  .ofOffset t.text.toList (byteLength t.head.toList + n)

/-- The template is read and shown as its body is on its own, but for the places. -/
structure ShowsBody (t : Template) : Prop where
  error : ∀ e, parse t.body = .error e →
    e.PlacedIn t.body.toList ∧
      t.compile = .error (e.mapPositions fun p => t.place p.offset) ∧
      ∀ context format,
        t.render context format = .error (e.mapPositions fun p => t.place p.offset)
  ok : ∀ tree, parse t.body = .ok tree → t.compile = .ok tree ∧
    ∀ context format, ∃ r, t.render context format = .ok r ∧
      r.text = (Proforma.render tree t.body.toList context format).text ∧
      List.Forall₂ (fun d d' => ∃ n ∈ Node.allStarts tree,
          d = d.placedAt (.ofOffset t.body.toList n) ∧ d' = d.placedAt (t.place n))
        (Proforma.render tree t.body.toList context format).diagnostics r.diagnostics

theorem place_eq (t : Template) (n : Nat) :
    t.place n = (Position.ofOffset t.body.toList n).within t.origin := by
  unfold place text origin
  rw [String.toList_append, Position.ofOffset_append]

theorem place_zero (t : Template) : t.place 0 = t.origin := by
  unfold place text origin
  rw [String.toList_append, Nat.add_zero, Position.ofOffset_byteLength]

theorem compile_eq_error {t : Template} {e : ParseError} (h : parse t.body = .error e) :
    t.compile = .error (e.mapPositions fun p => t.place p.offset) := by
  have hplaced := placedIn_parseChars h
  have hwithin : e.within t.origin = e.mapPositions (·.within t.origin) := by cases e <;> rfl
  unfold compile
  rw [h]
  show Except.error (e.within t.origin) = _
  rw [hwithin, ParseError.mapPositions_congr fun p hp => ?_]
  show p.within t.origin = t.place p.offset
  rw [place_eq, ← hplaced p hp]

theorem showsBody (t : Template) : t.ShowsBody where
  error e h := by
    have hc := compile_eq_error h
    refine ⟨placedIn_parseChars h, hc, fun context format => ?_⟩
    unfold render
    rw [hc]
    rfl
  ok tree h := by
    have hc : t.compile = .ok tree := by
      unfold compile
      rw [h]
      rfl
    refine ⟨hc, fun context format => ?_⟩
    unfold render
    rw [hc, ok_bind]
    refine ⟨_, rfl, rfl, ?_⟩
    rw [List.forall₂_map_right_iff, List.forall₂_same]
    intro d hd
    -- a diagnostic has no offset, so it is moved from the start of the directive it is about
    obtain ⟨n, hn, he⟩ := startsAt_renderNodes _ _ tree d hd
    refine ⟨n, hn, he, ?_⟩
    rw [place_eq]
    exact congrArg (Diagnostic.within · t.origin) he

end Template

/-- Front matter moves places and nothing else: the text of a template is what it was made of, its
body is what follows the front matter, or all of it, and the body is read and shown as it is on its
own, with the places that it has in the whole text. -/
theorem frontMatter_moves_places {name content : String} {t : Template}
    (h : Template.ofMarkdown? name content = some t) :
    t.text = content ∧
      (∀ body, FrontMatter.HasBody content.toList body → t.body.toList = body) ∧
      ((∀ body, ¬ FrontMatter.HasBody content.toList body) → t.body = content) ∧
      t.origin = t.place 0 ∧ t.ShowsBody := by
  have hparts : t.text = content ∧
      (∀ body, FrontMatter.HasBody content.toList body → t.body.toList = body) ∧
      ((∀ body, ¬ FrontMatter.HasBody content.toList body) → t.body = content) := by
    unfold Template.ofMarkdown? at h
    split at h
    · next hs =>
      obtain rfl := Option.some.inj h
      refine ⟨String.empty_append, fun body hb => ?_, fun _ => rfl⟩
      obtain ⟨parts, hp, -⟩ := hb.exists_split?
      simp [hs] at hp
    · next parts hs =>
      obtain ⟨front, -, rfl⟩ := Option.map_eq_some_iff.mp h
      refine ⟨?_, fun body hb => ?_, fun hn => ?_⟩
      · rw [Template.text, ← String.ofList_append, FrontMatter.append_of_split? hs,
          String.ofList_toList]
      · obtain ⟨parts', hp, rfl⟩ := hb.exists_split?
        obtain rfl := Option.some.inj (hs.symm.trans hp)
        exact String.toList_ofList
      · exact (hn _ (FrontMatter.hasBody_of_split? hs)).elim
  obtain ⟨htext, hbody, hwhole⟩ := hparts
  exact ⟨htext, hbody, hwhole, t.place_zero.symm, t.showsBody⟩

theorem frontMatter_moves_places_crlf :
    let head := "---\r\nname: a\r\n---\t\r\n"
    let shown : Template := ⟨"a", "0", none, head, "é\x7b\x7b A \x7d\x7d"⟩
    let broken : Template := ⟨"a", "0", none, head, "é\x7b% if A %\x7d\n\x7b% endfor %\x7d"⟩
    let context : Context := ⟨.object [], ⟨⟨2024, 6, 1⟩, .midnight, 0⟩⟩
    Template.ofMarkdown? "b" shown.text = some shown ∧
      (∃ r, shown.render context .standard = .ok r ∧ r.text = "é" ∧
        r.diagnostics = [⟨.unresolvedPath, "A", "`A` did not resolve", 4, 2⟩]) ∧
      Template.ofMarkdown? "b" broken.text = some broken ∧
      broken.compile =
        .error (.blockMismatch (some ⟨"if", ⟨22, 4, 2⟩⟩) (some ⟨"endfor", ⟨33, 5, 1⟩⟩)) := by
  intro head shown broken context
  have hshown : Template.ofMarkdown? "b" shown.text = some shown := by decide +kernel
  have hbroken : Template.ofMarkdown? "b" broken.text = some broken := by decide +kernel
  have hbody : (parse shown.body).toOption.map (fun tree =>
      (Node.allStarts tree, render tree shown.body.toList context .standard)) =
      some ([2], ⟨"é", [⟨.unresolvedPath, "A", "`A` did not resolve", 1, 2⟩]⟩) := by
    decide +kernel
  obtain ⟨-, -, -, -, -, hok⟩ := frontMatter_moves_places hshown
  obtain ⟨-, -, -, -, herror, -⟩ := frontMatter_moves_places hbroken
  refine ⟨hshown, ?_, hbroken, ?_⟩
  · cases ht : parse shown.body with
    | error e => simp [ht, Except.toOption] at hbody
    | ok tree =>
      rw [ht] at hbody
      obtain ⟨hstarts, halone⟩ := Prod.mk.inj (Option.some.inj hbody)
      obtain ⟨r, hr, htext, hmoved⟩ := (hok tree ht).2 context .standard
      rw [halone] at htext hmoved
      rw [hstarts] at hmoved
      obtain ⟨d, ds, ⟨n, hn, -, rfl⟩, hnil, hd⟩ := List.forall₂_cons_left_iff.mp hmoved
      obtain rfl := List.forall₂_nil_left_iff.mp hnil
      obtain rfl := List.mem_singleton.mp hn
      refine ⟨r, hr, htext, hd.trans ?_⟩
      decide +kernel
  · have hfails : (parse broken.body).map (fun _ => ()) =
        .error (.blockMismatch (some ⟨"if", ⟨2, 1, 2⟩⟩) (some ⟨"endfor", ⟨13, 2, 1⟩⟩)) := by
      decide +kernel
    cases ht : parse broken.body with
    | ok tree => simp [ht, Except.map] at hfails
    | error e =>
      rw [ht] at hfails
      obtain rfl := Except.error.inj hfails
      refine (herror _ ht).2.1.trans (congrArg Except.error ?_)
      decide +kernel

end Proforma
