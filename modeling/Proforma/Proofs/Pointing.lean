import Proforma.Proofs.Nesting
import Proforma.Proofs.Scanning
import Proforma.Proofs.Segmenting

/-!
Where errors point. A source that is not read fails at a directive up to which it is read, if blocks
that are still open there are let be, and the error is about a place in that directive.
-/
namespace Proforma

open Text

theorem placed_append (start : Nat) (cs ds : List Chunk) :
    placed start (cs ++ ds) = placed start cs ++ placed (start + byteLength (sourceOf cs)) ds := by
  induction cs generalizing start with
  | nil => rfl
  | cons c cs ih =>
    rw [List.cons_append, placed, placed, ih, sourceOf_cons, byteLength_append, Nat.add_assoc]
    rfl

theorem mapError_bind_eq_ok {ε ε' α β : Type} {x : Except ε α} {f : ε → ε'}
    {k : α → Except ε' β} {b : β} :
    (x.mapError f >>= k) = .ok b ↔ ∃ a, x = .ok a ∧ k a = .ok b := by
  cases x with
  | error e => simp [Except.mapError, bind, Except.bind]
  | ok a => simp [Except.mapError, bind, Except.bind]

theorem exists_of_mapError_bind_eq_error {ε ε' α β : Type} {x : Except ε α} {f : ε → ε'}
    {k : α → Except ε' β} {e : ε'} (h : (x.mapError f >>= k) = .error e)
    (hk : ∀ a, k a ≠ .error e) : ∃ e', x = .error e' ∧ f e' = e := by
  cases x with
  | error e' => exact ⟨e', rfl, Except.error.inj h⟩
  | ok a => exact (hk a h).elim

/-- A piece that can be read means the same in every source. -/
theorem ofPiece_of_ofPiece {source : List Char} {p : Piece} {i : Item}
    (h : Item.ofPiece source p = .ok i) (source' : List Char) : Item.ofPiece source' p = .ok i := by
  cases p with
  | text start raw => exact h
  | directive start d content =>
    cases d with
    | expression =>
      rw [ofPiece_expression] at h ⊢
      exact mapError_bind_eq_ok.mpr (mapError_bind_eq_ok.mp h)
    | tag =>
      rw [ofPiece_tag] at h ⊢
      exact mapError_bind_eq_ok.mpr (mapError_bind_eq_ok.mp h)

theorem foldlM_step_of_foldlM {source : List Char} {ps : List Piece} {b b' : Builder}
    (h : ps.foldlM (Builder.step source) b = .ok b') (source' : List Char) :
    ps.foldlM (Builder.step source') b = .ok b' := by
  obtain ⟨is, hm, hr⟩ := foldlM_step.mp h
  exact foldlM_step.mpr ⟨is, List.Forall₂.imp (fun _ _ hi => ofPiece_of_ofPiece hi source') hm, hr⟩

theorem exists_of_placed_eq_append_cons {start : Nat} {cs : List Chunk} {before after : List Piece}
    {p : Piece} (h : placed start cs = before ++ p :: after) : ∃ cs₁ c cs₂, cs = cs₁ ++ c :: cs₂ ∧
      placed start cs₁ = before ∧ c.pieceAt (start + byteLength (sourceOf cs₁)) = p := by
  induction cs generalizing start before with
  | nil => simp [placed] at h
  | cons c cs ih =>
    rw [placed] at h
    cases before with
    | nil =>
      obtain ⟨hc, -⟩ := List.cons.inj h
      exact ⟨[], c, cs, rfl, rfl, hc⟩
    | cons q before =>
      obtain ⟨rfl, hrest⟩ := List.cons.inj h
      obtain ⟨cs₁, c', cs₂, rfl, rfl, rfl⟩ := ih hrest
      refine ⟨c :: cs₁, c', cs₂, rfl, rfl, ?_⟩
      rw [sourceOf_cons, byteLength_append, Nat.add_assoc]

theorem Builder.innermost?_eq (b : Builder) : b.innermost? = b.opened.head?.map Opened.mark := by
  rw [opened, List.head?_map, Option.map_map]
  rfl

theorem Builder.place_eq_error {b : Builder} {i : Item} {f : BlockFault}
    (h : b.place i = .error f) :
    ∃ d span, i = .directive d span ∧ f = b.mismatch ⟨d.keyword, span.start⟩ := by
  cases i with
  | leaf node => simp [place] at h
  | directive d span =>
    have ho := map_opened_directive b d span
    rw [h] at ho
    refine ⟨d, span, rfl, ?_⟩
    rw [openAfter_eq_error ho.symm, ← innermost?_eq]
    rfl

/-- The source is cut into `cs` and `rest`, and `cs` leave the builder `b`. -/
structure Reaches (source : List Char) (cs rest : List Chunk) (b : Builder) : Prop where
  cut : IsCut (cs ++ rest)
  source_eq : source = sourceOf cs ++ sourceOf rest
  run : (placed 0 cs).foldlM (Builder.step source) .empty = .ok b

/-- The source is read, or all that is wrong with it is a block that never ends. -/
def ReadsSoFar (source : List Char) : Prop :=
  (∃ t, parseChars source = .ok t) ∨
    ∃ opening, parseChars source = .error (.blockMismatch opening none)

theorem Builder.mapError_finish (b : Builder) (source : List Char) :
    (∃ t, b.finish.mapError (·.toError source) = .ok t) ∨
      ∃ opening, b.finish.mapError (·.toError source) = .error (.blockMismatch opening none) := by
  unfold Builder.finish
  cases b.innermost? with
  | none => exact .inl ⟨_, rfl⟩
  | some m => exact .inr ⟨_, rfl⟩

/-- What is read before a directive is read on its own. -/
theorem Reaches.readsSoFar {source : List Char} {cs rest : List Chunk} {b : Builder}
    (h : Reaches source cs rest b) : ReadsSoFar (sourceOf cs) := by
  have hp : parseChars (sourceOf cs) = b.finish.mapError (·.toError (sourceOf cs)) := by
    unfold parseChars
    rw [pieces_sourceOf (isCut_append.mp h.cut).1]
    dsimp only
    rw [foldlM_step_of_foldlM h.run, ok_bind]
  unfold ReadsSoFar
  rw [hp]
  exact b.mapError_finish _

/-- The directive that is open innermost has been read. -/
theorem Reaches.mem_marks {source : List Char} {cs rest : List Chunk} {b : Builder}
    (h : Reaches source cs rest b) {m : Mark} (hm : b.innermost? = some m) :
    m ∈ marks (placed 0 cs) := by
  obtain ⟨is, hmeans, hrun⟩ := foldlM_step.mp h.run
  have hopen := Builder.map_opened_run is .empty
  rw [hrun, filterMap_mark?_of_means hmeans] at hopen
  have hs := (stacked_of_foldlM hopen.symm).innermost
  rw [← b.innermost?_eq, hm] at hs
  generalize hms : marks (placed 0 cs) = ms at hs
  cases hs with
  | some => simp

/-- The offset of a misreading is that of the opener, or is found in the content. -/
theorem Cursor.Locates.offset {α : Type} {start stop : Nat} {text : List Char}
    {x : ExceptT Located Option α} {e : Misread} (h : Locates start stop text x (.error e)) :
    e.offset start stop = start ∨
      ∃ rest, rest <:+ text ∧ e.offset start stop = stop - byteLength rest := by
  cases h with
  | error hr =>
    unfold Misread.offset
    split
    · exact .inl rfl
    · exact .inl rfl
    · exact .inr ⟨e.rest, hr, rfl⟩

/-- The fault of a directive is found at its opener or in its content. -/
theorem exists_of_ofPiece_eq_error {source content : List Char} {start : Nat} {d : Delimiter}
    {e : ParseError} (h : Item.ofPiece source (.directive start d content) = .error e) :
    ∃ f n, e = .fault f (.ofOffset source n) ∧ (n = start ∨ ∃ rest, rest <:+ content ∧
      n = start + Delimiter.width + byteLength content - byteLength rest) := by
  cases d with
  | expression =>
    have hl := locates_expression content (start + Delimiter.width) start
    rw [ofPiece_expression] at h
    obtain ⟨e', hr, rfl⟩ := exists_of_mapError_bind_eq_error h (by simp)
    rw [hr] at hl
    exact ⟨e'.fault, _, rfl, hl.offset⟩
  | tag =>
    have hl := locates_scanDirective content (start + Delimiter.width) start
    rw [ofPiece_tag] at h
    obtain ⟨e', hr, rfl⟩ := exists_of_mapError_bind_eq_error h (by simp)
    rw [hr] at hl
    exact ⟨e'.fault, _, rfl, hl.offset⟩

/-- Why a source is not read. It cannot be cut; a directive cannot be read, at its opener or at a
place in its content; a directive does not continue the block that is open innermost; or that block
never ends. -/
inductive Fails (source : List Char) : ParseError → Prop where
  | lex {e : LexError} (h : Refused source e) : Fails source (.lex e (.ofOffset source e.offset))
  | fault {cs rest : List Chunk} {d : Delimiter} {content : List Char} {b : Builder} {f : Fault}
    {n : Nat} (h : Reaches source cs (.directive d content :: rest) b)
    (hn : n = byteLength (sourceOf cs) ∨ ∃ left, left <:+ content ∧
      n = byteLength (sourceOf cs) + Delimiter.width + byteLength content - byteLength left) :
    Fails source (.fault f (.ofOffset source n))
  | closing {cs rest : List Chunk} {content : List Char} {b : Builder}
    (h : Reaches source cs (.directive .tag content :: rest) b) :
    Fails source (.blockMismatch (b.innermost?.map (·.site source))
      (some (Mark.site source ⟨keywordOf content, byteLength (sourceOf cs)⟩)))
  | opening {cs : List Chunk} {b : Builder} {m : Mark} (h : Reaches source cs [] b)
    (hm : b.innermost? = some m) : Fails source (.blockMismatch (some (m.site source)) none)

/-- A source whose next piece is not placed fails at that piece. -/
theorem Reaches.fails_of_step {source : List Char} {cs rest : List Chunk} {c : Chunk} {b : Builder}
    {e : ParseError} (hr : Reaches source cs (c :: rest) b)
    (h : b.step source (c.pieceAt (byteLength (sourceOf cs))) = .error e) : Fails source e := by
  unfold Builder.step at h
  cases c with
  | text raw => simp [Chunk.pieceAt, Item.ofPiece, ok_bind, Builder.place, Except.mapError] at h
  | directive d content =>
    rw [Chunk.pieceAt] at h
    cases hi : Item.ofPiece source (.directive (byteLength (sourceOf cs)) d content) with
    | error e' =>
      rw [hi] at h
      obtain rfl := Except.error.inj h
      obtain ⟨f, n, rfl, hn⟩ := exists_of_ofPiece_eq_error hi
      exact .fault hr hn
    | ok i =>
      rw [hi, ok_bind] at h
      cases hplace : b.place i with
      | ok b' => simp [hplace, Except.mapError] at h
      | error f =>
        rw [hplace] at h
        obtain rfl := Except.error.inj h
        obtain ⟨d', span, rfl, rfl⟩ := Builder.place_eq_error hplace
        have hmark := mark?_of_ofPiece hi
        cases d with
        | expression => simp [Item.mark?, Piece.mark?] at hmark
        | tag =>
          have hm : (⟨d'.keyword, span.start⟩ : Mark) =
              ⟨keywordOf content, byteLength (sourceOf cs)⟩ := Option.some.inj hmark
          rw [hm]
          exact .closing hr

/-- A source all of whose pieces are placed fails at a block that never ends. -/
theorem Reaches.fails_of_finish {source : List Char} {cs : List Chunk} {b : Builder}
    {e : ParseError} (hr : Reaches source cs [] b)
    (h : b.finish.mapError (·.toError source) = .error e) : Fails source e := by
  unfold Builder.finish at h
  cases hm : b.innermost? with
  | none => simp [hm, Except.mapError] at h
  | some m =>
    rw [hm] at h
    obtain rfl := Except.error.inj h
    exact .opening hr hm

theorem fails_of_parseChars {source : List Char} {e : ParseError}
    (h : parseChars source = .error e) : Fails source e := by
  unfold parseChars at h
  cases hp : pieces source with
  | error e' =>
    rw [hp] at h
    obtain rfl := Except.error.inj h
    exact .lex (pieces_eq_error.mp hp)
  | ok ps =>
    rw [hp] at h
    obtain ⟨cs, hc, rfl, rfl⟩ := exists_cut_of_piecesFrom hp
    dsimp only at h
    cases hf : (placed 0 cs).foldlM (Builder.step (sourceOf cs)) .empty with
    | ok b =>
      rw [hf, ok_bind] at h
      have hr : Reaches (sourceOf cs) cs [] b := ⟨by rwa [List.append_nil], by simp, hf⟩
      exact hr.fails_of_finish h
    | error e' =>
      rw [hf] at h
      obtain rfl := Except.error.inj h
      obtain ⟨before, p, after, b, hps, hb, he⟩ := exists_of_foldlM_eq_error hf
      obtain ⟨cs₁, c, cs₂, rfl, rfl, rfl⟩ := exists_of_placed_eq_append_cons hps
      have hr : Reaches (sourceOf (cs₁ ++ c :: cs₂)) cs₁ (c :: cs₂) b :=
        ⟨hc, sourceOf_append _ _, hb⟩
      rw [Nat.zero_add] at he
      exact hr.fails_of_step he

/-- A directive of the source, from its opener to its closer, behind `before`. -/
def HasDirective (source before : List Char) (d : Delimiter) (content : List Char) : Prop :=
  (∃ after, source = before ++ (d.opener ++ content ++ d.closer) ++ after) ∧
    ∃ ps, pieces source = .ok ps ∧ .directive (byteLength before) d content ∈ ps

theorem Reaches.hasDirective {source content : List Char} {cs rest : List Chunk} {d : Delimiter}
    {b : Builder} (h : Reaches source cs (.directive d content :: rest) b) :
    HasDirective source (sourceOf cs) d content := by
  constructor
  · refine ⟨sourceOf rest, ?_⟩
    rw [h.source_eq, sourceOf_cons, List.append_assoc]
    rfl
  · refine ⟨_, (by rw [h.source_eq, ← sourceOf_append]; exact pieces_sourceOf h.cut), ?_⟩
    rw [placed_append, placed, Nat.zero_add]
    simp [Chunk.pieceAt]

/-- The directive that opens behind `before`, with `rest` after its opener, has no closer; or
another one opens in it, up to the first closer that matches. -/
inductive Unfinished (before : List Char) (d : Delimiter) : List Char → LexError → Prop where
  | unterminated {rest : List Char} (hc : ¬ d.closer <:+: rest) :
    Unfinished before d rest (.unterminated d (byteLength before))
  | nested {inner : Delimiter} {lead more after : List Char}
    (hc : BeginsNowhere d.closer (lead ++ inner.opener ++ more) (d.closer ++ after))
    (ho : ∀ d' : Delimiter, BeginsNowhere d'.opener lead (inner.opener ++ more)) :
    Unfinished before d (lead ++ inner.opener ++ more ++ d.closer ++ after)
      (.nested d inner (byteLength (before ++ d.opener ++ lead)))

/-- An error points at the first directive that is at fault. -/
structure PointsFirst (source : List Char) (e : ParseError) : Prop where
  fault : ∀ f p, e = .fault f p → ∃ before d content, HasDirective source before d content ∧
    byteLength before ≤ p.offset ∧
    p.offset < byteLength (before ++ (d.opener ++ content ++ d.closer)) ∧ ReadsSoFar before
  closing : ∀ opening site, e = .blockMismatch opening (some site) → ∃ before d content,
    HasDirective source before d content ∧ site.position.offset = byteLength before ∧
    ReadsSoFar before
  lex : ∀ e' p, e = .lex e' p → ∃ before d rest, source = before ++ d.opener ++ rest ∧
    Unfinished before d rest e' ∧ p.offset = e'.offset ∧ ∃ ts, tokens before = .ok ts

theorem offset_ofOffset_of_le {source : List Char} {n : Nat} (h : n ≤ byteLength source) :
    (Position.ofOffset source n).offset = n := min_eq_left h

theorem Segments.exists_tokens {source rest : List Char} {cs : List Chunk}
    (h : Segments source cs rest) (ho : Opens rest) : ∃ ts, tokens (sourceOf cs) = .ok ts := by
  unfold tokens
  rw [pieces_sourceOf (h.isCut (.inr ho)).1]
  exact ⟨_, rfl⟩

/-- Where a source is refused, a directive opens that has no end, and what is before it is cut. -/
theorem exists_unfinished_of_refused {source : List Char} {e : LexError} (h : Refused source e) :
    e.offset ≤ byteLength source ∧ ∃ before d rest, source = before ++ d.opener ++ rest ∧
      Unfinished before d rest e ∧ ∃ ts, tokens before = .ok ts := by
  cases h with
  | @unterminated cs d rest hs hc =>
    have hsource := hs.source_eq
    rw [← List.append_assoc] at hsource
    refine ⟨?_, _, d, rest, hsource, .unterminated hc, hs.exists_tokens ⟨d, rest, rfl⟩⟩
    rw [hsource, List.append_assoc, byteLength_append]
    exact Nat.le_add_right _ _
  | @nested cs d inner lead more after hs hc ho =>
    have hsource : source =
        sourceOf cs ++ d.opener ++ (lead ++ inner.opener ++ more ++ d.closer ++ after) := by
      rw [hs.source_eq]
      simp only [List.append_assoc]
    refine ⟨?_, _, d, _, hsource, .nested hc ho, hs.exists_tokens ⟨d, _, by
      simp only [List.append_assoc]; rfl⟩⟩
    rw [hsource, LexError.offset]
    simp only [byteLength_append]
    omega

theorem pointsFirst_of_fails {source : List Char} {e : ParseError} (h : Fails source e) :
    PointsFirst source e := by
  cases h with
  | @lex e hr =>
    obtain ⟨hle, before, d, rest, hs, hu, ht⟩ := exists_unfinished_of_refused hr
    refine ⟨fun f p he => by simp at he, fun opening site he => by simp at he, fun e' p he => ?_⟩
    obtain ⟨rfl, rfl⟩ := ParseError.lex.inj he
    exact ⟨before, d, rest, hs, hu, offset_ofOffset_of_le hle, ht⟩
  | @fault cs rest d content b f n hr hn =>
    obtain ⟨⟨after, hs⟩, hpieces⟩ := hr.hasDirective
    have hbounds : byteLength (sourceOf cs) ≤ n ∧
        n < byteLength (sourceOf cs ++ (d.opener ++ content ++ d.closer)) := by
      simp only [byteLength_append, d.byteLength_opener, d.byteLength_closer, Delimiter.width] at *
      rcases hn with rfl | ⟨left, hl, rfl⟩
      · omega
      · have := byteLength_le_of_suffix hl
        omega
    have hoffset : (Position.ofOffset source n).offset = n := by
      apply offset_ofOffset_of_le
      rw [hs, byteLength_append]
      omega
    refine ⟨fun f' p he => ?_, fun opening site he => by simp at he, fun e' p he => by simp at he⟩
    obtain ⟨rfl, rfl⟩ := ParseError.fault.inj he
    rw [hoffset]
    exact ⟨_, d, content, ⟨⟨after, hs⟩, hpieces⟩, hbounds.1, hbounds.2, hr.readsSoFar⟩
  | @closing cs rest content b hr =>
    obtain ⟨⟨after, hs⟩, hpieces⟩ := hr.hasDirective
    refine ⟨fun f p he => by simp at he, fun opening site he => ?_, fun e' p he => by simp at he⟩
    obtain ⟨-, hsite⟩ := ParseError.blockMismatch.inj he
    obtain rfl := Option.some.inj hsite
    refine ⟨_, .tag, content, ⟨⟨after, hs⟩, hpieces⟩, offset_ofOffset_of_le ?_, hr.readsSoFar⟩
    rw [hr.source_eq, byteLength_append]
    exact Nat.le_add_right _ _
  | opening hr hm =>
    exact ⟨fun f p he => by simp at he, fun opening site he => by simp at he,
      fun e' p he => by simp at he⟩

/-- An error points at the first directive that is at fault: the offset is in the directive, or at
its start if it does not continue the block that is open, and what stands before the directive is
read but for blocks that never end. Where the source cannot be cut, what stands before the directive that
has no end is cut. -/
theorem parse_error_points_first {source : String} {e : ParseError}
    (h : parse source = .error e) : PointsFirst source.toList e :=
  pointsFirst_of_fails (fails_of_parseChars h)

theorem eq_error_of_map {ε α β : Type} {x : Except ε α} {f : α → β} {e : ε}
    (h : x.map f = .error e) : x = .error e := by
  cases x with
  | error e' => rw [Except.error.inj h]
  | ok a => simp [Except.map] at h

theorem parse_error_points_first_behind_block :
    let unknown := "é\x7b% if A %\x7d\x7b\x7b B | shout \x7d\x7d\x7b% endfor %\x7d"
    let crossed := "é\x7b% if A %\x7d\x7b% endfor %\x7d\x7b\x7b B | shout \x7d\x7d"
    let nested := "é\x7b\x7b A \x7b% if B %\x7d \x7d\x7d"
    let shout : ParseError := .fault (.unknownFilter "shout") ⟨19, 1, 19⟩
    let mismatch : ParseError :=
      .blockMismatch (some ⟨"if", ⟨2, 1, 2⟩⟩) (some ⟨"endfor", ⟨12, 1, 12⟩⟩)
    let opener : ParseError := .lex (.nested .expression .tag 7) ⟨7, 1, 7⟩
    (parse unknown = .error shout ∧ PointsFirst unknown.toList shout) ∧
      (parse crossed = .error mismatch ∧ PointsFirst crossed.toList mismatch) ∧
      parse nested = .error opener ∧ PointsFirst nested.toList opener := by
  intro unknown crossed nested shout mismatch opener
  have hu : (parse unknown).map (fun _ => ()) = .error shout := by decide +kernel
  have hc : (parse crossed).map (fun _ => ()) = .error mismatch := by decide +kernel
  have hn : (parse nested).map (fun _ => ()) = .error opener := by decide +kernel
  have hu := eq_error_of_map hu
  have hc := eq_error_of_map hc
  have hn := eq_error_of_map hn
  exact ⟨⟨hu, parse_error_points_first hu⟩, ⟨hc, parse_error_points_first hc⟩, hn,
    parse_error_points_first hn⟩

end Proforma
