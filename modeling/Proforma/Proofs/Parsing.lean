import Mathlib.Data.List.Forall2
import Proforma.Proofs.Building
import Proforma.Proofs.Cutting

/-!
What parsing finds. A source is read as a tree exactly if it has a cut into pieces whose parts are
those of the tree.
-/
namespace Proforma

open Text

/-- Where a call stands does not change what it calls. -/
theorem readCall_stop (stop stop' : Nat) (cs : List Char) :
    (readCall stop cs).map (Prod.map FilterCall.call id) =
      (readCall stop' cs).map (Prod.map FilterCall.call id) := by
  unfold readCall
  cases readIdentifier? cs with
  | none => rfl
  | some found =>
    obtain ⟨name, rest⟩ := found
    dsimp only
    cases Filter.ofName? (String.ofList name) with
    | none => rfl
    | some filter =>
      dsimp only
      cases readCallArguments rest with
      | error e => rfl
      | ok found =>
        obtain ⟨args, rest⟩ := found
        simp only [ok_bind]
        split
        · cases filter.checkArguments args <;> rfl
        · rfl

theorem readPipeline_of_nil (stop : Nat) {cs : List Char} (h : skipBlanks cs = []) :
    readPipeline stop cs = .ok [] := by
  rw [readPipeline]
  split
  · rfl
  · next hs => simp [h] at hs
  · next hn _ => exact (hn h).elim

theorem readPipeline_of_bar (stop : Nat) {cs rest : List Char} (h : skipBlanks cs = '|' :: rest) :
    readPipeline stop cs =
      (readCall stop (skipBlanks rest)).bind fun (call, after) =>
        (readPipeline stop after).map (call :: ·) := by
  rw [readPipeline]
  split
  · next hs => simp [h] at hs
  · next hs =>
    obtain rfl : _ = rest := by simpa [h] using hs.symm
    split
    · next hc => rw [hc]; rfl
    · next hc =>
      rw [hc]
      rfl
  · next hn => exact (hn _ h).elim

theorem readPipeline_stop (stop stop' : Nat) (cs : List Char) :
    (readPipeline stop cs).map (List.map FilterCall.call) =
      (readPipeline stop' cs).map (List.map FilterCall.call) := by
  fun_induction readPipeline stop cs with
  | case1 cs h => rw [readPipeline_of_nil stop' h]
  | case2 cs rest h e hc =>
    have hs := readCall_stop stop stop' (skipBlanks rest)
    rw [readPipeline_of_bar stop' h]
    cases hc' : readCall stop' (skipBlanks rest) with
    | error e' => simpa [hc, hc', Except.map, Except.bind] using hs
    | ok found => simp [hc, hc', Except.map] at hs
  | case3 cs rest h call after hc ih =>
    have hs := readCall_stop stop stop' (skipBlanks rest)
    rw [readPipeline_of_bar stop' h]
    cases hc' : readCall stop' (skipBlanks rest) with
    | error e' => simp [hc, hc', Except.map] at hs
    | ok found =>
      obtain ⟨call', after'⟩ := found
      obtain ⟨hcall, rfl⟩ : call.call = call'.call ∧ after = after' := by
        simpa [hc, hc', Except.map] using hs
      dsimp only [Except.bind]
      revert ih
      cases readPipeline stop after with
      | error e =>
        cases readPipeline stop' after with
        | error e' => intro ih; simpa [Except.map, bind, Except.bind] using ih
        | ok calls' => intro ih; simp [Except.map] at ih
      | ok calls =>
        cases readPipeline stop' after with
        | error e' => intro ih; simp [Except.map] at ih
        | ok calls' => intro ih; simpa [Except.map, bind, Except.bind, hcall] using ih
  | case4 cs hn hb =>
    rw [readPipeline]
    split
    · next h => exact (hn h).elim
    · next h => exact (hb _ h).elim
    · rfl

/-- The part that a piece is read as. -/
def Chunk.part? : Chunk → Option Part
  | text raw => some (.text (String.ofList raw))
  | directive .expression content =>
    match readExpression 0 content with
    | .ok (path, filters) => some (.expression path (filters.map FilterCall.call))
    | .error _ => none
  | directive .tag content =>
    match readDirective content with
    | .ok d => some (.directive d)
    | .error _ => none

theorem readExpression_stop (stop stop' : Nat) (content : List Char) :
    (readExpression stop content).map (Prod.map id (List.map FilterCall.call)) =
      (readExpression stop' content).map (Prod.map id (List.map FilterCall.call)) := by
  unfold readExpression
  cases skipBlanks content with
  | nil => rfl
  | cons c cs =>
    dsimp only
    cases readPath (c :: cs) with
    | error e => rfl
    | ok found =>
      obtain ⟨path, rest⟩ := found
      have h := readPipeline_stop stop stop' rest
      simp only [ok_bind]
      revert h
      cases readPipeline stop rest with
      | error e =>
        cases readPipeline stop' rest with
        | error e' => intro h; simpa [Except.map, bind, Except.bind] using h
        | ok calls' => intro h; simp [Except.map] at h
      | ok calls =>
        cases readPipeline stop' rest with
        | error e' => intro h; simp [Except.map] at h
        | ok calls' => intro h; simpa [Except.map, bind, Except.bind] using h

/-- A piece is read as an item wherever it stands, and the item is written as the part. -/
theorem parts_ofPiece (source : List Char) (start : Nat) (c : Chunk) :
    (Item.ofPiece source (c.pieceAt start)).toOption.map Item.parts = c.part?.map ([·]) := by
  cases c with
  | text raw => rfl
  | directive d content =>
    cases d with
    | expression =>
      have h := readExpression_stop (start + Delimiter.width + byteLength content) 0 content
      simp only [Item.ofPiece, Chunk.pieceAt, Chunk.part?]
      revert h
      cases readExpression (start + Delimiter.width + byteLength content) content with
      | error e =>
        cases readExpression 0 content with
        | error e' => intro _; rfl
        | ok found => intro h; simp [Except.map] at h
      | ok found =>
        cases readExpression 0 content with
        | error e' => intro h; simp [Except.map] at h
        | ok found' =>
          intro h
          obtain ⟨hp, hc⟩ : found.1 = found'.1 ∧
              found.2.map FilterCall.call = found'.2.map FilterCall.call := by
            simpa [Except.map, Prod.map] using h
          simp [Except.toOption, Item.parts, Node.parts, hp, hc]
    | tag =>
      simp only [Item.ofPiece, Chunk.pieceAt, Chunk.part?]
      cases readDirective content with
      | error e => rfl
      | ok d => rfl

/-- Each item is the meaning of its piece. -/
def Means (source : List Char) : List Piece → List Item → Prop :=
  List.Forall₂ fun p i => Item.ofPiece source p = .ok i

theorem part?_of_ofPiece {source : List Char} {start : Nat} {c : Chunk} {i : Item}
    (h : Item.ofPiece source (c.pieceAt start) = .ok i) :
    ∃ q, c.part? = some q ∧ i.parts = [q] := by
  have hp := parts_ofPiece source start c
  rw [h] at hp
  cases hq : c.part? with
  | none => simp [Except.toOption, hq] at hp
  | some q => exact ⟨q, rfl, by simpa [Except.toOption, hq] using hp⟩

theorem ofPiece_of_part? {c : Chunk} {q : Part} (h : c.part? = some q) (source : List Char)
    (start : Nat) : ∃ i, Item.ofPiece source (c.pieceAt start) = .ok i ∧ i.parts = [q] := by
  have hp := parts_ofPiece source start c
  cases hi : Item.ofPiece source (c.pieceAt start) with
  | error e => simp [Except.toOption, hi, h] at hp
  | ok i => exact ⟨i, rfl, by simpa [Except.toOption, hi, h] using hp⟩

theorem exists_means {cs : List Chunk} {qs : List Part} (h : cs.map Chunk.part? = qs.map some)
    (source : List Char) (start : Nat) :
    ∃ is, Means source (placed start cs) is ∧ is.map Item.parts = qs.map ([·]) := by
  induction cs generalizing qs start with
  | nil =>
    obtain rfl : qs = [] := by simpa using h.symm
    exact ⟨[], .nil, rfl⟩
  | cons c cs ih =>
    obtain ⟨q, qs, rfl, hq, hs⟩ := List.map_eq_cons_iff.mp h.symm
    obtain ⟨i, hi, hip⟩ := ofPiece_of_part? hq.symm source start
    obtain ⟨is, his, hisp⟩ := ih hs.symm (start + byteLength c.source)
    exact ⟨i :: is, .cons hi his, by simp [hip, hisp]⟩

theorem parts_of_means {source : List Char} {start : Nat} {cs : List Chunk} {is : List Item}
    (h : Means source (placed start cs) is) :
    ∃ qs : List Part, cs.map Chunk.part? = qs.map some ∧ is.map Item.parts = qs.map ([·]) := by
  induction cs generalizing is start with
  | nil =>
    cases h
    exact ⟨[], rfl, rfl⟩
  | cons c cs ih =>
    cases h with
    | cons hi his =>
      obtain ⟨q, hq, hip⟩ := part?_of_ofPiece hi
      obtain ⟨qs, hqs, hisp⟩ := ih his
      exact ⟨q :: qs, by simp [hq, hqs], by simp [hip, hisp]⟩

theorem step_eq_ok {source : List Char} {b b' : Builder} {p : Piece} :
    Builder.step source b p = .ok b' ↔
      ∃ i, Item.ofPiece source p = .ok i ∧ b.place i = .ok b' := by
  unfold Builder.step
  cases Item.ofPiece source p with
  | error e => simp [bind, Except.bind]
  | ok i => cases hp : b.place i <;> simp [ok_bind, hp, Except.mapError]

/-- Pieces are taken up one by one as the items that they mean. -/
theorem foldlM_step_of_means {source : List Char} {ps : List Piece} {is : List Item}
    (h : Means source ps is) (b : Builder) : ps.foldlM (Builder.step source) b =
      (is.foldlM Builder.place b).mapError (·.toError source) := by
  induction h generalizing b with
  | nil => rfl
  | cons hi _ ih =>
    rw [List.foldlM_cons, List.foldlM_cons]
    unfold Builder.step
    rw [hi, ok_bind]
    cases b.place _ with
    | error f => rfl
    | ok b' => exact ih b'

theorem exists_means_of_foldlM_step {source : List Char} {ps : List Piece} {b b' : Builder}
    (h : ps.foldlM (Builder.step source) b = .ok b') : ∃ is, Means source ps is := by
  induction ps generalizing b with
  | nil => exact ⟨[], .nil⟩
  | cons p ps ih =>
    rw [List.foldlM_cons] at h
    obtain ⟨b₁, hs, h⟩ := bind_eq_ok.mp h
    obtain ⟨i, hi, -⟩ := step_eq_ok.mp hs
    obtain ⟨is, his⟩ := ih h
    exact ⟨i :: is, .cons hi his⟩

theorem foldlM_step {source : List Char} {ps : List Piece} {b b' : Builder} :
    ps.foldlM (Builder.step source) b = .ok b' ↔
      ∃ is, Means source ps is ∧ is.foldlM Builder.place b = .ok b' := by
  constructor
  · intro h
    obtain ⟨is, hm⟩ := exists_means_of_foldlM_step h
    rw [foldlM_step_of_means hm] at h
    cases hr : is.foldlM Builder.place b with
    | error f => simp [hr, Except.mapError] at h
    | ok b₁ => exact ⟨is, hm, by simpa [hr, Except.mapError] using h⟩
  · rintro ⟨is, hm, h⟩
    rw [foldlM_step_of_means hm, h]
    rfl

theorem pieces_sourceOf {cs : List Chunk} (h : IsCut cs) :
    pieces (sourceOf cs) = .ok (placed 0 cs) := piecesFrom_sourceOf h 0

theorem flatMap_parts {is : List Item} {qs : List Part} (h : is.map Item.parts = qs.map ([·])) :
    is.flatMap Item.parts = qs := by
  rw [List.flatMap_def, h, ← List.flatMap_def]
  exact List.flatMap_singleton' qs

/-- A source is read as what the items of its pieces are made into. -/
theorem parseChars_iff_builds {cs : List Chunk} {t : Tree} (hc : IsCut cs) :
    parseChars (sourceOf cs) = .ok t ↔
      ∃ is, Means (sourceOf cs) (placed 0 cs) is ∧ Builds is t := by
  unfold parseChars
  simp only [pieces_sourceOf hc]
  constructor
  · intro h
    obtain ⟨b, hf, hfin⟩ := bind_eq_ok.mp h
    obtain ⟨is, hm, hr⟩ := foldlM_step.mp hf
    have hfin : b.finish = .ok t := by
      cases hb : b.finish with
      | error e => simp [hb, Except.mapError] at hfin
      | ok t' => simpa [hb, Except.mapError] using hfin
    obtain ⟨qs, -, his⟩ := parts_of_means hm
    have ht : t.parts = qs := (Builder.parts_of_finish hr hfin).trans (flatMap_parts his)
    obtain ⟨ns, hn, -⟩ := exists_builds t (his.trans (by rw [← ht]; rfl))
    -- the items are made into `ns` and into `t`
    rw [hn.run, Builder.pushAll_empty] at hr
    obtain rfl := Except.ok.inj hr
    obtain rfl := Except.ok.inj hfin
    exact ⟨is, hm, hn⟩
  · rintro ⟨is, hm, hb⟩
    rw [foldlM_step.mpr ⟨is, hm, hb.run .empty⟩, ok_bind, Builder.pushAll_empty]
    rfl

/-- A cut whose pieces are read as the parts of a tree is read as that tree. -/
theorem parseChars_of_parts {cs : List Chunk} {t : Tree} (hc : IsCut cs)
    (hp : cs.map Chunk.part? = t.parts.map some) :
    ∃ t', parseChars (sourceOf cs) = .ok t' ∧ t'.bare = t.bare := by
  obtain ⟨is, hm, his⟩ := exists_means hp (sourceOf cs) 0
  obtain ⟨ns, hn, hb⟩ := exists_builds t his
  exact ⟨ns, (parseChars_iff_builds hc).mpr ⟨is, hm, hn⟩, hb⟩

/-- A tree that is read has the parts that the pieces of its source are read as. -/
theorem part?_of_parseChars {cs : List Chunk} {t : Tree} (hc : IsCut cs)
    (h : parseChars (sourceOf cs) = .ok t) : cs.map Chunk.part? = t.parts.map some := by
  obtain ⟨is, hm, hb⟩ := (parseChars_iff_builds hc).mp h
  obtain ⟨qs, hqs, his⟩ := parts_of_means hm
  have ht : t.parts = qs := hb.parts.trans (flatMap_parts his)
  rw [hqs, ht]

theorem exists_means_iff {source : List Char} {ps : List Piece} :
    (∃ is, Means source ps is) ↔ ∀ p ∈ ps, ∃ i, Item.ofPiece source p = .ok i := by
  induction ps with
  | nil => exact ⟨fun _ => by simp, fun _ => ⟨[], .nil⟩⟩
  | cons p ps ih =>
    rw [List.forall_mem_cons, ← ih]
    constructor
    · rintro ⟨is, h⟩
      cases h with
      | cons hi h => exact ⟨⟨_, hi⟩, _, h⟩
    · rintro ⟨⟨i, hi⟩, is, h⟩
      exact ⟨i :: is, .cons hi h⟩

/-- Every piece of a source that is read has a meaning. -/
theorem ofPiece_of_parseChars {source : List Char} {t : Tree} (h : parseChars source = .ok t) :
    ∃ ps, pieces source = .ok ps ∧ ∀ p ∈ ps, ∃ i, Item.ofPiece source p = .ok i := by
  cases hp : pieces source with
  | error e => simp [parseChars, hp] at h
  | ok ps =>
    simp only [parseChars, hp] at h
    cases hf : ps.foldlM (Builder.step source) .empty with
    | error e => simp [hf, bind, Except.bind] at h
    | ok b =>
      obtain ⟨is, hm, -⟩ := foldlM_step.mp hf
      exact ⟨ps, rfl, exists_means_iff.mp ⟨is, hm⟩⟩

/-- A source that is read as a tree has a cut into the parts of that tree. -/
theorem exists_cut_of_parseChars {source : List Char} {t : Tree} (h : parseChars source = .ok t) :
    ∃ cs, IsCut cs ∧ sourceOf cs = source ∧ cs.map Chunk.part? = t.parts.map some := by
  cases hp : pieces source with
  | error e => simp [parseChars, hp] at h
  | ok ps =>
    obtain ⟨cs, hc, rfl, -⟩ := exists_cut_of_piecesFrom hp
    exact ⟨cs, hc, rfl, part?_of_parseChars hc h⟩

end Proforma
