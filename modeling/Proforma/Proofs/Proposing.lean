import Proforma.Proofs.Escaping
import Proforma.Proofs.Fragment
import Proforma.Settings.Basic

/-!
When a proposal can be made. Everything in its text is read back, whatever the schema holds,
except that the pattern of moments must be a pattern and must not hold a delimiter.
-/
namespace Proforma

open Text

namespace Proposal

/-- A moment's piece up to its pattern. -/
def momentFront (cs : List Char) : List Char :=
  ' ' :: (cs ++ (" | ".toList ++ (Filter.datetime.name.toList ++ ['(', '\x27'])))

theorem momentContent_eq (o : Options) (cs : List Char) :
    ' ' :: momentContent o cs ++ [' '] =
      momentFront cs ++ (escaped '\x27' o.momentPattern.toList ++ ['\x27', ')', ' ']) := by
  simp [momentContent, momentFront, quoted_eq, Filter.name]

theorem clear_momentFront {cs : List Char} (h : Clear cs) : Clear (momentFront cs) := by
  have hf : Clear (" | ".toList ++ (Filter.datetime.name.toList ++ ['(', '\x27'])) := by decide
  exact .cons (by decide) (h.append hf)

/-- Only the pattern can bring a delimiter into a moment's piece. -/
theorem undelimited_moment (o : Options) {cs : List Char} (h : Clear cs) :
    (expressionChunk (momentContent o cs)).Undelimited ↔ Undelimited o.momentPattern.toList := by
  have hq : isDelimiting '\x27' = false := by decide
  show Undelimited (' ' :: momentContent o cs ++ [' ']) ↔ _
  rw [momentContent_eq, ← undelimited_escaped hq o.momentPattern.toList]
  constructor
  · intro hu
    exact hu.of_infix
      (List.infix_append_of_infix_right (List.infix_append_of_infix_left (List.infix_refl _)))
  · intro hu
    have hback : Clear ['\x27', ')', ' '] := by decide
    have hf := clear_momentFront h
    exact hf.undelimited.append (hu.append hback.undelimited (.inr (isDelimiting_head? hq _)))
      (.inl hf.last)

theorem checkArguments_datetime {pattern : String} :
    Filter.datetime.checkArguments [.text pattern] = .ok () ↔ isPattern pattern = true := by
  simp only [Filter.checkArguments, Filter.parameters, Parameter.checkAll, Parameter.check]
  split <;> simp_all [bind, Except.bind]

/-- What a moment's piece is read as depends on what stands in its parentheses. -/
theorem arguments_of_moment {p : Path} {cs more : List Char} {r : Path × List FilterCall}
    (h : p.Written cs) (hp : p.WellFormed)
    (hr : readExpression 0 (momentFront cs ++ more) = .ok r) :
    ∃ as rest, readCallArguments ('(' :: '\x27' :: more) = .ok (as, rest) ∧
      Filter.datetime.checkArguments as = .ok () := by
  have hs : Stops continuesIdentifier ('(' :: '\x27' :: more) := stops_cons.mpr (by decide)
  refine arguments_of_readExpression h hp hs (r := r) ?_
  simpa [momentFront] using hr

theorem isPattern_of_moment {o : Options} {p : Path} {cs : List Char}
    {r : Path × List FilterCall} (h : p.Written cs) (hp : p.WellFormed)
    (hr : readExpression 0 (' ' :: momentContent o cs ++ [' ']) = .ok r) :
    isPattern o.momentPattern = true := by
  have hg : allBlank [] = true := rfl
  have hq : isQuote '\x27' = true := rfl
  have hargs := readCallArguments_applied hg (.last hg (.text o.momentPattern hq) hg)
    (by simp [Literal.isFinite]) [' ']
  rw [momentContent_eq] at hr
  obtain ⟨as, rest, ha, hc⟩ := arguments_of_moment h hp hr
  obtain rfl : [.text o.momentPattern] = as := by
    have he : readCallArguments ('(' :: '\x27' ::
        (escaped '\x27' o.momentPattern.toList ++ ['\x27', ')', ' '])) =
        .ok ([.text o.momentPattern], [' ']) := by simpa using hargs
    simp only [he, Except.ok.injEq, Prod.mk.injEq] at ha
    exact ha.1
  exact checkArguments_datetime.mp hc

theorem closer_first {cs pattern : List Char} (h : Clear cs)
    (hc : ¬ ['}', '}'] <:+: pattern ++ ['}']) :
    ¬ ['}', '}'] <:+: momentFront cs ++ escaped '\x27' pattern ++ ['}'] := by
  have hf := clear_momentFront h
  have he : escaped '\x27' pattern ++ ['}'] = escaped '\x27' (pattern ++ ['}']) := by
    rw [escaped_append]
    rfl
  rw [List.append_assoc, he]
  refine not_pair_append (by decide) (by decide) (hf.not_infix (by decide)) ?_ (.inl hf.last)
  rw [pair_infix_escaped (by decide) (by decide)]
  exact hc

theorem closer_last {o : Options} {cs : List Char} (h : Clear cs)
    (hc : ¬ ['}', '}'] <:+: o.momentPattern.toList) :
    ¬ ['}', '}'] <:+: ' ' :: momentContent o cs ++ [' '] ++ ['}'] := by
  have hq : isDelimiting '\x27' = false := by decide
  have hf := clear_momentFront h
  rw [momentContent_eq, List.append_assoc, List.append_assoc]
  refine not_pair_append (by decide) (by decide) (hf.not_infix (by decide)) ?_ (.inl hf.last)
  refine not_pair_append (by decide) (by decide) ?_ (by decide +kernel)
    (.inr (isDelimiting_head? hq _))
  rw [pair_infix_escaped (by decide) (by decide)]
  exact hc

/-- If a moment's piece is found and read, its pattern is a pattern without delimiters. -/
theorem pattern_of_moment {o : Options} {p : Path} {cs rest : List Char} {start : Nat}
    {ps : List Piece} (h : p.Written cs) (hp : p.WellFormed)
    (hps : piecesFrom start ((expressionChunk (momentContent o cs)).source ++ rest) = .ok ps)
    (hread : ∀ content, .directive start .expression content ∈ ps →
      ∃ r, readExpression 0 content = .ok r) :
    isPattern o.momentPattern = true ∧ Undelimited o.momentPattern.toList := by
  have hclear := clear_path h hp
  have hsource : (expressionChunk (momentContent o cs)).source ++ rest =
      Delimiter.expression.opener ++
        (' ' :: momentContent o cs ++ [' '] ++ Delimiter.expression.closer ++ rest) := by
    simp [expressionChunk, Chunk.source]
  rw [hsource] at hps
  by_cases hc : Delimiter.expression.closer <:+: o.momentPattern.toList
  · -- The piece ends inside the pattern, where no quote closes the text.
    obtain ⟨before, after, hpattern, hfirst⟩ := exists_first_closer hc
    have hcut : ' ' :: momentContent o cs ++ [' '] ++ Delimiter.expression.closer ++ rest =
        momentFront cs ++ escaped '\x27' before ++ Delimiter.expression.closer ++
          (escaped '\x27' after ++ ['\x27', ')', ' '] ++ Delimiter.expression.closer ++ rest) := by
      have he : escaped '\x27' Delimiter.expression.closer = Delimiter.expression.closer := rfl
      rw [momentContent_eq, hpattern, escaped_append, escaped_append, he]
      simp only [List.append_assoc]
    rw [hcut] at hps
    obtain ⟨-, hmem⟩ := directive_of_piecesFrom (d := .expression) (closer_first hclear hfirst) hps
    obtain ⟨r, hr⟩ := hread _ hmem
    obtain ⟨as, rest', hargs, -⟩ := arguments_of_moment h hp hr
    obtain ⟨e, he⟩ := readCallArguments_unclosed before
    simp [he] at hargs
  · obtain ⟨hopen, hmem⟩ := directive_of_piecesFrom (d := .expression) (closer_last hclear hc) hps
    obtain ⟨r, hr⟩ := hread _ hmem
    have hu : Undelimited (' ' :: momentContent o cs ++ [' ']) :=
      ⟨hopen, fun hi => closer_last hclear hc (List.infix_append_of_infix_left hi)⟩
    exact ⟨isPattern_of_moment h hp hr, (undelimited_moment o hclear).mp hu⟩

/-- A row of pieces that begins and ends with a directive and has no two texts in a row. -/
structure Framed (cs : List Chunk) : Prop where
  order : cs.IsChain Chunk.EndsBefore
  first : ∃ d content, cs.head? = some (.directive d content)
  last : ∃ d content, cs.getLast? = some (.directive d content)

theorem framed_directive (d : Delimiter) (content : List Char) : Framed [.directive d content] :=
  ⟨.singleton _, ⟨d, content, rfl⟩, ⟨d, content, rfl⟩⟩

theorem Framed.append {cs ds : List Chunk} (h : Framed cs) (h' : Framed ds) :
    Framed (cs ++ ds) := by
  obtain ⟨d, content, hl⟩ := h.last
  obtain ⟨d₁, content₁, hf⟩ := h.first
  obtain ⟨d₂, content₂, hl'⟩ := h'.last
  refine ⟨List.isChain_append.mpr ⟨h.order, h'.order, ?_⟩, ⟨d₁, content₁, ?_⟩, ⟨d₂, content₂, ?_⟩⟩
  · intro c hc c' _
    rw [hl] at hc
    obtain rfl := Option.mem_some_iff.mp hc
    trivial
  · simp [List.head?_append, hf]
  · simp [List.getLast?_append, hl']

theorem Framed.text_cons {cs : List Chunk} (h : Framed cs) {raw : List Char}
    (hr : raw.getLast? ≠ some '{') : (.text raw :: cs).IsChain Chunk.EndsBefore := by
  obtain ⟨d, content, hf⟩ := h.first
  refine h.order.cons fun c hc => ?_
  rw [hf] at hc
  obtain rfl := Option.mem_some_iff.mp hc
  exact hr

theorem Framed.text {cs ds : List Chunk} (h : Framed cs) (h' : Framed ds) {raw : List Char}
    (hr : raw.getLast? ≠ some '{') : Framed (cs ++ .text raw :: ds) := by
  obtain ⟨d, content, hl⟩ := h.last
  obtain ⟨d₁, content₁, hf⟩ := h.first
  obtain ⟨d₂, content₂, hl'⟩ := h'.last
  refine ⟨List.isChain_append.mpr ⟨h.order, h'.text_cons hr, ?_⟩, ⟨d₁, content₁, ?_⟩,
    ⟨d₂, content₂, ?_⟩⟩
  · intro c hc c' _
    rw [hl] at hc
    obtain rfl := Option.mem_some_iff.mp hc
    trivial
  · simp [List.head?_append, hf]
  · simp [List.getLast?_append, List.getLast?_cons, hl']

theorem framed_intersperse {α : Type} (f : α → List Char) {raw : List Char}
    (hr : raw.getLast? ≠ some '{') (x : α) (xs : List α) :
    Framed (((x :: xs).map fun x => expressionChunk (f x)).intersperse (.text raw)) := by
  induction xs generalizing x with
  | nil => exact framed_directive _ _
  | cons y ys ih => exact (framed_directive _ _).text (ih y) hr

theorem framed_itemChunks (o : Options) (a : Attribute) : Framed (itemChunks o a) := by
  unfold itemChunks
  cases itemFields a with
  | nil => exact framed_directive _ _
  | cons f fs => exact framed_intersperse _ (by decide) f fs

theorem framed_tag (content : List Char) : Framed [tagChunk content] := framed_directive _ _

theorem getLast?_append_of_some {cs ds : List Char} {c : Char} (h : ds.getLast? = some c) :
    (cs ++ ds).getLast? = some c := by
  simp [List.getLast?_append, h]

theorem framed_entryChunks (o : Options) (a : Attribute) : Framed (entryChunks o a) := by
  have hbreak : "\n".toList.getLast? ≠ some '{' := by decide
  have hopen := framed_tag ("if ".toList ++ a.name.toList)
  have hclose := framed_tag "endif".toList
  unfold entryChunks bodyChunks
  split
  · have htitle : ("\n### ".toList ++ label a ++ "\n\n".toList).getLast? ≠ some '{' := by
      rw [getLast?_append_of_some (c := '\n') rfl]
      decide
    have hdash : "- ".toList.getLast? ≠ some '{' := by decide
    have hfor := framed_tag ("for ".toList ++ itemName ++ " in ".toList ++ a.name.toList)
    have hloop := (hfor.text (framed_itemChunks o a) hdash).text (framed_tag "endfor".toList) hbreak
    have h := (hopen.text hloop htitle).text hclose hbreak
    simpa using h
  · have htitle : ("- **".toList ++ label a ++ ":** ".toList).getLast? ≠ some '{' := by
      rw [getLast?_append_of_some (c := ' ') rfl]
      decide
    have hsnippet : Framed [snippetChunk o a.name.toList a] := framed_directive _ _
    exact (hopen.text hsnippet htitle).text hclose hbreak

theorem framed_entries (o : Options) (a : Attribute) (as : List Attribute) :
    Framed ((a :: as).flatMap (entryChunks o)) := by
  induction as generalizing a with
  | nil => simpa using framed_entryChunks o a
  | cons b as ih =>
    rw [List.flatMap_cons]
    exact (framed_entryChunks o a).append (ih b)

theorem order_fragmentChunks (o : Options) (as : List Attribute) :
    (fragmentChunks o as).IsChain Chunk.EndsBefore := by
  have htitle : ("\n## ".toList ++ plain o.sectionTitle.toList ++ "\n\n".toList).getLast? ≠
      some '{' := by
    rw [getLast?_append_of_some (c := '\n') rfl]
    decide
  cases as with
  | nil => exact .nil
  | cons a as => exact (framed_entries o a as).text_cons htitle

/-- What moments need in order to be shown. -/
def Options.ShowMoments (o : Options) : Prop :=
  isPattern o.momentPattern = true ∧ Undelimited o.momentPattern.toList

theorem Momentary.good {o : Options} (ho : o.ShowMoments) {q : Part} {c : Chunk}
    (h : Momentary o q c) : q.WellFormed ∧ c.Undelimited := by
  obtain ⟨h, hp⟩ := h
  refine ⟨⟨hp, fun c hc => ?_⟩, (undelimited_moment o (clear_path h hp)).mpr ho.2⟩
  obtain rfl := List.mem_singleton.mp hc
  exact ⟨rfl, checkArguments_datetime.mpr ho.1, by simp [Literal.isFinite]⟩

/-- All that is drafted can be read back if moments can be shown. -/
theorem good_of_drafted {o : Options} {moments : Prop} (ho : moments → o.ShowMoments)
    {qs : List Part} {cs : List Chunk} (h : List.Forall₂ (Drafted o moments) qs cs) :
    List.Forall₂ Part.Written qs cs ∧ (∀ q ∈ qs, q.WellFormed) ∧ ∀ c ∈ cs, c.Undelimited := by
  induction h with
  | nil => exact ⟨.nil, by simp, by simp⟩
  | @cons q c qs cs hd _ ih =>
    obtain ⟨hw, hq, hc⟩ := ih
    have hg : q.WellFormed ∧ c.Undelimited := hd.2.elim id fun hm => hm.2.good (ho hm.1)
    exact ⟨.cons hd.1 hw, List.forall_mem_cons.mpr ⟨hg.1, hq⟩, List.forall_mem_cons.mpr ⟨hg.2, hc⟩⟩

theorem isIdentifier_of_isUsable {name : String} (h : isUsable name = true) :
    isIdentifier name.toList = true := by
  simp only [isUsable, Bool.and_eq_true] at h
  exact h.2

/-- A proposal whose moments can be shown is read back as the tree that it is meant to be. -/
theorem parseChars_fragmentText {o : Options} {as : List Attribute}
    (ha : ∀ a ∈ as, isIdentifier a.name.toList = true)
    (ho : (∃ a ∈ as, ShowsMoment a) → o.ShowMoments) :
    ∃ f, parseChars (fragmentText o as) = .ok f ∧ f.bare = (fragmentTree o as).bare := by
  obtain ⟨hw, hq, hc⟩ := good_of_drafted ho (fragmentTree_drafted o ha)
  rw [← sourceOf_fragmentChunks]
  exact parseChars_of_parts ⟨sound_of_written hw hq hc, order_fragmentChunks o as⟩
    (map_part?_of_written hw hq)

theorem mem_intersperse {α : Type} {x sep : α} {xs : List α} (h : x ∈ xs) :
    x ∈ xs.intersperse sep := by
  induction xs with
  | nil => simp at h
  | cons y ys ih =>
    cases ys with
    | nil => simpa using h
    | cons z zs =>
      rcases List.mem_cons.mp h with rfl | h
      · simp
      · exact List.mem_cons_of_mem _ (List.mem_cons_of_mem _ (ih h))

theorem snippetChunk_of_moment (o : Options) (cs : List Char) {a : Attribute}
    (h : a.kind = .moment) : snippetChunk o cs a = expressionChunk (momentContent o cs) := by
  simp only [snippetChunk, snippetContent, h]

/-- An attribute that shows a moment has a piece for it. -/
theorem exists_moment (o : Options) {as : List Attribute}
    (ha : ∀ a ∈ as, isIdentifier a.name.toList = true) (h : ∃ a ∈ as, ShowsMoment a) :
    ∃ c ∈ fragmentChunks o as, ∃ q, Momentary o q c := by
  obtain ⟨a, hm, h⟩ := h
  have hbody : ∀ c ∈ bodyChunks o a, c ∈ fragmentChunks o as := by
    intro c hc
    have he : c ∈ as.flatMap (entryChunks o) :=
      List.mem_flatMap.mpr ⟨a, hm, by simp [entryChunks, hc]⟩
    cases as with
    | nil => simp at hm
    | cons b bs => exact List.mem_cons_of_mem _ he
  rcases h with hk | ⟨hk, f, hf, hkf⟩
  · refine ⟨snippetChunk o a.name.toList a, hbody _ (by simp [bodyChunks, hk]), ?_⟩
    rw [snippetChunk_of_moment o _ hk]
    exact ⟨_, .intro (written_attributePath a) (wellFormed_attributePath (ha a hm))⟩
  · have hc : snippetChunk o (itemName ++ '.' :: f.name.toList) f ∈ itemChunks o a := by
      unfold itemChunks
      cases hs : itemFields a with
      | nil => simp [hs] at hf
      | cons g gs =>
        rw [hs] at hf
        exact mem_intersperse (List.mem_map.mpr ⟨f, hf, rfl⟩)
    refine ⟨snippetChunk o (itemName ++ '.' :: f.name.toList) f,
      hbody _ (by simp [bodyChunks, hk, hc]), ?_⟩
    rw [snippetChunk_of_moment o _ hkf]
    exact ⟨_, .intro (written_itemFieldPath f)
      (wellFormed_itemFieldPath (isIdentifier_of_mem_itemFields hf))⟩

/-- The first piece that shows a moment comes after pieces that keep to their delimiters. -/
theorem exists_first_moment {o : Options} {moments : Prop} {qs : List Part} {cs : List Chunk}
    (h : List.Forall₂ (Drafted o moments) qs cs) (hm : ∃ c ∈ cs, ∃ q, Momentary o q c) :
    ∃ before c after q, cs = before ++ c :: after ∧ Momentary o q c ∧ ∀ b ∈ before, b.Sound := by
  induction h with
  | nil => simp at hm
  | @cons q c qs cs hd _ ih =>
    by_cases hq : ∃ q, Momentary o q c
    · obtain ⟨q, hq⟩ := hq
      exact ⟨[], c, cs, q, rfl, hq, by simp⟩
    · obtain ⟨b, hb, hm⟩ := hm
      have hb : b ∈ cs := by
        rcases List.mem_cons.mp hb with rfl | hb
        · exact absurd hm hq
        · exact hb
      obtain ⟨before, c', after, q', rfl, hc', hs⟩ := ih ⟨b, hb, hm⟩
      refine ⟨c :: before, c', after, q', rfl, hc', List.forall_mem_cons.mpr ⟨?_, hs⟩⟩
      rcases hd.2 with hg | hg
      · exact hd.1.sound hg.1 hg.2
      · exact absurd ⟨q, hg.2⟩ hq

theorem readExpression_of_ofPiece {source content : List Char} {start : Nat} {i : Item}
    (h : Item.ofPiece source (.directive start .expression content) = .ok i) :
    ∃ r, readExpression 0 content = .ok r := by
  have hp : Item.ofPiece source (Chunk.pieceAt start (.directive .expression content)) = .ok i := h
  obtain ⟨q, hq, -⟩ := part?_of_ofPiece hp
  cases hr : readExpression 0 content with
  | error e => simp [Chunk.part?, hr] at hq
  | ok r => exact ⟨r, rfl⟩

/-- A proposal that is read shows its moments. -/
theorem showMoments_of_parseChars {o : Options} {as : List Attribute} {f : Tree}
    (ha : ∀ a ∈ as, isIdentifier a.name.toList = true)
    (h : parseChars (fragmentText o as) = .ok f) (hm : ∃ a ∈ as, ShowsMoment a) :
    o.ShowMoments := by
  obtain ⟨before, c, after, q, hcs, hq, hs⟩ :=
    exists_first_moment (fragmentTree_drafted o ha) (exists_moment o ha hm)
  have ho := order_fragmentChunks o as
  rw [hcs, List.isChain_append] at ho
  have hcut : IsCut before := ⟨hs, ho.1⟩
  obtain ⟨ps, hps, hmean⟩ := ofPiece_of_parseChars h
  rw [← sourceOf_fragmentChunks, hcs, sourceOf_append, sourceOf_cons] at hps
  cases hq with
  | @intro p cs hw hp =>
    have hlast : Continues before
        ((expressionChunk (momentContent o cs)).source ++ sourceOf after) :=
      .inr ⟨⟨.expression, _, by simp only [expressionChunk, Chunk.source, List.append_assoc]; rfl⟩,
        fun raw hr => ho.2.2 _ hr _ rfl⟩
    rw [pieces, piecesFrom_append hcut hlast] at hps
    cases hrest : piecesFrom (0 + byteLength (sourceOf before))
        ((expressionChunk (momentContent o cs)).source ++ sourceOf after) with
    | error e => simp only [hrest, Except.map, reduceCtorEq] at hps
    | ok ps' =>
      simp only [hrest, Except.map, Except.ok.injEq] at hps
      refine pattern_of_moment hw hp hrest fun content hc => ?_
      obtain ⟨i, hi⟩ := hmean _ (hps ▸ List.mem_append_right _ hc)
      exact readExpression_of_ofPiece hi

end Proposal

open Proposal

theorem Schema.mem_missing {s : Schema} {t : Tree} {a : Attribute} : a ∈ s.missing t ↔
    a ∈ s.attributes ∧ a.name ∉ t.referenced ∧ isUsable a.name = true := by
  simp only [missing, unreferenced, List.mem_mergeSort, List.mem_filter, Bool.not_eq_true',
    List.contains_eq_mem, decide_eq_false_iff_not, and_assoc]

theorem isIdentifier_of_mem_missing {s : Schema} {t : Tree} :
    ∀ a ∈ s.missing t, isIdentifier a.name.toList = true :=
  fun _ ha => isIdentifier_of_isUsable (Schema.mem_missing.mp ha).2.2

theorem propose_eq_ok {t : Tree} {s : Schema} {o : Options} {p : Proposal} :
    propose t s o = .ok p ↔ ∃ f, parseChars (fragmentText o (s.missing t)) = .ok f ∧
      p = ⟨s.entity, s.version, (s.missing t).map .ofAttribute, s.skipped t,
        String.ofList (fragmentText o (s.missing t)), f⟩ := by
  simp only [propose]
  cases hf : parseChars (fragmentText o (s.missing t)) with
  | error e => simp [bind, Except.bind]
  | ok f => simp [bind, Except.bind, pure, Except.pure, eq_comm]

/-- A proposal can be made exactly if every moment in it can be shown. -/
theorem propose_isOk_iff (t : Tree) (s : Schema) (o : Options) :
    (∃ p, propose t s o = .ok p) ↔ ((∃ a ∈ s.missing t, ShowsMoment a) → o.ShowMoments) := by
  constructor
  · rintro ⟨p, hp⟩ hm
    obtain ⟨f, hf, -⟩ := propose_eq_ok.mp hp
    exact showMoments_of_parseChars isIdentifier_of_mem_missing hf hm
  · intro ho
    obtain ⟨f, hf, -⟩ := parseChars_fragmentText isIdentifier_of_mem_missing ho
    exact ⟨_, propose_eq_ok.mpr ⟨f, hf, rfl⟩⟩

theorem Settings.validate_eq_ok {s : Settings} : s.validate = .ok () ↔
    isCurrencyCode s.currency = true ∧ isPattern s.datePattern = true ∧
      isPattern s.momentPattern = true ∧ s.timeout ≠ 0 := by
  simp only [validate, bind, Except.bind, pure, Except.pure, throw, throwThe,
    MonadExceptOf.throw]
  cases isCurrencyCode s.currency with
  | false => simp
  | true =>
    cases isPattern s.datePattern with
    | false => simp
    | true =>
      cases isPattern s.momentPattern with
      | false => simp
      | true => by_cases h : s.timeout = 0 <;> simp [h]

/-- With settings that pass validation, a proposal fails exactly if it shows a moment and the
pattern of moments holds a delimiter. -/
theorem propose_validated_iff {settings : Settings} (h : settings.validate = .ok ()) (t : Tree)
    (s : Schema) : (∃ p, propose t s settings.options = .ok p) ↔
      ((∃ a ∈ s.missing t, ShowsMoment a) → Undelimited settings.momentPattern.toList) := by
  rw [propose_isOk_iff]
  obtain ⟨-, -, hp, -⟩ := Settings.validate_eq_ok.mp h
  exact imp_congr_right fun _ => ⟨fun ho => ho.2, fun hu => ⟨hp, hu⟩⟩

/-- A schema with a moment in time. -/
def dated : Schema := ⟨"Invoice", 1, [⟨"DueAt", .moment, none, none, []⟩]⟩

/-- Settings whose pattern of moments holds the end of an expression. -/
def braced : Settings := { Settings.standard with momentPattern := "%Y\x7d\x7d" }

theorem propose_validated_iff_braced : braced.validate = .ok () ∧
    (∃ a ∈ dated.missing [], ShowsMoment a) ∧ ¬ ∃ p, propose [] dated braced.options = .ok p := by
  have hv : braced.validate = .ok () := by decide +kernel
  have hn : "DueAt" ∉ Tree.referenced [] := by
    simp [Tree.mem_referenced, Tree.paths, Node.allPathsIn]
  have hm : ∃ a ∈ dated.missing [], ShowsMoment a :=
    ⟨_, Schema.mem_missing.mpr ⟨List.mem_singleton_self _, hn, by decide⟩, .inl rfl⟩
  exact ⟨hv, hm, fun hp => absurd ((propose_validated_iff hv [] dated).mp hp hm) (by decide)⟩

end Proforma
