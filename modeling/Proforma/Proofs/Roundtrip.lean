import Proforma.Proofs.Reading

/-!
A tree that has been written is read back: the pieces it is written in are the pieces that are
found again, and each of them is read as the part it was written for.
-/
namespace Proforma

open Text

/-- The characters that delimiters are made of. -/
def isDelimiting (c : Char) : Bool := c == '{' || c == '%' || c == '}'

/-- A text without characters of delimiters. -/
def Clear (cs : List Char) : Prop := ∀ c ∈ cs, isDelimiting c = false

instance (cs : List Char) : Decidable (Clear cs) := List.decidableBAll _ cs

namespace Clear

theorem append {a b : List Char} (ha : Clear a) (hb : Clear b) : Clear (a ++ b) := by
  intro c hc
  rcases List.mem_append.mp hc with hc | hc
  · exact ha c hc
  · exact hb c hc

theorem cons {c : Char} {cs : List Char} (hc : isDelimiting c = false) (hcs : Clear cs) :
    Clear (c :: cs) := by
  intro x hx
  rcases List.mem_cons.mp hx with rfl | hx
  · exact hc
  · exact hcs x hx

theorem not_infix {cs : List Char} (h : Clear cs) {a b : Char} (hd : isDelimiting a = true) :
    ¬ [a, b] <:+: cs := by
  intro hi
  have := h a (hi.subset (by simp))
  simp [hd] at this

theorem unopened {cs : List Char} (h : Clear cs) : Unopened cs := by
  intro d
  obtain ⟨b, hb⟩ := d.opener_eq
  rw [hb]
  exact h.not_infix (by decide)

theorem undelimited {cs : List Char} (h : Clear cs) : Undelimited cs :=
  ⟨h.unopened, h.not_infix (by decide)⟩

theorem encloses {cs : List Char} (h : Clear cs) : Delimiter.tag.Encloses cs := by
  refine ⟨h.unopened, fun hi => ?_⟩
  rcases pair_infix_append.mp hi with hi | ⟨hl, -⟩ | hi
  · exact h.not_infix (by decide) hi
  · exact absurd (h '%' (List.mem_of_getLast? hl)) (by decide)
  · simpa [Delimiter.closer] using hi.length_le

end Clear

theorem isDelimiting_of_isBlank {c : Char} (h : isBlank c = true) : isDelimiting c = false := by
  by_contra hd
  simp only [isDelimiting, Bool.not_eq_false, Bool.or_eq_true, beq_iff_eq] at hd
  rcases hd with (rfl | rfl) | rfl <;> exact absurd h (by decide)

theorem isDelimiting_of_continuesIdentifier {c : Char} (h : continuesIdentifier c = true) :
    isDelimiting c = false := by
  by_contra hd
  simp only [isDelimiting, Bool.not_eq_false, Bool.or_eq_true, beq_iff_eq] at hd
  rcases hd with (rfl | rfl) | rfl <;> exact absurd h (by decide)

theorem clear_of_allBlank {gap : List Char} (h : allBlank gap = true) : Clear gap := by
  simp only [allBlank, List.all_eq_true] at h
  exact fun c hc => isDelimiting_of_isBlank (h c hc)

theorem clear_of_isIdentifier {word : List Char} (h : isIdentifier word = true) : Clear word :=
  fun c hc => isDelimiting_of_continuesIdentifier (all_continues_of_isIdentifier h c hc)

theorem clear_index {n : Nat} {ds : List Char} (h : WritesIndex n ds) : Clear ds :=
  fun c hc => isDelimiting_of_continuesIdentifier (continuesIdentifier_of_isDigit (h.2.1 c hc))

theorem clear_segment {s : Segment} {cs : List Char} (h : s.Written cs) (hs : s.WellFormed) :
    Clear cs := by
  cases h with
  | field name => exact .cons (by decide) (clear_of_isIdentifier hs)
  | dotted hi => exact .cons (by decide) (clear_index hi)
  | bracketed hi => exact .cons (by decide) ((clear_index hi).append (by decide))

theorem clear_segments {ss : List Segment} {tail : List (List Char)}
    (h : List.Forall₂ Segment.Written ss tail) (hs : ∀ s ∈ ss, s.WellFormed) :
    Clear tail.flatten := by
  induction h with
  | nil => simp [Clear]
  | @cons s ds ss tail hw _ ih =>
    rw [List.flatten_cons]
    have htail : Clear tail.flatten := ih fun s hm => hs s (List.mem_cons_of_mem _ hm)
    exact (clear_segment hw (hs s (by simp))).append htail

theorem clear_path {p : Path} {cs : List Char} (h : p.Written cs) (hp : p.WellFormed) :
    Clear cs := by
  obtain ⟨hs⟩ := h
  exact (clear_of_isIdentifier hp.1).append (clear_segments hs hp.2)

theorem clear_keyword (d : Directive) : Clear d.keyword.toList :=
  clear_of_isIdentifier (by cases d <;> simp only [Directive.keyword] <;> decide)

theorem clear_directive {d : Directive} {content : List Char} (h : d.Written content)
    (hd : d.WellFormed) : Clear content := by
  have hk := clear_keyword d
  cases h with
  | openIf hb hg hp ha =>
    exact ((((clear_of_allBlank hb).append hk).append (clear_of_allBlank hg.2)).append
      (clear_path hp hd)).append (clear_of_allBlank ha)
  | openFor binding hb hg hg' hg'' hp ha =>
    obtain ⟨hi, -, hwf⟩ := hd
    have hk : Clear "for".toList := hk
    have hin : Clear "in".toList := clear_of_isIdentifier (by decide)
    have hloop := (((clear_of_allBlank hg.2).append (clear_of_isIdentifier hi)).append
      (clear_of_allBlank hg'.2)).append hin
    have hpath := ((clear_of_allBlank hg''.2).append (clear_path hp hwf)).append
      (clear_of_allBlank ha)
    have hall := (((clear_of_allBlank hb).append hk).append hloop).append hpath
    simpa only [List.append_assoc] using hall
  | middle hb ha => exact ((clear_of_allBlank hb).append hk).append (clear_of_allBlank ha)
  | closeIf hb ha => exact ((clear_of_allBlank hb).append hk).append (clear_of_allBlank ha)
  | closeFor hb ha => exact ((clear_of_allBlank hb).append hk).append (clear_of_allBlank ha)

/-- A closing brace after the text begins no earlier than there. -/
def EndsClear (cs : List Char) : Prop := cs.getLast? ≠ some '}'

theorem EndsClear.append {a b : List Char} (ha : EndsClear a) (hb : EndsClear b) :
    EndsClear (a ++ b) := by
  unfold EndsClear at ha hb ⊢
  rw [List.getLast?_append]
  cases h : b.getLast? with
  | none => simpa [h] using ha
  | some c => simpa [h] using hb

theorem endsClear_concat {cs : List Char} {c : Char} (h : c ≠ '}') : EndsClear (cs ++ [c]) := by
  simpa [EndsClear] using h

theorem Clear.endsClear {cs : List Char} (h : Clear cs) : EndsClear cs := fun hl =>
  absurd (h '}' (List.mem_of_getLast? hl)) (by decide)

theorem endsClear_call {c : Call} {cs : List Char} (h : Call.Written c cs) : EndsClear cs := by
  cases h with
  | bare f => exact (clear_of_isIdentifier (isIdentifier_name f)).endsClear
  | empty f hg hi => exact endsClear_concat (by decide)
  | applied f hg h => exact endsClear_concat (by decide)

theorem endsClear_pipeline {calls : List Call} {cs : List Char} (h : PipelineWritten calls cs) :
    EndsClear cs := by
  induction h with
  | nil hg => exact (clear_of_allBlank hg).endsClear
  | cons hb ha hc hs ih =>
    have hbar := (clear_of_allBlank hb).append
      (Clear.cons (show isDelimiting '|' = false by decide) (clear_of_allBlank ha))
    exact (hbar.endsClear.append (endsClear_call hc)).append ih

theorem endsClear_expression {p : Path} {calls : List Call} {content : List Char}
    (h : ExpressionWritten p calls content) (hp : p.WellFormed) : EndsClear content := by
  cases h with
  | intro hg hpath hs =>
    exact ((clear_of_allBlank hg).append (clear_path hpath hp)).endsClear.append
      (endsClear_pipeline hs)

theorem encloses_expression {content : List Char} (h : Undelimited content)
    (he : EndsClear content) : Delimiter.expression.Encloses content := by
  refine ⟨h.1, fun hi => ?_⟩
  rcases pair_infix_append.mp hi with hi | ⟨hl, -⟩ | hi
  · exact h.2 hi
  · exact he hl
  · simpa [Delimiter.closer] using hi.length_le

theorem Part.Written.sound {q : Part} {c : Chunk} (h : q.Written c) (hq : q.WellFormed)
    (hu : c.Undelimited) : c.Sound := by
  cases h with
  | text raw => exact ⟨by simpa using hq.1, hq.2⟩
  | expression h => exact encloses_expression hu (endsClear_expression h hq.1)
  | directive h => exact (clear_directive h hq).encloses

theorem Part.Written.endsBefore {q q' : Part} {c c' : Chunk} (h : q.Written c) (h' : q'.Written c')
    (he : q.EndsBefore q') : c.EndsBefore c' := by
  cases h <;> cases h' <;> exact he

theorem isChain_of_written {qs : List Part} {cs : List Chunk} (h : List.Forall₂ Part.Written qs cs)
    (hq : qs.IsChain Part.EndsBefore) : cs.IsChain Chunk.EndsBefore := by
  induction h with
  | nil => exact .nil
  | cons hw hs ih =>
    have hr := ih hq.tail
    cases hs with
    | nil => exact .singleton _
    | cons hw' _ => exact .cons_cons (hw.endsBefore hw' hq.rel) hr

theorem sound_of_written {qs : List Part} {cs : List Chunk} (h : List.Forall₂ Part.Written qs cs)
    (hq : ∀ q ∈ qs, q.WellFormed) (hu : ∀ c ∈ cs, c.Undelimited) : ∀ c ∈ cs, c.Sound := by
  induction h with
  | nil => simp
  | cons hw hs ih =>
    intro c hc
    rcases List.mem_cons.mp hc with rfl | hc
    · exact hw.sound (hq _ (by simp)) (hu _ (by simp))
    · exact ih (fun q hm => hq q (List.mem_cons_of_mem _ hm))
        (fun c hm => hu c (List.mem_cons_of_mem _ hm)) c hc

theorem map_part?_of_written {qs : List Part} {cs : List Chunk}
    (h : List.Forall₂ Part.Written qs cs) (hq : ∀ q ∈ qs, q.WellFormed) :
    cs.map Chunk.part? = qs.map some := by
  induction h with
  | nil => rfl
  | cons hw _ ih =>
    rw [List.map_cons, List.map_cons, part?_of_written hw (hq _ (by simp)),
      ih fun q hm => hq q (List.mem_cons_of_mem _ hm)]

/-- A tree that has been written is read back, whatever its layout. -/
theorem parse_layout {t : Tree} (h : t.WellFormed) (l : t.Layout)
    (hl : ∀ c ∈ l.chunks, c.Undelimited) :
    ∃ t', parse l.source = .ok t' ∧ t'.bare = t.bare := by
  have hc : IsCut l.chunks :=
    ⟨sound_of_written l.written h.parts hl, isChain_of_written l.written h.order⟩
  unfold parse Tree.Layout.source
  rw [String.toList_ofList]
  exact parseChars_of_parts hc (map_part?_of_written l.written h.parts)

/-- A customer's third name, then the customer's orders if there are any. -/
def letter : Tree :=
  [.text "Dear " .zero,
    .expression ⟨"Customer", [.field "Names", .index 2]⟩
      [⟨.default, [.text "it's \x7d"], .zero⟩, ⟨.currency, [], .zero⟩] .zero,
    .conditional ⟨"Orders", []⟩
      [.loop ⟨"Orders", []⟩ "order"
        [.expression ⟨"order", []⟩ [⟨.default, [.number (.ofDecimal true 25 (-1))], .zero⟩] .zero]
        .zero]
      (some []) .zero]

theorem allBlank_nil : allBlank [] = true := rfl
theorem allBlank_space : allBlank [' '] = true := rfl
theorem allBlank_tab : allBlank ['\t'] = true := rfl
theorem isSpace_space : IsSpace [' '] := ⟨by decide, rfl⟩

theorem path_written (name : String) : (Path.mk name []).Written (name.toList ++ [].flatten) :=
  .intro .nil

theorem letter_wellFormed : letter.WellFormed := ⟨by decide, by decide⟩

def letterLayout : letter.Layout where
  chunks := _
  written :=
    have index : WritesIndex 2 ['0', '2'] := ⟨by decide, by simp, by decide⟩
    have quote : isQuote '\x27' = true := rfl
    have two : ∀ c ∈ ['2'], c.isDigit = true := by simp
    have five : ∀ c ∈ (some ['5']).getD [], c.isDigit = true := by simp
    have number : Literal.Written (.number (.ofDecimal true 25 (-1)))
        (decimalText true ['2'] (some ['5'])) :=
      .number two five (by decide)
    .cons (.text "Dear ") <|
    .cons (.expression (.intro allBlank_tab
      (.intro (.cons (.field "Names") (.cons (.bracketed index) .nil)))
      (.cons allBlank_nil allBlank_space (.applied .default allBlank_space
          (.last allBlank_nil (.text "it's \x7d" quote) allBlank_nil))
        (.cons allBlank_nil allBlank_nil (.empty .currency allBlank_nil allBlank_space)
          (.nil allBlank_space))))) <|
    .cons (.directive (.openIf allBlank_nil isSpace_space (path_written "Orders") allBlank_nil)) <|
    .cons (.directive (.openFor "order" allBlank_space isSpace_space isSpace_space isSpace_space
      (path_written "Orders") allBlank_space)) <|
    .cons (.expression (.intro allBlank_nil (path_written "order")
      (.cons allBlank_nil allBlank_nil (.applied .default allBlank_nil
        (.last allBlank_tab number allBlank_space)) (.nil allBlank_nil)))) <|
    .cons (.directive (.closeFor allBlank_space allBlank_space)) <|
    .cons (.directive (.middle allBlank_nil allBlank_nil)) <|
    .cons (.directive (.closeIf allBlank_nil allBlank_nil)) .nil

theorem parse_layout_letter :
    letterLayout.source =
        "Dear \x7b\x7b\tCustomer.Names[02]| default ('it\\'s \x7d')|currency( ) \x7d\x7d" ++
          "\x7b%if Orders%\x7d\x7b% for order in Orders %\x7d" ++
          "\x7b\x7border|default(\t-2.5 )\x7d\x7d" ++
          "\x7b% endfor %\x7d\x7b%else%\x7d\x7b%endif%\x7d" ∧
      letter.WellFormed ∧ (∀ c ∈ letterLayout.chunks, c.Undelimited) ∧
      ∃ t', parse letterLayout.source = .ok t' ∧ t'.bare = letter.bare := by
  have hl : ∀ c ∈ letterLayout.chunks, c.Undelimited := by decide +kernel
  exact ⟨by decide +kernel, letter_wellFormed, hl, parse_layout letter_wellFormed letterLayout hl⟩

end Proforma
