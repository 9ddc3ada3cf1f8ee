import Proforma.Proofs.Bounding

/-!
What a report shows of a source. For each place of an error there is the line that holds the offset,
as it stands in the text without its line end, and under it a caret behind as many spaces as there
are characters in the line before the offset.
-/
namespace Proforma

open Text

namespace Text

/-- The text is empty or ends with a line feed. -/
def EndsLine (cs : List Char) : Prop := cs = [] ∨ cs.getLast? = some '\n'

theorem EndsLine.tail {c : Char} {cs : List Char} (h : EndsLine (c :: cs)) : EndsLine cs := by
  rcases h with h | h
  · simp at h
  · cases cs with
    | nil => exact .inl rfl
    | cons c' cs => exact .inr (by rwa [List.getLast?_cons_cons] at h)

theorem EndsLine.eq_of_singleton {c : Char} (h : EndsLine [c]) : c = '\n' := by
  rcases h with h | h
  · simp at h
  · exact Option.some.inj h

theorem splitLines_cons_of_ne {c : Char} (hc : c ≠ '\n') (cs : List Char) :
    splitLines (c :: cs) =
      match splitLines cs with
      | [] => [[c]]
      | line :: lines => (c :: line) :: lines :=
  splitLines.eq_3 c cs hc

theorem splitLines_ne_nil {cs : List Char} (h : cs ≠ []) : splitLines cs ≠ [] := by
  cases cs with
  | nil => exact (h rfl).elim
  | cons c cs =>
    by_cases hc : c = '\n'
    · subst hc
      simp [splitLines]
    · rw [splitLines_cons_of_ne hc]
      cases splitLines cs <;> simp

/-- Lines that are ended stay as they are whatever follows them. -/
theorem splitLines_append {head : List Char} (h : EndsLine head) (rest : List Char) :
    splitLines (head ++ rest) = splitLines head ++ splitLines rest := by
  induction head with
  | nil => rfl
  | cons c head ih =>
    by_cases hc : c = '\n'
    · subst hc
      rw [List.cons_append, splitLines, splitLines, ih h.tail, List.cons_append]
    · have hne : head ≠ [] := by
        rintro rfl
        exact hc h.eq_of_singleton
      rw [List.cons_append, splitLines_cons_of_ne hc, splitLines_cons_of_ne hc, ih h.tail]
      cases hs : splitLines head with
      | nil => exact (splitLines_ne_nil hne hs).elim
      | cons line lines => rfl

theorem length_splitLines {head : List Char} (h : EndsLine head) :
    (splitLines head).length = head.count '\n' := by
  induction head with
  | nil => rfl
  | cons c head ih =>
    by_cases hc : c = '\n'
    · subst hc
      rw [splitLines, List.length_cons, ih h.tail, List.count_cons_self]
    · have hne : head ≠ [] := by
        rintro rfl
        exact hc h.eq_of_singleton
      rw [splitLines_cons_of_ne hc, List.count_cons_of_ne hc, ← ih h.tail]
      cases hs : splitLines head with
      | nil => exact (splitLines_ne_nil hne hs).elim
      | cons line lines => rfl

theorem splitLines_of_not_mem {line : List Char} (h : '\n' ∉ line) (hne : line ≠ []) :
    splitLines line = [line] := by
  induction line with
  | nil => exact (hne rfl).elim
  | cons c line ih =>
    have hl := List.not_mem_of_not_mem_cons h
    rw [splitLines_cons_of_ne (List.ne_of_not_mem_cons h).symm]
    cases line with
    | nil => rfl
    | cons c' line => rw [ih hl (List.cons_ne_nil _ _)]

theorem splitLines_line {line : List Char} (h : '\n' ∉ line) (rest : List Char) :
    splitLines (line ++ '\n' :: rest) = line :: splitLines rest := by
  induction line with
  | nil => rfl
  | cons c line ih =>
    rw [List.cons_append, splitLines_cons_of_ne (List.ne_of_not_mem_cons h).symm,
      ih (List.not_mem_of_not_mem_cons h)]

/-- A line as it is shown: one that is ended is shown without a carriage return at its end. -/
def shownLine (line tail : List Char) : List Char :=
  if tail ≠ [] ∧ line.getLast? = some '\r' then line.dropLast else line

/-- The line behind the lines of `head` is found by their number. -/
theorem lineAt_eq {head line tail : List Char} (hh : EndsLine head) (hl : '\n' ∉ line)
    (ht : tail = [] ∨ tail.head? = some '\n') :
    lineAt (head ++ line ++ tail) (1 + head.count '\n') = shownLine line tail := by
  have hs : splitLines (head ++ line ++ tail) = splitLines head ++ splitLines (line ++ tail) := by
    rw [List.append_assoc, splitLines_append hh]
  have hlength := length_splitLines hh
  have hfound : (splitLines head ++ splitLines (line ++ tail))[1 + head.count '\n' - 1]? =
      (splitLines (line ++ tail))[0]? := by
    rw [Nat.add_sub_cancel_left, ← hlength, List.getElem?_append_right (Nat.le_refl _),
      Nat.sub_self]
  rw [lineAt, hs, hfound, List.length_append, hlength]
  rcases ht with rfl | ht
  · -- the last line has no end, so that a carriage return in it is shown
    rw [List.append_nil, List.append_nil]
    by_cases hne : line = []
    · subst hne
      simp [splitLines, shownLine]
    · have hlast : (head ++ line).getLast? ≠ some '\n' := by
        rw [List.getLast?_append_of_ne_nil _ hne]
        exact fun h => hl (List.mem_of_getLast? h)
      have hended : (decide (1 + head.count '\n' < head.count '\n' + [line].length) ||
          (head ++ line).getLast? == some '\n') = false := by
        rw [Bool.or_eq_false_iff, decide_eq_false_iff_not, beq_eq_false_iff_ne]
        exact ⟨by rw [List.length_singleton]; omega, hlast⟩
      rw [splitLines_of_not_mem hl hne, hended]
      rfl
  · obtain ⟨rest, rfl⟩ : ∃ rest, tail = '\n' :: rest := List.head?_eq_some_iff.mp ht
    have hended : (decide (1 + head.count '\n' <
        head.count '\n' + (line :: splitLines rest).length) ||
        (head ++ line ++ '\n' :: rest).getLast? == some '\n') = true := by
      rw [Bool.or_eq_true_iff, decide_eq_true_eq, beq_iff_eq]
      cases rest with
      | nil => exact .inr (List.getLast?_append_of_ne_nil _ (List.cons_ne_nil _ _))
      | cons c rest =>
        have hpos := List.length_pos_iff.mpr (splitLines_ne_nil (List.cons_ne_nil c rest))
        rw [List.length_cons]
        omega
    rw [splitLines_line hl, hended]
    simp [shownLine]

/-- The block shows the line of the text that holds the offset, behind its number and a bar, and
below it, behind a gutter of the same width, a caret under the offset. -/
def Underlines (source : List Char) (n : Nat) (block : String) : Prop :=
  ∃ head front back tail, source = head ++ (front ++ back) ++ tail ∧
    n = byteLength (head ++ front) ∧ EndsLine head ∧ '\n' ∉ front ++ back ∧
    (tail = [] ∨ tail.head? = some '\n') ∧
    ∃ number gutter spaces : String, number = toString (1 + head.count '\n') ∧
      gutter = String.ofList (List.replicate number.length ' ') ∧
      spaces = String.ofList (List.replicate front.length ' ') ∧
      block = number ++ " | " ++ String.ofList (shownLine (front ++ back) tail) ++ "\n" ++
        gutter ++ " | " ++ spaces ++ "^\n"

/-- What follows up to the end of the line. -/
theorem exists_lineEnd (cs : List Char) : ∃ back tail, cs = back ++ tail ∧ '\n' ∉ back ∧
    (tail = [] ∨ tail.head? = some '\n') := by
  refine ⟨cs.takeWhile (· != '\n'), cs.dropWhile (· != '\n'),
    (List.takeWhile_append_dropWhile).symm, fun hm => ?_, dropWhile_line cs⟩
  simpa using List.mem_takeWhile_imp hm

theorem underlines_excerpt {source : List Char} {n : Nat} (h : IsBoundary source n) :
    Underlines source n (excerpt source (.ofOffset source n)) := by
  obtain ⟨before, after, rfl, rfl⟩ := h
  obtain ⟨head, hb, hhead, hfront⟩ := exists_lastLine before
  obtain ⟨back, tail, rfl, hback, htail⟩ := exists_lineEnd after
  have hline : '\n' ∉ lastLine before ++ back := by
    simpa [List.mem_append] using ⟨hfront, hback⟩
  have hcount : before.count '\n' = head.count '\n' := by
    rw [hb, List.count_append, List.count_eq_zero.mpr hfront, Nat.add_zero]
  have hsource : before ++ (back ++ tail) = head ++ (lastLine before ++ back) ++ tail := by
    conv_lhs => rw [hb]
    simp only [List.append_assoc]
  have hat := lineAt_eq hhead hline htail
  rw [← hsource, ← hcount] at hat
  rw [Position.ofOffset_byteLength]
  refine ⟨head, lastLine before, back, tail, hsource, by rw [← hb], hhead, hline, htail,
    _, _, _, rfl, rfl, rfl, ?_⟩
  rw [excerpt, ← hcount]
  dsimp only [Position.after]
  rw [hat, Nat.add_sub_cancel_left]
  rfl

end Text

/-- The directive that is open innermost stands before the one that does not continue it. -/
theorem Reaches.innermost_lt {source : List Char} {cs rest : List Chunk} {b : Builder}
    (h : Reaches source cs rest b) {m : Mark} (hm : b.innermost? = some m) :
    m.offset < byteLength (sourceOf cs) := by
  obtain ⟨before, after, hcs, hne, ho⟩ := exists_of_mem_marks (h.mem_marks hm)
  have hpos := byteLength_eq_zero.not.mpr hne
  rw [ho, hcs, byteLength_append]
  omega

/-- The places of an error come in the order of the source. -/
theorem Fails.pairwise {source : List Char} {e : ParseError} (h : Fails source e) :
    e.positions.Pairwise fun p q => p.offset < q.offset := by
  cases h with
  | lex | fault | opening => exact List.pairwise_singleton _ _
  | @closing cs rest content b hr =>
    cases hm : b.innermost? with
    | none => exact List.pairwise_singleton _ _
    | some m =>
      have hlt := hr.innermost_lt hm
      have hle := hr.isBoundary.le
      apply List.pairwise_pair.mpr
      show (Position.ofOffset source m.offset).offset <
        (Position.ofOffset source (byteLength (sourceOf cs))).offset
      rwa [offset_ofOffset_of_le (hlt.le.trans hle), offset_ofOffset_of_le hle]

/-- The error was found in the text from some place on. There it points at the first directive that
is at fault, and its places are those in the whole source. -/
def PointsAtFault (source : List Char) (e : ParseError) : Prop :=
  ∃ head body e', source = head ++ body ∧ PointsFirst body e' ∧
    e = e'.mapPositions fun p => .ofOffset source (byteLength head + p.offset)

theorem pointsAtFault_of_parse {source : String} {e : ParseError} (h : parse source = .error e) :
    PointsAtFault source.toList e := by
  refine ⟨[], source.toList, e, rfl, pointsFirst_of_fails (fails_of_parseChars h), ?_⟩
  have hplaced := placedIn_parseChars h
  rw [ParseError.mapPositions_congr fun p hp => ?_, ParseError.mapPositions_id]
  rw [byteLength_nil, Nat.zero_add, ← hplaced p hp]
  rfl

theorem Template.pointsAtFault {t : Template} {e : ParseError} (h : t.compile = .error e) :
    PointsAtFault t.text.toList e := by
  obtain ⟨e', hb⟩ := exists_error_of_compile h
  rw [compile_eq_error hb] at h
  obtain rfl := Except.error.inj h
  exact ⟨t.head.toList, t.body.toList, e', String.toList_append ..,
    pointsFirst_of_fails (fails_of_parseChars hb), rfl⟩

/-- A report shows the places of an error, which are at the fault: one block for each place that the
error carries, in their order. Of a block mismatch the opening stands first in the source. -/
structure ShowsPlaces (source : List Char) (e : ParseError) : Prop where
  at_fault : PointsAtFault source e
  blocks : ∃ (places : List Position) (blocks : List String), e.Carries places ∧
    e.report source = "ERROR: " ++ e.title ++ "\n\n" ++ e.message ++ "\n" ++
      String.join (blocks.map fun block => "\n" ++ block) ++ e.hint ∧
    List.Forall₂ (fun p block => Underlines source p.offset block) places blocks
  opening_first : ∀ opening closing, e = .blockMismatch (some opening) (some closing) →
    opening.position.offset < closing.position.offset

theorem showsPlaces_of_boundaries {source : List Char} {e : ParseError}
    (hfault : PointsAtFault source e) (hc : e.Carries e.positions)
    (h : ∀ p ∈ e.positions, ∃ n, IsBoundary source n ∧ p = .ofOffset source n)
    (hp : e.positions.Pairwise fun p q => p.offset < q.offset) : ShowsPlaces source e where
  at_fault := hfault
  blocks := by
    refine ⟨e.positions, e.positions.map (excerpt source), hc, ?_, ?_⟩
    · rw [List.map_map]
      rfl
    · rw [List.forall₂_map_right_iff, List.forall₂_same]
      intro p hp
      obtain ⟨n, hn, rfl⟩ := h p hp
      rw [offset_ofOffset_of_le hn.le]
      exact underlines_excerpt hn
  opening_first opening closing he := by
    subst he
    exact (List.pairwise_cons.mp hp).1 _ (List.mem_singleton_self _)

theorem showsPlaces_of_parse {source : String} {e : ParseError} (h : parse source = .error e) :
    ShowsPlaces source.toList e :=
  have hf := fails_of_parseChars h
  showsPlaces_of_boundaries (pointsAtFault_of_parse h) hf.carries hf.exists_boundary hf.pairwise

theorem Template.showsPlaces {t : Template} {e : ParseError} (h : t.compile = .error e) :
    ShowsPlaces t.text.toList e := by
  refine showsPlaces_of_boundaries (pointsAtFault h) (carries_of_compile h) (exists_boundary h) ?_
  obtain ⟨e', hb⟩ := exists_error_of_compile h
  have hf := fails_of_parseChars hb
  rw [compile_eq_error hb] at h
  obtain rfl := Except.error.inj h
  -- the head moves all places by its length
  have hmoved : ∀ p ∈ e'.positions,
      (t.place p.offset).offset = byteLength t.head.toList + p.offset := by
    intro p hp
    obtain ⟨n, hn, rfl⟩ := hf.exists_boundary p hp
    rw [offset_ofOffset_of_le hn.le]
    apply offset_ofOffset_of_le
    rw [text, String.toList_append]
    exact (hn.append t.head.toList).le
  rw [ParseError.positions_mapPositions, List.pairwise_map]
  refine hf.pairwise.imp_of_mem fun hp hq hlt => ?_
  rw [hmoved _ hp, hmoved _ hq]
  exact Nat.add_lt_add_left hlt _

/-- The report of an error in a source, or in a template over its whole text, has for each place of
the error the line that holds the offset, and a caret under the offset, which is where the fault
is. -/
theorem report_underlines_places {source : String} {e : ParseError}
    (h : parse source = .error e ∨ ∃ t : Template, t.text = source ∧ t.compile = .error e) :
    ShowsPlaces source.toList e := by
  rcases h with h | ⟨t, rfl, h⟩
  · exact showsPlaces_of_parse h
  · exact t.showsPlaces h

/-- A mismatch in a file with front matter, a path that breaks off at a carriage return, an opener
without a closer in the last line, and a block that never ends. -/
theorem report_underlines_places_crlf :
    let head := "---\r\nname: a\r\n---\r\n"
    let t : Template := ⟨"a", "0", none, head, "é \x7b% if A %\x7d\r\n\x7b% endfor %\x7d\r\n"⟩
    let mismatch : ParseError :=
      .blockMismatch (some ⟨"if", ⟨22, 4, 3⟩⟩) (some ⟨"endfor", ⟨34, 5, 1⟩⟩)
    let broken := "é\n\x7b\x7b A.\r\n\x7d\x7d"
    let missing : ParseError := .fault (.notAttribute (some '\r')) ⟨8, 2, 6⟩
    let opened := "a\n\n\t\x7b\x7b A"
    let unterminated : ParseError := .lex (.unterminated .expression 4) ⟨4, 3, 2⟩
    let endless := "\x7b% for a in A %\x7d\n"
    let unclosed : ParseError := .blockMismatch (some ⟨"for", ⟨0, 1, 1⟩⟩) none
    let Reports (text : String) (e : ParseError) (blocks : String) : Prop :=
      e.report text.toList = "ERROR: " ++ e.title ++ "\n\n" ++ e.message ++ "\n" ++ blocks ++ e.hint
    (Template.ofMarkdown? "b" t.text = some t ∧ t.compile = .error mismatch ∧
        ShowsPlaces t.text.toList mismatch ∧ Reports t.text mismatch
          "\n4 | é \x7b% if A %\x7d\n  |   ^\n\n5 | \x7b% endfor %\x7d\n  | ^\n") ∧
      (parse broken = .error missing ∧ ShowsPlaces broken.toList missing ∧
        Reports broken missing "\n2 | \x7b\x7b A.\n  |      ^\n") ∧
      (parse opened = .error unterminated ∧ ShowsPlaces opened.toList unterminated ∧
        Reports opened unterminated "\n3 | \t\x7b\x7b A\n  |  ^\n") ∧
      parse endless = .error unclosed ∧ ShowsPlaces endless.toList unclosed ∧
        Reports endless unclosed "\n1 | \x7b% for a in A %\x7d\n  | ^\n" := by
  intro head t mismatch broken missing opened unterminated endless unclosed Reports
  have hmade : Template.ofMarkdown? "b" t.text = some t := by decide +kernel
  have hc : (t.compile).map (fun _ => ()) = .error mismatch := by decide +kernel
  have hb : (parse broken).map (fun _ => ()) = .error missing := by decide +kernel
  have ho : (parse opened).map (fun _ => ()) = .error unterminated := by decide +kernel
  have he : (parse endless).map (fun _ => ()) = .error unclosed := by decide +kernel
  have hc := eq_error_of_map hc
  have hb := eq_error_of_map hb
  have ho := eq_error_of_map ho
  have he := eq_error_of_map he
  refine ⟨⟨hmade, hc, report_underlines_places (.inr ⟨t, rfl, hc⟩), ?_⟩,
    ⟨hb, report_underlines_places (.inl hb), ?_⟩, ⟨ho, report_underlines_places (.inl ho), ?_⟩,
    he, report_underlines_places (.inl he), ?_⟩
  all_goals decide +kernel

end Proforma
