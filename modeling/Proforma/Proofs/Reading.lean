import Proforma.Proofs.Parsing
import Proforma.Proofs.Stopping
import Proforma.Proofs.Written

/-!
Readers read what is written. Each takes exactly its own text, as long as what follows cannot
continue it.
-/
namespace Proforma

open Text

theorem readIdentifier?_append {word rest : List Char} (h : isIdentifier word = true)
    (hr : Stops continuesIdentifier rest) : readIdentifier? (word ++ rest) = some (word, rest) := by
  cases word with
  | nil => simp [isIdentifier] at h
  | cons c cs =>
    simp only [isIdentifier, Bool.and_eq_true, List.all_eq_true] at h
    rw [List.cons_append, readIdentifier?, if_pos h.1, takeWhile_append_of_stops h.2 hr,
      dropWhile_append_of_stops h.2 hr]

theorem readName_append {name : String} {rest : List Char} (h : isIdentifier name.toList = true)
    (hr : Stops continuesIdentifier rest) : readName (name.toList ++ rest) = .ok (name, rest) := by
  unfold readName
  simp [readIdentifier?_append h hr]

theorem readIndex_append {n : Nat} {ds rest : List Char} (h : WritesIndex n ds)
    (hn : n < UInt64.size) (hr : Stops Char.isDigit rest) :
    readIndex (ds ++ rest) = .ok (n, rest) := by
  obtain ⟨hne, hds, hv⟩ := h
  unfold readIndex
  rw [takeWhile_append_of_stops hds hr, dropWhile_append_of_stops hds hr]
  simp [hne, hv, hn]

theorem Stops.continuesIdentifier {rest : List Char} (h : Stops continuesPath rest) :
    Stops continuesIdentifier rest :=
  h.mono fun _ hc => continuesPath_of_continuesIdentifier hc

theorem readDotted_digits {n : Nat} {ds rest : List Char} (h : WritesIndex n ds)
    (hn : n < UInt64.size) (hr : Stops Char.isDigit rest) :
    readDotted (ds ++ rest) = .ok (.index n, rest) := by
  have hi := readIndex_append h hn hr
  obtain ⟨hne, hds, -⟩ := h
  cases ds with
  | nil => exact absurd rfl hne
  | cons c ds =>
    have hc := hds c (by simp)
    unfold readDotted
    rw [if_pos (by simpa using hc), hi]
    rfl

theorem readDotted_name {name : String} {rest : List Char} (h : isIdentifier name.toList = true)
    (hr : Stops continuesIdentifier rest) :
    readDotted (name.toList ++ rest) = .ok (.field name, rest) := by
  have hn := readName_append h hr
  unfold readDotted
  rw [if_neg, hn]
  · rfl
  · cases hs : name.toList with
    | nil => simp [hs, isIdentifier] at h
    | cons c cs =>
      rw [hs] at h
      simp only [isIdentifier, Bool.and_eq_true] at h
      simp [isDigit_of_startsIdentifier h.1]

theorem readBracketed_append {n : Nat} {ds : List Char} (h : WritesIndex n ds)
    (hn : n < UInt64.size) (rest : List Char) :
    readBracketed (ds ++ ']' :: rest) = .ok (.index n, rest) := by
  unfold readBracketed
  rw [readIndex_append h hn (stops_cons.mpr (by decide))]
  rfl

theorem readSegments_dot {cs rest : List Char} {s : Segment}
    (h : readDotted cs = .ok (s, rest)) :
    readSegments ('.' :: cs) = (readSegments rest).map (Prod.map (s :: ·) id) := by
  rw [readSegments]
  split
  · next he => simp [h] at he
  · next he =>
    obtain ⟨rfl, rfl⟩ := by simpa [h] using he
    cases readSegments _ <;> rfl

theorem readSegments_bracket {cs rest : List Char} {s : Segment}
    (h : readBracketed cs = .ok (s, rest)) :
    readSegments ('[' :: cs) = (readSegments rest).map (Prod.map (s :: ·) id) := by
  rw [readSegments]
  split
  · next he => simp [h] at he
  · next he =>
    obtain ⟨rfl, rfl⟩ := by simpa [h] using he
    cases readSegments _ <;> rfl

theorem readSegments_of_stops {rest : List Char} (h : Stops continuesPath rest) :
    readSegments rest = .ok ([], rest) := by
  rw [readSegments.eq_3]
  · rintro cs rfl
    exact absurd (stops_cons.mp h) (by decide)
  · rintro cs rfl
    exact absurd (stops_cons.mp h) (by decide)

theorem stops_segments {ss : List Segment} {tail : List (List Char)} {rest : List Char}
    (h : List.Forall₂ Segment.Written ss tail) (hr : Stops continuesPath rest) :
    Stops continuesIdentifier (tail.flatten ++ rest) := by
  cases h with
  | nil => exact hr.continuesIdentifier
  | cons hs _ => cases hs <;> exact stops_cons.mpr (by decide)

theorem readSegments_append {ss : List Segment} {tail : List (List Char)} {rest : List Char}
    (h : List.Forall₂ Segment.Written ss tail) (hs : ∀ s ∈ ss, s.WellFormed)
    (hr : Stops continuesPath rest) : readSegments (tail.flatten ++ rest) = .ok (ss, rest) := by
  induction h with
  | nil => exact readSegments_of_stops hr
  | @cons s cs ss tail hw hws ih =>
    have ih := ih fun s hm => hs s (List.mem_cons_of_mem _ hm)
    have hwf := hs s (by simp)
    have hstop := stops_segments hws hr
    cases hw with
    | field name =>
      have hd := readDotted_name hwf hstop
      simp only [List.flatten_cons, List.cons_append, List.append_assoc]
      rw [readSegments_dot hd, ih]
      rfl
    | dotted hi =>
      have hd := readDotted_digits hi hwf
        (hstop.mono fun _ => continuesIdentifier_of_isDigit)
      simp only [List.flatten_cons, List.cons_append, List.append_assoc]
      rw [readSegments_dot hd, ih]
      rfl
    | bracketed hi =>
      have hd := readBracketed_append hi hwf (tail.flatten ++ rest)
      simp only [List.flatten_cons, List.cons_append, List.append_assoc, List.nil_append]
      rw [readSegments_bracket hd, ih]
      rfl

/-- A path is read up to what cannot carry it on. -/
theorem readPath_append {p : Path} {cs rest : List Char} (h : p.Written cs) (hp : p.WellFormed)
    (hr : Stops continuesPath rest) : readPath (cs ++ rest) = .ok (p, rest) := by
  obtain ⟨hs⟩ := h
  have hn := readName_append hp.1 (stops_segments hs hr)
  have ht := readSegments_append hs hp.2 hr
  unfold readPath
  simp only [List.append_assoc, hn, ht, ok_bind]

theorem stops_isBlank_of_path {p : Path} {cs : List Char} (h : p.Written cs) (hp : p.WellFormed)
    (rest : List Char) : Stops isBlank (cs ++ rest) := by
  obtain ⟨-⟩ := h
  rw [List.append_assoc]
  exact stops_isBlank_of_isIdentifier hp.1 _

theorem readQuoted?_escaped {quote : Char} (hq : quote ≠ '\\') (s rest : List Char) :
    readQuoted? quote (escaped quote s ++ quote :: rest) = some (s, rest) := by
  induction s with
  | nil =>
    rw [escaped, List.flatMap_nil, List.nil_append, readQuoted?.eq_3 _ _ _ fun c cs he _ => hq he,
      if_pos rfl]
  | cons c s ih =>
    have he : escaped quote (c :: s) =
        (if c = '\\' ∨ c = quote then ['\\', c] else [c]) ++ escaped quote s := by
      simp [escaped]
    rw [he]
    split
    · simp only [List.cons_append, List.nil_append]
      rw [readQuoted?, ih]
      rfl
    · next hc =>
      simp only [not_or] at hc
      rw [List.cons_append, List.nil_append, List.cons_append,
        readQuoted?.eq_3 _ _ _ fun c' cs he _ => hc.1 he, if_neg hc.2, ih]
      rfl

theorem ne_backslash_of_isQuote {quote : Char} (h : isQuote quote = true) : quote ≠ '\\' := by
  rintro rfl
  exact absurd h (by decide)

theorem all_isNumberChar_decimalText (negative : Bool) {whole : List Char}
    {fraction : Option (List Char)} (hw : ∀ c ∈ whole, c.isDigit = true)
    (hf : ∀ c ∈ fraction.getD [], c.isDigit = true) :
    ∀ c ∈ decimalText negative whole fraction, isNumberChar c = true := by
  intro c hc
  simp only [decimalText, List.mem_append] at hc
  rcases hc with (hc | hc) | hc
  · cases negative
    · simp at hc
    · obtain rfl := by simpa using hc
      decide
  · simp [isNumberChar, hw c hc]
  · cases fraction with
    | none => simp at hc
    | some ds =>
      rcases List.mem_cons.mp hc with rfl | hc
      · decide
      · simp [isNumberChar, hf c hc]

theorem readSign_decimalText {negative : Bool} {whole : List Char} {fraction : Option (List Char)}
    (hw : ∀ c ∈ whole, c.isDigit = true)
    (hn : whole ≠ [] ∨ negative = true ∧ fraction.getD [] ≠ []) :
    Double.readSign (decimalText negative whole fraction) =
      (negative, whole ++ (fraction.map ('.' :: ·)).getD []) := by
  cases negative with
  | true => rfl
  | false =>
    cases whole with
    | nil => simp at hn
    | cons c whole =>
      have hc := hw c (by simp)
      unfold Double.readSign decimalText
      split
      · next he =>
        obtain ⟨rfl, -⟩ := by simpa using he
        exact absurd hc (by decide)
      · next he =>
        obtain ⟨rfl, -⟩ := by simpa using he
        exact absurd hc (by decide)
      · rfl

theorem readNumeral_decimalText {negative : Bool} {whole : List Char}
    {fraction : Option (List Char)} (hw : ∀ c ∈ whole, c.isDigit = true)
    (hf : ∀ c ∈ fraction.getD [], c.isDigit = true)
    (hn : whole ≠ [] ∨ negative = true ∧ fraction.getD [] ≠ []) :
    Double.Numeral.read? (decimalText negative whole fraction) =
      some ⟨negative, Double.digitsValue (whole ++ fraction.getD []),
        -(fraction.getD []).length⟩ := by
  have hsign := readSign_decimalText hw hn
  unfold Double.Numeral.read?
  cases fraction with
  | none =>
    have hne : whole ≠ [] := by simpa using hn
    have ht := takeWhile_append_of_stops hw (stops_nil _)
    have hd := dropWhile_append_of_stops hw (stops_nil _)
    simp only [Option.map_none, Option.getD_none, List.append_nil] at hsign ht hd ⊢
    simp [hsign, ht, hd, hne]
  | some ds =>
    have hstop : Stops Char.isDigit ('.' :: ds) := stops_cons.mpr (by decide)
    have ht := takeWhile_append_of_stops hw hstop
    have hd := dropWhile_append_of_stops hw hstop
    have ht' := takeWhile_append_of_stops hf (stops_nil _)
    have hd' := dropWhile_append_of_stops hf (stops_nil _)
    have hne : ¬ (whole = [] ∧ ds = []) := by
      rintro ⟨rfl, rfl⟩
      simp at hn
    simp only [Option.map_some, Option.getD_some, List.append_nil] at hsign ht' hd' ⊢
    simp [hsign, ht, hd, ht', hd', hne]

/-- The beginning of a literal: neither white space nor a closing parenthesis. -/
def startsLiteral (c : Char) : Bool := isQuote c || c.isDigit || c == '-'

theorem decimalText_eq_cons {negative : Bool} {whole : List Char} {fraction : Option (List Char)}
    (hw : ∀ c ∈ whole, c.isDigit = true)
    (hn : whole ≠ [] ∨ negative = true ∧ fraction.getD [] ≠ []) :
    ∃ c cs, decimalText negative whole fraction = c :: cs ∧ (c.isDigit || c == '-') = true := by
  cases negative with
  | true => exact ⟨'-', _, rfl, rfl⟩
  | false =>
    cases whole with
    | nil => simp at hn
    | cons c whole => exact ⟨c, _, rfl, by simp [hw c]⟩

theorem isQuote_of_startsNumber {c : Char} (h : (c.isDigit || c == '-') = true) :
    isQuote c = false := by
  by_contra hq
  simp only [isQuote, Bool.not_eq_false, Bool.or_eq_true, beq_iff_eq] at hq
  rcases hq with rfl | rfl <;> exact absurd h (by decide)

/-- A literal is read up to what cannot carry on a number. -/
theorem readLiteral_append {a : Literal} {cs rest : List Char} (h : a.Written cs)
    (ha : a.isFinite = true) (hr : Stops isNumberChar rest) :
    readLiteral (cs ++ rest) = .ok (a, rest) := by
  cases h with
  | text s hq =>
    have he := readQuoted?_escaped (ne_backslash_of_isQuote hq) s.toList rest
    unfold readLiteral
    simp only [List.cons_append, List.append_assoc, List.nil_append, hq, if_true, he,
      String.ofList_toList]
  | @number negative whole fraction hw hf hn =>
    have hall := all_isNumberChar_decimalText negative hw hf
    obtain ⟨c, ds, hcons, hc⟩ := decimalText_eq_cons hw hn
    have hread := readNumeral_decimalText hw hf hn
    have ht := takeWhile_append_of_stops hall hr
    have hd := dropWhile_append_of_stops hall hr
    rw [hcons, List.cons_append] at ht hd
    rw [hcons] at hread
    unfold Literal.isFinite at ha
    unfold readLiteral
    simp only [hcons, List.cons_append, isQuote_of_startsNumber hc, hc, ht, hd, hread]
    simp [Double.Numeral.toDouble, ha]

theorem startsLiteral_of_written {a : Literal} {cs : List Char} (h : a.Written cs) :
    ∃ c ds, cs = c :: ds ∧ startsLiteral c = true := by
  cases h with
  | text s hq => exact ⟨_, _, rfl, by simp [startsLiteral, hq]⟩
  | number hw hf hn =>
    obtain ⟨c, ds, hcons, hc⟩ := decimalText_eq_cons hw hn
    rw [hcons]
    exact ⟨c, ds, rfl, by rw [startsLiteral, Bool.or_assoc, hc, Bool.or_true]⟩

theorem isBlank_of_startsLiteral {c : Char} (h : startsLiteral c = true) : isBlank c = false := by
  simp only [startsLiteral, isQuote, Bool.or_eq_true, beq_iff_eq] at h
  rcases h with ((rfl | rfl) | h) | rfl
  · decide
  · decide
  · exact isBlank_of_isAlphanum (by simp [Char.isAlphanum, h])
  · decide

theorem skipBlanks_literal {a : Literal} {before cs : List Char} (hb : allBlank before = true)
    (h : a.Written cs) (rest : List Char) :
    skipBlanks (before ++ cs ++ rest) = cs ++ rest := by
  obtain ⟨c, ds, rfl, hc⟩ := startsLiteral_of_written h
  rw [List.append_assoc, skipBlanks_append hb]
  exact skipBlanks_of_stops (stops_cons.mpr (isBlank_of_startsLiteral hc))

theorem readArguments_last {cs after rest : List Char} {a : Literal}
    (h : readLiteral (skipBlanks cs) = .ok (a, after)) (hs : skipBlanks after = ')' :: rest) :
    readArguments cs = .ok ([a], rest) := by
  rw [readArguments]
  split
  · next he => simp [h] at he
  · next he =>
    obtain ⟨rfl, rfl⟩ := by simpa [h] using he
    split
    · next he =>
      obtain rfl : rest = _ := by simpa [hs] using he
      rfl
    · next he => simp [hs] at he
    · next hn _ => exact (hn _ hs).elim

theorem readArguments_comma {cs after more : List Char} {a : Literal}
    (h : readLiteral (skipBlanks cs) = .ok (a, after)) (hs : skipBlanks after = ',' :: more) :
    readArguments cs = (readArguments more).map (Prod.map (a :: ·) id) := by
  rw [readArguments]
  split
  · next he => simp [h] at he
  · next he =>
    obtain ⟨rfl, rfl⟩ := by simpa [h] using he
    split
    · next he => simp [hs] at he
    · next he =>
      obtain rfl : more = _ := by simpa [hs] using he
      cases readArguments more <;> rfl
    · next hn => exact (hn _ hs).elim

theorem readArguments_skipBlanks (cs : List Char) :
    readArguments (skipBlanks cs) = readArguments cs := by
  rw [readArguments, readArguments.eq_def cs, skipBlanks_skipBlanks]

theorem stops_isNumberChar_append {gap rest : List Char} (hg : allBlank gap = true)
    (hr : Stops isNumberChar rest) : Stops isNumberChar (gap ++ rest) := by
  refine hr.append (q := isBlank) (by simpa [allBlank] using hg) fun c hc => ?_
  by_contra hn
  rw [isBlank_of_isNumberChar (by simpa using hn)] at hc
  exact Bool.noConfusion hc

/-- Arguments are read up to the closing parenthesis. -/
theorem readArguments_append {as : List Literal} {cs : List Char} (h : ArgumentsWritten as cs)
    (hf : ∀ a ∈ as, a.isFinite = true) (rest : List Char) :
    readArguments (cs ++ ')' :: rest) = .ok (as, rest) := by
  induction h with
  | @last a before cs after hb h ha =>
    have hstop : Stops isNumberChar (after ++ ')' :: rest) :=
      stops_isNumberChar_append ha (stops_cons.mpr (by decide))
    have hskip := skipBlanks_literal hb h (after ++ ')' :: rest)
    have hread := readLiteral_append h (hf a (by simp)) hstop
    rw [← hskip] at hread
    have hclose : skipBlanks (after ++ ')' :: rest) = ')' :: rest := by
      rw [skipBlanks_append ha]
      rfl
    rw [List.append_assoc]
    exact readArguments_last hread hclose
  | @cons a as before cs after more hb h ha hs ih =>
    have ih := ih fun x hx => hf x (List.mem_cons_of_mem _ hx)
    have hstop : Stops isNumberChar (after ++ ',' :: (more ++ ')' :: rest)) :=
      stops_isNumberChar_append ha (stops_cons.mpr (by decide))
    have hskip := skipBlanks_literal hb h (after ++ ',' :: (more ++ ')' :: rest))
    have hread := readLiteral_append h (hf a (by simp)) hstop
    rw [← hskip] at hread
    have hcomma : skipBlanks (after ++ ',' :: (more ++ ')' :: rest)) =
        ',' :: (more ++ ')' :: rest) := by
      rw [skipBlanks_append ha]
      rfl
    have hcons := readArguments_comma hread hcomma
    rw [ih] at hcons
    simpa [Except.map] using hcons

theorem ArgumentsWritten.skipBlanks_eq_cons {as : List Literal} {cs : List Char}
    (h : ArgumentsWritten as cs) (rest : List Char) :
    ∃ c ds, skipBlanks (cs ++ rest) = c :: ds ∧ startsLiteral c = true := by
  cases h with
  | @last a before cs after hb h ha =>
    have hskip := skipBlanks_literal hb h (after ++ rest)
    obtain ⟨c, ds, rfl, hc⟩ := startsLiteral_of_written h
    exact ⟨c, _, by simpa using hskip, hc⟩
  | @cons a as before cs after more hb h ha hs =>
    have hskip := skipBlanks_literal hb h (after ++ ',' :: (more ++ rest))
    obtain ⟨c, ds, rfl, hc⟩ := startsLiteral_of_written h
    exact ⟨c, _, by simpa using hskip, hc⟩

theorem readCallArguments_empty {gap inner : List Char} (hg : allBlank gap = true)
    (hi : allBlank inner = true) (rest : List Char) :
    readCallArguments (gap ++ '(' :: (inner ++ ')' :: rest)) = .ok ([], rest) := by
  have h₁ : skipBlanks (gap ++ '(' :: (inner ++ ')' :: rest)) = '(' :: (inner ++ ')' :: rest) := by
    rw [skipBlanks_append hg]
    rfl
  have h₂ : skipBlanks (inner ++ ')' :: rest) = ')' :: rest := by
    rw [skipBlanks_append hi]
    rfl
  unfold readCallArguments
  simp only [h₁, h₂]

theorem readCallArguments_applied {as : List Literal} {gap cs : List Char}
    (hg : allBlank gap = true) (h : ArgumentsWritten as cs)
    (hf : ∀ a ∈ as, a.isFinite = true) (rest : List Char) :
    readCallArguments (gap ++ '(' :: (cs ++ ')' :: rest)) = .ok (as, rest) := by
  have h₁ : skipBlanks (gap ++ '(' :: (cs ++ ')' :: rest)) = '(' :: (cs ++ ')' :: rest) := by
    rw [skipBlanks_append hg]
    rfl
  obtain ⟨c, ds, h₂, hc⟩ := h.skipBlanks_eq_cons (')' :: rest)
  have h₃ := readArguments_append h hf rest
  rw [← readArguments_skipBlanks, h₂] at h₃
  unfold readCallArguments
  simp only [h₁, h₂]
  split
  · next he =>
    obtain ⟨rfl, -⟩ := by simpa using he
    exact absurd hc (by decide)
  · exact h₃

theorem PipelineWritten.stops {calls : List Call} {cs : List Char} (h : PipelineWritten calls cs) :
    Stops continuesPath cs := by
  have hblank : ∀ {gap rest : List Char}, allBlank gap = true → Stops continuesPath rest →
      Stops continuesPath (gap ++ rest) := fun hg hr =>
    hr.append (q := isBlank) (by simpa [allBlank] using hg) fun _ => continuesPath_of_isBlank
  cases h with
  | nil hg => simpa using hblank hg (stops_nil _)
  | cons hb _ _ _ =>
    simp only [List.append_assoc, List.cons_append]
    exact hblank hb (stops_cons.mpr (by decide))

theorem PipelineWritten.skipBlanks_eq {calls : List Call} {cs : List Char}
    (h : PipelineWritten calls cs) : skipBlanks cs = [] ∨ ∃ rest, skipBlanks cs = '|' :: rest := by
  cases h with
  | nil hg => exact .inl (skipBlanks_of_allBlank hg)
  | cons hb _ _ _ =>
    simp only [List.append_assoc, List.cons_append]
    exact .inr ⟨_, by rw [skipBlanks_append hb]; rfl⟩

theorem isIdentifier_name (f : Filter) : isIdentifier f.name.toList = true := by
  cases f <;> decide

theorem readCall_eq (stop : Nat) {f : Filter} {args : List Literal} {after rest : List Char}
    (hs : Stops continuesIdentifier after) (ha : readCallArguments after = .ok (args, rest))
    (hw : Call.WellFormed (f, args)) :
    ∃ call, readCall stop (f.name.toList ++ after) = .ok (call, rest) ∧ call.call = (f, args) := by
  have hname : Filter.ofName? (String.ofList f.name.toList) = some f := by
    rw [String.ofList_toList, Filter.ofName?_name]
  have hcount : f.acceptsCount args.length = true := hw.1
  have haccepted : f.checkArguments args = .ok () := hw.2.1
  unfold readCall
  simp only [readIdentifier?_append (isIdentifier_name f) hs, hname, ha, ok_bind, hcount,
    haccepted, if_true]
  exact ⟨_, rfl, rfl⟩

/-- A call is read up to what follows it; white space may go with it. -/
theorem readCall_append {c : Call} {cs rest : List Char} (h : Call.Written c cs)
    (hw : Call.WellFormed c) (hr : Stops continuesIdentifier rest)
    (hn : ∀ cs, skipBlanks rest ≠ '(' :: cs) (stop : Nat) :
    ∃ call rest', readCall stop (cs ++ rest) = .ok (call, rest') ∧ call.call = c ∧
      skipBlanks rest' = skipBlanks rest := by
  have hgap : ∀ {gap cs : List Char}, allBlank gap = true →
      Stops continuesIdentifier (gap ++ '(' :: cs) := fun hg =>
    Stops.append (q := isBlank) (stops_cons.mpr (by decide)) (by simpa [allBlank] using hg) fun _ =>
      continuesIdentifier_of_isBlank
  cases h with
  | bare f =>
    have hargs : readCallArguments rest = .ok ([], skipBlanks rest) := by
      unfold readCallArguments
      split
      · next he => exact absurd he (hn _)
      · rfl
    obtain ⟨call, hread, hcall⟩ := readCall_eq stop hr hargs hw
    exact ⟨call, _, hread, hcall, skipBlanks_skipBlanks rest⟩
  | empty f hg hi =>
    obtain ⟨call, hread, hcall⟩ :=
      readCall_eq stop (hgap hg) (readCallArguments_empty hg hi rest) hw
    exact ⟨call, rest, by simpa using hread, hcall, rfl⟩
  | applied f hg hs =>
    obtain ⟨call, hread, hcall⟩ :=
      readCall_eq stop (hgap hg) (readCallArguments_applied hg hs hw.2.2 rest) hw
    exact ⟨call, rest, by simpa using hread, hcall, rfl⟩

theorem readPipeline_skipBlanks (stop : Nat) (cs : List Char) :
    readPipeline stop (skipBlanks cs) = readPipeline stop cs := by
  rw [readPipeline, readPipeline.eq_def stop cs, skipBlanks_skipBlanks]

theorem Call.Written.eq_name_append {c : Call} {cs : List Char} (h : Call.Written c cs) :
    ∃ more, cs = c.1.name.toList ++ more := by
  cases h with
  | bare f => exact ⟨[], by simp⟩
  | empty f _ _ => exact ⟨_, by rw [List.append_assoc, List.append_assoc]⟩
  | applied f _ _ => exact ⟨_, by rw [List.append_assoc, List.append_assoc]⟩

theorem readPipeline_written {calls : List Call} {cs : List Char} (h : PipelineWritten calls cs)
    (hw : ∀ c ∈ calls, Call.WellFormed c) (stop : Nat) :
    ∃ filters, readPipeline stop cs = .ok filters ∧ filters.map FilterCall.call = calls := by
  induction h with
  | nil hg => exact ⟨[], readPipeline_of_nil stop (skipBlanks_of_allBlank hg), rfl⟩
  | @cons c calls before after cs more hb ha h hs ih =>
    obtain ⟨filters, hread, hmap⟩ := ih fun c hc => hw c (List.mem_cons_of_mem _ hc)
    have hn : ∀ ds, skipBlanks more ≠ '(' :: ds := by
      intro ds he
      rcases hs.skipBlanks_eq with hs | ⟨_, hs⟩ <;> simp [hs] at he
    obtain ⟨call, rest', hcall, heq, hskip⟩ :=
      readCall_append h (hw c (by simp)) hs.stops.continuesIdentifier hn stop
    have hbar : skipBlanks (before ++ '|' :: after ++ cs ++ more) =
        '|' :: (after ++ (cs ++ more)) := by
      simp only [List.append_assoc, List.cons_append]
      rw [skipBlanks_append hb]
      rfl
    have hblank : skipBlanks (after ++ (cs ++ more)) = cs ++ more := by
      obtain ⟨name, rfl⟩ := h.eq_name_append
      rw [skipBlanks_append ha, List.append_assoc]
      exact skipBlanks_of_stops (stops_isBlank_of_isIdentifier (isIdentifier_name _) _)
    have hrest : readPipeline stop rest' = .ok filters := by
      rw [← readPipeline_skipBlanks, hskip, readPipeline_skipBlanks, hread]
    refine ⟨call :: filters, ?_, by simp [heq, hmap]⟩
    rw [readPipeline_of_bar stop hbar, hblank, hcall]
    simp only [Except.bind, hrest, Except.map]

theorem Path.Written.eq_cons {p : Path} {cs : List Char} (h : p.Written cs) (hp : p.WellFormed) :
    ∃ c ds, cs = c :: ds := by
  obtain ⟨-⟩ := h
  have hh := hp.1
  cases he : p.head.toList with
  | nil => simp [he, isIdentifier] at hh
  | cons c ds => exact ⟨c, _, rfl⟩

/-- An expression is read back. -/
theorem readExpression_written {p : Path} {calls : List Call} {content : List Char}
    (h : ExpressionWritten p calls content) (hp : p.WellFormed)
    (hw : ∀ c ∈ calls, Call.WellFormed c) (stop : Nat) :
    ∃ filters, readExpression stop content = .ok (p, filters) ∧
      filters.map FilterCall.call = calls := by
  cases h with
  | @intro gap cs more hg hpath hs =>
    obtain ⟨filters, hread, hmap⟩ := readPipeline_written hs hw stop
    have hskip : skipBlanks (gap ++ cs ++ more) = cs ++ more := by
      rw [List.append_assoc, skipBlanks_append hg]
      exact skipBlanks_of_stops (stops_isBlank_of_path hpath hp more)
    have hp' := readPath_append hpath hp hs.stops
    obtain ⟨c, ds, rfl⟩ := hpath.eq_cons hp
    refine ⟨filters, ?_, hmap⟩
    unfold readExpression
    rw [hskip]
    simp only [List.cons_append] at hp' ⊢
    simp only [hp', hread, ok_bind]

theorem readOnlyPath_written {p : Path} {gap cs after : List Char} (hg : allBlank gap = true)
    (h : p.Written cs) (hp : p.WellFormed) (ha : allBlank after = true) (keyword : String) :
    readOnlyPath keyword (gap ++ cs ++ after) = .ok p := by
  have hskip : skipBlanks (gap ++ cs ++ after) = cs ++ after := by
    rw [List.append_assoc, skipBlanks_append hg]
    exact skipBlanks_of_stops (stops_isBlank_of_path h hp after)
  have hp' := readPath_append h hp (PipelineWritten.nil ha).stops
  obtain ⟨c, ds, rfl⟩ := h.eq_cons hp
  unfold readOnlyPath
  rw [hskip]
  simp only [List.cons_append] at hp' ⊢
  simp only [hp', ok_bind, skipBlanks_of_allBlank ha]

theorem readNothing_allBlank {after : List Char} (ha : allBlank after = true) (keyword : String) :
    readNothing keyword after = .ok () := by
  unfold readNothing
  rw [skipBlanks_of_allBlank ha]

theorem IsSpace.stops {gap : List Char} (h : IsSpace gap) {p : Char → Bool}
    (hp : ∀ c, isBlank c = true → p c = false) (rest : List Char) : Stops p (gap ++ rest) := by
  obtain ⟨hne, hb⟩ := h
  cases gap with
  | nil => exact absurd rfl hne
  | cons c gap =>
    simp only [allBlank, List.all_cons, Bool.and_eq_true] at hb
    exact stops_cons.mpr (hp c hb.1)

theorem skipBlanks_identifier {gap word : List Char} (hg : allBlank gap = true)
    (h : isIdentifier word = true) (rest : List Char) :
    skipBlanks (gap ++ (word ++ rest)) = word ++ rest := by
  rw [skipBlanks_append hg]
  exact skipBlanks_of_stops (stops_isBlank_of_isIdentifier h rest)

theorem readLoopHeader_written {binding : String} {p : Path} {gap gap' gap'' cs after : List Char}
    (hg : IsSpace gap) (hg' : IsSpace gap') (hg'' : IsSpace gap'') (h : p.Written cs)
    (hp : p.WellFormed) (hb : isIdentifier binding.toList = true) (ht : binding ≠ todayName)
    (ha : allBlank after = true) :
    readLoopHeader (gap ++ (binding.toList ++ (gap' ++ ("in".toList ++ (gap'' ++ cs ++ after))))) =
      .ok (binding, p) := by
  have h₁ := skipBlanks_identifier hg.2 hb (gap' ++ ("in".toList ++ (gap'' ++ cs ++ after)))
  have h₂ := readIdentifier?_append hb
    (hg'.stops (fun _ => continuesIdentifier_of_isBlank) ("in".toList ++ (gap'' ++ cs ++ after)))
  have hin : isIdentifier "in".toList = true := by decide
  have h₃ := skipBlanks_identifier hg'.2 hin (gap'' ++ cs ++ after)
  have h₄ := readIdentifier?_append hin
    (hg''.stops (fun _ => continuesIdentifier_of_isBlank) (cs ++ after))
  have h₅ := readOnlyPath_written hg''.2 h hp ha "for"
  rw [← List.append_assoc gap''] at h₄
  have hw : "in".toList = ['i', 'n'] := rfl
  rw [hw] at h₁ h₂ h₃ h₄ ⊢
  unfold readLoopHeader
  simp only [h₁, h₂, String.ofList_toList, if_neg ht, h₃, h₄, h₅, ok_bind]

theorem stops_isNotBlank {after : List Char} (h : allBlank after = true) :
    Stops isNotBlank after := by
  have hs := (stops_nil isNotBlank).append (q := isBlank)
    (by simpa [allBlank] using h) fun c hc => by simp [isNotBlank, hc]
  simpa using hs

/-- The keyword of a directive is cut off. -/
theorem keyword_written {before rest : List Char} (hb : allBlank before = true) (word : List Char)
    (hw : isIdentifier word = true) (hr : Stops isNotBlank rest) :
    (skipBlanks (before ++ word ++ rest)).takeWhile isNotBlank = word ∧
      (skipBlanks (before ++ word ++ rest)).dropWhile isNotBlank = rest := by
  have hall : ∀ c ∈ word, isNotBlank c = true := by
    intro c hc
    have hi := all_continues_of_isIdentifier hw c hc
    simp [isNotBlank, isBlank_of_continuesPath (continuesPath_of_continuesIdentifier hi)]
  rw [List.append_assoc, skipBlanks_identifier hb hw]
  exact ⟨takeWhile_append_of_stops hall hr, dropWhile_append_of_stops hall hr⟩

/-- A directive is read back. -/
theorem readDirective_written {d : Directive} {content : List Char} (h : d.Written content)
    (hd : d.WellFormed) : readDirective content = .ok d := by
  cases h with
  | @openIf p before gap cs after hb hg hp ha =>
    have hstop : Stops isNotBlank (gap ++ cs ++ after) := by
      rw [List.append_assoc]
      exact hg.stops (fun c hc => by simp [isNotBlank, hc]) _
    obtain ⟨h₁, h₂⟩ := keyword_written hb "if".toList (by decide) hstop
    have h₃ := readOnlyPath_written hg.2 hp hd ha "if"
    simp only [List.append_assoc] at h₁ h₂ h₃ ⊢
    unfold readDirective
    simp only [h₁, h₂, String.ofList_toList, h₃, ok_bind]
  | @middle before after hb ha =>
    obtain ⟨h₁, h₂⟩ := keyword_written hb "else".toList (by decide) (stops_isNotBlank ha)
    unfold readDirective
    simp only [h₁, h₂, String.ofList_toList, readNothing_allBlank ha, ok_bind]
  | @closeIf before after hb ha =>
    obtain ⟨h₁, h₂⟩ := keyword_written hb "endif".toList (by decide) (stops_isNotBlank ha)
    unfold readDirective
    simp only [h₁, h₂, String.ofList_toList, readNothing_allBlank ha, ok_bind]
  | @openFor binding p before gap gap' gap'' cs after hb hg hg' hg'' hp ha =>
    obtain ⟨hi, ht, hwf⟩ := hd
    have hstop := hg.stops (p := isNotBlank) (fun c hc => by simp [isNotBlank, hc])
      (binding.toList ++ (gap' ++ ("in".toList ++ (gap'' ++ cs ++ after))))
    obtain ⟨h₁, h₂⟩ := keyword_written hb "for".toList (by decide) hstop
    have h₃ := readLoopHeader_written hg hg' hg'' hp hwf hi ht ha
    simp only [List.append_assoc] at h₁ h₂ h₃ ⊢
    unfold readDirective
    simp only [h₁, h₂, String.ofList_toList, h₃, ok_bind]
  | @closeFor before after hb ha =>
    obtain ⟨h₁, h₂⟩ := keyword_written hb "endfor".toList (by decide) (stops_isNotBlank ha)
    unfold readDirective
    simp only [h₁, h₂, String.ofList_toList, readNothing_allBlank ha, ok_bind]


/-- A part is read back. -/
theorem part?_of_written {q : Part} {c : Chunk} (h : q.Written c) (hq : q.WellFormed) :
    c.part? = some q := by
  cases h with
  | text raw => simp [Chunk.part?]
  | expression h =>
    obtain ⟨filters, hread, hmap⟩ := readExpression_written h hq.1 hq.2 0
    simp [Chunk.part?, hread, hmap]
  | directive h => simp [Chunk.part?, readDirective_written h hq]

end Proforma
