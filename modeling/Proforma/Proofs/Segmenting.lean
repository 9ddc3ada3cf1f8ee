import Proforma.Proofs.Joining
import Proforma.Proofs.Places

/-!
The segmentation of a source. A source is cut into texts and directives where its first opener is,
and after it the first closer that matches; there is at most one such segmentation, it is found if
there is one, and otherwise the scan gives up at the first opener that has no segment.
-/
namespace Proforma

open Text

/-- In `cs`, with `rest` after it, `mark` does not begin. -/
def BeginsNowhere (mark cs rest : List Char) : Prop :=
  ∀ before after, cs ++ rest = before ++ mark ++ after → cs.length ≤ before.length

/-- A directive opens at the start of the text. -/
def Opens (cs : List Char) : Prop := ∃ (d : Delimiter) (rest : List Char), cs = d.opener ++ rest

/-- The pieces that can be cut off a source one after the other, and what is left of it. A text goes
on to the first opener, and stands before no other text; what stands in a directive holds no opener
and goes on to the first closer that matches. -/
inductive Segments : List Char → List Chunk → List Char → Prop where
  | nil (rest : List Char) : Segments rest [] rest
  | text {raw tail : List Char} {cs : List Chunk} {rest : List Char} (hr : raw ≠ [])
    (hn : ∀ raw', cs.head? ≠ some (.text raw'))
    (hf : ∀ d : Delimiter, BeginsNowhere d.opener raw tail) (ht : tail = [] ∨ Opens tail)
    (h : Segments tail cs rest) : Segments (raw ++ tail) (.text raw :: cs) rest
  | directive {d : Delimiter} {content tail : List Char} {cs : List Chunk} {rest : List Char}
    (hu : Unopened content) (hf : BeginsNowhere d.closer content (d.closer ++ tail))
    (h : Segments tail cs rest) :
    Segments (d.opener ++ content ++ d.closer ++ tail) (.directive d content :: cs) rest

/-- The pieces make up the whole source. -/
def IsSegmentation (source : List Char) (cs : List Chunk) : Prop := Segments source cs []

/-- Why a source has no segmentation: after some pieces a directive opens that has no closer after
it, or in which, up to the first closer that matches, another one opens. -/
inductive Refused (source : List Char) : LexError → Prop where
  | unterminated {cs : List Chunk} {d : Delimiter} {rest : List Char}
    (h : Segments source cs (d.opener ++ rest)) (hc : ¬ d.closer <:+: rest) :
    Refused source (.unterminated d (byteLength (sourceOf cs)))
  | nested {cs : List Chunk} {d inner : Delimiter} {lead more after : List Char}
    (h : Segments source cs (d.opener ++ (lead ++ inner.opener ++ more) ++ d.closer ++ after))
    (hc : BeginsNowhere d.closer (lead ++ inner.opener ++ more) (d.closer ++ after))
    (ho : ∀ d' : Delimiter, BeginsNowhere d'.opener lead (inner.opener ++ more)) :
    Refused source (.nested d inner (byteLength (sourceOf cs ++ d.opener ++ lead)))

/-- A mark of two characters begins within a text if it stands in the text and one more
character. -/
theorem beginsNowhere_pair {a b : Char} {cs rest : List Char} :
    BeginsNowhere [a, b] cs rest ↔ ¬ [a, b] <:+: cs ++ rest.take 1 := by
  constructor
  · rintro h ⟨before, after, he⟩
    have hle := h before (after ++ rest.drop 1) (by
      rw [← List.append_assoc, he, List.append_assoc, List.take_append_drop])
    have hlen := congrArg List.length he
    simp only [List.length_append, List.length_take, List.length_cons, List.length_nil] at hlen
    omega
  · intro h before after he
    by_contra hlt
    refine h ?_
    have hp : before ++ [a, b] <+: cs ++ rest := ⟨after, he.symm⟩
    have ht : cs ++ rest.take 1 = (cs ++ rest).take (cs.length + 1) := by
      rw [List.take_append, List.take_of_length_le (Nat.le_succ _)]
      simp
    have hle : (before ++ [a, b]).length ≤ cs.length + 1 := by
      simp only [List.length_append, List.length_cons, List.length_nil]
      omega
    rw [ht]
    exact (List.suffix_append before [a, b]).isInfix.trans
      (List.prefix_take_iff.mpr ⟨hp, hle⟩).isInfix

theorem beginsNowhere_closer {d : Delimiter} {content tail : List Char} :
    BeginsNowhere d.closer content (d.closer ++ tail) ↔
      ¬ d.closer <:+: content ++ d.closer.take 1 := by
  obtain ⟨a, b, hd⟩ := d.closer_eq
  rw [hd, beginsNowhere_pair]
  rfl

theorem beginsNowhere_opener_nil {cs : List Char} :
    (∀ d : Delimiter, BeginsNowhere d.opener cs []) ↔ Unopened cs := by
  refine forall_congr' fun d => ?_
  obtain ⟨b, hd⟩ := d.opener_eq
  rw [hd, beginsNowhere_pair, List.take_nil, List.append_nil]

theorem beginsNowhere_opener {cs tail : List Char} (ht : Opens tail) :
    (∀ d : Delimiter, BeginsNowhere d.opener cs tail) ↔
      Unopened cs ∧ cs.getLast? ≠ some '{' := by
  obtain ⟨d', rest, rfl⟩ := ht
  have hhead : (d'.opener ++ rest).take 1 = ['{'] := by cases d' <;> rfl
  have hpair : ∀ d : Delimiter, BeginsNowhere d.opener cs (d'.opener ++ rest) ↔
      ¬ d.opener <:+: cs ++ ['{'] := by
    intro d
    obtain ⟨b, hd⟩ := d.opener_eq
    rw [hd, beginsNowhere_pair, hhead]
  have hiff : Unopened (cs ++ ['{']) ↔ Unopened cs ∧ cs.getLast? ≠ some '{' := by
    rw [unopened_append]
    constructor
    · exact fun h => ⟨h.1, fun hl => h.2.2 .expression hl rfl⟩
    · rintro ⟨hu, hl⟩
      refine ⟨hu, fun d hd => ?_, fun d h => (hl h).elim⟩
      obtain ⟨b, hb⟩ := d.opener_eq
      rw [hb] at hd
      simpa using hd.length_le
  rw [← hiff]
  exact forall_congr' hpair

theorem Segments.source_eq {source rest : List Char} {cs : List Chunk}
    (h : Segments source cs rest) : source = sourceOf cs ++ rest := by
  induction h with
  | nil rest => rfl
  | text _ _ _ _ _ ih => rw [ih, sourceOf_cons, List.append_assoc]; rfl
  | directive _ _ _ ih => rw [ih, sourceOf_cons, ← List.append_assoc]; rfl

theorem Continues.append_directive {cs : List Chunk} {rest : List Char} (h : Continues cs rest)
    (ts : List Chunk) (d : Delimiter) (content : List Char) :
    Continues (ts ++ .directive d content :: cs) rest := by
  refine h.imp_right fun ⟨ho, hl⟩ => ⟨ho, fun raw hg => hl raw ?_⟩
  rw [List.getLast?_append_of_ne_nil _ (by simp)] at hg
  cases cs with
  | nil => simp at hg
  | cons c cs => rwa [List.getLast?_cons_cons] at hg

/-- The pieces are those of a cut that may be followed by what is left. -/
theorem Segments.isCut {source rest : List Char} {cs : List Chunk} (h : Segments source cs rest)
    (hr : rest = [] ∨ Opens rest) : IsCut cs ∧ Continues cs rest := by
  induction h with
  | nil rest => exact ⟨⟨by simp, .nil⟩, hr.imp_right fun ho => ⟨ho, by simp⟩⟩
  | @directive d content tail cs rest hu hf _ ih =>
    obtain ⟨hc, hcont⟩ := ih hr
    exact ⟨hc.directive ⟨hu, beginsNowhere_closer.mp hf⟩, hcont.append_directive [] d content⟩
  | @text raw tail cs rest hne hn hf ht h ih =>
    obtain ⟨hc, hcont⟩ := ih hr
    cases cs with
    | nil =>
      obtain rfl := h.source_eq
      rcases hr with rfl | ho
      · exact ⟨.text hne (beginsNowhere_opener_nil.mp hf), .inl rfl⟩
      · obtain ⟨hu, hl⟩ := (beginsNowhere_opener ho).mp hf
        refine ⟨.text hne hu, .inr ⟨ho, fun raw' hg => ?_⟩⟩
        obtain rfl := by simpa using hg
        exact hl
    | cons c cs =>
      cases c with
      | text raw' => exact (hn raw' rfl).elim
      | directive d content =>
        have ho : Opens tail := by
          rw [h.source_eq, sourceOf_cons]
          exact ⟨d, content ++ d.closer ++ sourceOf cs ++ rest, by simp [Chunk.source]⟩
        obtain ⟨hu, hl⟩ := (beginsNowhere_opener ho).mp hf
        exact ⟨.text_directive hne hu hl hc, hcont.tail.append_directive [.text raw] d content⟩

/-- The pieces of a cut can be cut off one after the other. -/
theorem IsCut.segments {cs : List Chunk} (h : IsCut cs) {rest : List Char}
    (hr : Continues cs rest) : Segments (sourceOf cs ++ rest) cs rest := by
  induction cs with
  | nil => exact .nil rest
  | cons c cs ih =>
    have hs := h.sound c (List.mem_cons_self ..)
    have htail := ih h.tail hr.tail
    cases c with
    | directive d content =>
      have hd := Segments.directive hs.1 (beginsNowhere_closer.mpr hs.2) htail
      rwa [sourceOf_cons, List.append_assoc]
    | text raw =>
      rw [sourceOf_cons, List.append_assoc]
      cases cs with
      | nil =>
        refine .text hs.1 (by simp) ?_ ?_ htail
        · rcases hr with rfl | ⟨ho, hl⟩
          · exact beginsNowhere_opener_nil.mpr hs.2
          · exact (beginsNowhere_opener ho).mpr ⟨hs.2, hl raw rfl⟩
        · exact hr.imp_right fun ⟨ho, _⟩ => ho
      | cons c' cs =>
        have hb := h.order.rel
        cases c' with
        | text _ => exact hb.elim
        | directive d content =>
          have ho : Opens (sourceOf (.directive d content :: cs) ++ rest) :=
            ⟨d, content ++ d.closer ++ sourceOf cs ++ rest, by simp [Chunk.source]⟩
          exact .text hs.1 (by simp) ((beginsNowhere_opener ho).mpr ⟨hs.2, hb⟩) (.inr ho) htail

theorem isSegmentation_iff {source : List Char} {cs : List Chunk} :
    IsSegmentation source cs ↔ IsCut cs ∧ sourceOf cs = source := by
  constructor
  · intro h
    refine ⟨(h.isCut (.inl rfl)).1, ?_⟩
    rw [h.source_eq, List.append_nil]
  · rintro ⟨hc, rfl⟩
    have h := hc.segments (.inl rfl)
    rwa [List.append_nil] at h

theorem placed_injective {start : Nat} {cs ds : List Chunk}
    (h : placed start cs = placed start ds) : cs = ds := by
  induction cs generalizing start ds with
  | nil =>
    cases ds with
    | nil => rfl
    | cons d ds => simp [placed] at h
  | cons c cs ih =>
    cases ds with
    | nil => simp [placed] at h
    | cons d ds =>
      obtain ⟨hp, ht⟩ := List.cons.inj h
      have hcd : c = d := by
        cases c <;> cases d <;> simp [Chunk.pieceAt] at hp <;> simp [hp]
      subst hcd
      rw [ih ht]

/-- A source has one segmentation at most. -/
theorem IsSegmentation.eq {source : List Char} {cs ds : List Chunk} (h : IsSegmentation source cs)
    (h' : IsSegmentation source ds) : cs = ds := by
  obtain ⟨hc, rfl⟩ := isSegmentation_iff.mp h
  obtain ⟨hd, hs⟩ := isSegmentation_iff.mp h'
  have hp := (pieces_sourceOf hc).symm.trans (hs ▸ pieces_sourceOf hd)
  exact placed_injective (Except.ok.inj hp)

/-- The row ends where a directive can open. -/
def EndsInText (ts : List Chunk) : Prop :=
  ∀ c, ts.getLast? = some c → ∃ raw, c = .text raw ∧ raw.getLast? ≠ some '{'

/-- The text before the first opener, as pieces. -/
theorem exists_text_cut {source before rest : List Char} {d : Delimiter}
    (h : splitOpener? source = some (before, d, rest)) :
    ∃ ts, IsCut ts ∧ sourceOf ts = before ∧ EndsInText ts := by
  obtain ⟨hu, hl⟩ := unopened_of_splitOpener?_eq_some h
  by_cases hb : before = []
  · exact ⟨[], ⟨by simp, .nil⟩, hb.symm, by simp [EndsInText]⟩
  · refine ⟨[.text before], .text hb hu, by simp, fun c hc => ?_⟩
    exact ⟨before, by simpa using hc.symm, hl⟩

theorem EndsInText.continues {ts : List Chunk} (h : EndsInText ts) (d : Delimiter)
    (rest : List Char) : Continues ts (d.opener ++ rest) := by
  refine .inr ⟨⟨d, rest, rfl⟩, fun raw hg => ?_⟩
  obtain ⟨raw', he, hl⟩ := h _ hg
  obtain rfl := Chunk.text.inj he
  exact hl

theorem IsCut.append_directive {ts cs : List Chunk} {d : Delimiter} {content : List Char}
    (h : IsCut ts) (hl : EndsInText ts) (hc : IsCut (.directive d content :: cs)) :
    IsCut (ts ++ .directive d content :: cs) := by
  refine isCut_append.mpr ⟨h, hc, fun c hg c' hh => ?_⟩
  obtain ⟨raw, rfl, hraw⟩ := hl c hg
  obtain rfl := Option.some.inj hh
  exact hraw

/-- Where a directive opens, it has no closer, or another one opens in it. -/
def GivesUp (d : Delimiter) (rest : List Char) (offset : Nat) (e : LexError) : Prop :=
  (splitCloser? d rest = none ∧ e = .unterminated d offset) ∨
    ∃ content after lead inner more, splitCloser? d rest = some (content, after) ∧
      splitOpener? content = some (lead, inner, more) ∧
      e = .nested d inner (offset + Delimiter.width + byteLength lead)

/-- Cutting gives up at a directive behind a cut. -/
theorem exists_of_piecesFrom_eq_error {start : Nat} {source : List Char} {e : LexError}
    (h : piecesFrom start source = .error e) : ∃ cs d rest, IsCut cs ∧
      Continues cs (d.opener ++ rest) ∧ source = sourceOf cs ++ (d.opener ++ rest) ∧
      GivesUp d rest (start + byteLength (sourceOf cs)) e := by
  fun_induction piecesFrom start source with
  | case1 => simp at h
  | case2 start source before d rest hs opened hc =>
    obtain ⟨ts, ht, rfl, hl⟩ := exists_text_cut hs
    obtain rfl := Except.error.inj h
    refine ⟨ts, d, rest, ht, hl.continues d rest, ?_, .inl ⟨hc, rfl⟩⟩
    rw [append_of_splitOpener? hs, List.append_assoc]
  | case3 start source before d rest hs opened content after hc inside lead inner more ho =>
    obtain ⟨ts, ht, rfl, hl⟩ := exists_text_cut hs
    obtain rfl := Except.error.inj h
    refine ⟨ts, d, rest, ht, hl.continues d rest, ?_,
      .inr ⟨content, after, lead, inner, more, hc, ho, rfl⟩⟩
    rw [append_of_splitOpener? hs, List.append_assoc]
  | case4 start source before d rest hs opened content after hc inside hn =>
    rename_i ih
    obtain ⟨ts, ht, rfl, hl⟩ := exists_text_cut hs
    have he : piecesFrom (inside + byteLength content + Delimiter.width) after = .error e := by
      cases hp : piecesFrom (inside + byteLength content + Delimiter.width) after with
      | error e' => simpa [hp, bind, Except.bind] using h
      | ok ps => simp [hp, bind, Except.bind] at h
    obtain ⟨cs, d', rest', hcut, hcont, rfl, hg⟩ := ih he
    have hd : d.Encloses content :=
      ⟨unopened_of_splitOpener?_eq_none hn, encloses_of_splitCloser? hc⟩
    refine ⟨ts ++ .directive d content :: cs, d', rest', ht.append_directive hl (hcut.directive hd),
      hcont.append_directive ts d content, ?_, ?_⟩
    · rw [append_of_splitOpener? hs, append_of_splitCloser? hc]
      simp [Chunk.source]
    · have ho : inside + byteLength content + Delimiter.width + byteLength (sourceOf cs) =
          start + byteLength (sourceOf (ts ++ .directive d content :: cs)) := by
        simp only [inside, opened, sourceOf_append, sourceOf_cons, Chunk.source, byteLength_append,
          Delimiter.byteLength_opener, Delimiter.byteLength_closer]
        omega
      rwa [← ho]

theorem splitCloser?_eq_none {d : Delimiter} {cs : List Char} :
    splitCloser? d cs = none ↔ ¬ d.closer <:+: cs := by
  constructor
  · exact fun h hc => splitCloser?_ne_none hc h
  · intro h
    cases hs : splitCloser? d cs with
    | none => rfl
    | some found =>
      obtain ⟨before, after⟩ := found
      refine absurd ?_ h
      rw [append_of_splitCloser? hs]
      exact List.infix_append before d.closer after

/-- A source is refused where cutting it gives up. -/
theorem pieces_eq_error {source : List Char} {e : LexError} :
    pieces source = .error e ↔ Refused source e := by
  unfold pieces
  constructor
  · intro h
    obtain ⟨cs, d, rest, hc, hr, rfl, hg⟩ := exists_of_piecesFrom_eq_error h
    have hs := hc.segments hr
    rw [Nat.zero_add] at hg
    rcases hg with ⟨hn, rfl⟩ | ⟨content, after, lead, inner, more, hf, ho, rfl⟩
    · exact .unterminated hs (splitCloser?_eq_none.mp hn)
    · obtain rfl := append_of_splitOpener? ho
      obtain rfl := append_of_splitCloser? hf
      have hfirst : BeginsNowhere d.closer _ (d.closer ++ after) :=
        beginsNowhere_closer.mpr (encloses_of_splitCloser? hf)
      have hopen := (beginsNowhere_opener ⟨inner, more, rfl⟩).mpr
        (unopened_of_splitOpener?_eq_some ho)
      have hn := Refused.nested (by simpa only [List.append_assoc] using hs)
        (by simpa only [List.append_assoc] using hfirst) hopen
      simpa only [byteLength_append, Delimiter.byteLength_opener, List.append_assoc,
        Nat.add_assoc] using hn
  · intro h
    cases h with
    | @unterminated cs d rest hs hn =>
      obtain ⟨hc, hr⟩ := hs.isCut (.inr ⟨d, rest, rfl⟩)
      rw [hs.source_eq, piecesFrom_append hc hr, piecesFrom_eq _ (splitOpener?_opener d rest),
        splitCloser?_eq_none.mpr hn]
      simp [Except.map]
    | @nested cs d inner lead more after hs hf ho =>
      have hrest : d.opener ++ (lead ++ inner.opener ++ more) ++ d.closer ++ after =
          d.opener ++ ((lead ++ inner.opener ++ more) ++ d.closer ++ after) := by
        simp only [List.append_assoc]
      rw [hrest] at hs
      obtain ⟨hc, hr⟩ := hs.isCut (.inr ⟨d, _, rfl⟩)
      obtain ⟨hu, hl⟩ := (beginsNowhere_opener ⟨inner, more, rfl⟩).mp ho
      rw [hs.source_eq, piecesFrom_append hc hr, piecesFrom_eq _ (splitOpener?_opener d _),
        splitCloser?_append (beginsNowhere_closer.mp hf) after]
      simp only [splitOpener?_append hu hl, Except.map, byteLength_append, byteLength_nil,
        Delimiter.byteLength_opener, Nat.zero_add, Nat.add_zero]

namespace Token

/-- What a token stands for in the source. -/
def source : Token → List Char
  | text raw | content raw => raw.toList
  | opener d => d.opener
  | closer d => d.closer

/-- Tokens one after the other, from an offset on. -/
def placed (start : Nat) : List Token → List (Token × Span)
  | [] => []
  | t :: ts =>
    (t, ⟨start, start + byteLength t.source⟩) :: placed (start + byteLength t.source) ts

end Token

/-- The tokens of a piece: the text, or the opener, the content and the closer. -/
def Chunk.tokens : Chunk → List Token
  | text raw => [.text (String.ofList raw)]
  | directive d content => [.opener d, .content (String.ofList content), .closer d]

theorem Chunk.flatMap_tokens (c : Chunk) : c.tokens.flatMap Token.source = c.source := by
  cases c <;> simp [tokens, Token.source, source]

theorem flatMap_tokens (cs : List Chunk) :
    (cs.flatMap Chunk.tokens).flatMap Token.source = sourceOf cs := by
  rw [List.flatMap_assoc]
  exact List.flatMap_congr fun c _ => c.flatMap_tokens

namespace Token

theorem placed_append (start : Nat) (ts us : List Token) :
    placed start (ts ++ us) =
      placed start ts ++ placed (start + byteLength (ts.flatMap source)) us := by
  induction ts generalizing start with
  | nil => rfl
  | cons t ts ih =>
    rw [List.cons_append, placed, ih, placed, List.cons_append, List.flatMap_cons,
      byteLength_append, Nat.add_assoc]

theorem map_fst_placed (start : Nat) (ts : List Token) : (placed start ts).map Prod.fst = ts := by
  induction ts generalizing start with
  | nil => rfl
  | cons t ts ih => rw [placed, List.map_cons, ih]

theorem tiles_placed (start : Nat) (ts : List Token) :
    Tiles ((placed start ts).map Prod.snd) start (start + byteLength (ts.flatMap source)) := by
  induction ts generalizing start with
  | nil => rfl
  | cons t ts ih =>
    refine ⟨rfl, Nat.le_add_right _ _, ?_⟩
    rw [List.flatMap_cons, byteLength_append, ← Nat.add_assoc]
    exact ih _

/-- Tokens that make up a stretch of a text stand for their slices. -/
theorem isSlice_placed {whole before after : List Char} {ts : List Token}
    (h : whole = before ++ ts.flatMap source ++ after) :
    ∀ t ∈ placed (byteLength before) ts, IsSlice whole t.2 t.1.source := by
  induction ts generalizing before with
  | nil => simp [placed]
  | cons t ts ih =>
    rw [List.flatMap_cons, ← List.append_assoc] at h
    intro u hu
    rcases List.mem_cons.mp hu with rfl | hu
    · exact ⟨before, ts.flatMap source ++ after, by rw [h, List.append_assoc], rfl, rfl⟩
    · refine ih h u ?_
      rwa [byteLength_append]

/-- Tokens that tile a stretch of a text with their slices are placed one after the other. -/
theorem eq_placed {whole : List Char} {start stop : Nat} {xs : List (Token × Span)}
    (ht : Tiles (xs.map Prod.snd) start stop) (hs : ∀ x ∈ xs, IsSlice whole x.2 x.1.source) :
    xs = placed start (xs.map Prod.fst) := by
  induction xs generalizing start with
  | nil => rfl
  | cons x xs ih =>
    obtain ⟨t, a, b⟩ := x
    obtain ⟨rfl, -, ht⟩ := ht
    obtain rfl : b = a + byteLength t.source := (hs _ (List.mem_cons_self ..)).stop_eq
    rw [List.map_cons, placed, ← ih ht fun x hx => hs x (List.mem_cons_of_mem _ hx)]

end Token

/-- The tokens of pieces that are placed one after the other. -/
theorem flatMap_tokens_placed (start : Nat) (cs : List Chunk) :
    (placed start cs).flatMap Piece.tokens = Token.placed start (cs.flatMap Chunk.tokens) := by
  induction cs generalizing start with
  | nil => rfl
  | cons c cs ih =>
    have hc : (c.pieceAt start).tokens = Token.placed start c.tokens := by
      cases c with
      | text raw => simp [Chunk.pieceAt, Piece.tokens, Chunk.tokens, Token.placed, Token.source]
      | directive d content =>
        simp [Chunk.pieceAt, Piece.tokens, Chunk.tokens, Token.placed, Token.source,
          Delimiter.byteLength_opener, Delimiter.byteLength_closer]
    rw [placed, List.flatMap_cons, List.flatMap_cons, Token.placed_append, ih, hc,
      c.flatMap_tokens]

/-- A source is cut into the tokens of its segmentation. -/
theorem tokens_eq_ok {source : List Char} {ts : List (Token × Span)} :
    tokens source = .ok ts ↔
      ∃ cs, IsSegmentation source cs ∧ ts = Token.placed 0 (cs.flatMap Chunk.tokens) := by
  unfold tokens
  constructor
  · intro h
    cases hp : pieces source with
    | error e => simp [hp, Except.map] at h
    | ok ps =>
      obtain ⟨cs, hc, hs, rfl⟩ := exists_cut_of_piecesFrom hp
      refine ⟨cs, isSegmentation_iff.mpr ⟨hc, hs⟩, ?_⟩
      rw [← flatMap_tokens_placed]
      simpa [hp, Except.map] using h.symm
  · rintro ⟨cs, h, rfl⟩
    obtain ⟨hc, rfl⟩ := isSegmentation_iff.mp h
    rw [pieces_sourceOf hc, ← flatMap_tokens_placed]
    rfl

theorem tokens_eq_error {source : List Char} {e : LexError} :
    tokens source = .error e ↔ Refused source e := by
  rw [← pieces_eq_error]
  unfold tokens
  cases pieces source <;> simp [Except.map]

/-- A source is cut into the tokens of its segmentation, whose spans tile the source with the slices
that the tokens stand for; there is one segmentation at most. Without one, the error is about the
first directive that cannot be cut off. -/
theorem tokens_segmentation (source : List Char) :
    (∀ ts, tokens source = .ok ts ↔ ∃ cs, IsSegmentation source cs ∧
      ts.map Prod.fst = cs.flatMap Chunk.tokens ∧
      Tiles (ts.map Prod.snd) 0 (byteLength source) ∧
      ∀ t ∈ ts, IsSlice source t.2 t.1.source) ∧
    (∀ cs ds, IsSegmentation source cs → IsSegmentation source ds → cs = ds) ∧
    ∀ e, tokens source = .error e ↔ Refused source e := by
  refine ⟨fun ts => ?_, fun cs ds hc hd => hc.eq hd, fun e => tokens_eq_error⟩
  rw [tokens_eq_ok]
  refine exists_congr fun cs => and_congr_right fun h => ?_
  obtain ⟨hc, rfl⟩ := isSegmentation_iff.mp h
  constructor
  · rintro rfl
    have htiles := Token.tiles_placed 0 (cs.flatMap Chunk.tokens)
    rw [flatMap_tokens, Nat.zero_add] at htiles
    have hwhole : sourceOf cs = [] ++ (cs.flatMap Chunk.tokens).flatMap Token.source ++ [] := by
      rw [flatMap_tokens, List.nil_append, List.append_nil]
    exact ⟨Token.map_fst_placed _ _, htiles, Token.isSlice_placed hwhole⟩
  · rintro ⟨hfst, htiles, hslices⟩
    rw [Token.eq_placed htiles hslices, hfst]

example : tokens "a\x7b%\x7d".toList = .error (.unterminated .tag 1) := by decide +kernel
example : tokens "\x7b\x7b \x7b% x %\x7d\x7d\x7d".toList =
    .error (.nested .expression .tag 3) := by decide +kernel

end Proforma
