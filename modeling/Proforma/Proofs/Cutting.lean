import Mathlib.Data.List.Chain
import Mathlib.Data.List.Infix
import Proforma.Template.Piece

/-!
Cutting a source into pieces. A source has one cut into texts and directives that respects its
delimiters, wherever the source stands, and the cut is found whenever there is one.
-/
namespace Proforma

open Text

theorem pair_infix_cons_cons {α : Type} {a b x y : α} {cs : List α} :
    [a, b] <:+: x :: y :: cs ↔ (a = x ∧ b = y) ∨ [a, b] <:+: y :: cs := by
  rw [List.infix_cons_iff]
  simp

theorem pair_infix_append {α : Type} {a b : α} {xs ys : List α} :
    [a, b] <:+: xs ++ ys ↔
      [a, b] <:+: xs ∨ (xs.getLast? = some a ∧ ys.head? = some b) ∨ [a, b] <:+: ys := by
  induction xs with
  | nil => simp
  | cons x xs ih =>
    cases xs with
    | nil =>
      cases ys with
      | nil => simp
      | cons y ys =>
        simp only [List.cons_append, List.nil_append, pair_infix_cons_cons]
        have h : ¬ [a, b] <:+: [x] := fun h => by simpa using h.length_le
        simp [h, eq_comm]
    | cons x' xs =>
      simp only [List.cons_append, pair_infix_cons_cons] at ih ⊢
      rw [ih, List.getLast?_cons_cons, or_assoc]

/-- No directive opens in the text. -/
def Unopened (cs : List Char) : Prop := ∀ d : Delimiter, ¬ d.opener <:+: cs

theorem Delimiter.opener_eq (d : Delimiter) : ∃ b, d.opener = ['{', b] := by
  cases d <;> exact ⟨_, rfl⟩

theorem Delimiter.closer_eq (d : Delimiter) : ∃ a b, d.closer = [a, b] := by
  cases d <;> exact ⟨_, _, rfl⟩

theorem unopened_append {xs ys : List Char} : Unopened (xs ++ ys) ↔
    Unopened xs ∧ Unopened ys ∧ ∀ d : Delimiter, xs.getLast? = some '{' →
      ys.head? ≠ d.opener[1]? := by
  constructor
  · intro h
    refine ⟨fun d hd => h d (List.infix_append_of_infix_left hd),
      fun d hd => h d (List.infix_append_of_infix_right hd), fun d hl hh => h d ?_⟩
    obtain ⟨b, hb⟩ := d.opener_eq
    rw [hb] at hh ⊢
    exact pair_infix_append.mpr (.inr (.inl ⟨hl, hh⟩))
  · rintro ⟨hx, hy, hs⟩ d hd
    obtain ⟨b, hb⟩ := d.opener_eq
    have hx := hx d
    have hy := hy d
    have hs := hs d
    rw [hb] at hd hx hy hs
    rcases pair_infix_append.mp hd with hd | ⟨hl, hh⟩ | hd
    · exact hx hd
    · exact hs hl hh
    · exact hy hd

theorem splitOpener?_cons {c : Char} {cs : List Char}
    (h : ∀ d : Delimiter, ¬ d.opener <+: c :: cs) : splitOpener? (c :: cs) =
      (splitOpener? cs).map fun (before, d, after) => (c :: before, d, after) := by
  have he := h .expression
  have ht := h .tag
  rw [splitOpener?.eq_4]
  · rintro cs' rfl rfl
    exact he (by simp [Delimiter.opener])
  · rintro cs' rfl rfl
    exact ht (by simp [Delimiter.opener])

theorem splitOpener?_opener (d : Delimiter) (after : List Char) :
    splitOpener? (d.opener ++ after) = some ([], d, after) := by
  cases d <;> rfl

/-- The first opener is found. -/
theorem splitOpener?_append {before : List Char} (h : Unopened before)
    (hl : before.getLast? ≠ some '{') (d : Delimiter) (after : List Char) :
    splitOpener? (before ++ d.opener ++ after) = some (before, d, after) := by
  induction before with
  | nil => exact splitOpener?_opener d after
  | cons c before ih =>
    have hb : Unopened before := fun d hd => h d (List.infix_cons hd)
    have hc : ∀ d' : Delimiter, ¬ d'.opener <+: c :: (before ++ d.opener ++ after) := by
      intro d' hp
      obtain ⟨b, hd'⟩ := d'.opener_eq
      cases before with
      | nil =>
        rw [hd'] at hp
        have : '{' = c := (List.cons_prefix_cons.mp hp).1
        exact hl (by simp [← this])
      | cons y ys =>
        apply h d'
        rw [hd'] at hp ⊢
        simp only [List.cons_append, List.cons_prefix_cons] at hp
        exact pair_infix_cons_cons.mpr (.inl ⟨hp.1, hp.2.1⟩)
    have hl' : before.getLast? ≠ some '{' := by
      cases before with
      | nil => simp
      | cons y ys => simpa [List.getLast?_cons_cons] using hl
    simp only [List.cons_append] at hc ⊢
    rw [splitOpener?_cons hc, ih hb hl']
    rfl

theorem splitOpener?_eq_none {cs : List Char} (h : Unopened cs) : splitOpener? cs = none := by
  induction cs with
  | nil => rfl
  | cons c cs ih =>
    rw [splitOpener?_cons fun d hp => h d hp.isInfix, ih fun d hd => h d (List.infix_cons hd)]
    rfl

theorem not_opener_prefix {c : Char} {cs : List Char}
    (he : ∀ cs', c = '{' → cs = '{' :: cs' → False) (ht : ∀ cs', c = '{' → cs = '%' :: cs' → False)
    (d : Delimiter) : ¬ d.opener <+: c :: cs := by
  rintro ⟨cs', h⟩
  cases d with
  | expression =>
    obtain ⟨rfl, rfl⟩ := by simpa [Delimiter.opener] using h
    exact he _ rfl rfl
  | tag =>
    obtain ⟨rfl, rfl⟩ := by simpa [Delimiter.opener] using h
    exact ht _ rfl rfl

theorem unopened_of_splitOpener?_eq_none {cs : List Char} (h : splitOpener? cs = none) :
    Unopened cs := by
  fun_induction splitOpener? cs with
  | case1 => intro d hd; cases d <;> simp [Delimiter.opener] at hd
  | case2 => simp at h
  | case3 => simp at h
  | case4 c cs he ht ih =>
    intro d hd
    rcases List.infix_cons_iff.mp hd with hd | hd
    · exact not_opener_prefix he ht d hd
    · exact ih (by simpa using h) d hd

theorem unopened_of_splitOpener?_eq_some {cs before after : List Char} {d : Delimiter}
    (h : splitOpener? cs = some (before, d, after)) :
    Unopened before ∧ before.getLast? ≠ some '{' := by
  fun_induction splitOpener? cs generalizing before with
  | case1 => simp at h
  | case2 cs =>
    obtain ⟨rfl, -⟩ := by simpa using h
    exact ⟨fun d hd => by cases d <;> simp [Delimiter.opener] at hd, by simp⟩
  | case3 cs =>
    obtain ⟨rfl, -⟩ := by simpa using h
    exact ⟨fun d hd => by cases d <;> simp [Delimiter.opener] at hd, by simp⟩
  | case4 c cs he ht ih =>
    obtain ⟨⟨b, d', a⟩, hs, hb⟩ := Option.map_eq_some_iff.mp h
    obtain ⟨rfl, rfl, rfl⟩ := by simpa using hb
    obtain ⟨hu, hl⟩ := ih hs
    have hc := append_of_splitOpener? hs
    constructor
    · intro d hd
      rcases List.infix_cons_iff.mp hd with hd | hd
      · refine not_opener_prefix he ht d (hd.trans ?_)
        rw [hc, List.append_assoc]
        exact ⟨_, rfl⟩
      · exact hu d hd
    · cases b with
      | nil =>
        intro hl
        obtain rfl : c = '{' := by simpa using hl
        obtain ⟨b, hb⟩ := d'.opener_eq
        rw [hb] at hc
        exact he _ rfl hc
      | cons y ys => simpa [List.getLast?_cons_cons] using hl

/-- The content can stand between these delimiters: nothing opens in it, and it is over where the
first closer begins. -/
def Delimiter.Encloses (d : Delimiter) (content : List Char) : Prop :=
  Unopened content ∧ ¬ d.closer <:+: content ++ d.closer.take 1

/-- The first closer is found. -/
theorem splitCloser?_append {d : Delimiter} {content : List Char}
    (h : ¬ d.closer <:+: content ++ d.closer.take 1) (after : List Char) :
    splitCloser? d (content ++ d.closer ++ after) = some (content, after) := by
  obtain ⟨a, b, hd⟩ := d.closer_eq
  rw [hd] at h ⊢
  induction content with
  | nil => simp [splitCloser?, hd]
  | cons c content ih =>
    have hn : ¬ [a, b] <:+: content ++ [a] := fun hi => h (List.infix_cons hi)
    cases content with
    | nil =>
      have hc : ¬ [a, b] = [c, a] := by
        intro he
        obtain ⟨ha, hb⟩ : a = c ∧ b = a := by simpa using he
        exact h (pair_infix_cons_cons.mpr (.inl ⟨ha, hb⟩))
      simp only [List.cons_append, List.nil_append] at ih ⊢
      rw [splitCloser?, hd, if_neg hc, ih hn]
      rfl
    | cons y ys =>
      have hc : ¬ [a, b] = [c, y] := by
        intro he
        apply h
        simp only [List.cons_append]
        rw [he]
        exact pair_infix_cons_cons.mpr (.inl ⟨rfl, rfl⟩)
      simp only [List.cons_append] at ih ⊢
      rw [splitCloser?, hd, if_neg hc, ih hn]
      rfl

theorem encloses_of_splitCloser? {d : Delimiter} {cs content after : List Char}
    (h : splitCloser? d cs = some (content, after)) :
    ¬ d.closer <:+: content ++ d.closer.take 1 := by
  obtain ⟨a, b, hd⟩ := d.closer_eq
  fun_induction splitCloser? d cs generalizing content with
  | case1 x y cs hxy =>
    obtain ⟨rfl, -⟩ := by simpa using h
    intro hi
    simpa [hd] using hi.length_le
  | case2 x y cs hxy ih =>
    obtain ⟨⟨c, r⟩, hs, he⟩ := Option.map_eq_some_iff.mp h
    obtain ⟨rfl, rfl⟩ := by simpa using he
    have hc := append_of_splitCloser? hs
    have hn := ih hs
    rw [hd] at hxy hn hc ⊢
    intro hi
    cases c with
    | nil =>
      have hy : y = a := (List.cons.inj hc).1
      have hi' : [a, b] <:+: [x, a] := hi
      rcases pair_infix_cons_cons.mp hi' with ⟨rfl, rfl⟩ | hi'
      · exact hxy (by rw [hy])
      · simpa using hi'.length_le
    | cons z zs =>
      have hy : y = z := (List.cons.inj hc).1
      rcases pair_infix_cons_cons.mp hi with ⟨rfl, rfl⟩ | hi
      · exact hxy (by rw [hy])
      · exact hn hi
  | case3 => simp at h

theorem splitCloser?_ne_none {d : Delimiter} {cs : List Char} (h : d.closer <:+: cs) :
    splitCloser? d cs ≠ none := by
  obtain ⟨a, b, hd⟩ := d.closer_eq
  fun_induction splitCloser? d cs with
  | case1 => simp
  | case2 x y cs hxy ih =>
    rw [hd] at h hxy ih
    rcases pair_infix_cons_cons.mp h with ⟨rfl, rfl⟩ | h
    · exact absurd rfl hxy
    · simpa using ih h
  | case3 cs hn =>
    rw [hd] at h
    obtain ⟨x, y, hi⟩ := h
    cases x with
    | nil => exact absurd hi.symm (hn a b y)
    | cons c x =>
      cases x with
      | nil => exact absurd hi.symm (hn c a (b :: y))
      | cons c' x => exact absurd hi.symm (hn c c' (x ++ [a, b] ++ y))

/-- The first closer in a text. -/
theorem exists_first_closer {d : Delimiter} {cs : List Char} (h : d.closer <:+: cs) :
    ∃ before after, cs = before ++ d.closer ++ after ∧
      ¬ d.closer <:+: before ++ d.closer.take 1 := by
  cases hs : splitCloser? d cs with
  | none => exact absurd hs (splitCloser?_ne_none h)
  | some found =>
    obtain ⟨before, after⟩ := found
    exact ⟨before, after, append_of_splitCloser? hs, encloses_of_splitCloser? hs⟩

/-- A piece of a source without the place where it starts. -/
inductive Chunk where
  | text (raw : List Char)
  | directive (delimiter : Delimiter) (content : List Char)
  deriving DecidableEq, Repr

namespace Chunk

def source : Chunk → List Char
  | text raw => raw
  | directive d content => d.opener ++ content ++ d.closer

/-- The piece that starts at an offset. -/
def pieceAt (start : Nat) : Chunk → Piece
  | text raw => .text start raw
  | directive d content => .directive start d content

/-- The piece keeps to its delimiters. -/
def Sound : Chunk → Prop
  | text raw => raw ≠ [] ∧ Unopened raw
  | directive d content => d.Encloses content

/-- The first piece ends where the second one begins. -/
def EndsBefore : Chunk → Chunk → Prop
  | text _, text _ => False
  | text raw, directive .. => raw.getLast? ≠ some '{'
  | directive .., _ => True

end Chunk

/-- The text of a row of pieces. -/
def sourceOf (cs : List Chunk) : List Char := cs.flatMap Chunk.source

@[simp] theorem Chunk.source_text (raw : List Char) : (text raw).source = raw := rfl

@[simp] theorem sourceOf_nil : sourceOf [] = [] := rfl

@[simp] theorem sourceOf_cons (c : Chunk) (cs : List Chunk) :
    sourceOf (c :: cs) = c.source ++ sourceOf cs := rfl

@[simp] theorem sourceOf_append (cs ds : List Chunk) :
    sourceOf (cs ++ ds) = sourceOf cs ++ sourceOf ds := List.flatMap_append

/-- The pieces one after the other, from an offset on. -/
def placed (start : Nat) : List Chunk → List Piece
  | [] => []
  | c :: cs => c.pieceAt start :: placed (start + byteLength c.source) cs

/-- A cut into pieces that keep to their delimiters. -/
structure IsCut (cs : List Chunk) : Prop where
  sound : ∀ c ∈ cs, c.Sound
  order : cs.IsChain Chunk.EndsBefore

theorem IsCut.tail {c : Chunk} {cs : List Chunk} (h : IsCut (c :: cs)) : IsCut cs :=
  ⟨fun c' hc => h.sound c' (List.mem_cons_of_mem _ hc), h.order.tail⟩

theorem piecesFrom_text (start : Nat) {raw : List Char} (hr : raw ≠ []) (h : Unopened raw) :
    piecesFrom start raw = .ok [.text start raw] := by
  have hs := splitOpener?_eq_none h
  rw [piecesFrom]
  split
  · simp [Piece.ofText, hr]
  · next he => simp [hs] at he

/-- The pieces of a source in which a directive opens. -/
theorem piecesFrom_eq (start : Nat) {cs before rest : List Char} {d : Delimiter}
    (h : splitOpener? cs = some (before, d, rest)) :
    piecesFrom start cs =
      match splitCloser? d rest with
      | none => .error (.unterminated d (start + byteLength before))
      | some (content, after) =>
        match splitOpener? content with
        | some (lead, inner, _) =>
          .error (.nested d inner (start + byteLength before + Delimiter.width + byteLength lead))
        | none =>
          (piecesFrom (start + byteLength before + Delimiter.width + byteLength content +
              Delimiter.width) after).map
            (Piece.ofText start before ++
              .directive (start + byteLength before) d content :: ·) := by
  rw [piecesFrom]
  split
  · next he => simp [h] at he
  · next he =>
    obtain ⟨rfl, rfl, rfl⟩ := by simpa [h] using he
    split
    · next hc => simp only [hc]
    · next hc =>
      simp only [hc]
      cases splitOpener? _ with
      | some _ => rfl
      | none => cases piecesFrom _ _ <;> rfl

theorem piecesFrom_opener (start : Nat) {d : Delimiter} {rest content after : List Char}
    (h : splitCloser? d rest = some (content, after)) (hu : Unopened content) :
    piecesFrom start (d.opener ++ rest) =
      (piecesFrom (start + byteLength (d.opener ++ content ++ d.closer)) after).map
        (.directive start d content :: ·) := by
  rw [piecesFrom_eq start (splitOpener?_opener d rest)]
  simp only [h, splitOpener?_eq_none hu, byteLength_nil, byteLength_append,
    Delimiter.byteLength_opener, Delimiter.byteLength_closer, Nat.add_zero, Nat.add_assoc]
  rfl

/-- A directive that is found runs to the first closer, and nothing opens in it. -/
theorem directive_of_piecesFrom {start : Nat} {d : Delimiter} {content after : List Char}
    {ps : List Piece} (hc : ¬ d.closer <:+: content ++ d.closer.take 1)
    (h : piecesFrom start (d.opener ++ (content ++ d.closer ++ after)) = .ok ps) :
    Unopened content ∧ .directive start d content ∈ ps := by
  have hs := splitCloser?_append hc after
  have hu : Unopened content := by
    rw [piecesFrom_eq start (splitOpener?_opener d _)] at h
    cases ho : splitOpener? content with
    | some found => simp only [hs, ho, reduceCtorEq] at h
    | none => exact unopened_of_splitOpener?_eq_none ho
  rw [piecesFrom_opener start hs hu] at h
  refine ⟨hu, ?_⟩
  cases hp : piecesFrom (start + byteLength (d.opener ++ content ++ d.closer)) after with
  | error e => simp only [hp, Except.map, reduceCtorEq] at h
  | ok ps' =>
    simp only [hp, Except.map, Except.ok.injEq] at h
    simp [← h]

theorem piecesFrom_text_opener (start : Nat) {raw : List Char} (hr : raw ≠ []) (h : Unopened raw)
    (hl : raw.getLast? ≠ some '{') (d : Delimiter) (rest : List Char) :
    piecesFrom start (raw ++ (d.opener ++ rest)) =
      (piecesFrom (start + byteLength raw) (d.opener ++ rest)).map (.text start raw :: ·) := by
  have hs := splitOpener?_append h hl d rest
  rw [List.append_assoc] at hs
  rw [piecesFrom_eq start hs, piecesFrom_eq (start + byteLength raw) (splitOpener?_opener d rest)]
  simp only [byteLength_nil, Nat.add_zero]
  cases splitCloser? d rest with
  | none => rfl
  | some found =>
    obtain ⟨content, after⟩ := found
    dsimp only
    cases splitOpener? content with
    | some _ => rfl
    | none => cases piecesFrom _ after <;> simp [Except.map, Piece.ofText, hr]

theorem piecesFrom_nil (start : Nat) : piecesFrom start [] = .ok [] := by
  rw [piecesFrom]
  rfl

/-- What may follow a row of pieces: nothing, or a directive that does not run into the last one. -/
def Continues (cs : List Chunk) (rest : List Char) : Prop :=
  rest = [] ∨ (∃ (d : Delimiter) (r : List Char), rest = d.opener ++ r) ∧
    ∀ raw, cs.getLast? = some (.text raw) → raw.getLast? ≠ some '{'

theorem Continues.tail {c : Chunk} {cs : List Chunk} {rest : List Char}
    (h : Continues (c :: cs) rest) : Continues cs rest := by
  refine h.imp_right fun ⟨hd, hl⟩ => ⟨hd, fun raw hg => hl raw ?_⟩
  rw [List.getLast?_cons, hg]
  rfl

/-- A first piece is found if the rest begins with a directive, or if it is the last piece. -/
theorem piecesFrom_cons {c : Chunk} {cs : List Chunk} (h : IsCut (c :: cs)) {rest : List Char}
    (hr : Continues (c :: cs) rest) (start : Nat) :
    piecesFrom start (c.source ++ (sourceOf cs ++ rest)) =
      (piecesFrom (start + byteLength c.source) (sourceOf cs ++ rest)).map
        (c.pieceAt start :: ·) := by
  have hs := h.sound c (by simp)
  cases c with
  | directive d content =>
    have hc := splitCloser?_append hs.2 (sourceOf cs ++ rest)
    simpa only [Chunk.source, Chunk.pieceAt, List.append_assoc] using
      piecesFrom_opener start hc hs.1
  | text raw =>
    cases cs with
    | nil =>
      rcases hr with rfl | ⟨⟨d, r, rfl⟩, hl⟩
      · simp [piecesFrom_text start hs.1 hs.2, piecesFrom_nil, Except.map, Chunk.pieceAt]
      · exact piecesFrom_text_opener start hs.1 hs.2 (hl raw rfl) d r
    | cons c' cs =>
      have hb := h.order.rel
      cases c' with
      | text _ => exact hb.elim
      | directive d content =>
        have hp := piecesFrom_text_opener start hs.1 hs.2 hb d
          (content ++ d.closer ++ sourceOf cs ++ rest)
        simpa only [sourceOf_cons, Chunk.source, Chunk.pieceAt, List.append_assoc] using hp

/-- A cut is found wherever the source stands, and whatever may follow it. -/
theorem piecesFrom_append {cs : List Chunk} (h : IsCut cs) {rest : List Char}
    (hr : Continues cs rest) (start : Nat) :
    piecesFrom start (sourceOf cs ++ rest) =
      (piecesFrom (start + byteLength (sourceOf cs)) rest).map (placed start cs ++ ·) := by
  induction cs generalizing start with
  | nil => cases hp : piecesFrom start rest <;> simp [hp, placed, Except.map]
  | cons c cs ih =>
    rw [sourceOf_cons, List.append_assoc, piecesFrom_cons h hr start, ih h.tail hr.tail,
      byteLength_append, ← Nat.add_assoc]
    cases piecesFrom (start + byteLength c.source + byteLength (sourceOf cs)) rest <;> rfl

/-- A cut is found. -/
theorem piecesFrom_sourceOf {cs : List Chunk} (h : IsCut cs) (start : Nat) :
    piecesFrom start (sourceOf cs) = .ok (placed start cs) := by
  have hr : Continues cs [] := .inl rfl
  have hp := piecesFrom_append h hr start
  simpa [piecesFrom_nil, Except.map] using hp

theorem IsCut.text {raw : List Char} (hr : raw ≠ []) (h : Unopened raw) : IsCut [.text raw] :=
  ⟨fun c hc => by obtain rfl := List.mem_singleton.mp hc; exact ⟨hr, h⟩, .singleton _⟩

theorem IsCut.directive {d : Delimiter} {content : List Char} (h : d.Encloses content)
    {cs : List Chunk} (hc : IsCut cs) : IsCut (.directive d content :: cs) :=
  ⟨fun c hm => by
    rcases List.mem_cons.mp hm with rfl | hm
    · exact h
    · exact hc.sound c hm,
    hc.order.cons fun _ _ => trivial⟩

theorem IsCut.text_directive {raw : List Char} (hr : raw ≠ []) (h : Unopened raw)
    (hl : raw.getLast? ≠ some '{') {d : Delimiter} {content : List Char} {cs : List Chunk}
    (hc : IsCut (.directive d content :: cs)) : IsCut (.text raw :: .directive d content :: cs) :=
  ⟨fun c hm => by
    rcases List.mem_cons.mp hm with rfl | hm
    · exact ⟨hr, h⟩
    · exact hc.sound c hm,
    .cons_cons hl hc.order⟩

/-- What is found is a cut of the source. -/
theorem exists_cut_of_piecesFrom {start : Nat} {source : List Char} {ps : List Piece}
    (h : piecesFrom start source = .ok ps) :
    ∃ cs, IsCut cs ∧ sourceOf cs = source ∧ placed start cs = ps := by
  fun_induction piecesFrom start source generalizing ps with
  | case1 start cs hs =>
    obtain rfl := by simpa using h
    by_cases hc : cs = []
    · subst hc
      exact ⟨[], ⟨by simp, .nil⟩, rfl, rfl⟩
    · exact ⟨[.text cs], .text hc (unopened_of_splitOpener?_eq_none hs),
        by simp [sourceOf, Chunk.source], by simp [placed, Piece.ofText, hc, Chunk.pieceAt]⟩
  | case2 => simp at h
  | case3 => simp at h
  | case4 start cs before d rest hs opened content after hc inside hn =>
    rename_i ih
    cases hp : piecesFrom (inside + byteLength content + Delimiter.width) after with
    | error e => simp [hp, bind, Except.bind] at h
    | ok ps' =>
      obtain ⟨cs', hcut, hsource, hplaced⟩ := ih hp
      obtain rfl : _ = ps := by simpa [hp, bind, Except.bind] using h
      obtain ⟨hu, hl⟩ := unopened_of_splitOpener?_eq_some hs
      have he : d.Encloses content :=
        ⟨unopened_of_splitOpener?_eq_none hn, encloses_of_splitCloser? hc⟩
      have hd : cs = before ++ (d.opener ++ content ++ d.closer ++ after) := by
        rw [append_of_splitOpener? hs, append_of_splitCloser? hc]
        simp
      have hw : byteLength (d.opener ++ content ++ d.closer) =
          Delimiter.width + byteLength content + Delimiter.width := by
        simp [Delimiter.byteLength_opener, Delimiter.byteLength_closer, Nat.add_assoc]
      by_cases hb : before = []
      · subst hb
        refine ⟨.directive d content :: cs', hcut.directive he, ?_, ?_⟩
        · rw [hd, ← hsource]
          rfl
        · rw [placed, Chunk.source, hw, ← hplaced]
          simp [Piece.ofText, Chunk.pieceAt, opened, inside, Nat.add_assoc]
      · refine ⟨.text before :: .directive d content :: cs',
          .text_directive hb hu hl (hcut.directive he), ?_, ?_⟩
        · rw [hd, ← hsource]
          rfl
        · rw [placed, placed, Chunk.source, Chunk.source, hw, ← hplaced]
          simp [Piece.ofText, hb, Chunk.pieceAt, opened, inside, Nat.add_assoc]

end Proforma
