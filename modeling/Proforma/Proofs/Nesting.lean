import Proforma.Proofs.Parsing

/-!
Which rows of block directives make a tree. The open blocks of a row are kept on a stack; it comes
out empty exactly if the grammar of blocks derives the row, and it gives up at the first directive
that no derivable row continues with.
-/
namespace Proforma

open Text

/-- The rows of keywords that are made of whole blocks. -/
inductive Nested : List String → Prop where
  | nil : Nested []
  | conditional {body rest : List String} (hb : Nested body) (hr : Nested rest) :
    Nested ("if" :: body ++ "endif" :: rest)
  | alternative {body other rest : List String} (hb : Nested body) (ho : Nested other)
    (hr : Nested rest) : Nested ("if" :: body ++ "else" :: other ++ "endif" :: rest)
  | loop {body rest : List String} (hb : Nested body) (hr : Nested rest) :
    Nested ("for" :: body ++ "endfor" :: rest)

/-- Whole blocks can begin with this row. -/
def Viable (ks : List String) : Prop := ∃ more, Nested (ks ++ more)

theorem Nested.append {ks ls : List String} (h : Nested ks) (hl : Nested ls) :
    Nested (ks ++ ls) := by
  induction h with
  | nil => exact hl
  | conditional hb hr _ ih => simpa using Nested.conditional hb ih
  | alternative hb ho hr _ _ ih => simpa using Nested.alternative hb ho ih
  | loop hb hr _ ih => simpa using Nested.loop hb ih

theorem Nested.viable {ks : List String} (h : Nested ks) : Viable ks := ⟨[], by simpa using h⟩

def keywords (ms : List Mark) : List String := ms.map Mark.keyword

@[simp] theorem keywords_nil : keywords [] = [] := rfl

@[simp] theorem keywords_cons (m : Mark) (ms : List Mark) :
    keywords (m :: ms) = m.keyword :: keywords ms := rfl

@[simp] theorem keywords_append (ms ns : List Mark) :
    keywords (ms ++ ns) = keywords ms ++ keywords ns := List.map_append

/-- What an open block waits for: `endif` or `else`, only `endif`, or `endfor`. -/
inductive Level where
  | conditional | alternative | loop
  deriving DecidableEq, Repr

/-- The keyword that ends a block. -/
def Level.closer : Level → String
  | conditional | alternative => "endif"
  | loop => "endfor"

/-- A block that is open, by the directive that opened it. -/
structure Opened where
  level : Level
  mark : Mark

/-- The row stands between the opening directive and the end of what has been read. -/
def Opened.Spans (o : Opened) (body : List Mark) : Prop :=
  match o.level with
  | .conditional => o.mark.keyword = "if" ∧ Nested (keywords body)
  | .alternative => o.mark.keyword = "if" ∧ ∃ before middle after,
    body = before ++ middle :: after ∧ middle.keyword = "else" ∧ Nested (keywords before) ∧
    Nested (keywords after)
  | .loop => o.mark.keyword = "for" ∧ Nested (keywords body)

/-- The directive whose block is open at the end of a row, the innermost if there are several. -/
inductive Innermost : List Mark → Option Mark → Prop where
  | none {ms : List Mark} (h : Nested (keywords ms)) : Innermost ms none
  | some {before body : List Mark} {o : Opened} (h : o.Spans body) :
    Innermost (before ++ o.mark :: body) (some o.mark)

/-- Why a row is not made of whole blocks. -/
inductive Faulty : List Mark → BlockFault → Prop where
  | closing {before after : List Mark} {m : Mark} {opening : Option Mark}
    (hv : Viable (keywords before)) (hn : ¬ Viable (keywords (before ++ [m])))
    (ho : Innermost before opening) : Faulty (before ++ m :: after) ⟨opening, some m⟩
  | opening {ms : List Mark} {o : Mark} (hv : Viable (keywords ms)) (ho : Innermost ms (some o)) :
    Faulty ms ⟨some o, none⟩

/-- The open blocks after one more directive, innermost first. -/
def openAfter (os : List Opened) (m : Mark) : Except BlockFault (List Opened) :=
  match m.keyword, os with
  | "if", os => .ok (⟨.conditional, m⟩ :: os)
  | "for", os => .ok (⟨.loop, m⟩ :: os)
  | "else", ⟨.conditional, o⟩ :: os => .ok (⟨.alternative, o⟩ :: os)
  | "endif", ⟨.conditional, _⟩ :: os => .ok os
  | "endif", ⟨.alternative, _⟩ :: os => .ok os
  | "endfor", ⟨.loop, _⟩ :: os => .ok os
  | _, os => .error ⟨os.head?.map Opened.mark, some m⟩

theorem openAfter_eq_error {os : List Opened} {m : Mark} {f : BlockFault}
    (h : openAfter os m = .error f) : f = ⟨os.head?.map Opened.mark, some m⟩ := by
  unfold openAfter at h
  split at h <;> simp_all

theorem openAfter_if {m : Mark} (h : m.keyword = "if") (os : List Opened) :
    openAfter os m = .ok (⟨.conditional, m⟩ :: os) := by
  simp only [openAfter, h]

theorem openAfter_for {m : Mark} (h : m.keyword = "for") (os : List Opened) :
    openAfter os m = .ok (⟨.loop, m⟩ :: os) := by
  simp only [openAfter, h]

theorem openAfter_else {m : Mark} (h : m.keyword = "else") (o : Mark) (os : List Opened) :
    openAfter (⟨.conditional, o⟩ :: os) m = .ok (⟨.alternative, o⟩ :: os) := by
  simp only [openAfter, h]

theorem openAfter_closer {o : Opened} {c : Mark} (h : c.keyword = o.level.closer)
    (os : List Opened) : openAfter (o :: os) c = .ok os := by
  obtain ⟨level, mark⟩ := o
  cases level <;> simp only [openAfter, h, Level.closer]

theorem keywords_eq_cons {ms : List Mark} {k : String} {ks : List String}
    (h : keywords ms = k :: ks) : ∃ m ns, ms = m :: ns ∧ m.keyword = k ∧ keywords ns = ks :=
  List.map_eq_cons_iff.mp h

theorem keywords_eq_append {ms : List Mark} {ks ls : List String} (h : keywords ms = ks ++ ls) :
    ∃ ns ns', ms = ns ++ ns' ∧ keywords ns = ks ∧ keywords ns' = ls :=
  List.map_eq_append_iff.mp h

/-- Whole blocks leave the open blocks as they are. -/
theorem Nested.foldlM_openAfter {ms : List Mark} (h : Nested (keywords ms)) (os : List Opened) :
    ms.foldlM openAfter os = .ok os := by
  generalize hk : keywords ms = ks at h
  induction h generalizing ms os with
  | nil =>
    obtain rfl : ms = [] := by simpa [keywords] using hk
    rfl
  | conditional _ _ ihb ihr =>
    obtain ⟨block, ms, rfl, hblock, hms⟩ := keywords_eq_append hk
    obtain ⟨o, body, rfl, ho, hbody⟩ := keywords_eq_cons hblock
    obtain ⟨c, rest, rfl, hc, hrest⟩ := keywords_eq_cons hms
    rw [List.cons_append, List.foldlM_cons, openAfter_if ho, ok_bind, List.foldlM_append,
      ihb _ hbody, ok_bind, List.foldlM_cons, openAfter_closer hc, ok_bind, ihr _ hrest]
  | alternative _ _ _ ihb iho ihr =>
    obtain ⟨block, ms, rfl, hblock, hms⟩ := keywords_eq_append hk
    obtain ⟨first, second, rfl, hfirst, hsecond⟩ := keywords_eq_append hblock
    obtain ⟨o, body, rfl, ho, hbody⟩ := keywords_eq_cons hfirst
    obtain ⟨m, other, rfl, hm, hother⟩ := keywords_eq_cons hsecond
    obtain ⟨c, rest, rfl, hc, hrest⟩ := keywords_eq_cons hms
    rw [List.append_assoc, List.cons_append, List.foldlM_cons, openAfter_if ho, ok_bind,
      List.foldlM_append, ihb _ hbody, ok_bind, List.cons_append, List.foldlM_cons,
      openAfter_else hm, ok_bind, List.foldlM_append, iho _ hother, ok_bind, List.foldlM_cons,
      openAfter_closer hc, ok_bind, ihr _ hrest]
  | loop _ _ ihb ihr =>
    obtain ⟨block, ms, rfl, hblock, hms⟩ := keywords_eq_append hk
    obtain ⟨o, body, rfl, ho, hbody⟩ := keywords_eq_cons hblock
    obtain ⟨c, rest, rfl, hc, hrest⟩ := keywords_eq_cons hms
    rw [List.cons_append, List.foldlM_cons, openAfter_for ho, ok_bind, List.foldlM_append,
      ihb _ hbody, ok_bind, List.foldlM_cons, openAfter_closer hc, ok_bind, ihr _ hrest]

/-- The directive of a block opens it, and what the block spans leaves it innermost. -/
theorem Opened.Spans.foldlM_openAfter {o : Opened} {body : List Mark} (h : o.Spans body)
    (os : List Opened) : (o.mark :: body).foldlM openAfter os = .ok (o :: os) := by
  obtain ⟨level, mark⟩ := o
  cases level with
  | conditional =>
    obtain ⟨ho, hb⟩ := h
    rw [List.foldlM_cons, openAfter_if ho, ok_bind, hb.foldlM_openAfter]
  | alternative =>
    obtain ⟨ho, before, middle, after, rfl, hm, hb, ha⟩ := h
    rw [List.foldlM_cons, openAfter_if ho, ok_bind, List.foldlM_append, hb.foldlM_openAfter,
      ok_bind, List.foldlM_cons, openAfter_else hm, ok_bind, ha.foldlM_openAfter]
  | loop =>
    obtain ⟨ho, hb⟩ := h
    rw [List.foldlM_cons, openAfter_for ho, ok_bind, hb.foldlM_openAfter]

/-- A row and the blocks that it leaves open, innermost first. -/
inductive Stacked : List Mark → List Opened → Prop where
  | nil {ms : List Mark} (h : Nested (keywords ms)) : Stacked ms []
  | cons {ms body : List Mark} {os : List Opened} {o : Opened} (hs : Stacked ms os)
    (ho : o.Spans body) : Stacked (ms ++ o.mark :: body) (o :: os)

theorem Opened.Spans.append {o : Opened} {body ms : List Mark} (h : o.Spans body)
    (hm : Nested (keywords ms)) : o.Spans (body ++ ms) := by
  obtain ⟨level, mark⟩ := o
  cases level with
  | conditional => exact ⟨h.1, by simpa using h.2.append hm⟩
  | alternative =>
    obtain ⟨ho, before, middle, after, rfl, hk, hb, ha⟩ := h
    exact ⟨ho, before, middle, after ++ ms, by simp, hk, hb, by simpa using ha.append hm⟩
  | loop => exact ⟨h.1, by simpa using h.2.append hm⟩

namespace Stacked

theorem append {ms ns : List Mark} {os : List Opened} (h : Stacked ms os)
    (hn : Nested (keywords ns)) : Stacked (ms ++ ns) os := by
  cases h with
  | nil h => exact .nil (by simpa using h.append hn)
  | cons hs ho => simpa using hs.cons (ho.append hn)

theorem foldlM_openAfter {ms : List Mark} {os : List Opened} (h : Stacked ms os) :
    ms.foldlM openAfter [] = .ok os := by
  induction h with
  | nil h => exact h.foldlM_openAfter []
  | cons _ ho ih => rw [List.foldlM_append, ih, ok_bind, ho.foldlM_openAfter]

theorem innermost {ms : List Mark} {os : List Opened} (h : Stacked ms os) :
    Innermost ms (os.head?.map Opened.mark) := by
  cases h with
  | nil h => exact .none h
  | cons _ ho => exact .some ho

end Stacked

/-- The directive that ends a block makes a whole block of what it spans. -/
theorem Opened.Spans.nested {o : Opened} {body : List Mark} (h : o.Spans body) {c : Mark}
    (hc : c.keyword = o.level.closer) : Nested (keywords (o.mark :: body ++ [c])) := by
  obtain ⟨level, mark⟩ := o
  cases level with
  | conditional =>
    obtain ⟨ho : mark.keyword = "if", hb⟩ := h
    simpa [ho, hc, Level.closer] using Nested.conditional hb .nil
  | alternative =>
    obtain ⟨ho : mark.keyword = "if", before, middle, after, rfl, hm, hb, ha⟩ := h
    simpa [ho, hc, hm, Level.closer] using Nested.alternative hb ha .nil
  | loop =>
    obtain ⟨ho : mark.keyword = "for", hb⟩ := h
    simpa [ho, hc, Level.closer] using Nested.loop hb .nil

theorem Stacked.close {ms : List Mark} {o : Opened} {os : List Opened} (h : Stacked ms (o :: os))
    {c : Mark} (hc : c.keyword = o.level.closer) : Stacked (ms ++ [c]) os := by
  cases h with
  | cons hs ho => simpa using hs.append (ho.nested hc)

/-- One more directive keeps the open blocks in step with the row. -/
theorem Stacked.step {ms : List Mark} {os os' : List Opened} (h : Stacked ms os) {m : Mark}
    (hm : openAfter os m = .ok os') : Stacked (ms ++ [m]) os' := by
  unfold openAfter at hm
  split at hm
  · next hk =>
    obtain rfl := Except.ok.inj hm
    exact .cons (o := ⟨.conditional, m⟩) h ⟨hk, .nil⟩
  · next hk =>
    obtain rfl := Except.ok.inj hm
    exact .cons (o := ⟨.loop, m⟩) h ⟨hk, .nil⟩
  · next hk =>
    obtain rfl := Except.ok.inj hm
    cases h with
    | @cons before body _ _ hs ho =>
      have ho' : (Opened.mk .alternative _).Spans (body ++ [m]) :=
        ⟨ho.1, body, m, [], rfl, hk, ho.2, .nil⟩
      simpa using hs.cons ho'
  · next hk =>
    obtain rfl := Except.ok.inj hm
    exact h.close hk
  · next hk =>
    obtain rfl := Except.ok.inj hm
    exact h.close hk
  · next hk =>
    obtain rfl := Except.ok.inj hm
    exact h.close hk
  · simp at hm

theorem stacked_of_foldlM {ms : List Mark} {os : List Opened}
    (h : ms.foldlM openAfter [] = .ok os) : Stacked ms os := by
  induction ms using List.reverseRecOn generalizing os with
  | nil =>
    obtain rfl := Except.ok.inj h
    exact .nil .nil
  | append_singleton ms m ih =>
    rw [List.foldlM_append] at h
    cases hms : ms.foldlM openAfter [] with
    | error f => simp [hms, bind, Except.bind] at h
    | ok os₁ =>
      rw [hms, ok_bind, List.foldlM_cons] at h
      cases hm : openAfter os₁ m with
      | error f => simp [hm, bind, Except.bind] at h
      | ok os₂ =>
        rw [hm, ok_bind] at h
        obtain rfl := Except.ok.inj h
        exact (ih hms).step hm

/-- Every open block can be ended. -/
theorem Stacked.viable {ms : List Mark} {os : List Opened} (h : Stacked ms os) :
    Viable (keywords ms) := by
  induction os generalizing ms with
  | nil =>
    cases h with
    | nil h => exact h.viable
  | cons o os ih =>
    obtain ⟨more, hm⟩ := ih (h.close (c := ⟨o.level.closer, 0⟩) rfl)
    exact ⟨o.level.closer :: more, by simpa using hm⟩

/-- The stack of open blocks never gives up on a row that can go on to whole blocks. -/
theorem viable_iff {ms : List Mark} :
    Viable (keywords ms) ↔ ∃ os, ms.foldlM openAfter [] = .ok os := by
  constructor
  · rintro ⟨more, h⟩
    let ns : List Mark := more.map fun k => ⟨k, 0⟩
    have hn : keywords ns = more := by simp [ns, keywords, Function.comp_def]
    have hrun : (ms ++ ns).foldlM openAfter [] = .ok [] :=
      Nested.foldlM_openAfter (by rwa [keywords_append, hn]) []
    rw [List.foldlM_append] at hrun
    cases hms : ms.foldlM openAfter [] with
    | error f => simp [hms, bind, Except.bind] at hrun
    | ok os => exact ⟨os, rfl⟩
  · rintro ⟨os, h⟩
    exact (stacked_of_foldlM h).viable

theorem Innermost.eq_head? {ms : List Mark} {opening : Option Mark} (h : Innermost ms opening)
    {os : List Opened} (hs : ms.foldlM openAfter [] = .ok os) :
    opening = os.head?.map Opened.mark := by
  cases h with
  | none h =>
    obtain rfl : [] = os := Except.ok.inj ((h.foldlM_openAfter []).symm.trans hs)
    rfl
  | @some before body o ho =>
    rw [List.foldlM_append] at hs
    cases hb : before.foldlM openAfter [] with
    | error f => simp [hb, bind, Except.bind] at hs
    | ok os₁ =>
      rw [hb, ok_bind, ho.foldlM_openAfter] at hs
      obtain rfl := Except.ok.inj hs
      rfl

/-- The fault of a row of directives, if it has one: a block that is open after all of it never
ends. -/
def checkBlocks (ms : List Mark) : Except BlockFault Unit := do
  let os ← ms.foldlM openAfter []
  match os with
  | [] => .ok ()
  | o :: _ => .error ⟨some o.mark, none⟩

theorem checkBlocks_of_foldlM {ms : List Mark} {os : List Opened}
    (h : ms.foldlM openAfter [] = .ok os) : checkBlocks ms =
      match os.head? with
      | none => .ok ()
      | some o => .error ⟨some o.mark, none⟩ := by
  unfold checkBlocks
  rw [h, ok_bind]
  cases os <;> rfl

theorem checkBlocks_of_step {before after : List Mark} {m : Mark} {os : List Opened}
    {f : BlockFault} (h : before.foldlM openAfter [] = .ok os) (hm : openAfter os m = .error f) :
    checkBlocks (before ++ m :: after) = .error f := by
  unfold checkBlocks
  rw [List.foldlM_append, h, ok_bind, List.foldlM_cons, hm]
  rfl

theorem checkBlocks_eq_ok {ms : List Mark} : checkBlocks ms = .ok () ↔ Nested (keywords ms) := by
  constructor
  · intro h
    cases hr : ms.foldlM openAfter [] with
    | error f => simp [checkBlocks, hr, bind, Except.bind] at h
    | ok os =>
      have hs := stacked_of_foldlM hr
      rw [checkBlocks_of_foldlM hr] at h
      cases hs with
      | nil hn => exact hn
      | cons => simp at h
  · intro h
    rw [checkBlocks_of_foldlM (h.foldlM_openAfter [])]
    rfl

theorem not_viable_of_step {before : List Mark} {m : Mark} {os : List Opened} {f : BlockFault}
    (h : before.foldlM openAfter [] = .ok os) (hm : openAfter os m = .error f) :
    ¬ Viable (keywords (before ++ [m])) := by
  rw [viable_iff, List.foldlM_append, h, ok_bind, List.foldlM_cons, hm]
  simp [bind, Except.bind]

theorem exists_step_of_not_viable {before : List Mark} {m : Mark} {os : List Opened}
    (h : before.foldlM openAfter [] = .ok os) (hn : ¬ Viable (keywords (before ++ [m]))) :
    ∃ f, openAfter os m = .error f := by
  cases hm : openAfter os m with
  | error f => exact ⟨f, rfl⟩
  | ok os' =>
    refine absurd (viable_iff.mpr ⟨os', ?_⟩) hn
    rw [List.foldlM_append, h, ok_bind, List.foldlM_cons, hm]
    rfl

/-- The stack of open blocks finds the fault of every row. -/
theorem checkBlocks_eq_error {ms : List Mark} {f : BlockFault} :
    checkBlocks ms = .error f ↔ Faulty ms f := by
  constructor
  · intro h
    cases hr : ms.foldlM openAfter [] with
    | error f' =>
      obtain ⟨before, m, after, os, rfl, hb, hm⟩ := exists_of_foldlM_eq_error hr
      obtain rfl : f' = f := by simpa [checkBlocks_of_step hb hm] using h
      obtain rfl := openAfter_eq_error hm
      have hs := stacked_of_foldlM hb
      exact .closing hs.viable (not_viable_of_step hb hm) hs.innermost
    | ok os =>
      have hs := stacked_of_foldlM hr
      rw [checkBlocks_of_foldlM hr] at h
      cases hs with
      | nil => simp at h
      | @cons _ _ os o hs ho =>
        obtain rfl := Except.error.inj h
        exact .opening (hs.cons ho).viable (.some ho)
  · intro h
    cases h with
    | @closing before after m opening hv hn ho =>
      obtain ⟨os, hb⟩ := viable_iff.mp hv
      obtain ⟨f, hm⟩ := exists_step_of_not_viable hb hn
      rw [checkBlocks_of_step hb hm, openAfter_eq_error hm, ho.eq_head? hb]
    | opening hv ho =>
      obtain ⟨os, hr⟩ := viable_iff.mp hv
      have hh := ho.eq_head? hr
      rw [checkBlocks_of_foldlM hr]
      cases os with
      | nil => simp at hh
      | cons o os =>
        obtain rfl := Option.some.inj hh
        rfl

namespace Frame

def level : Frame → Level
  | conditional _ _ none => .conditional
  | conditional _ _ (some _) => .alternative
  | loop .. => .loop

theorem level_push (node : Node) (f : Frame) : (f.push node).level = f.level := by
  cases f with
  | conditional path thenNodes elseNodes => cases elseNodes <;> rfl
  | loop => rfl

end Frame

namespace Builder

/-- The open blocks without their nodes. -/
def opened (b : Builder) : List Opened := b.blocks.map fun block => ⟨block.frame.level, block.mark⟩

theorem opened_push (b : Builder) (node : Node) : (b.push node).opened = b.opened := by
  obtain ⟨root, blocks⟩ := b
  cases blocks with
  | nil => rfl
  | cons block outer => simp [push, opened, Frame.level_push]

theorem map_opened_directive (b : Builder) (d : Directive) (span : Span) :
    (b.place (.directive d span)).map opened = openAfter b.opened ⟨d.keyword, span.start⟩ := by
  obtain ⟨root, blocks⟩ := b
  cases d with
  | openIf path => rfl
  | openFor binding collection => rfl
  | middle =>
    match blocks with
    | [] => rfl
    | ⟨.conditional _ _ none, _⟩ :: _ => rfl
    | ⟨.conditional _ _ (some _), _⟩ :: _ => rfl
    | ⟨.loop .., _⟩ :: _ => rfl
  | closeIf =>
    match blocks with
    | [] => rfl
    | ⟨.conditional _ _ none, _⟩ :: _ =>
      exact congrArg Except.ok (opened_push _ _)
    | ⟨.conditional _ _ (some _), _⟩ :: _ =>
      exact congrArg Except.ok (opened_push _ _)
    | ⟨.loop .., _⟩ :: _ => rfl
  | closeFor =>
    match blocks with
    | [] => rfl
    | ⟨.conditional _ _ none, _⟩ :: _ => rfl
    | ⟨.conditional _ _ (some _), _⟩ :: _ => rfl
    | ⟨.loop .., _⟩ :: _ =>
      exact congrArg Except.ok (opened_push _ _)

end Builder

def Item.mark? : Item → Option Mark
  | leaf _ => none
  | directive d span => some ⟨d.keyword, span.start⟩

/-- Items open and end blocks as their directives say. -/
theorem Builder.map_opened_run (is : List Item) (b : Builder) :
    (is.foldlM place b).map opened = (is.filterMap Item.mark?).foldlM openAfter b.opened := by
  induction is generalizing b with
  | nil => rfl
  | cons i is ih =>
    rw [List.foldlM_cons]
    cases i with
    | leaf node =>
      rw [List.filterMap_cons_none rfl, ← opened_push b node, ← ih]
      rfl
    | directive d span =>
      have hm : (Item.directive d span).mark? = some ⟨d.keyword, span.start⟩ := rfl
      rw [List.filterMap_cons_some hm, List.foldlM_cons, ← map_opened_directive]
      cases hp : b.place (.directive d span) with
      | error f => rfl
      | ok b' =>
        rw [ok_bind, ih]
        rfl

theorem Builder.map_finish (b : Builder) : b.finish.map (fun _ => ()) =
    match b.opened with
    | [] => .ok ()
    | o :: _ => .error ⟨some o.mark, none⟩ := by
  obtain ⟨root, blocks⟩ := b
  cases blocks <;> rfl

/-- A row of items makes a tree as far as its directives make whole blocks. -/
theorem Builder.map_build (is : List Item) :
    (is.foldlM place .empty >>= finish).map (fun _ => ()) =
      checkBlocks (is.filterMap Item.mark?) := by
  unfold checkBlocks
  have hr : _ = (is.filterMap Item.mark?).foldlM openAfter [] := map_opened_run is .empty
  rw [← hr]
  cases is.foldlM place .empty with
  | error f => rfl
  | ok b => exact b.map_finish

/-- The keyword of a block directive is its first word. -/
def keywordOf (content : List Char) : String :=
  String.ofList ((skipBlanks content).takeWhile isNotBlank)

/-- A block directive by its keyword and its place. -/
def Piece.mark? : Piece → Option Mark
  | directive start .tag content => some ⟨keywordOf content, start⟩
  | _ => none

/-- The block directives of a source that has been cut. -/
def marks (ps : List Piece) : List Mark := ps.filterMap Piece.mark?

theorem keyword_of_readDirective {content : List Char} {d : Directive}
    (h : readDirective content = .ok d) : d.keyword = keywordOf content := by
  unfold readDirective at h
  unfold keywordOf
  dsimp only at h
  split at h
  · simp [misread] at h
  · next hk =>
    obtain ⟨path, -, hd⟩ := bind_eq_ok.mp h
    rw [hk, ← Except.ok.inj hd]
    rfl
  · next hk =>
    obtain ⟨-, -, hd⟩ := bind_eq_ok.mp h
    rw [hk, ← Except.ok.inj hd]
    rfl
  · next hk =>
    obtain ⟨-, -, hd⟩ := bind_eq_ok.mp h
    rw [hk, ← Except.ok.inj hd]
    rfl
  · next hk =>
    obtain ⟨⟨binding, collection⟩, -, hd⟩ := bind_eq_ok.mp h
    rw [hk, ← Except.ok.inj hd]
    rfl
  · next hk =>
    obtain ⟨-, -, hd⟩ := bind_eq_ok.mp h
    rw [hk, ← Except.ok.inj hd]
    rfl
  · simp [misread] at h

/-- The item of a piece opens or ends a block if the piece does. -/
theorem mark?_of_ofPiece {source : List Char} {p : Piece} {i : Item}
    (h : Item.ofPiece source p = .ok i) : i.mark? = p.mark? := by
  cases p with
  | text start raw =>
    obtain rfl := Except.ok.inj h
    rfl
  | directive start delimiter content =>
    cases delimiter with
    | expression =>
      simp only [Item.ofPiece] at h
      split at h
      · obtain rfl := Except.ok.inj h
        rfl
      · simp at h
    | tag =>
      simp only [Item.ofPiece] at h
      split at h
      · next hd =>
        obtain rfl := Except.ok.inj h
        simp [Item.mark?, Piece.mark?, keyword_of_readDirective hd]
      · simp at h

theorem filterMap_mark?_of_means {source : List Char} {ps : List Piece} {is : List Item}
    (h : Means source ps is) : is.filterMap Item.mark? = marks ps := by
  unfold marks
  induction h with
  | nil => rfl
  | cons hi _ ih => rw [List.filterMap_cons, List.filterMap_cons, mark?_of_ofPiece hi, ih]

/-- A source whose pieces all have a meaning is read as far as its directives make whole blocks. -/
theorem map_parseChars {source : List Char} {ps : List Piece} (hp : pieces source = .ok ps)
    (hi : ∀ p ∈ ps, ∃ i, Item.ofPiece source p = .ok i) :
    (parseChars source).map (fun _ => ()) =
      (checkBlocks (marks ps)).mapError (·.toError source) := by
  obtain ⟨is, hm⟩ := exists_means_iff.mpr hi
  rw [← filterMap_mark?_of_means hm, ← Builder.map_build]
  simp only [parseChars, hp, foldlM_step_of_means hm]
  cases is.foldlM Builder.place .empty with
  | error f => rfl
  | ok b => cases hb : b.finish <;> simp [Except.mapError, ok_bind, hb, Except.map]

/-- A loop that ends inside a conditional of its body. -/
def crossed : String := "\x7b% for x in Xs %\x7d\x7b% if x %\x7d\x7b% endfor %\x7d\x7b% endif %\x7d"

def crossedPieces : List Piece :=
  [.directive 0 .tag " for x in Xs ".toList, .directive 17 .tag " if x ".toList,
    .directive 27 .tag " endfor ".toList, .directive 39 .tag " endif ".toList]

end Proforma
