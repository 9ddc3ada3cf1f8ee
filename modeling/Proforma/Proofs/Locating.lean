import Proforma.Proofs.Reading
import Proforma.Proofs.Slicing

/-!
Directives read by byte offsets. Every reader of what stands between delimiters has the result that
it has on a row of characters, and a fault is found at the offset where the text that the reader
leaves begins.
-/
namespace Proforma

open Text

namespace Cursor

variable {α β : Type} {input rest : List Char} {base start : Nat}

theorem suffix_of_readQuoted? {quote : Char} {cs s after : List Char}
    (h : readQuoted? quote cs = some (s, after)) : after <:+ cs := by
  fun_induction readQuoted? quote cs generalizing s with
  | case1 => simp at h
  | case2 c cs ih =>
    obtain ⟨⟨s', after'⟩, hs, he⟩ := Option.map_eq_some_iff.mp h
    obtain ⟨-, rfl⟩ := Prod.mk.inj he
    exact (ih hs).trans ((List.suffix_cons c cs).trans (List.suffix_cons _ _))
  | case3 cs =>
    obtain ⟨-, rfl⟩ := Prod.mk.inj (Option.some.inj h)
    exact List.suffix_cons _ _
  | case4 c cs _ _ ih =>
    obtain ⟨⟨s', after'⟩, hs, he⟩ := Option.map_eq_some_iff.mp h
    obtain ⟨-, rfl⟩ := Prod.mk.inj he
    exact (ih hs).trans (List.suffix_cons c cs)

theorem agrees_number (h : rest <:+ input) :
    Agrees input base start rest
      (number (base + byteLength input - byteLength rest) (before input base rest))
      (match (Double.Numeral.read? (rest.takeWhile isNumberChar)).map Double.Numeral.toDouble with
        | some x =>
          if x.isFinite then .ok (.number x, rest.dropWhile isNumberChar)
          else misread (.invalidNumber (String.ofList (rest.takeWhile isNumberChar))) rest
        | none => misread (.invalidNumber (String.ofList (rest.takeWhile isNumberChar))) rest) := by
  rw [number, Scan.bind_of_eq (takeWhile_before h _)]
  cases (Double.Numeral.read? (rest.takeWhile isNumberChar)).map Double.Numeral.toDouble with
  | none => exact agrees_fail rfl List.suffix_rfl
  | some x =>
    dsimp only
    split
    · exact .ok _ (List.dropWhile_suffix _)
    · exact agrees_fail rfl List.suffix_rfl

theorem agrees_literal (h : rest <:+ input) :
    Agrees input base start rest (literal (before input base rest)) (readLiteral rest) := by
  rw [literal, Scan.bind_of_eq (offset_before h), Scan.bind_of_eq (peek_before h)]
  cases rest with
  | nil => exact agrees_fail rfl List.suffix_rfl
  | cons c body =>
    rw [readLiteral, List.head?_cons]
    dsimp only
    split
    · next hc =>
      have hq : quoted c (before input base body) = _ :=
        quoted_before (suffix_of_cons h) (ne_backslash_of_isQuote hc)
      rw [Scan.bind_of_eq (bump_cons h)]
      cases hr : readQuoted? c body with
      | none =>
        rw [hr] at hq
        rw [Scan.bind_of_eq hq]
        exact agrees_fail rfl List.suffix_rfl
      | some found =>
        rw [hr] at hq
        rw [Scan.bind_of_eq hq]
        exact .ok _ ((suffix_of_readQuoted? hr).trans (List.suffix_cons _ _))
    · split
      · exact agrees_number h
      · exact agrees_fail rfl List.suffix_rfl

theorem suffix_skipBlanks (cs : List Char) : skipBlanks cs <:+ cs := List.dropWhile_suffix _

/-- A literal with white space on both sides. -/
theorem agrees_spaced_literal (h : rest <:+ input) {a : Literal} {after : List Char}
    (hl : readLiteral (skipBlanks rest) = .ok (a, after)) {k : Literal → Scan β}
    {y : Except Misread (β × List Char)} (hk : skipBlanks after <:+ rest →
      Agrees input base start (skipBlanks after) (k a (before input base (skipBlanks after))) y) :
    Agrees input base start rest
      ((do skipSpace; let a ← literal; skipSpace; k a) (before input base rest)) y := by
  have hr := (suffix_skipBlanks rest).trans h
  have ha : Agrees input base start (skipBlanks rest) _ _ := agrees_literal hr
  rw [hl] at ha
  rw [Scan.bind_of_eq (skipSpace_before h)]
  refine (ha.bind_ok fun hsuffix => Agrees.mono ?_ hsuffix).mono (suffix_skipBlanks rest)
  have hafter := hsuffix.trans (suffix_skipBlanks rest)
  rw [Scan.bind_of_eq (skipSpace_before (hafter.trans h))]
  exact (hk ((suffix_skipBlanks after).trans hafter)).mono (suffix_skipBlanks after)

theorem agrees_arguments (h : rest <:+ input) :
    Agrees input base start rest (arguments (before input base rest)) (readArguments rest) := by
  fun_induction readArguments rest with
  | case1 cs e he =>
    have ha : Agrees input base start (skipBlanks cs) _ _ :=
      agrees_literal ((suffix_skipBlanks cs).trans h)
    rw [he] at ha
    rw [Scan.loop_turn (rfl : arguments = _), Scan.bind_of_eq (skipSpace_before h)]
    exact (ha.bind_error _).mono (suffix_skipBlanks cs)
  | case2 cs a after hl more hs =>
    rw [Scan.loop_turn (rfl : arguments = _)]
    refine agrees_spaced_literal h hl fun hmore => ?_
    rw [hs] at hmore ⊢
    rw [Scan.bind_of_eq (eat_cons (hmore.trans h))]
    exact .ok _ (List.suffix_cons _ _)
  | case3 cs a after hl more hs ih =>
    rw [Scan.loop_turn (rfl : arguments = _)]
    refine agrees_spaced_literal h hl fun hmore => ?_
    rw [hs] at hmore ⊢
    have hi := hmore.trans h
    rw [Scan.bind_of_eq (eat_of_ne hi (by simp)), if_neg Bool.false_ne_true,
      Scan.bind_of_eq (eat_cons hi), if_pos rfl]
    apply Agrees.mono _ (List.suffix_cons _ _)
    exact (Agrees.onward h hmore List.suffix_rfl (ih (suffix_of_cons hi))).bind
      fun _ _ has => .ok _ has
  | case4 cs a after hl hclose hcomma =>
    rw [Scan.loop_turn (rfl : arguments = _)]
    refine agrees_spaced_literal h hl fun hmore => ?_
    have hi := hmore.trans h
    rw [Scan.bind_of_eq (eat_of_ne hi (head?_ne_of_forall hclose)), if_neg Bool.false_ne_true,
      Scan.bind_of_eq (eat_of_ne hi (head?_ne_of_forall hcomma)), if_neg Bool.false_ne_true]
    exact agrees_failUnexpected hi

theorem agrees_callArguments (h : rest <:+ input) : Agrees input base start rest
    (callArguments (before input base rest)) (readCallArguments rest) := by
  have hr := (suffix_skipBlanks rest).trans h
  rw [callArguments, Scan.bind_of_eq (skipSpace_before h), readCallArguments]
  refine Agrees.mono ?_ (suffix_skipBlanks rest)
  split
  · next cs hs =>
    rw [hs] at hr ⊢
    have hcs := (suffix_skipBlanks cs).trans (suffix_of_cons hr)
    rw [Scan.bind_of_eq (eat_cons hr), if_pos rfl,
      Scan.bind_of_eq (skipSpace_before (suffix_of_cons hr))]
    refine Agrees.mono ?_ ((suffix_skipBlanks cs).trans (List.suffix_cons _ _))
    split
    · next after hs' =>
      rw [hs'] at hcs ⊢
      rw [Scan.bind_of_eq (eat_cons hcs), if_pos rfl]
      exact .ok _ (List.suffix_cons _ _)
    · next hn =>
      rw [Scan.bind_of_eq (eat_of_ne hcs (head?_ne_of_forall hn)), if_neg Bool.false_ne_true]
      exact agrees_arguments hcs
  · next hn =>
    rw [Scan.bind_of_eq (eat_of_ne hr (head?_ne_of_forall hn)), if_neg Bool.false_ne_true]
    exact .ok _ List.suffix_rfl

theorem agrees_call (h : rest <:+ input) : Agrees input base start rest
    (call (before input base rest)) (readCall (base + byteLength input) rest) := by
  rw [call, Scan.bind_of_eq (offset_before h), readCall]
  cases hr : readIdentifier? rest with
  | none =>
    rw [Scan.bind_of_eq (identifier?_of_none h hr)]
    exact agrees_fail rfl List.suffix_rfl
  | some found =>
    obtain ⟨name, after⟩ := found
    rw [Scan.bind_of_eq (identifier?_of_some h hr)]
    have ha := suffix_of_readIdentifier? hr
    dsimp only
    cases Filter.ofName? (String.ofList name) with
    | none => exact agrees_fail rfl List.suffix_rfl
    | some filter =>
      have hargs : Agrees input base start after _ _ := agrees_callArguments (ha.trans h)
      -- a fault of the arguments as a whole is found where the name begins
      refine (hargs.mono ha).bind fun args last hlast => ?_
      rw [Scan.bind_of_eq (offset_before (hlast.trans h))]
      dsimp only
      split
      · cases filter.checkArguments args with
        | ok _ => exact .ok _ hlast
        | error fault => exact agrees_fail rfl List.suffix_rfl
      · exact agrees_fail rfl List.suffix_rfl

theorem Agrees.bind_to_end {m : Scan α} {k : α → Scan β} {c : Cursor}
    {y : Except Misread (α × List Char)} {g : α × List Char → Except Misread β}
    (h : Agrees input base start rest (m c) y) (hk : ∀ a after, after <:+ rest →
      Agrees input base start rest (k a (before input base after)) ((g (a, after)).map (·, []))) :
    Agrees input base start rest ((m >>= k) c) ((y >>= g).map (·, [])) := by
  cases y with
  | error e => exact h.bind_error k
  | ok found => exact h.bind_ok (hk _ _)

theorem Agrees.map_to_end {m : Scan α} {c : Cursor} {y : Except Misread α}
    (h : Agrees input base start rest (m c) (y.map (·, []))) (f : α → β) :
    Agrees input base start rest ((m >>= fun a => pure (f a)) c)
      ((y >>= fun a => .ok (f a)).map (·, [])) := by
  cases y with
  | error e => exact h.bind_error _
  | ok a => exact h.bind_ok fun ha => .ok _ ha

theorem map_unexpected (f : α → β) (rest : List Char) :
    (unexpected rest : Except Misread α).map f = unexpected rest := by
  cases rest <;> rfl

theorem atEnd_skipSpace (h : rest <:+ input) (x y : Scan α) :
    (do skipSpace; if ← atEnd then x else y) (before input base rest) =
      if skipBlanks rest = [] then x (before input base []) else
        y (before input base (skipBlanks rest)) := by
  rw [Scan.bind_of_eq (skipSpace_before h),
    Scan.bind_of_eq (atEnd_before ((suffix_skipBlanks rest).trans h))]
  cases skipBlanks rest <;> rfl

theorem pipeline_of_bar (h : rest <:+ input) {after : List Char}
    (hs : skipBlanks rest = '|' :: after) : pipeline (before input base rest) =
      (do let c ← call; return c :: (← Scan.onward (before input base rest) pipeline))
        (before input base (skipBlanks after)) := by
  have hi := (suffix_skipBlanks rest).trans h
  rw [hs] at hi
  rw [Scan.loop_turn (rfl : pipeline = _), atEnd_skipSpace h, hs, if_neg (List.cons_ne_nil _ _),
    Scan.bind_of_eq (eat_cons hi), if_pos rfl, Scan.bind_of_eq (skipSpace_before (suffix_of_cons hi))]

/-- The filters end where the text does. -/
theorem agrees_pipeline (h : rest <:+ input) :
    Agrees input base start rest (pipeline (before input base rest))
      ((readPipeline (base + byteLength input) rest).map (·, [])) := by
  fun_induction readPipeline (base + byteLength input) rest with
  | case1 cs hs =>
    rw [Scan.loop_turn (rfl : pipeline = _), atEnd_skipSpace h, if_pos hs]
    exact .ok _ List.nil_suffix
  | case2 cs rest hs e he =>
    have hrest := hs ▸ suffix_skipBlanks cs
    have hafter := (suffix_skipBlanks rest).trans (suffix_of_cons hrest)
    have hc : Agrees input base start (skipBlanks rest) _ _ := agrees_call (hafter.trans h)
    rw [he] at hc
    rw [pipeline_of_bar h hs]
    exact (hc.bind_error _).mono hafter
  | case3 cs rest hs c after hc ih =>
    have hrest := hs ▸ suffix_skipBlanks cs
    have hafter := (suffix_skipBlanks rest).trans (suffix_of_cons hrest)
    have hcall : Agrees input base start (skipBlanks rest) _ _ := agrees_call (hafter.trans h)
    rw [hc] at hcall
    rw [pipeline_of_bar h hs]
    refine (hcall.bind_ok fun ha => ?_).mono hafter
    exact ((Agrees.onward h hrest (ha.trans (suffix_skipBlanks rest))
      (ih (ha.trans (hafter.trans h)))).map_to_end _).mono ha
  | case4 cs hnil hbar =>
    have hi := (suffix_skipBlanks cs).trans h
    rw [Scan.loop_turn (rfl : pipeline = _), atEnd_skipSpace h, if_neg hnil,
      Scan.bind_of_eq (eat_of_ne hi (head?_ne_of_forall hbar)), if_neg Bool.false_ne_true,
      map_unexpected]
    exact (agrees_failUnexpected hi).mono (suffix_skipBlanks cs)

theorem agrees_expression (start : Nat) : Agrees input base start input
    (expression start (before input base input))
    ((readExpression (base + byteLength input) input).map (·, [])) := by
  have hi := suffix_skipBlanks input
  rw [expression, atEnd_skipSpace List.suffix_rfl, readExpression]
  split
  · next hs =>
    rw [hs]
    exact .error (e := ⟨.emptyExpression, []⟩) List.nil_suffix
  · next hs =>
    refine Agrees.mono ?_ hi
    cases hcs : skipBlanks input with
    | nil => exact (hs hcs).elim
    | cons c cs =>
      rw [hcs] at hi
      exact (agrees_path hi).bind_to_end fun p after ha =>
        ((agrees_pipeline (ha.trans hi)).map_to_end _).mono ha

theorem agrees_onlyPath (keyword : String) : Agrees input base start input
    (onlyPath keyword base (before input base input))
    ((readOnlyPath keyword input).map (·, [])) := by
  have hi := suffix_skipBlanks input
  rw [onlyPath, atEnd_skipSpace List.suffix_rfl, readOnlyPath]
  split
  · next hs =>
    rw [hs]
    have hf : Agrees (α := Path) input base start input
        (fail (.missingPath keyword) (base + byteLength input - byteLength input)
          (before input base [])) (misread (.missingPath keyword) input) :=
      agrees_fail rfl List.suffix_rfl
    rw [Nat.add_sub_cancel] at hf
    exact hf
  · next hs =>
    refine Agrees.mono ?_ hi
    cases hcs : skipBlanks input with
    | nil => exact (hs hcs).elim
    | cons c cs =>
      rw [hcs] at hi
      refine (agrees_path hi).bind_to_end fun p after ha => ?_
      have hafter := (suffix_skipBlanks after).trans ha
      rw [atEnd_skipSpace (ha.trans hi)]
      dsimp only
      split
      · next hend =>
        rw [hend]
        exact .ok _ List.nil_suffix
      · next hne =>
        cases hmore : skipBlanks after with
        | nil => exact (hne hmore).elim
        | cons c' more =>
          rw [hmore] at hafter
          exact (agrees_failUnexpected (hafter.trans hi)).mono hafter

/-- A run has the result of a reader of a whole text. What is left at a misreading is an end of the
text. -/
inductive Locates {α : Type} (start stop : Nat) (text : List Char) :
    ExceptT Located Option α → Except Misread α → Prop where
  | ok (a : α) : Locates start stop text (pure a) (.ok a)
  | error {e : Misread} (h : e.rest <:+ text) :
    Locates start stop text (throw (e.located start stop)) (.error e)

theorem Locates.mono {stop : Nat} {text text' : List Char} {x : ExceptT Located Option α}
    {y : Except Misread α} (h : Locates start stop text x y) (ht : text <:+ text') :
    Locates start stop text' x y := by
  cases h with
  | ok a => exact .ok a
  | error h => exact .error (h.trans ht)

theorem Locates.map {stop : Nat} {text : List Char} {x : ExceptT Located Option α}
    {y : Except Misread α} (h : Locates start stop text x y) (f : α → β) :
    Locates start stop text (x >>= fun a => pure (f a)) (y >>= fun a => .ok (f a)) := by
  cases h with
  | ok a => exact .ok (f a)
  | error h => exact .error h

theorem before_self (input : List Char) (base : Nat) :
    before input base input = ⟨input, 0, base⟩ := by
  rw [before, Nat.sub_self]

theorem Agrees.locates {m : Scan α} {y : Except Misread α} {after : List Char}
    (h : Agrees input base start input (m (before input base input)) (y.map (·, after))) :
    Locates start (base + byteLength input) input (m.start input base) y := by
  rw [before_self] at h
  generalize hm : m ⟨input, 0, base⟩ = x at h
  have hrun : m.start input base = x >>= fun p => pure p.1 := by
    rw [← hm]
    rfl
  rw [hrun]
  cases y with
  | ok a =>
    cases h with
    | ok a ha => exact .ok a
  | error e =>
    cases h with
    | error he => exact .error he

theorem Locates.agrees_lift {x : ExceptT Located Option α} {y : Except Misread α}
    (h : Locates start (base + byteLength input) rest x y) :
    Agrees input base start rest ((liftM x : Scan α) (before input base rest))
      (y.map (·, rest)) := by
  cases h with
  | ok a => exact .ok a List.suffix_rfl
  | error he => exact .error he

theorem base_add (h : rest <:+ input) :
    base + byteLength input - byteLength rest + byteLength rest = base + byteLength input := by
  have hle := byteLength_le_of_suffix h
  omega

/-- The collection of a loop is read by a cursor of its own. -/
theorem locates_loopHeader : Locates start (base + byteLength input) input
    (loopHeader.start input base) (readLoopHeader input) := by
  have hi := suffix_skipBlanks input
  suffices h : ∃ after, Agrees input base start input (loopHeader (before input base input))
      ((readLoopHeader input).map (·, after)) by
    obtain ⟨after, h⟩ := h
    exact h.locates
  rw [loopHeader, Scan.bind_of_eq (skipSpace_before List.suffix_rfl),
    Scan.bind_of_eq (offset_before hi), readLoopHeader]
  dsimp only
  cases hr : readIdentifier? (skipBlanks input) with
  | none =>
    rw [Scan.bind_of_eq (identifier?_of_none hi hr)]
    exact ⟨[], agrees_fail rfl hi⟩
  | some found =>
    obtain ⟨binding, after⟩ := found
    have ha := (suffix_of_readIdentifier? hr).trans hi
    have hmiddle := (suffix_skipBlanks after).trans ha
    rw [Scan.bind_of_eq (identifier?_of_some hi hr)]
    dsimp only
    split
    · exact ⟨[], agrees_fail rfl hi⟩
    · rw [Scan.bind_of_eq (skipSpace_before ha), Scan.bind_of_eq (offset_before hmiddle)]
      cases hw : readIdentifier? (skipBlanks after) with
      | none =>
        rw [Scan.bind_of_eq (identifier?_of_none hmiddle hw), if_neg (by simp)]
        exact ⟨[], agrees_fail rfl hmiddle⟩
      | some found =>
        obtain ⟨word, last⟩ := found
        rw [Scan.bind_of_eq (identifier?_of_some hmiddle hw)]
        have hlast := (suffix_of_readIdentifier? hw).trans hmiddle
        by_cases hin : word = ['i', 'n']
        · subst hin
          have hp : Locates start (base + byteLength input - byteLength last + byteLength last) last
              _ _ := (agrees_onlyPath "for").locates
          rw [base_add hlast] at hp
          rw [if_pos rfl, Scan.bind_of_eq (offset_before hlast),
            Scan.bind_of_eq (rest_before hlast)]
          refine ⟨last, Agrees.mono ?_ hlast⟩
          show Agrees _ _ _ _ _ ((readOnlyPath "for" last >>= fun collection =>
            .ok (String.ofList binding, collection)).map (·, last))
          cases hr : readOnlyPath "for" last with
          | error e =>
            rw [hr] at hp
            exact hp.agrees_lift.bind_error _
          | ok collection =>
            rw [hr] at hp
            exact hp.agrees_lift.bind_ok fun ha => .ok _ ha
        · rw [if_neg (by simpa using hin)]
          refine ⟨[], ?_⟩
          split
          · next hn =>
            obtain ⟨rfl, -⟩ := Prod.mk.inj (Option.some.inj hn)
            exact (hin rfl).elim
          · exact agrees_fail rfl hmiddle

end Cursor

/-- An expression read by byte offsets has the result that it has as a row of characters. -/
theorem locates_expression (content : List Char) (base start : Nat) :
    Cursor.Locates start (base + byteLength content) content
      ((Cursor.expression start).start content base)
      (readExpression (base + byteLength content) content) :=
  (Cursor.agrees_expression start).locates

/-- What begins with no white space is not empty without the white space at its end. -/
theorem dropLastBlanks_skipBlanks_eq_nil {cs : List Char} :
    dropLastBlanks (skipBlanks cs) = [] ↔ skipBlanks cs = [] := by
  constructor
  · intro h
    by_contra hne
    have hhead := List.head_dropWhile_not isBlank hne
    rw [dropLastBlanks, List.reverse_eq_nil_iff, List.dropWhile_eq_nil_iff] at h
    have hblank := h _ (List.mem_reverse.mpr (List.head_mem hne))
    exact Bool.false_ne_true (hhead.symm.trans hblank)
  · intro h
    rw [h]
    rfl

theorem locates_scanNothing (keyword : String) (text : List Char) (base start : Nat) :
    Cursor.Locates start (base + byteLength text) text (scanNothing keyword text base)
      (readNothing keyword text) := by
  rw [scanNothing, readNothing]
  simp only [List.isEmpty_iff, dropLastBlanks_skipBlanks_eq_nil]
  split
  · next h =>
    rw [h]
    exact .ok ()
  · next h =>
    cases hs : skipBlanks text with
    | nil => exact (h hs).elim
    | cons c cs =>
      exact .error (e := ⟨.unwantedArguments keyword, c :: cs⟩) (hs ▸ Cursor.suffix_skipBlanks text)

theorem lift_some_bind {ε α β : Type} (a : α) (f : α → ExceptT ε Option β) :
    (ExceptT.lift (some a) >>= f) = f a := rfl

/-- The first word of a text, and what follows it. -/
theorem slice?_word (cs : List Char) :
    slice? cs 0 ((findWhere? isBlank cs).getD (byteLength cs)) = some (cs.takeWhile isNotBlank) ∧
    slice? cs ((findWhere? isBlank cs).getD (byteLength cs)) (byteLength cs) =
      some (cs.dropWhile isNotBlank) := by
  have hw : (findWhere? isBlank cs).getD (byteLength cs) = byteLength (cs.takeWhile isNotBlank) :=
    findWhere?_getD isBlank cs
  have hleft := slice?_append_left (cs.takeWhile isNotBlank) (cs.dropWhile isNotBlank)
  have hright := slice?_append_right (cs.takeWhile isNotBlank) (cs.dropWhile isNotBlank)
  rw [List.takeWhile_append_dropWhile] at hleft hright
  rw [hw]
  exact ⟨hleft, hright⟩

/-- The offset after the first word of a content is the one where what follows the word begins. -/
theorem byteLength_word (content : List Char) (base : Nat) :
    let cs := skipBlanks content
    base + (byteLength content - byteLength cs) + (findWhere? isBlank cs).getD (byteLength cs) +
      byteLength (cs.dropWhile isNotBlank) = base + byteLength content := by
  intro cs
  have hw : (findWhere? isBlank cs).getD (byteLength cs) = byteLength (cs.takeWhile isNotBlank) :=
    findWhere?_getD isBlank cs
  have hcs : byteLength cs = byteLength (cs.takeWhile isNotBlank) +
      byteLength (cs.dropWhile isNotBlank) := by
    rw [← byteLength_append, List.takeWhile_append_dropWhile]
  have hle : byteLength cs ≤ byteLength content :=
    byteLength_le_of_suffix (Cursor.suffix_skipBlanks content)
  omega

/-- A tag read by byte offsets has the result that it has as a row of characters. -/
theorem locates_scanDirective (content : List Char) (base start : Nat) :
    Cursor.Locates start (base + byteLength content) content (scanDirective content base start)
      (readDirective content) := by
  have ht := Cursor.suffix_skipBlanks content
  have hle := byteLength_le_of_suffix ht
  have hstop := byteLength_word content base
  rw [scanDirective, readDirective]
  generalize skipBlanks content = trimmed at *
  obtain ⟨hleft, hright⟩ := slice?_word trimmed
  have hrest : trimmed.dropWhile isNotBlank <:+ content := (List.dropWhile_suffix _).trans ht
  dsimp only at hstop ⊢
  rw [hleft, hright, lift_some_bind, lift_some_bind]
  generalize trimmed.dropWhile isNotBlank = rest at *
  generalize String.ofList (trimmed.takeWhile isNotBlank) = keyword at *
  generalize base + (byteLength content - byteLength trimmed) +
    (findWhere? isBlank trimmed).getD (byteLength trimmed) = offset at *
  rw [← hstop]
  have hpath : Cursor.Locates start (offset + byteLength rest) content
      ((Cursor.onlyPath "if" offset).start rest offset) (readOnlyPath "if" rest) :=
    (Cursor.agrees_onlyPath "if").locates.mono hrest
  have hloop : Cursor.Locates start (offset + byteLength rest) content
      (Cursor.loopHeader.start rest offset) (readLoopHeader rest) :=
    Cursor.locates_loopHeader.mono hrest
  have hnothing : ∀ keyword, Cursor.Locates start (offset + byteLength rest) content
      (scanNothing keyword rest offset) (readNothing keyword rest) :=
    fun keyword => (locates_scanNothing keyword rest offset start).mono hrest
  have hunknown : Cursor.Locates (α := Directive) start (offset + byteLength rest) content
      (throw ⟨.unknownDirective keyword, base + (byteLength content - byteLength trimmed)⟩)
      (misread (.unknownDirective keyword) trimmed) := by
    rw [hstop, ← Nat.add_sub_assoc hle]
    exact .error (e := ⟨.unknownDirective keyword, trimmed⟩) ht
  split
  · exact .error (e := ⟨.emptyDirective, []⟩) List.nil_suffix
  · exact hpath.map _
  · exact (hnothing "else").map _
  · exact (hnothing "endif").map _
  · exact hloop.map _
  · exact (hnothing "endfor").map _
  · next hempty hif helse hendif hfor hendfor =>
    simpa only [hempty, hif, helse, hendif, hfor, hendfor] using hunknown

end Proforma
