import Mathlib.Data.List.TakeWhile
import Mathlib.Data.List.Infix
import Proforma.Proofs.Places
import Proforma.Proofs.Wellformed
import Proforma.Template.Cursor

/-!
No slice of a directive splits a character. Read by byte offsets, what stands between delimiters has
the results that it has as a row of characters, and the text that is left is always an end of it.
-/
namespace Proforma

open Text

namespace Text

theorem dropBytes_append (a b : List Char) (n : Nat) :
    dropBytes (byteLength a + n) (a ++ b) = dropBytes n b := by
  induction a with
  | nil => simp
  | cons c a ih =>
    obtain ⟨m, hm⟩ := Nat.exists_eq_add_one.mpr c.utf8Size_pos
    have hn : byteLength (c :: a) + n = m + byteLength a + n + 1 := by
      rw [byteLength_cons]
      omega
    have hle : c.utf8Size ≤ m + byteLength a + n + 1 := by omega
    have hsub : m + byteLength a + n + 1 - c.utf8Size = byteLength a + n := by omega
    rw [hn, List.cons_append, dropBytes, if_pos hle, hsub, ih]

theorem dropBytes_byteLength (a b : List Char) : dropBytes (byteLength a) (a ++ b) = some b := by
  have h := dropBytes_append a b 0
  simpa [dropBytes] using h

/-- A slice between characters is found. -/
theorem slice?_append (a b c : List Char) :
    slice? (a ++ b ++ c) (byteLength a) (byteLength a + byteLength b) = some b := by
  rw [slice?, if_pos (Nat.le_add_right _ _), List.append_assoc, dropBytes_byteLength,
    Option.bind_some, Nat.add_sub_cancel_left, takeBytes_byteLength]

theorem slice?_append_right (a b : List Char) :
    slice? (a ++ b) (byteLength a) (byteLength (a ++ b)) = some b := by
  have h := slice?_append a b []
  rwa [List.append_nil, ← byteLength_append] at h

theorem slice?_append_left (a b : List Char) : slice? (a ++ b) 0 (byteLength a) = some a := by
  have h := slice?_append [] a b
  rwa [byteLength_nil, Nat.zero_add] at h

theorem findWhere?_getD (p : Char → Bool) (cs : List Char) :
    (findWhere? p cs).getD (byteLength cs) = byteLength (cs.takeWhile fun c => !p c) := by
  induction cs with
  | nil => rfl
  | cons c cs ih =>
    cases hc : p c with
    | true => simp [findWhere?, hc]
    | false =>
      rw [List.takeWhile_cons_of_pos (by simp [hc]), byteLength_cons, byteLength_cons, ← ih,
        findWhere?, if_neg (by simp [hc])]
      cases findWhere? p cs <;> rfl

theorem byteLength_le_of_suffix {a b : List Char} (h : a <:+ b) : byteLength a ≤ byteLength b := by
  obtain ⟨c, rfl⟩ := h
  rw [byteLength_append]
  exact Nat.le_add_left _ _

end Text

theorem Scan.get_bind {α : Type} (k : Cursor → Scan α) (c : Cursor) : (get >>= k) c = k c c := rfl

theorem Scan.bind_of_eq {α β : Type} {m : Scan α} {k : α → Scan β} {c c' : Cursor} {a : α}
    (h : m c = pure (a, c')) : (m >>= k) c = k a c' := by
  show (m c >>= fun p => k p.1 p.2) = _
  rw [h]
  rfl

/-- What is next from a cursor that has less left than `c`, and nothing from another. -/
def Scan.onward {α : Type} (c : Cursor) (m : Scan α) : Scan α := fun next =>
  if next.left < c.left then m next else none

/-- A turn of a loop, which goes on only from a cursor that has moved on. -/
theorem Scan.loop_turn {α : Type} {m : Scan α} {turn : Scan α → Scan α} (h : m = .loop turn)
    (c : Cursor) : m c = turn (.onward c m) c := by
  subst h
  rw [Scan.loop, Text.loop]
  rfl

namespace Cursor

variable {input rest : List Char} {base : Nat}

/-- The cursor that has passed all of its input but `rest`. -/
def before (input : List Char) (base : Nat) (rest : List Char) : Cursor :=
  ⟨input, byteLength input - byteLength rest, base⟩

theorem left_before (h : rest <:+ input) : (before input base rest).left = byteLength rest :=
  Nat.sub_sub_self (byteLength_le_of_suffix h)

theorem onward_before {α : Type} (h : rest <:+ input) {c : Char} {tail after : List Char}
    (hc : c :: tail <:+ rest) (ha : after <:+ tail) (m : Scan α) :
    Scan.onward (before input base rest) m (before input base after) =
      m (before input base after) := by
  have hsuffix : after <:+ input := ((ha.trans (List.suffix_cons c tail)).trans hc).trans h
  have hlt : byteLength after < byteLength rest := by
    have hcons := byteLength_le_of_suffix hc
    have hafter := byteLength_le_of_suffix ha
    have hpos := c.utf8Size_pos
    rw [byteLength_cons] at hcons
    omega
  rw [Scan.onward, left_before hsuffix, left_before h, if_pos hlt]

theorem slice_before {cs after rest' : List Char} (hi : cs ++ after <:+ input) :
    slice (byteLength input - byteLength (cs ++ after)) (byteLength input - byteLength after)
      (before input base rest') = pure (cs, before input base rest') := by
  obtain ⟨passed, rfl⟩ := hi
  have hstart : byteLength (passed ++ (cs ++ after)) - byteLength (cs ++ after) =
      byteLength passed := by
    rw [byteLength_append, Nat.add_sub_cancel]
  have hstop : byteLength (passed ++ (cs ++ after)) - byteLength after =
      byteLength passed + byteLength cs := by
    rw [byteLength_append, byteLength_append, ← Nat.add_assoc, Nat.add_sub_cancel]
  have hs := slice?_append passed cs after
  rw [List.append_assoc] at hs
  show (slice? (passed ++ (cs ++ after)) _ _).map _ = _
  rw [hstart, hstop, hs]
  rfl

theorem rest_before (h : rest <:+ input) :
    Cursor.rest (before input base rest) = pure (rest, before input base rest) := by
  have hs : slice (byteLength input - byteLength (rest ++ [])) (byteLength input - byteLength [])
      (before input base rest) = pure (rest, before input base rest) :=
    slice_before (by rwa [List.append_nil])
  rwa [List.append_nil] at hs

theorem offset_before (h : rest <:+ input) : offset (before input base rest) =
    pure (base + byteLength input - byteLength rest, before input base rest) := by
  rw [Nat.add_sub_assoc (byteLength_le_of_suffix h)]
  rfl

theorem peek_before (h : rest <:+ input) :
    peek (before input base rest) = pure (rest.head?, before input base rest) :=
  Scan.bind_of_eq (rest_before h)

theorem atEnd_before (h : rest <:+ input) :
    atEnd (before input base rest) = pure (rest.isEmpty, before input base rest) := by
  have hle := byteLength_le_of_suffix h
  have hend : (byteLength input ≤ byteLength input - byteLength rest) ↔ rest = [] := by
    rw [← byteLength_eq_zero]
    omega
  have he : decide (byteLength input ≤ byteLength input - byteLength rest) = rest.isEmpty := by
    rw [Bool.eq_iff_iff, decide_eq_true_eq, hend, List.isEmpty_iff]
  show (pure (decide (byteLength input ≤ byteLength input - byteLength rest), _) :
    ExceptT Located Option _) = _
  rw [he]

theorem advance_before {c : Char} (h : c :: rest <:+ input) :
    advance c (before input base (c :: rest)) = pure ((), before input base rest) := by
  have hle := byteLength_le_of_suffix h
  rw [byteLength_cons] at hle
  have hpos : byteLength input - byteLength (c :: rest) + c.utf8Size =
      byteLength input - byteLength rest := by
    rw [byteLength_cons]
    omega
  show (pure ((),
    (⟨input, byteLength input - byteLength (c :: rest) + c.utf8Size, base⟩ : Cursor)) :
    ExceptT Located Option _) = _
  rw [hpos]
  rfl

theorem bump_nil (h : [] <:+ input) :
    bump (before input base []) = pure (none, before input base []) :=
  Scan.bind_of_eq (peek_before h)

theorem bump_cons {c : Char} (h : c :: rest <:+ input) :
    bump (before input base (c :: rest)) = pure (some c, before input base rest) := by
  rw [bump, Scan.bind_of_eq (peek_before h)]
  exact Scan.bind_of_eq (advance_before h)

theorem eat_cons {c : Char} (h : c :: rest <:+ input) :
    eat c (before input base (c :: rest)) = pure (true, before input base rest) := by
  rw [eat, Scan.bind_of_eq (peek_before h), if_pos (List.head?_cons ..)]
  exact Scan.bind_of_eq (advance_before h)

theorem eat_of_ne (h : rest <:+ input) {c : Char} (hc : rest.head? ≠ some c) :
    eat c (before input base rest) = pure (false, before input base rest) := by
  rw [eat, Scan.bind_of_eq (peek_before h), if_neg hc]
  rfl

theorem suffix_of_cons {c : Char} (h : c :: rest <:+ input) : rest <:+ input :=
  (List.suffix_cons c rest).trans h

theorem advanceWhile_before (h : rest <:+ input) (p : Char → Bool) :
    advanceWhile p (before input base rest) = pure ((), before input base (rest.dropWhile p)) := by
  induction rest with
  | nil =>
    rw [Scan.loop_turn (rfl : advanceWhile p = _), Scan.bind_of_eq (peek_before h)]
    rfl
  | cons c rest ih =>
    rw [Scan.loop_turn (rfl : advanceWhile p = _), Scan.bind_of_eq (peek_before h)]
    cases hc : p c with
    | true =>
      simp only [List.head?_cons, hc, if_true, List.dropWhile_cons_of_pos]
      rw [Scan.bind_of_eq (advance_before h),
        onward_before h List.suffix_rfl List.suffix_rfl, ih (suffix_of_cons h)]
    | false =>
      simp only [List.head?_cons, hc, List.dropWhile_cons, Bool.false_eq_true, if_false]
      rfl

theorem takeWhile_before (h : rest <:+ input) (p : Char → Bool) :
    takeWhile p (before input base rest) =
      pure (rest.takeWhile p, before input base (rest.dropWhile p)) := by
  have hsplit := List.takeWhile_append_dropWhile (p := p) (l := rest)
  have hs : slice (byteLength input - byteLength (rest.takeWhile p ++ rest.dropWhile p))
      (byteLength input - byteLength (rest.dropWhile p)) (before input base (rest.dropWhile p)) =
      pure (rest.takeWhile p, before input base (rest.dropWhile p)) :=
    slice_before (by rwa [hsplit])
  rw [hsplit] at hs
  rw [takeWhile, Scan.get_bind, Scan.bind_of_eq (advanceWhile_before h p), Scan.get_bind]
  exact hs

theorem skipSpace_before (h : rest <:+ input) :
    skipSpace (before input base rest) = pure ((), before input base (skipBlanks rest)) :=
  advanceWhile_before h isBlank

theorem identifier?_of_some (h : rest <:+ input) {word after : List Char}
    (hr : readIdentifier? rest = some (word, after)) :
    identifier? (before input base rest) = pure (some word, before input base after) := by
  rw [identifier?, Scan.bind_of_eq (peek_before h)]
  cases rest with
  | nil => simp [readIdentifier?] at hr
  | cons c rest =>
    rw [readIdentifier?] at hr
    split at hr
    · next hc =>
      obtain ⟨rfl, rfl⟩ := Prod.mk.inj (Option.some.inj hr)
      have hcont : continuesIdentifier c = true := by
        simp only [startsIdentifier, continuesIdentifier, Char.isAlphanum, Bool.or_eq_true] at hc ⊢
        exact hc.imp_left .inl
      rw [if_pos (by simpa using hc), Scan.bind_of_eq (takeWhile_before h _),
        List.takeWhile_cons_of_pos hcont, List.dropWhile_cons_of_pos hcont]
      rfl
    · simp at hr

theorem identifier?_of_none (h : rest <:+ input) (hr : readIdentifier? rest = none) :
    identifier? (before input base rest) = pure (none, before input base rest) := by
  have hn : rest.head?.any startsIdentifier = false := by
    cases rest with
    | nil => rfl
    | cons c rest =>
      rw [readIdentifier?] at hr
      split at hr
      · simp at hr
      · next hc => simpa using hc
  rw [identifier?, Scan.bind_of_eq (peek_before h), hn]
  rfl

end Cursor

namespace Misread

/-- The offset that a misreading is reported at: of an empty directive where its opener begins, else
where the text that is left begins. -/
def offset (start stop : Nat) (e : Misread) : Nat :=
  match e.fault with
  | .emptyExpression | .emptyDirective => start
  | _ => stop - byteLength e.rest

def located (start stop : Nat) (e : Misread) : Located := ⟨e.fault, e.offset start stop⟩

end Misread

namespace Cursor

/-- A run of a cursor from `rest` on has the result of a reader, and what the reader leaves is an
end of the text. -/
inductive Agrees {α : Type} (input : List Char) (base start : Nat) (rest : List Char) :
    ExceptT Located Option (α × Cursor) → Except Misread (α × List Char) → Prop where
  | ok (a : α) {after : List Char} (h : after <:+ rest) :
    Agrees input base start rest (pure (a, before input base after)) (.ok (a, after))
  | error {e : Misread} (h : e.rest <:+ rest) :
    Agrees input base start rest (throw (e.located start (base + byteLength input))) (.error e)

variable {α β : Type} {input rest : List Char} {base start : Nat}

theorem Agrees.mono {after : List Char} {x : ExceptT Located Option (α × Cursor)}
    {y : Except Misread (α × List Char)} (h : Agrees input base start after x y)
    (ha : after <:+ rest) : Agrees input base start rest x y := by
  cases h with
  | ok a h => exact .ok a (h.trans ha)
  | error h => exact .error (h.trans ha)

theorem Agrees.bind_error {m : Scan α} {c : Cursor} {e : Misread}
    (h : Agrees input base start rest (m c) (.error e)) (k : α → Scan β) :
    Agrees input base start rest ((m >>= k) c) (.error e) := by
  generalize hm : m c = x at h
  have hrun : (m >>= k) c = x >>= fun p => k p.1 p.2 := by rw [← hm]; rfl
  rw [hrun]
  cases h with
  | error he => exact .error he

theorem Agrees.bind_ok {m : Scan α} {c : Cursor} {a : α} {after : List Char}
    (h : Agrees input base start rest (m c) (.ok (a, after))) {k : α → Scan β}
    {y : Except Misread (β × List Char)} (hk : after <:+ rest →
      Agrees input base start rest (k a (before input base after)) y) :
    Agrees input base start rest ((m >>= k) c) y := by
  generalize hm : m c = x at h
  have hrun : (m >>= k) c = x >>= fun p => k p.1 p.2 := by rw [← hm]; rfl
  rw [hrun]
  cases h with
  | ok a ha => exact hk ha

theorem Agrees.bind {m : Scan α} {k : α → Scan β} {c : Cursor}
    {y : Except Misread (α × List Char)} {g : α × List Char → Except Misread (β × List Char)}
    (h : Agrees input base start rest (m c) y) (hk : ∀ a after, after <:+ rest →
      Agrees input base start rest (k a (before input base after)) (g (a, after))) :
    Agrees input base start rest ((m >>= k) c) (y >>= g) := by
  cases y with
  | error e => exact h.bind_error k
  | ok found => exact h.bind_ok (hk _ _)

/-- What a loop goes on with has the result of a reader of what is left. -/
theorem Agrees.onward {m : Scan α} {c : Char} {tail after : List Char} (h : rest <:+ input)
    (hc : c :: tail <:+ rest) (ha : after <:+ tail) {y : Except Misread (α × List Char)}
    (hm : Agrees input base start after (m (before input base after)) y) :
    Agrees input base start after
      (Scan.onward (before input base rest) m (before input base after)) y := by
  rwa [onward_before h hc ha]

/-- A fault that is not about an empty directive is reported where the text that is left begins. -/
theorem agrees_fail {fault : Fault} {after : List Char} {c : Cursor}
    (hf : (Misread.mk fault after).offset start (base + byteLength input) =
      base + byteLength input - byteLength after) (ha : after <:+ rest) :
    Agrees (α := α) input base start rest
      (fail fault (base + byteLength input - byteLength after) c) (misread fault after) := by
  rw [← hf]
  exact .error (e := ⟨fault, after⟩) ha

theorem agrees_failHere (h : rest <:+ input) {fault : Fault}
    (hf : (Misread.mk fault rest).offset start (base + byteLength input) =
      base + byteLength input - byteLength rest) :
    Agrees (α := α) input base start rest (failHere fault (before input base rest))
      (misread fault rest) := by
  rw [failHere, Scan.bind_of_eq (offset_before h)]
  exact agrees_fail hf List.suffix_rfl

theorem agrees_failUnexpected (h : rest <:+ input) :
    Agrees (α := α) input base start rest (failUnexpected (before input base rest))
      (unexpected rest) := by
  rw [failUnexpected, Scan.bind_of_eq (peek_before h)]
  cases rest with
  | nil => exact agrees_failHere h rfl
  | cons c rest => exact agrees_failHere h rfl

theorem suffix_of_readIdentifier? {word after : List Char}
    (h : readIdentifier? rest = some (word, after)) : after <:+ rest :=
  ⟨word, (append_of_readIdentifier? h).symm⟩

theorem agrees_name (h : rest <:+ input) :
    Agrees input base start rest (name (before input base rest)) (readName rest) := by
  unfold name readName
  cases hr : readIdentifier? rest with
  | some found =>
    rw [Scan.bind_of_eq (identifier?_of_some h hr)]
    exact .ok _ (suffix_of_readIdentifier? hr)
  | none =>
    rw [Scan.bind_of_eq (identifier?_of_none h hr)]
    show Agrees _ _ _ _ ((peek >>= _) _) _
    rw [Scan.bind_of_eq (peek_before h)]
    exact agrees_failHere h rfl

theorem agrees_index (h : rest <:+ input) :
    Agrees input base start rest (index (before input base rest)) (readIndex rest) := by
  rw [index, Scan.bind_of_eq (offset_before h), Scan.bind_of_eq (takeWhile_before h _), readIndex]
  split
  · exact agrees_fail rfl List.suffix_rfl
  · exact .ok _ (List.dropWhile_suffix _)

theorem agrees_dotted (h : rest <:+ input) :
    Agrees input base start rest (dotted (before input base rest)) (readDotted rest) := by
  rw [dotted, Scan.bind_of_eq (peek_before h), readDotted]
  split
  · exact (agrees_index h).bind fun _ _ ha => .ok _ ha
  · exact (agrees_name h).bind fun _ _ ha => .ok _ ha

theorem head?_ne_of_forall {c : Char} (h : ∀ cs, rest = c :: cs → False) : rest.head? ≠ some c := by
  intro he
  cases rest with
  | nil => simp at he
  | cons c' rest => exact h rest (by rw [Option.some.inj he])

theorem agrees_bracketed (h : rest <:+ input) :
    Agrees input base start rest (bracketed (before input base rest)) (readBracketed rest) := by
  refine (agrees_index h).bind fun n after ha => ?_
  have hi : after <:+ input := ha.trans h
  refine Agrees.mono ?_ ha
  dsimp only
  split
  · rw [Scan.bind_of_eq (eat_cons hi)]
    exact .ok _ (List.suffix_cons _ _)
  · next hn =>
    rw [Scan.bind_of_eq (eat_of_ne hi (head?_ne_of_forall hn)), if_neg Bool.false_ne_true]
    exact agrees_failHere hi rfl

theorem agrees_segments (h : rest <:+ input) :
    Agrees input base start rest (segments (before input base rest)) (readSegments rest) := by
  fun_induction readSegments rest with
  | case1 cs e he =>
    have hd : Agrees input base start cs _ _ := agrees_dotted (suffix_of_cons h)
    rw [he] at hd
    rw [Scan.loop_turn (rfl : segments = _), Scan.bind_of_eq (eat_cons h)]
    exact (hd.bind_error _).mono (List.suffix_cons _ _)
  | case2 cs s after hs ih =>
    have hd : Agrees input base start cs _ _ := agrees_dotted (suffix_of_cons h)
    rw [hs] at hd
    rw [Scan.loop_turn (rfl : segments = _), Scan.bind_of_eq (eat_cons h)]
    refine (hd.bind_ok fun ha => Agrees.mono ?_ ha).mono (List.suffix_cons _ _)
    exact (Agrees.onward h List.suffix_rfl ha (ih (ha.trans (suffix_of_cons h)))).bind
      fun _ _ hss => .ok _ hss
  | case3 cs e he =>
    have hd : Agrees input base start cs _ _ := agrees_bracketed (suffix_of_cons h)
    rw [he] at hd
    rw [Scan.loop_turn (rfl : segments = _), Scan.bind_of_eq (eat_of_ne h (by simp)),
      if_neg Bool.false_ne_true, Scan.bind_of_eq (eat_cons h)]
    exact (hd.bind_error _).mono (List.suffix_cons _ _)
  | case4 cs s after hs ih =>
    have hd : Agrees input base start cs _ _ := agrees_bracketed (suffix_of_cons h)
    rw [hs] at hd
    rw [Scan.loop_turn (rfl : segments = _), Scan.bind_of_eq (eat_of_ne h (by simp)),
      if_neg Bool.false_ne_true, Scan.bind_of_eq (eat_cons h)]
    refine (hd.bind_ok fun ha => Agrees.mono ?_ ha).mono (List.suffix_cons _ _)
    exact (Agrees.onward h List.suffix_rfl ha (ih (ha.trans (suffix_of_cons h)))).bind
      fun _ _ hss => .ok _ hss
  | case5 cs hdot hbracket =>
    rw [Scan.loop_turn (rfl : segments = _),
      Scan.bind_of_eq (eat_of_ne h (head?_ne_of_forall hdot)), if_neg Bool.false_ne_true,
      Scan.bind_of_eq (eat_of_ne h (head?_ne_of_forall hbracket)), if_neg Bool.false_ne_true]
    exact .ok _ List.suffix_rfl

theorem agrees_path (h : rest <:+ input) :
    Agrees input base start rest (path (before input base rest)) (readPath rest) :=
  (agrees_name h).bind fun _ _ ha => Agrees.mono
    ((agrees_segments (ha.trans h)).bind fun _ _ hss => .ok _ hss) ha

/-- A quoted text that does not end is read to the end. -/
theorem quoted_before (h : rest <:+ input) {quote : Char} (hq : quote ≠ '\\') :
    quoted quote (before input base rest) =
      match readQuoted? quote rest with
      | some (s, after) => pure (some s, before input base after)
      | none => pure (none, before input base []) := by
  fun_induction readQuoted? quote rest with
  | case1 =>
    rw [Scan.loop_turn (rfl : quoted quote = _), Scan.bind_of_eq (bump_nil h)]
    rfl
  | case2 c cs ih =>
    have hc := suffix_of_cons h
    have hrest := (onward_before h List.suffix_rfl (List.suffix_cons c cs) (quoted quote)).trans
      (ih (suffix_of_cons hc))
    rw [Scan.loop_turn (rfl : quoted quote = _), Scan.bind_of_eq (bump_cons h)]
    dsimp only
    rw [if_pos rfl, Scan.bind_of_eq (bump_cons hc)]
    cases hr : readQuoted? quote cs with
    | none =>
      rw [hr] at hrest
      exact Scan.bind_of_eq hrest
    | some found =>
      rw [hr] at hrest
      exact Scan.bind_of_eq hrest
  | case3 cs hn =>
    rw [Scan.loop_turn (rfl : quoted quote = _), Scan.bind_of_eq (bump_cons h)]
    dsimp only
    rw [if_neg hq, if_pos rfl]
    rfl
  | case4 c cs hn hc ih =>
    have hrest := (onward_before h List.suffix_rfl List.suffix_rfl (quoted quote)).trans
      (ih (suffix_of_cons h))
    rw [Scan.loop_turn (rfl : quoted quote = _), Scan.bind_of_eq (bump_cons h)]
    dsimp only
    by_cases hb : c = '\\'
    · -- a backslash with nothing after it
      have hnil : cs = [] := by
        cases cs with
        | nil => rfl
        | cons c' cs => exact (hn c' cs hb rfl).elim
      subst hnil
      rw [if_pos hb, Scan.bind_of_eq (bump_nil (suffix_of_cons h))]
      rfl
    · rw [if_neg hb, if_neg hc]
      cases hr : readQuoted? quote cs with
      | none =>
        rw [hr] at hrest
        exact Scan.bind_of_eq hrest
      | some found =>
        rw [hr] at hrest
        exact Scan.bind_of_eq hrest

end Cursor

end Proforma
