import Proforma.Proofs.Roundtrip

/-!
Text between quotes. Escaping keeps delimiters as they are, so a delimiter in the text is one in
the source; and a quoted text that is cut off is never read.
-/
namespace Proforma

open Text

theorem escaped_cons (quote c : Char) (cs : List Char) :
    escaped quote (c :: cs) =
      (if c = '\\' ∨ c = quote then ['\\', c] else [c]) ++ escaped quote cs := by
  simp [escaped]

theorem escaped_append (quote : Char) (cs ds : List Char) :
    escaped quote (cs ++ ds) = escaped quote cs ++ escaped quote ds := by
  simp [escaped]

/-- Escaping neither makes nor breaks a pair of other characters. -/
theorem pair_infix_escaped {quote a b : Char} (ha : a ≠ '\\' ∧ a ≠ quote)
    (hb : b ≠ '\\' ∧ b ≠ quote) (cs : List Char) :
    [a, b] <:+: escaped quote cs ↔ [a, b] <:+: cs := by
  have hcons : ∀ {x : Char} {xs : List Char}, x ≠ a → ([a, b] <:+: x :: xs ↔ [a, b] <:+: xs) := by
    intro x xs hx
    rw [List.infix_cons_iff]
    exact ⟨fun h => h.resolve_left fun hp => hx (List.cons_prefix_cons.mp hp).1.symm, .inr⟩
  have hhead : ∀ xs, [b] <+: escaped quote xs ↔ [b] <+: xs := by
    intro xs
    cases xs with
    | nil => simp [escaped]
    | cons x xs =>
      rw [escaped_cons]
      split
      · next hx =>
        have hbx : b ≠ x := by
          rintro rfl
          rcases hx with hx | hx
          · exact hb.1 hx
          · exact hb.2 hx
        simp [hbx, hb.1]
      · simp
  induction cs with
  | nil => simp [escaped]
  | cons c cs ih =>
    rw [escaped_cons]
    split
    · next hc =>
      have hac : c ≠ a := by
        rintro rfl
        rcases hc with hc | hc
        · exact ha.1 hc
        · exact ha.2 hc
      simp only [List.cons_append, List.nil_append]
      exact (hcons ha.1.symm).trans ((hcons hac).trans (ih.trans (hcons hac).symm))
    · simp only [List.cons_append, List.nil_append]
      rw [List.infix_cons_iff, List.infix_cons_iff, List.cons_prefix_cons, List.cons_prefix_cons,
        hhead]
      exact or_congr_right ih

theorem undelimited_iff {cs : List Char} : Undelimited cs ↔
    ¬ ['{', '{'] <:+: cs ∧ ¬ ['{', '%'] <:+: cs ∧ ¬ ['}', '}'] <:+: cs := by
  rw [Undelimited, unopened_iff, and_assoc]
  rfl

theorem undelimited_escaped {quote : Char} (hq : isDelimiting quote = false) (cs : List Char) :
    Undelimited (escaped quote cs) ↔ Undelimited cs := by
  have hne : ∀ c, isDelimiting c = true → c ≠ '\\' ∧ c ≠ quote := by
    intro c hc
    constructor
    · rintro rfl
      exact absurd hc (by decide)
    · rintro rfl
      simp [hq] at hc
  have ho := hne '{' (by decide)
  have hp := hne '%' (by decide)
  have hc := hne '}' (by decide)
  rw [undelimited_iff, undelimited_iff, pair_infix_escaped ho ho, pair_infix_escaped ho hp,
    pair_infix_escaped hc hc]

theorem Undelimited.of_infix {cs ds : List Char} (h : Undelimited ds) (hi : cs <:+: ds) :
    Undelimited cs :=
  ⟨fun d hd => h.1 d (hd.trans hi), fun hd => h.2 (hd.trans hi)⟩

/-- No pair of delimiting characters comes about where a harmless character stands. -/
theorem not_pair_append {a b : Char} {cs ds : List Char} (ha : isDelimiting a = true)
    (hb : isDelimiting b = true) (hc : ¬ [a, b] <:+: cs) (hd : ¬ [a, b] <:+: ds)
    (hs : (∀ c, cs.getLast? = some c → isDelimiting c = false) ∨
      ∀ c, ds.head? = some c → isDelimiting c = false) : ¬ [a, b] <:+: cs ++ ds := by
  intro hi
  rcases pair_infix_append.mp hi with hi | ⟨hl, hh⟩ | hi
  · exact hc hi
  · rcases hs with hs | hs
    · simp [hs a hl] at ha
    · simp [hs b hh] at hb
  · exact hd hi

theorem Undelimited.append {cs ds : List Char} (h : Undelimited cs) (h' : Undelimited ds)
    (hs : (∀ c, cs.getLast? = some c → isDelimiting c = false) ∨
      ∀ c, ds.head? = some c → isDelimiting c = false) : Undelimited (cs ++ ds) := by
  rw [undelimited_iff] at h h' ⊢
  exact ⟨not_pair_append (by decide) (by decide) h.1 h'.1 hs,
    not_pair_append (by decide) (by decide) h.2.1 h'.2.1 hs,
    not_pair_append (by decide) (by decide) h.2.2 h'.2.2 hs⟩

theorem Clear.last {cs : List Char} (h : Clear cs) :
    ∀ c, cs.getLast? = some c → isDelimiting c = false :=
  fun c hc => h c (List.mem_of_getLast? hc)

theorem isDelimiting_head? {c : Char} (h : isDelimiting c = false) (cs : List Char) :
    ∀ d, (c :: cs).head? = some d → isDelimiting d = false := by
  intro d hd
  obtain rfl := Option.some.inj hd
  exact h

theorem readQuoted?_unclosed (quote : Char) (cs : List Char) :
    readQuoted? quote (escaped quote cs) = none := by
  induction cs with
  | nil => rfl
  | cons c cs ih =>
    rw [escaped_cons]
    split
    · simp only [List.cons_append, List.nil_append]
      rw [readQuoted?, ih]
      rfl
    · next hc =>
      simp only [not_or] at hc
      rw [List.cons_append, List.nil_append,
        readQuoted?.eq_3 _ _ _ fun c' cs he _ => hc.1 he, if_neg hc.2, ih]
      rfl

/-- A call that is read has arguments that its filter accepts. -/
theorem arguments_of_readCall {stop : Nat} {f : Filter} {after : List Char}
    {r : FilterCall × List Char} (hs : Stops continuesIdentifier after)
    (h : readCall stop (f.name.toList ++ after) = .ok r) :
    ∃ as rest, readCallArguments after = .ok (as, rest) ∧ f.checkArguments as = .ok () := by
  have hname : Filter.ofName? (String.ofList f.name.toList) = some f := by
    rw [String.ofList_toList, Filter.ofName?_name]
  unfold readCall at h
  simp only [readIdentifier?_append (isIdentifier_name f) hs, hname] at h
  cases ha : readCallArguments after with
  | error e => simp [ha, bind, Except.bind] at h
  | ok found =>
    obtain ⟨as, rest⟩ := found
    refine ⟨as, rest, rfl, ?_⟩
    simp only [ha, ok_bind] at h
    split at h
    · split at h
      · assumption
      · simp [misread] at h
    · simp [misread] at h

/-- An expression that applies a filter to its path is read with arguments that the filter
accepts. -/
theorem arguments_of_readExpression {p : Path} {cs after : List Char} {f : Filter}
    {r : Path × List FilterCall} (h : p.Written cs) (hp : p.WellFormed)
    (hs : Stops continuesIdentifier after)
    (hr : readExpression 0 (' ' :: (cs ++ (" | ".toList ++ (f.name.toList ++ after)))) = .ok r) :
    ∃ as rest, readCallArguments after = .ok (as, rest) ∧ f.checkArguments as = .ok () := by
  have hg : allBlank [' '] = true := rfl
  have hskip : skipBlanks (' ' :: (cs ++ (" | ".toList ++ (f.name.toList ++ after)))) =
      cs ++ (" | ".toList ++ (f.name.toList ++ after)) := by
    rw [← List.singleton_append, skipBlanks_append hg]
    exact skipBlanks_of_stops (stops_isBlank_of_path h hp _)
  have hpath : readPath (cs ++ (" | ".toList ++ (f.name.toList ++ after))) =
      .ok (p, " | ".toList ++ (f.name.toList ++ after)) :=
    readPath_append h hp (stops_cons.mpr (by decide))
  have hbar : skipBlanks (" | ".toList ++ (f.name.toList ++ after)) =
      '|' :: ([' '] ++ (f.name.toList ++ after)) := rfl
  have hcall : skipBlanks ([' '] ++ (f.name.toList ++ after)) = f.name.toList ++ after :=
    skipBlanks_identifier hg (isIdentifier_name f) after
  obtain ⟨c, ds, rfl⟩ := h.eq_cons hp
  unfold readExpression at hr
  rw [hskip] at hr
  simp only [List.cons_append] at hpath hr
  simp only [hpath, ok_bind, readPipeline_of_bar 0 hbar, hcall] at hr
  cases hc : readCall 0 (f.name.toList ++ after) with
  | error e => simp [hc, bind, Except.bind] at hr
  | ok found => exact arguments_of_readCall hs hc

theorem readArguments_unclosed (cs : List Char) :
    ∃ e, readArguments ('\x27' :: escaped '\x27' cs) = .error e := by
  have hskip : skipBlanks ('\x27' :: escaped '\x27' cs) = '\x27' :: escaped '\x27' cs :=
    skipBlanks_of_stops (stops_cons.mpr (by decide))
  have hq : isQuote '\x27' = true := rfl
  have hread : readLiteral ('\x27' :: escaped '\x27' cs) =
      misread .unterminatedText ('\x27' :: escaped '\x27' cs) := by
    unfold readLiteral
    simp only [hq, if_true, readQuoted?_unclosed]
  rw [readArguments, hskip]
  split
  · exact ⟨_, rfl⟩
  · next he => simp [hread, misread] at he

theorem readCallArguments_unclosed (cs : List Char) :
    ∃ e, readCallArguments ('(' :: '\x27' :: escaped '\x27' cs) = .error e := by
  have h₁ : skipBlanks ('(' :: '\x27' :: escaped '\x27' cs) = '(' :: '\x27' :: escaped '\x27' cs :=
    skipBlanks_of_stops (stops_cons.mpr (by decide))
  have h₂ : skipBlanks ('\x27' :: escaped '\x27' cs) = '\x27' :: escaped '\x27' cs :=
    skipBlanks_of_stops (stops_cons.mpr (by decide))
  unfold readCallArguments
  simp only [h₁, h₂]
  exact readArguments_unclosed cs

end Proforma
