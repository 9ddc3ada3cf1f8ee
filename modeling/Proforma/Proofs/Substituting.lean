import Proforma.Proofs.Numbers

/-!
What stands in for a missing value. A `default` shows its literal: a text as it is, and a number in
digits that state it. With what pipelines do to a missing value, this says what is rendered where a
path leads nowhere.
-/
namespace Proforma

open Decimal Double

namespace Double

/-- The integer that a double is equal to is its value. -/
theorem toInt?_eq_some_iff {negative : Bool} {m : ℕ} {e n : ℤ} :
    (finite negative m e).toInt? = some n ↔ (Number.real (.finite negative m e)).value = n := by
  obtain ⟨hden, -⟩ := quotient_pos m e
  have hq := quotient_eq m e
  rw [toInt?, Number.value]
  generalize quotient m e = q at hden hq ⊢
  obtain ⟨num, den⟩ := q
  have hne : (den : ℚ) ≠ 0 := by exact_mod_cast hden.ne'
  dsimp only at hden hq ⊢
  by_cases hd : den ∣ num
  · obtain ⟨k, rfl⟩ := hd
    have hk : dyadic m e = k := by
      rw [Nat.cast_mul, mul_comm] at hq
      exact (mul_right_cancel₀ hne hq).symm
    rw [if_pos (Nat.mul_mod_right _ _), Nat.mul_div_cancel_left k hden, hk, Option.some.injEq]
    cases negative with
    | true =>
      rw [if_pos rfl, if_pos rfl]
      norm_cast
    | false =>
      rw [if_neg Bool.false_ne_true, if_neg Bool.false_ne_true]
      norm_cast
  · rw [if_neg fun h => hd (Nat.dvd_of_mod_eq_zero h)]
    refine iff_of_false (by simp) fun hn => hd ⟨n.natAbs, ?_⟩
    have habs : dyadic m e = n.natAbs := by
      have hnonneg : 0 ≤ dyadic m e := by
        unfold dyadic
        positivity
      rw [Nat.cast_natAbs, Int.cast_abs, ← hn]
      split
      · rw [abs_neg, abs_of_nonneg hnonneg]
      · rw [abs_of_nonneg hnonneg]
    rw [habs, mul_comm] at hq
    exact_mod_cast hq

/-- A finite double is equal to an integer, of less than 64 bits without its sign. -/
structure IsWhole (negative : Bool) (m : ℕ) (e n : ℤ) : Prop where
  value_eq : (Number.real (.finite negative m e)).value = n
  lt : n.natAbs < 2 ^ 63

theorem IsWhole.eq {negative : Bool} {m : ℕ} {e n n' : ℤ} (h : IsWhole negative m e n)
    (h' : (Number.real (.finite negative m e)).value = n') : n = n' := by
  exact_mod_cast h.value_eq.symm.trans h'

theorem isWhole_zero (negative : Bool) (e : ℤ) : IsWhole negative 0 e 0 where
  value_eq := by cases negative <;> simp [Number.value, dyadic]
  lt := by decide

/-- The number that a text states lies between the half ways to the neighbours of a double, so that
it is rounded to the double. -/
def StatedBy (x : Double) (text : String) : Prop :=
  ∀ negative m e, x = .finite negative m e → WellFormed m e → ∃ r, lower m e ≤ r ∧ r ≤ upper m e ∧
    statedValue text.toList = if negative then -r else r

end Double

/-- The text that a literal stands for. A text is itself; a whole number is an integer, where one of
64 bits can hold it; and any other number is its shortest decimal, in the layout of JSON text. -/
inductive Literal.Shows : Literal → String → Prop where
  | text (s : String) : Shows (.text s) s
  | whole {negative : Bool} {m : ℕ} {e n : ℤ} (h : IsWhole negative m e n) :
    Shows (.number (.finite negative m e)) (toString n)
  | decimal {negative : Bool} {m : ℕ} {e : ℤ} (h : ∀ n, ¬ IsWhole negative m e n) :
    Shows (.number (.finite negative m e))
      (String.ofList (signed negative (shortest .even m e).text))
  | infinite (negative : Bool) :
    Shows (.number (.infinite negative)) (if negative then "-inf" else "inf")
  | nan : Shows (.number .nan) "NaN"

namespace Literal

theorem Shows.unique {lit : Literal} {t t' : String} (h : lit.Shows t) (h' : lit.Shows t') :
    t = t' := by
  cases h with
  | text | infinite | nan =>
    cases h'
    rfl
  | whole h =>
    cases h' with
    | whole h' => rw [h.eq h'.value_eq]
    | decimal hnone => exact (hnone _ h).elim
  | decimal hnone =>
    cases h' with
    | whole h => exact (hnone _ h).elim
    | decimal => rfl

section NotWhole

variable {negative : Bool} {m : ℕ} {e : ℤ} (h : ∀ n, ¬ IsWhole negative m e n)
include h

theorem ne_zero_of_not_isWhole : m ≠ 0 := by
  rintro rfl
  exact h 0 (isWhole_zero negative e)

theorem shows_text_real :
    Shows (.number (.finite negative m e)) (Number.real (.finite negative m e)).text := by
  have htext := Number.toList_text_real negative m e
  rw [writeFinite_eq (ne_zero_of_not_isWhole h)] at htext
  rw [← String.ofList_toList (s := Number.text _), htext]
  exact .decimal h

end NotWhole

/-- What a literal is rendered as. -/
theorem exists_shows (lit : Literal) : ∃ sc : Scalar, lit.value = .scalar sc ∧
    lit.Shows sc.render := by
  cases lit with
  | text s => exact ⟨_, rfl, .text s⟩
  | number x =>
    cases x with
    | nan => exact ⟨.text "NaN", rfl, .nan⟩
    | infinite negative =>
      exact ⟨.text (if negative then "-inf" else "inf"), rfl, .infinite negative⟩
    | finite negative m e =>
      cases hi : (Double.finite negative m e).toInt? with
      | none =>
        refine ⟨.number (.real (.finite negative m e)), ?_, shows_text_real fun n hn => ?_⟩
        · simp only [value, Number.ofDouble?, hi, Double.isFinite, if_true]
        · rw [toInt?_eq_some_iff.mpr hn.value_eq] at hi
          cases hi
      | some n =>
        have hn := toInt?_eq_some_iff.mp hi
        by_cases hsize : n.natAbs < 2 ^ 63
        · refine ⟨.number (.integer n), ?_, .whole ⟨hn, hsize⟩⟩
          simp only [value, Number.ofDouble?, hi, Nat.pow_eq, if_pos hsize]
        · -- an integer that is too long stays a double
          refine ⟨.number (.real (.finite negative m e)), ?_, shows_text_real fun n' hn' => ?_⟩
          · simp only [value, Number.ofDouble?, hi, Nat.pow_eq, if_neg hsize]
          · exact hsize (hn'.eq hn ▸ hn'.lt)

/-- A number is shown as a text that states it. -/
theorem Shows.statedBy {x : Double} {t : String} (h : Shows (.number x) t) : x.StatedBy t := by
  rintro negative m e rfl hw
  cases h with
  | @whole _ _ _ n h =>
    refine ⟨dyadic m e, lower_le_dyadic m e, (dyadic_lt_upper m e).le, ?_⟩
    exact (Number.statedValue_integer n).trans h.value_eq.symm
  | decimal h =>
    have hm := Nat.pos_of_ne_zero (ne_zero_of_not_isWhole h)
    obtain ⟨hlow, hhigh, hsize⟩ := shortest_bounds .even (e := e) hm hw.lt
    obtain ⟨hstated, -, -⟩ := Decimals.read?_text (shortest_digits_pos hm hw.lt) hsize negative
    rw [String.toList_ofList]
    exact ⟨_, hlow, hhigh, hstated⟩

end Literal

/-- Where a path leads nowhere, a pipeline does what it does from its first `default` on, and without
one leaves the value missing. Where there is a value, the pipeline gives a value or fails with the
first filter that rejects what it is given. So an expression is reported as unresolved exactly if
its path leads nowhere and no `default` follows, and a rendering holds these reports of the
expressions it comes to and no others. A `default` behind formatters shows its literal for a missing
value and for an empty text: the text itself, or digits that state the number. -/
theorem only_default_substitutes (st : Setting) (s : Scope) (p : Path) (calls : List FilterCall) :
    (s.resolve p = none →
      evaluate st.format s p calls = applyAll st.format (fromDefault calls) none ∧
      ((∀ call ∈ calls, call.isDefault = false) → evaluate st.format s p calls = .ok none)) ∧
    (∀ v, s.resolve p = some v → (∃ w, evaluate st.format s p calls = .ok (some w)) ∨
      ∃ before call after w fault, calls = before ++ call :: after ∧
        evaluate st.format s p before = .ok (some w) ∧
        call.filter.apply st.format call.args (some w) = .error ⟨call.filter, fault⟩ ∧
        evaluate st.format s p calls = .error ⟨call.filter, fault⟩) ∧
    (∀ span, (renderExpression st s p calls span).unresolved ≠ [] ↔
      s.resolve p = none ∧ ∀ call ∈ calls, call.isDefault = false) ∧
    (∀ t, (renderNodes st s t).unresolved =
      ((Node.allReached s t).filter Reached.isUnresolved).flatMap
        fun e => st.unresolvedAt e.path e.span) ∧
    ∀ formatters lit rest span span', calls = formatters ++ [⟨.default, lit :: rest, span'⟩] →
      (∀ call ∈ formatters, call.isDefault = false) →
      s.resolve p = none ∨ s.resolve p = some (.text "") →
      ∃ t, lit.Shows t ∧ (∀ x, lit = .number x → x.StatedBy t) ∧
        renderExpression st s p calls span = .ofText t := by
  refine ⟨fun hr => ⟨?_, fun hd => evaluate_eq_none_iff.mpr ⟨hr, hd⟩⟩, fun v hr => ?_,
    fun span => ?_, unresolved_renderNodes st s, ?_⟩
  · rw [evaluate, hr]
    exact applyAll_none st.format calls
  · unfold evaluate
    rw [hr]
    exact applyAll_some st.format calls v
  · rw [unresolved_renderExpression]
    cases hu : Reached.isUnresolved ⟨s, p, calls, span⟩ with
    | true => exact iff_of_true (List.cons_ne_nil _ _) (by simpa [Reached.isUnresolved] using hu)
    | false => simpa [Reached.isUnresolved] using hu
  · rintro formatters lit rest span span' rfl hd hr
    obtain ⟨sc, hsc, hshows⟩ := lit.exists_shows
    have he : applyDefault (lit :: rest) (s.resolve p) = some lit.value := by
      rcases hr with hr | hr <;> rw [hr] <;> rfl
    have hv : evaluate st.format s p (formatters ++ [⟨.default, lit :: rest, span'⟩]) =
        .ok (some (.scalar sc)) := by
      rw [evaluate, applyAll_append, applyAll_of_formatters hd st.format hr, ok_bind,
        applyAll_cons, Filter.apply, he, hsc]
      rfl
    refine ⟨sc.render, hshows, ?_, ?_⟩
    · rintro x rfl
      exact hshows.statedBy
    · rw [renderExpression, hv]
      rfl

/-- What is paid is an empty text, the total is not a number, and there is no fee. -/
theorem only_default_substitutes_unset :
    let record : Value := .object [("Paid", .text ""), ("Total", .text "abc")]
    let s : Scope := .ofContext ⟨record, ⟨⟨2024, 6, 1⟩, .midnight, 0⟩⟩
    let st : Setting := ⟨[], .standard⟩
    let formatted : List FilterCall := [⟨.currency, [], .zero⟩, ⟨.date, [], .zero⟩]
    let calls (lit : Literal) := formatted ++ [⟨.default, [lit], .zero⟩]
    (∀ path ∈ [⟨"Fee", []⟩, ⟨"Paid", []⟩],
      renderExpression st s path (calls (.text "TBD")) .zero = .ofText "TBD" ∧
      renderExpression st s path (calls (.number (.ofDecimal false 1500 0))) .zero =
        .ofText "1500" ∧
      renderExpression st s path (calls (.number (.ofDecimal true 25 (-1)))) .zero =
        .ofText "-2.5") ∧
    (renderExpression st s ⟨"Fee", []⟩ formatted .zero).unresolved ≠ [] ∧
    ∃ call ∈ calls (.text "TBD"), ∃ fault,
      evaluate st.format s ⟨"Total", []⟩ (calls (.text "TBD")) = .error ⟨call.filter, fault⟩ := by
  intro record s st formatted calls
  have hd : ∀ call ∈ formatted, call.isDefault = false := by decide
  have hfee : s.resolve ⟨"Fee", []⟩ = none := by rfl
  have hpaid : s.resolve ⟨"Paid", []⟩ = some (.text "") := by rfl
  have htotal : s.resolve ⟨"Total", []⟩ = some (.text "abc") := by rfl
  have hrendered : ∀ path ∈ [⟨"Fee", []⟩, ⟨"Paid", []⟩], ∀ lit t, Literal.Shows lit t →
      renderExpression st s path (calls lit) .zero = .ofText t := by
    intro path hp lit t ht
    have hr : s.resolve path = none ∨ s.resolve path = some (.text "") := by
      rcases List.mem_pair.mp hp with rfl | rfl
      · exact .inl hfee
      · exact .inr hpaid
    obtain ⟨-, -, -, -, hl⟩ := only_default_substitutes st s path (calls lit)
    obtain ⟨t', ht', -, h⟩ := hl formatted lit [] .zero .zero rfl hd hr
    rw [h, ht'.unique ht]
  have hwhole : Literal.Shows (.number (.ofDecimal false 1500 0)) "1500" := by
    rw [show ofDecimal false 1500 0 = .finite false 6597069766656000 (-42) by decide +kernel]
    refine .whole (n := 1500) ⟨?_, by decide⟩
    norm_num [Number.value, dyadic]
  have hpart : Literal.Shows (.number (.ofDecimal true 25 (-1))) "-2.5" := by
    rw [show ofDecimal true 25 (-1) = .finite true 5629499534213120 (-51) by decide +kernel,
      show "-2.5" = String.ofList (signed true (shortest .even 5629499534213120 (-51)).text) by
        decide +kernel]
    refine .decimal fun n hn => ?_
    have hvalue : (Number.real (.finite true 5629499534213120 (-51))).value = -5 / 2 := by
      norm_num [Number.value, dyadic]
    have htwice : 2 * n = -5 := by
      have h : 2 * (n : ℚ) = -5 := by
        rw [← hn.value_eq, hvalue]
        norm_num
      exact_mod_cast h
    omega
  obtain ⟨-, -, hu, -⟩ := only_default_substitutes st s ⟨"Fee", []⟩ formatted
  obtain ⟨-, ht, -⟩ := only_default_substitutes st s ⟨"Total", []⟩ (calls (.text "TBD"))
  refine ⟨fun path hp => ⟨hrendered path hp _ _ (.text _), hrendered path hp _ _ hwhole,
    hrendered path hp _ _ hpart⟩, (hu .zero).mpr ⟨hfee, hd⟩, ?_⟩
  rcases ht _ htotal with ⟨w, hw⟩ | ⟨before, call, after, -, fault, hc, -, -, he⟩
  · have hbad : (evaluate st.format s ⟨"Total", []⟩ (calls (.text "TBD"))).isOk = false := by
      decide +kernel
    rw [hw] at hbad
    cases hbad
  · exact ⟨call, hc ▸ List.mem_append_right _ (List.mem_cons_self ..), fault, he⟩

end Proforma
