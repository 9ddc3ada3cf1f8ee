import Proforma.Proofs.Numerals

/-!
Amounts that are read from numbers. Integers are read exactly, and a double is read as its shortest
decimal; those compare with the bounds of amounts as the doubles themselves do. So a number is out
of range if it is too great, and also if it is tiny.
-/
namespace Proforma

namespace Double

open Decimal

theorem writeFinite_eq {m : ℕ} (hm : m ≠ 0) (e : ℤ) :
    jsonForm.writeFinite m e = (shortest .even m e).text := by
  rw [Form.writeFinite, if_neg hm]
  rfl

section Thresholds

variable {m : ℕ} {e : ℤ}

theorem shortest_digits_pos (hm : 0 < m) (h : m < 2 ^ 53) : 0 < (shortest .even m e).digits := by
  obtain ⟨hlow, -, -⟩ := shortest_bounds .even (e := e) hm h
  have hpos := (lower_pos hm e).trans_le hlow
  rw [Decimals.value] at hpos
  exact_mod_cast pos_of_mul_pos_left hpos (by positivity)

/-- The double nearest to `1e-28`. -/
def leastDouble : ℚ := dyadic 8920298079412249 (-146)

theorem shortest_lt_least_iff (hm : 0 < m) (h : WellFormed m e) :
    (shortest .even m e).value < 1 / 10 ^ 28 ↔ dyadic m e < leastDouble := by
  have hshortest : shortest .even 8920298079412249 (-146) = ⟨1, -28⟩ := by decide +kernel
  refine shortest_lt_iff hm h (by decide) ?_ ?_ ?_
  · rw [hshortest, Decimals.value]
    norm_num
  · rw [lower, if_neg (by decide)]
    norm_num
  · rw [upper]
    norm_num

example : ofDecimal false 1 (-28) = .finite false 8920298079412249 (-146) := by decide +kernel

/-- The double nearest to `0.005`. -/
def halfCentDouble : ℚ := dyadic 5764607523034235 (-60)

theorem shortest_lt_halfCent_iff (hm : 0 < m) (h : WellFormed m e) :
    (shortest .even m e).value < 1 / 200 ↔ dyadic m e < halfCentDouble := by
  have hshortest : shortest .even 5764607523034235 (-60) = ⟨5, -3⟩ := by decide +kernel
  refine shortest_lt_iff hm h (by decide) ?_ ?_ ?_
  · rw [hshortest, Decimals.value]
    norm_num
  · rw [lower, if_neg (by decide)]
    norm_num
  · rw [upper]
    norm_num

example : ofDecimal false 5 (-3) = .finite false 5764607523034235 (-60) := by decide +kernel

/-- The greatest amount is between two doubles, and on the same sides of their decimals. -/
theorem greatest_lt_shortest_iff (hm : 0 < m) (h : WellFormed m e) :
    greatest < (shortest .even m e).value ↔ greatest < dyadic m e := by
  have hg := greatest_eq
  have hshortest : shortest .even (2 ^ 52) 44 = ⟨7922816251426434, 13⟩ := by decide +kernel
  -- `2 ^ 96`, the least double above the greatest amount
  have hnext : WellFormed (2 ^ 52) 44 := by decide
  have hlower : lower (2 ^ 52) 44 ≤ greatest := by
    rw [lower, if_pos (by decide), hg]
    norm_num
  have hdyadic : (greatest : ℚ) < dyadic (2 ^ 52) 44 := by
    rw [dyadic, hg]
    norm_num
  have hbelow : dyadic m e < dyadic (2 ^ 52) 44 →
      (shortest .even m e).value ≤ greatest ∧ dyadic m e ≤ greatest := by
    intro hlt
    obtain ⟨-, hupper, -⟩ := shortest_bounds .even (e := e) hm h.lt
    have hle := (upper_le_lower h hnext hlt).trans hlower
    exact ⟨hupper.trans hle, (dyadic_lt_upper m e).le.trans hle⟩
  have habove : ¬ dyadic m e < dyadic (2 ^ 52) 44 → greatest < (shortest .even m e).value := by
    intro hge
    have hvalue : (Decimals.mk 7922816251426434 13).value ≤ (shortest .even m e).value := by
      refine not_lt.mp fun hlt => hge ((shortest_lt_iff hm h hnext (hshortest ▸ rfl) ?_ ?_).mp hlt)
      · rw [lower, if_pos (by decide), Decimals.value]
        norm_num
      · rw [upper, Decimals.value]
        norm_num
    refine lt_of_lt_of_le ?_ hvalue
    rw [Decimals.value, hg]
    norm_num
  by_cases hlt : dyadic m e < dyadic (2 ^ 52) 44
  · obtain ⟨hs, hd⟩ := hbelow hlt
    exact ⟨fun h => absurd h (not_lt.mpr hs), fun h => absurd h (not_lt.mpr hd)⟩
  · exact ⟨fun _ => hdyadic.trans_le (not_lt.mp hlt), fun _ => habove hlt⟩

end Thresholds

end Double

open Decimal Double

theorem nearest_two_eq_zero_iff {x : ℚ} (h : 0 ≤ x) : nearest 2 x = 0 ↔ x < 1 / 200 := by
  rw [nearest, div_eq_zero_iff, or_iff_left (by positivity), Int.cast_eq_zero,
    Int.floor_eq_zero_iff, Set.mem_Ico]
  constructor
  · intro hx
    linarith [hx.2]
  · intro hx
    constructor <;> linarith

theorem halfAway_two_eq_zero_iff (x : ℚ) : halfAway 2 x = 0 ↔ |x| < 1 / 200 := by
  rw [← abs_eq_zero, abs_halfAway, nearest_two_eq_zero_iff (abs_nonneg x)]

namespace Number

def value : Number → ℚ
  | integer n => n
  | real (.finite negative m e) => if negative then -dyadic m e else dyadic m e
  | real _ => 0

/-- Zero, or neither less than the double nearest to `1e-28` nor greater than the greatest
amount. -/
def InRange (n : Number) : Prop :=
  n.value = 0 ∨ leastDouble ≤ |n.value| ∧ |n.value| ≤ greatest

theorem toList_text_integer (n : ℤ) :
    (integer n).text.toList = signed (n < 0) (Nat.toDigits 10 n.natAbs) := by
  rw [text, Int.toString_eq_repr, Int.repr_eq_if, signed]
  split
  · next hn =>
    rw [if_neg (by simpa using hn), Nat.toList_repr, show n.natAbs = n.toNat by omega]
  · next hn =>
    rw [if_pos (by simpa using hn), String.toList_append, Nat.toList_repr,
      show n.natAbs = (-n).toNat by omega]
    rfl

/-- The digits of an integer behind its sign stand for the integer. -/
theorem value_ofText_integer (n : ℤ) :
    (ofText (signed (n < 0) (Nat.toDigits 10 n.natAbs))).value = n := by
  have hdigits : ∀ c ∈ Nat.toDigits 10 n.natAbs, c.isDigit = true := isDigit_toDigits
  have hcast : (n.natAbs : ℚ) = |(n : ℚ)| := by rw [Nat.cast_natAbs, Int.cast_abs]
  rw [ofText_signed (isPlain_digits hdigits Nat.toDigits_ne_nil), digitsOf_eq_self hdigits,
    digitsValue_toDigits, fractionOf_digits hdigits, Decimals.value_mk, hcast, List.length_nil,
    pow_zero, div_one]
  by_cases hn : n < 0
  · rw [if_pos (by simpa using hn), abs_of_neg (by exact_mod_cast hn), neg_neg]
  · rw [if_neg (by simpa using hn), abs_of_nonneg (by exact_mod_cast not_lt.mp hn)]

theorem statedValue_integer (n : ℤ) : statedValue (integer n).text.toList = n := by
  rw [toList_text_integer, statedValue_plain (isPlain_digits isDigit_toDigits Nat.toDigits_ne_nil),
    value_ofText_integer]

theorem toList_text_real (negative : Bool) (m : ℕ) (e : ℤ) :
    (real (.finite negative m e)).text.toList = signed negative (jsonForm.writeFinite m e) := by
  cases negative <;> simp [text, Form.write, signed]

/-- What the text of a number stands for and how it is read: as an amount that is the same to two
places, exactly for the numbers in range. -/
structure Readable (n : Number) : Prop where
  some_of_inRange : n.InRange → ∃ amount, Decimal.read? n.text.toList = some amount ∧
    halfAway 2 amount.value = halfAway 2 (statedValue n.text.toList)
  none_of_not_inRange : ¬ n.InRange → Decimal.read? n.text.toList = none
  zero_iff : halfAway 2 (statedValue n.text.toList) = 0 ↔ |n.value| < halfCentDouble

/-- A plain text that is read exactly. -/
theorem readable_of_plain {n : Number} {cs : List Char} {negative : Bool}
    (htext : n.text.toList = signed negative cs) (h : IsPlain cs)
    (hm : digitsValue (digitsOf cs) ≤ greatest) (hs : (fractionOf cs).length < greatestScale)
    (hin : n.InRange) (hvalue : (ofText (signed negative cs)).value = n.value)
    (hzero : |n.value| < 1 / 200 ↔ |n.value| < halfCentDouble) : n.Readable := by
  have hstated := statedValue_plain h negative
  have hread := readPlain?_signed h negative hm hs
  rw [← htext] at hstated hread hvalue
  refine ⟨fun _ => ⟨ofText n.text.toList, ?_, by rw [hstated]⟩, fun hout => absurd hin hout, ?_⟩
  · rw [Decimal.read?, hread]
    rfl
  · rw [halfAway_two_eq_zero_iff, hstated, hvalue, hzero]

theorem readable_integer {n : ℤ} (h : -2 ^ 63 ≤ n ∧ n < 2 ^ 64) : (integer n).Readable := by
  have hg := greatest_eq
  have hdigits : ∀ c ∈ Nat.toDigits 10 n.natAbs, c.isDigit = true := isDigit_toDigits
  have hplain := isPlain_digits hdigits Nat.toDigits_ne_nil
  have habs : |(integer n).value| = n.natAbs := by
    rw [value, Nat.cast_natAbs, Int.cast_abs]
  have hsmall : leastDouble ≤ 1 ∧ halfCentDouble ≤ 1 := by
    unfold leastDouble halfCentDouble dyadic
    norm_num
  have hcases : n = 0 ∨ (1 : ℚ) ≤ n.natAbs := by
    rcases eq_or_ne n 0 with h0 | h0
    · exact .inl h0
    · exact .inr (by exact_mod_cast Int.natAbs_pos.mpr h0)
  refine readable_of_plain (toList_text_integer n) hplain ?_ ?_ ?_ ?_ ?_
  · rw [digitsOf_eq_self hdigits, digitsValue_toDigits]
    omega
  · rw [fractionOf_digits hdigits]
    decide
  · rcases hcases with rfl | hone
    · exact .inl rfl
    · refine .inr ⟨habs ▸ hsmall.1.trans hone, ?_⟩
      rw [habs]
      exact_mod_cast (show n.natAbs ≤ greatest by omega)
  · exact value_ofText_integer n
  · rw [habs]
    rcases hcases with rfl | hone
    · unfold halfCentDouble dyadic
      norm_num
    · constructor <;> intro hlt <;> linarith [hsmall.2]

theorem readable_zero (negative : Bool) : (real (.finite negative 0 leastExponent)).Readable := by
  have hvalue : (real (.finite negative 0 leastExponent)).value = 0 := by
    cases negative <;> simp [value, dyadic]
  have htext : (real (.finite negative 0 leastExponent)).text.toList =
      signed negative ['0', '.', '0'] := toList_text_real negative 0 leastExponent
  have hof : ofText (signed negative ['0', '.', '0']) = ⟨negative, 0, 1⟩ := by
    cases negative <;> decide
  have hdigit : ∀ c ∈ ['0'], c.isDigit = true := List.forall_mem_singleton.mpr rfl
  have hplain : IsPlain ['0', '.', '0'] := isPlain_pointed hdigit hdigit (List.cons_ne_nil _ _)
  refine readable_of_plain htext hplain (by decide) (by decide) (.inl hvalue) ?_ ?_
  · rw [hof, hvalue, Decimals.value_mk]
    simp
  · rw [hvalue]
    unfold halfCentDouble dyadic
    norm_num

theorem readable_real (negative : Bool) {m : ℕ} {e : ℤ} (hm : 0 < m) (h : WellFormed m e) :
    (real (.finite negative m e)).Readable := by
  have hdigits := shortest_digits_pos (e := e) hm h.lt
  obtain ⟨-, -, hsize⟩ := shortest_bounds .even (e := e) hm h.lt
  obtain ⟨hstated, hsome, hnone⟩ := Decimals.read?_text hdigits hsize negative
  rw [← writeFinite_eq hm.ne', ← toList_text_real] at hstated hsome hnone
  rw [← hstated] at hsome
  have hpos : 0 < dyadic m e := by
    unfold dyadic
    positivity
  have hvalue : |(real (.finite negative m e)).value| = dyadic m e := by
    cases negative with
    | true => exact (abs_neg _).trans (abs_of_pos hpos)
    | false => exact abs_of_pos hpos
  have hrange : (real (.finite negative m e)).InRange ↔
      1 / 10 ^ 28 ≤ (shortest .even m e).value ∧ (shortest .even m e).value ≤ greatest := by
    have hne : (real (.finite negative m e)).value ≠ 0 := by
      rw [← abs_ne_zero, hvalue]
      exact hpos.ne'
    rw [InRange, or_iff_right hne, hvalue, ← not_lt, ← not_lt, ← shortest_lt_least_iff hm h,
      ← greatest_lt_shortest_iff hm h, not_lt, not_lt]
  refine ⟨fun hin => ?_, fun hout => ?_, ?_⟩
  · obtain ⟨hlow, hhigh⟩ := hrange.mp hin
    exact hsome hlow hhigh
  · rw [hrange, not_and_or, not_le, not_le] at hout
    exact hnone hout
  · rw [halfAway_two_eq_zero_iff, hstated, Decimals.abs_signedValue, hvalue,
      shortest_lt_halfCent_iff hm h]

theorem Valid.readable {n : Number} (h : n.Valid) : n.Readable := by
  match n, h with
  | .integer _, h => exact readable_integer h
  | .real (.finite negative m e), h =>
    rcases Nat.eq_zero_or_pos m with rfl | hm
    · have he : e = leastExponent := h.normal.resolve_left (by decide)
      exact he ▸ readable_zero negative
    · exact readable_real negative hm h

end Number

/-- A number of JSON text that is in range is written as the amount that its own text stands for,
rounded once to two places, and as zero exactly if it is less than half a cent. All other numbers,
the tiny ones as well as the great ones, are rejected as out of range. -/
theorem currency_number {cs rest : List Char} {n : Number}
    (h : Json.readNumber? cs = some (n, rest))
    (hfinite : ∀ negative, n ≠ .real (.infinite negative)) (format : Format)
    (args : List Literal) :
    (n.InRange → ∃ f : Figure, Filter.currency.apply format args (some (.scalar (.number n))) =
        .ok (some (.text (f.render ((firstText? args).getD format.currency)))) ∧ f.Proper ∧
      f.value = halfAway 2 (statedValue n.text.toList) ∧
      (f.value = 0 ↔ |n.value| < halfCentDouble)) ∧
    (¬ n.InRange → Filter.currency.apply format args (some (.scalar (.number n))) =
      .error ⟨.currency, .outOfRange n.text⟩) := by
  have hvalid : n.Valid := (Json.valid_of_readNumber? h).resolve_right fun ⟨negative, hn⟩ =>
    hfinite negative hn
  obtain ⟨hsome, hnone, hzero⟩ := hvalid.readable
  rw [Filter.currency_apply format args rfl, amountOf]
  constructor
  · intro hin
    obtain ⟨amount, hread, hamount⟩ := hsome hin
    obtain ⟨f, hf, hproper, hvalue, -⟩ :=
      amount.exists_figure ((firstText? args).getD format.currency)
    rw [hamount] at hvalue
    rw [hread]
    refine ⟨f, ?_, hproper, hvalue, hvalue ▸ hzero⟩
    exact congrArg (fun t => Except.ok (some (Value.text t))) hf
  · intro hout
    rw [hnone hout]

/-- A residue of `5e-30` is rejected, though less than half a cent. -/
theorem currency_number_residue : ∃ n : Number,
    Json.readNumber? "5e-30".toList = some (n, []) ∧ 0 < n.value ∧ n.value < 1 / 200 ∧
    Filter.currency.apply .standard [] (some (.scalar (.number n))) =
      .error ⟨.currency, .outOfRange "5e-30"⟩ := by
  let n := Number.real (.finite false 7136238463529799 (-150))
  have hread : Json.readNumber? "5e-30".toList = some (n, []) := by decide +kernel
  have htext : n.text = "5e-30" := by decide +kernel
  have hvalue : n.value = 7136238463529799 / 2 ^ 150 := by
    show dyadic _ _ = _
    norm_num [dyadic]
  have hout : ¬ n.InRange := by
    rintro (hzero | ⟨hleast, -⟩)
    · rw [hvalue] at hzero
      norm_num at hzero
    · rw [hvalue, leastDouble, dyadic, abs_of_pos (by norm_num)] at hleast
      norm_num at hleast
  have hfinite : ∀ negative, n ≠ .real (.infinite negative) := fun _ h =>
    Double.noConfusion (Number.real.inj h)
  obtain ⟨-, hrejected⟩ := currency_number hread hfinite .standard []
  refine ⟨n, hread, ?_, ?_, htext ▸ hrejected hout⟩
  · rw [hvalue]
    norm_num
  · rw [hvalue]
    norm_num

end Proforma
