import Mathlib.Algebra.Order.Field.Power
import Mathlib.Tactic
import Proforma.Json.Reader

/-!
Finite doubles as rational numbers. A double that a rounded operation gives, and so one that JSON
text is read as, has a mantissa of at most 53 bits that is only short where the exponent is the
least one; doubles of this form are ordered by their exponents first, and each rounds numbers of an
interval of its own.
-/
namespace Proforma

namespace Double

section Scaling

variable {b : ℕ}

/-- A factor that is a power with an integer exponent, moved to the side where it is whole. -/
theorem scaled_le_iff (hb : 0 < b) (k : ℤ) (x y : ℕ) :
    (if 0 ≤ k then x * b ^ k.toNat ≤ y else x ≤ y * b ^ (-k).toNat) ↔ (x : ℚ) * b ^ k ≤ y := by
  have hb' : (0 : ℚ) < b := by exact_mod_cast hb
  split
  · next hk =>
    obtain ⟨n, rfl⟩ := Int.eq_ofNat_of_zero_le hk
    rw [Int.toNat_natCast, zpow_natCast]
    exact_mod_cast Iff.rfl
  · next hk =>
    obtain ⟨n, hn⟩ := Int.eq_ofNat_of_zero_le (show 0 ≤ -k by omega)
    rw [show k = -(n : ℤ) by omega, neg_neg, Int.toNat_natCast, zpow_neg, zpow_natCast,
      ← div_eq_mul_inv, div_le_iff₀ (by positivity)]
    exact_mod_cast Iff.rfl

/-- The order of magnitude of a quotient, from those of its parts. -/
theorem quotient_order (hb : 0 < b) {num den i j : ℕ} (hnum : b ^ i ≤ num ∧ num < b ^ (i + 1))
    (hden : b ^ j ≤ den ∧ den < b ^ (j + 1)) :
    (den : ℚ) * b ^ ((i : ℤ) - j - 1) ≤ num ∧ (num : ℚ) < den * b ^ ((i : ℤ) - j + 1) := by
  have hb' : (b : ℚ) ≠ 0 := by exact_mod_cast hb.ne'
  have hnum₁ : (b : ℚ) ^ i ≤ num := by exact_mod_cast hnum.1
  have hnum₂ : (num : ℚ) < b ^ (i + 1) := by exact_mod_cast hnum.2
  have hden₁ : (b : ℚ) ^ j ≤ den := by exact_mod_cast hden.1
  have hden₂ : (den : ℚ) < b ^ (j + 1) := by exact_mod_cast hden.2
  constructor
  · calc (den : ℚ) * b ^ ((i : ℤ) - j - 1) ≤ b ^ (j + 1) * b ^ ((i : ℤ) - j - 1) := by gcongr
      _ = b ^ i := by
        rw [← zpow_natCast, ← zpow_natCast, ← zpow_add₀ hb']
        congr 1
        push_cast
        ring
      _ ≤ num := hnum₁
  · calc (num : ℚ) < b ^ (i + 1) := hnum₂
      _ = b ^ j * b ^ ((i : ℤ) - j + 1) := by
        rw [← zpow_natCast, ← zpow_natCast, ← zpow_add₀ hb']
        congr 1
        push_cast
        ring
      _ ≤ den * b ^ ((i : ℤ) - j + 1) := by gcongr

end Scaling

theorem binaryOrder_bounds {num den : ℕ} (hn : num ≠ 0) (hd : den ≠ 0) :
    (den : ℚ) * 2 ^ binaryOrder num den ≤ num ∧
      (num : ℚ) < den * 2 ^ (binaryOrder num den + 1) := by
  obtain ⟨hlow, hhigh⟩ := quotient_order two_pos
    ⟨Nat.log2_self_le hn, Nat.lt_log2_self⟩ ⟨Nat.log2_self_le hd, Nat.lt_log2_self⟩
  have hle : ∀ k : ℤ, powerLe k num den = true ↔ (den : ℚ) * 2 ^ k ≤ num := by
    intro k
    rw [← Nat.cast_two, ← scaled_le_iff two_pos, powerLe]
    split <;> exact decide_eq_true_iff
  push_cast at hlow hhigh
  unfold binaryOrder
  dsimp only
  split
  · next hk => exact ⟨(hle _).mp hk, hhigh⟩
  · next hk =>
    rw [hle, not_le] at hk
    exact ⟨hlow, by rwa [sub_add_cancel]⟩

theorem le_roundQuotient {a num den : ℕ} (h : a * den ≤ num) (hd : 0 < den) :
    a ≤ roundQuotient num den := by
  have ha : a ≤ num / den := (Nat.le_div_iff_mul_le hd).mpr h
  unfold roundQuotient
  dsimp only
  split
  · exact ha
  · split <;> omega

theorem roundQuotient_le {a num den : ℕ} (h : num ≤ a * den) (hd : 0 < den) :
    roundQuotient num den ≤ a := by
  unfold roundQuotient
  dsimp only
  rcases h.lt_or_eq with hlt | rfl
  · have ha : num / den < a := (Nat.div_lt_iff_lt_mul hd).mpr hlt
    split
    · exact ha.le
    · split <;> omega
  · rw [Nat.mul_mod_left, Nat.mul_div_cancel _ hd, if_pos (by simpa using hd)]

/-- Mantissa and exponent of a finite double. -/
structure WellFormed (m : ℕ) (e : ℤ) : Prop where
  lt : m < 2 ^ 53
  least : leastExponent ≤ e
  greatest : e ≤ greatestExponent
  normal : 2 ^ 52 ≤ m ∨ e = leastExponent

instance (m : ℕ) (e : ℤ) : Decidable (WellFormed m e) :=
  decidable_of_iff (m < 2 ^ 53 ∧ leastExponent ≤ e ∧ e ≤ greatestExponent ∧
    (2 ^ 52 ≤ m ∨ e = leastExponent)) ⟨fun ⟨h₁, h₂, h₃, h₄⟩ => ⟨h₁, h₂, h₃, h₄⟩,
      fun ⟨h₁, h₂, h₃, h₄⟩ => ⟨h₁, h₂, h₃, h₄⟩⟩

theorem wellFormed_zero : WellFormed 0 leastExponent := by decide

/-- The quotient over a power of two, rounded. -/
def roundScaled (num den : ℕ) (e : ℤ) : ℕ :=
  if 0 ≤ e then roundQuotient num (den * Nat.pow 2 e.toNat)
  else roundQuotient (num * Nat.pow 2 (-e).toNat) den

theorem le_roundScaled {a num den : ℕ} {e : ℤ} (h : ((a * den : ℕ) : ℚ) * 2 ^ e ≤ num)
    (hd : 0 < den) : a ≤ roundScaled num den e := by
  have hle := (scaled_le_iff two_pos e (a * den) num).mpr (by exact_mod_cast h)
  unfold roundScaled
  split at hle
  · next he =>
    rw [if_pos he]
    exact le_roundQuotient (by rwa [Nat.pow_eq, ← Nat.mul_assoc]) (by rw [Nat.pow_eq]; positivity)
  · next he =>
    rw [if_neg he]
    exact le_roundQuotient hle hd

theorem roundScaled_le {a num den : ℕ} {e : ℤ} (h : (num : ℚ) ≤ (a * den : ℕ) * 2 ^ e)
    (hd : 0 < den) : roundScaled num den e ≤ a := by
  unfold roundScaled
  split
  · next he =>
    obtain ⟨n, rfl⟩ := Int.eq_ofNat_of_zero_le he
    rw [zpow_natCast] at h
    apply roundQuotient_le
    · rw [Int.toNat_natCast, Nat.pow_eq, ← Nat.mul_assoc]
      exact_mod_cast h
    · rw [Nat.pow_eq]
      positivity
  · next he =>
    obtain ⟨n, hn⟩ := Int.eq_ofNat_of_zero_le (show 0 ≤ -e by omega)
    rw [show e = -(n : ℤ) by omega, zpow_neg, zpow_natCast, ← div_eq_mul_inv,
      le_div_iff₀ (by positivity)] at h
    refine roundQuotient_le ?_ hd
    rw [hn, Int.toNat_natCast, Nat.pow_eq]
    exact_mod_cast h

/-- The exponent that leaves 53 bits of a quotient before the point, or the least one. -/
def exponentFor (num den : ℕ) : ℤ := max (binaryOrder num den - 52) leastExponent

/-- A mantissa that is rounded up to 54 bits is halved. -/
def carried (num den : ℕ) : ℕ × ℤ :=
  if roundScaled num den (exponentFor num den) = 2 ^ 53 then (2 ^ 52, exponentFor num den + 1)
  else (roundScaled num den (exponentFor num den), exponentFor num den)

theorem of_ofQuotient_eq {negative neg : Bool} {num den m : ℕ} {e : ℤ} (hn : num ≠ 0)
    (h : ofQuotient negative num den = .finite neg m e) : e ≤ greatestExponent ∧
      (m = 2 ^ 52 ∧ e = exponentFor num den + 1 ∨
        m = roundScaled num den e ∧ e = exponentFor num den ∧ m ≠ 2 ^ 53) := by
  rw [ofQuotient, if_neg hn] at h
  change (if greatestExponent < (carried num den).2 then Double.infinite negative
    else Double.finite negative (carried num den).1 (carried num den).2) = _ at h
  split at h
  · cases h
  · next hg =>
    obtain ⟨-, rfl, rfl⟩ := finite.inj h
    refine ⟨not_lt.mp hg, ?_⟩
    unfold carried
    split
    · exact .inl ⟨rfl, rfl⟩
    · next hne => exact .inr ⟨rfl, rfl, hne⟩

/-- A quotient is rounded to a well-formed double, and not to zero if it is one or more. -/
theorem wellFormed_ofQuotient {negative neg : Bool} {num den m : ℕ} {e : ℤ} (hd : 0 < den)
    (h : ofQuotient negative num den = .finite neg m e) :
    WellFormed m e ∧ (den ≤ num → 0 < m) := by
  by_cases hn : num = 0
  · rw [ofQuotient, if_pos hn, zero, finite.injEq] at h
    obtain ⟨-, rfl, rfl⟩ := h
    exact ⟨wellFormed_zero, fun hle => by omega⟩
  obtain ⟨hlow, hhigh⟩ := binaryOrder_bounds hn hd.ne'
  have hleast : leastExponent ≤ exponentFor num den := le_max_right _ _
  obtain ⟨hg, ⟨rfl, rfl⟩ | ⟨rfl, he, hne⟩⟩ := of_ofQuotient_eq hn h
  · exact ⟨⟨by decide, by omega, hg, .inl le_rfl⟩, fun _ => by decide⟩
  have hup : roundScaled num den e ≤ 2 ^ 53 := by
    refine roundScaled_le (hhigh.le.trans ?_) hd
    have hpow : (2 : ℚ) ^ (binaryOrder num den + 1) ≤ 2 ^ (53 + e) :=
      zpow_le_zpow_right₀ one_le_two (by rw [he, exponentFor]; omega)
    rw [zpow_add₀ two_ne_zero 53] at hpow
    calc (den : ℚ) * 2 ^ (binaryOrder num den + 1) ≤ den * (2 ^ (53 : ℤ) * 2 ^ e) := by gcongr
      _ = ((2 ^ 53 * den : ℕ) : ℚ) * 2 ^ e := by
        push_cast
        ring
  have hnormal : 2 ^ 52 ≤ roundScaled num den e ∨ e = leastExponent := by
    rcases max_choice (binaryOrder num den - 52) leastExponent with hk | hk
    · refine .inl (le_roundScaled (hlow.trans' (le_of_eq ?_)) hd)
      rw [he, exponentFor, hk, zpow_sub₀ two_ne_zero]
      push_cast
      field_simp
    · exact .inr (he.trans hk)
  refine ⟨⟨lt_of_le_of_ne hup hne, he ▸ hleast, hg, hnormal⟩, fun hle => ?_⟩
  -- with the least exponent the unit is below one, and the quotient is not
  rcases hnormal with hm | hl
  · exact lt_of_lt_of_le (by positivity) hm
  · refine le_roundScaled ?_ hd
    have hone : (2 : ℚ) ^ e ≤ 1 := zpow_le_one_of_nonpos₀ one_le_two (by rw [hl]; decide)
    calc ((1 * den : ℕ) : ℚ) * 2 ^ e = den * 2 ^ e := by rw [one_mul]
      _ ≤ den * 1 := by gcongr
      _ ≤ num := by rw [mul_one]; exact_mod_cast hle

/-- Well formed if it is finite. -/
def Sound : Double → Prop
  | finite _ m e => WellFormed m e
  | _ => True

theorem sound_ofQuotient (negative : Bool) (num : ℕ) {den : ℕ} (hd : 0 < den) :
    (ofQuotient negative num den).Sound := by
  cases h : ofQuotient negative num den with
  | finite neg m e => exact (wellFormed_ofQuotient hd h).1
  | _ => trivial

theorem quotient_pos (m : ℕ) (e : ℤ) :
    0 < (quotient m e).2 ∧ (0 < m → 0 < (quotient m e).1) := by
  unfold quotient
  simp only [Nat.pow_eq]
  split
  · exact ⟨one_pos, fun hm => by positivity⟩
  · exact ⟨by positivity, id⟩

theorem sound_mul {x : Double} (hx : x.Sound) (y : Double) : (x.mul y).Sound := by
  unfold mul
  split
  · next m e _ m' e' =>
    exact sound_ofQuotient _ _ (Nat.mul_pos (quotient_pos m e).1 (quotient_pos m' e').1)
  · exact hx

theorem sound_div {x y : Double} (hx : x.Sound) (hy : ∀ neg m e, y = .finite neg m e → 0 < m) :
    (x.div y).Sound := by
  unfold div
  split
  · next m e neg m' e' =>
    exact sound_ofQuotient _ _
      (Nat.mul_pos (quotient_pos m e).1 ((quotient_pos m' e').2 (hy neg m' e' rfl)))
  · exact hx

theorem pos_of_ofDecimal_one {n m : ℕ} {neg : Bool} {e : ℤ}
    (h : ofDecimal false 1 n = .finite neg m e) : 0 < m := by
  have hlength : decimalLength 1 = 1 := by decide
  rw [ofDecimal, if_neg one_ne_zero, hlength] at h
  split at h
  · cases h
  · rw [if_neg (by omega), if_pos (by omega)] at h
    refine (wellFormed_ofQuotient one_pos h).2 (Nat.succ_le_of_lt ?_)
    rw [Nat.pow_eq]
    positivity

end Double

namespace Json

theorem Scaled.sound_toDouble (steps : ℕ) {x : Double} (hx : x.Sound) (exponent : ℤ) :
    (toDouble steps x exponent).Sound := by
  induction steps generalizing x exponent with
  | zero => exact hx
  | succ steps ih =>
    rw [toDouble]
    split
    · dsimp only
      split
      · exact Double.sound_mul hx _
      · exact Double.sound_div hx fun _ _ _ h => Double.pos_of_ofDecimal_one h
    · split
      · exact hx
      · split
        · trivial
        · exact ih (Double.sound_div hx fun _ _ _ h => Double.pos_of_ofDecimal_one (n := 308) h) _

end Json

/-- A number that a record can hold: an integer of 64 bits, with or without a sign, or a finite
double. -/
def Number.Valid : Number → Prop
  | integer n => -2 ^ 63 ≤ n ∧ n < 2 ^ 64
  | real (.finite _ m e) => Double.WellFormed m e
  | real _ => False

namespace Json

theorem Scaled.valid_value (x : Scaled) (negative : Bool) :
    (Number.real (x.value negative)).Valid ∨ x.value negative = .infinite negative := by
  have hsound := sound_toDouble 4 (Double.sound_ofQuotient false x.significand one_pos) x.exponent
  rw [value, Double.ofNat]
  split
  · next m e h =>
    rw [h] at hsound
    exact .inl hsound
  · exact .inr rfl

theorem valid_integerNumber (negative : Bool) (digits : List Char) :
    (integerNumber negative digits).Valid ∨
      integerNumber negative digits = .real (.infinite negative) := by
  have hsize : UInt64.size = 2 ^ 64 := rfl
  unfold integerNumber
  dsimp only
  split
  · next h =>
    simp only [hsize, Bool.and_eq_true, decide_eq_true_eq] at h
    exact .inl ⟨by omega, by exact_mod_cast h.2⟩
  · split
    · next h =>
      simp only [Nat.pow_eq, Bool.and_eq_true, decide_eq_true_eq] at h
      exact .inl ⟨by omega, by omega⟩
    · exact (Scaled.valid_value _ negative).imp id (congrArg Number.real)

/-- What JSON text is read as is a number that a record can hold, unless it is beyond the
doubles. -/
theorem valid_of_readNumber? {cs rest : List Char} {n : Number}
    (h : readNumber? cs = some (n, rest)) :
    n.Valid ∨ ∃ negative, n = .real (.infinite negative) := by
  have hreal : ∀ (x : Scaled) (negative : Bool) (cs : List Char),
      some (.real (x.value negative), cs) = some (n, rest) →
      n.Valid ∨ ∃ negative, n = .real (.infinite negative) := by
    rintro x negative cs ⟨⟩
    exact (x.valid_value negative).imp id fun hx => ⟨negative, congrArg Number.real hx⟩
  have hinteger : ∀ negative digits (cs : List Char),
      some (integerNumber negative digits, cs) = some (n, rest) →
      n.Valid ∨ ∃ negative, n = .real (.infinite negative) := by
    rintro negative digits cs ⟨⟩
    exact (valid_integerNumber negative digits).imp id fun hn => ⟨negative, hn⟩
  unfold readNumber? at h
  split at h
  all_goals
    dsimp only at h
    split at h
    · cases h
    split at h
    · split at h
      · cases h
      · obtain ⟨⟨exponent, cs⟩, -, hn⟩ := Option.bind_eq_some_iff.mp h
        exact hreal _ _ _ hn
    · split at h
      · obtain ⟨⟨exponent, cs⟩, -, hn⟩ := Option.bind_eq_some_iff.mp h
        exact hreal _ _ _ hn
      · exact hinteger _ _ _ h
    · exact hinteger _ _ _ h

end Json

end Proforma
