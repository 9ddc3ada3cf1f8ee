import Mathlib.Data.Rat.Floor
import Mathlib.Tactic
import Proforma.Render.Currency

/-!
Rows of digits and amounts as rational numbers, and rounding half away from zero. The operations on
amounts are exact but for the rounding that they name.
-/
namespace Proforma

namespace Double

theorem digitsValue_eq (cs : List Char) : digitsValue cs = Nat.ofDigitChars 10 cs 0 :=
  Nat.ofDigitChars_eq_foldl.symm

theorem digitsValue_append (cs ds : List Char) :
    digitsValue (cs ++ ds) = digitsValue cs * 10 ^ ds.length + digitsValue ds := by
  rw [digitsValue_eq, Nat.ofDigitChars_append, Nat.ofDigitChars_eq_ofDigitChars_zero, mul_comm,
    digitsValue_eq, digitsValue_eq]

theorem digitsValue_cons (c : Char) (cs : List Char) :
    digitsValue (c :: cs) = digitValue c * 10 ^ cs.length + digitsValue cs := by
  rw [← List.singleton_append, digitsValue_append]
  simp [digitsValue]

@[simp] theorem digitsValue_toDigits (n : ℕ) : digitsValue (Nat.toDigits 10 n) = n := by
  rw [digitsValue_eq, Nat.ofDigitChars_ten_toDigits]

@[simp] theorem digitsValue_zeros (n : ℕ) : digitsValue (List.replicate n '0') = 0 := by
  rw [digitsValue_eq, Nat.ofDigitChars_replicate_zero, mul_zero]

theorem digitValue_lt {c : Char} (h : c.isDigit = true) : digitValue c < 10 := by
  have h9 : c.toNat ≤ 57 := by
    simp only [Char.isDigit, Bool.and_eq_true, decide_eq_true_eq] at h
    exact h.2
  show c.toNat - 48 < 10
  omega

theorem digitsValue_lt {cs : List Char} (h : ∀ c ∈ cs, c.isDigit = true) :
    digitsValue cs < 10 ^ cs.length := by
  induction cs with
  | nil => decide
  | cons c cs ih =>
    obtain ⟨hc, hcs⟩ := List.forall_mem_cons.mp h
    have hv := digitValue_lt hc
    rw [digitsValue_cons, List.length_cons, pow_succ]
    have hle := Nat.mul_le_mul_right (10 ^ cs.length) (Nat.le_of_lt_succ hv)
    have := ih hcs
    omega

end Double

/-- Numerals do not begin with a zero. -/
theorem head?_toDigits {n : ℕ} (h : 0 < n) : (Nat.toDigits 10 n).head? ≠ some '0' := by
  induction n using Nat.strongRecOn with
  | _ n ih =>
    rw [Nat.toDigits_eq_if (by decide)]
    split
    · next hn => simpa using h.ne'
    · next hn =>
      rw [List.head?_append_of_ne_nil _ Nat.toDigits_ne_nil]
      exact ih (n / 10) (by omega) (by omega)

/-- The multiple of `10 ^ -places` that is nearest; of two equally near the greater one. -/
def nearest (places : ℕ) (x : ℚ) : ℚ := ⌊x * 10 ^ places + 1 / 2⌋ / 10 ^ places

/-- The multiple of `10 ^ -places` that is nearest; of two equally near the one further from
zero. -/
def halfAway (places : ℕ) (x : ℚ) : ℚ := if x < 0 then -nearest places (-x) else nearest places x

theorem nearest_of_multiple {places : ℕ} {x : ℚ} {k : ℤ} (h : x * 10 ^ places = k) :
    nearest places x = x := by
  have hf : ⌊(k : ℚ) + 1 / 2⌋ = k := by
    rw [Int.floor_eq_iff]
    constructor <;> linarith
  rw [nearest, h, hf, ← h]
  exact mul_div_cancel_right₀ x (by positivity)

theorem nearest_zero (places : ℕ) : nearest places 0 = 0 :=
  nearest_of_multiple (show (0 : ℚ) * 10 ^ places = (0 : ℤ) by simp)

theorem nearest_mul_pow (places : ℕ) (x : ℚ) :
    nearest places x * 10 ^ places = ⌊x * 10 ^ places + 1 / 2⌋ :=
  div_mul_cancel₀ _ (by positivity)

theorem nearest_nearest (places : ℕ) (x : ℚ) :
    nearest places (nearest places x) = nearest places x :=
  nearest_of_multiple (nearest_mul_pow places x)

theorem nearest_mono (places : ℕ) {x y : ℚ} (h : x ≤ y) : nearest places x ≤ nearest places y := by
  have hf : ⌊x * 10 ^ places + 1 / 2⌋ ≤ ⌊y * 10 ^ places + 1 / 2⌋ :=
    Int.floor_mono (by gcongr)
  unfold nearest
  gcongr

/-- Rounding further to the right is rounding a smaller number. -/
theorem nearest_div_pow (places n : ℕ) (x : ℚ) :
    nearest (places + n) (x / 10 ^ n) = nearest places x / 10 ^ n := by
  have hx : x / 10 ^ n * 10 ^ (places + n) = x * 10 ^ places := by
    rw [pow_add]
    field_simp
  rw [nearest, hx, nearest, pow_add, div_div]

theorem nearest_of_le (places n : ℕ) (h : n ≤ places) (x : ℚ) :
    nearest (places - n) (x * 10 ^ n) = nearest places x * 10 ^ n := by
  have hx := nearest_div_pow (places - n) n (x * 10 ^ n)
  rw [Nat.sub_add_cancel h, mul_div_cancel_right₀ _ (by positivity)] at hx
  rw [hx, div_mul_cancel₀ _ (by positivity)]

theorem nearest_nonneg (places : ℕ) {x : ℚ} (h : 0 ≤ x) : 0 ≤ nearest places x := by
  have hf : 0 ≤ ⌊x * 10 ^ places + 1 / 2⌋ := Int.floor_nonneg.mpr (by positivity)
  rw [nearest]
  exact div_nonneg (by exact_mod_cast hf) (by positivity)

theorem halfAway_of_nonneg (places : ℕ) {x : ℚ} (h : 0 ≤ x) :
    halfAway places x = nearest places x := if_neg (not_lt.mpr h)

theorem halfAway_neg (places : ℕ) {x : ℚ} (h : 0 ≤ x) :
    halfAway places (-x) = -nearest places x := by
  rcases h.eq_or_lt with rfl | hx
  · rw [neg_zero, halfAway_of_nonneg places le_rfl, nearest_zero, neg_zero]
  · rw [halfAway, if_pos (by linarith), neg_neg]

theorem abs_halfAway (places : ℕ) (x : ℚ) : |halfAway places x| = nearest places |x| := by
  have hn := nearest_nonneg places (abs_nonneg x)
  rcases le_or_gt 0 x with hx | hx
  · rw [halfAway_of_nonneg places hx, abs_of_nonneg hx] at *
    exact abs_of_nonneg hn
  · rw [halfAway, if_pos hx, abs_neg, abs_of_neg hx] at *
    exact abs_of_nonneg hn

/-- Halfway between two multiples of a hundredth. -/
def IsHalfCent (x : ℚ) : Prop := ∃ k : ℕ, x = (2 * k + 1) / 200

/-- Two numbers on the same side of all half cents round alike, unless the greater one is a half
cent itself. -/
theorem nearest_two_eq_iff {x y : ℚ} (hx : 0 ≤ x) (hy : 0 ≤ y)
    (hbelow : ∀ k : ℕ, x ≤ (2 * k + 1) / 200 → y ≤ (2 * k + 1) / 200)
    (habove : ∀ k : ℕ, (2 * k + 1) / 200 ≤ x → (2 * k + 1) / 200 ≤ y) :
    nearest 2 y = nearest 2 x ↔ ¬ (x < y ∧ IsHalfCent y) := by
  have hfloor : nearest 2 y = nearest 2 x ↔ ⌊y * 10 ^ 2 + 1 / 2⌋ = ⌊x * 10 ^ 2 + 1 / 2⌋ := by
    rw [nearest, nearest, div_left_inj' (by norm_num), Int.cast_inj]
  rw [hfloor]
  obtain ⟨m, hm⟩ := Int.eq_ofNat_of_zero_le (Int.floor_nonneg.mpr (show 0 ≤ x * 10 ^ 2 + 1 / 2 by
    positivity))
  obtain ⟨hlow, hhigh⟩ := Int.floor_eq_iff.mp hm
  push_cast at hlow hhigh
  constructor
  · rintro he ⟨hlt, k, rfl⟩
    -- a half cent rounds up, and what is below it does not
    have hk : ⌊((2 * k + 1) / 200 : ℚ) * 10 ^ 2 + 1 / 2⌋ = (k : ℤ) + 1 := by
      rw [Int.floor_eq_iff]
      push_cast
      constructor <;> linarith
    rw [hk, hm] at he
    have hkm : (k : ℚ) + 1 = m := by exact_mod_cast he
    linarith
  · intro h
    rw [hm, Int.floor_eq_iff]
    push_cast
    constructor
    · cases m with
      | zero =>
        push_cast
        linarith
      | succ k =>
        push_cast at hlow ⊢
        have := habove k (by linarith)
        linarith
    · have hm' := hbelow m (by linarith)
      rcases hm'.lt_or_eq with hlt | rfl
      · linarith
      · exact absurd ⟨by linarith, m, rfl⟩ h

/-- Rounding a quotient to a whole number, by its remainder. -/
theorem floor_add_half (m : ℕ) {unit : ℕ} (h : 0 < unit) : ⌊(m : ℚ) / unit + 1 / 2⌋ =
    ((if unit ≤ 2 * (m % unit) then m / unit + 1 else m / unit : ℕ) : ℤ) := by
  have hu : (0 : ℚ) < unit := by exact_mod_cast h
  have hm : (m : ℚ) = unit * (m / unit : ℕ) + (m % unit : ℕ) := by
    exact_mod_cast (Nat.div_add_mod m unit).symm
  have hr : ((m % unit : ℕ) : ℚ) < unit := by exact_mod_cast Nat.mod_lt m h
  have hq : (m : ℚ) / unit = (m / unit : ℕ) + (m % unit : ℕ) / unit := by
    rw [hm]
    field_simp
  rw [Int.floor_eq_iff, hq]
  generalize m / unit = q, m % unit = r at *
  split
  · next hle =>
    have hle : (unit : ℚ) ≤ 2 * r := by exact_mod_cast hle
    have h₁ : (1 : ℚ) / 2 ≤ r / unit := by
      rw [div_le_div_iff₀ two_pos hu]
      linarith
    have h₂ : (r : ℚ) / unit < 1 := (div_lt_one hu).mpr hr
    push_cast
    constructor <;> linarith
  · next hlt =>
    have hlt : 2 * (r : ℚ) < unit := by exact_mod_cast not_le.mp hlt
    have h₁ : (0 : ℚ) ≤ r / unit := by positivity
    have h₂ : (r : ℚ) / unit < 1 / 2 := by
      rw [div_lt_div_iff₀ hu two_pos]
      linarith
    push_cast
    constructor <;> linarith

namespace Decimal

def magnitude (d : Decimal) : ℚ := d.mantissa / 10 ^ d.scale

def value (d : Decimal) : ℚ := if d.negative then -d.magnitude else d.magnitude

theorem magnitude_nonneg (d : Decimal) : 0 ≤ d.magnitude := by
  unfold magnitude
  positivity

theorem magnitude_eq_zero {d : Decimal} : d.magnitude = 0 ↔ d.mantissa = 0 := by
  simp [magnitude]

theorem scale_round (d : Decimal) (places : ℕ) : (d.round places).scale = min d.scale places := by
  unfold round
  split
  · next h => exact (min_eq_left h).symm
  · next h => exact (min_eq_right (not_le.mp h).le).symm

theorem negative_round (d : Decimal) (places : ℕ) : (d.round places).negative = d.negative := by
  unfold round
  split <;> rfl

theorem magnitude_round (d : Decimal) (places : ℕ) :
    (d.round places).magnitude = nearest places d.magnitude := by
  unfold round
  split
  · next h =>
    symm
    apply nearest_of_multiple (k := d.mantissa * 10 ^ (places - d.scale))
    rw [magnitude, ← pow_sub_mul_pow (10 : ℚ) h]
    push_cast
    field_simp
  · next h =>
    have hu : 0 < 10 ^ (d.scale - places) := by positivity
    have hx : d.magnitude * 10 ^ places = (d.mantissa : ℚ) / (10 ^ (d.scale - places) : ℕ) := by
      rw [magnitude, ← pow_sub_mul_pow (10 : ℚ) (show places ≤ d.scale by omega)]
      push_cast
      field_simp
    rw [nearest, hx, floor_add_half d.mantissa hu]
    rfl

theorem value_round (d : Decimal) (places : ℕ) :
    (d.round places).value = halfAway places d.value := by
  rw [value, negative_round, magnitude_round, value]
  split
  · rw [halfAway_neg places d.magnitude_nonneg]
  · rw [halfAway_of_nonneg places d.magnitude_nonneg]

/-- Zeros are added to the fraction until there are enough, or there is no room for another one. -/
theorem extend_eq (d : Decimal) (n : ℕ) : ∃ k ≤ n,
    d.extend n = ⟨d.negative, d.mantissa * 10 ^ k, d.scale + k⟩ ∧
      (k = n ∨ greatest < d.mantissa * 10 ^ (k + 1)) ∧
      (k = 0 ∨ d.mantissa * 10 ^ k ≤ greatest) := by
  induction n generalizing d with
  | zero => exact ⟨0, le_rfl, by simp [extend], .inl rfl, .inl rfl⟩
  | succ n ih =>
    rw [extend]
    split
    · next h =>
      obtain ⟨k, hk, he, hstop, hroom⟩ := ih ⟨d.negative, d.mantissa * 10, d.scale + 1⟩
      have hpow : d.mantissa * 10 * 10 ^ k = d.mantissa * 10 ^ (k + 1) := by ring
      refine ⟨k + 1, by omega, ?_, ?_, .inr ?_⟩
      · rw [he, hpow, Nat.add_right_comm, Nat.add_assoc]
      · refine hstop.imp (congrArg (· + 1)) fun hg => ?_
        calc greatest < d.mantissa * 10 * 10 ^ (k + 1) := hg
          _ = d.mantissa * 10 ^ (k + 1 + 1) := by ring
      · rcases hroom with rfl | hr
        · simpa using h
        · exact hpow ▸ hr
    · next h => exact ⟨0, by omega, by simp, .inr (by simpa using h), .inl rfl⟩

theorem magnitude_extend (d : Decimal) (n : ℕ) : (d.extend n).magnitude = d.magnitude := by
  obtain ⟨k, -, he, -⟩ := d.extend_eq n
  rw [he, magnitude, magnitude, pow_add]
  push_cast
  field_simp

end Decimal

end Proforma
