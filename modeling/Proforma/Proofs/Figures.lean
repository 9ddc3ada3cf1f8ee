import Proforma.Proofs.Rounding

/-!
How an amount of money is laid out: a sign, the mark of the currency, groups of digits and a
fraction. What is written reads as the amount rounded once to two places; the fraction has two
digits unless the amount is so large that only one of them has room.
-/
namespace Proforma

structure Figure where
  negative : Bool
  /-- The digits before the first comma. -/
  first : List Char
  /-- The digits between two commas, and after the last one. -/
  groups : List (List Char)
  fraction : List Char

namespace Figure

variable (f : Figure)

def whole : List Char := f.first ++ f.groups.flatten

def render (code : String) : String :=
  (if f.negative then "-" else "") ++ currencyMark code ++
    String.ofList (f.first ++ f.groups.flatMap (',' :: ·)) ++ "." ++ String.ofList f.fraction

def magnitude : ℚ := Double.digitsValue (f.whole ++ f.fraction) / 10 ^ f.fraction.length

/-- The number that is read from the sign and the digits. -/
def value : ℚ := if f.negative then -f.magnitude else f.magnitude

/-- Groups of three digits behind one to three digits, no zero in front, and a sign only on
numbers below zero. -/
structure Proper : Prop where
  first_length : 1 ≤ f.first.length ∧ f.first.length ≤ 3
  groups_length : ∀ g ∈ f.groups, g.length = 3
  isDigit : ∀ c ∈ f.whole ++ f.fraction, c.isDigit = true
  leading : f.whole.head? = some '0' → f.whole = ['0']
  negative_iff : f.negative = true ↔ f.value < 0

theorem magnitude_nonneg : 0 ≤ f.magnitude := by
  unfold magnitude
  positivity

theorem value_neg_iff : f.value < 0 ↔ f.negative = true ∧ f.magnitude ≠ 0 := by
  have h := f.magnitude_nonneg
  unfold value
  split
  · next hn => rw [neg_lt_zero, hn, lt_iff_le_and_ne, ne_comm]; tauto
  · next hn => exact ⟨fun hv => absurd hv (not_lt.mpr h), fun hv => absurd hv.1 hn⟩

end Figure

/-- The commas cut a row of digits into groups of three, but for the first one. -/
theorem groupThousands_eq {cs : List Char} (h : cs ≠ []) :
    ∃ (first : List Char) (groups : List (List Char)), cs = first ++ groups.flatten ∧
      groupThousands cs = first ++ groups.flatMap (',' :: ·) ∧
      (1 ≤ first.length ∧ first.length ≤ 3) ∧ ∀ g ∈ groups, g.length = 3 := by
  induction cs with
  | nil => exact absurd rfl h
  | cons c cs ih =>
    by_cases hcs : cs = []
    · subst hcs
      exact ⟨[c], [], rfl, rfl, by simp, nofun⟩
    obtain ⟨first, groups, hsplit, hgroup, hfirst, hgroups⟩ := ih hcs
    -- the first group of the rest is full exactly where a comma comes before it
    have hmod : cs.length % 3 = first.length % 3 := by
      have hflat : groups.flatten.length = groups.length * 3 := by
        rw [List.length_flatten, List.map_congr_left hgroups, List.map_const', List.sum_replicate,
          smul_eq_mul]
      rw [hsplit, List.length_append, hflat]
      omega
    rw [groupThousands]
    split
    · next hc =>
      have hthree : first.length = 3 := by omega
      refine ⟨[c], first :: groups, ?_, ?_, by simp, ?_⟩
      · simp [hsplit]
      · simp [hgroup]
      · exact List.forall_mem_cons.mpr ⟨hthree, hgroups⟩
    · next hc =>
      have hne : cs.length % 3 ≠ 0 := fun h0 => hc ⟨h0, hcs⟩
      exact ⟨c :: first, groups, by simp [hsplit], by simp [hgroup],
        ⟨by simp, by simp only [List.length_cons]; omega⟩, hgroups⟩

namespace Decimal

/-- The digits of the mantissa with the zeros that the fraction needs in front of them. -/
theorem parts_eq (d : Decimal) : ∃ whole fraction, d.parts = (whole, fraction) ∧
    fraction.length = d.scale ∧ whole ≠ [] ∧
    (∀ c ∈ whole ++ fraction, c.isDigit = true) ∧
    (whole.head? = some '0' → whole = ['0']) ∧
    Double.digitsValue (whole ++ fraction) = d.mantissa := by
  let digits := Nat.toDigits 10 d.mantissa
  let padded := List.replicate (d.scale + 1 - digits.length) '0' ++ digits
  have hpos : 0 < digits.length := Nat.length_toDigits_pos
  have hlength : padded.length = d.scale + 1 - digits.length + digits.length := by
    simp [padded]
  refine ⟨padded.take (padded.length - d.scale), padded.drop (padded.length - d.scale), rfl,
    ?_, ?_, ?_, ?_, ?_⟩
  · rw [List.length_drop]
    omega
  · rw [ne_eq, ← List.length_eq_zero_iff, List.length_take]
    omega
  · rw [List.take_append_drop]
    intro c hc
    rcases List.mem_append.mp hc with hz | hd
    · rw [List.eq_of_mem_replicate hz]
      rfl
    · exact Nat.isDigit_of_mem_toDigits (by decide) (by decide) hd
  · intro hhead
    by_cases hshort : digits.length ≤ d.scale
    · -- only one zero is left before the point
      have hone : padded.length - d.scale = 1 := by omega
      rw [hone] at hhead ⊢
      match hp : padded with
      | [] => simp at hhead
      | c :: cs => simpa [hp] using hhead
    · have hpad : padded = digits := by
        simp [padded, show d.scale + 1 - digits.length = 0 by omega]
      rw [hpad, List.head?_take, if_neg (by omega)] at hhead
      have hzero : d.mantissa = 0 := by
        by_contra hm
        exact head?_toDigits (Nat.pos_of_ne_zero hm) hhead
      have hdigits : digits = ['0'] := by simp [digits, hzero]
      have hscale : d.scale = 0 := by
        rw [hdigits, List.length_singleton] at hshort
        omega
      rw [hpad, hdigits, hscale]
      rfl
  · rw [List.take_append_drop, Double.digitsValue_append, Double.digitsValue_zeros,
      Double.digitsValue_toDigits, zero_mul, zero_add]

/-- The amount as it is before its digits are written. -/
def shown (d : Decimal) : Decimal := (d.round 2).extend (2 - (d.round 2).scale)

theorem magnitude_shown (d : Decimal) : d.shown.magnitude = nearest 2 d.magnitude := by
  rw [shown, magnitude_extend, magnitude_round]

/-- A fraction without digits is written as two zeros. -/
def filled (fraction : List Char) : List Char :=
  if fraction.isEmpty then ['0', '0'] else fraction

theorem length_filled (fraction : List Char) :
    (filled fraction).length = if fraction.length = 0 then 2 else fraction.length := by
  cases fraction <;> rfl

theorem isDigit_filled {fraction : List Char} (h : ∀ c ∈ fraction, c.isDigit = true) :
    ∀ c ∈ filled fraction, c.isDigit = true := by
  cases fraction with
  | nil => exact List.forall_mem_cons.mpr ⟨rfl, List.forall_mem_singleton.mpr rfl⟩
  | cons c cs => exact h

theorem value_filled (whole fraction : List Char) :
    (Double.digitsValue (whole ++ filled fraction) : ℚ) / 10 ^ (filled fraction).length =
      Double.digitsValue (whole ++ fraction) / 10 ^ fraction.length := by
  cases fraction with
  | cons c cs => rfl
  | nil =>
    have hzeros : Double.digitsValue ['0', '0'] = 0 := by decide
    norm_num [filled, Double.digitsValue_append, hzeros]

/-- The sign is written on amounts that do not round to zero. -/
def showsSign (d : Decimal) : Bool := (d.round 2).negative && !(d.round 2).isZero

theorem showsSign_iff (d : Decimal) :
    d.showsSign = true ↔ d.negative = true ∧ nearest 2 d.magnitude ≠ 0 := by
  have hzero : (d.round 2).isZero = true ↔ nearest 2 d.magnitude = 0 := by
    rw [← magnitude_round, magnitude_eq_zero, isZero, beq_iff_eq]
  rw [showsSign, Bool.and_eq_true, negative_round, Bool.not_eq_true', ← Bool.not_eq_true, hzero]

theorem writeCurrency_eq (d : Decimal) (code : String) :
    writeCurrency d code = (if d.showsSign then "-" else "") ++ currencyMark code ++
      String.ofList (groupThousands d.shown.parts.1) ++ "." ++
        String.ofList (filled d.shown.parts.2) := rfl

/-- Digits of the right magnitude with the sign that is written read as the rounded amount. -/
theorem value_of_shown {d : Decimal} {f : Figure} (hsign : f.negative = d.showsSign)
    (hmagnitude : f.magnitude = nearest 2 d.magnitude) : f.value = halfAway 2 d.value := by
  rw [Figure.value, hsign, hmagnitude, value]
  by_cases hzero : nearest 2 d.magnitude = 0
  · rw [if_neg fun h => ((showsSign_iff d).mp h).2 hzero]
    split
    · rw [halfAway_neg 2 d.magnitude_nonneg, hzero, neg_zero]
    · rw [halfAway_of_nonneg 2 d.magnitude_nonneg]
  · simp only [showsSign_iff, ne_eq, hzero, not_false_eq_true, and_true]
    split
    · rw [halfAway_neg 2 d.magnitude_nonneg]
    · rw [halfAway_of_nonneg 2 d.magnitude_nonneg]

/-- Every amount is laid out properly, and reads as the amount rounded to two places. -/
theorem exists_figure (d : Decimal) (code : String) : ∃ f : Figure,
    writeCurrency d code = f.render code ∧ f.Proper ∧ f.value = halfAway 2 d.value ∧
      f.fraction.length = if d.shown.scale = 0 then 2 else d.shown.scale := by
  obtain ⟨whole, fraction, hparts, hlength, hne, hdigit, hlead, hvalue⟩ := d.shown.parts_eq
  obtain ⟨first, groups, hwhole, hgroup, hfirst, hgroups⟩ := groupThousands_eq hne
  let f : Figure := ⟨d.showsSign, first, groups, filled fraction⟩
  have hf : f.whole = whole := hwhole.symm
  have hmagnitude : f.magnitude = nearest 2 d.magnitude := by
    rw [← magnitude_shown, magnitude, ← hvalue, ← hlength, Figure.magnitude, hf]
    exact value_filled whole fraction
  obtain ⟨hw, hd⟩ := List.forall_mem_append.mp hdigit
  refine ⟨f, ?_, ⟨hfirst, hgroups, ?_, hf ▸ hlead, ?_⟩, value_of_shown rfl hmagnitude, ?_⟩
  · rw [writeCurrency_eq, hparts, hgroup]
    rfl
  · rw [hf]
    exact List.forall_mem_append.mpr ⟨hw, isDigit_filled hd⟩
  · rw [f.value_neg_iff, hmagnitude]
    exact ⟨fun h => ⟨h, ((showsSign_iff d).mp h).2⟩, And.left⟩
  · rw [← hlength]
    exact length_filled fraction

/-- There is room for one digit of the fraction, but not for two. -/
def IsCramped (d : Decimal) : Prop :=
  d.scale = 1 ∧ greatest < 10 * d.mantissa ∨
    d.scale = 0 ∧ 10 * d.mantissa ≤ greatest ∧ greatest < 100 * d.mantissa

theorem round_of_scale_le {d : Decimal} {places : ℕ} (h : d.scale ≤ places) :
    d.round places = d := if_pos h

theorem scale_shown (d : Decimal) :
    (d.IsCramped → d.shown.scale = 1) ∧
      (¬ d.IsCramped → d.shown.scale = 0 ∨ d.shown.scale = 2) := by
  obtain ⟨k, hk, he, hstop, hroom⟩ := (d.round 2).extend_eq (2 - (d.round 2).scale)
  have hscale := d.scale_round 2
  unfold shown IsCramped
  rw [he]
  dsimp only
  by_cases h2 : 2 ≤ d.scale
  · rw [min_eq_right h2] at hscale
    omega
  · rw [round_of_scale_le (by omega)] at hk hstop hroom ⊢
    have hk2 : k ≤ 2 := by omega
    interval_cases k <;> norm_num at hstop hroom <;> omega

end Decimal

/-- An amount is written with its sign, the mark of the currency, groups of three digits behind the
first one and a fraction, and reads as the amount rounded half away from zero to two places; the
sign is there exactly if that is below zero. The fraction has two digits, but for an amount that has
room for one only. -/
theorem currency_layout (d : Decimal) (code : String) : ∃ f : Figure,
    writeCurrency d code = f.render code ∧ f.Proper ∧ f.value = halfAway 2 d.value ∧
      (f.negative = true ↔ halfAway 2 d.value < 0) ∧
      (f.fraction.length = 2 ∧ ¬ d.IsCramped ∨ f.fraction.length = 1 ∧ d.IsCramped) := by
  obtain ⟨f, hf, hproper, hvalue, hlength⟩ := d.exists_figure code
  obtain ⟨hcramped, hroomy⟩ := d.scale_shown
  refine ⟨f, hf, hproper, hvalue, hvalue ▸ hproper.negative_iff, ?_⟩
  by_cases hc : d.IsCramped
  · rw [hcramped hc] at hlength
    exact .inr ⟨hlength, hc⟩
  · refine .inl ⟨?_, hc⟩
    rcases hroomy hc with h | h <;> rw [hlength, h] <;> rfl

/-- The greatest amount with one place. -/
theorem currency_layout_greatest :
    let d : Decimal := ⟨false, Decimal.greatest, 1⟩
    writeCurrency d "USD" = "$7,922,816,251,426,433,759,354,395,033.5" ∧
    ∃ f : Figure, writeCurrency d "USD" = f.render "USD" ∧ f.Proper ∧ f.fraction.length = 1 := by
  intro d
  have hc : d.IsCramped := .inl ⟨rfl, by decide⟩
  obtain ⟨f, hf, hproper, -, -, hlength⟩ := currency_layout d "USD"
  refine ⟨by decide +kernel, f, hf, hproper, ?_⟩
  rcases hlength with ⟨-, hn⟩ | ⟨h, -⟩
  · exact absurd hc hn
  · exact h

end Proforma
