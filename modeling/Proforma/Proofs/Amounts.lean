import Mathlib.Data.List.TakeWhile
import Proforma.Proofs.Figures
import Proforma.Proofs.Piping

/-!
Amounts that are read from text. The reader keeps as many digits as there is room for and rounds at
the first one that it drops, and a negative exponent rounds again; so what is written for a text of
many digits is not always the number of that text rounded once.
-/
namespace Proforma

namespace Decimal

theorem greatest_eq : greatest = 79228162514264337593543950335 := by decide

/-- An amount of at most 96 bits and at most 28 places. -/
def Fits (d : Decimal) : Prop := d.mantissa ≤ greatest ∧ d.scale ≤ greatestScale

/-- The second amount is the first one, rounded to as many places as there is room for. -/
structure Fitted (e d : Decimal) : Prop where
  eq_round : d = e.round d.scale
  fits : d.Fits
  room : d = e ∨ d.scale = greatestScale ∨ greatest < 10 * d.mantissa
  eq_of_fits : e.Fits → d = e

theorem Fitted.refl {d : Decimal} (h : d.Fits) : Fitted d d :=
  ⟨(round_of_scale_le le_rfl).symm, h, .inl rfl, fun _ => rfl⟩

theorem round_row (negative : Bool) (m s : ℕ) {k r : ℕ} (h : r < 10 ^ k) :
    (⟨negative, m * 10 ^ k + r, s + k⟩ : Decimal).round s =
      ⟨negative, if 10 ^ k ≤ 2 * r then m + 1 else m, s⟩ := by
  cases k with
  | zero =>
    obtain rfl : r = 0 := by omega
    simp [round]
  | succ k =>
    have hq : (m * 10 ^ (k + 1) + r) / 10 ^ (k + 1) = m := by
      rw [mul_comm, Nat.mul_add_div (by positivity), Nat.div_eq_of_lt h, Nat.add_zero]
    have hr : (m * 10 ^ (k + 1) + r) % 10 ^ (k + 1) = r := by
      rw [mul_comm, Nat.mul_add_mod, Nat.mod_eq_of_lt h]
    unfold round
    rw [if_neg (by simp)]
    simp only [Nat.pow_eq, Nat.add_sub_cancel_left, hq, hr]

/-- A last digit of the greatest mantissa rounds up. -/
theorem round_carry (negative : Bool) (s : ℕ) {k r : ℕ} (h : r < 10 ^ k) :
    (⟨negative, greatest * 10 ^ k + r, s + 1 + k⟩ : Decimal).round s =
      ⟨negative, (greatest + 5) / 10, s⟩ := by
  have hsplit : greatest = greatest / 10 * 10 + 5 := by decide
  have hrow : (⟨negative, greatest * 10 ^ k + r, s + 1 + k⟩ : Decimal) =
      ⟨negative, greatest / 10 * 10 ^ (k + 1) + (5 * 10 ^ k + r), s + (k + 1)⟩ := by
    rw [show s + 1 + k = s + (k + 1) by omega]
    congr 1
    conv_lhs => rw [hsplit]
    ring
  have hpow : 10 ^ (k + 1) = 10 * 10 ^ k := by ring
  rw [hrow, round_row negative _ s (show 5 * 10 ^ k + r < 10 ^ (k + 1) by omega),
    if_pos (by omega)]
  rfl

/-- Digits behind a full mantissa or the last place do not fit. -/
theorem not_fits_row {negative : Bool} {m s v k r : ℕ}
    (h : s = greatestScale ∨ greatest < 10 * m + v) :
    ¬ Fits ⟨negative, m * 10 ^ (k + 1) + (v * 10 ^ k + r), s + (k + 1)⟩ := by
  rintro ⟨hfit, hplaces⟩
  dsimp only at hfit hplaces
  rcases h with rfl | hfull
  · omega
  · have hle : (10 * m + v) * 1 ≤ (10 * m + v) * 10 ^ k :=
      Nat.mul_le_mul_left _ (Nat.one_le_pow k 10 (by decide))
    have he : m * 10 ^ (k + 1) + v * 10 ^ k = (10 * m + v) * 10 ^ k := by ring
    omega

/-- Rounding by the next digit is rounding by all that follow. -/
theorem fitted_roundAt {negative : Bool} {m s v k r : ℕ} {d : Decimal}
    (h : roundAt negative m s v = some d) (hm : m ≤ greatest) (hs : s ≤ greatestScale)
    (hv : v < 10) (hr : r < 10 ^ k) (hfull : s = greatestScale ∨ greatest < 10 * m + v) :
    Fitted ⟨negative, m * 10 ^ (k + 1) + (v * 10 ^ k + r), s + (k + 1)⟩ d := by
  have hg := greatest_eq
  have hpow : 10 ^ (k + 1) = 10 * 10 ^ k := by ring
  have hrow : v * 10 ^ k + r < 10 ^ (k + 1) := by
    have := Nat.mul_le_mul_right (10 ^ k) (Nat.le_of_lt_succ hv)
    omega
  have hexcess := @not_fits_row negative m s v k r hfull
  unfold roundAt at h
  split at h
  · next hlow =>
    obtain rfl := Option.some.inj h
    have hdown : ¬ 10 ^ (k + 1) ≤ 2 * (v * 10 ^ k + r) := by
      have := Nat.mul_le_mul_right (10 ^ k) (Nat.le_of_lt_succ hlow)
      omega
    refine ⟨?_, ⟨hm, hs⟩, .inr (hfull.imp id fun hf => ?_), fun hfit => absurd hfit hexcess⟩
    · rw [round_row negative m s hrow, if_neg hdown]
    · dsimp only
      omega
  · next hhigh =>
    have hup : 10 ^ (k + 1) ≤ 2 * (v * 10 ^ k + r) := by
      have := Nat.mul_le_mul_right (10 ^ k) (not_lt.mp hhigh)
      omega
    split at h
    · next hroom =>
      obtain rfl := Option.some.inj h
      refine ⟨?_, ⟨hroom, hs⟩, .inr (hfull.imp id fun hf => ?_), fun hfit => absurd hfit hexcess⟩
      · rw [round_row negative m s hrow, if_pos hup]
      · dsimp only
        omega
    · next hcarry =>
      split at h
      · cases h
      · next hs0 =>
        obtain rfl := Option.some.inj h
        obtain rfl : m = greatest := by omega
        obtain ⟨s, rfl⟩ := Nat.exists_eq_succ_of_ne_zero hs0
        refine ⟨(round_carry negative s hrow).symm, ⟨?_, ?_⟩, .inr (.inr ?_),
          fun hfit => absurd hfit hexcess⟩
        · exact show (greatest + 5) / 10 ≤ greatest by decide
        · dsimp only
          omega
        · exact show greatest < 10 * ((greatest + 5) / 10) by decide

theorem ne_of_isDigit {c a : Char} (h : c.isDigit = true) (ha : a.isDigit = false) : c ≠ a := by
  rintro rfl
  rw [h] at ha
  cases ha

/-- The digits of a text, whatever stands between them. -/
def digitsOf (cs : List Char) : List Char := cs.filter Char.isDigit

/-- The digits behind the first point. -/
def fractionOf (cs : List Char) : List Char := digitsOf (cs.dropWhile (· != '.'))

@[simp] theorem digitsOf_nil : digitsOf [] = [] := rfl

theorem digitsOf_cons_digit {c : Char} (h : c.isDigit = true) (cs : List Char) :
    digitsOf (c :: cs) = c :: digitsOf cs := List.filter_cons_of_pos h

theorem digitsOf_cons_other {c : Char} (h : ¬ c.isDigit = true) (cs : List Char) :
    digitsOf (c :: cs) = digitsOf cs := List.filter_cons_of_neg h

theorem isDigit_of_mem_digitsOf {c : Char} {cs : List Char} (h : c ∈ digitsOf cs) :
    c.isDigit = true := (List.mem_filter.mp h).2

theorem fractionOf_point (cs : List Char) : fractionOf ('.' :: cs) = digitsOf cs := by
  rw [fractionOf, List.dropWhile_cons_of_neg (by simp), digitsOf_cons_other (by decide)]

theorem fractionOf_cons {c : Char} (h : c ≠ '.') (cs : List Char) :
    fractionOf (c :: cs) = fractionOf cs := by
  rw [fractionOf, List.dropWhile_cons_of_pos (by simpa using h), fractionOf]

theorem fitted_roundRest {negative : Bool} {m s : ℕ} {rest : List Char} {d : Decimal}
    (h : roundRest negative m s rest = some d) (hm : m ≤ greatest) (hs : s ≤ greatestScale)
    (hfull : ∀ c ds, digitsOf rest = c :: ds →
      s = greatestScale ∨ greatest < 10 * m + Double.digitValue c) :
    Fitted ⟨negative, m * 10 ^ (digitsOf rest).length + Double.digitsValue (digitsOf rest),
      s + (digitsOf rest).length⟩ d := by
  unfold roundRest at h
  split at h
  · have hfind : rest.find? Char.isDigit = (digitsOf rest).head? := List.head?_filter.symm
    rw [hfind] at h
    cases hd : digitsOf rest with
    | nil =>
      rw [hd] at h
      obtain rfl := Option.some.inj h
      have he : (⟨negative, m * 10 ^ 0 + 0, s + 0⟩ : Decimal) = ⟨negative, m, s⟩ := by simp
      show Fitted ⟨negative, m * 10 ^ 0 + 0, s + 0⟩ _
      rw [he]
      exact .refl ⟨hm, hs⟩
    | cons c ds =>
      rw [hd] at h
      have hdigits : ∀ a ∈ c :: ds, a.isDigit = true := fun a ha =>
        isDigit_of_mem_digitsOf (hd ▸ ha)
      obtain ⟨hc, hds⟩ := List.forall_mem_cons.mp hdigits
      rw [Double.digitsValue_cons]
      exact fitted_roundAt h hm hs (Double.digitValue_lt hc) (Double.digitsValue_lt hds)
        (hfull c ds hd)
  · cases h

/-- What the reader has read, with all the digits that are still to come. -/
def Partial.whole (p : Partial) (cs : List Char) : Decimal :=
  ⟨p.negative, p.mantissa * 10 ^ (digitsOf cs).length + Double.digitsValue (digitsOf cs),
    p.scale + (if p.afterPoint then digitsOf cs else fractionOf cs).length⟩

def Partial.push (p : Partial) (c : Char) : Partial :=
  { p with
    mantissa := 10 * p.mantissa + Double.digitValue c
    scale := if p.afterPoint then p.scale + 1 else 0
    anyDigit := true }

theorem readDigits_digit {c : Char} (h : c.isDigit = true) (p : Partial) (cs : List Char) :
    readDigits p (c :: cs) =
      if greatest < (p.push c).mantissa then
        if p.afterPoint then roundRest p.negative p.mantissa p.scale (c :: cs) else none
      else if p.afterPoint && greatestScale ≤ (p.push c).scale then
        roundRest p.negative (p.push c).mantissa (p.push c).scale cs
      else readDigits (p.push c) cs := by
  rw [readDigits, if_pos h]
  rfl

theorem Partial.whole_push {p : Partial} {c : Char} (hc : c.isDigit = true)
    (hpoint : p.afterPoint = false → p.scale = 0) (cs : List Char) :
    (p.push c).whole cs = p.whole (c :: cs) := by
  unfold push whole
  rw [digitsOf_cons_digit hc, Double.digitsValue_cons, fractionOf_cons (ne_of_isDigit hc rfl)]
  cases hafter : p.afterPoint with
  | true =>
    simp only [reduceIte, List.length_cons, Decimal.mk.injEq, true_and]
    constructor <;> ring
  | false =>
    simp only [Bool.false_eq_true, reduceIte, List.length_cons, Decimal.mk.injEq, true_and,
      hpoint hafter, and_true]
    ring

theorem Partial.whole_point {p : Partial} (h : p.afterPoint = false) (cs : List Char) :
    { p with afterPoint := true }.whole cs = p.whole ('.' :: cs) := by
  simp [whole, h, digitsOf_cons_other, fractionOf_point]

theorem readDigits_point {p : Partial} (h : p.afterPoint = false) (cs : List Char) :
    readDigits p ('.' :: cs) = readDigits { p with afterPoint := true } cs := by
  rw [readDigits, if_neg (by decide), if_pos (by simp [h])]

section Full

variable {p : Partial} {c : Char} {cs : List Char} {d : Decimal}

/-- The next digit does not fit into the mantissa. -/
theorem fitted_of_full_mantissa (hc : c.isDigit = true) (hafter : p.afterPoint = true)
    (hm : p.mantissa ≤ greatest) (hs : p.scale ≤ greatestScale)
    (hfull : greatest < (p.push c).mantissa)
    (h : roundRest p.negative p.mantissa p.scale (c :: cs) = some d) :
    Fitted (p.whole (c :: cs)) d := by
  have hfit := fitted_roundRest h hm hs fun a ds ha => by
    obtain ⟨rfl, -⟩ := List.cons.inj ((digitsOf_cons_digit hc cs).symm.trans ha)
    exact .inr hfull
  simpa [Partial.whole, hafter] using hfit

/-- The digit is the last one that there is a place for. -/
theorem fitted_of_last_place (hafter : p.afterPoint = true)
    (hm : (p.push c).mantissa ≤ greatest) (hs : (p.push c).scale = greatestScale)
    (h : roundRest p.negative (p.push c).mantissa (p.push c).scale cs = some d) :
    Fitted ((p.push c).whole cs) d := by
  have hfit := fitted_roundRest h hm hs.le fun _ _ _ => .inl hs
  simpa [Partial.whole, Partial.push, hafter] using hfit

end Full

/-- What is read is the amount with all of its digits, as far as there is room for them. -/
theorem fitted_readDigits {p : Partial} {cs : List Char} {d : Decimal}
    (h : readDigits p cs = some d) (hm : p.mantissa ≤ greatest) (hs : p.scale < greatestScale)
    (hpoint : p.afterPoint = false → p.scale = 0) : Fitted (p.whole cs) d := by
  induction cs generalizing p with
  | nil =>
    rw [readDigits] at h
    split at h
    · obtain rfl := Option.some.inj h
      have he : p.whole [] = ⟨p.negative, p.mantissa, p.scale⟩ := by
        simp [Partial.whole, fractionOf, Double.digitsValue]
      rw [he]
      exact .refl ⟨hm, hs.le⟩
    · cases h
  | cons c cs ih =>
    by_cases hc : c.isDigit = true
    · rw [readDigits_digit hc] at h
      have hscale : (p.push c).scale ≤ greatestScale := by
        simp only [Partial.push]
        split
        · exact hs
        · exact Nat.zero_le _
      split at h
      · next hbig =>
        split at h
        · next hafter => exact fitted_of_full_mantissa hc hafter hm hs.le hbig h
        · cases h
      · next hsmall =>
        rw [← p.whole_push hc hpoint]
        split at h
        · next hfull =>
          obtain ⟨hafter, hplaces⟩ := Bool.and_eq_true_iff.mp hfull
          exact fitted_of_last_place hafter (not_lt.mp hsmall)
            (hscale.antisymm (of_decide_eq_true hplaces)) h
        · next hfull =>
          refine ih h (not_lt.mp hsmall) ?_ fun hafter => ?_
          · cases hafter : p.afterPoint with
            | true =>
              have hroom : ¬ greatestScale ≤ (p.push c).scale := fun hle =>
                hfull (by simp [hafter, hle])
              omega
            | false =>
              rw [show (p.push c).scale = 0 by simp [Partial.push, hafter]]
              decide
          · simp only [Partial.push] at hafter ⊢
            simp [hafter]
    · by_cases hdot : c = '.' ∧ p.afterPoint = false
      · obtain ⟨rfl, hafter⟩ := hdot
        rw [readDigits_point hafter] at h
        rw [← Partial.whole_point hafter]
        exact ih h hm hs (fun h => Bool.noConfusion h)
      · rw [readDigits, if_neg hc, if_neg (by simpa using hdot)] at h
        split at h
        · next hline =>
          obtain rfl : c = '_' := by simpa using (Bool.and_eq_true_iff.mp hline).1
          have hfit := ih h hm hs hpoint
          simpa [Partial.whole, digitsOf_cons_other hc, fractionOf_cons] using hfit
        · cases h

theorem plain_of_readDigits {p : Partial} {cs : List Char} {d : Decimal}
    (h : readDigits p cs = some d) : ∀ c ∈ cs, c.isDigit = true ∨ c = '.' ∨ c = '_' := by
  have hrest : ∀ {negative m s rest}, roundRest negative m s rest = some d →
      ∀ c ∈ rest, c.isDigit = true ∨ c = '.' ∨ c = '_' := by
    intro negative m s rest hr c hc
    unfold roundRest at hr
    split at hr
    · next hall =>
      have := List.all_eq_true.mp hall c hc
      rw [Bool.or_eq_true, beq_iff_eq] at this
      exact this.imp id .inr
    · cases hr
  induction cs generalizing p with
  | nil => exact nofun
  | cons c cs ih =>
    by_cases hc : c.isDigit = true
    · rw [readDigits_digit hc] at h
      refine List.forall_mem_cons.mpr ⟨.inl hc, ?_⟩
      split at h
      · split at h
        · exact (List.forall_mem_cons.mp (hrest h)).2
        · cases h
      · split at h
        · exact hrest h
        · exact ih h
    · rw [readDigits, if_neg hc] at h
      split at h
      · next hdot =>
        obtain rfl : c = '.' := by simpa using (Bool.and_eq_true_iff.mp hdot).1
        exact List.forall_mem_cons.mpr ⟨.inr (.inl rfl), ih h⟩
      · split at h
        · next hline =>
          obtain rfl : c = '_' := by simpa using (Bool.and_eq_true_iff.mp hline).1
          exact List.forall_mem_cons.mpr ⟨.inr (.inr rfl), ih h⟩
        · cases h

/-- The amount of a text without an exponent, with all of its digits. -/
def ofText (cs : List Char) : Decimal :=
  ⟨cs.head? == some '-', Double.digitsValue (digitsOf cs), (fractionOf cs).length⟩

theorem readPlain?_eq (cs : List Char) : ∃ (p : Partial) (ds : List Char),
    readPlain? cs = readDigits p ds ∧ p.mantissa = 0 ∧ p.scale = 0 ∧ p.afterPoint = false ∧
      ofText cs = p.whole ds ∧ ∀ c ∈ cs, c = '-' ∨ c = '+' ∨ c ∈ ds := by
  unfold readPlain?
  split
  · next ds =>
    refine ⟨_, ds, rfl, rfl, rfl, rfl, ?_, by simp +contextual⟩
    simp [ofText, Partial.whole, digitsOf_cons_other, fractionOf_cons]
  · next ds =>
    refine ⟨_, ds, rfl, rfl, rfl, rfl, ?_, by simp +contextual⟩
    simp [ofText, Partial.whole, digitsOf_cons_other, fractionOf_cons]
  · next hminus _ =>
    refine ⟨_, cs, rfl, rfl, rfl, rfl, ?_, fun c hc => .inr (.inr hc)⟩
    have hhead : (cs.head? == some '-') = false := by
      cases cs with
      | nil => rfl
      | cons c cs =>
        have hne : c ≠ '-' := fun he => hminus cs (he ▸ rfl)
        simpa using hne
    simp [ofText, Partial.whole, hhead]

theorem fitted_readPlain {cs : List Char} {d : Decimal} (h : readPlain? cs = some d) :
    Fitted (ofText cs) d := by
  obtain ⟨p, ds, hread, hm, hs, -, hwhole, -⟩ := readPlain?_eq cs
  rw [hread] at h
  rw [hwhole]
  exact fitted_readDigits h (by rw [hm]; decide) (by rw [hs]; decide) fun _ => hs

def isMark (c : Char) : Bool := c == 'e' || c == 'E'

theorem isMark_eq : (fun c => c != 'e' && c != 'E') = (!isMark ·) := by
  funext c
  simp [isMark, bne]

theorem not_isMark_of_isDigit {c : Char} (h : c.isDigit = true) : isMark c = false := by
  simp [isMark, ne_of_isDigit h (show 'e'.isDigit = false from rfl),
    ne_of_isDigit h (show 'E'.isDigit = false from rfl)]

theorem not_isMark_of_readPlain {cs : List Char} {d : Decimal} (h : readPlain? cs = some d) :
    ∀ c ∈ cs, isMark c = false := by
  obtain ⟨p, ds, hread, -, -, -, -, hmem⟩ := readPlain?_eq cs
  rw [hread] at h
  intro c hc
  rcases hmem c hc with rfl | rfl | hc
  · rfl
  · rfl
  · rcases plain_of_readDigits h c hc with hd | rfl | rfl
    · exact not_isMark_of_isDigit hd
    · rfl
    · rfl

/-- The amount that is written in front of the exponent. -/
def significandOf (cs : List Char) : Decimal := ofText (cs.takeWhile (!isMark ·))

def signedExponent (cs : List Char) : ℤ :=
  if cs.head? = some '-' then -Double.digitsValue (digitsOf cs)
  else Double.digitsValue (digitsOf cs)

def exponentOf (cs : List Char) : ℤ := signedExponent (cs.dropWhile (!isMark ·)).tail

/-- The number that a text stands for, with all of its digits. -/
def statedValue (cs : List Char) : ℚ := (significandOf cs).value * 10 ^ exponentOf cs

/-- An amount that is read for the number `e * 10 ^ n`. Where that has too many places for an
amount, it is rounded twice: first the digits in front of the exponent, then the places that
the exponent moves too far to the right. -/
structure Reads (e : Decimal) (n : ℤ) (d : Decimal) : Prop where
  negative : d.negative = e.negative
  rounded : ∃ t, d.scale ≤ t ∧ (t = d.scale ∨ d.scale = greatestScale) ∧
    d.magnitude = nearest d.scale (nearest t (e.magnitude * 10 ^ n))
  exact_of_fits : e.Fits → (e.scale : ℤ) - n ≤ greatestScale → d.magnitude = e.magnitude * 10 ^ n

theorem Fitted.negative_eq {e d : Decimal} (h : Fitted e d) : d.negative = e.negative := by
  rw [h.eq_round, negative_round]

theorem Fitted.magnitude_eq {e d : Decimal} (h : Fitted e d) :
    d.magnitude = nearest d.scale e.magnitude := by
  conv_lhs => rw [h.eq_round]
  exact magnitude_round e d.scale

theorem Fitted.reads {e d : Decimal} (h : Fitted e d) : Reads e 0 d := by
  refine ⟨h.negative_eq, ⟨d.scale, le_rfl, .inl rfl, ?_⟩, fun hfit _ => ?_⟩
  · rw [zpow_zero, mul_one, nearest_nearest, h.magnitude_eq]
  · rw [zpow_zero, mul_one, h.eq_of_fits hfit]

theorem exists_shift_left (b : Decimal) {n : ℕ} (h : n ≤ greatestScale) :
    ∃ d, b.shift? true n = some d ∧ n ≤ d.scale := by
  rw [shift?, if_neg (not_lt.mpr h)]
  split
  · exact ⟨_, rfl, Nat.le_add_left _ _⟩
  · exact ⟨_, rfl, h⟩

theorem reads_shift_left {e b d : Decimal} {n : ℕ} (hb : Fitted e b)
    (h : b.shift? true n = some d) : Reads e (-n) d := by
  have hx : e.magnitude * 10 ^ (-n : ℤ) = e.magnitude / 10 ^ n := by
    rw [zpow_neg, zpow_natCast, div_eq_mul_inv]
  rw [shift?] at h
  split at h
  · cases h
  · next hn =>
    rw [not_lt] at hn
    split at h
    · next hroom =>
      obtain rfl := Option.some.inj h
      have hd : (⟨b.negative, b.mantissa, b.scale + n⟩ : Decimal).magnitude =
          b.magnitude / 10 ^ n := by
        rw [magnitude, magnitude, pow_add, div_div]
      refine ⟨hb.negative_eq, ⟨b.scale + n, le_rfl, .inl rfl, ?_⟩, fun hfit _ => ?_⟩
      · rw [hx, nearest_nearest, hd, hb.magnitude_eq, nearest_div_pow]
      · rw [hx, hd, hb.eq_of_fits hfit]
    · next hfull =>
      obtain rfl := Option.some.inj h
      have hscale : (b.round (greatestScale - n)).scale = greatestScale - n := by
        rw [scale_round]
        omega
      have hd : ({ b.round (greatestScale - n) with scale := greatestScale } : Decimal).magnitude =
          nearest (greatestScale - n) b.magnitude / 10 ^ n := by
        rw [← magnitude_round, magnitude, magnitude, hscale, div_div, ← pow_add,
          Nat.sub_add_cancel hn]
      refine ⟨?_, ⟨b.scale + n, ?_, .inr rfl, ?_⟩, fun hfit hplaces => ?_⟩
      · exact (b.negative_round _).trans hb.negative_eq
      · exact (not_le.mp hfull).le
      · rw [hx, hd, hb.magnitude_eq, nearest_div_pow b.scale]
        show _ = nearest greatestScale _
        rw [← nearest_div_pow, Nat.sub_add_cancel hn]
      · rw [← hb.eq_of_fits hfit] at hplaces
        omega

theorem reads_shift_right {e b d : Decimal} {n : ℕ} (hb : Fitted e b)
    (h : b.shift? false n = some d) : Reads e n d := by
  rw [shift?] at h
  split at h
  · next hn =>
    obtain rfl := Option.some.inj h
    have hd : (⟨b.negative, b.mantissa, b.scale - n⟩ : Decimal).magnitude =
        b.magnitude * 10 ^ n := by
      rw [magnitude, magnitude, ← pow_sub_mul_pow (10 : ℚ) hn]
      field_simp
    refine ⟨hb.negative_eq, ⟨b.scale - n, le_rfl, .inl rfl, ?_⟩, fun hfit _ => ?_⟩
    · rw [zpow_natCast, nearest_nearest, hd, hb.magnitude_eq, nearest_of_le _ _ hn]
    · rw [zpow_natCast, hd, hb.eq_of_fits hfit]
  · next hn =>
    simp only at h
    split at h
    · next hroom =>
      obtain rfl := Option.some.inj h
      obtain ⟨hplaces, hfit⟩ := hroom
      -- digits that were dropped leave no room for a further one
      have hbe : b = e := by
        rcases hb.room with hbe | hs | hg
        · exact hbe
        · omega
        · obtain ⟨k, hk⟩ := Nat.exists_eq_succ_of_ne_zero (show n - b.scale ≠ 0 by omega)
          rw [hk, Nat.pow_eq, pow_succ] at hfit
          have := Nat.mul_le_mul_left (10 * b.mantissa) (Nat.one_le_pow k 10 (by decide))
          have he : b.mantissa * (10 ^ k * 10) = 10 * b.mantissa * 10 ^ k := by ring
          omega
      subst hbe
      have hd : (⟨b.negative, b.mantissa * Nat.pow 10 (n - b.scale), 0⟩ : Decimal).magnitude =
          b.magnitude * 10 ^ n := by
        rw [magnitude, magnitude, ← pow_sub_mul_pow (10 : ℚ) (show b.scale ≤ n by omega),
          Nat.pow_eq]
        push_cast
        field_simp
      refine ⟨rfl, ⟨0, le_rfl, .inl rfl, ?_⟩, fun _ _ => ?_⟩
      · rw [zpow_natCast, nearest_nearest, ← hd]
        exact (nearest_of_multiple (k := (b.mantissa * Nat.pow 10 (n - b.scale) : ℕ)) (by
          rw [magnitude]
          simp)).symm
      · rw [zpow_natCast, hd]
    · cases h

theorem readExponent?_eq {cs : List Char} {n : ℕ} (h : readExponent? cs = some n) :
    n = Double.digitsValue (digitsOf cs) := by
  have hunsigned : ∀ ds, (if ds.isEmpty || !ds.all Char.isDigit then none
      else some (Double.digitsValue ds)) = some n → n = Double.digitsValue (digitsOf ds) := by
    intro ds hds
    split at hds
    · cases hds
    · next hdigits =>
      obtain rfl := Option.some.inj hds
      have hall : ds.all Char.isDigit = true := by
        simp only [Bool.or_eq_true, not_or] at hdigits
        simpa using hdigits.2
      rw [digitsOf, List.filter_eq_self.mpr (List.all_eq_true.mp hall)]
  unfold readExponent? at h
  split at h
  · rw [digitsOf_cons_other (by decide)]
    exact hunsigned _ h
  · exact hunsigned _ h

theorem significandOf_unmarked {cs : List Char} (h : ∀ c ∈ cs, isMark c = false) :
    significandOf cs = ofText cs ∧ exponentOf cs = 0 := by
  have htake : cs.takeWhile (!isMark ·) = cs :=
    List.takeWhile_eq_self_iff.mpr (by simpa using h)
  have hdrop : cs.dropWhile (!isMark ·) = [] :=
    List.dropWhile_eq_nil_iff.mpr (by simpa using h)
  rw [significandOf, exponentOf, htake, hdrop]
  exact ⟨rfl, rfl⟩

/-- What is read for a text is its number, as far as there is room for its digits. -/
theorem reads_read? {cs : List Char} {d : Decimal} (h : read? cs = some d) :
    Reads (significandOf cs) (exponentOf cs) d := by
  rw [read?, Option.orElse_eq_some] at h
  rcases h with hplain | ⟨-, hscientific⟩
  · obtain ⟨hsignificand, hexponent⟩ := significandOf_unmarked (not_isMark_of_readPlain hplain)
    rw [hsignificand, hexponent]
    exact (fitted_readPlain hplain).reads
  · rw [readScientific?, isMark_eq] at hscientific
    rw [exponentOf]
    split at hscientific
    · cases hscientific
    · next exponent hdrop =>
      rw [hdrop, List.tail_cons]
      obtain ⟨b, hb, hshift⟩ := Option.bind_eq_some_iff.mp hscientific
      have hb : Fitted (significandOf cs) b := fitted_readPlain hb
      split at hshift
      · next digits =>
        obtain ⟨n, hn, hshift⟩ := Option.bind_eq_some_iff.mp hshift
        obtain rfl := readExponent?_eq hn
        rw [show signedExponent ('-' :: digits) = -Double.digitsValue (digitsOf digits) by
          simp [signedExponent, digitsOf_cons_other]]
        exact reads_shift_left hb hshift
      · next hminus =>
        obtain ⟨n, hn, hshift⟩ := Option.bind_eq_some_iff.mp hshift
        obtain rfl := readExponent?_eq hn
        have hhead : exponent.head? ≠ some '-' := by
          intro hhead
          obtain ⟨ds, rfl⟩ := List.head?_eq_some_iff.mp hhead
          exact hminus ds rfl
        rw [signedExponent, if_neg hhead]
        exact reads_shift_right hb hshift

theorem Reads.value_eq {e d : Decimal} {n : ℤ} (h : Reads e n d) :
    ∃ t, d.scale ≤ t ∧ (t = d.scale ∨ d.scale = greatestScale) ∧
      d.value = halfAway d.scale (halfAway t (e.value * 10 ^ n)) := by
  obtain ⟨t, ht, hfull, hmagnitude⟩ := h.rounded
  have hnonneg : 0 ≤ e.magnitude * 10 ^ n := mul_nonneg e.magnitude_nonneg (by positivity)
  have ht₀ := nearest_nonneg t hnonneg
  refine ⟨t, ht, hfull, ?_⟩
  rw [value, h.negative, hmagnitude, value]
  split
  · rw [neg_mul, halfAway_neg t hnonneg, halfAway_neg d.scale ht₀]
  · rw [halfAway_of_nonneg t hnonneg, halfAway_of_nonneg d.scale ht₀]

theorem Reads.value_eq_of_fits {e d : Decimal} {n : ℤ} (h : Reads e n d) (hfit : e.Fits)
    (hplaces : (e.scale : ℤ) - n ≤ greatestScale) : d.value = e.value * 10 ^ n := by
  rw [value, h.negative, h.exact_of_fits hfit hplaces, value]
  split
  · rw [neg_mul]
  · rfl

end Decimal

theorem halfAway_halfAway (places : ℕ) (x : ℚ) :
    halfAway places (halfAway places x) = halfAway places x := by
  rcases le_or_gt 0 x with hx | hx
  · rw [halfAway_of_nonneg places hx, halfAway_of_nonneg places (nearest_nonneg places hx),
      nearest_nearest]
  · obtain ⟨y, rfl⟩ : ∃ y, x = -y := ⟨-x, (neg_neg x).symm⟩
    have hy : 0 ≤ y := by linarith
    rw [halfAway_neg places hy, halfAway_neg places (nearest_nonneg places hy), nearest_nearest]

theorem nearest_halfCent {places : ℕ} (h : 3 ≤ places) (k : ℕ) :
    nearest places ((2 * k + 1) / 200) = (2 * k + 1) / 200 := by
  apply nearest_of_multiple (k := (2 * k + 1) * 5 * 10 ^ (places - 3))
  rw [← pow_sub_mul_pow (10 : ℚ) h]
  push_cast
  ring

/-- Rounding to more than two places and then to two is rounding to two places, unless the first
rounding goes up to a half cent. -/
theorem halfAway_two_eq_iff {s t : ℕ} (hs : 3 ≤ s) (hst : s ≤ t) (v : ℚ) :
    halfAway 2 (halfAway s (halfAway t v)) = halfAway 2 v ↔
      ¬ (|v| < |halfAway s (halfAway t v)| ∧ IsHalfCent |halfAway s (halfAway t v)|) := by
  have hnonneg : ∀ x : ℚ, 0 ≤ x → (nearest 2 (nearest s (nearest t x)) = nearest 2 x ↔
      ¬ (x < nearest s (nearest t x) ∧ IsHalfCent (nearest s (nearest t x)))) := by
    intro x hx
    refine nearest_two_eq_iff hx (nearest_nonneg s (nearest_nonneg t hx)) ?_ ?_ <;> intro k hk <;>
      rw [← nearest_halfCent hs k, ← nearest_halfCent (hs.trans hst) k]
    · exact nearest_mono s (nearest_mono t hk)
    · exact nearest_mono s (nearest_mono t hk)
  rw [abs_halfAway, abs_halfAway, ← hnonneg |v| (abs_nonneg v)]
  rcases le_or_gt 0 v with hv | hv
  · have ht := nearest_nonneg t hv
    rw [halfAway_of_nonneg t hv, halfAway_of_nonneg s ht, halfAway_of_nonneg 2 hv,
      halfAway_of_nonneg 2 (nearest_nonneg s ht), abs_of_nonneg hv]
  · obtain ⟨x, rfl⟩ : ∃ x, v = -x := ⟨-v, (neg_neg v).symm⟩
    have hx : 0 ≤ x := by linarith
    have ht := nearest_nonneg t hx
    rw [halfAway_neg t hx, halfAway_neg s ht, halfAway_neg 2 hx,
      halfAway_neg 2 (nearest_nonneg s ht), abs_neg, abs_of_nonneg hx, neg_inj]

/-- A decimal below a thousandth keeps below half a cent, however it is rounded. -/
theorem halfAway_two_of_small {v : ℚ} {s t : ℕ} (hs : 3 ≤ s) (hst : s ≤ t) (hv : |v| ≤ 1 / 1000) :
    halfAway 2 (halfAway s (halfAway t v)) = halfAway 2 v := by
  have hfixed : ∀ n, 3 ≤ n → nearest n (1 / 1000) = 1 / 1000 := by
    intro n hn
    apply nearest_of_multiple (k := 10 ^ (n - 3))
    rw [← pow_sub_mul_pow (10 : ℚ) hn]
    push_cast
    ring
  rw [halfAway_two_eq_iff hs hst]
  rintro ⟨-, k, hk⟩
  have hle : nearest s (nearest t |v|) ≤ 1 / 1000 := by
    rw [← hfixed s hs, ← hfixed t (hs.trans hst)]
    exact nearest_mono s (nearest_mono t hv)
  rw [abs_halfAway, abs_halfAway] at hk
  have hk₀ : (0 : ℚ) ≤ k := k.cast_nonneg
  linarith

theorem Filter.currency_apply (format : Format) (args : List Literal) {v : Value}
    (h : Resolved.isEmptyText (some v) = false) : Filter.currency.apply format args (some v) =
      match amountOf v with
      | .ok d => .ok (some (.text (writeCurrency d ((firstText? args).getD format.currency))))
      | .error fault => .error ⟨.currency, fault⟩ := by
  rw [apply_some (by decide) format args h, applyPresent, applyCurrency]
  cases amountOf v <;> rfl

theorem amountOf_text_eq_ok {s : String} {d : Decimal} (h : amountOf (.text s) = .ok d) :
    Decimal.read? (Text.trim s.toList) = some d := by
  rw [Value.text, amountOf] at h
  split at h
  · next hd => exact Except.ok.inj h ▸ hd
  · split at h <;> cases h

open Decimal

/-- What is written for a text is the amount that is read for its number, rounded to two places.
A number whose digits fit into an amount is rounded but once; so is one with less than three
places of room for it, to as many places as there are. The others lose places before they are
rounded to two, which shows where it takes them up to a half cent. -/
theorem currency_text {format : Format} {args : List Literal} {s : String} {r : Resolved}
    (h : Filter.currency.apply format args (some (.text s)) = .ok r) (hs : s ≠ "") :
    ∃ (f : Figure) (d : Decimal), let cs := Text.trim s.toList
      r = some (.text (f.render ((firstText? args).getD format.currency))) ∧ f.Proper ∧
      read? cs = some d ∧ f.value = halfAway 2 d.value ∧
      (∃ t, d.scale ≤ t ∧ (t = d.scale ∨ d.scale = greatestScale) ∧
        d.value = halfAway d.scale (halfAway t (statedValue cs))) ∧
      ((significandOf cs).Fits → ((significandOf cs).scale : ℤ) - exponentOf cs ≤ greatestScale →
        f.value = halfAway 2 (statedValue cs)) ∧
      (d.scale < 3 → f.value = halfAway d.scale (statedValue cs)) ∧
      (3 ≤ d.scale → (f.value = halfAway 2 (statedValue cs) ↔
        ¬ (|statedValue cs| < |d.value| ∧ IsHalfCent |d.value|))) := by
  have hs : Resolved.isEmptyText (some (.text s)) = false := by
    show s.isEmpty = false
    simpa using hs
  rw [Filter.currency_apply format args hs] at h
  split at h
  · next d hamount =>
    have hd := amountOf_text_eq_ok hamount
    have hreads := reads_read? hd
    obtain ⟨f, hf, hproper, hvalue, -⟩ := d.exists_figure ((firstText? args).getD format.currency)
    obtain ⟨t, ht, hfull, hround⟩ := hreads.value_eq
    refine ⟨f, d, hf ▸ (Except.ok.inj h).symm, hproper, hd, hvalue, ⟨t, ht, hfull, hround⟩, ?_, ?_,
      ?_⟩
    · intro hfit hplaces
      rw [hvalue, hreads.value_eq_of_fits hfit hplaces, statedValue]
    · intro hscale
      have ht : t = d.scale := hfull.resolve_right fun h28 => by
        rw [h28] at hscale
        exact absurd hscale (by decide)
      rw [hvalue, ← value_round, round_of_scale_le (by omega), hround, ht, halfAway_halfAway,
        statedValue]
    · intro hscale
      rw [hvalue, hround]
      exact halfAway_two_eq_iff hscale ht _
  · cases h

/-- Just below half a cent, with two digits more than there is room for. -/
theorem currency_text_below_half_cent :
    let s := "0.004999999999999999999999999999"
    Filter.currency.apply .standard [] (some (.text s)) = .ok (some (.text "$0.01")) ∧
    halfAway 2 (statedValue s.toList) = 0 ∧
    ∃ f : Figure, "$0.01" = f.render "USD" ∧ f.value = 1 / 100 := by
  intro s
  have hread : read? (Text.trim s.toList) = some ⟨false, 50000000000000000000000000, 28⟩ := by
    decide +kernel
  have hwrite : writeCurrency ⟨false, 50000000000000000000000000, 28⟩ "USD" = "$0.01" := by
    decide +kernel
  have h : Filter.currency.apply .standard [] (some (.text s)) = .ok (some (.text "$0.01")) := by
    rw [Filter.currency_apply .standard [] (by decide +kernel), Value.text, amountOf]
    simp only [hread]
    exact congrArg (fun t => Except.ok (some (Value.text t))) hwrite
  have hstated : statedValue s.toList = 4999999999999999999999999999 / 10 ^ 30 := by
    have hs : significandOf s.toList = ⟨false, 4999999999999999999999999999, 30⟩ := by
      decide +kernel
    have hn : exponentOf s.toList = 0 := by decide +kernel
    rw [statedValue, hs, hn, value, magnitude]
    norm_num
  obtain ⟨f, d, hf, -, hd, hvalue, -⟩ := currency_text h (by decide)
  obtain rfl := Option.some.inj (hread.symm.trans hd)
  refine ⟨h, ?_, f, Scalar.text.inj (Value.scalar.inj (Option.some.inj hf)), ?_⟩
  · rw [hstated]
    norm_num [halfAway, nearest]
  · rw [hvalue]
    norm_num [halfAway, nearest, value, magnitude]

end Proforma
