import Proforma.Proofs.Amounts
import Proforma.Proofs.Shortening

/-!
Amounts that are read from decimals. A decimal is written positionally or with an exponent, and both
texts are read back: a positional one exactly, one with an exponent as far as the exponent leaves
room for. It is rejected if it is greater than all amounts, and also if its first digit stands
behind the last place that an amount has.
-/
namespace Proforma

namespace Decimal

open Double (digitsValue)

/-- Digits with at most one point are read as they are where they fit. -/
theorem readDigits_eq_whole {p : Partial} {cs : List Char}
    (hchars : ∀ c ∈ cs, c.isDigit = true ∨ c = '.')
    (hpoints : cs.count '.' + (if p.afterPoint then 1 else 0) ≤ 1)
    (hdigit : p.anyDigit = true ∨ ∃ c ∈ cs, c.isDigit = true)
    (hpoint : p.afterPoint = false → p.scale = 0) (hm : (p.whole cs).mantissa ≤ greatest)
    (hs : (p.whole cs).scale < greatestScale) : readDigits p cs = some (p.whole cs) := by
  induction cs generalizing p with
  | nil =>
    have hany : p.anyDigit = true := by simpa using hdigit
    simp [readDigits, hany, Partial.whole, fractionOf, digitsValue]
  | cons c cs ih =>
    obtain ⟨hc, hcs⟩ := List.forall_mem_cons.mp hchars
    by_cases hd : c.isDigit = true
    · have hne : c ≠ '.' := ne_of_isDigit hd rfl
      rw [← p.whole_push hd hpoint] at hm hs ⊢
      have hfit : (p.push c).mantissa ≤ greatest := by
        have := Nat.le_mul_of_pos_right (p.push c).mantissa
          (show 0 < 10 ^ (digitsOf cs).length by positivity)
        simp only [Partial.whole] at hm
        omega
      have hroom : (p.push c).scale < greatestScale := lt_of_le_of_lt (Nat.le_add_right _ _) hs
      rw [readDigits_digit hd, if_neg (not_lt.mpr hfit), if_neg]
      · refine ih hcs ?_ (.inl rfl) ?_ hm hs
        · rw [List.count_cons_of_ne hne] at hpoints
          exact hpoints
        · intro hafter
          simp only [Partial.push] at hafter ⊢
          simp [hafter]
      · simp [hroom]
    · obtain rfl := hc.resolve_left hd
      have hafter : p.afterPoint = false := by
        rw [List.count_cons_self] at hpoints
        by_contra h
        rw [if_pos (Bool.not_eq_false _ ▸ h)] at hpoints
        omega
      rw [← Partial.whole_point hafter] at hm hs ⊢
      rw [readDigits_point hafter]
      refine ih hcs ?_ ?_ (fun h => Bool.noConfusion h) hm hs
      · rw [List.count_cons_self, hafter] at hpoints
        simpa using hpoints
      · rcases hdigit with h | ⟨a, ha, had⟩
        · exact .inl h
        · rcases List.mem_cons.mp ha with rfl | ha
          · exact absurd had hd
          · exact .inr ⟨a, ha, had⟩

def signed (negative : Bool) (cs : List Char) : List Char := if negative then '-' :: cs else cs

/-- A digit, and further digits behind it with at most one point among them. -/
structure IsPlain (cs : List Char) : Prop where
  head : ∃ c ds, cs = c :: ds ∧ c.isDigit = true
  chars : ∀ c ∈ cs, c.isDigit = true ∨ c = '.'
  points : cs.count '.' ≤ 1

theorem digitsOf_eq_self {cs : List Char} (h : ∀ c ∈ cs, c.isDigit = true) : digitsOf cs = cs :=
  List.filter_eq_self.mpr h

theorem fractionOf_digits_append {cs : List Char} (h : ∀ c ∈ cs, c.isDigit = true)
    (ds : List Char) : fractionOf (cs ++ ds) = fractionOf ds := by
  induction cs with
  | nil => rfl
  | cons c cs ih =>
    obtain ⟨hc, hcs⟩ := List.forall_mem_cons.mp h
    rw [List.cons_append, fractionOf_cons (ne_of_isDigit hc rfl), ih hcs]

section Plain

variable {whole fraction : List Char}

theorem digitsOf_pointed (hw : ∀ c ∈ whole, c.isDigit = true)
    (hf : ∀ c ∈ fraction, c.isDigit = true) :
    digitsOf (whole ++ '.' :: fraction) = whole ++ fraction := by
  have happ : digitsOf (whole ++ '.' :: fraction) = digitsOf whole ++ digitsOf ('.' :: fraction) :=
    List.filter_append whole _
  rw [happ, digitsOf_cons_other (by decide), digitsOf_eq_self hw, digitsOf_eq_self hf]

theorem fractionOf_pointed (hw : ∀ c ∈ whole, c.isDigit = true)
    (hf : ∀ c ∈ fraction, c.isDigit = true) : fractionOf (whole ++ '.' :: fraction) = fraction := by
  rw [fractionOf_digits_append hw, fractionOf_point, digitsOf_eq_self hf]

theorem fractionOf_digits (hw : ∀ c ∈ whole, c.isDigit = true) : fractionOf whole = [] := by
  rw [← List.append_nil whole, fractionOf_digits_append hw]
  rfl

theorem count_point_digits (hw : ∀ c ∈ whole, c.isDigit = true) : whole.count '.' = 0 :=
  List.count_eq_zero.mpr fun h => absurd (hw _ h) (by decide)

theorem isPlain_digits (hw : ∀ c ∈ whole, c.isDigit = true) (hne : whole ≠ []) :
    IsPlain whole := by
  refine ⟨?_, fun c hc => .inl (hw c hc), (count_point_digits hw).le.trans (by decide)⟩
  obtain ⟨c, ds, rfl⟩ := List.exists_cons_of_ne_nil hne
  exact ⟨c, ds, rfl, hw c List.mem_cons_self⟩

theorem isPlain_pointed (hw : ∀ c ∈ whole, c.isDigit = true)
    (hf : ∀ c ∈ fraction, c.isDigit = true) (hne : whole ≠ []) :
    IsPlain (whole ++ '.' :: fraction) := by
  obtain ⟨c, ds, rfl, hc⟩ := (isPlain_digits hw hne).head
  refine ⟨⟨c, ds ++ '.' :: fraction, rfl, hc⟩, ?_, ?_⟩
  · intro a ha
    rcases List.mem_append.mp ha with ha | ha
    · exact .inl (hw a ha)
    · exact (List.mem_cons.mp ha).symm.imp (hf a) id
  · rw [List.count_append, count_point_digits hw, List.count_cons_self, count_point_digits hf]

end Plain

section Signed

variable {cs : List Char}

theorem ofText_signed (h : IsPlain cs) (negative : Bool) : ofText (signed negative cs) =
    ⟨negative, digitsValue (digitsOf cs), (fractionOf cs).length⟩ := by
  obtain ⟨c, ds, rfl, hc⟩ := h.head
  cases negative with
  | true => simp [signed, ofText, digitsOf_cons_other, fractionOf_cons]
  | false =>
    simp [signed, ofText, ne_of_isDigit hc (show '-'.isDigit = false from rfl)]

/-- A plain text is read with all of its digits where they fit. -/
theorem readPlain?_signed (h : IsPlain cs) (negative : Bool)
    (hm : digitsValue (digitsOf cs) ≤ greatest) (hs : (fractionOf cs).length < greatestScale) :
    readPlain? (signed negative cs) = some (ofText (signed negative cs)) := by
  obtain ⟨c, ds, rfl, hc⟩ := h.head
  have hdigits : readDigits ⟨negative, 0, 0, false, false⟩ (c :: ds) =
      some (Partial.whole ⟨negative, 0, 0, false, false⟩ (c :: ds)) := by
    refine readDigits_eq_whole h.chars (by simpa using h.points)
      (.inr ⟨c, List.mem_cons_self, hc⟩) (fun _ => rfl) ?_ ?_
    · simpa [Partial.whole] using hm
    · simpa [Partial.whole] using hs
  have hwhole : Partial.whole ⟨negative, 0, 0, false, false⟩ (c :: ds) =
      ofText (signed negative (c :: ds)) := by
    rw [ofText_signed h]
    simp [Partial.whole]
  rw [← hwhole, ← hdigits]
  cases negative with
  | true => rfl
  | false =>
    rw [signed, if_neg Bool.false_ne_true, readPlain?]
    · intro cs h
      exact ne_of_isDigit hc rfl (List.cons.inj h).1
    · intro cs h
      exact ne_of_isDigit hc rfl (List.cons.inj h).1

theorem not_isMark_of_isPlain (h : IsPlain cs) (negative : Bool) :
    ∀ c ∈ signed negative cs, isMark c = false := by
  intro c hc
  have hmem : c = '-' ∨ c ∈ cs := by
    cases negative with
    | true => exact List.mem_cons.mp hc
    | false => exact .inr hc
  rcases hmem with rfl | hc
  · rfl
  · rcases h.chars c hc with hd | rfl
    · exact not_isMark_of_isDigit hd
    · rfl

end Signed

/-- A plain text stands for the number of its digits. -/
theorem statedValue_plain {cs : List Char} (h : IsPlain cs) (negative : Bool) :
    statedValue (signed negative cs) = (ofText (signed negative cs)).value := by
  obtain ⟨hsignificand, hexponent⟩ := significandOf_unmarked (not_isMark_of_isPlain h negative)
  rw [statedValue, hsignificand, hexponent, zpow_zero, mul_one]

section Marked

variable {base : List Char}

theorem isMark_split (h : ∀ c ∈ base, isMark c = false) (exponent : List Char) :
    (base ++ 'e' :: exponent).takeWhile (!isMark ·) = base ∧
      (base ++ 'e' :: exponent).dropWhile (!isMark ·) = 'e' :: exponent := by
  have hall : ∀ c ∈ base, (!isMark c) = true := by simpa using h
  rw [List.takeWhile_append_of_pos hall, List.dropWhile_append_of_pos hall,
    List.takeWhile_cons_of_neg (by decide), List.dropWhile_cons_of_neg (by decide)]
  exact ⟨List.append_nil base, rfl⟩

theorem significandOf_marked (h : ∀ c ∈ base, isMark c = false) (exponent : List Char) :
    significandOf (base ++ 'e' :: exponent) = ofText base ∧
      exponentOf (base ++ 'e' :: exponent) = signedExponent exponent := by
  obtain ⟨htake, hdrop⟩ := isMark_split h exponent
  rw [significandOf, exponentOf, htake, hdrop]
  exact ⟨rfl, rfl⟩

def exponentText (negative : Bool) (n : ℕ) : List Char :=
  (if negative then '-' else '+') :: Nat.toDigits 10 n

theorem isDigit_toDigits {n : ℕ} : ∀ c ∈ Nat.toDigits 10 n, c.isDigit = true := fun _ hc =>
  Nat.isDigit_of_mem_toDigits (by decide) (by decide) hc

theorem signedExponent_exponentText (negative : Bool) (n : ℕ) :
    signedExponent (exponentText negative n) = if negative then -(n : ℤ) else n := by
  cases negative <;>
    simp [signedExponent, exponentText, digitsOf_cons_other, digitsOf_eq_self isDigit_toDigits]

theorem readExponent?_toDigits (n : ℕ) : readExponent? (Nat.toDigits 10 n) = some n ∧
    readExponent? ('+' :: Nat.toDigits 10 n) = some n := by
  have hall : (Nat.toDigits 10 n).all Char.isDigit = true := List.all_eq_true.mpr isDigit_toDigits
  have hempty : (Nat.toDigits 10 n).isEmpty = false := by simp
  have hunsigned : (if (Nat.toDigits 10 n).isEmpty || !(Nat.toDigits 10 n).all Char.isDigit
      then none else some (digitsValue (Nat.toDigits 10 n))) = some n := by
    rw [hall, hempty, Double.digitsValue_toDigits]
    rfl
  refine ⟨?_, hunsigned⟩
  unfold readExponent?
  split
  · next ds hds =>
    exact absurd (isDigit_toDigits '+' (hds ▸ List.mem_cons_self)) (by decide)
  · exact hunsigned

/-- A text with an exponent is read as what stands in front of it, shifted. -/
theorem read?_marked {b : Decimal} (h : readPlain? base = some b) (negative : Bool) (n : ℕ) :
    read? (base ++ 'e' :: exponentText negative n) = b.shift? negative n := by
  have hmarks := not_isMark_of_readPlain h
  have hplain : readPlain? (base ++ 'e' :: exponentText negative n) = none := by
    rw [Option.eq_none_iff_forall_ne_some]
    intro d hd
    exact absurd (not_isMark_of_readPlain hd 'e' (by simp)) (by decide)
  obtain ⟨htake, hdrop⟩ := isMark_split hmarks (exponentText negative n)
  obtain ⟨hbare, hplus⟩ := readExponent?_toDigits n
  rw [read?, hplain, readScientific?, isMark_eq, htake, hdrop]
  cases negative with
  | true => simp [h, exponentText, hbare]
  | false => simp [h, exponentText, hplus]

end Marked

end Decimal

namespace Double

open Decimal

section Texts

variable {digits : List Char}

theorem isDigit_zeros (n : ℕ) : ∀ c ∈ zeros n, c.isDigit = true := fun _ hc =>
  List.eq_of_mem_replicate hc ▸ rfl

theorem digitsValue_zeros_append (n : ℕ) (cs : List Char) :
    digitsValue (zeros n ++ cs) = digitsValue cs := by
  rw [digitsValue_append, zeros, digitsValue_zeros, zero_mul, zero_add]

/-- Digits on both sides of a point, few enough to be read as they are, that stand for the digits
of a decimal with its point. -/
structure IsPositional (digits : List Char) (point : ℤ) (whole fraction : List Char) : Prop where
  ne_nil : whole ≠ []
  isDigit : ∀ c ∈ whole ++ fraction, c.isDigit = true
  length_le : (whole ++ fraction).length ≤ 23
  fraction_lt : fraction.length < greatestScale
  value_eq : (digitsValue (whole ++ fraction) : ℚ) / 10 ^ fraction.length =
    digitsValue digits * 10 ^ (point - digits.length)

theorem isPositional_small (hd : ∀ c ∈ digits, c.isDigit = true) (hlength : digits.length ≤ 18)
    {n : ℕ} (hn : n ≤ 4) : IsPositional digits (-n) ['0'] (zeros n ++ digits) := by
  have hrow : ['0'] ++ (zeros n ++ digits) = zeros (n + 1) ++ digits := by
    rw [zeros, zeros, List.replicate_succ]
    rfl
  have hfraction : (zeros n ++ digits).length = n + digits.length := by
    rw [List.length_append, zeros, List.length_replicate]
  refine ⟨List.cons_ne_nil _ _, ?_, ?_, ?_, ?_⟩
  · rw [hrow]
    exact List.forall_mem_append.mpr ⟨isDigit_zeros _, hd⟩
  · rw [List.length_append, hfraction, List.length_singleton]
    omega
  · rw [hfraction, greatestScale]
    omega
  · rw [hrow, digitsValue_zeros_append, hfraction, pow_add, zpow_sub₀ (by norm_num), zpow_neg,
      zpow_natCast, zpow_natCast]
    field_simp

theorem isPositional_great (hd : ∀ c ∈ digits, c.isDigit = true) (hne : digits ≠ []) {j : ℕ}
    (hj : digits.length + j ≤ 16) :
    IsPositional digits (digits.length + j : ℕ) (digits ++ zeros j) ['0'] := by
  have hrow : digits ++ zeros j ++ ['0'] = digits ++ zeros (j + 1) := by
    rw [List.append_assoc, zeros, zeros, List.replicate_succ']
  have hvalue : digitsValue (digits ++ zeros (j + 1)) = digitsValue digits * 10 ^ (j + 1) := by
    rw [digitsValue_append, zeros, digitsValue_zeros, List.length_replicate, add_zero]
  refine ⟨by simp [hne], ?_, ?_, by decide, ?_⟩
  · rw [hrow]
    exact List.forall_mem_append.mpr ⟨hd, isDigit_zeros _⟩
  · rw [hrow, List.length_append, zeros, List.length_replicate]
    omega
  · rw [hrow, hvalue]
    push_cast
    rw [add_sub_cancel_left, zpow_natCast, List.length_singleton, pow_succ]
    field_simp

theorem isPositional_between (hd : ∀ c ∈ digits, c.isDigit = true) (hlength : digits.length ≤ 18)
    {n : ℕ} (hn : 0 < n) (hlt : n < digits.length) :
    IsPositional digits n (digits.take n) (digits.drop n) := by
  refine ⟨?_, ?_, ?_, ?_, ?_⟩
  · rw [ne_eq, ← List.length_eq_zero_iff, List.length_take]
    omega
  · rwa [List.take_append_drop]
  · rw [List.take_append_drop]
    omega
  · rw [List.length_drop, greatestScale]
    omega
  · rw [List.take_append_drop, List.length_drop, div_eq_mul_inv, ← zpow_natCast, ← zpow_neg]
    congr 2
    omega

theorem positional_eq (hd : ∀ c ∈ digits, c.isDigit = true) (hne : digits ≠ []) {point : ℤ}
    (hlow : -4 ≤ point) (hhigh : point ≤ 16) (hlength : digits.length ≤ 18) :
    ∃ whole fraction, positional digits point true = whole ++ '.' :: fraction ∧
      IsPositional digits point whole fraction := by
  unfold positional
  split
  · next hpoint =>
    obtain ⟨n, hn⟩ := Int.eq_ofNat_of_zero_le (show 0 ≤ -point by omega)
    obtain rfl : point = -n := by omega
    rw [hn, Int.toNat_natCast]
    exact ⟨['0'], zeros n ++ digits, rfl, isPositional_small hd hlength (by omega)⟩
  · next hpoint =>
    obtain ⟨n, rfl⟩ := Int.eq_ofNat_of_zero_le (show 0 ≤ point by omega)
    rw [Int.toNat_natCast]
    split
    · next hlong =>
      obtain ⟨j, rfl⟩ := Nat.exists_eq_add_of_le hlong
      exact ⟨digits ++ zeros j, ['0'], by simp, isPositional_great hd hne (by omega)⟩
    · next hshort =>
      exact ⟨digits.take n, digits.drop n, rfl,
        isPositional_between hd hlength (by omega) (by omega)⟩

theorem scientific_eq (hd : ∀ c ∈ digits, c.isDigit = true) (hne : digits ≠ []) (exponent : ℤ) :
    ∃ base, scientific digits exponent true =
        base ++ 'e' :: exponentText (exponent < 0) exponent.natAbs ∧
      IsPlain base ∧ digitsOf base = digits ∧ (fractionOf base).length = digits.length - 1 := by
  have hsign : ∀ base : List Char, base ++ 'e' :: (if exponent < 0 then ['-'] else ['+']) ++
      Nat.toDigits 10 exponent.natAbs =
        base ++ 'e' :: exponentText (exponent < 0) exponent.natAbs := by
    intro base
    unfold exponentText
    by_cases h : exponent < 0 <;> simp [h]
  obtain ⟨c, ds, rfl⟩ := List.exists_cons_of_ne_nil hne
  obtain ⟨hc, hds⟩ := List.forall_mem_cons.mp hd
  cases ds with
  | nil =>
    refine ⟨[c], hsign [c], isPlain_digits hd hne, digitsOf_eq_self hd, ?_⟩
    rw [fractionOf_digits hd]
    rfl
  | cons a ds =>
    have hone : ∀ x ∈ [c], x.isDigit = true := by simpa using hc
    refine ⟨[c] ++ '.' :: a :: ds, hsign ([c] ++ '.' :: a :: ds),
      isPlain_pointed hone hds (by simp), digitsOf_pointed hone hds, ?_⟩
    rw [fractionOf_pointed hone hds]
    rfl

end Texts

namespace Decimals

variable (d : Decimals)

def numeral : List Char := Nat.toDigits 10 d.digits

/-- How many digits stand in front of the point. -/
def point : ℤ := d.numeral.length + d.exponent

/-- A decimal as it is written in JSON text. -/
def text : List Char :=
  if -4 ≤ d.point ∧ d.point ≤ 16 then positional d.numeral d.point true
  else scientific d.numeral (d.point - 1) true

def signedValue (negative : Bool) : ℚ := if negative then -d.value else d.value

theorem numeral_ne_nil : d.numeral ≠ [] := Nat.toDigits_ne_nil

theorem isDigit_numeral : ∀ c ∈ d.numeral, c.isDigit = true := isDigit_toDigits

theorem value_eq : d.value = digitsValue d.numeral * 10 ^ (d.point - d.numeral.length) := by
  rw [value, numeral, digitsValue_toDigits, point, numeral, add_sub_cancel_left]

variable {d}

theorem value_bounds (h : 0 < d.digits) :
    10 ^ (d.point - 1) ≤ d.value ∧ d.value < 10 ^ d.point := by
  have hten : (10 : ℚ) ≠ 0 := by norm_num
  have hpos : 0 < d.numeral.length := List.length_pos_iff.mpr d.numeral_ne_nil
  obtain ⟨hlow, hhigh⟩ := decimalLength_bounds h
  change 10 ^ (d.numeral.length - 1) ≤ _ at hlow
  change _ < 10 ^ (d.numeral.length - 1 + 1) at hhigh
  rw [Nat.sub_add_cancel hpos] at hhigh
  have hlow : (10 : ℚ) ^ (d.numeral.length - 1) ≤ d.digits := by exact_mod_cast hlow
  have hhigh : (d.digits : ℚ) < 10 ^ d.numeral.length := by exact_mod_cast hhigh
  constructor
  · calc (10 : ℚ) ^ (d.point - 1) = 10 ^ (d.numeral.length - 1) * 10 ^ d.exponent := by
          rw [← zpow_natCast, ← zpow_add₀ hten, point]
          congr 1
          omega
      _ ≤ d.value := by
          unfold value
          gcongr
  · calc d.value < 10 ^ d.numeral.length * 10 ^ d.exponent := by
          unfold value
          gcongr
      _ = 10 ^ d.point := by rw [← zpow_natCast, ← zpow_add₀ hten, point]

theorem length_numeral (h : d.digits ≤ 10 ^ 17) : d.numeral.length ≤ 18 :=
  (Nat.length_toDigits_le_iff (by decide) (by decide)).mpr (by omega)

theorem value_mk (negative : Bool) (n s : ℕ) :
    (⟨negative, n, s⟩ : Decimal).value = if negative then -((n : ℚ) / 10 ^ s) else n / 10 ^ s := rfl

/-- In positional notation nothing is lost. -/
theorem read?_positional (hsize : d.digits ≤ 10 ^ 17) (hpoint : -4 ≤ d.point ∧ d.point ≤ 16)
    (negative : Bool) : statedValue (signed negative d.text) = d.signedValue negative ∧
      ∃ amount, Decimal.read? (signed negative d.text) = some amount ∧
        amount.value = d.signedValue negative := by
  obtain ⟨whole, fraction, htext, ⟨hne, hdigit, hlength, hscale, hvalue⟩⟩ :=
    positional_eq d.isDigit_numeral d.numeral_ne_nil hpoint.1 hpoint.2 (length_numeral hsize)
  obtain ⟨hw, hf⟩ := List.forall_mem_append.mp hdigit
  rw [text, if_pos hpoint, htext]
  have hplain := isPlain_pointed hw hf hne
  have hof := ofText_signed hplain negative
  rw [digitsOf_pointed hw hf, fractionOf_pointed hw hf] at hof
  have hfit : digitsValue (whole ++ fraction) ≤ greatest := by
    have hg := greatest_eq
    have := digitsValue_lt hdigit
    have := Nat.pow_le_pow_right (show 0 < 10 by decide) hlength
    omega
  have hsigned : (ofText (signed negative (whole ++ '.' :: fraction))).value =
      d.signedValue negative := by
    rw [hof, value_mk, hvalue, ← value_eq, signedValue]
  refine ⟨(statedValue_plain hplain negative).trans hsigned, _, ?_, hsigned⟩
  have hread := readPlain?_signed hplain negative (by rwa [digitsOf_pointed hw hf])
    (by rwa [fractionOf_pointed hw hf])
  rw [Decimal.read?, hread]
  rfl

/-- What stands in front of the exponent. -/
def significand (d : Decimals) (negative : Bool) : Decimal :=
  ⟨negative, d.digits, d.numeral.length - 1⟩

theorem fits_significand (hsize : d.digits ≤ 10 ^ 17) (negative : Bool) :
    (d.significand negative).Fits := by
  have hg := greatest_eq
  have hlength := length_numeral hsize
  constructor
  · show d.digits ≤ greatest
    omega
  · show d.numeral.length - 1 ≤ 28
    omega

theorem value_significand (d : Decimals) (negative : Bool) :
    (d.significand negative).value * 10 ^ (d.point - 1) = d.signedValue negative := by
  have hten : (10 : ℚ) ≠ 0 := by norm_num
  have hpos : 0 < d.numeral.length := List.length_pos_iff.mpr d.numeral_ne_nil
  have hmagnitude : (d.digits : ℚ) / 10 ^ (d.numeral.length - 1) * 10 ^ (d.point - 1) =
      d.value := by
    rw [value, div_eq_mul_inv, mul_assoc, ← zpow_natCast, ← zpow_neg, ← zpow_add₀ hten, point]
    congr 2
    omega
  rw [significand, value_mk, signedValue]
  split
  · rw [neg_mul, hmagnitude]
  · exact hmagnitude

theorem read?_scientific (hsize : d.digits ≤ 10 ^ 17) (hpoint : ¬ (-4 ≤ d.point ∧ d.point ≤ 16))
    (negative : Bool) : statedValue (signed negative d.text) = d.signedValue negative ∧
      Decimal.read? (signed negative d.text) =
        (d.significand negative).shift? (d.point - 1 < 0) (d.point - 1).natAbs := by
  obtain ⟨base, htext, hplain, hdigits, hfraction⟩ :=
    scientific_eq d.isDigit_numeral d.numeral_ne_nil (d.point - 1)
  have hsplit : ∀ exponent : List Char, signed negative (base ++ 'e' :: exponent) =
      signed negative base ++ 'e' :: exponent := by
    intro exponent
    cases negative <;> rfl
  rw [text, if_neg hpoint, htext, hsplit]
  have hmarks := not_isMark_of_isPlain hplain negative
  have hof : ofText (signed negative base) = d.significand negative := by
    rw [ofText_signed hplain, hdigits, hfraction, numeral, digitsValue_toDigits]
    rfl
  obtain ⟨hfit, hplaces⟩ := fits_significand hsize negative
  have hread : readPlain? (signed negative base) = some (d.significand negative) := by
    have hlength := length_numeral hsize
    rw [← hof]
    refine readPlain?_signed hplain negative ?_ ?_
    · rw [hdigits, numeral, digitsValue_toDigits]
      exact hfit
    · rw [hfraction, greatestScale]
      omega
  obtain ⟨hsignificand, hexponent⟩ := significandOf_marked hmarks
    (exponentText (d.point - 1 < 0) (d.point - 1).natAbs)
  refine ⟨?_, read?_marked hread _ _⟩
  rw [statedValue, hsignificand, hexponent, signedExponent_exponentText, hof, ← value_significand]
  congr 2
  by_cases h : d.point - 1 < 0
  · rw [if_pos (by simpa using h)]
    omega
  · rw [if_neg (by simpa using h)]
    omega

theorem abs_signedValue (d : Decimals) (negative : Bool) : |d.signedValue negative| = d.value := by
  have hnonneg : 0 ≤ d.value := by
    unfold value
    positivity
  unfold signedValue
  split
  · rw [abs_neg, abs_of_nonneg hnonneg]
  · exact abs_of_nonneg hnonneg

theorem zpow_ten_lt_iff {k l : ℤ} : (10 : ℚ) ^ k < 10 ^ l ↔ k < l :=
  zpow_lt_zpow_iff_right₀ (by norm_num)

/-- A small decimal is read unless its first digit is behind the last place of an amount. -/
theorem shift_small (h : 0 < d.digits) (hsize : d.digits ≤ 10 ^ 17) (hpoint : d.point < -4)
    (negative : Bool) :
    (1 / 10 ^ 28 ≤ d.value → ∃ amount,
      (d.significand negative).shift? true (d.point - 1).natAbs = some amount ∧
        halfAway 2 amount.value = halfAway 2 (d.signedValue negative)) ∧
    (d.value < 1 / 10 ^ 28 → (d.significand negative).shift? true (d.point - 1).natAbs = none) := by
  obtain ⟨hlow, hhigh⟩ := value_bounds h
  have hleast : (1 / 10 ^ 28 : ℚ) = 10 ^ (-28 : ℤ) := by norm_num
  rw [hleast]
  constructor
  · intro hle
    have hplace : (d.point - 1).natAbs ≤ greatestScale := by
      have := zpow_ten_lt_iff.mp (hle.trans_lt hhigh)
      rw [greatestScale]
      omega
    obtain ⟨amount, hshift, hscale⟩ := exists_shift_left (d.significand negative) hplace
    have hreads := reads_shift_left (Fitted.refl (fits_significand hsize negative)) hshift
    obtain ⟨t, ht, -, hvalue⟩ := hreads.value_eq
    rw [show -((d.point - 1).natAbs : ℤ) = d.point - 1 by omega, value_significand] at hvalue
    refine ⟨amount, hshift, ?_⟩
    rw [hvalue]
    refine halfAway_two_of_small (by omega) ht ?_
    have hsmall : (10 : ℚ) ^ d.point < 10 ^ (-3 : ℤ) := zpow_ten_lt_iff.mpr (by omega)
    rw [abs_signedValue]
    norm_num at hsmall ⊢
    linarith
  · intro hlt
    have := zpow_ten_lt_iff.mp (hlow.trans_lt hlt)
    rw [shift?, if_pos (by rw [greatestScale]; omega)]

section Great

variable {n : ℕ}

/-- Digits that all stand in front of the point. -/
theorem value_of_long (hn : d.point - 1 = n) (hlong : ¬ n ≤ d.numeral.length - 1) :
    ((d.digits * 10 ^ (n - (d.numeral.length - 1)) : ℕ) : ℚ) = d.value := by
  have hpos : 0 < d.numeral.length := List.length_pos_iff.mpr d.numeral_ne_nil
  have hexponent : d.exponent = ((n - (d.numeral.length - 1) : ℕ) : ℤ) := by
    unfold point at hn
    omega
  rw [value, hexponent, zpow_natCast]
  push_cast
  rfl

theorem exists_shift_great (h : 0 < d.digits) (hn : d.point - 1 = n) (negative : Bool)
    (hle : d.value ≤ greatest) :
    ∃ amount, (d.significand negative).shift? false n = some amount := by
  have hlow := (value_bounds h).1
  rw [shift?]
  split
  · exact ⟨_, rfl⟩
  · next hlong =>
    have hplaces : n ≤ greatestScale := by
      have hbound : (greatest : ℚ) < 10 ^ (29 : ℤ) := by
        rw [greatest_eq]
        norm_num
      have := zpow_ten_lt_iff.mp (hlow.trans_lt (hle.trans_lt hbound))
      rw [greatestScale]
      omega
    rw [← value_of_long hn hlong] at hle
    exact ⟨_, if_pos ⟨hplaces, by exact_mod_cast hle⟩⟩

theorem shift_great_eq_none (h : 0 < d.digits) (hsize : d.digits ≤ 10 ^ 17)
    (hn : d.point - 1 = n) (negative : Bool) (hlt : greatest < d.value) :
    (d.significand negative).shift? false n = none := by
  have hhigh := (value_bounds h).2
  have hlength := length_numeral hsize
  have hlong : ¬ n ≤ d.numeral.length - 1 := by
    intro hshort
    have hbound : (10 : ℚ) ^ d.point ≤ 10 ^ (18 : ℤ) :=
      zpow_le_zpow_right₀ (by norm_num) (by omega)
    rw [greatest_eq] at hlt
    norm_num at hbound hlt
    linarith
  rw [shift?, if_neg (show ¬ n ≤ (d.significand negative).scale from hlong)]
  refine if_neg fun hroom => ?_
  rw [← value_of_long hn hlong] at hlt
  exact absurd hroom.2 (not_le.mpr (by exact_mod_cast hlt))

end Great

/-- A great decimal is read unless it is greater than all amounts. -/
theorem shift_great (h : 0 < d.digits) (hsize : d.digits ≤ 10 ^ 17) (hpoint : 16 < d.point)
    (negative : Bool) :
    (d.value ≤ greatest → ∃ amount,
      (d.significand negative).shift? false (d.point - 1).natAbs = some amount ∧
        halfAway 2 amount.value = halfAway 2 (d.signedValue negative)) ∧
    (greatest < d.value → (d.significand negative).shift? false (d.point - 1).natAbs = none) := by
  have hfit := fits_significand hsize negative
  obtain ⟨n, hn⟩ := Int.eq_ofNat_of_zero_le (show 0 ≤ d.point - 1 by omega)
  rw [hn, Int.natAbs_natCast]
  refine ⟨fun hle => ?_, shift_great_eq_none h hsize hn negative⟩
  obtain ⟨amount, hshift⟩ := exists_shift_great h hn negative hle
  have hreads := reads_shift_right (Fitted.refl hfit) hshift
  refine ⟨amount, hshift, ?_⟩
  rw [hreads.value_eq_of_fits hfit (by have := hfit.2; omega), ← hn, value_significand]

/-- The text of a decimal stands for the decimal, and is read as an amount just if the decimal is
neither too small nor too great. To two places the amount is the decimal. -/
theorem read?_text (h : 0 < d.digits) (hsize : d.digits ≤ 10 ^ 17) (negative : Bool) :
    statedValue (signed negative d.text) = d.signedValue negative ∧
    (1 / 10 ^ 28 ≤ d.value → d.value ≤ greatest → ∃ amount,
      Decimal.read? (signed negative d.text) = some amount ∧
        halfAway 2 amount.value = halfAway 2 (d.signedValue negative)) ∧
    (d.value < 1 / 10 ^ 28 ∨ greatest < d.value →
      Decimal.read? (signed negative d.text) = none) := by
  obtain ⟨hlow, hhigh⟩ := value_bounds h
  have hleast : (1 / 10 ^ 28 : ℚ) = 10 ^ (-28 : ℤ) := by norm_num
  have hg : (10 : ℚ) ^ (16 : ℤ) < greatest := by
    rw [greatest_eq]
    norm_num
  have hnotSmall : -28 < d.point → ¬ d.value < 1 / 10 ^ 28 := fun hp hlt => by
    rw [hleast] at hlt
    have := zpow_ten_lt_iff.mp (hlow.trans_lt hlt)
    omega
  have hnotGreat : d.point ≤ 16 → ¬ greatest < d.value := fun hp hlt => by
    have := zpow_ten_lt_iff.mp (hg.trans (hlt.trans hhigh))
    omega
  -- the exponent of a small decimal can be too small, that of a great one too great
  by_cases hpoint : -4 ≤ d.point ∧ d.point ≤ 16
  · obtain ⟨hstated, amount, hread, hvalue⟩ := read?_positional hsize hpoint negative
    refine ⟨hstated, fun _ _ => ⟨amount, hread, by rw [hvalue]⟩, ?_⟩
    rintro (hlt | hlt)
    · exact absurd hlt (hnotSmall (by omega))
    · exact absurd hlt (hnotGreat hpoint.2)
  · obtain ⟨hstated, hread⟩ := read?_scientific hsize hpoint negative
    rw [hread]
    refine ⟨hstated, ?_⟩
    rcases lt_or_ge d.point (-4) with hsmall | hgreat
    · obtain ⟨hsome, hnone⟩ := shift_small h hsize hsmall negative
      rw [decide_eq_true (show d.point - 1 < 0 by omega)]
      refine ⟨fun hle _ => hsome hle, ?_⟩
      rintro (hlt | hlt)
      · exact hnone hlt
      · exact absurd hlt (hnotGreat (by omega))
    · obtain ⟨hsome, hnone⟩ := shift_great h hsize (show 16 < d.point by omega) negative
      rw [decide_eq_false (show ¬ d.point - 1 < 0 by omega)]
      refine ⟨fun _ hle => hsome hle, ?_⟩
      rintro (hlt | hlt)
      · exact absurd hlt (hnotSmall (by omega))
      · exact hnone hlt

end Decimals

end Double

end Proforma
