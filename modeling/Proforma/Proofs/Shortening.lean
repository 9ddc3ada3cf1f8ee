import Proforma.Number.Shortest
import Proforma.Proofs.Doubles

/-!
The shortest decimal of a double lies in the interval of numbers that are rounded to the double, and
has at most seventeen digits. The intervals of two doubles do not overlap, so decimals compare with
each other as their doubles do.
-/
namespace Proforma.Double

/-- The value of a finite double without its sign. -/
def dyadic (m : ℕ) (e : ℤ) : ℚ := m * 2 ^ e

/-- Half way to the next double. -/
def upper (m : ℕ) (e : ℤ) : ℚ := (4 * m + 2 : ℕ) * 2 ^ (e - 2)

/-- Half way to the double before, which is nearer where it has a smaller exponent. -/
def lower (m : ℕ) (e : ℤ) : ℚ :=
  (4 * m - if m = 2 ^ 52 ∧ leastExponent < e then 1 else 2 : ℕ) * 2 ^ (e - 2)

theorem dyadic_eq (m : ℕ) (e : ℤ) : dyadic m e = (4 * m : ℕ) * 2 ^ (e - 2) := by
  rw [dyadic, zpow_sub₀ two_ne_zero]
  push_cast
  ring

theorem lower_le_dyadic (m : ℕ) (e : ℤ) : lower m e ≤ dyadic m e := by
  rw [dyadic_eq, lower]
  gcongr
  exact Nat.sub_le _ _

theorem dyadic_lt_upper (m : ℕ) (e : ℤ) : dyadic m e < upper m e := by
  rw [dyadic_eq, upper]
  gcongr
  omega

section Order

variable {m m' : ℕ} {e e' : ℤ}

/-- A step of the exponent doubles at least. -/
theorem two_mul_zpow_le (h : e < e') : 2 * (2 : ℚ) ^ e ≤ 2 ^ e' := by
  rw [← zpow_one_add₀ two_ne_zero]
  exact zpow_le_zpow_right₀ one_le_two (by omega)

theorem normal_of_lt (h : WellFormed m e) (h' : WellFormed m' e') (he : e < e') : 2 ^ 52 ≤ m' :=
  h'.normal.resolve_right fun hl => by
    have := h.least
    omega

theorem upper_le_lower_of_lt (h : WellFormed m e) (h' : WellFormed m' e') (he : e < e') :
    upper m e ≤ lower m' e' := by
  have hnormal := normal_of_lt h h' he
  have hpow := two_mul_zpow_le (show e - 2 < e' - 2 by omega)
  have hlow : 2 ^ 54 - 1 ≤ 4 * m' - if m' = 2 ^ 52 ∧ leastExponent < e' then 1 else 2 := by
    have := h.least
    split
    · omega
    · next hne =>
      have : m' ≠ 2 ^ 52 := fun hm => hne ⟨hm, by omega⟩
      omega
  have hup : 4 * m + 2 ≤ 2 * (2 ^ 54 - 1) := by
    have := h.lt
    omega
  calc upper m e ≤ ((2 * (2 ^ 54 - 1) : ℕ) : ℚ) * 2 ^ (e - 2) := by
        unfold upper
        gcongr
    _ = ((2 ^ 54 - 1 : ℕ) : ℚ) * (2 * 2 ^ (e - 2)) := by
        push_cast
        ring
    _ ≤ ((2 ^ 54 - 1 : ℕ) : ℚ) * 2 ^ (e' - 2) := by gcongr
    _ ≤ lower m' e' := by
        unfold lower
        gcongr

theorem dyadic_lt_of_lt (h : WellFormed m e) (h' : WellFormed m' e') (he : e < e') :
    dyadic m e < dyadic m' e' :=
  (dyadic_lt_upper m e).trans_le ((upper_le_lower_of_lt h h' he).trans (lower_le_dyadic m' e'))

/-- The intervals of two doubles have at most their ends in common. -/
theorem upper_le_lower (h : WellFormed m e) (h' : WellFormed m' e')
    (hlt : dyadic m e < dyadic m' e') : upper m e ≤ lower m' e' := by
  rcases lt_trichotomy e e' with he | rfl | he
  · exact upper_le_lower_of_lt h h' he
  · have hm : m < m' := by
      unfold dyadic at hlt
      exact_mod_cast lt_of_mul_lt_mul_right hlt (by positivity)
    unfold upper lower
    gcongr
    split <;> omega
  · exact absurd hlt (dyadic_lt_of_lt h' h he).not_gt

theorem eq_of_dyadic_eq (h : WellFormed m e) (h' : WellFormed m' e')
    (heq : dyadic m e = dyadic m' e') : m = m' ∧ e = e' := by
  rcases lt_trichotomy e e' with he | rfl | he
  · exact absurd heq (dyadic_lt_of_lt h h' he).ne
  · refine ⟨?_, rfl⟩
    unfold dyadic at heq
    exact_mod_cast mul_right_cancel₀ (by positivity) heq
  · exact absurd heq (dyadic_lt_of_lt h' h he).ne'

end Order

section Grid

variable (m : ℕ) (e p : ℤ)

/-- What a quarter of `2 ^ e` counts on the grid `10 ^ p`. -/
def gridScale : ℕ := 2 ^ (e - 2).toNat * 10 ^ (-p).toNat

/-- What a step of the grid counts. -/
def gridUnit : ℕ := 10 ^ p.toNat * 2 ^ (2 - e).toNat

def gridLow : ℕ := (4 * m - if m = 2 ^ 52 ∧ leastExponent < e then 1 else 2) * gridScale e p

def gridHigh : ℕ := (4 * m + 2) * gridScale e p

def readsBack (c : ℕ) : Bool :=
  if m % 2 = 0 then gridLow m e p ≤ c * gridUnit e p && c * gridUnit e p ≤ gridHigh m e p
  else gridLow m e p < c * gridUnit e p && c * gridUnit e p < gridHigh m e p

theorem gridScale_pos : 0 < gridScale e p := by
  unfold gridScale
  positivity

theorem gridUnit_pos : 0 < gridUnit e p := by
  unfold gridUnit
  positivity

theorem pow_toNat_eq {b : ℚ} (hb : b ≠ 0) (k : ℤ) :
    b ^ k.toNat = b ^ k * b ^ (-k).toNat := by
  rw [← zpow_natCast, ← zpow_natCast, ← zpow_add₀ hb]
  congr 1
  omega

/-- The counts measure the numbers themselves. -/
theorem exists_measure : ∃ unit : ℚ, 0 < unit ∧
    (∀ a : ℕ, ((a * gridScale e p : ℕ) : ℚ) = a * 2 ^ (e - 2) * unit) ∧
    ∀ c : ℕ, ((c * gridUnit e p : ℕ) : ℚ) = c * 10 ^ p * unit := by
  refine ⟨2 ^ (2 - e).toNat * 10 ^ (-p).toNat, by positivity, fun a => ?_, fun c => ?_⟩
  · have h := pow_toNat_eq two_ne_zero (e - 2)
    rw [neg_sub] at h
    unfold gridScale
    push_cast
    rw [h]
    ring
  · have h := pow_toNat_eq (show (10 : ℚ) ≠ 0 by norm_num) p
    unfold gridUnit
    push_cast
    rw [h]
    ring

variable {m e p}

theorem scale_le_unit_iff {a c : ℕ} :
    a * gridScale e p ≤ c * gridUnit e p ↔ (a : ℚ) * 2 ^ (e - 2) ≤ c * 10 ^ p := by
  obtain ⟨unit, hpos, hscale, hunit⟩ := exists_measure e p
  rw [← mul_le_mul_iff_of_pos_right hpos, ← hscale, ← hunit, Nat.cast_le]

theorem unit_le_scale_iff {a c : ℕ} :
    c * gridUnit e p ≤ a * gridScale e p ↔ (c : ℚ) * 10 ^ p ≤ a * 2 ^ (e - 2) := by
  obtain ⟨unit, hpos, hscale, hunit⟩ := exists_measure e p
  rw [← mul_le_mul_iff_of_pos_right hpos, ← hscale, ← hunit, Nat.cast_le]

theorem bounds_of_readsBack {c : ℕ} (h : readsBack m e p c = true) :
    lower m e ≤ c * 10 ^ p ∧ c * 10 ^ p ≤ upper m e := by
  have hle : gridLow m e p ≤ c * gridUnit e p ∧ c * gridUnit e p ≤ gridHigh m e p := by
    unfold readsBack at h
    split at h <;> simp only [Bool.and_eq_true, decide_eq_true_eq] at h <;> omega
  exact ⟨scale_le_unit_iff.mp hle.1, unit_le_scale_iff.mp hle.2⟩

theorem readsBack_of_lt {c : ℕ} (hlow : gridLow m e p < c * gridUnit e p)
    (hhigh : c * gridUnit e p < gridHigh m e p) : readsBack m e p c = true := by
  unfold readsBack
  split <;> simp only [Bool.and_eq_true, decide_eq_true_eq] <;> omega

/-- The step of the grid below the double. -/
def gridBelow (m : ℕ) (e p : ℤ) : ℕ := 4 * m * gridScale e p / gridUnit e p

theorem onGrid?_eq (tie : Tie) : onGrid? tie m e p =
    match readsBack m e p (gridBelow m e p), readsBack m e p (gridBelow m e p + 1) with
    | true, true =>
      some (if 2 * (4 * m * gridScale e p % gridUnit e p) < gridUnit e p then gridBelow m e p
        else if 2 * (4 * m * gridScale e p % gridUnit e p) = gridUnit e p
          then tie.choose (gridBelow m e p)
        else gridBelow m e p + 1)
    | true, false => some (gridBelow m e p)
    | false, true => some (gridBelow m e p + 1)
    | false, false => none := rfl

theorem mem_of_onGrid? {tie : Tie} {c : ℕ} (h : onGrid? tie m e p = some c) :
    readsBack m e p c = true ∧ (c = gridBelow m e p ∨ c = gridBelow m e p + 1) := by
  have hchoose : ∀ n, tie.choose n = n ∨ tie.choose n = n + 1 := by
    intro n
    cases tie with
    | up => exact .inr rfl
    | even =>
      unfold Tie.choose
      dsimp only
      split
      · exact .inl rfl
      · exact .inr rfl
  rw [onGrid?_eq] at h
  split at h
  · next hbelow habove =>
    have hc : c = gridBelow m e p ∨ c = gridBelow m e p + 1 := by
      rw [← Option.some.inj h]
      split
      · exact .inl rfl
      · split
        · exact hchoose _
        · exact .inr rfl
    exact ⟨hc.elim (· ▸ hbelow) (· ▸ habove), hc⟩
  · next hbelow _ => exact Option.some.inj h ▸ ⟨hbelow, .inl rfl⟩
  · next _ habove => exact Option.some.inj h ▸ ⟨habove, .inr rfl⟩
  · cases h

theorem onGrid?_isSome (tie : Tie) (h : readsBack m e p (gridBelow m e p) = true ∨
    readsBack m e p (gridBelow m e p + 1) = true) : (onGrid? tie m e p).isSome = true := by
  rw [onGrid?_eq]
  split
  · rfl
  · rfl
  · rfl
  · next hbelow habove =>
    rw [hbelow, habove] at h
    simp at h

/-- A grid of seventeen digits has a decimal that reads back: its steps are narrower than the
interval, and at a power of two narrower than the upper half of it. -/
theorem exists_readsBack (hm : 0 < m) (hlt : m < 2 ^ 53)
    (hfine : (10 : ℚ) ^ (p + 16) ≤ dyadic m e) : readsBack m e p (gridBelow m e p) = true ∨
      readsBack m e p (gridBelow m e p + 1) = true := by
  have hstep : 10 ^ 16 * gridUnit e p ≤ 4 * m * gridScale e p := by
    rw [unit_le_scale_iff, ← dyadic_eq]
    refine le_of_eq_of_le ?_ hfine
    rw [zpow_add₀ (by norm_num), mul_comm]
    norm_num
  have hscale := gridScale_pos e p
  have hbelow : gridBelow m e p * gridUnit e p ≤ 4 * m * gridScale e p := Nat.div_mul_le_self _ _
  have habove : 4 * m * gridScale e p < (gridBelow m e p + 1) * gridUnit e p :=
    Nat.lt_mul_of_div_lt (Nat.lt_succ_self _) (gridUnit_pos e p)
  have hhigh : gridHigh m e p = 4 * m * gridScale e p + 2 * gridScale e p := by
    unfold gridHigh
    ring
  have hlow : m ≠ 2 ^ 52 → gridLow m e p + 2 * gridScale e p = 4 * m * gridScale e p := by
    intro hne
    unfold gridLow
    rw [if_neg fun h => hne h.1, Nat.sub_mul, Nat.sub_add_cancel]
    gcongr
    omega
  have hlow' : gridLow m e p < 4 * m * gridScale e p := by
    unfold gridLow
    gcongr
    split <;> omega
  have hnext : (gridBelow m e p + 1) * gridUnit e p =
      gridBelow m e p * gridUnit e p + gridUnit e p := by ring
  -- at a power of two the decimal above is near enough, elsewhere the nearer one is
  by_cases hpower : m = 2 ^ 52
  · have hvalue : 4 * m * gridScale e p = 2 ^ 54 * gridScale e p := by
      rw [hpower]
      ring
    exact .inr (readsBack_of_lt (by omega) (by omega))
  · have hvalue : 4 * m * gridScale e p < 2 ^ 55 * gridScale e p := by
      gcongr
      omega
    have hlow := hlow hpower
    by_cases hnear : 4 * m * gridScale e p < gridBelow m e p * gridUnit e p + 2 * gridScale e p
    · exact .inl (readsBack_of_lt (by omega) (by omega))
    · exact .inr (readsBack_of_lt (by omega) (by omega))

end Grid

theorem decimalLength_bounds {n : ℕ} (h : 0 < n) :
    10 ^ (decimalLength n - 1) ≤ n ∧ n < 10 ^ (decimalLength n - 1 + 1) := by
  have hpos : 0 < decimalLength n := Nat.length_toDigits_pos
  rw [Nat.sub_add_cancel hpos]
  refine ⟨?_, (Nat.length_toDigits_le_iff (by decide) hpos).mp le_rfl⟩
  rcases Nat.eq_zero_or_pos (decimalLength n - 1) with hone | hmore
  · rw [hone, pow_zero]
    exact h
  · by_contra hlt
    have := (Nat.length_toDigits_le_iff (b := 10) (by decide) hmore).mpr (not_le.mp hlt)
    change decimalLength n ≤ _ at this
    omega

theorem decimalOrder_bounds {num den : ℕ} (hn : 0 < num) (hd : 0 < den) :
    (den : ℚ) * 10 ^ (decimalOrder num den - 1) ≤ num ∧
      (num : ℚ) < den * 10 ^ decimalOrder num den := by
  obtain ⟨hlow, hhigh⟩ := quotient_order (show 0 < 10 by decide) (decimalLength_bounds hn)
    (decimalLength_bounds hd)
  have hle : ∀ k : ℤ, (if 0 ≤ k then den * Nat.pow 10 k.toNat ≤ num
      else den ≤ num * Nat.pow 10 (-k).toNat) ↔ (den : ℚ) * 10 ^ k ≤ num := by
    intro k
    simp only [Nat.pow_eq]
    exact_mod_cast scaled_le_iff (show 0 < 10 by decide) k den num
  have hk : ((decimalLength num - 1 : ℕ) : ℤ) - (decimalLength den - 1 : ℕ) =
      decimalLength num - decimalLength den := by
    have hnum : 0 < decimalLength num := Nat.length_toDigits_pos
    have hden : 0 < decimalLength den := Nat.length_toDigits_pos
    omega
  rw [hk] at hlow hhigh
  push_cast at hlow hhigh
  unfold decimalOrder
  dsimp only
  by_cases hreached : (den : ℚ) * 10 ^ ((decimalLength num : ℤ) - decimalLength den) ≤ num
  · rw [if_pos ((hle _).mpr hreached), add_sub_cancel_right]
    exact ⟨hreached, hhigh⟩
  · rw [if_neg fun h => hreached ((hle _).mp h)]
    exact ⟨hlow, not_le.mp hreached⟩

/-- The number that digits and a power of ten stand for. -/
def Decimals.value (d : Decimals) : ℚ := d.digits * 10 ^ d.exponent

theorem value_dropZeros (fuel digits : ℕ) (exponent : ℤ) :
    (dropZeros fuel digits exponent).value = digits * 10 ^ exponent ∧
      (dropZeros fuel digits exponent).digits ≤ digits := by
  induction fuel generalizing digits exponent with
  | zero => exact ⟨rfl, le_rfl⟩
  | succ fuel ih =>
    rw [dropZeros]
    split
    · next hzero =>
      obtain ⟨hvalue, hle⟩ := ih (digits / 10) (exponent + 1)
      refine ⟨?_, hle.trans (Nat.div_le_self _ _)⟩
      have hdigits : (digits : ℚ) = (digits / 10 : ℕ) * 10 := by
        exact_mod_cast (Nat.div_mul_cancel (Nat.dvd_of_mod_eq_zero hzero)).symm
      rw [hvalue, hdigits, zpow_add_one₀ (by norm_num)]
      ring
    · exact ⟨rfl, le_rfl⟩

theorem quotient_eq (m : ℕ) (e : ℤ) :
    ((quotient m e).1 : ℚ) = dyadic m e * (quotient m e).2 := by
  unfold quotient dyadic
  simp only [Nat.pow_eq]
  split
  · next he =>
    obtain ⟨n, rfl⟩ := Int.eq_ofNat_of_zero_le he
    simp
  · next he =>
    obtain ⟨n, hn⟩ := Int.eq_ofNat_of_zero_le (show 0 ≤ -e by omega)
    rw [hn, show e = -(n : ℤ) by omega]
    simp

/-- The decimal order of a double. -/
def orderOf (m : ℕ) (e : ℤ) : ℤ := decimalOrder (quotient m e).1 (quotient m e).2

theorem orderOf_bounds {m : ℕ} (hm : 0 < m) (e : ℤ) :
    10 ^ (orderOf m e - 1) ≤ dyadic m e ∧ dyadic m e < 10 ^ orderOf m e := by
  obtain ⟨hden, hnum⟩ := quotient_pos m e
  obtain ⟨hlow, hhigh⟩ := decimalOrder_bounds (hnum hm) hden
  rw [quotient_eq, mul_comm (dyadic m e)] at hlow hhigh
  have hden : (0 : ℚ) < (quotient m e).2 := by exact_mod_cast hden
  exact ⟨le_of_mul_le_mul_left hlow hden, lt_of_mul_lt_mul_left hhigh hden.le⟩

theorem shortest_eq (tie : Tie) {m : ℕ} (hm : 0 < m) (e : ℤ) : shortest tie m e =
    ((List.range 17).findSome? fun (n : ℕ) => (onGrid? tie m e (orderOf m e - (n + 1))).map
      fun digits => dropZeros 17 digits (orderOf m e - (n + 1))).getD ⟨0, 0⟩ := by
  rw [shortest, if_neg hm.ne']
  rfl

theorem exists_of_shortest (tie : Tie) {m : ℕ} {e : ℤ} (hm : 0 < m) (hlt : m < 2 ^ 53) :
    ∃ n < 17, ∃ digits, onGrid? tie m e (orderOf m e - (n + 1 : ℕ)) = some digits ∧
      shortest tie m e = dropZeros 17 digits (orderOf m e - (n + 1 : ℕ)) := by
  rw [shortest_eq tie hm]
  cases hf : (List.range 17).findSome? _ with
  | none =>
    have hlast := List.findSome?_eq_none_iff.mp hf 16 (by decide)
    rw [Option.map_eq_none_iff] at hlast
    have hfine : (10 : ℚ) ^ (orderOf m e - ((16 : ℕ) + 1) + 16) ≤ dyadic m e := by
      rw [show orderOf m e - ((16 : ℕ) + 1) + 16 = orderOf m e - 1 by push_cast; ring]
      exact (orderOf_bounds hm e).1
    have hsome := onGrid?_isSome tie (exists_readsBack hm hlt hfine)
    rw [hlast] at hsome
    cases hsome
  | some d =>
    obtain ⟨n, hn, hd⟩ := List.exists_of_findSome?_eq_some hf
    obtain ⟨digits, hgrid, rfl⟩ := Option.map_eq_some_iff.mp hd
    exact ⟨n, List.mem_range.mp hn, digits, by exact_mod_cast hgrid, by push_cast; rfl⟩

/-- The shortest decimal of a double reads back as the double, and has few digits. -/
theorem shortest_bounds (tie : Tie) {m : ℕ} {e : ℤ} (hm : 0 < m) (hlt : m < 2 ^ 53) :
    lower m e ≤ (shortest tie m e).value ∧ (shortest tie m e).value ≤ upper m e ∧
      (shortest tie m e).digits ≤ 10 ^ 17 := by
  obtain ⟨n, hn, digits, hgrid, hshortest⟩ := exists_of_shortest tie (e := e) hm hlt
  obtain ⟨hreads, hdigits⟩ := mem_of_onGrid? hgrid
  obtain ⟨hlow, hhigh⟩ := bounds_of_readsBack hreads
  obtain ⟨hvalue, hle⟩ := value_dropZeros 17 digits (orderOf m e - (n + 1 : ℕ))
  rw [hshortest, hvalue]
  refine ⟨hlow, hhigh, hle.trans ?_⟩
  have hbelow : gridBelow m e (orderOf m e - (n + 1 : ℕ)) < 10 ^ (n + 1) := by
    have hstep := unit_le_scale_iff.mp (Nat.div_mul_le_self (4 * m * gridScale e _)
      (gridUnit e (orderOf m e - (n + 1 : ℕ))))
    rw [← dyadic_eq] at hstep
    have hlt := hstep.trans_lt (orderOf_bounds hm e).2
    rw [zpow_sub₀ (by norm_num), zpow_natCast, ← mul_div_assoc, div_lt_iff₀ (by positivity),
      mul_comm] at hlt
    exact_mod_cast lt_of_mul_lt_mul_left hlt (by positivity)
  calc digits ≤ gridBelow m e (orderOf m e - (n + 1 : ℕ)) + 1 := by omega
    _ ≤ 10 ^ (n + 1) := hbelow
    _ ≤ 10 ^ 17 := Nat.pow_le_pow_right (by decide) (by omega)

theorem lower_pos {m : ℕ} (hm : 0 < m) (e : ℤ) : 0 < lower m e := by
  have hpos : 0 < 4 * m - if m = 2 ^ 52 ∧ leastExponent < e then 1 else 2 := by
    split <;> omega
  unfold lower
  positivity

/-- Shortest decimals compare with the decimal of a given double as the doubles do. -/
theorem shortest_lt_iff {tie : Tie} {m m' : ℕ} {e e' : ℤ} {x : ℚ} (hm : 0 < m)
    (h : WellFormed m e) (h' : WellFormed m' e') (hx : (shortest tie m' e').value = x)
    (hlow : lower m' e' < x) (hhigh : x < upper m' e') :
    (shortest tie m e).value < x ↔ dyadic m e < dyadic m' e' := by
  obtain ⟨hs₁, hs₂, -⟩ := shortest_bounds tie (e := e) hm h.lt
  constructor
  · intro hlt
    by_contra hge
    rcases (not_lt.mp hge).lt_or_eq with hgt | heq
    · have := upper_le_lower h' h hgt
      linarith
    · obtain ⟨rfl, rfl⟩ := eq_of_dyadic_eq h' h heq
      exact hlt.ne hx
  · intro hlt
    have := upper_le_lower h h' hlt
    linarith

end Proforma.Double
