import Mathlib.Tactic.ByContra
import Proforma.Template.Directive

/-!
Where a run of characters stops: white space, identifiers and numbers, and what can follow them.
-/
namespace Proforma

open Text

/-- The text does not begin with such a character. -/
def Stops (p : Char → Bool) (rest : List Char) : Prop := ∀ c ∈ rest.head?, p c = false

theorem stops_nil (p : Char → Bool) : Stops p [] := by simp [Stops]

theorem stops_cons {p : Char → Bool} {c : Char} {rest : List Char} :
    Stops p (c :: rest) ↔ p c = false := by
  simp [Stops]

theorem Stops.mono {p q : Char → Bool} {rest : List Char} (h : Stops p rest)
    (hpq : ∀ c, q c = true → p c = true) : Stops q rest := by
  intro c hc
  have hp := h c hc
  by_contra hq
  simp [hpq c (by simpa using hq)] at hp

/-- A text of some kind of characters, followed by what stops at one of another kind. -/
theorem Stops.append {p q : Char → Bool} {cs rest : List Char} (h : Stops p rest)
    (hcs : ∀ c ∈ cs, q c = true) (hqp : ∀ c, q c = true → p c = false) : Stops p (cs ++ rest) := by
  cases cs with
  | nil => exact h
  | cons c cs => exact stops_cons.mpr (hqp c (hcs c (by simp)))

theorem takeWhile_append_of_stops {p : Char → Bool} {cs rest : List Char}
    (hcs : ∀ c ∈ cs, p c = true) (h : Stops p rest) : (cs ++ rest).takeWhile p = cs := by
  rw [List.takeWhile_append_of_pos hcs]
  cases rest with
  | nil => simp
  | cons c rest => simp [stops_cons.mp h]

theorem dropWhile_append_of_stops {p : Char → Bool} {cs rest : List Char}
    (hcs : ∀ c ∈ cs, p c = true) (h : Stops p rest) : (cs ++ rest).dropWhile p = rest := by
  rw [List.dropWhile_append_of_pos hcs]
  cases rest with
  | nil => simp
  | cons c rest => simp [stops_cons.mp h]

theorem skipBlanks_append {gap : List Char} (h : allBlank gap = true) (cs : List Char) :
    skipBlanks (gap ++ cs) = skipBlanks cs :=
  List.dropWhile_append_of_pos (by simpa [allBlank] using h)

theorem skipBlanks_of_stops {cs : List Char} (h : Stops isBlank cs) : skipBlanks cs = cs :=
  dropWhile_append_of_stops (List.forall_mem_nil _) h

theorem skipBlanks_of_allBlank {gap : List Char} (h : allBlank gap = true) :
    skipBlanks gap = [] := by
  simpa [skipBlanks] using skipBlanks_append h []

theorem stops_skipBlanks (cs : List Char) : Stops isBlank (skipBlanks cs) := by
  intro c hc
  have h := List.head?_dropWhile_not isBlank cs
  rw [Option.mem_def] at hc
  unfold skipBlanks at hc
  simpa [hc] using h

theorem skipBlanks_skipBlanks (cs : List Char) : skipBlanks (skipBlanks cs) = skipBlanks cs :=
  skipBlanks_of_stops (stops_skipBlanks cs)

/-- White space is none of the printable ASCII characters. -/
theorem isBlank_eq_false {c : Char} (h : 0x21 ≤ c.toNat) (h' : c.toNat ≤ 0x7E) :
    isBlank c = false := by
  simp only [isBlank, Bool.or_eq_false_iff, Bool.and_eq_false_iff, decide_eq_false_iff_not,
    beq_eq_false_iff_ne]
  omega

theorem isDigit_iff {c : Char} : c.isDigit = true ↔ 0x30 ≤ c.toNat ∧ c.toNat ≤ 0x39 := by
  have h₀ : '0'.val.toNat = 0x30 := rfl
  have h₉ : '9'.val.toNat = 0x39 := rfl
  have hc : c.toNat = c.val.toNat := rfl
  simp only [Char.isDigit, ge_iff_le, UInt32.le_iff_toNat_le, Bool.and_eq_true, decide_eq_true_eq]
  omega

theorem isAlpha_iff {c : Char} : c.isAlpha = true ↔
    (0x41 ≤ c.toNat ∧ c.toNat ≤ 0x5A) ∨ (0x61 ≤ c.toNat ∧ c.toNat ≤ 0x7A) := by
  have h₁ : 'A'.val.toNat = 0x41 := rfl
  have h₂ : 'Z'.val.toNat = 0x5A := rfl
  have h₃ : 'a'.val.toNat = 0x61 := rfl
  have h₄ : 'z'.val.toNat = 0x7A := rfl
  have hc : c.toNat = c.val.toNat := rfl
  have ha : c.isAlpha = (decide (c.val ≥ 'A'.val ∧ c.val ≤ 'Z'.val) ||
      c.val ≥ 'a'.val && c.val ≤ 'z'.val) := rfl
  simp only [ha, ge_iff_le, UInt32.le_iff_toNat_le, Bool.or_eq_true, Bool.and_eq_true,
    decide_eq_true_eq]
  omega

/-- The characters that carry a path on. -/
def continuesPath (c : Char) : Bool := continuesIdentifier c || c == '.' || c == '['

theorem isBlank_of_isAlphanum {c : Char} (h : c.isAlphanum = true) : isBlank c = false := by
  simp only [Char.isAlphanum, Bool.or_eq_true, isAlpha_iff, isDigit_iff] at h
  exact isBlank_eq_false (by omega) (by omega)

theorem isBlank_of_continuesPath {c : Char} (h : continuesPath c = true) : isBlank c = false := by
  simp only [continuesPath, continuesIdentifier, Bool.or_eq_true, beq_iff_eq] at h
  rcases h with ((h | rfl) | rfl) | rfl
  · exact isBlank_of_isAlphanum h
  all_goals decide

theorem isBlank_of_isNumberChar {c : Char} (h : isNumberChar c = true) : isBlank c = false := by
  simp only [isNumberChar, Bool.or_eq_true, beq_iff_eq] at h
  rcases h with (h | rfl) | rfl
  · exact isBlank_of_isAlphanum (by simp [Char.isAlphanum, h])
  all_goals decide

theorem continuesPath_of_isBlank {c : Char} (h : isBlank c = true) : continuesPath c = false := by
  by_contra hc
  rw [isBlank_of_continuesPath (by simpa using hc)] at h
  exact Bool.noConfusion h

theorem continuesIdentifier_of_isBlank {c : Char} (h : isBlank c = true) :
    continuesIdentifier c = false := by
  have hc := continuesPath_of_isBlank h
  simp only [continuesPath, Bool.or_eq_false_iff] at hc
  exact hc.1.1

theorem continuesPath_of_continuesIdentifier {c : Char} (h : continuesIdentifier c = true) :
    continuesPath c = true := by
  simp [continuesPath, h]

theorem continuesIdentifier_of_isDigit {c : Char} (h : c.isDigit = true) :
    continuesIdentifier c = true := by
  simp [continuesIdentifier, Char.isAlphanum, h]

theorem continuesIdentifier_of_startsIdentifier {c : Char} (h : startsIdentifier c = true) :
    continuesIdentifier c = true := by
  simp only [startsIdentifier, continuesIdentifier, Char.isAlphanum, Bool.or_eq_true] at h ⊢
  rcases h with h | h
  · exact .inl (.inl h)
  · exact .inr h

theorem isDigit_of_startsIdentifier {c : Char} (h : startsIdentifier c = true) :
    c.isDigit = false := by
  by_contra hd
  rw [Bool.not_eq_false, isDigit_iff] at hd
  simp only [startsIdentifier, Bool.or_eq_true, isAlpha_iff, beq_iff_eq] at h
  rcases h with h | rfl
  · omega
  · exact absurd hd (by decide)

theorem all_continues_of_isIdentifier {word : List Char} (h : isIdentifier word = true) :
    ∀ c ∈ word, continuesIdentifier c = true := by
  cases word with
  | nil => simp
  | cons c cs =>
    simp only [isIdentifier, Bool.and_eq_true, List.all_eq_true] at h
    intro x hx
    rcases List.mem_cons.mp hx with rfl | hx
    · exact continuesIdentifier_of_startsIdentifier h.1
    · exact h.2 x hx

theorem stops_isBlank_of_isIdentifier {word : List Char} (h : isIdentifier word = true)
    (rest : List Char) : Stops isBlank (word ++ rest) := by
  cases word with
  | nil => simp [isIdentifier] at h
  | cons c cs =>
    exact stops_cons.mpr (isBlank_of_continuesPath
      (continuesPath_of_continuesIdentifier (all_continues_of_isIdentifier h c (by simp))))

end Proforma
