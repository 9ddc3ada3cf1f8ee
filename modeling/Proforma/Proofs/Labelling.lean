import Mathlib.Data.List.Forall2
import Proforma.Proofs.Wording

/-!
What the label of a name shows. All letters of the name are there in their order, word by word, and
the words have single spaces between them. Only small letters that begin a word are changed, to
upper case. A label is its own label: its words are those of the name, and none is cut again.
-/
namespace Proforma.Label

open Text

-- lemmas on the case of ASCII letters exist only behind an import of all of Mathlib

theorem isLower_iff {c : Char} : c.isLower = true ↔ 97 ≤ c.toNat ∧ c.toNat ≤ 122 := by
  have hdef : c.isLower = (decide ('a'.val ≤ c.val) && decide (c.val ≤ 'z'.val)) := rfl
  rw [hdef, Bool.and_eq_true, decide_eq_true_eq, decide_eq_true_eq]
  exact Iff.rfl

theorem isUpper_iff {c : Char} : c.isUpper = true ↔ 65 ≤ c.toNat ∧ c.toNat ≤ 90 :=
  decide_eq_true_iff

/-- A character is no small letter and stays, or is one and becomes a capital. -/
theorem toUpper_cases (c : Char) : c.isLower = false ∧ c.toUpper = c ∨
    c.isLower = true ∧ c.toUpper.isUpper = true := by
  unfold Char.toUpper
  split
  · next h =>
    have hletter : 97 ≤ c.toNat ∧ c.toNat ≤ 122 := h
    have hraised : (c.val + ('A'.val - 'a'.val)).toNat = c.toNat - 32 := by
      rw [UInt32.toNat_add, Char.toNat_val, show ('A'.val - 'a'.val).toNat = 2 ^ 32 - 32 by decide]
      omega
    refine .inr ⟨isLower_iff.mpr hletter, isUpper_iff.mpr ?_⟩
    show 65 ≤ (c.val + ('A'.val - 'a'.val)).toNat ∧ (c.val + ('A'.val - 'a'.val)).toNat ≤ 90
    omega
  · next h => exact .inl ⟨Bool.eq_false_iff.mpr fun hl => h (isLower_iff.mp hl), rfl⟩

/-- What has been raised is not raised again. -/
theorem not_isLower_toUpper (c : Char) : c.toUpper.isLower = false := by
  rcases toUpper_cases c with ⟨hl, hc⟩ | ⟨-, hu⟩
  · rw [hc, hl]
  · refine Bool.eq_false_iff.mpr fun hl => ?_
    have hsmall := (isLower_iff.mp hl).1
    have hcapital := (isUpper_iff.mp hu).2
    omega

theorem toUpper_ne_self_iff (c : Char) : c.toUpper ≠ c ↔ c.isLower = true := by
  rcases toUpper_cases c with ⟨hl, hc⟩ | ⟨hl, -⟩
  · simp [hc, hl]
  · refine iff_of_true (fun h => ?_) hl
    rw [← h, not_isLower_toUpper] at hl
    cases hl

def IsAscii (cs : List Char) : Prop := ∀ c ∈ cs, c.toNat < 128

/-- A character that can stand in a word of an ASCII name. -/
def IsLetter (c : Char) : Prop := c.toNat < 128 ∧ isSeparator c = false

theorem IsLetter.ne_space {c : Char} (h : IsLetter c) : c ≠ ' ' := by
  rintro rfl
  cases h.2

theorem isUpper_of_isSeparator {c : Char} (h : isSeparator c = true) : c.isUpper = false := by
  simp only [isSeparator, Bool.or_eq_true, beq_iff_eq] at h
  rcases h with (rfl | rfl) | rfl <;> rfl

theorem IsLetter.toUpper {c : Char} (h : IsLetter c) : IsLetter c.toUpper := by
  rcases toUpper_cases c with ⟨-, hc⟩ | ⟨-, hu⟩
  · rwa [hc]
  · constructor
    · exact (isUpper_iff.mp hu).2.trans_lt (by decide)
    · by_contra hs
      rw [Bool.not_eq_false] at hs
      exact Bool.false_ne_true ((isUpper_of_isSeparator hs).symm.trans hu)

theorem isLetter_of_mem_letters {cs : List Char} (h : IsAscii cs) :
    ∀ c ∈ letters cs, IsLetter c := by
  intro c hc
  obtain ⟨hm, hc⟩ := List.mem_filter.mp hc
  exact ⟨h c hm, by simpa using hc⟩

/-! ### Capital letters -/

theorem capitalize_cons {c : Char} (hc : IsLetter c) (cs : List Char) :
    capitalize (c :: cs) = c.toUpper :: cs := by
  rw [capitalize, toUpper_of_ascii hc.1, List.singleton_append]

section

variable {w : List Char} (h : ∀ c ∈ w, IsLetter c)
include h

theorem isLetter_of_mem_capitalize : ∀ c ∈ capitalize w, IsLetter c := by
  cases w with
  | nil => exact nofun
  | cons c cs =>
    obtain ⟨hc, hcs⟩ := List.forall_mem_cons.mp h
    rw [capitalize_cons hc]
    exact List.forall_mem_cons.mpr ⟨hc.toUpper, hcs⟩

theorem not_space_capitalize : ' ' ∉ capitalize w :=
  fun hm => (isLetter_of_mem_capitalize h ' ' hm).ne_space rfl

theorem capitalize_capitalize : capitalize (capitalize w) = capitalize w := by
  cases w with
  | nil => rfl
  | cons c cs =>
    have hc := h c (List.mem_cons_self ..)
    have htwice : c.toUpper.toUpper = c.toUpper := by
      by_contra hne
      have hl := (toUpper_ne_self_iff c.toUpper).mp hne
      exact Bool.false_ne_true ((not_isLower_toUpper c).symm.trans hl)
    rw [capitalize_cons hc, capitalize_cons hc.toUpper, htwice]

theorem capitalize_eq_nil : capitalize w = [] ↔ w = [] := by
  cases w with
  | nil => rfl
  | cons c cs => simp [capitalize_cons (h c (List.mem_cons_self ..))]

end

/-- Only the first character of a word is raised. -/
theorem capitalize_append {u : List Char} {l : Char} {v : List Char}
    (h : ∀ c ∈ u ++ l :: v, IsLetter c) :
    capitalize (u ++ l :: v) = capitalize u ++ (if u = [] then l.toUpper else l) :: v := by
  cases u with
  | nil => exact capitalize_cons (h l (List.mem_cons_self ..)) v
  | cons c u =>
    have hc := h c (List.mem_cons_self ..)
    rw [capitalize_cons hc, if_neg (List.cons_ne_nil _ _)]
    exact capitalize_cons hc _

/-- A small letter is followed by no capital in its word, so that it may be raised. -/
theorem IsRun.toUpper {last : Char} (hlast : last.toNat < 128) {run : List Char}
    (h : IsRun last run) : IsRun last.toUpper run := by
  cases run with
  | nil => trivial
  | cons c run =>
    obtain ⟨hc, hs, hrun⟩ := h
    refine ⟨hc, ?_, hrun⟩
    rcases toUpper_cases last with ⟨-, hl⟩ | ⟨hl, -⟩
    · rwa [hl]
    · have hupper : isUpper c = false := by
        simpa [startsWord, isLower_of_ascii hlast, hl] using hs
      simp [startsWord, hupper]

theorem IsWord.capitalize {w : List Char} (h : IsWord w) (hw : ∀ c ∈ w, IsLetter c) :
    IsWord (capitalize w) := by
  cases w with
  | nil => exact h.elim
  | cons c run =>
    have hc := hw c (List.mem_cons_self ..)
    rw [capitalize_cons hc]
    exact ⟨hc.toUpper.2, h.2.toUpper hc.1⟩

/-! ### Labels -/

/-- A letter of a name as its label may have it. -/
def ShownAs (l c : Char) : Prop := c = l ∨ c = l.toUpper

/-- The label that has the given words. -/
def ofWords (ws : List (List Char)) : List Char := [' '].intercalate (ws.map capitalize)

theorem forall₂_capitalize {w : List Char} (h : ∀ c ∈ w, IsLetter c) :
    List.Forall₂ ShownAs w (capitalize w) := by
  cases w with
  | nil => exact .nil
  | cons c cs =>
    rw [capitalize_cons (h c (List.mem_cons_self ..))]
    exact .cons (.inr rfl) (List.forall₂_same.mpr fun _ _ => .inl rfl)

theorem forall₂_ofWords {ws : List (List Char)} (h : ∀ w ∈ ws, ∀ c ∈ w, IsLetter c) :
    List.Forall₂ ShownAs ws.flatten (unspaced (ofWords ws)) := by
  have hspace : ∀ w ∈ ws.map capitalize, ' ' ∉ w :=
    List.forall_mem_map.mpr fun w hw => not_space_capitalize (h w hw)
  rw [ofWords, unspaced_intercalate hspace]
  apply List.rel_flatten
  rw [List.forall₂_map_right_iff, List.forall₂_same]
  exact fun w hw => forall₂_capitalize (h w hw)

theorem exists_ofWords_append (us : List (List Char)) {u : List Char} {l : Char} {v : List Char}
    (h : ∀ c ∈ u ++ l :: v, IsLetter c) (vs : List (List Char)) :
    ∃ after, ofWords (us ++ (u ++ l :: v) :: vs) =
      ofWords (us ++ [u]) ++ (if u = [] then l.toUpper else l) :: after := by
  refine ⟨[' '].intercalate (v :: vs.map capitalize), ?_⟩
  rw [ofWords, List.map_append, List.map_cons, capitalize_append h, intercalate_append,
    intercalate_letter, ofWords, List.map_append, List.map_singleton]

/-- In a label a word begins behind `before`. -/
def BeginsWord (before : List Char) : Prop := before = [] ∨ before.getLast? = some ' '

theorem beginsWord_intercalate (us : List (List Char)) {u : List Char} (hu : ' ' ∉ u) :
    BeginsWord ([' '].intercalate (us ++ [u])) ↔ u = [] := by
  constructor
  · intro hb
    by_contra hne
    have hlast := getLast?_intercalate us hne
    rcases hb with hb | hb
    · rw [hb] at hlast
      exact hne (List.getLast?_eq_none_iff.mp hlast.symm)
    · exact hu (List.mem_of_getLast? (hlast ▸ hb))
  · rintro rfl
    by_cases hus : us = []
    · exact .inl (by simp [hus])
    · exact .inr (by rw [intercalate_concat hus, List.getLast?_concat])

theorem beginsWord_ofWords (us : List (List Char)) {u : List Char} (hu : ∀ c ∈ u, IsLetter c) :
    BeginsWord (ofWords (us ++ [u])) ↔ u = [] := by
  rw [ofWords, List.map_append, List.map_singleton,
    beginsWord_intercalate _ (not_space_capitalize hu), capitalize_eq_nil hu]

section

variable {name : List Char} (h : IsAscii name)
include h

theorem isLetter_of_mem_words : ∀ w ∈ words name, ∀ c ∈ w, IsLetter c := by
  intro w hw c hc
  apply isLetter_of_mem_letters h
  rw [← flatten_words]
  exact List.mem_flatten.mpr ⟨w, hw, hc⟩

theorem isWord_of_mem_capitalized : ∀ w ∈ (words name).map capitalize, IsWord w :=
  List.forall_mem_map.mpr fun w hw =>
    (isWord_of_mem_words hw).capitalize (isLetter_of_mem_words h w hw)

/-- The words of a label are those of the name, and none of them is cut again. -/
theorem words_ofChars : words (ofChars name) = (words name).map capitalize :=
  words_intercalate (isWord_of_mem_capitalized h)

theorem ofChars_ofChars : ofChars (ofChars name) = ofChars name := by
  rw [ofChars, words_ofChars h, List.map_map, ofChars]
  congr 1
  exact List.map_congr_left fun w hw => capitalize_capitalize (isLetter_of_mem_words h w hw)

theorem forall₂_ofChars : List.Forall₂ ShownAs (letters name) (unspaced (ofChars name)) :=
  flatten_words name ▸ forall₂_ofWords (isLetter_of_mem_words h)

theorem getLast?_ofChars_ne : (ofChars name).getLast? ≠ some ' ' := by
  have hwords := isWord_of_mem_capitalized h
  rw [ofChars]
  rcases List.eq_nil_or_concat' ((words name).map capitalize) with he | ⟨us, u, he⟩
  · rw [he]
    exact nofun
  · rw [he] at hwords ⊢
    have hu := hwords u (by simp)
    rw [getLast?_intercalate us hu.ne_nil]
    exact fun hlast => hu.not_space (List.mem_of_getLast? hlast)

theorem not_separator_of_mem_ofChars {c : Char} (hc : c ∈ ofChars name) (hne : c ≠ ' ') :
    isSeparator c = false := by
  have hm : c ∈ unspaced (ofChars name) := List.mem_filter.mpr ⟨hc, by simpa using hne⟩
  have hwords := isWord_of_mem_capitalized h
  rw [ofChars, unspaced_intercalate fun w hw => (hwords w hw).not_space, List.mem_flatten] at hm
  obtain ⟨w, hw, hc⟩ := hm
  exact (hwords w hw).not_separator c hc

end

/-- The letter `l`, which a name has between `front` and `back`, is shown in a label as `c` behind
`before`. It begins a word there just if one begins in the name, and it is changed just if it is
small and begins a word. -/
structure ShowsLetter (front : List Char) (l : Char) (back before : List Char) (c : Char) :
    Prop where
  ne_space : c ≠ ' '
  place : (unspaced before).length = (letters front).length
  begins : BeginsWord before ↔ beginsAt front l back = true
  changed : c ≠ l ↔ l.isLower = true ∧ BeginsWord before

/-- A label shows a name: without its spaces it has the letters of the name, some of them in upper
case, and its words have single spaces between them. -/
structure Shows (name label : List Char) : Prop where
  not_leading : label.head? ≠ some ' '
  not_trailing : label.getLast? ≠ some ' '
  not_doubled : ¬ [' ', ' '] <:+: label
  no_underscore : '_' ∉ label
  no_hyphen : '-' ∉ label
  letters_shown : List.Forall₂ ShownAs (letters name) (unspaced label)
  letter : ∀ front l back, name = front ++ l :: back → isSeparator l = false →
    ∃ before c after, label = before ++ c :: after ∧ ShowsLetter front l back before c

theorem exists_shown {front : List Char} {l : Char} {back : List Char}
    (h : IsAscii (front ++ l :: back)) (hl : isSeparator l = false) :
    ∃ before c after, ofChars (front ++ l :: back) = before ++ c :: after ∧
      ShowsLetter front l back before c := by
  obtain ⟨us, u, v, vs, hwords, hflat, hu⟩ :=
    exists_word_of_letter (List.forall_mem_nil _) front hl back
  rw [← words] at hwords
  rw [List.nil_append] at hflat hu
  have hword : ∀ c ∈ u ++ l :: v, IsLetter c := isLetter_of_mem_words h _ (by simp [hwords])
  have hfront : ∀ w ∈ us ++ [u], ∀ c ∈ w, IsLetter c := by
    intro w hw c hc
    have hm : c ∈ letters front := hflat ▸ List.mem_flatten.mpr ⟨w, hw, hc⟩
    exact isLetter_of_mem_letters (fun c hc => h c (List.mem_append_left _ hc)) c hm
  have hbegins := beginsWord_ofWords us (hfront u (by simp))
  obtain ⟨after, hafter⟩ := exists_ofWords_append us hword vs
  refine ⟨ofWords (us ++ [u]), if u = [] then l.toUpper else l, after, ?_, ?_, ?_,
    hbegins.trans hu, ?_⟩
  · rw [← hafter, ← hwords]
    rfl
  · have hletter := hword l (by simp)
    split
    · exact hletter.toUpper.ne_space
    · exact hletter.ne_space
  · rw [← hflat, (forall₂_ofWords hfront).length_eq]
  · rw [hbegins]
    by_cases he : u = []
    · simp [he, toUpper_ne_self_iff]
    · simp [he]

theorem shows_ofChars {name : List Char} (h : IsAscii name) : Shows name (ofChars name) where
  not_leading := head?_intercalate_ne (isWord_of_mem_capitalized h)
  not_trailing := getLast?_ofChars_ne h
  not_doubled := not_doubled_intercalate (isWord_of_mem_capitalized h)
  no_underscore hm := by simpa [isSeparator] using not_separator_of_mem_ofChars h hm (by decide)
  no_hyphen hm := by simpa [isSeparator] using not_separator_of_mem_ofChars h hm (by decide)
  letters_shown := forall₂_ofChars h
  letter front l back hname hl := by
    subst hname
    exact exists_shown h hl

/-- The label of an ASCII name shows its letters, and is its own label. -/
theorem ofName_shows (name : String) (h : IsAscii name.toList) :
    Shows name.toList (ofName name).toList ∧ ofName (ofName name) = ofName name := by
  constructor
  · rw [ofName, String.toList_ofList]
    exact shows_ofChars h
  · rw [ofName, ofName, String.toList_ofList, ofChars_ofChars h]

theorem ofName_shows_mixed :
    let name := "x_dueDATE--PONumber2Day "
    IsAscii name.toList ∧ ofName name = "X Due DATE PO Number2 Day" ∧
      Shows name.toList (ofName name).toList ∧ ofName (ofName name) = ofName name := by
  intro name
  have h : IsAscii name.toList := by simp [IsAscii, name]
  exact ⟨h, by decide +kernel, ofName_shows name h⟩

-- beyond ASCII one letter may be raised to two, and between these and the next a word begins
example : ofName "ßa" = "SSa" ∧ ofName "SSa" = "S Sa" := by decide +kernel

end Proforma.Label
