import Proforma.Proofs.Cutting
import Proforma.Schema.Label

/-!
The words of a name. Each letter of the name stands in one of them, in the order of the name, and
begins it at the start, behind a separator and at a capital that starts a word. Words that have
single spaces between them are read back as they are.
-/
namespace Proforma.Label

open Text

/-- The characters of a name that stand in its words. -/
def letters (name : List Char) : List Char := name.filter fun c => !isSeparator c

/-- A label without its spaces. -/
def unspaced (label : List Char) : List Char := label.filter (· ≠ ' ')

/-- A name goes on with `cs` behind `last`, and no word ends or begins there. -/
def IsRun (last : Char) : List Char → Prop
  | [] => True
  | c :: cs => isSeparator c = false ∧ startsWord (some last) cs.head? c = false ∧ IsRun c cs

def IsWord : List Char → Prop
  | [] => False
  | c :: cs => isSeparator c = false ∧ IsRun c cs

theorem startsWord_none (next : Option Char) (c : Char) : startsWord none next c = false := by
  simp [startsWord]

/-- What follows a capital counts only as a small letter. -/
theorem startsWord_congr {last next next' : Option Char} {c : Char}
    (h : next.any isLower = next'.any isLower) :
    startsWord last next c = startsWord last next' c := by
  rw [startsWord, startsWord, h]

theorem startsWord_none_right {last next : Option Char} {c : Char}
    (h : startsWord last next c = false) : startsWord last none c = false := by
  cases last with
  | none => exact startsWord_none none c
  | some l =>
    simp only [startsWord, Option.any_some, Option.any_none, Bool.and_eq_false_iff,
      Bool.or_eq_false_iff] at h ⊢
    exact h.imp_right fun h => ⟨h.1, .inr trivial⟩

theorem IsRun.not_separator {last : Char} {run : List Char} (h : IsRun last run) :
    ∀ c ∈ run, isSeparator c = false := by
  induction run generalizing last with
  | nil => exact fun _ hc => (List.not_mem_nil hc).elim
  | cons c run ih => exact List.forall_mem_cons.mpr ⟨h.1, ih h.2.2⟩

theorem IsWord.not_separator {w : List Char} (h : IsWord w) : ∀ c ∈ w, isSeparator c = false := by
  cases w with
  | nil => exact h.elim
  | cons c run => exact List.forall_mem_cons.mpr ⟨h.1, h.2.not_separator⟩

theorem IsWord.ne_nil {w : List Char} (h : IsWord w) : w ≠ [] := by
  rintro rfl
  exact h

theorem IsWord.not_space {w : List Char} (h : IsWord w) : ' ' ∉ w :=
  fun hm => Bool.false_ne_true (h.not_separator ' ' hm).symm

/-! ### The words of a name -/

theorem words_separator {c : Char} (hc : isSeparator c = true) (cs : List Char) :
    words (c :: cs) = words cs := by
  rw [words, wordsFrom, if_pos hc]
  rfl

theorem words_letter {c : Char} (hc : isSeparator c = false) (cs : List Char) :
    words (c :: cs) = wordsFrom [c] cs := by
  rw [words, wordsFrom, if_neg (by simp [hc]), List.getLast?_nil, startsWord_none]
  rfl

theorem wordsFrom_separator {word : List Char} (hw : word ≠ []) {c : Char}
    (hc : isSeparator c = true) (cs : List Char) :
    wordsFrom word (c :: cs) = word :: words cs := by
  rw [wordsFrom, if_pos hc, if_neg (by simpa using hw)]
  rfl

theorem wordsFrom_of_startsWord {word : List Char} {c : Char} {cs : List Char}
    (hc : isSeparator c = false) (hs : startsWord word.getLast? cs.head? c = true) :
    wordsFrom word (c :: cs) = word :: words (c :: cs) := by
  rw [words_letter hc, wordsFrom, if_neg (by simp [hc]), if_pos hs]

theorem wordsFrom_of_not_startsWord {word : List Char} {c : Char} {cs : List Char}
    (hc : isSeparator c = false) (hs : startsWord word.getLast? cs.head? c = false) :
    wordsFrom word (c :: cs) = wordsFrom (word ++ [c]) cs := by
  rw [wordsFrom, if_neg (by simp [hc]), if_neg (by simp [hs])]

/-- A word that has begun takes up a run of the name, and the other words are those of the rest. -/
theorem exists_run (last : Char) (cs : List Char) : ∃ run rest,
    cs = run ++ rest ∧ IsRun last run ∧ ∀ front,
      wordsFrom (front ++ [last]) cs = (front ++ last :: run) :: words rest := by
  induction cs generalizing last with
  | nil => exact ⟨[], [], rfl, trivial, fun front => by simp [wordsFrom, words]⟩
  | cons c cs ih =>
    cases hc : isSeparator c with
    | true =>
      refine ⟨[], c :: cs, rfl, trivial, fun front => ?_⟩
      rw [wordsFrom_separator (by simp) hc, words_separator hc]
    | false =>
      cases hs : startsWord (some last) cs.head? c with
      | true =>
        refine ⟨[], c :: cs, rfl, trivial, fun front => ?_⟩
        rw [wordsFrom_of_startsWord hc (by rwa [List.getLast?_concat])]
      | false =>
        obtain ⟨run, rest, rfl, hrun, hwords⟩ := ih c
        have hs' : startsWord (some last) run.head? c = false := by
          cases run with
          | nil => exact startsWord_none_right hs
          | cons c' run => exact hs
        refine ⟨c :: run, rest, rfl, ⟨hc, hs', hrun⟩, fun front => ?_⟩
        rw [wordsFrom_of_not_startsWord hc (by rwa [List.getLast?_concat]), hwords,
          List.append_assoc, List.singleton_append]

theorem isWord_of_mem_words {name w : List Char} (hw : w ∈ words name) : IsWord w := by
  -- on the length, since the rest behind a word is not the tail of the name
  induction hn : name.length using Nat.strong_induction_on generalizing name with
  | _ n ih =>
    cases name with
    | nil => simp [words, wordsFrom] at hw
    | cons c cs =>
      rw [List.length_cons] at hn
      cases hc : isSeparator c with
      | true =>
        rw [words_separator hc] at hw
        exact ih cs.length (by omega) hw rfl
      | false =>
        obtain ⟨run, rest, rfl, hrun, hwords⟩ := exists_run c cs
        rw [words_letter hc, ← List.nil_append [c], hwords] at hw
        rw [List.length_append] at hn
        rcases List.mem_cons.mp hw with rfl | hw
        · exact ⟨hc, hrun⟩
        · exact ih rest.length (by omega) hw rfl

/-- What one more character does to the word that has begun. It may end it, and what has been read
is in the ended words and the one that goes on, which is empty behind a separator and has the
character last otherwise. -/
theorem exists_turn (word : List Char) (d : Char) (cs : List Char) : ∃ ended word',
    wordsFrom word (d :: cs) = ended ++ wordsFrom word' cs ∧
      ended.flatten ++ word' = word ++ letters [d] ∧
      (isSeparator d = true ∧ word' = [] ∨ isSeparator d = false ∧ word'.getLast? = some d) := by
  cases hd : isSeparator d with
  | true =>
    have hl : letters [d] = [] := List.filter_cons_of_neg (by simp [hd])
    cases word with
    | nil => exact ⟨[], [], words_separator hd cs, by rw [hl]; rfl, .inl ⟨rfl, rfl⟩⟩
    | cons c word =>
      refine ⟨[c :: word], [], wordsFrom_separator (List.cons_ne_nil _ _) hd cs, ?_,
        .inl ⟨rfl, rfl⟩⟩
      rw [hl, List.flatten_singleton]
  | false =>
    have hl : letters [d] = [d] := List.filter_cons_of_pos (by simp [hd])
    cases hs : startsWord word.getLast? cs.head? d with
    | true =>
      refine ⟨[word], [d], ?_, by rw [hl, List.flatten_singleton], .inr ⟨rfl, rfl⟩⟩
      rw [wordsFrom_of_startsWord hd hs, words_letter hd]
      rfl
    | false =>
      exact ⟨[], word ++ [d], wordsFrom_of_not_startsWord hd hs, by rw [hl]; rfl,
        .inr ⟨rfl, List.getLast?_concat⟩⟩

theorem letters_cons (d : Char) (cs : List Char) : letters (d :: cs) = letters [d] ++ letters cs :=
  List.filter_append [d] cs

theorem flatten_wordsFrom (word cs : List Char) :
    (wordsFrom word cs).flatten = word ++ letters cs := by
  induction cs generalizing word with
  | nil => cases word <;> simp [wordsFrom, letters]
  | cons d cs ih =>
    obtain ⟨ended, word', hturn, hflat, -⟩ := exists_turn word d cs
    rw [hturn, List.flatten_append, ih, ← List.append_assoc, hflat, letters_cons d cs,
      List.append_assoc]

/-- The words hold the letters of the name in their order. -/
theorem flatten_words (name : List Char) : (words name).flatten = letters name :=
  flatten_wordsFrom [] name

/-- A word begins at `l`, which a name has between `front` and `back`: nothing or a separator stands
before it, or it is a capital that starts a word. -/
def beginsAt (front : List Char) (l : Char) (back : List Char) : Bool :=
  front.getLast?.all isSeparator || startsWord front.getLast? back.head? l

theorem exists_word_of_next {word : List Char} (hword : ∀ c ∈ word, isSeparator c = false)
    {l : Char} (hl : isSeparator l = false) (back : List Char) :
    ∃ us u v vs, wordsFrom word (l :: back) = us ++ (u ++ l :: v) :: vs ∧
      (us ++ [u]).flatten = word ∧ (u = [] ↔ beginsAt word l back = true) := by
  obtain ⟨run, rest, -, -, hwords⟩ := exists_run l back
  cases hs : startsWord word.getLast? back.head? l with
  | true =>
    refine ⟨[word], [], run, words rest, ?_, by simp, by simp [beginsAt, hs]⟩
    rw [wordsFrom_of_startsWord hl hs, words_letter hl, ← List.nil_append [l], hwords]
    rfl
  | false =>
    refine ⟨[], word, run, words rest, ?_, by simp, ?_⟩
    · rw [wordsFrom_of_not_startsWord hl hs, hwords]
      rfl
    · rw [beginsAt, hs, Bool.or_false]
      cases hlast : word.getLast? with
      | none => simpa using hlast
      | some c =>
        have hc := hword c (List.mem_of_getLast? hlast)
        have hne : word ≠ [] := List.ne_nil_of_mem (List.mem_of_getLast? hlast)
        simp [hc, hne]

/-- Each letter of a name stands in one of its words, behind the letters that stand before it in the
name, and is the first of its word where one begins. -/
theorem exists_word_of_letter {word : List Char} (hword : ∀ c ∈ word, isSeparator c = false)
    (front : List Char) {l : Char} (hl : isSeparator l = false) (back : List Char) :
    ∃ us u v vs, wordsFrom word (front ++ l :: back) = us ++ (u ++ l :: v) :: vs ∧
      (us ++ [u]).flatten = word ++ letters front ∧
      (u = [] ↔ beginsAt (word ++ front) l back = true) := by
  induction front generalizing word with
  | nil => simpa [letters] using exists_word_of_next hword hl back
  | cons d front ih =>
    obtain ⟨ended, word', hturn, hflat, hlast⟩ := exists_turn word d (front ++ l :: back)
    have hword' : ∀ c ∈ word', isSeparator c = false := by
      intro c hc
      have hm : c ∈ word ++ letters [d] := hflat ▸ List.mem_append_right _ hc
      rcases List.mem_append.mp hm with hm | hm
      · exact hword c hm
      · simpa using (List.mem_filter.mp hm).2
    -- a word begins at `l` as it did: its last neighbour is the same, or a separator and gone
    have hbegins : beginsAt (word' ++ front) l back = beginsAt (word ++ d :: front) l back := by
      cases front with
      | nil => rcases hlast with ⟨hd, rfl⟩ | ⟨-, hlast⟩ <;> simp [beginsAt, *]
      | cons c front =>
        rw [beginsAt, beginsAt, List.getLast?_append_of_ne_nil _ (List.cons_ne_nil _ _),
          List.getLast?_append_of_ne_nil _ (List.cons_ne_nil _ _), List.getLast?_cons_cons]
    obtain ⟨us, u, v, vs, hwords, hus, hu⟩ := ih hword'
    refine ⟨ended ++ us, u, v, vs, ?_, ?_, hbegins ▸ hu⟩
    · rw [List.cons_append, hturn, hwords, List.append_assoc]
    · rw [List.append_assoc, List.flatten_append, hus, ← List.append_assoc, hflat,
        letters_cons d front, List.append_assoc]

/-! ### Words between spaces -/

/-- A word is read as a whole before the end of a name and before a space. -/
theorem wordsFrom_run {last : Char} {run : List Char} (h : IsRun last run) {rest : List Char}
    (hrest : rest.head?.any isLower = false) (front : List Char) :
    wordsFrom (front ++ [last]) (run ++ rest) = wordsFrom (front ++ last :: run) rest := by
  induction run generalizing last front with
  | nil => rfl
  | cons c run ih =>
    obtain ⟨hc, hs, hrun⟩ := h
    have hnext : (run ++ rest).head?.any isLower = run.head?.any isLower := by
      cases run with
      | nil => exact hrest
      | cons c' run => rfl
    rw [List.cons_append, wordsFrom_of_not_startsWord hc
      (by rwa [List.getLast?_concat, startsWord_congr hnext]), ih hrun, List.append_assoc,
      List.singleton_append]

theorem words_append {w : List Char} (h : IsWord w) {rest : List Char}
    (hrest : rest.head?.any isLower = false) : words (w ++ rest) = wordsFrom w rest := by
  cases w with
  | nil => exact h.elim
  | cons c run =>
    rw [List.cons_append, words_letter h.1, ← List.nil_append [c], wordsFrom_run h.2 hrest]
    rfl

theorem words_intercalate {ws : List (List Char)} (h : ∀ w ∈ ws, IsWord w) :
    words ([' '].intercalate ws) = ws := by
  induction ws with
  | nil => rfl
  | cons w ws ih =>
    obtain ⟨hw, hws⟩ := List.forall_mem_cons.mp h
    have hne := hw.ne_nil
    cases ws with
    | nil =>
      rw [List.intercalate_singleton, ← List.append_nil w, words_append hw rfl, List.append_nil,
        wordsFrom, if_neg (by simpa using hne)]
    | cons w' ws =>
      rw [List.intercalate_cons_cons, List.append_assoc, List.singleton_append,
        words_append hw rfl, wordsFrom_separator hne rfl, ih hws]

theorem unspaced_append (xs ys : List Char) : unspaced (xs ++ ys) = unspaced xs ++ unspaced ys :=
  List.filter_append xs ys

theorem unspaced_eq_self {cs : List Char} (h : ' ' ∉ cs) : unspaced cs = cs := by
  rw [unspaced, List.filter_eq_self]
  intro c hc
  simpa using ne_of_mem_of_not_mem hc h

theorem unspaced_intercalate {ws : List (List Char)} (h : ∀ w ∈ ws, ' ' ∉ w) :
    unspaced ([' '].intercalate ws) = ws.flatten := by
  induction ws with
  | nil => rfl
  | cons w ws ih =>
    obtain ⟨hw, hws⟩ := List.forall_mem_cons.mp h
    cases ws with
    | nil => rw [List.intercalate_singleton, unspaced_eq_self hw, List.flatten_singleton]
    | cons w' ws =>
      have hspace : unspaced [' '] = [] := rfl
      rw [List.intercalate_cons_cons, unspaced_append, unspaced_append, ih hws,
        unspaced_eq_self hw, hspace, List.append_nil, List.flatten_cons (l := w)]

theorem intercalate_letter (c : Char) (w : List Char) (ws : List (List Char)) :
    [' '].intercalate ((c :: w) :: ws) = c :: [' '].intercalate (w :: ws) := by
  cases ws with
  | nil => simp
  | cons w' ws => simp [List.intercalate_cons_cons]

theorem head?_intercalate_ne {ws : List (List Char)} (h : ∀ w ∈ ws, IsWord w) :
    ([' '].intercalate ws).head? ≠ some ' ' := by
  cases ws with
  | nil => exact nofun
  | cons w ws =>
    obtain ⟨hw, -⟩ := List.forall_mem_cons.mp h
    cases w with
    | nil => exact hw.elim
    | cons c w =>
      rw [intercalate_letter, List.head?_cons]
      rintro ⟨⟩
      exact hw.not_space (List.mem_cons_self ..)

/-- A label can be cut within each of its words. -/
theorem intercalate_append (us : List (List Char)) (u v : List Char) (vs : List (List Char)) :
    [' '].intercalate (us ++ (u ++ v) :: vs) =
      [' '].intercalate (us ++ [u]) ++ [' '].intercalate (v :: vs) := by
  induction us with
  | nil =>
    cases vs with
    | nil => simp
    | cons w vs => simp [List.intercalate_cons_cons]
  | cons w us ih =>
    cases us with
    | nil => simpa [List.intercalate_cons_cons] using ih
    | cons w' us => simpa [List.intercalate_cons_cons] using ih

theorem intercalate_concat {us : List (List Char)} (h : us ≠ []) (u : List Char) :
    [' '].intercalate (us ++ [u]) = [' '].intercalate us ++ ' ' :: u := by
  induction us with
  | nil => exact (h rfl).elim
  | cons w us ih =>
    cases us with
    | nil => simp [List.intercalate_cons_cons]
    | cons w' us => simpa [List.intercalate_cons_cons] using ih (List.cons_ne_nil _ _)

theorem getLast?_intercalate (us : List (List Char)) {u : List Char} (hu : u ≠ []) :
    ([' '].intercalate (us ++ [u])).getLast? = u.getLast? := by
  by_cases hus : us = []
  · rw [hus, List.nil_append, List.intercalate_singleton]
  · rw [intercalate_concat hus, List.getLast?_append_of_ne_nil _ (List.cons_ne_nil _ _),
      List.getLast?_cons, List.getLast?_eq_getLast_of_ne_nil hu, Option.getD_some]

theorem not_doubled_intercalate {ws : List (List Char)} (h : ∀ w ∈ ws, IsWord w) :
    ¬ [' ', ' '] <:+: [' '].intercalate ws := by
  induction ws with
  | nil => exact fun hp => by simpa using hp.length_le
  | cons w ws ih =>
    obtain ⟨hw, hws⟩ := List.forall_mem_cons.mp h
    have hin : ¬ [' ', ' '] <:+: w := fun hp => hw.not_space (hp.subset (List.mem_cons_self ..))
    cases ws with
    | nil => rwa [List.intercalate_singleton]
    | cons w' ws =>
      rw [List.intercalate_cons_cons, pair_infix_append, pair_infix_append]
      rintro ((hp | ⟨hlast, -⟩ | hp) | ⟨-, hhead⟩ | hp)
      · exact hin hp
      · exact hw.not_space (List.mem_of_getLast? hlast)
      · simpa using hp.length_le
      · exact head?_intercalate_ne hws hhead
      · exact ih hws hp

end Proforma.Label
