import Proforma.Text.Blank

/-! Attribute names: an ASCII letter or underscore, then ASCII letters, digits and underscores. -/
namespace Proforma.Text

def startsIdentifier (c : Char) : Bool := c.isAlpha || c == '_'

def continuesIdentifier (c : Char) : Bool := c.isAlphanum || c == '_'

def isIdentifier : List Char → Bool
  | [] => false
  | c :: cs => startsIdentifier c && cs.all continuesIdentifier

/-- The longest identifier at the front, and what follows it. -/
def readIdentifier? : List Char → Option (List Char × List Char)
  | [] => none
  | c :: cs =>
    if startsIdentifier c then
      some (c :: cs.takeWhile continuesIdentifier, cs.dropWhile continuesIdentifier)
    else none

theorem append_of_readIdentifier? {cs word rest : List Char}
    (h : readIdentifier? cs = some (word, rest)) : cs = word ++ rest := by
  cases cs with
  | nil => simp [readIdentifier?] at h
  | cons c cs =>
    simp only [readIdentifier?] at h
    split at h
    · obtain ⟨rfl, rfl⟩ := by simpa using h
      simp [List.takeWhile_append_dropWhile]
    · simp at h

theorem isIdentifier_of_readIdentifier? {cs word rest : List Char}
    (h : readIdentifier? cs = some (word, rest)) : isIdentifier word = true := by
  cases cs with
  | nil => simp [readIdentifier?] at h
  | cons c cs =>
    simp only [readIdentifier?] at h
    split at h
    · next hc =>
      obtain ⟨rfl, rfl⟩ := by simpa using h
      simp only [isIdentifier, hc, Bool.true_and]
      exact List.all_takeWhile
    · simp at h

theorem length_lt_of_readIdentifier? {cs word rest : List Char}
    (h : readIdentifier? cs = some (word, rest)) : rest.length < cs.length := by
  have hw := isIdentifier_of_readIdentifier? h
  rw [append_of_readIdentifier? h, List.length_append]
  cases word with
  | nil => simp [isIdentifier] at hw
  | cons _ _ => simp

end Proforma.Text
