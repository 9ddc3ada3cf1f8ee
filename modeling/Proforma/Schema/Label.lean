import Proforma.Text.LetterCase

/-! Labels for readers, made from the names of attributes: `dueDate` becomes `Due Date`. -/
namespace Proforma.Label

open Text

/-- Separators stand between words and are part of none. -/
def isSeparator (c : Char) : Bool := c == '_' || c == '-' || c == ' '

/-- A capital starts a word after a small letter or a digit. After another capital it does so
if a small letter follows. -/
def startsWord (last next : Option Char) (c : Char) : Bool :=
  isUpper c &&
    last.any fun l => isLower l || l.isDigit || (isUpper l && next.any isLower)

/-- The words of a name, the first of which has begun with `word`. -/
def wordsFrom (word : List Char) : List Char → List (List Char)
  | [] => if word.isEmpty then [] else [word]
  | c :: cs =>
    if isSeparator c then
      if word.isEmpty then wordsFrom [] cs else word :: wordsFrom [] cs
    else if startsWord word.getLast? cs.head? c then word :: wordsFrom [c] cs
    else wordsFrom (word ++ [c]) cs

def words (name : List Char) : List (List Char) := wordsFrom [] name

def capitalize : List Char → List Char
  | [] => []
  | c :: cs => toUpper c ++ cs

def ofChars (name : List Char) : List Char :=
  [' '].intercalate ((words name).map capitalize)

def ofName (name : String) : String := String.ofList (ofChars name.toList)

example : ofName "InternalNotes" = "Internal Notes" := by decide +kernel
example : ofName "due_date" = "Due Date" := by decide +kernel
example : ofName "PONumber" = "PO Number" := by decide +kernel
example : ofName "Line2Total" = "Line2 Total" := by decide +kernel

end Proforma.Label
