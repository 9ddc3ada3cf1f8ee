import Proforma.Text.Blank
import Proforma.Yaml.Reader

/-!
Front matter: lines at the top of a template between two fences, which say in YAML what the
template is called, which version it is and which entity it is about.
-/
namespace Proforma

open Text

/-- What front matter says. -/
structure FrontMatter where
  name : Option String
  version : Option String
  entity : Option String
  deriving DecidableEq, Repr

namespace FrontMatter

def empty : FrontMatter := ⟨none, none, none⟩

/-- The lines of a text, each with its line feed. -/
def fullLines : List Char → List (List Char)
  | [] => []
  | c :: cs =>
    if c == '\n' then ['\n'] :: fullLines cs
    else
      match fullLines cs with
      | [] => [[c]]
      | line :: rest => (c :: line) :: rest

theorem flatten_fullLines (cs : List Char) : (fullLines cs).flatten = cs := by
  induction cs with
  | nil => rfl
  | cons c cs ih =>
    rw [fullLines]
    split
    · next h => simp_all
    · split
      · next h =>
        rw [h] at ih
        exact congrArg (c :: ·) ih
      · next h =>
        rw [h] at ih
        exact congrArg (c :: ·) ih

def isFence (line : List Char) : Bool := dropLastBlanks line == ['-', '-', '-']

/-- A text with front matter, taken apart. -/
structure Parts where
  /-- The lines between the fences. -/
  inner : List (List Char)
  /-- Everything up to the second fence, with both fences. -/
  head : List Char
  body : List Char

/-- Lines up to the first fence, and what follows it. -/
def close? : List (List Char) → Option Parts
  | [] => none
  | line :: rest =>
    if isFence line then some ⟨[], line, rest.flatten⟩
    else (close? rest).map fun p => { p with inner := line :: p.inner, head := line ++ p.head }

/-- Front matter begins in the first line and must end. -/
def split? (cs : List Char) : Option Parts :=
  match fullLines cs with
  | [] => none
  | first :: rest =>
    if isFence first then (close? rest).map fun p => { p with head := first ++ p.head } else none

theorem append_of_close? {lines : List (List Char)} {p : Parts} (h : close? lines = some p) :
    p.head ++ p.body = lines.flatten := by
  induction lines generalizing p with
  | nil => simp [close?] at h
  | cons line rest ih =>
    rw [close?] at h
    split at h
    · cases h
      simp
    · obtain ⟨q, hq, rfl⟩ := Option.map_eq_some_iff.mp h
      simp [← ih hq]

theorem append_of_split? {cs : List Char} {p : Parts} (h : split? cs = some p) :
    p.head ++ p.body = cs := by
  rw [← flatten_fullLines cs]
  rw [split?] at h
  split at h
  · simp at h
  · next first rest hl =>
    split at h
    · obtain ⟨q, hq, rfl⟩ := Option.map_eq_some_iff.mp h
      simp [hl, ← append_of_close? hq]
    · simp at h

def dropLineEnd (line : List Char) : List Char :=
  if line.getLast? == some '\n' then
    let line := line.dropLast
    if line.getLast? == some '\r' then line.dropLast else line
  else line

/-- Null, or a text. -/
def text? : Yaml → Option (Option String)
  | .null | .invalid => some none
  | .text s => some (some s)
  | _ => none

/-- The text of a number. A name of infinity, or of what is no number, counts as zero. -/
def numberText (source : String) : String :=
  match Double.read? source.toList with
  | some (.infinite negative) => if negative then "-.inf" else ".inf"
  | some x => Double.frontMatterForm.write x
  | none => Double.frontMatterForm.write (Double.zero false)

/-- Null, a text or a number. -/
def version? : Yaml → Option (Option String)
  | .integer n => some (some (toString n))
  | .real source => some (some (numberText source))
  | v => text? v

/-- The value of a key. -/
def member (key : String) (entries : List (Yaml × Yaml)) : Yaml :=
  match entries.find? fun e => e.1.same (.text key) with
  | some e => e.2
  | none => .null

/-- The name, the version and the entity, each read from its value. -/
def ofValues? (name version entity : Yaml) : Option FrontMatter := do
  some ⟨← text? name, ← version? version, ← text? entity⟩

/-- A mapping of the three keys. -/
def ofYaml? : Yaml → Option FrontMatter
  | .null | .invalid => some empty
  | .mapping entries =>
    ofValues? (member "name" entries) (member "version" entries) (member "entity" entries)
  | _ => none

/-- Reads the lines between the fences. -/
def read? (inner : List (List Char)) : Option FrontMatter :=
  let content := trim (['\n'].intercalate (inner.map dropLineEnd))
  if content.isEmpty then some empty else (Yaml.read? content).bind ofYaml?

end FrontMatter

end Proforma
