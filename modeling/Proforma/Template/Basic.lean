import Proforma.Render.Rendering
import Proforma.Template.Block
import Proforma.Template.FrontMatter
import Proforma.Text.Fingerprint

/-!
Named templates. Places in a template count from the top of its text, front matter included.
-/
namespace Proforma

open Text

structure Template where
  name : String
  version : String
  /-- The entity that the template is about. -/
  entity : Option String
  /-- What stands before the body: the front matter. -/
  head : String
  body : String
  deriving DecidableEq, Repr

namespace Template

/-- A template without front matter. -/
def new (name version source : String) : Template := ⟨name, version, none, "", source⟩

def withEntity (t : Template) (entity : String) : Template := { t with entity := some entity }

/-- Reads a template from its text. A name or version that the front matter leaves out is the
given name or zero. Fails if there is front matter that cannot be read. -/
def ofMarkdown? (name : String) (text : String) : Option Template :=
  match FrontMatter.split? text.toList with
  | none => some (new name "0" text)
  | some parts =>
    (FrontMatter.read? parts.inner).map fun front =>
      ⟨front.name.getD name, front.version.getD "0", front.entity, String.ofList parts.head,
        String.ofList parts.body⟩

def frontMatterFailure (name : String) : String :=
  "Failed to parse frontmatter of template '" ++ name ++ "'"

def text (t : Template) : String := t.head ++ t.body

/-- Where the body begins. -/
def origin (t : Template) : Position := .after t.head.toList

def fingerprint (t : Template) : String := Text.fingerprint t.text

def compile (t : Template) : Except ParseError Tree :=
  (parse t.body).mapError (·.within t.origin)

/-- The report of an error that `compile` returns. -/
def report (t : Template) (e : ParseError) : String := e.report t.text.toList

def render (t : Template) (context : Context) (format : Format) : Except ParseError Rendering := do
  let tree ← t.compile
  let r := Proforma.render tree t.body.toList context format
  return { r with diagnostics := r.diagnostics.map (·.within t.origin) }

end Template

end Proforma
