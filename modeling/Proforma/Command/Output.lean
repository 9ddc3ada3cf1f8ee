import Proforma.Files.Basic
import Proforma.Session.Basic

/-! What a command leaves behind, and how templates get from files into a session. -/
namespace Proforma.Command

/-- The texts that a command writes, and why it fails if it does. -/
structure Output where
  text : String
  /-- Warnings and reports. -/
  notes : String
  failure : Option String
  deriving DecidableEq, Repr

namespace Output

def ofFailure (message : String) : Output := ⟨"", "", some message⟩

def ofText (text : String) : Output := ⟨text, "", none⟩

end Output

inductive LoadError where
  | unreadable (path : String) (fault : FileFault)
  | frontMatter (name : String)
  deriving DecidableEq, Repr

def LoadError.message : LoadError → String
  | unreadable path fault => "Failed to read template file: " ++ path ++ ": " ++ fault.message
  | frontMatter name => Template.frontMatterFailure name

/-- Reads a template; a file without a usable name gives the name `template`. -/
def loadTemplate (files : Files) (path : String) : Except LoadError Template :=
  match files.read path with
  | .error fault => .error (.unreadable path fault)
  | .ok text =>
    let name := (Files.stem? path).getD "template"
    match Template.ofMarkdown? name text with
    | some t => .ok t
    | none => .error (.frontMatter name)

/-- Reads a template and registers it. -/
def load (files : Files) (s : Session) (path : String) : Except LoadError (Shared × Session) :=
  (loadTemplate files path).map s.register

def warning (s : String) : String := "warning: " ++ s ++ "\n"

end Proforma.Command
