import Proforma.Command.Arguments
import Proforma.Command.Output
import Proforma.Json.Reader
import Proforma.Json.Writer
import Proforma.Schema.Directory

/-! The command `render`: a template filled in from a record in a file. -/
namespace Proforma

def Diagnostic.toJson (d : Diagnostic) : Json :=
  .object [("kind", .text d.kind.slug), ("path", .text d.path), ("message", .text d.message),
    ("line", .ofNat d.line), ("column", .ofNat d.column)]

def Rendering.toJson (r : Rendering) : Json :=
  .object [("text", .text r.text), ("diagnostics", .array (r.diagnostics.map Diagnostic.toJson))]

def ProposedAttribute.toJson (a : ProposedAttribute) : Json :=
  .object [("name", .text a.name), ("kind", .text a.kind.name), ("group", .text a.group.name),
    ("label", .text a.label)]

def Proposal.toJson (p : Proposal) : Json :=
  .object [("entity", .text p.entity), ("schema_version", .ofNat p.schemaVersion.toNat),
    ("attributes", .array (p.attributes.map ProposedAttribute.toJson)),
    ("skipped", .array (p.skipped.map Json.text)), ("source", .text p.source)]

def Session.Filled.toJson (f : Session.Filled) : Json :=
  .object [("render", f.main.toJson), ("proposal", .ofOption (f.proposal.map Proposal.toJson)),
    ("supplement", .ofOption (f.supplement.map Rendering.toJson))]

namespace Command

def readRecord (files : Files) (path : String) : Except String Value :=
  match files.read path with
  | .error fault => .error ("Failed to read context file: " ++ path ++ ": " ++ fault.message)
  | .ok text =>
    match Json.readFinite? text with
    | some v => .ok (.ofJson v)
    | none => .error ("Failed to parse context file: " ++ path)

/-- Renders, with a supplement if one is wanted and there is a directory of schemas. -/
def fill (files : Files) (s : Session) (t : Shared) (context : Context) (o : RenderOptions) :
    Except ParseError Session.Filled :=
  match o.schemaDir, o.fillGaps with
  | some directory, true =>
    (s.fill t context o.entity (Source.ofDirectory files directory)).1
  | _, _ => (s.render t context).1.map fun main => ⟨main, none, none⟩

def renderOutput (quiet : Bool) (o : RenderOptions) (f : Session.Filled) : Output :=
  let failure :=
    if o.strict && !f.diagnostics.isEmpty then
      some s!"Rendering produced {f.diagnostics.length} diagnostic(s)"
    else none
  match o.format with
  | .json => ⟨f.toJson.pretty ++ "\n", "", failure⟩
  | .text =>
    let warnings := if quiet then [] else f.diagnostics.map fun d => warning d.render
    ⟨f.text, String.join warnings, failure⟩

def render (files : Files) (quiet : Bool) (now : Moment) (s : Session) (o : RenderOptions) :
    Output :=
  match load files s o.template with
  | .error e => .ofFailure e.message
  | .ok (shared, s) =>
    match readRecord files o.context with
    | .error message => .ofFailure message
    | .ok record =>
      match fill files s shared ⟨record, o.today.getD now⟩ o with
      | .error e => .ofFailure (shared.template.report e)
      | .ok f => renderOutput quiet o f

end Command

end Proforma
