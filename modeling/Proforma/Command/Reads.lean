import Proforma.Command.Arguments
import Proforma.Command.Output
import Proforma.Schema.Directory
import Proforma.Settings.Load

/-! The files that a command line reads, so that they can be at hand before it runs. -/
namespace Proforma.Command

def Task.files : Task → List String
  | .check templates => templates
  | .render o => [o.template, o.context]
  | .gaps o => [o.template]

/-- The files that the command line and the surroundings name. -/
def namedFiles (around : Surroundings) (i : Invocation) : List String :=
  i.config.getD (Settings.implicitPath around) :: i.task.files

/-- The template, the directory of schemas and the entity that is asked for, if the task looks for
a schema. -/
def Task.search? : Task → Option (String × String × Option String)
  | .check _ => none
  | .render o => if o.fillGaps then o.schemaDir.map fun dir => (o.template, dir, o.entity) else none
  | .gaps o => some (o.template, o.schemaDir, o.entity)

/-- The files that may hold the schema, once the named files are at hand. -/
def schemaFiles (files : Files) (i : Invocation) : List String :=
  match i.task.search? with
  | none => []
  | some (template, directory, entity) =>
    let declared := ((loadTemplate files template).toOption).bind Template.entity
    match entity.or declared with
    | none => []
    | some entity => Source.pathsIn directory entity

end Proforma.Command
