import Proforma.Command.Check
import Proforma.Command.Gaps
import Proforma.Settings.Load

/-! Running a command line from the reading of the settings to the output. -/
namespace Proforma.Command

def run (around : Surroundings) (now : Moment) (i : Invocation) : Output :=
  match Settings.load around i.config with
  | .error e => .ofFailure e.message
  | .ok settings =>
    let s := Session.new settings
    match i.task with
    | .check templates => check around.files i.quiet s templates
    | .render options => render around.files i.quiet now s options
    | .gaps options => gaps around.files s options

end Proforma.Command
