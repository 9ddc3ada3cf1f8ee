import Proforma.Command.Reads
import Proforma.Command.Run
import Std.Time.Format

/-! The program: reads the files that a command line needs, runs it, and prints what it leaves. -/
namespace Proforma.Program

open Command

def usage : String :=
  "Usage: pview [OPTIONS] <COMMAND>\n\n" ++
  "Commands:\n" ++
  "  check <TEMPLATES>...\n" ++
  "  render <TEMPLATE> --context <FILE> [--today <WHEN>] [--fill-gaps --schema-dir <DIR>]\n" ++
  "         [--entity <ENTITY>] [--format <text|json>] [--strict]\n" ++
  "  gaps <TEMPLATE> --schema-dir <DIR> [--entity <ENTITY>] [--format <text|json>]\n\n" ++
  "Options:\n" ++
  "  -v, --verbose\n" ++
  "  -q, --quiet\n" ++
  "  -c, --config <FILE>\n" ++
  "  -h, --help\n" ++
  "  -V, --version\n"

def explain : UsageFault → String
  | .help | .version => ""
  | .nothingGiven => "no arguments were given"
  | .missingCommand => "a command is missing"
  | .missingArgument => "an argument is missing"
  | .conflict => "an option is given twice, or with another that excludes it"
  | .unwantedValue => "an option takes no value"
  | .invalidValue => "an option or argument lacks a usable value"
  | .invalidMoment => "a time is not in the form of RFC 3339"
  | .unknownArgument => "an argument is not expected"
  | .unknownCommand => "there is no such command"

/-- The number of an error comes with either sign. -/
def faultOf : IO.Error → FileFault
  | .noFileOrDirectory .. => .absent
  | .permissionDenied .. => .denied
  | e@(.inappropriateType _ number _) =>
    if number = 21 || number = -21 then .directory
    else if number = 20 || number = -20 then .notDirectory
    else .other (toString e)
  | e => .other (toString e)

def readFile (path : String) : IO (Except FileFault String) := do
  match ← (IO.FS.readBinFile path).toBaseIO with
  | .ok bytes => return (String.fromUTF8? bytes).elim (.error .notText) .ok
  | .error e => return .error (faultOf e)

def readFiles (paths : List String) : IO (List (String × Except FileFault String)) :=
  paths.mapM fun path => return (path, ← readFile path)

/-- The time on the local clock, or universal time where the zone is not known. -/
def now : IO Moment := do
  let rules ← try Std.Time.Database.defaultGetLocalZoneRules catch _ => pure .UTC
  let n := Std.Time.DateTime.ofTimestamp (← Std.Time.Timestamp.now) rules
  let p := n.toPlainDateTime
  return ⟨⟨p.date.year, p.date.month.val.toNat, p.date.day.val.toNat⟩,
    ⟨p.time.hour.val.toNat, p.time.minute.val.toNat, p.time.second.val.toNat,
      p.time.nanosecond.val.toNat⟩,
    n.offset.second.val⟩

def runInvocation (i : Invocation) : IO Output := do
  let settingsPath ← IO.getEnv "PVIEW_CONFIG"
  let home := (← IO.getEnv "HOME").getD ""
  let named ← readFiles (namedFiles ⟨.ofList [], settingsPath, home⟩ i)
  let schemas ← readFiles (schemaFiles (.ofList named) i)
  return run ⟨.ofList (named ++ schemas), settingsPath, home⟩ (← now) i

end Proforma.Program

def main (arguments : List String) : IO UInt32 := do
  match Proforma.Command.read arguments with
  | .error .help => IO.print Proforma.Program.usage; return 0
  | .error .version => IO.println "pview 0.1.0"; return 0
  | .error fault =>
    IO.eprint ("error: " ++ Proforma.Program.explain fault ++ "\n\n" ++ Proforma.Program.usage)
    return 2
  | .ok i =>
    let output ← Proforma.Program.runInvocation i
    IO.print output.text
    IO.eprint output.notes
    match output.failure with
    | none => return 0
    | some message => IO.eprintln ("error: " ++ message); return 1
