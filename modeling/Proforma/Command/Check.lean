import Proforma.Command.Output

/-! The command `check`: which templates can be read. -/
namespace Proforma.Command

/-- What is written about a single template. -/
structure Verdict where
  text : String
  notes : String
  passed : Bool

def failed (path report : String) : Verdict := ⟨"", "✗ " ++ path ++ "\n" ++ report ++ "\n", false⟩

def passed (quiet : Bool) (path : String) (t : Template) (tree : Tree) : Verdict :=
  let line := "✓ " ++ path ++ " (" ++ t.name ++ " v" ++ t.version ++
    s!", {tree.length} top-level nodes)\n"
  ⟨if quiet then "" else line, "", true⟩

def checkOne (files : Files) (quiet : Bool) (s : Session) (path : String) : Verdict × Session :=
  match load files s path with
  | .error e => (failed path e.message, s)
  | .ok (shared, s) =>
    match s.parse shared with
    | (.ok tree, s) => (passed quiet path shared.template tree, s)
    | (.error e, s) => (failed path (shared.template.report e), s)

def checkAll (files : Files) (quiet : Bool) (s : Session) : List String → List Verdict
  | [] => []
  | path :: paths =>
    let (v, s) := checkOne files quiet s path
    v :: checkAll files quiet s paths

def failure? (verdicts : List Verdict) : Option String :=
  let count := verdicts.countP fun v => !v.passed
  if count = 0 then none
  else some s!"{count} of {verdicts.length} template(s) failed the check"

def check (files : Files) (quiet : Bool) (s : Session) (paths : List String) : Output :=
  let verdicts := checkAll files quiet s paths
  ⟨String.join (verdicts.map Verdict.text), String.join (verdicts.map Verdict.notes),
    failure? verdicts⟩

end Proforma.Command
