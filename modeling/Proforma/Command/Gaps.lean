import Proforma.Command.Render

/-! The command `gaps`: what a template leaves out of a schema. -/
namespace Proforma.Command

def attributeLine (a : ProposedAttribute) : String :=
  "  " ++ a.name ++ " (" ++ a.kind.name ++ ", " ++ a.group.title ++ ")\n"

def proposalText (t : Template) (entity : String) (p : Proposal) : String :=
  if p.isEmpty then "✓ " ++ t.name ++ " covers every " ++ entity ++ " attribute\n"
  else
    s!"{p.attributes.length} attribute(s) of " ++ entity ++
      s!" v{p.schemaVersion.toNat} are not referenced:\n" ++
      String.join (p.attributes.map attributeLine) ++ "\nProposed fragment:\n" ++ p.source ++ "\n"

def skippedWarning (name : String) : String :=
  warning ("skipped `" ++ name ++ "`: not a valid attribute name")

def gapsOutput (format : OutputFormat) (t : Template) (entity : String) (p : Proposal) : Output :=
  match format with
  | .json => .ofText (p.toJson.pretty ++ "\n")
  | .text => ⟨proposalText t entity p, String.join (p.skipped.map skippedWarning), none⟩

/-- Unlike a rendering, the command fails when there is no schema. -/
def gaps (files : Files) (s : Session) (o : GapsOptions) : Output :=
  match load files s o.template with
  | .error e => .ofFailure e.message
  | .ok (shared, s) =>
    let t := shared.template
    match s.parse shared, o.entity.or t.entity with
    | (.error e, _), _ => .ofFailure (t.report e)
    | (.ok _, _), none =>
      .ofFailure ("No entity type for " ++ o.template ++
        ": pass --entity or set `entity` in the template frontmatter")
    | (.ok _, s), some entity =>
      let source := Source.ofDirectory files o.schemaDir
      let lookup := s.schemas.getOrFetch source entity s.settings.timeout
      match lookup.result with
      | .error e => .ofFailure e.message
      | .ok _ =>
        match (Session.propose { s with schemas := lookup.cache } shared (some entity) source).1 with
        | .error e => .ofFailure (t.report e)
        | .ok none => .ofFailure ("Could not compute a gap proposal for " ++ entity)
        | .ok (some p) => gapsOutput o.format t entity p

end Proforma.Command
