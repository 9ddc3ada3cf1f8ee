import Proforma.Proposal.Basic
import Proforma.Schema.Cache
import Proforma.Settings.Basic
import Proforma.Template.Basic

/-!
A session holds templates and schemas for reuse. Templates with the same name, version and text
are held once, and everyone who registers one of them gets the one that was first.
-/
namespace Proforma

/-- What two registered templates must agree on to be the same. -/
structure TemplateKey where
  name : String
  version : String
  fingerprint : String
  deriving DecidableEq, Repr

def Template.key (t : Template) : TemplateKey := ⟨t.name, t.version, t.fingerprint⟩

/-- A template that a session has handed out, and its number. -/
structure Shared where
  number : Nat
  template : Template
  deriving DecidableEq, Repr

structure Session where
  settings : Settings
  templates : List (TemplateKey × Shared)
  /-- The number of the next template. -/
  next : Nat
  /-- Numbers of the templates that have been parsed, held or not. -/
  parsed : List Nat
  schemas : SchemaCache

namespace Session

def new (settings : Settings) : Session := ⟨settings, [], 0, [], .empty⟩

def register (s : Session) (t : Template) : Shared × Session :=
  match s.templates.lookup t.key with
  | some shared => (shared, s)
  | none =>
    let shared : Shared := ⟨s.next, t⟩
    (shared, { s with templates := (t.key, shared) :: s.templates, next := s.next + 1 })

def isParsed (s : Session) (t : Shared) : Bool := s.parsed.contains t.number

/-- Parses a template that was handed out. -/
def parse (s : Session) (t : Shared) : Except ParseError Tree × Session :=
  (t.template.compile, if s.isParsed t then s else { s with parsed := t.number :: s.parsed })

/-- Registers a template and parses it. -/
def compile (s : Session) (t : Template) : Except ParseError Shared × Session :=
  let (shared, s) := s.register t
  let (tree, s) := s.parse shared
  (tree.map fun _ => shared, s)

/-- Forgets all templates and schemas. Templates that were handed out stay as they are. -/
def clear (s : Session) : Session := { s with templates := [], schemas := .empty }

def render (s : Session) (t : Shared) (context : Context) : Except ParseError Rendering × Session :=
  (t.template.render context s.settings.format, (s.parse t).2)

/-- What a template leaves out of the schema of an entity, by default the entity it is about.
There is no proposal without an entity or without its schema. -/
def propose (s : Session) (t : Shared) (entity : Option String) (source : Source) :
    Except ParseError (Option Proposal) × Session :=
  let (tree, s) := s.parse t
  match tree, entity.or t.template.entity with
  | .error e, _ => (.error e, s)
  | .ok _, none => (.ok none, s)
  | .ok tree, some entity =>
    let lookup := s.schemas.getOrFetch source entity s.settings.timeout
    let s := { s with schemas := lookup.cache }
    match lookup.result with
    | .error _ => (.ok none, s)
    | .ok schema => (.ok (Proforma.propose tree schema s.settings.options).toOption, s)

/-- A rendering and what could be added to it. -/
structure Filled where
  main : Rendering
  proposal : Option Proposal
  /-- The proposal rendered against the same record. -/
  supplement : Option Rendering

def Filled.text (f : Filled) : String :=
  match f.supplement with
  | some supplement => f.main.text ++ supplement.text
  | none => f.main.text

def Filled.diagnostics (f : Filled) : List Diagnostic :=
  f.main.diagnostics ++ (f.supplement.map Rendering.diagnostics).getD []

/-- Renders a template, and apart from it the proposal. -/
def fill (s : Session) (t : Shared) (context : Context) (entity : Option String)
    (source : Source) : Except ParseError Filled × Session :=
  match s.render t context with
  | (.error e, s) => (.error e, s)
  | (.ok main, s) =>
    match s.propose t entity source with
    | (.error e, s) => (.error e, s)
    | (.ok proposal, s) =>
      let supplement := proposal.bind (·.supplement? context s.settings.format)
      (.ok ⟨main, proposal, supplement⟩, s)

end Session

end Proforma
