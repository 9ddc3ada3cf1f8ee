import Proforma.Session.Basic

/-!
What a session answers to each request, and what it is afterwards. A request for a proposal parses
the template and looks a schema up, in this order; whatever goes wrong after the first leaves no
proposal.
-/
namespace Proforma

theorem Template.render_of_error {t : Template} {e : ParseError} (h : t.compile = .error e)
    (context : Context) (format : Format) : t.render context format = .error e := by
  rw [render, h]
  rfl

theorem Template.exists_render {t : Template} {tree : Tree} (h : t.compile = .ok tree)
    (context : Context) (format : Format) : ∃ r, t.render context format = .ok r := by
  rw [render, h]
  exact ⟨_, rfl⟩

namespace Session

theorem exists_parse (s : Session) (t : Shared) :
    ∃ parsed, s.parse t = (t.template.compile, { s with parsed }) := by
  unfold parse
  split
  · exact ⟨s.parsed, rfl⟩
  · exact ⟨t.number :: s.parsed, rfl⟩

/-- The lookup that a request for a proposal makes, if an entity is known. -/
def lookup? (s : Session) (t : Shared) (entity : Option String) (source : Source) :
    Option SchemaCache.Lookup :=
  (entity.or t.template.entity).map fun name =>
    s.schemas.getOrFetch source name s.settings.timeout

/-- What a tree lacks of the schema that was looked up; every failure on the way counts as none. -/
def proposal? (s : Session) (tree : Tree) (lookup : Option SchemaCache.Lookup) : Option Proposal :=
  lookup.bind fun l => l.result.toOption.bind fun schema =>
    (Proforma.propose tree schema s.settings.options).toOption

/-- The schemas of a session after such a lookup. -/
def schemasAfter (s : Session) (lookup : Option SchemaCache.Lookup) : SchemaCache :=
  (lookup.map SchemaCache.Lookup.cache).getD s.schemas

theorem propose_of_error {s : Session} {t : Shared} {e : ParseError}
    (h : t.template.compile = .error e) (entity : Option String) (source : Source) :
    ∃ parsed, s.propose t entity source = (.error e, { s with parsed }) := by
  obtain ⟨parsed, hp⟩ := s.exists_parse t
  rw [propose, hp, h]
  exact ⟨parsed, rfl⟩

theorem propose_of_tree {s : Session} {t : Shared} {tree : Tree}
    (h : t.template.compile = .ok tree) (entity : Option String) (source : Source) :
    ∃ parsed, s.propose t entity source = (.ok (s.proposal? tree (s.lookup? t entity source)),
      { s with parsed, schemas := s.schemasAfter (s.lookup? t entity source) }) := by
  obtain ⟨parsed, hp⟩ := s.exists_parse t
  refine ⟨parsed, ?_⟩
  rw [propose, hp, h, lookup?]
  dsimp only
  cases entity.or t.template.entity with
  | none => rfl
  | some name =>
    simp only [proposal?, Option.map_some, Option.bind_some]
    cases (s.schemas.getOrFetch source name s.settings.timeout).result <;> rfl

/-- A rendering parses its template, and does nothing else to the session. -/
theorem exists_render (s : Session) (t : Shared) (context : Context) :
    ∃ parsed, s.render t context =
      (t.template.render context s.settings.format, { s with parsed }) := by
  obtain ⟨parsed, h⟩ := s.exists_parse t
  exact ⟨parsed, by rw [render, h]⟩

theorem fill_of_error {s : Session} {t : Shared} {e : ParseError}
    (h : t.template.compile = .error e) (context : Context) (entity : Option String)
    (source : Source) :
    ∃ parsed, s.fill t context entity source = (.error e, { s with parsed }) := by
  obtain ⟨parsed, hr⟩ := s.exists_render t context
  rw [fill, hr, Template.render_of_error h]
  exact ⟨parsed, rfl⟩

theorem fill_of_tree {s : Session} {t : Shared} {tree : Tree} (h : t.template.compile = .ok tree)
    (context : Context) (entity : Option String) (source : Source) :
    ∃ main parsed, t.template.render context s.settings.format = .ok main ∧
      s.fill t context entity source =
        (.ok ⟨main, s.proposal? tree (s.lookup? t entity source),
          (s.proposal? tree (s.lookup? t entity source)).bind
            (·.supplement? context s.settings.format)⟩,
        { s with parsed, schemas := s.schemasAfter (s.lookup? t entity source) }) := by
  obtain ⟨main, hm⟩ := Template.exists_render h context s.settings.format
  obtain ⟨parsed, hr⟩ := s.exists_render t context
  obtain ⟨parsed', hp⟩ := propose_of_tree (s := { s with parsed }) h entity source
  refine ⟨main, parsed', hm, ?_⟩
  rw [fill, hr, hm]
  dsimp only
  rw [hp]
  rfl

end Session

end Proforma
