import Proforma.Proofs.Caching
import Proforma.Proofs.Sharing

/-!
A rendering does not depend on its supplement. Whatever becomes of the schema, filling a template
fails only if the template does not parse, and otherwise has the rendering that the template has by
itself; a schema that cannot be had leaves no proposal, and no trace but a miss.
-/
namespace Proforma

/-- A proposal has a rendering of its own exactly if it shows an attribute. -/
theorem Proposal.isSome_supplement? (p : Proposal) (context : Context) (format : Format) :
    (p.supplement? context format).isSome = true ↔ p.attributes ≠ [] := by
  unfold supplement? isEmpty
  cases p.attributes with
  | nil => simp
  | cons a as => simp

theorem Session.Filled.text_eq (f : Filled) : ∃ rest, f.text = f.main.text ++ rest := by
  unfold text
  cases f.supplement with
  | none => exact ⟨"", String.append_empty.symm⟩
  | some supplement => exact ⟨supplement.text, rfl⟩

theorem Session.fill_eq_error {s : Session} {t : Shared} {context : Context}
    {entity : Option String} {source : Source} {e : ParseError} :
    (s.fill t context entity source).1 = .error e ↔ t.template.compile = .error e := by
  cases h : t.template.compile with
  | error e' =>
    obtain ⟨_, hf⟩ := fill_of_error h context entity source (s := s)
    rw [hf]
    show Except.error e' = Except.error e ↔ Except.error e' = Except.error e
    rw [Except.error.injEq, Except.error.injEq]
  | ok tree =>
    obtain ⟨_, _, -, hf⟩ := fill_of_tree h context entity source (s := s)
    rw [hf]
    exact iff_of_false nofun nofun

/-- Filling a template fails exactly as compiling it does, and then nothing is looked up. Otherwise
it has the rendering of the template, a supplement exactly if something is proposed, and the
proposal that the schema leads to. A lookup that fails leaves no proposal, and the schemas as they
were but for one more miss. -/
theorem fill_isolated (s : Session) (t : Shared) (context : Context) (entity : Option String)
    (source : Source) :
    (∀ e, (s.fill t context entity source).1 = .error e ↔ t.template.compile = .error e) ∧
    (∀ e, t.template.compile = .error e →
      (s.fill t context entity source).2.schemas = s.schemas) ∧
    (∀ tree, t.template.compile = .ok tree → ∃ f, (s.fill t context entity source).1 = .ok f ∧
      (s.render t context).1 = .ok f.main ∧
      (f.supplement.isSome = true ↔ ∃ p, f.proposal = some p ∧ p.attributes ≠ []) ∧
      (∃ rest, f.text = f.main.text ++ rest) ∧
      (entity.or t.template.entity = none →
        f.proposal = none ∧ (s.fill t context entity source).2.schemas = s.schemas) ∧
      ∀ name, entity.or t.template.entity = some name →
        (∀ schema, (s.schemas.getOrFetch source name s.settings.timeout).result = .ok schema →
          f.proposal = (propose tree schema s.settings.options).toOption ∧
          (s.fill t context entity source).2.schemas =
            (s.schemas.getOrFetch source name s.settings.timeout).cache) ∧
        ∀ e, (s.schemas.getOrFetch source name s.settings.timeout).result = .error e →
          f.proposal = none ∧ f.supplement = none ∧
          (s.fill t context entity source).2.schemas =
            { s.schemas with misses := s.schemas.misses + 1 }) ∧
    s.Keeps (s.fill t context entity source).2 := by
  refine ⟨fun e => Session.fill_eq_error, fun e h => ?_, fun tree h => ?_,
    s.keeps_fill t context entity source⟩
  · obtain ⟨_, hf⟩ := Session.fill_of_error h context entity source (s := s)
    rw [hf]
  obtain ⟨main, parsed, hm, hf⟩ := Session.fill_of_tree h context entity source (s := s)
  obtain ⟨parsed', hr⟩ := s.exists_render t context
  rw [hf]
  refine ⟨_, rfl, by rw [hr, hm], ?_, Session.Filled.text_eq _, fun hn => ?_, fun name hn => ?_⟩
  · dsimp only
    cases s.proposal? tree (s.lookup? t entity source) with
    | none => simp
    | some p => simpa using p.isSome_supplement? context s.settings.format
  · rw [Session.lookup?, hn]
    exact ⟨rfl, rfl⟩
  · rw [Session.lookup?, hn]
    refine ⟨fun schema hs => ?_, fun e he => ?_⟩
    · simp only [Session.proposal?, Option.map_some, Option.bind_some, hs]
      exact ⟨rfl, rfl⟩
    · simp only [Session.proposal?, Option.map_some, Option.bind_some, he]
      exact ⟨rfl, rfl, SchemaCache.cache_getOrFetch_of_error he⟩

/-- The schema of invoices is kept while the one of orders cannot be had. -/
theorem fill_isolated_refused :
    let context : Context := ⟨.object [], ⟨⟨2024, 6, 1⟩, .midnight, 0⟩⟩
    let t : Shared := ⟨0, (Template.new "order" "1" "\x7b\x7b Number \x7d\x7d").withEntity "Order"⟩
    let cached : SchemaCache := .insert .empty ⟨"Invoice", 1, [⟨"Paid", .date, none, none, []⟩]⟩
    let s : Session := { Session.new .standard with schemas := cached }
    let refusing : Source := fun _ => .failed "connection refused"
    ∃ f, (s.fill t context none refusing).1 = .ok f ∧ (s.render t context).1 = .ok f.main ∧
      f.proposal = none ∧ f.supplement = none ∧
      (s.fill t context none refusing).2.schemas = { cached with misses := 1 } := by
  intro context t cached s refusing
  obtain ⟨tree, ht⟩ := isOk_iff.mp (show t.template.compile.isOk = true by decide +kernel)
  obtain ⟨-, -, hok, -⟩ := fill_isolated s t context none refusing
  obtain ⟨f, hf, hr, -, -, -, hl⟩ := hok tree ht
  obtain ⟨hp, hs, hc⟩ := (hl "Order" rfl).2 ⟨"Order", .failed "connection refused"⟩ rfl
  exact ⟨f, hf, hr, hp, hs, hc⟩

end Proforma
