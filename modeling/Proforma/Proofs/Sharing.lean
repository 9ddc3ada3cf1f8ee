import Proforma.Proofs.Answering

/-!
What a session hands out for a template. A session holds the template that was first under a key
since it was last cleared, and everyone who registers that key gets this one. Templates of one key
have one text; they are the same if they were built from it in the same way.
-/
namespace Proforma

open Text

/-- A template as it is built, and if front matter was taken off the top of its text. -/
inductive Template.Made : Template → Bool → Prop where
  | new (name version source : String) : Made (new name version source) false
  | withEntity (name version source entity : String) :
    Made ((new name version source).withEntity entity) false
  | ofMarkdown {name text : String} {t : Template} (h : ofMarkdown? name text = some t) :
    Made t (FrontMatter.split? text.toList).isSome

namespace Template

/-- What the front matter of a text makes of an entity and a body. -/
def Fronted (t : Template) : Prop :=
  ∃ parts front, FrontMatter.split? t.text.toList = some parts ∧
    FrontMatter.read? parts.inner = some front ∧ t.entity = front.entity ∧
    t.head = String.ofList parts.head ∧ t.body = String.ofList parts.body

theorem ofMarkdown?_eq_new {name text : String} (h : FrontMatter.split? text.toList = none) :
    ofMarkdown? name text = some (new name "0" text) := by
  simp only [ofMarkdown?, h]

theorem fronted_of_ofMarkdown? {name text : String} {t : Template} {parts : FrontMatter.Parts}
    (hs : FrontMatter.split? text.toList = some parts) (h : ofMarkdown? name text = some t) :
    t.Fronted := by
  simp only [ofMarkdown?, hs] at h
  obtain ⟨front, hf, rfl⟩ := Option.map_eq_some_iff.mp h
  refine ⟨parts, front, ?_, hf, rfl, rfl, rfl⟩
  rw [Template.text, ← String.ofList_append, FrontMatter.append_of_split? hs, String.toList_ofList]
  exact hs

/-- Either a template has no head, or its text says what its parts and its entity are. -/
theorem Made.cases {t : Template} {fronted : Bool} (h : t.Made fronted) :
    (fronted = false ∧ t.head = "") ∨ (fronted = true ∧ t.Fronted) := by
  cases h with
  | new => exact .inl ⟨rfl, rfl⟩
  | withEntity => exact .inl ⟨rfl, rfl⟩
  | @ofMarkdown name text _ h =>
    cases hs : FrontMatter.split? text.toList with
    | none =>
      rw [ofMarkdown?_eq_new hs] at h
      obtain rfl := Option.some.inj h
      exact .inl ⟨rfl, rfl⟩
    | some parts => exact .inr ⟨rfl, fronted_of_ofMarkdown? hs h⟩

theorem Fronted.eq {t u : Template} (ht : t.Fronted) (hu : u.Fronted) (htext : t.text = u.text) :
    t.entity = u.entity ∧ t.head = u.head ∧ t.body = u.body := by
  obtain ⟨parts, front, hs, hf, he, hh, hb⟩ := ht
  obtain ⟨parts', front', hs', hf', he', hh', hb'⟩ := hu
  rw [htext, hs'] at hs
  obtain rfl := Option.some.inj hs
  rw [hf'] at hf
  obtain rfl := Option.some.inj hf
  exact ⟨he.trans he'.symm, hh.trans hh'.symm, hb.trans hb'.symm⟩

/-- Templates of one name, version and text that were built in the same way are the same. Without
front matter the text does not say what the entity is. -/
theorem Made.eq {t u : Template} {fronted : Bool} (ht : t.Made fronted) (hu : u.Made fronted)
    (hname : t.name = u.name) (hversion : t.version = u.version) (htext : t.text = u.text)
    (hentity : fronted = false → t.entity = u.entity) : t = u := by
  have h : t.entity = u.entity ∧ t.head = u.head ∧ t.body = u.body := by
    obtain ⟨rfl, hh⟩ | ⟨rfl, hf⟩ := ht.cases
    · obtain ⟨-, hh'⟩ | ⟨hb, -⟩ := hu.cases
      · exact ⟨hentity rfl, hh.trans hh'.symm, by simpa [text, hh, hh'] using htext⟩
      · cases hb
    · obtain ⟨hb, -⟩ | ⟨-, hf'⟩ := hu.cases
      · cases hb
      · exact hf.eq hf' htext
  obtain ⟨name, version, entity, head, body⟩ := t
  obtain ⟨name', version', entity', head', body'⟩ := u
  simp_all

end Template

theorem Template.key_eq {t u : Template} (hname : t.name = u.name)
    (hversion : t.version = u.version) (htext : t.text = u.text) : t.key = u.key := by
  simp only [key, fingerprint, hname, hversion, htext]

namespace Session

/-- What a session can be asked. Templates that it handed out may come from before it was
cleared. -/
inductive Request where
  | register (t : Template)
  | compile (t : Template)
  | render (t : Shared) (context : Context)
  | propose (t : Shared) (entity : Option String) (source : Source)
  | fill (t : Shared) (context : Context) (entity : Option String) (source : Source)
  | observe (entity : String) (version : UInt64)
  | clear

def after (s : Session) : Request → Session
  | .register t => (s.register t).2
  | .compile t => (s.compile t).2
  | .render t context => (s.render t context).2
  | .propose t entity source => (s.propose t entity source).2
  | .fill t context entity source => (s.fill t context entity source).2
  | .observe entity version =>
    { s with schemas := (s.schemas.observeVersion entity version).2 }
  | .clear => s.clear

def run (s : Session) (requests : List Request) : Session := requests.foldl after s

/-- The templates registered since the session was last cleared, after one more request. -/
def registeredAfter (ts : List Template) : Request → List Template
  | .register t | .compile t => ts ++ [t]
  | .clear => []
  | _ => ts

def registered (requests : List Request) : List Template := requests.foldl registeredAfter []

/-- The template that a session holds under a key. -/
def held? (s : Session) (k : TemplateKey) : Option Template :=
  (s.templates.lookup k).map Shared.template

/-- A session holds the first of these templates under each key. -/
def Holds (s : Session) (ts : List Template) : Prop :=
  ∀ k, s.held? k = ts.find? fun t => t.key = k

/-- The other session differs in what it parsed and in its schemas. -/
def Keeps (s s' : Session) : Prop := ∃ parsed schemas, s' = { s with parsed, schemas }

theorem keeps_parse (s : Session) (t : Shared) : s.Keeps (s.parse t).2 := by
  obtain ⟨parsed, h⟩ := s.exists_parse t
  exact ⟨parsed, s.schemas, by rw [h]⟩

theorem keeps_render (s : Session) (t : Shared) (context : Context) :
    s.Keeps (s.render t context).2 := s.keeps_parse t

theorem keeps_propose (s : Session) (t : Shared) (entity : Option String) (source : Source) :
    s.Keeps (s.propose t entity source).2 := by
  cases h : t.template.compile with
  | error e =>
    obtain ⟨parsed, hp⟩ := propose_of_error h entity source (s := s)
    exact ⟨parsed, s.schemas, by rw [hp]⟩
  | ok tree =>
    obtain ⟨parsed, hp⟩ := propose_of_tree h entity source (s := s)
    exact ⟨parsed, _, by rw [hp]⟩

theorem keeps_fill (s : Session) (t : Shared) (context : Context) (entity : Option String)
    (source : Source) : s.Keeps (s.fill t context entity source).2 := by
  cases h : t.template.compile with
  | error e =>
    obtain ⟨parsed, hf⟩ := fill_of_error h context entity source (s := s)
    exact ⟨parsed, s.schemas, by rw [hf]⟩
  | ok tree =>
    obtain ⟨_, parsed, -, hf⟩ := fill_of_tree h context entity source (s := s)
    exact ⟨parsed, _, by rw [hf]⟩

theorem Holds.keeps {s s' : Session} {ts : List Template} (h : s.Holds ts) (hk : s.Keeps s') :
    s'.Holds ts := by
  obtain ⟨_, _, rfl⟩ := hk
  exact h

theorem template_register (s : Session) (t : Template) :
    (s.register t).1.template = (s.held? t.key).getD t := by
  unfold register held?
  split
  · next h => simp [h]
  · next h => simp [h]

theorem held?_register (s : Session) (t : Template) (k : TemplateKey) :
    (s.register t).2.held? k = (s.held? k).or (if t.key = k then some t else none) := by
  unfold register held?
  split
  · next shared h =>
    by_cases hk : t.key = k
    · subst hk
      simp [h]
    · simp [hk]
  · next h =>
    by_cases hk : t.key = k
    · subst hk
      simp [h]
    · simp [List.lookup_cons, hk, beq_false_of_ne (Ne.symm hk)]

theorem Holds.register {s : Session} {ts : List Template} (h : s.Holds ts) (t : Template) :
    (s.register t).2.Holds (ts ++ [t]) := by
  intro k
  rw [held?_register, h k, List.find?_append]
  by_cases hk : t.key = k <;> simp [hk]

/-- One more request keeps a session in step with the templates registered. -/
theorem Holds.after {s : Session} {ts : List Template} (h : s.Holds ts) (r : Request) :
    (s.after r).Holds (registeredAfter ts r) := by
  cases r with
  | register t => exact h.register t
  | compile t => exact (h.register t).keeps (keeps_parse _ _)
  | render t context => exact h.keeps (s.keeps_render t context)
  | propose t entity source => exact h.keeps (s.keeps_propose t entity source)
  | fill t context entity source => exact h.keeps (s.keeps_fill t context entity source)
  | observe entity version => exact h.keeps ⟨s.parsed, _, rfl⟩
  | clear => exact fun _ => rfl

theorem Holds.run {s : Session} {ts : List Template} (h : s.Holds ts) (requests : List Request) :
    (s.run requests).Holds (requests.foldl registeredAfter ts) := by
  induction requests generalizing s ts with
  | nil => exact h
  | cons r requests ih => exact ih (h.after r)

/-- A session holds the first template under each key since it was last cleared. -/
theorem holds_registered (settings : Settings) (requests : List Request) :
    ((new settings).run requests).Holds (registered requests) :=
  Holds.run (fun _ => rfl) requests

theorem template_register_of_first (settings : Settings) {requests : List Request}
    {t u : Template} {ts : List Template} (h : registered requests = u :: ts)
    (hk : u.key = t.key) : (((new settings).run requests).register t).1.template = u := by
  rw [template_register, holds_registered settings requests t.key, h]
  simp only [hk, decide_true, List.find?_cons_of_pos, Option.getD_some]

theorem settings_register (s : Session) (t : Template) :
    (s.register t).2.settings = s.settings := by
  unfold register
  split <;> rfl

theorem Keeps.settings {s s' : Session} (h : s.Keeps s') : s'.settings = s.settings := by
  obtain ⟨_, _, rfl⟩ := h
  rfl

theorem settings_after (s : Session) (r : Request) : (s.after r).settings = s.settings := by
  cases r with
  | register t => exact s.settings_register t
  | compile t => exact (keeps_parse _ _).settings.trans (s.settings_register t)
  | render t context => exact (s.keeps_render t context).settings
  | propose t entity source => exact (s.keeps_propose t entity source).settings
  | fill t context entity source => exact (s.keeps_fill t context entity source).settings
  | observe entity version => rfl
  | clear => rfl

theorem settings_run (s : Session) (requests : List Request) :
    (s.run requests).settings = s.settings := by
  induction requests generalizing s with
  | nil => rfl
  | cons r requests ih => exact (ih (s.after r)).trans (s.settings_after r)

/-- The answer to a request for a proposal has no use for the number of the template. -/
theorem propose_number (s : Session) (t : Template) (m n : Nat) (entity : Option String)
    (source : Source) :
    (s.propose ⟨m, t⟩ entity source).1 = (s.propose ⟨n, t⟩ entity source).1 := by
  cases h : t.compile with
  | error e =>
    obtain ⟨_, hm⟩ := propose_of_error (t := ⟨m, t⟩) h entity source (s := s)
    obtain ⟨_, hn⟩ := propose_of_error (t := ⟨n, t⟩) h entity source (s := s)
    rw [hm, hn]
  | ok tree =>
    obtain ⟨_, hm⟩ := propose_of_tree (t := ⟨m, t⟩) h entity source (s := s)
    obtain ⟨_, hn⟩ := propose_of_tree (t := ⟨n, t⟩) h entity source (s := s)
    rw [hm, hn]
    rfl

end Session

open Session in
/-- Registering a template gives the first one under its key since the session was last cleared,
which has the same name, version and text. If both were built alike it is the template itself, so
renderings and proposals are its own. -/
theorem register_shared {settings : Settings} {requests : List Request} {t : Template}
    {fronted : Bool} {shared : Shared} {s : Session} (ht : t.Made fronted)
    (hf : ∀ u ∈ registered requests, u.fingerprint = t.fingerprint → u.text = t.text)
    (hr : ((Session.new settings).run requests).register t = (shared, s)) :
    shared.template = ((registered requests).find? fun u => u.key = t.key).getD t ∧
      shared.template.name = t.name ∧ shared.template.version = t.version ∧
      shared.template.text = t.text ∧
      (shared.template.Made fronted → (fronted = false → shared.template.entity = t.entity) →
        shared.template.entity = t.entity ∧ shared.template.body = t.body ∧
        (∀ context, (s.render shared context).1 = t.render context settings.format) ∧
        ∀ source number,
          (s.propose shared none source).1 = (s.propose ⟨number, t⟩ none source).1) := by
  have hshared : shared.template = ((registered requests).find? fun u => u.key = t.key).getD t := by
    rw [← holds_registered settings requests t.key, ← template_register, hr]
  have hs : s.settings = settings := by
    have h := ((Session.new settings).run requests).settings_register t
    rw [hr] at h
    exact h.trans ((Session.new settings).settings_run requests)
  have hsame : shared.template.name = t.name ∧ shared.template.version = t.version ∧
      shared.template.text = t.text := by
    rw [hshared]
    cases h : (registered requests).find? fun u => u.key = t.key with
    | none => exact ⟨rfl, rfl, rfl⟩
    | some u =>
      have hk : u.key = t.key := by simpa using List.find?_some h
      exact ⟨congrArg TemplateKey.name hk, congrArg TemplateKey.version hk,
        hf u (List.mem_of_find?_eq_some h) (congrArg TemplateKey.fingerprint hk)⟩
  obtain ⟨hname, hversion, htext⟩ := hsame
  refine ⟨hshared, hname, hversion, htext, fun hmade hentity => ?_⟩
  have heq : shared.template = t := hmade.eq ht hname hversion htext hentity
  refine ⟨by rw [heq], by rw [heq], fun context => ?_, fun source number => ?_⟩
  · rw [Session.render, heq, hs]
  · rw [← s.propose_number t shared.number number, ← heq]

open Session in
theorem register_shared_fronted :
    let t : Template := ⟨"co", "3", some "ChangeOrder",
      "---\nname: co\nversion: 3\nentity: ChangeOrder\n---\n", "# \x7b\x7b Number \x7d\x7d\n"⟩
    let requests := [.register (.new "co" "3" t.text), .clear, .compile t,
      .register (.new "co" "3" "\x7b\x7b Number \x7d\x7d")]
    Template.ofMarkdown? "first" t.text = some t ∧ Template.ofMarkdown? "second" t.text = some t ∧
      ∃ shared s, ((Session.new .standard).run requests).register t = (shared, s) ∧
        shared.template.entity = some "ChangeOrder" ∧
        ∀ context, (s.render shared context).1 = t.render context Settings.standard.format := by
  intro t requests
  have hfirst : Template.ofMarkdown? "first" t.text = some t := by decide +kernel
  have hsecond : Template.ofMarkdown? "second" t.text = some t := by decide +kernel
  have hf : ∀ u ∈ registered requests, u.fingerprint = t.fingerprint → u.text = t.text := by
    decide +kernel
  have ht : (((Session.new .standard).run requests).register t).1.template = t :=
    template_register_of_first .standard rfl rfl
  cases hr : ((Session.new .standard).run requests).register t with
  | mk shared s =>
    rw [hr] at ht
    have hmade : shared.template.Made (FrontMatter.split? t.text.toList).isSome := by
      rw [ht]
      exact .ofMarkdown hfirst
    obtain ⟨-, -, -, -, hsame⟩ := register_shared (.ofMarkdown hsecond) hf hr
    obtain ⟨hentity, -, hrender, -⟩ := hsame hmade fun _ => by rw [ht]
    exact ⟨hfirst, hsecond, shared, s, rfl, hentity, hrender⟩

open Session in
/-- The key holds neither the entity nor the place where the body begins, so what was first under it
can be about another entity, or have another body, than a template of the same text. -/
theorem register_first_of_key :
    let plain := Template.new "co" "1" "\x7b\x7b Number \x7d\x7d"
    let declaring := plain.withEntity "ChangeOrder"
    let fronted : Template :=
      ⟨"co", "3", none, "---\nname: co\nversion: 3\n---\n", "# \x7b\x7b Number \x7d\x7d"⟩
    let whole := Template.new "co" "3" fronted.text
    (plain.Made false ∧ declaring.Made false ∧
      (∀ u ∈ registered [.register plain],
        u.fingerprint = declaring.fingerprint → u.text = declaring.text) ∧
      (((Session.new .standard).run [.register plain]).register declaring).1.template.entity ≠
        declaring.entity) ∧
    whole.Made false ∧ Template.ofMarkdown? "fallback" fronted.text = some fronted ∧
      (∀ u ∈ registered [.register whole],
        u.fingerprint = fronted.fingerprint → u.text = fronted.text) ∧
      (((Session.new .standard).run [.register whole]).register fronted).1.template.body ≠
        fronted.body := by
  intro plain declaring fronted whole
  have htext : whole.text = fronted.text := by decide
  have hread : Template.ofMarkdown? "fallback" fronted.text = some fronted := by decide +kernel
  have hplain := template_register_of_first .standard (rfl : registered [.register plain] = [plain])
    (Template.key_eq rfl rfl rfl : plain.key = declaring.key)
  have hwhole := template_register_of_first .standard (rfl : registered [.register whole] = [whole])
    (Template.key_eq rfl rfl htext : whole.key = fronted.key)
  rw [hplain, hwhole]
  refine ⟨⟨.new _ _ _, .withEntity _ _ _ _, ?_, by decide⟩, .new _ _ _, hread, ?_, by decide⟩
  · exact List.forall_mem_singleton.mpr fun _ => rfl
  · exact List.forall_mem_singleton.mpr fun _ => htext

end Proforma
