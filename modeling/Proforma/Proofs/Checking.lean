import Proforma.Proofs.Degrading
import Proforma.Proofs.Proposing
import Proforma.Proofs.Tracing
import Proforma.Proofs.Wellformed
import Proforma.Settings.Load

/-!
What is written was checked before. Filters take codes and patterns from their arguments, which
were accepted when the template was read, or from the settings, which were validated when they were
loaded; so no rendering hands anything else to a writer.
-/
namespace Proforma

open Text

/-- The code is one of a currency; the pattern is one of dates. -/
def Writing.IsChecked : Writing → Prop
  | amount _ code => isCurrencyCode code = true
  | temporal _ pattern => isPattern pattern = true

/-- What filters fall back on is as good as what they are given. -/
structure Format.IsChecked (format : Format) : Prop where
  currency : isCurrencyCode format.currency = true
  datePattern : isPattern format.datePattern = true

mutual

/-- Every path in a node, at any depth, consists of names and indices; every loop variable is a name
other than that of the moment of rendering; and every filter accepts its arguments. -/
def Node.IsChecked : Node → Prop
  | .text .. => True
  | .expression path calls _ => path.WellFormed ∧ ∀ c ∈ calls, c.isAccepted = true
  | .conditional path thenNodes none _ => path.WellFormed ∧ Node.AllChecked thenNodes
  | .conditional path thenNodes (some elseNodes) _ =>
    path.WellFormed ∧ Node.AllChecked thenNodes ∧ Node.AllChecked elseNodes
  | .loop collection binding body _ => collection.WellFormed ∧
    isIdentifier binding.toList = true ∧ binding ≠ todayName ∧ Node.AllChecked body

def Node.AllChecked : List Node → Prop
  | [] => True
  | n :: ns => n.IsChecked ∧ Node.AllChecked ns

end

theorem FilterCall.isAccepted_of_wellFormed {c : FilterCall} (h : Call.WellFormed c.call) :
    c.isAccepted = true := by
  obtain ⟨hn, hc, -⟩ := h
  rw [isAccepted, Bool.and_eq_true]
  exact ⟨hn, isOk_iff.mpr ⟨(), hc⟩⟩

/-- A tree is checked part by part. -/
theorem Node.allChecked_of_parts {ns : List Node} (h : ∀ q ∈ allParts ns, q.WellFormed) :
    AllChecked ns := by
  induction ns using Tree.induction with
  | nil => trivial
  | text raw span ns ih =>
    simp only [allParts_cons, List.forall_mem_append] at h
    exact ⟨trivial, ih h.2⟩
  | expression path calls span ns ih =>
    simp only [allParts_cons, parts, List.forall_mem_append, List.forall_mem_singleton] at h
    obtain ⟨⟨hp, hc⟩, h⟩ := h
    refine ⟨⟨hp, fun c hm => ?_⟩, ih h⟩
    exact c.isAccepted_of_wellFormed (hc c.call (List.mem_map_of_mem hm))
  | conditional path thenNodes span ns ih₁ ih =>
    simp only [allParts_cons, parts, List.forall_mem_append, List.forall_mem_cons] at h
    obtain ⟨⟨hp, h₁, -⟩, h⟩ := h
    exact ⟨⟨hp, ih₁ h₁⟩, ih h⟩
  | alternative path thenNodes elseNodes span ns ih₁ ih₂ ih =>
    simp only [allParts_cons, parts, List.forall_mem_append, List.forall_mem_cons] at h
    obtain ⟨⟨hp, h₁, -, h₂, -⟩, h⟩ := h
    exact ⟨⟨hp, ih₁ h₁, ih₂ h₂⟩, ih h⟩
  | loop collection binding body span ns ih₁ ih =>
    simp only [allParts_cons, parts, List.forall_mem_append, List.forall_mem_cons] at h
    obtain ⟨⟨⟨hb, ht, hp⟩, h₁, -⟩, h⟩ := h
    exact ⟨⟨hp, hb, ht, ih₁ h₁⟩, ih h⟩

theorem allChecked_of_parseChars {source : List Char} {t : Tree} (h : parseChars source = .ok t) :
    Node.AllChecked t :=
  Node.allChecked_of_parts (wellFormed_of_parseChars h)

theorem Parameter.check_of_checkAll {p : Parameter} {ps : List Parameter} {a : Literal}
    {as : List Literal} (h : checkAll (p :: ps) (a :: as) = .ok ()) : p.check a = .ok () := by
  obtain ⟨_, ha, -⟩ := bind_eq_ok.mp h
  exact ha

theorem check_of_firstText {p : Parameter} {ps : List Parameter} {args : List Literal}
    {s : String} (h : Parameter.checkAll (p :: ps) args = .ok ())
    (hs : firstText? args = some s) : p.check (.text s) = .ok () := by
  cases args with
  | nil => cases hs
  | cons a as =>
    cases a with
    | number x => cases hs
    | text s' =>
      obtain rfl := Option.some.inj hs
      exact Parameter.check_of_checkAll h

theorem guard_eq_ok {ε : Type} {p : Prop} [Decidable p] {e : ε} :
    (if p then .ok () else .error e : Except ε Unit) = .ok () ↔ p := by
  by_cases h : p
  · simp [h]
  · simp [h]

theorem Parameter.check_currencyCode {code : String} :
    currencyCode.check (.text code) = .ok () ↔ isCurrencyCode code = true := guard_eq_ok

theorem Parameter.check_datePattern {pattern : String} :
    datePattern.check (.text pattern) = .ok () ↔ isPattern pattern = true := guard_eq_ok

/-- What a filter uses is its argument or what it falls back on. -/
theorem firstText_getD {p : Parameter} {ps : List Parameter} {args : List Literal}
    {fallback : String} (h : Parameter.checkAll (p :: ps) args = .ok ())
    (hf : p.check (.text fallback) = .ok ()) :
    p.check (.text ((firstText? args).getD fallback)) = .ok () := by
  cases hs : firstText? args with
  | none => exact hf
  | some s => exact check_of_firstText h hs

namespace Traced

variable {α β : Type}

def IsChecked (x : Traced α) : Prop := ∀ w ∈ x.writings, w.IsChecked

theorem isChecked_pure (a : α) : IsChecked (pure a : Traced α) := List.forall_mem_nil _

theorem IsChecked.bind {x : Traced α} {f : α → Traced β} (hx : x.IsChecked)
    (hf : (f x.result).IsChecked) : (x >>= f).IsChecked :=
  List.forall_mem_append.mpr ⟨hx, hf⟩

theorem isChecked_forEach {items : List α} {f : α → Traced β}
    (h : ∀ item ∈ items, (f item).IsChecked) : (forEach items f).IsChecked :=
  List.forall_mem_flatMap.mpr h

theorem isChecked_applyCurrency {format : Format} {args : List Literal}
    (hf : format.IsChecked) (ha : Filter.currency.checkArguments args = .ok ()) (v : Value) :
    (applyCurrency format args v).IsChecked := by
  unfold applyCurrency
  cases amountOf v with
  | error fault => exact isChecked_pure _
  | ok amount =>
    refine IsChecked.bind (List.forall_mem_singleton.mpr ?_) (isChecked_pure _)
    exact Parameter.check_currencyCode.mp
      (firstText_getD ha (Parameter.check_currencyCode.mpr hf.currency))

theorem isChecked_applyPattern {pattern : String} (hp : isPattern pattern = true)
    (withTime : Bool) (v : Value) : (applyPattern pattern withTime v).IsChecked := by
  unfold applyPattern
  cases temporalOf? v with
  | none => exact isChecked_pure _
  | some t =>
    refine IsChecked.bind (List.forall_mem_singleton.mpr hp) ?_
    split <;> exact isChecked_pure _

/-- A filter that accepts its arguments hands on nothing unchecked. -/
theorem isChecked_applyPresent {f : Filter} {format : Format} {args : List Literal}
    (hf : format.IsChecked) (ha : f.checkArguments args = .ok ()) (v : Value) :
    (applyPresent f format args v).IsChecked := by
  have hd := Parameter.check_datePattern.mpr hf.datePattern
  cases f with
  | default => exact isChecked_pure _
  | currency => exact isChecked_applyCurrency hf ha v
  | date | datetime =>
    have hp := Parameter.check_datePattern.mp (firstText_getD ha hd)
    exact isChecked_applyPattern hp _ v

theorem isChecked_apply {f : Filter} {format : Format} {args : List Literal}
    (hf : format.IsChecked) (ha : f.checkArguments args = .ok ()) (input : Resolved) :
    (apply f format args input).IsChecked := by
  unfold apply
  split
  · exact isChecked_pure _
  · split
    · exact isChecked_pure _
    · split
      · exact isChecked_pure _
      · next v _ =>
        refine IsChecked.bind (isChecked_applyPresent hf ha v) ?_
        split <;> exact isChecked_pure _

theorem isChecked_applyAll {format : Format} {calls : List FilterCall} (hf : format.IsChecked)
    (hc : ∀ c ∈ calls, c.isAccepted = true) (input : Resolved) :
    (applyAll format calls input).IsChecked := by
  induction calls generalizing input with
  | nil => exact isChecked_pure _
  | cons call calls ih =>
    obtain ⟨h, hs⟩ := List.forall_mem_cons.mp hc
    obtain ⟨_, ha⟩ := isOk_iff.mp (Bool.and_eq_true_iff.mp h).2
    refine IsChecked.bind (isChecked_apply hf ha input) ?_
    split
    · exact ih hs _
    · exact isChecked_pure _

theorem isChecked_renderNodes_cons {st : Setting} {s : Scope} {n : Node} {ns : List Node}
    (hn : (renderNode st s n).IsChecked) (hs : (renderNodes st s ns).IsChecked) :
    (renderNodes st s (n :: ns)).IsChecked :=
  hn.bind (hs.bind (isChecked_pure _))

/-- Whatever the scope holds, a checked tree hands on nothing unchecked. -/
theorem isChecked_renderNodes {st : Setting} (hf : st.format.IsChecked) {ns : List Node}
    (h : Node.AllChecked ns) (s : Scope) : (renderNodes st s ns).IsChecked := by
  induction ns using Tree.induction generalizing s with
  | nil => exact isChecked_pure _
  | text raw span ns ih => exact isChecked_renderNodes_cons (isChecked_pure _) (ih h.2 s)
  | expression path calls span ns ih =>
    obtain ⟨⟨-, hc⟩, h⟩ := h
    refine isChecked_renderNodes_cons (IsChecked.bind (isChecked_applyAll hf hc _) ?_) (ih h s)
    split <;> exact isChecked_pure _
  | conditional path thenNodes span ns ih₁ ih =>
    obtain ⟨⟨-, h₁⟩, h⟩ := h
    refine isChecked_renderNodes_cons ?_ (ih h s)
    rw [renderNode]
    split
    · exact ih₁ h₁ s
    · exact isChecked_pure _
  | alternative path thenNodes elseNodes span ns ih₁ ih₂ ih =>
    obtain ⟨⟨-, h₁, h₂⟩, h⟩ := h
    refine isChecked_renderNodes_cons ?_ (ih h s)
    rw [renderNode]
    split
    · exact ih₁ h₁ s
    · exact ih₂ h₂ s
  | loop collection binding body span ns ih₁ ih =>
    obtain ⟨⟨-, -, -, h₁⟩, h⟩ := h
    refine isChecked_renderNodes_cons ?_ (ih h s)
    rw [renderNode]
    split
    · exact isChecked_pure _
    · next items _ =>
      -- every round has a scope of its own
      refine IsChecked.bind (isChecked_forEach fun item _ => ?_) (isChecked_pure _)
      exact ih₁ h₁ (s.push binding item)
    · exact isChecked_pure _

theorem isChecked_render {t : Tree} {format : Format} (h : Node.AllChecked t)
    (hf : format.IsChecked) (source : List Char) (context : Context) :
    (render t source context format).IsChecked :=
  isChecked_renderNodes hf h _

end Traced

namespace Settings

theorem format_isChecked {s : Settings} (h : s.validate = .ok ()) : s.format.IsChecked :=
  have hv := validate_eq_ok.mp h
  ⟨hv.1, hv.2.1⟩

theorem validate_of_loadFrom {files : Files} {path : String} {s : Settings}
    (h : loadFrom files path = .ok s) : s.validate = .ok () := by
  unfold loadFrom at h
  cases hr : files.read path with
  | error fault =>
    rw [hr] at h
    cases h
  | ok text =>
    rw [hr] at h
    dsimp only [ok_bind] at h
    split at h
    · cases h
    · split at h
      · next hv =>
        obtain rfl := Except.ok.inj h
        exact hv
      · cases h

/-- Settings are validated wherever they come from. -/
theorem validate_of_load {around : Surroundings} {asked : Option String} {s : Settings}
    (h : load around asked = .ok s) : s.validate = .ok () := by
  cases asked with
  | some path =>
    rw [load] at h
    split at h
    · exact validate_of_loadFrom h
    · cases h
  | none =>
    rw [load] at h
    split at h
    · exact validate_of_loadFrom h
    · obtain rfl := Except.ok.inj h
      decide +kernel

end Settings

theorem Template.allChecked_of_compile {t : Template} {tree : Tree} (h : t.compile = .ok tree) :
    Node.AllChecked tree := by
  unfold compile at h
  cases hp : parse t.body with
  | error e =>
    rw [hp] at h
    cases h
  | ok tree' =>
    rw [hp] at h
    obtain rfl := Except.ok.inj h
    exact allChecked_of_parseChars hp

theorem Template.render_eq_traced {t : Template} {tree : Tree} (h : t.compile = .ok tree)
    (context : Context) (format : Format) :
    t.render context format =
      let r := (Traced.render tree t.body.toList context format).result
      .ok { r with diagnostics := r.diagnostics.map (·.within t.origin) } := by
  rw [render, h, Traced.result_render]
  rfl

theorem Session.exists_propose {s : Session} {t : Shared} {entity : Option String}
    {source : Source} {p : Proposal} (h : (s.propose t entity source).1 = .ok (some p)) :
    ∃ tree schema, Proforma.propose tree schema s.settings.options = .ok p := by
  cases hc : t.template.compile with
  | error e =>
    obtain ⟨_, hp⟩ := propose_of_error hc entity source (s := s)
    rw [hp] at h
    cases h
  | ok tree =>
    obtain ⟨_, hp⟩ := propose_of_tree hc entity source (s := s)
    rw [hp] at h
    obtain ⟨_, -, hl⟩ := Option.bind_eq_some_iff.mp (Except.ok.inj h)
    obtain ⟨schema, -, hs⟩ := Option.bind_eq_some_iff.mp hl
    exact ⟨tree, schema, toOption_eq_some.mp hs⟩

theorem allChecked_fragment {t : Tree} {s : Schema} {o : Proposal.Options} {p : Proposal}
    (h : propose t s o = .ok p) : Node.AllChecked p.fragment := by
  obtain ⟨f, hf, rfl⟩ := propose_eq_ok.mp h
  exact allChecked_of_parseChars hf

/-- Whatever parses is checked at every depth, and settings that could be loaded are valid. So
what a session with these settings renders, of a template or of a proposal, has only been written
with codes of currencies and with patterns of dates, whatever the record holds. -/
theorem writings_checked :
    (∀ source t, parse source = .ok t → Node.AllChecked t) ∧
    ∀ around asked settings, Settings.load around asked = .ok settings →
      settings.validate = .ok () ∧
      ∀ requests (t : Shared) (context : Context),
        let s := (Session.new settings).run requests
        (∀ tree, t.template.compile = .ok tree →
          let x := Traced.render tree t.template.body.toList context settings.format
          x.IsChecked ∧ (s.render t context).1 = .ok { x.result with
            diagnostics := x.result.diagnostics.map (·.within t.template.origin) }) ∧
        ∀ entity source p, (s.propose t entity source).1 = .ok (some p) →
          let x := Traced.render p.fragment p.source.toList context settings.format
          x.IsChecked ∧ p.supplement? context s.settings.format =
            if p.isEmpty then none else some x.result := by
  refine ⟨fun source t h => allChecked_of_parseChars h, fun around asked settings h => ?_⟩
  have hv := Settings.validate_of_load h
  have hf := Settings.format_isChecked hv
  refine ⟨hv, fun requests t context => ?_⟩
  intro s
  have hs : s.settings = settings := (Session.new settings).settings_run requests
  refine ⟨fun tree ht => ?_, fun entity source p hp => ?_⟩
  · refine ⟨Traced.isChecked_render (Template.allChecked_of_compile ht) hf _ context, ?_⟩
    obtain ⟨_, hr⟩ := s.exists_render t context
    rw [hr, hs]
    exact Template.render_eq_traced ht context settings.format
  · obtain ⟨tree, schema, hp⟩ := Session.exists_propose hp
    refine ⟨Traced.isChecked_render (allChecked_fragment hp) hf _ context, ?_⟩
    rw [Proposal.supplement?, hs, Traced.result_render]

/-- Of two amounts one is written in the currency of a file and the other one in its own, and a day
is written by the standard pattern and by one of its own. -/
theorem writings_checked_euro :
    let around : Surroundings :=
      ⟨.ofList [("pview.toml", .ok "default_currency = 'EUR'")], none, "home"⟩
    let settings : Settings := { Settings.standard with currency := "EUR" }
    let source := "\x7b\x7b Net | currency \x7d\x7d, \x7b\x7b Net | currency('CHF') \x7d\x7d by " ++
      "\x7b\x7b Due | date \x7d\x7d, \x7b\x7b Due | datetime('%H:%M') \x7d\x7d"
    let t : Shared := ⟨0, .new "bill" "1" source⟩
    let day : Date := ⟨2024, 6, 30⟩
    let context : Context := ⟨.object [("Net", .scalar (.number (.integer 5))),
      ("Due", .scalar (.date day))], ⟨⟨2024, 6, 1⟩, .midnight, 0⟩⟩
    let writings : List Writing := [.amount ⟨false, 5, 0⟩ "EUR", .amount ⟨false, 5, 0⟩ "CHF",
      .temporal (.date day) "%B %-d, %Y", .temporal (.clock day .midnight) "%H:%M"]
    Settings.load around (some "pview.toml") = .ok settings ∧ settings.validate = .ok () ∧
      ∃ tree, t.template.compile = .ok tree ∧
      let x := Traced.render tree t.template.body.toList context settings.format
      x.IsChecked ∧ x.writings = writings ∧
        x.result.text = "€5.00, CHF 5.00 by June 30, 2024, 00:00" := by
  intro around settings source t day context writings
  have hload : Settings.load around (some "pview.toml") = .ok settings :=
    toOption_eq_some.mp (by decide +kernel)
  have hw : (t.template.compile.toOption.map fun tree =>
      let x := Traced.render tree t.template.body.toList context settings.format
      (x.writings, x.result.text)) = some (writings, "€5.00, CHF 5.00 by June 30, 2024, 00:00") := by
    decide +kernel
  obtain ⟨tree, ht, hw⟩ := Option.map_eq_some_iff.mp hw
  obtain ⟨hwritings, htext⟩ := Prod.mk.inj hw
  obtain ⟨hv, hr⟩ := writings_checked.2 around _ settings hload
  obtain ⟨hx, -⟩ := (hr [] t context).1 tree (toOption_eq_some.mp ht)
  exact ⟨hload, hv, tree, toOption_eq_some.mp ht, hx, hwritings, htext⟩

end Proforma
