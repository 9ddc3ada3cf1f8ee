import Proforma.Proofs.Alike
import Proforma.Proofs.Tree
import Proforma.Proposal.Basic

/-!
What a tree does not read of a record cannot show in its rendering. Two renderings of one tree go
in step: their scopes bind the same loop variables to alike values, and the names that the tree
reads are the ones that the walk over its paths reports.
-/
namespace Proforma

/-- The records hold alike values under these names, or none. -/
def Value.AgreeOn (names : List String) (r₁ r₂ : Value) : Prop :=
  ∀ name ∈ names, Resolved.Alike (r₁.get? (.field name)) (r₂.get? (.field name))

namespace Scope

/-- The loop variables around a node, innermost last. -/
def bound (s : Scope) : List String := (s.bindings.map Prod.fst).reverse

/-- Two scopes with the same moment, and with alike values for the same loop variables. -/
structure Alike (s₁ s₂ : Scope) : Prop where
  today : s₁.context.today = s₂.context.today
  bindings : List.Forall₂ (fun a b => a.1 = b.1 ∧ a.2.Alike b.2) s₁.bindings s₂.bindings

theorem bound_push (s : Scope) (name : String) (v : Value) :
    (s.push name v).bound = s.bound ++ [name] := by
  simp [bound, push]

theorem Alike.push {s₁ s₂ : Scope} (h : s₁.Alike s₂) (name : String) {v w : Value}
    (hv : v.Alike w) : (s₁.push name v).Alike (s₂.push name w) :=
  ⟨h.today, .cons ⟨rfl, hv⟩ h.bindings⟩

theorem presentOnly_alike {v w : Value} (h : v.Alike w) :
    Resolved.Alike (Value.presentOnly (some v)) (Value.presentOnly (some w)) := by
  have hs := h.shape_eq
  have hn : v.isNull = w.isNull := by
    cases v with
    | scalar s => cases w <;> simp_all [Value.shape]
    | sequence _ => cases w <;> simp_all [Value.shape, Value.isNull]
    | object _ => cases w <;> simp_all [Value.shape, Value.isNull]
  simp only [Value.presentOnly, Option.filter, hn]
  split
  · exact .some h
  · exact .none

/-- A name that is no loop variable leads to the record, unless it is the moment. -/
theorem Alike.root? {s₁ s₂ : Scope} (h : s₁.Alike s₂) {name : String}
    (hr : name ∉ s₁.bound → name ≠ todayName →
      Resolved.Alike (s₁.context.record.get? (.field name))
        (s₂.context.record.get? (.field name))) :
    Resolved.Alike (s₁.root? name) (s₂.root? name) := by
  obtain ⟨⟨r₁, today⟩, bs₁⟩ := s₁
  obtain ⟨⟨r₂, today₂⟩, bs₂⟩ := s₂
  obtain ⟨rfl, hb⟩ := h
  simp only [bound, List.mem_reverse] at hr
  simp only at hb
  unfold Scope.root?
  induction hb with
  | nil =>
    simp only [List.lookup_nil]
    split
    · exact .refl _
    · next ht => exact hr (by simp) ht
  | @cons a b bs₁ bs₂ hab hbs ih =>
    obtain ⟨n, v⟩ := a
    obtain ⟨n', w⟩ := b
    obtain ⟨rfl, hvw⟩ := hab
    simp only [List.lookup_cons]
    cases hn : name == n with
    | true => exact presentOnly_alike hvw
    | false =>
      refine ih fun hm ht => hr ?_ ht
      simpa [hm] using ne_of_beq_false hn

theorem Alike.resolve {s₁ s₂ : Scope} (h : s₁.Alike s₂) {names : List String}
    (ha : s₁.context.record.AgreeOn names s₂.context.record) {p : Path}
    (hp : ∀ name, Tree.recordHead? (p, s₁.bound) = some name → name ∈ names) :
    (s₁.resolve p).Alike (s₂.resolve p) := by
  have hr : Resolved.Alike (s₁.root? p.head) (s₂.root? p.head) := by
    refine h.root? fun hb ht => ha _ (hp _ ?_)
    simp [Tree.recordHead?, hb, ht]
  unfold Scope.resolve
  generalize s₁.root? p.head = a, s₂.root? p.head = b at hr
  cases hr with
  | none => exact .none
  | some hvw => exact hvw.lookup? p.tail

end Scope

theorem renderExpression_alike (st : Setting) {s₁ s₂ : Scope} {p : Path}
    (h : (s₁.resolve p).Alike (s₂.resolve p)) (calls : List FilterCall) (span : Text.Span) :
    renderExpression st s₁ p calls span = renderExpression st s₂ p calls span := by
  have he := applyAll_alike st.format calls h
  simp only [renderExpression, evaluate]
  generalize applyAll st.format calls (s₁.resolve p) = a,
    applyAll st.format calls (s₂.resolve p) = b at he
  cases a with
  | ok r =>
    cases b with
    | ok r' => exact renderResolved_alike st p span he
    | error _ => exact he.elim
  | error e =>
    cases b with
    | ok _ => exact he.elim
    | error e' =>
      obtain rfl : e = e' := he
      rfl

/-- A loop renders its body once for each item, in scopes that stay alike. -/
theorem renderLoop_alike (st : Setting) {s₁ s₂ : Scope} {collection : Path}
    (h : (s₁.resolve collection).Alike (s₂.resolve collection)) (binding : String)
    (body : List Node) (span : Text.Span)
    (hb : ∀ v w : Value, v.Alike w →
      renderNodes st (s₁.push binding v) body = renderNodes st (s₂.push binding w) body) :
    renderNode st s₁ (.loop collection binding body span) =
      renderNode st s₂ (.loop collection binding body span) := by
  simp only [renderNode]
  generalize s₁.resolve collection = a, s₂.resolve collection = b at h
  cases h with
  | none => rfl
  | @some v w h =>
    have hs := h.shape_eq
    cases v with
    | sequence vs =>
      cases w with
      | sequence ws =>
        have hm : List.Forall₂ (· = ·)
            (vs.map fun v => renderNodes st (s₁.push binding v) body)
            (ws.map fun w => renderNodes st (s₂.push binding w) body) := by
          rw [List.forall₂_map_left_iff, List.forall₂_map_right_iff]
          exact h.items.imp hb
        rw [List.forall₂_eq_eq_eq] at hm
        exact congrArg Rendering.concat hm
      | scalar _ => simp [Value.shape] at hs
      | object _ => simp [Value.shape] at hs
    | scalar _ => cases w <;> simp_all [Value.shape]
    | object _ => cases w <;> simp_all [Value.shape, Value.kind]

/-- Rows of nodes render alike in alike scopes whose records agree on every name that the walk
over the row finds outside the loop variables. -/
theorem renderNodes_alike (st : Setting) {names : List String} (t : List Node) {s₁ s₂ : Scope}
    (h : s₁.Alike s₂) (ha : s₁.context.record.AgreeOn names s₂.context.record)
    (ht : ∀ p ∈ Node.allPathsIn s₁.bound t, ∀ name, Tree.recordHead? p = some name → name ∈ names) :
    renderNodes st s₁ t = renderNodes st s₂ t := by
  induction t using Tree.induction generalizing s₁ s₂ with
  | nil => rfl
  | text raw span ns ih =>
    simp only [Node.allPathsIn, Node.pathsIn, List.nil_append] at ht
    simp only [renderNodes, renderNode, ih h ha ht]
  | expression path calls span ns ih =>
    simp only [Node.allPathsIn, Node.pathsIn, List.cons_append, List.nil_append,
      List.forall_mem_cons] at ht
    have hr := h.resolve ha ht.1
    simp only [renderNodes, renderNode, renderExpression_alike st hr, ih h ha ht.2]
  | conditional path thenNodes span ns ih₁ ih =>
    simp only [Node.allPathsIn, Node.pathsIn, List.cons_append, List.forall_mem_cons,
      List.forall_mem_append] at ht
    have hr := h.resolve ha ht.1
    simp only [renderNodes, renderNode, hr.holds, ih₁ h ha ht.2.1, ih h ha ht.2.2]
  | alternative path thenNodes elseNodes span ns ih₁ ih₂ ih =>
    simp only [Node.allPathsIn, Node.pathsIn, List.cons_append, List.forall_mem_cons,
      List.forall_mem_append] at ht
    have hr := h.resolve ha ht.1
    simp only [renderNodes, renderNode, hr.holds, ih₁ h ha ht.2.1.1, ih₂ h ha ht.2.1.2,
      ih h ha ht.2.2]
  | loop collection binding body span ns ih₁ ih =>
    simp only [Node.allPathsIn, Node.pathsIn, List.cons_append, List.forall_mem_cons,
      List.forall_mem_append] at ht
    have hr := h.resolve ha ht.1
    have hb : ∀ v w : Value, v.Alike w →
        renderNodes st (s₁.push binding v) body = renderNodes st (s₂.push binding w) body := by
      intro v w hvw
      refine ih₁ (h.push binding hvw) ha ?_
      rw [Scope.bound_push]
      exact ht.2.1
    simp only [renderNodes, renderLoop_alike st hr binding body span hb, ih h ha ht.2.2]

theorem lookup_insertField_ne {name other : String} (h : name ≠ other) (v : Value)
    (fields : List (String × Value)) :
    (Value.insertField other v fields).lookup name = fields.lookup name := by
  have hn : (name == other) = false := beq_false_of_ne h
  induction fields with
  | nil => simp [Value.insertField, List.lookup_cons, hn]
  | cons field fields ih =>
    obtain ⟨n, w⟩ := field
    simp only [Value.insertField]
    split
    · next he => simp [List.lookup_cons, he, hn]
    · simp only [List.lookup_cons, ih]

theorem render_eq_of_agreeOn {t : Tree} {r₁ r₂ : Value} (h : r₁.AgreeOn t.referenced r₂)
    (source : List Char) (today : Moment) (format : Format) :
    render t source ⟨r₁, today⟩ format = render t source ⟨r₂, today⟩ format := by
  have hs : (Scope.ofContext ⟨r₁, today⟩).Alike (Scope.ofContext ⟨r₂, today⟩) := ⟨rfl, .nil⟩
  exact renderNodes_alike _ t hs h fun p hp name hn => Tree.mem_referenced.mpr ⟨p, hp, hn⟩

theorem agreeOn_insertField {names : List String} {name : String} (h : name ∉ names) (v : Value)
    (fields : List (String × Value)) :
    (Value.object (Value.insertField name v fields)).AgreeOn names (.object fields) := by
  intro other hm
  have hne : other ≠ name := fun he => h (he ▸ hm)
  simp only [Value.get?, lookup_insertField_ne hne]
  exact .refl _

/-- Records that agree on the attributes that a tree refers to have the same rendering, text and
diagnostics alike, whatever its loops rebind. So an attribute that a proposal counts as
unreferenced may hold anything. -/
theorem render_depends_on_referenced (t : Tree) (source : List Char) (today : Moment)
    (format : Format) :
    (∀ r₁ r₂ : Value, r₁.AgreeOn t.referenced r₂ →
      render t source ⟨r₁, today⟩ format = render t source ⟨r₂, today⟩ format) ∧
    ∀ (s : Schema) (a : Attribute), a ∈ s.unreferenced t → ∀ fields (v : Value),
      render t source ⟨.object (Value.insertField a.name v fields), today⟩ format =
        render t source ⟨.object fields, today⟩ format := by
  constructor
  · intro r₁ r₂ h
    exact render_eq_of_agreeOn h source today format
  · intro s a ha fields v
    have hn : a.name ∉ t.referenced := by
      simpa [Schema.unreferenced] using (List.mem_filter.mp ha).2
    exact render_eq_of_agreeOn (agreeOn_insertField hn v fields) source today format

/-- The tree of `{% for Note in Items %}{{ Note }}{% endfor %}`, whose loop rebinds the name of an
attribute. -/
def shadowingLoop : Tree :=
  [.loop ⟨"Items", []⟩ "Note" [.expression ⟨"Note", []⟩ [] ⟨25, 35⟩] ⟨0, 47⟩]

theorem render_depends_on_referenced_shadowingLoop :
    let fields := [("Items", Value.sequence [.text "one", .text "two"])]
    let r₁ : Value := .object (("Note", .text "hidden") :: fields)
    let r₂ : Value := .object fields
    let schema : Schema := ⟨"Order", 1, [⟨"Note", .text, none, none, []⟩]⟩
    let now : Moment := ⟨⟨2024, 6, 1⟩, .midnight, 0⟩
    r₁.AgreeOn shadowingLoop.referenced r₂ ∧
      render shadowingLoop [] ⟨r₁, now⟩ .standard = render shadowingLoop [] ⟨r₂, now⟩ .standard ∧
      ⟨"Note", .text, none, none, []⟩ ∈ schema.unreferenced shadowingLoop ∧
      render shadowingLoop [] ⟨.object (Value.insertField "Note" (.text "hidden") fields), now⟩
        .standard = render shadowingLoop [] ⟨r₂, now⟩ .standard := by
  intro fields r₁ r₂ schema now
  have hr : shadowingLoop.referenced = ["Items"] := by decide +kernel
  have ha : r₁.AgreeOn shadowingLoop.referenced r₂ := by
    rw [hr]
    intro name hn
    obtain rfl : name = "Items" := by simpa using hn
    exact .refl _
  have hu : (⟨"Note", .text, none, none, []⟩ : Attribute) ∈ schema.unreferenced shadowingLoop := by
    simp [Schema.unreferenced, hr, schema]
  have h := render_depends_on_referenced shadowingLoop [] now .standard
  exact ⟨ha, h.1 r₁ r₂ ha, hu, h.2 schema _ hu fields (.text "hidden")⟩

end Proforma
