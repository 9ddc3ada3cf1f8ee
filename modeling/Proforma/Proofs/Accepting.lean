import Proforma.Proofs.Aligning
import Proforma.Proofs.Proposing
import Proforma.Proofs.Showing
import Proforma.Session.Basic

/-!
Accepting a proposal. A template with the proposal's text after it reads what the proposal was
made for, so that nothing more is proposed, and shows what both show.
-/
namespace Proforma

open Text

namespace Proposal

theorem mem_or_eq_of_mem_intersperse {α : Type} {x sep : α} {xs : List α}
    (h : x ∈ xs.intersperse sep) : x ∈ xs ∨ x = sep := by
  induction xs with
  | nil => simp at h
  | cons y ys ih =>
    cases ys with
    | nil => exact .inl h
    | cons z zs =>
      rw [List.intersperse_cons_cons, List.mem_cons, List.mem_cons] at h
      rcases h with rfl | rfl | h
      · exact .inl (List.mem_cons_self ..)
      · exact .inr rfl
      · exact (ih h).imp_left (List.mem_cons_of_mem _)

theorem head_shownPath (p : Path) (a : Attribute) : (shownPath p a).head = p.head := by
  unfold shownPath
  split <;> rfl

theorem paths_snippetNode (o : Options) (bindings : List String) (p : Path) (a : Attribute) :
    (snippetNode o p a).pathsIn bindings = [(shownPath p a, bindings)] := by
  simp [snippetNode, Node.pathsIn]

/-- The items of a collection are shown by the loop variable alone, whatever its attribute is
called. -/
theorem recordHead?_itemNodes (o : Options) (a : Attribute) :
    ∀ q ∈ Node.allPathsIn [String.ofList itemName] (itemNodes o a), Tree.recordHead? q = none := by
  have hb : ∀ p : Path, p.head = String.ofList itemName →
      Tree.recordHead? (p, [String.ofList itemName]) = none := by
    intro p hp
    simp [Tree.recordHead?, hp]
  unfold itemNodes
  intro q hq
  rw [Node.allPathsIn_eq, List.mem_flatMap] at hq
  obtain ⟨n, hn, hq⟩ := hq
  split at hn
  · obtain rfl := List.mem_singleton.mp hn
    obtain rfl := by simpa [Node.pathsIn] using hq
    exact hb _ rfl
  · rcases mem_or_eq_of_mem_intersperse hn with hn | rfl
    · obtain ⟨f, -, rfl⟩ := List.mem_map.mp hn
      rw [paths_snippetNode, List.mem_singleton] at hq
      subst hq
      exact hb _ (head_shownPath _ f)
    · simp [Node.pathsIn] at hq

/-- Nothing of the record but the attribute is read for it. -/
theorem recordHead?_bodyNodes (o : Options) (a : Attribute) {q : Path × List String}
    (hq : q ∈ Node.allPathsIn [] (bodyNodes o a)) {name : String}
    (h : Tree.recordHead? q = some name) : a.name = name := by
  by_cases hk : a.kind = .collection
  · simp only [bodyNodes_of_collection o hk, Node.allPathsIn, Node.pathsIn, List.nil_append,
      List.append_nil, Node.allPathsIn_append, List.cons_append, List.mem_cons] at hq
    rcases hq with rfl | hq
    · exact (Tree.recordHead?_eq_some.mp h).1
    · simp [recordHead?_itemNodes o a q hq] at h
  · simp only [bodyNodes_of_ne o hk, Node.allPathsIn, Node.pathsIn, paths_snippetNode,
      List.nil_append, List.append_nil, List.mem_singleton] at hq
    subst hq
    exact (head_shownPath _ a).symm.trans (Tree.recordHead?_eq_some.mp h).1

theorem paths_fragmentTree (o : Options) (as : List Attribute) : (fragmentTree o as).paths =
    as.flatMap fun a => (attributePath a, []) :: Node.allPathsIn [] (bodyNodes o a) := by
  cases as with
  | nil => simp [fragmentTree, Tree.paths, Node.allPathsIn]
  | cons a as =>
    simp [fragmentTree, Tree.paths, Node.pathsIn, Node.allPathsIn_eq, entryNode, List.flatMap_map]

/-- A proposal reads the attributes that it is made for. -/
theorem mem_referenced_fragmentTree (o : Options) {as : List Attribute}
    (ha : ∀ a ∈ as, isUsable a.name = true) {name : String} :
    name ∈ (fragmentTree o as).referenced ↔ ∃ a ∈ as, a.name = name := by
  rw [Tree.mem_referenced, paths_fragmentTree]
  constructor
  · rintro ⟨q, hq, hr⟩
    obtain ⟨a, hm, hq⟩ := List.mem_flatMap.mp hq
    refine ⟨a, hm, ?_⟩
    rcases List.mem_cons.mp hq with rfl | hq
    · exact (Tree.recordHead?_eq_some.mp hr).1
    · exact recordHead?_bodyNodes o a hq hr
  · rintro ⟨a, hm, rfl⟩
    have hu := ha a hm
    simp only [isUsable, Bool.and_eq_true, bne_iff_ne] at hu
    exact ⟨(attributePath a, []), List.mem_flatMap.mpr ⟨a, hm, List.mem_cons_self ..⟩,
      Tree.recordHead?_eq_some.mpr ⟨rfl, hu.1, by simp⟩⟩

/-- A proposal brings no delimiter about where it begins. -/
theorem seamless_fragmentText (source : List Char) (o : Options) (as : List Attribute) :
    Seamless source (fragmentText o as) := by
  intro d _
  cases as <;> cases d <;> simp [fragmentText, Delimiter.opener]

end Proposal

open Proposal

theorem isUsable_of_mem_missing {s : Schema} {t : Tree} :
    ∀ a ∈ s.missing t, isUsable a.name = true := fun _ ha => (Schema.mem_missing.mp ha).2.2

/-- What is proposed is missing no longer once it is read. -/
theorem Schema.missing_eq_nil {s : Schema} {t t' : Tree}
    (h : ∀ a ∈ s.missing t, a.name ∈ t'.referenced)
    (hsub : ∀ name ∈ t.referenced, name ∈ t'.referenced) : s.missing t' = [] := by
  refine List.eq_nil_iff_forall_not_mem.mpr fun a ha => ?_
  obtain ⟨hm, hn, hu⟩ := mem_missing.mp ha
  by_cases ht : a.name ∈ t.referenced
  · exact hn (hsub _ ht)
  · exact hn (h a (mem_missing.mpr ⟨hm, ht, hu⟩))

/-- A name that cannot be proposed stays left out. -/
theorem Schema.skipped_eq {s : Schema} {t t' : Tree}
    (h : ∀ a ∈ s.attributes, isUsable a.name = false →
      (a.name ∈ t'.referenced ↔ a.name ∈ t.referenced)) : s.skipped t' = s.skipped t := by
  simp only [skipped, unreferenced, List.filter_filter]
  congr 1
  refine List.filter_congr fun a ha => ?_
  cases hu : isUsable a.name with
  | true => rfl
  | false => simp [h a ha hu]

theorem parseChars_nil : parseChars [] = .ok [] := by
  unfold parseChars pieces
  rw [piecesFrom_nil]
  rfl

theorem propose_of_missing_eq_nil {t : Tree} {s : Schema} (h : s.missing t = []) (o : Options) :
    propose t s o = .ok ⟨s.entity, s.version, [], s.skipped t, "", []⟩ := by
  refine propose_eq_ok.mpr ⟨[], ?_, ?_⟩
  · rw [h]
    exact parseChars_nil
  · simp [h, fragmentText]

/-- What a proposal adds to a rendering is its fragment's, also if it is empty. -/
theorem text_filled {t : Tree} {s : Schema} {o : Options} {p : Proposal}
    (h : propose t s o = .ok p) (main : Rendering) (context : Context) (format : Format) :
    (Session.Filled.mk main (some p) (p.supplement? context format)).text =
      main.text ++ (render p.fragment p.source.toList context format).text := by
  unfold Session.Filled.text Proposal.supplement?
  by_cases he : p.isEmpty = true
  · obtain ⟨f, hf, rfl⟩ := propose_eq_ok.mp h
    have hm : s.missing t = [] := by simpa [isEmpty] using he
    rw [hm] at hf
    obtain rfl : [] = f := Except.ok.inj (parseChars_nil.symm.trans hf)
    simp [he, render, renderNodes, Rendering.empty]
  · simp [he]

theorem bare_fragment {t : Tree} {s : Schema} {o : Options} {f : Tree}
    (h : parseChars (fragmentText o (s.missing t)) = .ok f) :
    f.bare = (fragmentTree o (s.missing t)).bare := by
  have ho := showMoments_of_parseChars isIdentifier_of_mem_missing h
  obtain ⟨f', hf, hb⟩ := parseChars_fragmentText isIdentifier_of_mem_missing ho
  obtain rfl := Except.ok.inj (h.symm.trans hf)
  exact hb

/-- A template with an accepted proposal after it is read, refers to what the template and the
proposal refer to, leaves nothing to propose, and shows the text of both. -/
theorem propose_accepted {source : String} {t : Tree} {s : Schema} {o : Options} {p : Proposal}
    (ht : parse source = .ok t) (hp : propose t s o = .ok p) :
    ∃ t', parse (source ++ p.source) = .ok t' ∧
      (∀ name, name ∈ t'.referenced ↔
        name ∈ t.referenced ∨ name ∈ p.attributes.map ProposedAttribute.name) ∧
      (∃ p', propose t' s o = .ok p' ∧ p'.attributes = [] ∧ p'.source = "" ∧
        p'.skipped = p.skipped) ∧
      ∀ context format, (render t' (source ++ p.source).toList context format).text =
        (Session.Filled.mk (render t source.toList context format) (some p)
          (p.supplement? context format)).text := by
  obtain ⟨f, hf, rfl⟩ := propose_eq_ok.mp hp
  obtain ⟨t', ht', hb⟩ := parseChars_append ht hf (seamless_fragmentText _ _ _)
  have hr : ∀ name, name ∈ t'.referenced ↔
      name ∈ t.referenced ∨ ∃ a ∈ s.missing t, a.name = name := by
    intro name
    rw [← Tree.referenced_bare, hb, Tree.referenced_bare, Tree.mem_referenced_join,
      ← mem_referenced_fragmentTree o isUsable_of_mem_missing, ← Tree.referenced_bare f,
      bare_fragment hf, Tree.referenced_bare]
  have hmissing : s.missing t' = [] :=
    Schema.missing_eq_nil (fun a ha => (hr _).mpr (.inr ⟨a, ha, rfl⟩))
      fun name hn => (hr _).mpr (.inl hn)
  have hskipped : s.skipped t' = s.skipped t := by
    refine Schema.skipped_eq fun a _ hu => ⟨fun ha => ?_, fun ha => (hr _).mpr (.inl ha)⟩
    rcases (hr _).mp ha with ha | ⟨b, hb, he⟩
    · exact ha
    · simp [← he, isUsable_of_mem_missing b hb] at hu
  refine ⟨t', ?_, ?_, ⟨_, propose_of_missing_eq_nil hmissing o, rfl, rfl, hskipped⟩, ?_⟩
  · simpa [parse] using ht'
  · intro name
    simpa [ProposedAttribute.ofAttribute] using hr name
  · intro context format
    rw [text_filled hp, text_render_of_bare hb _ []]
    exact text_render_join t f _ _ _ context format

/-- A note and a brace after it. -/
def noted : Tree := [.expression ⟨"Note", []⟩ [] .zero, .text " \x7b" .zero]

def notedChunks : List Chunk := [expressionChunk "Note".toList, .text " \x7b".toList]

/-- A schema with a collection that has the name of the loop variable. -/
def orderSchema : Schema where
  entity := "Order"
  version := 3
  attributes :=
    [⟨"item", .collection, none, none, [⟨"Size", .number, none, none, []⟩]⟩,
      ⟨todayName, .date, none, none, []⟩, ⟨"Note", .text, none, none, []⟩]

theorem parse_noted : ∃ t, parse "\x7b\x7b Note \x7d\x7d \x7b" = .ok t ∧ t.bare = noted.bare := by
  have hc : IsCut notedChunks :=
    .directive ⟨by decide +kernel, by decide +kernel⟩ (.text (by simp) (by decide +kernel))
  have hn : (Path.mk "Note" []).Written "Note".toList := by
    simpa using Path.Written.intro (p := ⟨"Note", []⟩) .nil
  have hw : List.Forall₂ Part.Written noted.parts notedChunks :=
    .cons (.expression (expression_bare hn)) (.cons (.text " \x7b") .nil)
  exact parseChars_of_parts hc (map_part?_of_written hw (by decide +kernel))

theorem propose_accepted_noted : ∃ t p, parse "\x7b\x7b Note \x7d\x7d \x7b" = .ok t ∧
    propose t orderSchema .standard = .ok p ∧
    p.attributes.map ProposedAttribute.name = ["item"] ∧ p.skipped = [todayName] ∧
    ∃ t', parse ("\x7b\x7b Note \x7d\x7d \x7b" ++ p.source) = .ok t' ∧
      (∀ name, name ∈ t'.referenced ↔ name = "Note" ∨ name = "item") ∧
      ∃ p', propose t' orderSchema .standard = .ok p' ∧ p'.attributes = [] ∧ p'.source = "" ∧
        p'.skipped = [todayName] := by
  obtain ⟨t, ht, hb⟩ := parse_noted
  have hr : t.referenced = ["Note"] := by
    rw [← Tree.referenced_bare, hb]
    decide +kernel
  have hm : (orderSchema.missing t).map Attribute.name = ["item"] := by
    have hf : (orderSchema.unreferenced t).filter (fun a => isUsable a.name) =
        [⟨"item", .collection, none, none, [⟨"Size", .number, none, none, []⟩]⟩] := by
      simp only [Schema.unreferenced, hr]
      rfl
    simp only [Schema.missing, hf, List.mergeSort_singleton, List.map_cons, List.map_nil]
  have hs : orderSchema.skipped t = [todayName] := by
    simp only [Schema.skipped, Schema.unreferenced, hr]
    decide +kernel
  obtain ⟨p, hp⟩ := (propose_isOk_iff t orderSchema .standard).mpr
    fun _ => ⟨by decide +kernel, by decide +kernel⟩
  obtain ⟨t', ht', hr', ⟨p', hp', ha', hsource', hs'⟩, -⟩ := propose_accepted ht hp
  obtain ⟨f, -, rfl⟩ := propose_eq_ok.mp hp
  have ha : ((orderSchema.missing t).map ProposedAttribute.ofAttribute).map ProposedAttribute.name =
      ["item"] := by
    rw [List.map_map]
    exact hm
  refine ⟨t, _, ht, hp, ha, hs, t', ht', fun name => ?_, p', hp', ha', hsource', hs'.trans hs⟩
  rw [hr' name, hr, ha]
  simp

end Proforma
