import Proforma.Proofs.Accepting

/-!
What a proposal's fragment means. Whatever texts a schema holds, the fragment is a title and for
each attribute a condition on it, in which the attribute is shown in the way of its kind; no label,
title, field or pattern is read as anything else.
-/
namespace Proforma

open Text

namespace Proposal

def withoutBraces (s : String) : String :=
  String.ofList (s.toList.filter fun c => c ≠ '{' ∧ c ≠ '}')

/-- An expression that shows an attribute which is found at a path. -/
inductive ShowsValue (o : Options) (a : Attribute) (p : Path) : Node → Prop where
  | plain (h : a.kind = .text ∨ a.kind = .number) : ShowsValue o a p (.expression p [] .zero)
  | currency (h : a.kind = .currency) :
    ShowsValue o a p (.expression p [⟨.currency, [], .zero⟩] .zero)
  | date (h : a.kind = .date) : ShowsValue o a p (.expression p [⟨.date, [], .zero⟩] .zero)
  | moment (h : a.kind = .moment) :
    ShowsValue o a p (.expression p [⟨.datetime, [.text o.momentPattern], .zero⟩] .zero)
  | byField (h : a.kind = .reference) {field : String} (hf : a.displayField = some field)
    (hi : isIdentifier field.toList = true) :
    ShowsValue o a p (.expression ⟨p.head, p.tail ++ [.field field]⟩ [] .zero)
  | byName (h : a.kind = .reference)
    (hf : ∀ field, a.displayField = some field → isIdentifier field.toList = false) :
    ShowsValue o a p (.expression ⟨p.head, p.tail ++ [.field "Name"]⟩ [] .zero)

/-- Nodes that show the loop variable of a collection by the fields that fit on a line, one after
the other, or as a whole if there are none. -/
inductive ShowsItem (o : Options) (a : Attribute) : List Node → Prop where
  | whole (h : ∀ f ∈ a.fields, f.kind = .collection ∨ isIdentifier f.name.toList = false) :
    ShowsItem o a [.expression ⟨"item", []⟩ [] .zero]
  | byFields {fs : List Attribute} {ns : List Node} (hn : fs ≠ [])
    (hf : fs = a.fields.filter fun f => f.kind ≠ .collection ∧ isIdentifier f.name.toList = true)
    (h : List.Forall₂ (fun f n => ShowsValue o f ⟨"item", [.field f.name]⟩ n) fs ns) :
    ShowsItem o a (ns.intersperse (.text ", " .zero))

/-- Nodes that show an attribute below its label: a collection as a list, any other on a line. -/
inductive ShowsBody (o : Options) (a : Attribute) : List Node → Prop where
  | line (hk : a.kind ≠ .collection) {n : Node} (h : ShowsValue o a ⟨a.name, []⟩ n) :
    ShowsBody o a [.text ("- **" ++ withoutBraces a.displayLabel ++ ":** ") .zero, n,
      .text "\n" .zero]
  | list (hk : a.kind = .collection) {ns : List Node} (h : ShowsItem o a ns) :
    ShowsBody o a [.text ("\n### " ++ withoutBraces a.displayLabel ++ "\n\n") .zero,
      .loop ⟨a.name, []⟩ "item" (.text "- " .zero :: ns ++ [.text "\n" .zero]) .zero,
      .text "\n" .zero]

/-- A condition on an attribute, in which the attribute is shown. -/
inductive ShowsEntry (o : Options) (a : Attribute) : Node → Prop where
  | intro {ns : List Node} (h : ShowsBody o a ns) :
    ShowsEntry o a (.conditional ⟨a.name, []⟩ ns none .zero)

theorem ofList_plain (s : String) : String.ofList (plain s.toList) = withoutBraces s := by
  unfold plain withoutBraces
  congr 2
  funext c
  exact Bool.eq_iff_iff.mpr (by simp)

theorem showsValue_snippetNode (o : Options) (p : Path) {a : Attribute} (h : a.kind ≠ .collection) :
    ShowsValue o a p (snippetNode o p a) := by
  unfold snippetNode shownPath shownCalls
  cases hk : a.kind with
  | text => exact .plain (.inl hk)
  | number => exact .plain (.inr hk)
  | currency => exact .currency hk
  | date => exact .date hk
  | moment => exact .moment hk
  | collection => exact absurd hk h
  | reference =>
    unfold displayField
    cases hf : a.displayField with
    | none => exact .byName hk (by simp [hf])
    | some field =>
      dsimp only
      split
      · next hi =>
        rw [String.ofList_toList]
        exact .byField hk hf hi
      · next hi => exact .byName hk (by simpa [hf] using hi)

theorem itemFields_eq (a : Attribute) : itemFields a =
    a.fields.filter fun f => f.kind ≠ .collection ∧ isIdentifier f.name.toList = true := by
  unfold itemFields
  congr 1
  funext f
  exact Bool.eq_iff_iff.mpr (by simp)

theorem showsItem_itemNodes (o : Options) (a : Attribute) : ShowsItem o a (itemNodes o a) := by
  have hf := itemFields_eq a
  unfold itemNodes
  cases hi : itemFields a with
  | nil =>
    rw [hi] at hf
    refine .whole fun f hm => ?_
    have hn := List.filter_eq_nil_iff.mp hf.symm f hm
    by_cases hk : f.kind = .collection
    · exact .inl hk
    · exact .inr (by simpa [hk] using hn)
  | cons f fs =>
    rw [hi] at hf
    refine .byFields (by simp) hf ?_
    rw [List.forall₂_map_right_iff, List.forall₂_same]
    intro g hg
    exact showsValue_snippetNode o _ (kind_of_mem_itemFields (hi ▸ hg))

theorem showsBody_bodyNodes (o : Options) (a : Attribute) : ShowsBody o a (bodyNodes o a) := by
  have hl : ∀ before after : String,
      String.ofList (before.toList ++ label a ++ after.toList) =
        before ++ withoutBraces a.displayLabel ++ after := by
    intro before after
    rw [String.ofList_append, String.ofList_append, String.ofList_toList, String.ofList_toList,
      label, ofList_plain]
  by_cases hk : a.kind = .collection
  · rw [bodyNodes_of_collection o hk, hl]
    exact .list hk (showsItem_itemNodes o a)
  · rw [bodyNodes_of_ne o hk, hl]
    exact .line hk (showsValue_snippetNode o _ hk)

/-- The title and the entries of the tree that a proposal is meant to be. -/
theorem fragmentTree_eq (o : Options) {as : List Attribute} (h : as ≠ []) :
    fragmentTree o as =
      .text ("\n## " ++ withoutBraces o.sectionTitle ++ "\n\n") .zero :: as.map (entryNode o) := by
  cases as with
  | nil => exact (h rfl).elim
  | cons a as =>
    rw [fragmentTree, String.ofList_append, String.ofList_append, String.ofList_toList,
      String.ofList_toList, ofList_plain]
    exact h

theorem allBare_eq_self {ns : List Node} (h : ∀ n ∈ ns, n.bare = n) : Node.allBare ns = ns := by
  rw [Node.allBare_eq_map]
  exact (List.map_congr_left h).trans (List.map_id ns)

theorem bare_snippetNode (o : Options) (p : Path) (a : Attribute) :
    (snippetNode o p a).bare = snippetNode o p a := by
  simp [snippetNode, Node.bare, FilterCall.bare, Function.comp_def]

theorem bare_itemNodes (o : Options) (a : Attribute) : ∀ n ∈ itemNodes o a, n.bare = n := by
  unfold itemNodes
  intro n hn
  split at hn
  · obtain rfl := List.mem_singleton.mp hn
    rfl
  · rcases mem_or_eq_of_mem_intersperse hn with hn | rfl
    · obtain ⟨f, -, rfl⟩ := List.mem_map.mp hn
      exact bare_snippetNode o _ f
    · rfl

theorem bare_bodyNodes (o : Options) (a : Attribute) : ∀ n ∈ bodyNodes o a, n.bare = n := by
  by_cases hk : a.kind = .collection
  · have hitems : ∀ n ∈ .text "- " .zero :: itemNodes o a ++ [.text "\n" .zero], n.bare = n := by
      intro n hn
      rcases List.mem_append.mp hn with hn | hn
      · rcases List.mem_cons.mp hn with rfl | hn
        · rfl
        · exact bare_itemNodes o a n hn
      · obtain rfl := List.mem_singleton.mp hn
        rfl
    rw [bodyNodes_of_collection o hk]
    simp only [List.forall_mem_cons, Node.bare, allBare_eq_self hitems, List.not_mem_nil,
      false_implies, implies_true, and_self]
  · rw [bodyNodes_of_ne o hk]
    simp only [List.forall_mem_cons, Node.bare, bare_snippetNode, List.not_mem_nil,
      false_implies, implies_true, and_self]

theorem bare_entryNode (o : Options) (a : Attribute) : (entryNode o a).bare = entryNode o a := by
  rw [entryNode, Node.bare, allBare_eq_self (bare_bodyNodes o a)]

theorem bare_fragmentTree (o : Options) (as : List Attribute) :
    (fragmentTree o as).bare = fragmentTree o as := by
  cases as with
  | nil => rfl
  | cons a as =>
    refine allBare_eq_self (List.forall_mem_cons.mpr ⟨rfl, fun n hn => ?_⟩)
    obtain ⟨b, -, rfl⟩ := List.mem_map.mp hn
    exact bare_entryNode o b

end Proposal

open Proposal

/-- A schema whose labels and fields try to open and to end directives. -/
def hostileSchema : Schema where
  entity := "Order"
  version := 1
  attributes :=
    [⟨"DueAt", .moment, some "\x7b% endif %\x7d\x7b\x7b Total", none, []⟩,
      ⟨"Owner", .reference, some "Owner", some "Name \x7d\x7d \x7b\x7b Secret", []⟩,
      ⟨"Lines", .collection, some "\x7b\x7b item \x7d\x7d", none,
        [⟨"Cost", .currency, none, none, []⟩, ⟨"no name", .text, none, none, []⟩,
          ⟨"Parts", .collection, none, none, []⟩, ⟨"At", .moment, none, none, []⟩]⟩]

theorem missing_hostileSchema : hostileSchema.missing [] = hostileSchema.attributes := by
  have hr : Tree.referenced [] = [] := by simp [Tree.referenced, Tree.paths, Node.allPathsIn]
  have hf : (hostileSchema.unreferenced []).filter (fun a => isUsable a.name) =
      hostileSchema.attributes := by
    simp only [Schema.unreferenced, hr]
    rfl
  rw [Schema.missing, hf]
  exact List.mergeSort_of_pairwise (by decide)

end Proforma
