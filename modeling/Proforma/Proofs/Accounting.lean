import Proforma.Proofs.Accepting
import Proforma.Proofs.Wellformed

/-!
What becomes of the attributes of a schema. Each of them is read by the template, proposed or
skipped, and only one of these. What is proposed comes group by group, otherwise in the order of the
schema; what is skipped is what no template can read.
-/
namespace Proforma

open Text Proposal

section

variable {α : Type} (key : α → Nat)

/-- A sorted row begins with the members that have the least key. -/
theorem filter_append_of_least {l : List α} (hl : l.Pairwise fun a b => key a ≤ key b) {k : Nat}
    (hk : ∀ a ∈ l, k ≤ key a) :
    l.filter (fun a => key a = k) ++ l.filter (fun a => key a ≠ k) = l := by
  induction l with
  | nil => rfl
  | cons a l ih =>
    obtain ⟨ha, hl⟩ := List.pairwise_cons.mp hl
    obtain ⟨hka, hkl⟩ := List.forall_mem_cons.mp hk
    by_cases he : key a = k
    · rw [List.filter_cons_of_pos (by simpa using he), List.filter_cons_of_neg (by simpa using he),
        List.cons_append, ih hl hkl]
    · -- no later member has the least key either
      have hne : ∀ b ∈ a :: l, key b ≠ k := by
        refine List.forall_mem_cons.mpr ⟨he, fun b hb => ?_⟩
        have hab := ha b hb
        omega
      have hnone : (a :: l).filter (fun b => key b = k) = [] := by
        simpa [List.filter_eq_nil_iff] using hne
      have hall : (a :: l).filter (fun b => key b ≠ k) = a :: l := by
        simpa [List.filter_eq_self] using hne
      rw [hnone, hall, List.nil_append]

/-- A sorted row is made of the members of each key in turn. -/
theorem eq_flatMap_filter {ks : List Nat} (hks : ks.Pairwise (· < ·)) {l : List α}
    (hl : l.Pairwise fun a b => key a ≤ key b) (hk : ∀ a ∈ l, key a ∈ ks) :
    l = ks.flatMap fun k => l.filter fun a => key a = k := by
  induction ks generalizing l with
  | nil =>
    rw [List.flatMap_nil, List.eq_nil_iff_forall_not_mem]
    exact fun a ha => List.not_mem_nil (hk a ha)
  | cons k ks ih =>
    obtain ⟨hfirst, hks⟩ := List.pairwise_cons.mp hks
    have hleast : ∀ a ∈ l, k ≤ key a := by
      intro a ha
      rcases List.mem_cons.mp (hk a ha) with he | hm
      · exact he.ge
      · exact (hfirst _ hm).le
    have hrest : ∀ a ∈ l.filter (fun a => key a ≠ k), key a ∈ ks := by
      intro a ha
      obtain ⟨ha, hne⟩ := List.mem_filter.mp ha
      exact (List.mem_cons.mp (hk a ha)).resolve_left (by simpa using hne)
    have hclass : ∀ k' ∈ ks, (l.filter fun a => key a ≠ k).filter (fun a => key a = k') =
        l.filter fun a => key a = k' := by
      intro k' hk'
      have hne : k' ≠ k := (hfirst k' hk').ne'
      rw [List.filter_filter]
      refine List.filter_congr fun a _ => ?_
      by_cases he : key a = k'
      · simp [he, hne]
      · simp [he]
    rw [List.flatMap_cons, ← List.flatMap_congr hclass, ← ih hks (hl.filter _) hrest,
      filter_append_of_least key hl hleast]

theorem decide_key_trans (a b c : α) (hab : decide (key a ≤ key b) = true)
    (hbc : decide (key b ≤ key c) = true) : decide (key a ≤ key c) = true := by
  rw [decide_eq_true_eq] at *
  exact hab.trans hbc

theorem decide_key_total (a b : α) : (decide (key a ≤ key b) || decide (key b ≤ key a)) = true := by
  simpa using Nat.le_total (key a) (key b)

/-- Sorting keeps the order of the members of a key. -/
theorem filter_mergeSort (l : List α) (k : Nat) :
    (l.mergeSort fun a b => key a ≤ key b).filter (fun a => key a = k) =
      l.filter fun a => key a = k := by
  have hclass : (l.filter fun a => key a = k).Pairwise
      fun a b => decide (key a ≤ key b) = true := by
    refine List.pairwise_of_forall_mem_list fun a ha b hb => ?_
    have hka : key a = k := by simpa using (List.mem_filter.mp ha).2
    have hkb : key b = k := by simpa using (List.mem_filter.mp hb).2
    rw [decide_eq_true_eq, hka, hkb]
  have hsub := (List.sublist_mergeSort (decide_key_trans key) (decide_key_total key)
    hclass List.filter_sublist).filter
    fun a => decide (key a = k)
  rw [List.filter_filter] at hsub
  simp only [Bool.and_self] at hsub
  exact (hsub.eq_of_length ((List.mergeSort_perm l _).filter _).length_eq.symm).symm

/-- A row that is sorted by a key is made of the members of each key in turn, each in the order of
the row. -/
theorem mergeSort_eq_flatMap {ks : List Nat} (hks : ks.Pairwise (· < ·)) {l : List α}
    (hk : ∀ a ∈ l, key a ∈ ks) : (l.mergeSort fun a b => key a ≤ key b) =
      ks.flatMap fun k => l.filter fun a => key a = k := by
  have hsorted : (l.mergeSort fun a b => key a ≤ key b).Pairwise fun a b => key a ≤ key b := by
    simpa using List.pairwise_mergeSort (decide_key_trans key) (decide_key_total key) l
  rw [eq_flatMap_filter key hks hsorted fun a ha => hk a (List.mem_mergeSort.mp ha)]
  exact List.flatMap_congr fun k _ => filter_mergeSort key l k

end

namespace Group

theorem mem_all (g : Group) : g ∈ all := by cases g <;> decide

theorem rank_injective {g h : Group} (he : g.rank = h.rank) : g = h := by
  revert he
  cases g <;> cases h <;> decide

end Group

/-- A path of the record can begin with the name. -/
def NamesAttribute (name : String) : Prop := isIdentifier name.toList = true ∧ name ≠ todayName

instance (name : String) : Decidable (NamesAttribute name) := inferInstanceAs (Decidable (_ ∧ _))

theorem isUsable_iff {name : String} : isUsable name = true ↔ NamesAttribute name := by
  simp [isUsable, NamesAttribute, and_comm]

theorem isUsable_eq_false {name : String} : isUsable name = false ↔ ¬ NamesAttribute name := by
  rw [← isUsable_iff, Bool.not_eq_true]

/-- The paths of a tree stand in its parts. -/
theorem Node.wellFormed_of_mem_paths {ns : List Node} (h : ∀ q ∈ allParts ns, q.WellFormed)
    {bindings : List String} {p : Path × List String} (hp : p ∈ allPathsIn bindings ns) :
    p.1.WellFormed := by
  induction ns using Tree.induction generalizing bindings with
  | nil => simp [allPathsIn] at hp
  | text raw span ns ih =>
    simp only [allParts_cons, List.forall_mem_append] at h
    exact ih h.2 (by simpa [allPathsIn, pathsIn] using hp)
  | expression path calls span ns ih =>
    simp only [allParts_cons, parts, List.forall_mem_append, List.forall_mem_singleton] at h
    rcases List.mem_cons.mp (by simpa [allPathsIn, pathsIn] using hp) with rfl | hp
    · exact h.1.1
    · exact ih h.2 hp
  | conditional path thenNodes span ns ih₁ ih =>
    simp only [allParts_cons, parts, List.forall_mem_append, List.forall_mem_cons] at h
    obtain ⟨⟨hpath, h₁, -⟩, h⟩ := h
    simp only [allPathsIn, pathsIn, List.cons_append, List.mem_cons, List.mem_append] at hp
    rcases hp with rfl | hp | hp
    · exact hpath
    · exact ih₁ h₁ hp
    · exact ih h hp
  | alternative path thenNodes elseNodes span ns ih₁ ih₂ ih =>
    simp only [allParts_cons, parts, List.forall_mem_append, List.forall_mem_cons] at h
    obtain ⟨⟨hpath, h₁, -, h₂, -⟩, h⟩ := h
    simp only [allPathsIn, pathsIn, List.cons_append, List.mem_cons, List.mem_append] at hp
    rcases hp with rfl | (hp | hp) | hp
    · exact hpath
    · exact ih₁ h₁ hp
    · exact ih₂ h₂ hp
    · exact ih h hp
  | loop collection binding body span ns ih₁ ih =>
    simp only [allParts_cons, parts, List.forall_mem_append, List.forall_mem_cons] at h
    obtain ⟨⟨hloop, h₁, -⟩, h⟩ := h
    simp only [allPathsIn, pathsIn, List.cons_append, List.mem_cons, List.mem_append] at hp
    rcases hp with rfl | hp | hp
    · exact hloop.2.2
    · exact ih₁ h₁ hp
    · exact ih h hp

/-- What a template reads of the record are names that a path can begin with. -/
theorem namesAttribute_of_parseChars {source : List Char} {t : Tree}
    (h : parseChars source = .ok t) {name : String} (hn : name ∈ t.referenced) :
    NamesAttribute name := by
  obtain ⟨p, hp, hr⟩ := Tree.mem_referenced.mp hn
  obtain ⟨rfl, ht, -⟩ := Tree.recordHead?_eq_some.mp hr
  exact ⟨(Node.wellFormed_of_mem_paths (wellFormed_of_parseChars h) hp).1, ht⟩

/-- Any such name is read by some template. -/
theorem exists_referenced {name : String} (h : NamesAttribute name) :
    ∃ source t, parse source = .ok t ∧ name ∈ t.referenced := by
  let a : Attribute := ⟨name, .text, none, none, []⟩
  have ha : ∀ b ∈ [a], isUsable b.name = true :=
    List.forall_mem_singleton.mpr (isUsable_iff.mpr h)
  have hm : ¬ ∃ b ∈ [a], ShowsMoment b := by simp [ShowsMoment, a]
  obtain ⟨t, ht, hb⟩ := parseChars_fragmentText (o := .standard)
    (fun b hb => isIdentifier_of_isUsable (ha b hb)) fun h => (hm h).elim
  refine ⟨String.ofList (fragmentText .standard [a]), t, ?_, ?_⟩
  · rw [parse, String.toList_ofList, ht]
  · rw [← Tree.referenced_bare, hb, Tree.referenced_bare, mem_referenced_fragmentTree _ ha]
    exact ⟨a, List.mem_singleton_self _, rfl⟩

namespace Schema

variable {s : Schema} {t : Tree}

/-- What is missing comes group by group, otherwise in the order of the schema. -/
theorem missing_eq_flatMap (s : Schema) (t : Tree) : s.missing t = Group.all.flatMap fun g =>
    s.attributes.filter fun a => a.kind.group = g ∧ NamesAttribute a.name ∧
      a.name ∉ t.referenced := by
  have hranks : ∀ a : Attribute, a.kind.group.rank ∈ Group.all.map Group.rank :=
    fun a => List.mem_map_of_mem a.kind.group.mem_all
  have hincreasing : (Group.all.map Group.rank).Pairwise (· < ·) := by decide
  have hsort := mergeSort_eq_flatMap (fun a : Attribute => a.kind.group.rank) hincreasing
    (l := (s.unreferenced t).filter fun a => isUsable a.name) fun a _ => hranks a
  rw [missing, hsort, List.flatMap_map]
  refine List.flatMap_congr fun g _ => ?_
  rw [unreferenced, List.filter_filter, List.filter_filter]
  refine List.filter_congr fun a _ => ?_
  have hg : a.kind.group.rank = g.rank ↔ a.kind.group = g :=
    ⟨Group.rank_injective, congrArg Group.rank⟩
  simp [hg, ← isUsable_iff, Bool.and_assoc]

/-- Names that a template reads are never skipped, so whatever is skipped is skipped for its name
alone. -/
theorem skipped_eq_filter (h : ∀ name ∈ t.referenced, NamesAttribute name) : s.skipped t =
    (s.attributes.filter fun a => ¬ NamesAttribute a.name).map Attribute.name := by
  rw [skipped, unreferenced, List.filter_filter]
  congr 1
  refine List.filter_congr fun a _ => ?_
  by_cases hu : NamesAttribute a.name
  · simp [isUsable_iff.mpr hu, hu]
  · have hn : a.name ∉ t.referenced := fun hr => hu (h _ hr)
    simp [isUsable_eq_false.mpr hu, hu, hn]

/-- Every attribute is read, missing or skipped. -/
theorem perm_names (s : Schema) (t : Tree) :
    ((s.attributes.filter fun a => a.name ∈ t.referenced).map Attribute.name ++
      (s.missing t).map Attribute.name ++ s.skipped t).Perm (s.attributes.map Attribute.name) := by
  have hmissing : ((s.missing t).map Attribute.name).Perm
      (((s.unreferenced t).filter fun a => isUsable a.name).map Attribute.name) :=
    (List.mergeSort_perm _ _).map _
  have hrest : (((s.unreferenced t).filter fun a => isUsable a.name).map Attribute.name ++
      s.skipped t).Perm ((s.unreferenced t).map Attribute.name) := by
    rw [skipped, ← List.map_append]
    exact (List.filter_append_perm _ _).map _
  have hall : (s.attributes.filter (fun a => a.name ∈ t.referenced) ++ s.unreferenced t).Perm
      s.attributes := by
    unfold unreferenced
    simpa using
      List.filter_append_perm (fun a : Attribute => decide (a.name ∈ t.referenced)) s.attributes
  have hnames := hall.map Attribute.name
  rw [List.map_append] at hnames
  rw [List.append_assoc]
  exact (((hmissing.append_right _).trans hrest).append_left _).trans hnames

end Schema

/-- What a proposal for a tree makes of the attributes of a schema. -/
structure Proposal.Accounts (p : Proposal) (t : Tree) (s : Schema) : Prop where
  shown : p.attributes = (Group.all.flatMap fun g => s.attributes.filter fun a =>
    a.kind.group = g ∧ NamesAttribute a.name ∧ a.name ∉ t.referenced).map .ofAttribute
  skipped : p.skipped =
    (s.attributes.filter fun a => ¬ NamesAttribute a.name).map Attribute.name
  /-- Nothing is lost and nothing is counted twice. -/
  once : ((s.attributes.filter fun a => a.name ∈ t.referenced).map Attribute.name ++
    p.attributes.map ProposedAttribute.name ++ p.skipped).Perm (s.attributes.map Attribute.name)
  shown_not_read : t.referenced.Disjoint (p.attributes.map ProposedAttribute.name)
  skipped_not_read : t.referenced.Disjoint p.skipped
  shown_not_skipped : (p.attributes.map ProposedAttribute.name).Disjoint p.skipped
  /-- What is skipped is what no template can read. -/
  unreadable : ∀ name ∈ s.attributes.map Attribute.name, name ∈ p.skipped ↔
    ∀ source t', parse source = .ok t' → name ∉ t'.referenced

/-- A proposal accounts for every attribute of the schema once. -/
theorem propose_accounts {source : String} {t : Tree} (ht : parse source = .ok t) {s : Schema}
    {o : Options} {p : Proposal} (hp : propose t s o = .ok p) : p.Accounts t s := by
  obtain ⟨f, -, rfl⟩ := propose_eq_ok.mp hp
  have hread : ∀ name ∈ t.referenced, NamesAttribute name :=
    fun name hn => namesAttribute_of_parseChars ht hn
  have hnames : ((s.missing t).map ProposedAttribute.ofAttribute).map ProposedAttribute.name =
      (s.missing t).map Attribute.name := List.map_map
  have hskipped := Schema.skipped_eq_filter (s := s) hread
  have hmem : ∀ name, name ∈ s.skipped t ↔
      name ∈ s.attributes.map Attribute.name ∧ ¬ NamesAttribute name := by
    intro name
    rw [hskipped]
    simp only [List.mem_map, List.mem_filter, decide_eq_true_eq]
    exact ⟨by rintro ⟨a, ⟨ha, hn⟩, rfl⟩; exact ⟨⟨a, ha, rfl⟩, hn⟩,
      by rintro ⟨⟨a, ha, rfl⟩, hn⟩; exact ⟨a, ⟨ha, hn⟩, rfl⟩⟩
  refine ⟨congrArg _ (s.missing_eq_flatMap t), hskipped, ?_, ?_, ?_, ?_, ?_⟩
  · rw [hnames]
    exact s.perm_names t
  · rw [hnames]
    intro name hn hm
    obtain ⟨a, ha, rfl⟩ := List.mem_map.mp hm
    exact (Schema.mem_missing.mp ha).2.1 hn
  · exact fun name hn hm => ((hmem name).mp hm).2 (hread name hn)
  · rw [hnames]
    intro name hm hs
    obtain ⟨a, ha, rfl⟩ := List.mem_map.mp hm
    exact ((hmem _).mp hs).2 (isUsable_iff.mp (isUsable_of_mem_missing a ha))
  · intro name hn
    rw [hmem]
    constructor
    · exact fun hs source' t' ht' hr => hs.2 (namesAttribute_of_parseChars ht' hr)
    · intro hno
      refine ⟨hn, fun hu => ?_⟩
      obtain ⟨source', t', ht', hr⟩ := exists_referenced hu
      exact hno source' t' ht' hr

/-- A schema that repeats names, and has some that no path can begin with. -/
def repeatingSchema : Schema where
  entity := "Order"
  version := 1
  attributes :=
    [⟨"Lines", .collection, none, none, []⟩, ⟨"Total", .currency, none, none, []⟩,
      ⟨"Due Date", .date, none, none, []⟩, ⟨"Memo", .text, some "Note", none, []⟩,
      ⟨todayName, .date, none, none, []⟩, ⟨"Total", .number, none, none, []⟩,
      ⟨"Owner", .reference, none, none, []⟩, ⟨"IssuedOn", .date, none, none, []⟩,
      ⟨"é", .text, none, none, []⟩, ⟨"Memo", .text, none, none, []⟩]

/-- The loop hides the attribute that its variable is called like. -/
def hidingLoop : String :=
  "\x7b% for Memo in Lines %\x7d\x7b\x7b Memo \x7d\x7d\x7b\x7b Owner.Name \x7d\x7d\x7b% endfor %\x7d"

theorem propose_accounts_repeating : ∃ t p, parse hidingLoop = .ok t ∧
    propose t repeatingSchema .standard = .ok p ∧
    p.attributes.map (fun a => (a.name, a.kind)) = [("Memo", .text), ("Memo", .text),
      ("IssuedOn", .date), ("Total", .currency), ("Total", .number)] ∧
    p.skipped = ["Due Date", todayName, "é"] := by
  have hpaths : (parse hidingLoop).toOption.map Tree.paths =
      some [(⟨"Lines", []⟩, []), (⟨"Memo", []⟩, ["Memo"]),
        (⟨"Owner", [.field "Name"]⟩, ["Memo"])] := by decide +kernel
  cases ht : parse hidingLoop with
  | error e => simp [ht, Except.toOption] at hpaths
  | ok t =>
    rw [ht] at hpaths
    have hr : ∀ name, name ∈ t.referenced ↔ name = "Lines" ∨ name = "Owner" := by
      intro name
      rw [Tree.mem_referenced, Option.some.inj hpaths]
      simp [Tree.recordHead?, todayName, eq_comm]
    obtain ⟨p, hp⟩ := (propose_isOk_iff t repeatingSchema .standard).mpr
      fun _ => ⟨by decide +kernel, by decide +kernel⟩
    have ha := propose_accounts ht hp
    refine ⟨t, p, rfl, hp, ?_, ?_⟩
    · rw [ha.shown]
      simp only [hr]
      decide +kernel
    · rw [ha.skipped]
      decide +kernel

end Proforma
