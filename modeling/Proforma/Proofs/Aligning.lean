import Proforma.Proofs.Joining
import Proforma.Proofs.Places

/-!
The same pieces at other places. Read there they make a tree that differs in its places alone, and
the places that a rendering can name are related as those of the pieces are. So the tree of two
sources in a row is made of both trees, each with the places that it has in the whole.
-/
namespace Proforma

open Text

section

variable {α β : Type} {R : α → β → Prop}

theorem exists_of_forall₂_append_cons {xs ys : List α} {y : α} {zs : List β}
    (h : List.Forall₂ R (xs ++ y :: ys) zs) : ∃ xs' y' ys', zs = xs' ++ y' :: ys' ∧
      List.Forall₂ R xs xs' ∧ R y y' ∧ List.Forall₂ R ys ys' := by
  induction xs generalizing zs with
  | nil =>
    cases h with
    | cons hy h => exact ⟨[], _, _, rfl, .nil, hy, h⟩
  | cons x xs ih =>
    cases h with
    | cons hx h =>
      obtain ⟨xs', y', ys', rfl, h₁, hy, h₂⟩ := ih h
      exact ⟨_ :: xs', y', ys', rfl, .cons hx h₁, hy, h₂⟩

end

/-- Rows of nodes that differ in their places alone. The places of expressions and loops, which are
the ones that a rendering can name, are related. -/
inductive Aligned (R : Nat → Nat → Prop) : List Node → List Node → Prop where
  | nil : Aligned R [] []
  | text (raw : String) (span span' : Span) {ns ns' : List Node} (h : Aligned R ns ns') :
    Aligned R (.text raw span :: ns) (.text raw span' :: ns')
  | expression (path : Path) {calls calls' : List FilterCall} {span span' : Span}
    {ns ns' : List Node} (hc : calls.map FilterCall.bare = calls'.map FilterCall.bare)
    (hs : R span.start span'.start) (h : Aligned R ns ns') :
    Aligned R (.expression path calls span :: ns) (.expression path calls' span' :: ns')
  | conditional (path : Path) (span span' : Span) {ns₁ ns₁' ns ns' : List Node}
    (h₁ : Aligned R ns₁ ns₁') (h : Aligned R ns ns') :
    Aligned R (.conditional path ns₁ none span :: ns) (.conditional path ns₁' none span' :: ns')
  | alternative (path : Path) (span span' : Span) {ns₁ ns₁' ns₂ ns₂' ns ns' : List Node}
    (h₁ : Aligned R ns₁ ns₁') (h₂ : Aligned R ns₂ ns₂') (h : Aligned R ns ns') :
    Aligned R (.conditional path ns₁ (some ns₂) span :: ns)
      (.conditional path ns₁' (some ns₂') span' :: ns')
  | loop (collection : Path) (binding : String) {span span' : Span} {ns₁ ns₁' ns ns' : List Node}
    (hs : R span.start span'.start) (h₁ : Aligned R ns₁ ns₁') (h : Aligned R ns ns') :
    Aligned R (.loop collection binding ns₁ span :: ns) (.loop collection binding ns₁' span' :: ns')

/-- Items that differ in their places alone. -/
inductive Item.Aligned (R : Nat → Nat → Prop) : Item → Item → Prop where
  | text (raw : String) (span span' : Span) :
    Aligned R (.leaf (.text raw span)) (.leaf (.text raw span'))
  | expression (path : Path) {calls calls' : List FilterCall} {span span' : Span}
    (hc : calls.map FilterCall.bare = calls'.map FilterCall.bare)
    (hs : R span.start span'.start) :
    Aligned R (.leaf (.expression path calls span)) (.leaf (.expression path calls' span'))
  | directive (d : Directive) {span span' : Span} (hs : R span.start span'.start) :
    Aligned R (.directive d span) (.directive d span')

section

variable {R : Nat → Nat → Prop}

theorem Item.Aligned.exists_directive {d : Directive} {span : Span} {i : Item}
    (h : Item.Aligned R (.directive d span) i) :
    ∃ span', i = .directive d span' ∧ R span.start span'.start := by
  cases h with
  | directive _ hs => exact ⟨_, rfl, hs⟩

/-- Aligned items are made into aligned nodes. -/
theorem Builds.align {is is' : List Item} {ns : List Node} (h : Builds is ns)
    (ha : List.Forall₂ (Item.Aligned R) is is') : ∃ ns', Builds is' ns' ∧ Aligned R ns ns' := by
  induction h generalizing is' with
  | nil =>
    cases ha
    exact ⟨[], .nil, .nil⟩
  | leaf n _ ih =>
    obtain ⟨i, is', hi, hrest, rfl⟩ := List.forall₂_cons_left_iff.mp ha
    obtain ⟨ns', hb, hn⟩ := ih hrest
    cases hi with
    | text raw span span' => exact ⟨_, .leaf _ hb, .text raw span span' hn⟩
    | expression path hc hs => exact ⟨_, .leaf _ hb, .expression path hc hs hn⟩
  | conditional path opening closing _ _ ih₁ ih =>
    obtain ⟨i, is', hi, hblock, rfl⟩ := List.forall₂_cons_left_iff.mp ha
    obtain ⟨opening', rfl, -⟩ := hi.exists_directive
    obtain ⟨is₁, j, is', rfl, hbody, hj, hrest⟩ := exists_of_forall₂_append_cons hblock
    obtain ⟨closing', rfl, -⟩ := hj.exists_directive
    obtain ⟨ns₁, hb₁, hn₁⟩ := ih₁ hbody
    obtain ⟨ns', hb, hn⟩ := ih hrest
    exact ⟨_, .conditional path opening' closing' hb₁ hb, .conditional path _ _ hn₁ hn⟩
  | alternative path opening middle closing _ _ _ ih₁ ih₂ ih =>
    obtain ⟨i, is', hi, hblock, rfl⟩ := List.forall₂_cons_left_iff.mp ha
    obtain ⟨opening', rfl, -⟩ := hi.exists_directive
    obtain ⟨is₁, j, is', rfl, hthen, hj, hother⟩ := exists_of_forall₂_append_cons hblock
    obtain ⟨middle', rfl, -⟩ := hj.exists_directive
    obtain ⟨is₂, k, is', rfl, helse, hk, hrest⟩ := exists_of_forall₂_append_cons hother
    obtain ⟨closing', rfl, -⟩ := hk.exists_directive
    obtain ⟨ns₁, hb₁, hn₁⟩ := ih₁ hthen
    obtain ⟨ns₂, hb₂, hn₂⟩ := ih₂ helse
    obtain ⟨ns', hb, hn⟩ := ih hrest
    exact ⟨_, .alternative path opening' middle' closing' hb₁ hb₂ hb,
      .alternative path _ _ hn₁ hn₂ hn⟩
  | loop binding collection opening closing _ _ ih₁ ih =>
    obtain ⟨i, is', hi, hblock, rfl⟩ := List.forall₂_cons_left_iff.mp ha
    obtain ⟨opening', rfl, hs⟩ := hi.exists_directive
    obtain ⟨is₁, j, is', rfl, hbody, hj, hrest⟩ := exists_of_forall₂_append_cons hblock
    obtain ⟨closing', rfl, -⟩ := hj.exists_directive
    obtain ⟨ns₁, hb₁, hn₁⟩ := ih₁ hbody
    obtain ⟨ns', hb, hn⟩ := ih hrest
    exact ⟨_, .loop binding collection opening' closing' hb₁ hb,
      .loop collection binding hs hn₁ hn⟩

/-- A piece is read as the same item at another place and in another source. -/
theorem align_ofPiece {source : List Char} {start start' : Nat} {c : Chunk} {i : Item}
    (hs : R start start') (h : Item.ofPiece source (c.pieceAt start) = .ok i)
    (source' : List Char) :
    ∃ i', Item.ofPiece source' (c.pieceAt start') = .ok i' ∧ Item.Aligned R i i' := by
  cases c with
  | text raw =>
    obtain rfl := Except.ok.inj h
    exact ⟨_, rfl, .text _ _ _⟩
  | directive d content =>
    cases d with
    | expression =>
      have hr := readExpression_stop (start + Delimiter.width + byteLength content)
        (start' + Delimiter.width + byteLength content) content
      simp only [Chunk.pieceAt, Item.ofPiece] at h ⊢
      cases he : readExpression (start + Delimiter.width + byteLength content) content with
      | error e => simp [he] at h
      | ok found =>
        obtain ⟨path, calls⟩ := found
        simp only [he, Except.ok.injEq] at h
        subst h
        cases he' : readExpression (start' + Delimiter.width + byteLength content) content with
        | error e => simp [he, he', Except.map] at hr
        | ok found =>
          obtain ⟨path', calls'⟩ := found
          obtain ⟨rfl, hc⟩ : path = path' ∧
              calls.map FilterCall.call = calls'.map FilterCall.call := by
            simpa [he, he', Except.map] using hr
          exact ⟨_, rfl, .expression path (FilterCall.map_bare_eq hc) hs⟩
    | tag =>
      simp only [Chunk.pieceAt, Item.ofPiece] at h ⊢
      cases hd : readDirective content with
      | error e => simp [hd] at h
      | ok d =>
        simp only [hd, Except.ok.injEq] at h
        subst h
        exact ⟨_, rfl, .directive d hs⟩

/-- Pieces are read as the same items from another place on. -/
theorem Means.align {source : List Char} {start : Nat} {cs : List Chunk} {is : List Item}
    (h : Means source (placed start cs) is) (source' : List Char) (start' : Nat)
    (hR : ∀ before rest, sourceOf cs = before ++ rest →
      R (start + byteLength before) (start' + byteLength before)) :
    ∃ is', Means source' (placed start' cs) is' ∧ List.Forall₂ (Item.Aligned R) is is' := by
  induction cs generalizing start start' is with
  | nil =>
    cases h
    exact ⟨[], .nil, .nil⟩
  | cons c cs ih =>
    obtain ⟨i, is, hi, hrest, rfl⟩ := List.forall₂_cons_left_iff.mp h
    obtain ⟨i', hi', ha⟩ := align_ofPiece (hR [] _ rfl) hi source'
    obtain ⟨is', h', has⟩ := ih hrest (start' + byteLength c.source) fun before rest hb => by
      have hc := hR (c.source ++ before) rest (by rw [sourceOf_cons, hb, List.append_assoc])
      rwa [byteLength_append, ← Nat.add_assoc, ← Nat.add_assoc] at hc
    exact ⟨i' :: is', .cons hi' h', .cons ha has⟩

end

/-- Two texts are one text. -/
def Item.merge : Item → Item → Option Item
  | leaf n, leaf m => (Node.merge n m).map leaf
  | _, _ => none

theorem Item.merge_directive (d : Directive) (span : Span) (i : Item) :
    merge (.directive d span) i = none ∧ merge i (.directive d span) = none := by
  cases i <;> exact ⟨rfl, rfl⟩

theorem Item.merge_leaf_eq_none {n : Node} (h : n.isText = false) (i : Item) :
    merge (.leaf n) i = none ∧ merge i (.leaf n) = none := by
  cases i with
  | directive d span => exact ⟨rfl, rfl⟩
  | leaf m => simp [merge, Node.merge_eq_none, h]

/-- A directive is read as no text. -/
theorem merge_ofPiece {source : List Char} {start : Nat} {d : Delimiter} {content : List Char}
    {i : Item} (h : Item.ofPiece source (.directive start d content) = .ok i) (j : Item) :
    Item.merge i j = none ∧ Item.merge j i = none := by
  simp only [Item.ofPiece] at h
  split at h
  · split at h
    · obtain rfl := Except.ok.inj h
      exact Item.merge_leaf_eq_none rfl j
    · simp at h
  · split at h
    · obtain rfl := Except.ok.inj h
      exact Item.merge_directive _ _ j
    · simp at h

/-- Pieces that meet are merged where their items are. -/
theorem merge_pieceAt {source : List Char} {start : Nat} {c d : Chunk} {i j : Item}
    (hi : Item.ofPiece source (c.pieceAt start) = .ok i)
    (hj : Item.ofPiece source (d.pieceAt (start + byteLength c.source)) = .ok j) :
    Option.Rel (fun e k => Item.ofPiece source (e.pieceAt start) = .ok k) (Chunk.merge c d)
      (Item.merge i j) := by
  cases c with
  | directive delimiter content =>
    rw [(merge_ofPiece hi j).1]
    exact .none
  | text raw =>
    cases d with
    | directive delimiter content =>
      rw [(merge_ofPiece hj i).2]
      exact .none
    | text raw' =>
      obtain rfl := Except.ok.inj hi
      obtain rfl := Except.ok.inj hj
      refine .some ?_
      simp [Chunk.pieceAt, Item.ofPiece, Nat.add_assoc]

/-- Rows of pieces that meet are read as the rows of their items. -/
theorem Means.join {source : List Char} {start : Nat} {cs ds : List Chunk} {is js : List Item}
    (h : Means source (placed start cs) is)
    (h' : Means source (placed (start + byteLength (sourceOf cs)) ds) js) :
    Means source (placed start (joinChunks cs ds)) (glue Item.merge is js) := by
  unfold joinChunks
  induction cs generalizing start is with
  | nil =>
    cases h
    exact h'
  | cons c cs ih =>
    obtain ⟨i, is, hi, hrest, rfl⟩ := List.forall₂_cons_left_iff.mp h
    rw [sourceOf_cons, byteLength_append, ← Nat.add_assoc] at h'
    cases cs with
    | cons c' cs =>
      have hjoin := ih hrest h'
      cases hrest with
      | cons _ _ => exact .cons hi hjoin
    | nil =>
      cases hrest
      cases ds with
      | nil =>
        cases h'
        exact .cons hi .nil
      | cons d ds =>
        obtain ⟨j, js, hj, hrest', rfl⟩ := List.forall₂_cons_left_iff.mp h'
        have hm := merge_pieceAt hi hj
        unfold glue
        cases hc : Chunk.merge c d with
        | none =>
          rw [hc] at hm
          cases hk : Item.merge i j with
          | none => exact .cons hi (.cons hj hrest')
          | some k => rw [hk] at hm; cases hm
        | some e =>
          rw [hc] at hm
          cases hk : Item.merge i j with
          | none => rw [hk] at hm; cases hm
          | some k =>
            rw [hk] at hm
            cases hm with
            | some he =>
              refine .cons he ?_
              rwa [Chunk.source_merge hc, byteLength_append, ← Nat.add_assoc]

theorem Builds.leaf_cons {j : Item} {m : Node} {js : List Item} {u : Tree}
    (hj : ∀ i, Item.merge i j = none) (hm : m.isText = false) (h : Builds (j :: js) (m :: u))
    (n : Node) : Builds (glue Item.merge [.leaf n] (j :: js)) (glue Node.merge [n] (m :: u)) := by
  simp only [glue, hj, Node.merge_eq_none (.inr hm)]
  exact .leaf n h

theorem Builds.leaf_join {js : List Item} {u : Tree} (h : Builds js u) (n : Node) :
    Builds (glue Item.merge [.leaf n] js) (glue Node.merge [n] u) := by
  have hd : ∀ (d : Directive) (span : Span) (i : Item), Item.merge i (.directive d span) = none :=
    fun d span i => (Item.merge_directive d span i).2
  cases h with
  | nil => exact .leaf n .nil
  | leaf m h =>
    simp only [glue, Item.merge]
    cases Node.merge n m with
    | none => exact .leaf n (.leaf m h)
    | some k => exact .leaf k h
  | conditional path opening closing h₁ h =>
    exact leaf_cons (hd _ _) rfl (.conditional path opening closing h₁ h) n
  | alternative path opening middle closing h₁ h₂ h =>
    exact leaf_cons (hd _ _) rfl (.alternative path opening middle closing h₁ h₂ h) n
  | loop binding collection opening closing h₁ h =>
    exact leaf_cons (hd _ _) rfl (.loop binding collection opening closing h₁ h) n

/-- Rows of items that meet are made into the rows of their nodes. -/
theorem Builds.join {is js : List Item} {t u : Tree} (h : Builds is t) (h' : Builds js u) :
    Builds (glue Item.merge is js) (t.join u) := by
  unfold Tree.join
  induction h with
  | nil => exact h'
  | leaf n h ih =>
    cases h with
    | nil => exact h'.leaf_join n
    | _ => exact .leaf n ih
  | conditional path opening closing h₁ h ih₁ ih =>
    rw [← List.cons_append, glue_after _ (fun i => (Item.merge_directive _ _ i).1),
      glue_cons fun _ m _ => Node.merge_eq_none (.inl rfl)]
    exact .conditional path opening closing h₁ ih
  | alternative path opening middle closing h₁ h₂ _ _ _ ih =>
    rw [← List.cons_append, glue_after _ (fun i => (Item.merge_directive _ _ i).1),
      glue_after _ (fun i => (Item.merge_directive _ _ i).1),
      glue_cons fun _ m _ => Node.merge_eq_none (.inl rfl)]
    exact .alternative path opening middle closing h₁ h₂ ih
  | loop binding collection opening closing h₁ _ _ ih =>
    rw [← List.cons_append, glue_after _ (fun i => (Item.merge_directive _ _ i).1),
      glue_cons fun _ m _ => Node.merge_eq_none (.inl rfl)]
    exact .loop binding collection opening closing h₁ ih

/-- The place in a source is the place in another one that begins at `origin`. -/
def Found (source source' : List Char) (origin : Position) (offset offset' : Nat) : Prop :=
  Position.ofOffset source' offset' = (Position.ofOffset source offset).within origin

theorem found_prefix {before rest source : List Char} (h : source = before ++ rest)
    (source' : List Char) :
    Found source (source ++ source') .start (byteLength before) (byteLength before) := by
  subst h
  unfold Found
  rw [Position.within_start, List.append_assoc, Position.ofOffset_byteLength,
    Position.ofOffset_byteLength]

theorem found_append (source source' : List Char) (n : Nat) :
    Found source' (source ++ source') (.after source) n (byteLength source + n) :=
  Position.ofOffset_append source source' n

/-- Sources in a row are read as their trees in a row, each with the places that it has there. -/
theorem parseChars_join {source source' : List Char} {t u : Tree}
    (h : parseChars source = .ok t) (h' : parseChars source' = .ok u)
    (hs : Seamless source source') :
    ∃ t' u', parseChars (source ++ source') = .ok (Tree.join t' u') ∧
      Aligned (Found source (source ++ source') .start) t t' ∧
      Aligned (Found source' (source ++ source') (.after source)) u u' := by
  obtain ⟨cs, hc, rfl, -⟩ := exists_cut_of_parseChars h
  obtain ⟨ds, hd, rfl, -⟩ := exists_cut_of_parseChars h'
  obtain ⟨is, hm, hb⟩ := (parseChars_iff_builds hc).mp h
  obtain ⟨js, hm', hb'⟩ := (parseChars_iff_builds hd).mp h'
  obtain ⟨is', hmi, hai⟩ := hm.align (sourceOf cs ++ sourceOf ds) 0 fun before rest hb => by
    rw [Nat.zero_add]
    exact found_prefix hb (sourceOf ds)
  obtain ⟨js', hmj, haj⟩ := hm'.align (sourceOf cs ++ sourceOf ds) (byteLength (sourceOf cs))
    fun before _ _ => by
      rw [Nat.zero_add]
      exact found_append (sourceOf cs) (sourceOf ds) (byteLength before)
  obtain ⟨t', hbt, hat⟩ := hb.align hai
  obtain ⟨u', hbu, hau⟩ := hb'.align haj
  have hcut : IsCut (joinChunks cs ds) :=
    hc.join hd fun raw hr d hh => follows_of_seamless hc hd hs hr hh
  refine ⟨t', u', ?_, hat, hau⟩
  rw [← sourceOf_joinChunks] at hmi hmj ⊢
  rw [← Nat.zero_add (byteLength (sourceOf cs))] at hmj
  exact (parseChars_iff_builds hcut).mpr ⟨_, hmi.join hmj, hbt.join hbu⟩

theorem Aligned.bare_eq {R : Nat → Nat → Prop} {ns ns' : List Node} (h : Aligned R ns ns') :
    Node.allBare ns' = Node.allBare ns := by
  induction h with
  | nil => rfl
  | text raw span span' _ ih => simp only [Node.allBare, Node.bare, ih]
  | expression path hc hs _ ih => simp only [Node.allBare, Node.bare, ih, hc]
  | conditional path span span' _ _ ih₁ ih => simp only [Node.allBare, Node.bare, ih, ih₁]
  | alternative path span span' _ _ _ ih₁ ih₂ ih =>
    simp only [Node.allBare, Node.bare, ih, ih₁, ih₂]
  | loop collection binding hs _ _ ih₁ ih => simp only [Node.allBare, Node.bare, ih, ih₁]

theorem Node.allBare_eq_map (ns : List Node) : Node.allBare ns = ns.map Node.bare := by
  induction ns with
  | nil => rfl
  | cons n ns ih => rw [allBare, ih, List.map_cons]

theorem Node.isText_bare (n : Node) : n.bare.isText = n.isText := by
  cases n with
  | conditional path thenNodes elseNodes span => cases elseNodes <;> rfl
  | _ => rfl

theorem Node.merge_bare (n m : Node) :
    Node.merge n.bare m.bare = (Node.merge n m).map Node.bare := by
  by_cases h : n.isText = false ∨ m.isText = false
  · rw [Node.merge_eq_none h, Node.merge_eq_none (by simpa only [isText_bare] using h)]
    rfl
  · cases n with
    | text raw span =>
      cases m with
      | text raw' span' => rfl
      | _ => simp [isText] at h
    | _ => simp [isText] at h

theorem Tree.bare_join (t u : Tree) : (t.join u).bare = glue Node.merge t.bare u.bare := by
  unfold Tree.bare Tree.join
  rw [Node.allBare_eq_map, Node.allBare_eq_map, Node.allBare_eq_map, map_glue Node.merge_bare]

/-- Sources in a row are read as their trees in a row, up to places. -/
theorem parseChars_append {source source' : List Char} {t u : Tree}
    (h : parseChars source = .ok t) (h' : parseChars source' = .ok u)
    (hs : Seamless source source') :
    ∃ v, parseChars (source ++ source') = .ok v ∧ v.bare = (t.join u).bare := by
  obtain ⟨t', u', hv, ht, hu⟩ := parseChars_join h h' hs
  have ht : Tree.bare t' = t.bare := ht.bare_eq
  have hu : Tree.bare u' = u.bare := hu.bare_eq
  exact ⟨_, hv, by rw [Tree.bare_join, ht, hu, Tree.bare_join]⟩

end Proforma
