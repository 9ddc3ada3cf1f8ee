import Proforma.Proofs.Parsing

/-!
Two templates one after the other. Unless a delimiter comes about where they meet, they are read
as the two trees in a row, with the texts that meet made one.
-/
namespace Proforma

open Text

/-- Two rows in one, where the last of the first and the first of the second may be merged. -/
def glue {α : Type} (merge : α → α → Option α) : List α → List α → List α
  | [], ys => ys
  | [x], y :: ys =>
    match merge x y with
    | some z => z :: ys
    | none => x :: y :: ys
  | x :: xs, ys => x :: glue merge xs ys

section

variable {α β : Type} {merge : α → α → Option α}

theorem glue_nil_right (xs : List α) : glue merge xs [] = xs := by
  induction xs with
  | nil => rfl
  | cons x xs ih =>
    cases xs with
    | nil => rfl
    | cons y ys => simp only [glue, ih]

theorem glue_singleton {x y z : α} (h : merge x y = some z) (ys : List α) :
    glue merge [x] (y :: ys) = z :: ys := by
  simp only [glue, h]

theorem glue_append {xs ys : List α} (h : ∀ x, xs.getLast? = some x → ∀ y, ys.head? = some y →
    merge x y = none) : glue merge xs ys = xs ++ ys := by
  induction xs with
  | nil => rfl
  | cons x xs ih =>
    cases xs with
    | nil =>
      cases ys with
      | nil => rfl
      | cons y ys => simp only [glue, h x rfl y rfl, List.cons_append, List.nil_append]
    | cons x' xs =>
      rw [glue, ih fun y hy => h y (by simpa [List.getLast?_cons_cons] using hy)]
      · rfl
      · simp

theorem append_glue (xs : List α) {ys : List α} (hy : ys ≠ []) (zs : List α) :
    glue merge (xs ++ ys) zs = xs ++ glue merge ys zs := by
  induction xs with
  | nil => rfl
  | cons x xs ih =>
    rw [List.cons_append, glue, ih]
    · rfl
    · simp [hy]

theorem glue_cons {x : α} {xs ys : List α}
    (h : xs = [] → ∀ y, ys.head? = some y → merge x y = none) :
    glue merge (x :: xs) ys = x :: glue merge xs ys := by
  cases xs with
  | cons x' xs => rfl
  | nil =>
    cases ys with
    | nil => rfl
    | cons y ys => simp only [glue, h rfl y rfl]

/-- What stands behind something that is not merged. -/
theorem glue_after (xs : List α) {x : α} (h : ∀ y, merge x y = none) (ys zs : List α) :
    glue merge (xs ++ x :: ys) zs = xs ++ x :: glue merge ys zs := by
  rw [append_glue xs (by simp), glue_cons fun _ y _ => h y]

theorem map_glue {merge' : β → β → Option β} {f : α → β}
    (h : ∀ x y, merge' (f x) (f y) = (merge x y).map f) (xs ys : List α) :
    (glue merge xs ys).map f = glue merge' (xs.map f) (ys.map f) := by
  induction xs with
  | nil => rfl
  | cons x xs ih =>
    cases xs with
    | nil =>
      cases ys with
      | nil => rfl
      | cons y ys =>
        simp only [List.map_cons, List.map_nil, glue, h]
        cases merge x y <;> rfl
    | cons x' xs => simpa [glue] using ih

/-- What is collected from two rows is collected from the row of both. -/
theorem flatMap_glue {f : α → List β} (h : ∀ x y z, merge x y = some z → f z = f x ++ f y)
    (xs ys : List α) : (glue merge xs ys).flatMap f = xs.flatMap f ++ ys.flatMap f := by
  induction xs with
  | nil => rfl
  | cons x xs ih =>
    cases xs with
    | nil =>
      cases ys with
      | nil => simp [glue]
      | cons y ys =>
        cases hm : merge x y with
        | none => simp [glue, hm]
        | some z => simp [glue, hm, h x y z hm]
    | cons x' xs =>
      simp only [glue, List.flatMap_cons, List.append_assoc] at ih ⊢
      rw [ih]

end

namespace Chunk

/-- Two texts are one text. -/
def merge : Chunk → Chunk → Option Chunk
  | text raw, text raw' => some (text (raw ++ raw'))
  | _, _ => none

/-- The piece can follow the text. -/
def Follows (raw : List Char) : Chunk → Prop
  | text raw' => Unopened (raw ++ raw')
  | directive .. => raw.getLast? ≠ some '{'

end Chunk

def Node.merge : Node → Node → Option Node
  | text raw span, text raw' span' => some (text (raw ++ raw') ⟨span.start, span'.stop⟩)
  | _, _ => none

/-- Two trees in a row. -/
def Tree.join (t u : Tree) : Tree := glue Node.merge t u

def joinChunks (cs ds : List Chunk) : List Chunk := glue Chunk.merge cs ds

theorem Chunk.source_merge {c d e : Chunk} (h : merge c d = some e) :
    e.source = c.source ++ d.source := by
  cases c with
  | directive _ _ => simp [merge] at h
  | text raw =>
    cases d with
    | directive _ _ => simp [merge] at h
    | text raw' =>
      obtain rfl := by simpa [merge] using h
      rfl

theorem sourceOf_joinChunks (cs ds : List Chunk) :
    sourceOf (joinChunks cs ds) = sourceOf cs ++ sourceOf ds :=
  flatMap_glue (fun _ _ _ => Chunk.source_merge) cs ds

theorem isCut_append {cs ds : List Chunk} : IsCut (cs ++ ds) ↔ IsCut cs ∧ IsCut ds ∧
    ∀ c, cs.getLast? = some c → ∀ d, ds.head? = some d → c.EndsBefore d := by
  constructor
  · intro h
    obtain ⟨hc, hd, hs⟩ := List.isChain_append.mp h.order
    exact ⟨⟨fun c hm => h.sound c (List.mem_append_left _ hm), hc⟩,
      ⟨fun d hm => h.sound d (List.mem_append_right _ hm), hd⟩, hs⟩
  · rintro ⟨hc, hd, hs⟩
    exact ⟨List.forall_mem_append.mpr ⟨hc.sound, hd.sound⟩,
      List.isChain_append.mpr ⟨hc.order, hd.order, hs⟩⟩

/-- A text can be longer at its beginning. -/
theorem IsCut.text_append {raw raw' : List Char} {cs : List Chunk}
    (h : IsCut (.text raw' :: cs)) (hu : Unopened (raw ++ raw')) :
    IsCut (.text (raw ++ raw') :: cs) := by
  have hr : raw' ≠ [] := (h.sound _ (List.mem_cons_self ..)).1
  refine ⟨List.forall_mem_cons.mpr ⟨⟨by simp [hr], hu⟩, h.tail.sound⟩, h.order.tail.cons ?_⟩
  intro c hc
  obtain ⟨cs', rfl⟩ := List.head?_eq_some_iff.mp hc
  cases c with
  | text _ => exact h.order.rel.elim
  | directive d content =>
    have hl : raw'.getLast? ≠ some '{' := h.order.rel
    show (raw ++ raw').getLast? ≠ some '{'
    rwa [List.getLast?_append_of_ne_nil _ hr]

/-- Two cuts make one, if the pieces that meet can follow each other. -/
theorem IsCut.join {cs ds : List Chunk} (h : IsCut cs) (h' : IsCut ds)
    (hs : ∀ raw, cs.getLast? = some (.text raw) → ∀ d, ds.head? = some d → d.Follows raw) :
    IsCut (joinChunks cs ds) := by
  unfold joinChunks
  rcases List.eq_nil_or_concat cs with rfl | ⟨before, c, rfl⟩
  · exact h'
  · rw [List.concat_eq_append] at h hs ⊢
    rw [append_glue before (by simp)]
    cases ds with
    | nil => rwa [glue_nil_right]
    | cons d ds =>
      obtain ⟨hb, hc, he⟩ := isCut_append.mp h
      -- what follows `before` still begins with the kind of piece it began with
      cases c with
      | directive e content =>
        rw [glue_append (by simp [Chunk.merge])]
        refine isCut_append.mpr ⟨hb, isCut_append.mpr ⟨hc, h', ?_⟩, he⟩
        intro c hc _ _
        obtain rfl := by simpa using hc
        trivial
      | text raw =>
        have hf := hs raw (by simp) d rfl
        cases d with
        | text raw' =>
          rw [glue_singleton rfl]
          refine isCut_append.mpr ⟨hb, h'.text_append hf, fun c hc d hd => ?_⟩
          have hcd := he c hc (.text raw) rfl
          obtain rfl := by simpa using hd
          cases c with
          | text _ => exact hcd.elim
          | directive _ _ => trivial
        | directive e content =>
          rw [glue_append (by simp [Chunk.merge])]
          refine isCut_append.mpr ⟨hb, isCut_append.mpr ⟨hc, h', ?_⟩, he⟩
          intro c hc d hd
          obtain rfl := by simpa using hc
          obtain rfl := by simpa using hd
          exact hf

theorem Node.merge_eq_none {n m : Node} (h : n.isText = false ∨ m.isText = false) :
    Node.merge n m = none := by
  cases n with
  | text raw span =>
    cases m with
    | text raw' span' => simp [isText] at h
    | _ => rfl
  | _ => rfl

theorem Node.exists_of_merge {n m k : Node} (h : Node.merge n m = some k) :
    ∃ raw raw' span span', n = .text raw span ∧ m = .text raw' span' ∧
      k = .text (raw ++ raw') ⟨span.start, span'.stop⟩ := by
  cases n with
  | text raw span =>
    cases m with
    | text raw' span' =>
      exact ⟨raw, raw', span, span', rfl, rfl, by simpa [Node.merge] using h.symm⟩
    | _ => simp [Node.merge] at h
  | _ => simp [Node.merge] at h

/-- No delimiter comes about where the texts meet. -/
def Seamless (source source' : List Char) : Prop :=
  ∀ d : Delimiter, source.getLast? = some '{' → source'.head? ≠ d.opener[1]?

theorem follows_of_seamless {cs ds : List Chunk} (hc : IsCut cs) (hd : IsCut ds)
    (hs : Seamless (sourceOf cs) (sourceOf ds)) {raw : List Char}
    (hr : cs.getLast? = some (.text raw)) {d : Chunk} (hh : ds.head? = some d) : d.Follows raw := by
  obtain ⟨before, rfl⟩ := List.getLast?_eq_some_iff.mp hr
  obtain ⟨after, rfl⟩ := List.head?_eq_some_iff.mp hh
  have ht : raw ≠ [] ∧ Unopened raw := hc.sound (.text raw) (by simp)
  have hl : (sourceOf (before ++ [.text raw])).getLast? = raw.getLast? := by
    simp [List.getLast?_append_of_ne_nil _ ht.1]
  cases d with
  | directive e content =>
    intro hb
    refine hs .expression (hl.trans hb) ?_
    cases e <;> rfl
  | text raw' =>
    have ht' : raw' ≠ [] ∧ Unopened raw' := hd.sound (.text raw') (by simp)
    refine unopened_append.mpr ⟨ht.2, ht'.2, fun e hb he => hs e (hl.trans hb) ?_⟩
    rw [sourceOf_cons, Chunk.source_text, List.head?_append_of_ne_nil _ ht'.1, he]

theorem Tree.paths_join (t u : Tree) : (t.join u).paths = t.paths ++ u.paths := by
  simp only [Tree.paths, Node.allPathsIn_eq]
  refine flatMap_glue (fun n m k h => ?_) t u
  obtain ⟨_, _, _, _, rfl, rfl, rfl⟩ := Node.exists_of_merge h
  simp [Node.pathsIn]

theorem Tree.mem_referenced_join {t u : Tree} {name : String} :
    name ∈ (t.join u).referenced ↔ name ∈ t.referenced ∨ name ∈ u.referenced := by
  simp only [mem_referenced, paths_join, List.mem_append, or_and_right, exists_or]

end Proforma
