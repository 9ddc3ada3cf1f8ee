import Proforma.Template.Directive

/-!
Rows of nodes: one induction for all of them, the tree without its places, and the parts that a
tree is written in.
-/
namespace Proforma

open Text

theorem ok_bind {ε α β : Type} (a : α) (f : α → Except ε β) :
    ((Except.ok a : Except ε α) >>= f) = f a := rfl

theorem bind_eq_ok {ε α β : Type} {x : Except ε α} {f : α → Except ε β} {b : β} :
    x >>= f = .ok b ↔ ∃ a, x = .ok a ∧ f a = .ok b := by
  cases x with
  | error e => simp [bind, Except.bind]
  | ok a => simp [ok_bind]

theorem isOk_iff {ε α : Type} {x : Except ε α} : x.isOk = true ↔ ∃ a, x = .ok a := by
  cases x <;> simp [Except.isOk, Except.toBool]

theorem toOption_eq_some {ε α : Type} {x : Except ε α} {a : α} :
    x.toOption = some a ↔ x = .ok a := by
  cases x <;> simp [Except.toOption]

/-- A run that fails does so at one of its steps, after a part that does not fail. -/
theorem exists_of_foldlM_eq_error {ε α β : Type} {f : β → α → Except ε β} {as : List α} {b : β}
    {e : ε} (h : as.foldlM f b = .error e) : ∃ before a after b',
      as = before ++ a :: after ∧ before.foldlM f b = .ok b' ∧ f b' a = .error e := by
  induction as generalizing b with
  | nil => simp [pure, Except.pure] at h
  | cons a as ih =>
    rw [List.foldlM_cons] at h
    cases ha : f b a with
    | error e' =>
      rw [ha] at h
      exact ⟨[], a, as, b, rfl, rfl, ha.trans h⟩
    | ok b₁ =>
      rw [ha, ok_bind] at h
      obtain ⟨before, a', after, b', rfl, hb, he⟩ := ih h
      exact ⟨a :: before, a', after, b', rfl, by rw [List.foldlM_cons, ha, ok_bind, hb], he⟩

/-- What is found under a name once another name, or this one, has been taken out. -/
theorem lookup_filter_ne {κ α : Type} [DecidableEq κ] (other name : κ) (entries : List (κ × α)) :
    (entries.filter fun e => e.1 != other).lookup name =
      if name = other then none else entries.lookup name := by
  induction entries with
  | nil => simp
  | cons entry entries ih =>
    obtain ⟨key, a⟩ := entry
    by_cases hk : key = other
    · subst hk
      rw [List.filter_cons_of_neg (by simp), ih]
      split
      · rfl
      · next hn => rw [List.lookup_cons, beq_false_of_ne hn]
    · rw [List.filter_cons_of_pos (by simpa using hk), List.lookup_cons, List.lookup_cons, ih]
      by_cases hn : name = key
      · subst hn
        simp [hk]
      · rw [beq_false_of_ne hn]

/-- Induction over a row of nodes: what is inside the first node, then the nodes after it. -/
@[elab_as_elim] theorem Tree.induction {motive : List Node → Prop} (nil : motive [])
    (text : ∀ raw span ns, motive ns → motive (.text raw span :: ns))
    (expression : ∀ path calls span ns, motive ns → motive (.expression path calls span :: ns))
    (conditional : ∀ path thenNodes span ns, motive thenNodes → motive ns →
      motive (.conditional path thenNodes none span :: ns))
    (alternative : ∀ path thenNodes elseNodes span ns, motive thenNodes → motive elseNodes →
      motive ns → motive (.conditional path thenNodes (some elseNodes) span :: ns))
    (loop : ∀ collection binding body span ns, motive body → motive ns →
      motive (.loop collection binding body span :: ns)) : ∀ t, motive t
  | [] => nil
  | .text raw span :: ns =>
    text raw span ns
      (Tree.induction nil text expression conditional alternative loop ns)
  | .expression path calls span :: ns =>
    expression path calls span ns
      (Tree.induction nil text expression conditional alternative loop ns)
  | .conditional path thenNodes none span :: ns =>
    conditional path thenNodes span ns
      (Tree.induction nil text expression conditional alternative loop thenNodes)
      (Tree.induction nil text expression conditional alternative loop ns)
  | .conditional path thenNodes (some elseNodes) span :: ns =>
    alternative path thenNodes elseNodes span ns
      (Tree.induction nil text expression conditional alternative loop thenNodes)
      (Tree.induction nil text expression conditional alternative loop elseNodes)
      (Tree.induction nil text expression conditional alternative loop ns)
  | .loop collection binding body span :: ns =>
    loop collection binding body span ns
      (Tree.induction nil text expression conditional alternative loop body)
      (Tree.induction nil text expression conditional alternative loop ns)

theorem Node.allPathsIn_eq (bindings : List String) (t : List Node) :
    Node.allPathsIn bindings t = t.flatMap (Node.pathsIn bindings) := by
  induction t with
  | nil => simp [Node.allPathsIn]
  | cons n t ih => simp [Node.allPathsIn, ih]

theorem Node.allPathsIn_append (bindings : List String) (t u : List Node) :
    Node.allPathsIn bindings (t ++ u) =
      Node.allPathsIn bindings t ++ Node.allPathsIn bindings u := by
  simp only [allPathsIn_eq, List.flatMap_append]

theorem Tree.mem_referenced {t : Tree} {name : String} :
    name ∈ t.referenced ↔ ∃ p ∈ t.paths, recordHead? p = some name := by
  simp [referenced]

theorem Tree.recordHead?_eq_some {q : Path × List String} {name : String} :
    recordHead? q = some name ↔ q.1.head = name ∧ name ≠ todayName ∧ name ∉ q.2 := by
  unfold recordHead?
  split
  · next h =>
    constructor
    · simp
    · rintro ⟨rfl, ht, hb⟩
      exact (h.elim ht hb).elim
  · next h =>
    rw [Option.some.injEq]
    constructor
    · rintro rfl
      exact ⟨rfl, fun ht => h (.inl ht), fun hb => h (.inr hb)⟩
    · exact fun hn => hn.1

def Text.Span.zero : Span := ⟨0, 0⟩

def FilterCall.bare (call : FilterCall) : FilterCall := { call with span := .zero }

mutual

/-- A node without its places in the source. -/
def Node.bare : Node → Node
  | .text raw _ => .text raw .zero
  | .expression path calls _ => .expression path (calls.map FilterCall.bare) .zero
  | .conditional path thenNodes none _ => .conditional path (Node.allBare thenNodes) none .zero
  | .conditional path thenNodes (some elseNodes) _ =>
    .conditional path (Node.allBare thenNodes) (some (Node.allBare elseNodes)) .zero
  | .loop collection binding body _ => .loop collection binding (Node.allBare body) .zero

def Node.allBare : List Node → List Node
  | [] => []
  | n :: ns => n.bare :: Node.allBare ns

end

/-- A tree without its places in the source. -/
def Tree.bare (t : Tree) : Tree := Node.allBare t

/-- Bare trees read the same paths. -/
theorem Node.allPathsIn_bare (t : Tree) (bindings : List String) :
    Node.allPathsIn bindings t.bare = Node.allPathsIn bindings t := by
  unfold Tree.bare
  induction t using Tree.induction generalizing bindings with
  | nil => rfl
  | text raw span ns ih => simp [Node.allBare, Node.bare, allPathsIn, pathsIn, ih]
  | expression path calls span ns ih => simp [Node.allBare, Node.bare, allPathsIn, pathsIn, ih]
  | conditional path thenNodes span ns ih₁ ih =>
    simp [Node.allBare, Node.bare, allPathsIn, pathsIn, ih₁, ih]
  | alternative path thenNodes elseNodes span ns ih₁ ih₂ ih =>
    simp [Node.allBare, Node.bare, allPathsIn, pathsIn, ih₁, ih₂, ih]
  | loop collection binding body span ns ih₁ ih =>
    simp [Node.allBare, Node.bare, allPathsIn, pathsIn, ih₁, ih]

theorem Tree.referenced_bare (t : Tree) : t.bare.referenced = t.referenced := by
  simp only [referenced, paths, Node.allPathsIn_bare]

/-- A filter call without its place. -/
abbrev Call := Filter × List Literal

def FilterCall.call (c : FilterCall) : Call := (c.filter, c.args)

/-- What a template is written in, one part after the other. -/
inductive Part where
  | text (raw : String)
  | expression (path : Path) (calls : List Call)
  | directive (directive : Directive)
  deriving DecidableEq, Repr

mutual

/-- The parts of a node in the order in which they are written. -/
def Node.parts : Node → List Part
  | .text raw _ => [.text raw]
  | .expression path calls _ => [.expression path (calls.map FilterCall.call)]
  | .conditional path thenNodes none _ =>
    .directive (.openIf path) :: (Node.allParts thenNodes ++ [.directive .closeIf])
  | .conditional path thenNodes (some elseNodes) _ =>
    .directive (.openIf path) :: (Node.allParts thenNodes ++
      .directive .middle :: (Node.allParts elseNodes ++ [.directive .closeIf]))
  | .loop collection binding body _ =>
    .directive (.openFor binding collection) ::
      (Node.allParts body ++ [.directive .closeFor])

def Node.allParts : List Node → List Part
  | [] => []
  | n :: ns => n.parts ++ Node.allParts ns

end

def Tree.parts (t : Tree) : List Part := Node.allParts t

theorem Tree.parts_cons (n : Node) (t : Tree) : Tree.parts (n :: t) = n.parts ++ t.parts := rfl

theorem Tree.parts_append (t u : Tree) : parts (t ++ u) = parts t ++ parts u := by
  induction t with
  | nil => rfl
  | cons n t ih => rw [List.cons_append, parts_cons, parts_cons, ih, List.append_assoc]

end Proforma
