import Proforma.Proofs.Noninterference

/-!
A field that is null is as good as none. Taking all such fields out of a record, at every depth,
leaves values that no path tells from the ones before, so the rendering stays; and no path in any
scope ends at a null.
-/
namespace Proforma

namespace Value

mutual

/-- The value without the fields that are null, at any depth. Null items of sequences stay. -/
def pruned : Value → Value
  | scalar s => scalar s
  | sequence items => sequence (prunedItems items)
  | object fields => object (prunedFields fields)

def prunedItems : List Value → List Value
  | [] => []
  | v :: vs => v.pruned :: prunedItems vs

/-- The first field of a name counts, so a null field takes those that it hides with it. -/
def prunedFields : List (String × Value) → List (String × Value)
  | [] => []
  | (name, v) :: fields =>
    if v.isNull then (prunedFields fields).filter fun f => f.1 != name
    else (name, v.pruned) :: prunedFields fields

end

theorem prunedItems_eq_map (items : List Value) : prunedItems items = items.map pruned := by
  induction items with
  | nil => rfl
  | cons v vs ih => rw [prunedItems, List.map_cons, ih]

theorem isNull_pruned (v : Value) : v.pruned.isNull = v.isNull := by
  cases v <;> rfl

theorem shape_pruned (v : Value) : v.pruned.shape = v.shape := by
  cases v with
  | scalar s => rfl
  | sequence items => simp only [pruned, shape, prunedItems_eq_map, List.length_map]
  | object fields => rfl

theorem presentOnly_some (v : Value) :
    presentOnly (some v) = if v.isNull then none else some v := by
  unfold presentOnly
  rw [Option.filter_some]
  cases v.isNull <;> rfl

theorem presentOnly_map_pruned (v : Option Value) :
    presentOnly (v.map pruned) = (presentOnly v).map pruned := by
  cases v with
  | none => rfl
  | some v =>
    rw [Option.map_some, presentOnly_some, presentOnly_some, isNull_pruned]
    split <;> rfl

/-- A field is left exactly if it is there and not null. -/
theorem lookup_prunedFields (name : String) (fields : List (String × Value)) :
    (prunedFields fields).lookup name = (presentOnly (fields.lookup name)).map pruned := by
  induction fields with
  | nil => rfl
  | cons field fields ih =>
    obtain ⟨key, v⟩ := field
    rw [prunedFields, List.lookup_cons]
    by_cases hk : name = key
    · subst hk
      rw [beq_self_eq_true, presentOnly_some]
      split
      · rw [lookup_filter_ne, if_pos rfl]
        rfl
      · rw [List.lookup_cons, beq_self_eq_true]
        rfl
    · rw [beq_false_of_ne hk]
      split
      · rw [lookup_filter_ne, if_neg hk, ih]
      · rw [List.lookup_cons, beq_false_of_ne hk, ih]

example : pruned (.object [("Paid", .scalar .null),
    ("Lines", .sequence [.scalar .null, .object [("Note", .scalar .null)]])]) =
      .object [("Lines", .sequence [.scalar .null, .object []])] := rfl

/-- One step inside a pruned value leads to what the same step found before, pruned. -/
theorem get?_pruned (v : Value) (s : Segment) : v.pruned.get? s = (v.get? s).map pruned := by
  cases s with
  | field name =>
    cases v with
    | object fields =>
      show presentOnly ((prunedFields fields).lookup name) = _
      rw [lookup_prunedFields, presentOnly_map_pruned]
      simp [Value.get?, presentOnly, Option.filter_filter]
    | scalar _ | sequence _ => rfl
  | index n =>
    cases v with
    | sequence items =>
      show presentOnly (prunedItems items)[n]? = _
      rw [prunedItems_eq_map, List.getElem?_map, presentOnly_map_pruned]
      rfl
    | scalar _ | object _ => rfl

theorem lookup?_pruned (v : Value) (steps : List Segment) :
    v.pruned.lookup? steps = (v.lookup? steps).map pruned := by
  induction steps generalizing v with
  | nil => rfl
  | cons s steps ih =>
    rw [lookup?_cons, lookup?_cons, get?_pruned]
    cases v.get? s with
    | none => rfl
    | some w => exact ih w

theorem pruned_alike (v : Value) : v.pruned.Alike v := by
  intro steps
  rw [lookup?_pruned, Option.map_map]
  exact congrArg (Option.map · _) (funext shape_pruned)

theorem presentOnly_ne_null (v : Option Value) : presentOnly v ≠ some (.scalar .null) := by
  intro h
  obtain ⟨-, hn⟩ := Option.filter_eq_some_iff.mp h
  simp [isNull] at hn

theorem get?_ne_null (v : Value) (s : Segment) : v.get? s ≠ some (.scalar .null) := by
  cases s with
  | field name =>
    cases v with
    | object fields => exact presentOnly_ne_null _
    | scalar _ | sequence _ => simp [Value.get?]
  | index n =>
    cases v with
    | sequence items => exact presentOnly_ne_null _
    | scalar _ | object _ => simp [Value.get?]

/-- A path that starts at a value ends at a value, or nowhere. -/
theorem lookup?_ne_null {v : Value} (hv : v ≠ .scalar .null) (steps : List Segment) :
    v.lookup? steps ≠ some (.scalar .null) := by
  induction steps generalizing v with
  | nil => simpa [lookup?_nil] using hv
  | cons s steps ih =>
    rw [lookup?_cons]
    cases hg : v.get? s with
    | none => simp
    | some w =>
      have hw : w ≠ .scalar .null := by
        rintro rfl
        exact v.get?_ne_null s hg
      exact ih hw

end Value

namespace Scope

theorem root?_ne_null (s : Scope) (name : String) : s.root? name ≠ some (.scalar .null) := by
  unfold root?
  split
  · exact Value.presentOnly_ne_null _
  · split
    · simp [Context.todayValue]
    · exact Value.get?_ne_null _ _

theorem resolve_ne_null (s : Scope) (p : Path) : s.resolve p ≠ some (.scalar .null) := by
  unfold resolve
  cases hr : s.root? p.head with
  | none => simp
  | some v =>
    have hv : v ≠ .scalar .null := by
      rintro rfl
      exact s.root?_ne_null p.head hr
    exact Value.lookup?_ne_null hv p.tail

end Scope

/-- A record renders as it does without its null fields, text and diagnostics alike, and no path is
ever resolved to a null. -/
theorem render_pruned (t : Tree) (source : List Char) (record : Value) (today : Moment)
    (format : Format) :
    render t source ⟨record.pruned, today⟩ format = render t source ⟨record, today⟩ format ∧
      ∀ (s : Scope) (p : Path), s.resolve p ≠ some (.scalar .null) := by
  constructor
  · refine render_eq_of_agreeOn ?_ source today format
    intro name _
    exact record.pruned_alike.get? (.field name)
  · exact Scope.resolve_ne_null

end Proforma
