import Mathlib.Data.List.TakeWhile
import Proforma.Proofs.Alike
import Proforma.Proofs.Containment

/-!
Missing values in pipelines. Only `default` makes a value out of a missing one, and no filter loses
a value without an error. So a path is reported as unresolved exactly where it is missing and no
`default` stands in its pipeline.
-/
namespace Proforma

open Text

def FilterCall.isDefault (call : FilterCall) : Bool := call.filter == .default

/-- The part of a pipeline that begins with its first `default`. -/
def fromDefault (calls : List FilterCall) : List FilterCall := calls.dropWhile (!·.isDefault)

theorem applyAll_cons (format : Format) (call : FilterCall) (calls : List FilterCall)
    (r : Resolved) : applyAll format (call :: calls) r =
      call.filter.apply format call.args r >>= applyAll format calls := List.foldlM_cons

theorem applyAll_append (format : Format) (calls calls' : List FilterCall) (r : Resolved) :
    applyAll format (calls ++ calls') r =
      applyAll format calls r >>= applyAll format calls' := List.foldlM_append

theorem ne_default_of_isDefault {call : FilterCall} (h : call.isDefault = false) :
    call.filter ≠ .default := by
  simpa [FilterCall.isDefault] using h

/-- Formatters hand on what is missing and what is an empty text. -/
theorem applyAll_of_formatters {calls : List FilterCall}
    (h : ∀ call ∈ calls, call.isDefault = false) (format : Format) {r : Resolved}
    (hr : r = none ∨ r = some (.text "")) : applyAll format calls r = .ok r := by
  induction calls with
  | nil => rfl
  | cons call calls ih =>
    obtain ⟨hc, hcs⟩ := List.forall_mem_cons.mp h
    have hf := ne_default_of_isDefault hc
    have happly : call.filter.apply format call.args r = .ok r := by
      rcases hr with rfl | rfl
      · cases hk : call.filter with
        | default => exact absurd hk hf
        | _ => rfl
      · exact Filter.apply_of_isEmptyText hf format call.args rfl
    rw [applyAll_cons, happly, ok_bind, ih hcs]

theorem applyAll_none (format : Format) (calls : List FilterCall) :
    applyAll format calls none = applyAll format (fromDefault calls) none := by
  have hsplit : applyAll format calls none =
      applyAll format (calls.takeWhile (!·.isDefault)) none >>=
        applyAll format (fromDefault calls) := by
    rw [← applyAll_append, fromDefault, List.takeWhile_append_dropWhile]
  have hfront : ∀ call ∈ calls.takeWhile (!·.isDefault), call.isDefault = false := by
    intro call hc
    simpa using List.mem_takeWhile_imp hc
  rw [hsplit, applyAll_of_formatters hfront format (.inl rfl), ok_bind]

/-- A `default` always leaves a value. -/
theorem exists_applyDefault (args : List Literal) (r : Resolved) :
    ∃ w, applyDefault args r = some w := by
  unfold applyDefault
  split
  · exact ⟨_, rfl⟩
  · next h =>
    cases r with
    | none => exact absurd rfl h
    | some v => exact ⟨v, rfl⟩

/-- A filter on a value gives a value, or an error with its own name. -/
theorem Filter.apply_value (f : Filter) (format : Format) (args : List Literal) (v : Value) :
    (∃ w, f.apply format args (some v) = .ok (some w)) ∨
      ∃ fault, f.apply format args (some v) = .error ⟨f, fault⟩ := by
  by_cases hf : f = .default
  · subst hf
    obtain ⟨w, hw⟩ := exists_applyDefault args (some v)
    exact .inl ⟨w, congrArg Except.ok hw⟩
  cases he : Resolved.isEmptyText (some v) with
  | true => exact .inl ⟨v, apply_of_isEmptyText hf format args he⟩
  | false =>
    rw [apply_some hf format args he]
    cases f.applyPresent format args v with
    | ok w => exact .inl ⟨w, rfl⟩
    | error fault => exact .inr ⟨fault, rfl⟩

theorem ne_none_of_applyAll {format : Format} {calls : List FilterCall} {v : Value} {r : Resolved}
    (h : applyAll format calls (some v) = .ok r) : ∃ w, r = some w := by
  induction calls generalizing v with
  | nil => exact ⟨v, (Except.ok.inj h).symm⟩
  | cons call calls ih =>
    rw [applyAll_cons] at h
    rcases call.filter.apply_value format call.args v with ⟨w, hw⟩ | ⟨fault, hf⟩
    · rw [hw, ok_bind] at h
      exact ih h
    · rw [hf] at h
      cases h

/-- A pipeline on a value gives a value, or the error of the first filter that rejects what it is
given, which is a value again. -/
theorem applyAll_some (format : Format) (calls : List FilterCall) (v : Value) :
    (∃ w, applyAll format calls (some v) = .ok (some w)) ∨
      ∃ before call after w fault, calls = before ++ call :: after ∧
        applyAll format before (some v) = .ok (some w) ∧
        call.filter.apply format call.args (some w) = .error ⟨call.filter, fault⟩ ∧
        applyAll format calls (some v) = .error ⟨call.filter, fault⟩ := by
  cases h : applyAll format calls (some v) with
  | ok r =>
    obtain ⟨w, rfl⟩ := ne_none_of_applyAll h
    exact .inl ⟨w, rfl⟩
  | error e =>
    obtain ⟨before, call, after, r, rfl, hb, hc⟩ := exists_of_foldlM_eq_error h
    obtain ⟨w, rfl⟩ := ne_none_of_applyAll hb
    rcases call.filter.apply_value format call.args w with ⟨w', hw⟩ | ⟨fault, hf⟩
    · rw [hw] at hc
      cases hc
    · obtain rfl := Except.error.inj (hf.symm.trans hc)
      exact .inr ⟨before, call, after, w, fault, rfl, hb, hf, rfl⟩

/-- A pipeline with a `default` leaves a value, or fails after it. -/
theorem applyAll_ne_none {calls : List FilterCall} (h : ∃ call ∈ calls, call.isDefault = true)
    (format : Format) (r : Resolved) : applyAll format calls r ≠ .ok none := by
  obtain ⟨call, hc, hd⟩ := h
  obtain ⟨before, after, rfl⟩ := List.append_of_mem hc
  intro hn
  rw [applyAll_append] at hn
  obtain ⟨r', -, hn⟩ := bind_eq_ok.mp hn
  have hcall : call.filter = .default := by simpa [FilterCall.isDefault] using hd
  obtain ⟨w, hw⟩ := exists_applyDefault call.args r'
  rw [applyAll_cons, hcall] at hn
  obtain ⟨w', hw'⟩ := ne_none_of_applyAll (show applyAll format after (some w) = .ok none from
    hw ▸ hn)
  cases hw'

/-- The outcome is a missing value only where one goes in and nothing takes its place. -/
theorem evaluate_eq_none_iff {format : Format} {s : Scope} {p : Path} {calls : List FilterCall} :
    evaluate format s p calls = .ok none ↔
      s.resolve p = none ∧ ∀ call ∈ calls, call.isDefault = false := by
  constructor
  · intro h
    constructor
    · cases hr : s.resolve p with
      | none => rfl
      | some v =>
        obtain ⟨w, hw⟩ := ne_none_of_applyAll (show applyAll format calls (some v) = .ok none from
          hr ▸ h)
        cases hw
    · intro call hc
      by_contra hd
      exact applyAll_ne_none ⟨call, hc, by simpa using hd⟩ format _ h
  · rintro ⟨hr, hd⟩
    rw [evaluate, hr]
    exact applyAll_of_formatters hd format (.inl rfl)

/-- An expression that a rendering comes to, in the scope in which it is evaluated. -/
structure Reached where
  scope : Scope
  path : Path
  calls : List FilterCall
  span : Span

def Reached.isUnresolved (e : Reached) : Bool :=
  (e.scope.resolve e.path).isNone && !e.calls.any FilterCall.isDefault

mutual

/-- The expressions that rendering a node comes to, in order. -/
def Node.reached (s : Scope) : Node → List Reached
  | .text .. => []
  | .expression path calls span => [⟨s, path, calls, span⟩]
  | .conditional path thenNodes none _ =>
    if (s.resolve path).holds then allReached s thenNodes else []
  | .conditional path thenNodes (some elseNodes) _ =>
    if (s.resolve path).holds then allReached s thenNodes else allReached s elseNodes
  | .loop collection binding body _ =>
    match s.resolve collection with
    | some (.sequence items) => items.flatMap fun v => allReached (s.push binding v) body
    | _ => []

def Node.allReached (s : Scope) : List Node → List Reached
  | [] => []
  | n :: ns => reached s n ++ allReached s ns

end

/-- The reports of unresolved paths among the diagnostics. -/
def Rendering.unresolved (r : Rendering) : List Diagnostic :=
  r.diagnostics.filter (·.kind = .unresolvedPath)

@[simp] theorem Rendering.unresolved_append (a b : Rendering) :
    (a ++ b).unresolved = a.unresolved ++ b.unresolved := List.filter_append _ _

theorem Rendering.unresolved_concat (rs : List Rendering) :
    (concat rs).unresolved = rs.flatMap Rendering.unresolved := by
  rw [unresolved, diagnostics_concat, List.filter_flatMap]
  rfl

/-- What is there is shown, or reported as something else. -/
theorem unresolved_renderResolved_some (st : Setting) (p : Path) (span : Span) (v : Value) :
    (renderResolved st p span (some v)).unresolved = [] := by
  cases v with
  | scalar s => rfl
  | object fields => rfl
  | sequence items =>
    unfold renderResolved
    dsimp only
    split <;> rfl

/-- The report on a path that did not resolve. -/
def Setting.unresolvedAt (st : Setting) (p : Path) (span : Span) : List Diagnostic :=
  (renderResolved st p span none).diagnostics

theorem unresolved_renderExpression (st : Setting) (s : Scope) (p : Path)
    (calls : List FilterCall) (span : Span) :
    (renderExpression st s p calls span).unresolved =
      if Reached.isUnresolved ⟨s, p, calls, span⟩ then st.unresolvedAt p span else [] := by
  have hiff : Reached.isUnresolved ⟨s, p, calls, span⟩ = true ↔
      evaluate st.format s p calls = .ok none := by
    rw [evaluate_eq_none_iff]
    simp [Reached.isUnresolved]
  unfold renderExpression
  cases he : evaluate st.format s p calls with
  | error e =>
    rw [if_neg (by simp [hiff, he])]
    rfl
  | ok r =>
    cases r with
    | none =>
      rw [if_pos (hiff.mpr he)]
      rfl
    | some v =>
      rw [if_neg (by simp [hiff, he])]
      exact unresolved_renderResolved_some st p span v

/-- A rendering reports exactly the unresolved paths of the expressions it comes to, in order. -/
theorem unresolved_renderNodes (st : Setting) (s : Scope) (t : Tree) :
    (renderNodes st s t).unresolved = ((Node.allReached s t).filter Reached.isUnresolved).flatMap
      fun e => st.unresolvedAt e.path e.span := by
  induction t using Tree.induction generalizing s with
  | nil => rfl
  | text raw span ns ih => exact ih s
  | expression path calls span ns ih =>
    rw [renderNodes, renderNode, Rendering.unresolved_append, unresolved_renderExpression, ih]
    simp only [Node.allReached, Node.reached, List.singleton_append, List.filter_cons]
    split <;> simp
  | conditional path thenNodes span ns ih₁ ih =>
    simp only [renderNodes, renderNode, Rendering.unresolved_append, Node.allReached, Node.reached,
      List.filter_append, List.flatMap_append, ih]
    congr 1
    split
    · exact ih₁ s
    · rfl
  | alternative path thenNodes elseNodes span ns ih₁ ih₂ ih =>
    simp only [renderNodes, renderNode, Rendering.unresolved_append, Node.allReached, Node.reached,
      List.filter_append, List.flatMap_append, ih]
    congr 1
    split
    · exact ih₁ s
    · exact ih₂ s
  | loop collection binding body span ns ih₁ ih =>
    simp only [renderNodes, renderNode, Rendering.unresolved_append, Node.allReached, Node.reached,
      List.filter_append, List.flatMap_append, ih]
    congr 1
    cases s.resolve collection with
    | none => rfl
    | some v =>
      cases v with
      | sequence items =>
        simp only [Rendering.unresolved_concat, List.flatMap_map, ih₁, List.filter_flatMap,
          List.flatMap_assoc]
      | scalar _ | object _ => rfl

end Proforma
