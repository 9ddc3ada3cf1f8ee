import Mathlib.Data.List.Forall2
import Proforma.Render.Rendering

/-!
Values that no path tells apart. Objects may hold their fields in another order, or fields that
are null, which no path finds. Filters and rendering treat such values alike.
-/
namespace Proforma

/-- What is seen of a value without going inside. -/
inductive Shape where
  | scalar (s : Scalar)
  | sequence (length : Nat)
  | object
  deriving DecidableEq, Repr

namespace Value

def shape : Value → Shape
  | scalar s => .scalar s
  | sequence items => .sequence items.length
  | object _ => .object

/-- Every path ends at the same shape in both values, or in neither. -/
def Alike (v w : Value) : Prop :=
  ∀ steps, (v.lookup? steps).map shape = (w.lookup? steps).map shape

theorem Alike.refl (v : Value) : v.Alike v := fun _ => rfl

theorem lookup?_nil (v : Value) : v.lookup? [] = some v := rfl

theorem lookup?_cons (v : Value) (s : Segment) (steps : List Segment) :
    v.lookup? (s :: steps) = (v.get? s).bind (·.lookup? steps) := by
  simp [lookup?, List.foldlM_cons]

theorem Alike.shape_eq {v w : Value} (h : v.Alike w) : v.shape = w.shape := by
  simpa [lookup?_nil] using h []

/-- Alike values are alike one step inside. -/
theorem Alike.get? {v w : Value} (h : v.Alike w) (s : Segment) :
    Option.Rel Alike (v.get? s) (w.get? s) := by
  have hs (steps : List Segment) := h (s :: steps)
  simp only [lookup?_cons] at hs
  cases hv : v.get? s with
  | none =>
    cases hw : w.get? s with
    | none => exact .none
    | some w' => simpa [hv, hw, lookup?_nil] using hs []
  | some v' =>
    cases hw : w.get? s with
    | none => simpa [hv, hw, lookup?_nil] using hs []
    | some w' =>
      refine .some fun steps => ?_
      simpa [hv, hw] using hs steps

theorem Alike.lookup? {v w : Value} (h : v.Alike w) (steps : List Segment) :
    Option.Rel Alike (v.lookup? steps) (w.lookup? steps) := by
  induction steps generalizing v w with
  | nil => exact .some h
  | cons s steps ih =>
    have hs := h.get? s
    rw [lookup?_cons, lookup?_cons]
    generalize v.get? s = a, w.get? s = b at hs
    cases hs with
    | none => exact .none
    | some h' => exact ih h'

end Value

open Value

theorem presentOnly_eq_none {v : Value} (h : presentOnly (some v) = none) :
    v = .scalar .null := by
  cases v with
  | scalar s => cases s <;> simp_all [presentOnly, isNull]
  | sequence items => simp [presentOnly, isNull] at h
  | object fields => simp [presentOnly, isNull] at h

theorem presentOnly_eq_some {v w : Value} (h : presentOnly (some v) = some w) : v = w := by
  simp only [presentOnly, Option.filter] at h
  split at h <;> simp_all

/-- A null item is alike only to a null item. -/
theorem Value.Alike.items {vs ws : List Value} (h : (sequence vs).Alike (sequence ws)) :
    List.Forall₂ Alike vs ws := by
  have hl : vs.length = ws.length := by simpa [shape] using h.shape_eq
  refine List.forall₂_iff_get.mpr ⟨hl, fun i hv hw => ?_⟩
  have hi := h.get? (.index i)
  simp only [Value.get?, List.getElem?_eq_getElem hv, List.getElem?_eq_getElem hw] at hi
  cases hp : presentOnly (some vs[i]) with
  | none =>
    rw [hp] at hi
    have hq : presentOnly (some ws[i]) = none := by
      cases hq : presentOnly (some ws[i]) with
      | none => rfl
      | some _ => rw [hq] at hi; cases hi
    simp only [List.get_eq_getElem, presentOnly_eq_none hp, presentOnly_eq_none hq]
    exact .refl _
  | some v =>
    rw [hp] at hi
    cases hq : presentOnly (some ws[i]) with
    | none => rw [hq] at hi; cases hi
    | some w =>
      rw [hq] at hi
      cases hi with
      | some hvw =>
        simpa only [List.get_eq_getElem, presentOnly_eq_some hp, presentOnly_eq_some hq] using hvw

namespace Value

variable {v w : Value}

theorem isEmpty_eq (h : v.shape = w.shape) : v.isEmpty = w.isEmpty := by
  cases v <;> cases w <;> simp_all [shape, isEmpty]
  next vs ws => cases vs <;> cases ws <;> simp_all

theorem kind_eq (h : v.shape = w.shape) : v.kind = w.kind := by
  cases v <;> cases w <;> simp_all [shape, kind]

theorem holds_eq (h : v.shape = w.shape) : v.holds = w.holds := by
  have he := isEmpty_eq h
  cases v with
  | scalar s => cases w <;> simp_all [shape]
  | sequence vs => cases w <;> simp_all [shape, holds]
  | object fs => cases w <;> simp_all [shape, holds]

theorem amountOf_eq (h : v.shape = w.shape) : amountOf v = amountOf w := by
  cases v <;> cases w <;> simp_all [shape, amountOf, kind]

theorem temporalOf?_eq (h : v.shape = w.shape) : temporalOf? v = temporalOf? w := by
  cases v <;> cases w <;> simp_all [shape, temporalOf?]

end Value

/-- Every filter but the substitute sees only the shape of a value. -/
theorem Filter.applyPresent_eq {f : Filter} (hf : f ≠ .default) (format : Format)
    (args : List Literal) {v w : Value} (h : v.shape = w.shape) :
    f.applyPresent format args v = f.applyPresent format args w := by
  cases f with
  | default => exact absurd rfl hf
  | currency => simp only [applyPresent, applyCurrency, amountOf_eq h]
  | date => simp only [applyPresent, applyPattern, temporalOf?_eq h, kind_eq h]
  | datetime => simp only [applyPresent, applyPattern, temporalOf?_eq h, kind_eq h]

namespace Resolved

def Alike (r s : Resolved) : Prop := Option.Rel Value.Alike r s

theorem Alike.refl (r : Resolved) : r.Alike r := by
  cases r with
  | none => exact Option.Rel.none
  | some v => exact Option.Rel.some (.refl v)

variable {r s : Resolved}

theorem Alike.isMissingOrEmpty (h : r.Alike s) : r.isMissingOrEmpty = s.isMissingOrEmpty := by
  cases h with
  | none => rfl
  | some h => exact isEmpty_eq h.shape_eq

theorem Alike.holds (h : r.Alike s) : r.holds = s.holds := by
  cases h with
  | none => rfl
  | some h => exact holds_eq h.shape_eq

theorem Alike.isEmptyText (h : r.Alike s) : r.isEmptyText = s.isEmptyText := by
  cases h with
  | none => rfl
  | @some v w h =>
    have hs := h.shape_eq
    cases v <;> cases w <;> simp_all [shape, Resolved.isEmptyText]

end Resolved

/-- The same rejection, or alike results. -/
def AlikeOutcome : Except FilterError Resolved → Except FilterError Resolved → Prop
  | .ok r, .ok s => r.Alike s
  | .error e, .error f => e = f
  | _, _ => False

theorem Filter.apply_of_isEmptyText {f : Filter} (hf : f ≠ .default) (format : Format)
    (args : List Literal) {r : Resolved} (h : r.isEmptyText = true) :
    f.apply format args r = .ok r := by
  cases f with
  | default => exact absurd rfl hf
  | _ => exact if_pos h

theorem Filter.apply_some {f : Filter} (hf : f ≠ .default) (format : Format) (args : List Literal)
    {v : Value} (h : Resolved.isEmptyText (some v) = false) : f.apply format args (some v) =
      ((f.applyPresent format args v).map some).mapError (FilterError.mk f) := by
  have hn : ¬ Resolved.isEmptyText (some v) = true := by simp [h]
  cases f with
  | default => exact absurd rfl hf
  | currency =>
    simp only [apply, if_neg hn]
    cases applyPresent .currency format args v <;> rfl
  | date =>
    simp only [apply, if_neg hn]
    cases applyPresent .date format args v <;> rfl
  | datetime =>
    simp only [apply, if_neg hn]
    cases applyPresent .datetime format args v <;> rfl

theorem AlikeOutcome.refl (o : Except FilterError Resolved) : AlikeOutcome o o := by
  cases o with
  | ok r => exact Resolved.Alike.refl r
  | error e => exact rfl

theorem Filter.apply_alike (f : Filter) (format : Format) (args : List Literal) {r s : Resolved}
    (h : r.Alike s) : AlikeOutcome (f.apply format args r) (f.apply format args s) := by
  by_cases hf : f = .default
  · subst hf
    simp only [apply, applyDefault, h.isMissingOrEmpty, AlikeOutcome]
    split
    · exact .refl _
    · exact h
  · have he := h.isEmptyText
    cases hs : s.isEmptyText with
    | true =>
      rw [apply_of_isEmptyText hf format args hs, apply_of_isEmptyText hf format args (he.trans hs)]
      exact h
    | false =>
      cases h with
      | none => exact .refl _
      | some hvw =>
        rw [apply_some hf format args hs, apply_some hf format args (he.trans hs),
          applyPresent_eq hf format args hvw.shape_eq]
        exact .refl _

/-- A pipeline rejects alike inputs at the same filter, or gives alike results. -/
theorem applyAll_alike (format : Format) (calls : List FilterCall) {r s : Resolved}
    (h : r.Alike s) : AlikeOutcome (applyAll format calls r) (applyAll format calls s) := by
  induction calls generalizing r s with
  | nil => exact h
  | cons call calls ih =>
    have hc := call.filter.apply_alike format call.args h
    simp only [applyAll, List.foldlM_cons, bind, Except.bind] at ih ⊢
    generalize call.filter.apply format call.args r = a,
      call.filter.apply format call.args s = b at hc
    cases a <;> cases b <;> simp_all [AlikeOutcome]

theorem scalarTexts?_alike {vs ws : List Value} (h : List.Forall₂ Value.Alike vs ws) :
    scalarTexts? vs = scalarTexts? ws := by
  induction h with
  | nil => rfl
  | @cons v w vs ws h _ ih =>
    have hs := h.shape_eq
    cases v with
    | scalar s =>
      cases w with
      | scalar s' =>
        obtain rfl : s = s' := by simpa [shape] using hs
        cases s <;> simp [scalarTexts?, ih]
      | sequence _ => simp [shape] at hs
      | object _ => simp [shape] at hs
    | sequence _ => cases w <;> simp_all [shape, scalarTexts?]
    | object _ => cases w <;> simp_all [shape, scalarTexts?]

theorem renderResolved_alike (st : Setting) (p : Path) (span : Text.Span) {r s : Resolved}
    (h : r.Alike s) : renderResolved st p span r = renderResolved st p span s := by
  cases h with
  | none => rfl
  | @some v w h =>
    have hs := h.shape_eq
    cases v with
    | scalar _ => cases w <;> simp_all [shape, renderResolved]
    | object _ => cases w <;> simp_all [shape, renderResolved]
    | sequence vs =>
      cases w with
      | sequence ws => simp only [renderResolved, scalarTexts?_alike h.items]
      | scalar _ => simp [shape] at hs
      | object _ => simp [shape] at hs

end Proforma
