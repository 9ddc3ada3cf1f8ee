import Proforma.Calendar.Reading
import Proforma.Render.Currency
import Proforma.Render.Value
import Proforma.Template.Filter

/-!
What each filter does to a value. Only `default` makes a value out of a missing one; the others
hand a missing value and an empty text on.
-/
namespace Proforma

open Text

/-- The settings that filters fall back on. -/
structure Format where
  currency : String
  datePattern : String
  deriving DecidableEq, Repr

def Format.standard : Format := ⟨"USD", "%B %-d, %Y"⟩

/-- Why a filter rejects a value. -/
inductive FilterFault where
  | wrongKind (expected found : String)
  | outOfRange (amount : String)
  | unwritable (pattern kind : String)
  deriving DecidableEq, Repr

def FilterFault.message : FilterFault → String
  | wrongKind expected found => s!"expected {expected}, found {found}"
  | outOfRange amount => s!"{amount} is outside the supported amount range"
  | unwritable pattern kind =>
    s!"pattern '{pattern}' needs fields the {kind} value does not have"

structure FilterError where
  filter : Filter
  fault : FilterFault
  deriving DecidableEq, Repr

def FilterError.message (e : FilterError) : String :=
  "filter `" ++ e.filter.name ++ "`: " ++ e.fault.message

/-- Whole numbers become integers; what is no finite number becomes its text. -/
def Literal.value : Literal → Value
  | text s => .text s
  | number x =>
    match Number.ofDouble? x with
    | some n => .scalar (.number n)
    | none => .text (Double.plainForm.write x)

def applyDefault (args : List Literal) (input : Resolved) : Resolved :=
  if input.isMissingOrEmpty then some ((args.head?.map Literal.value).getD (.text ""))
  else input

/-- The amount that a number or a text stands for. -/
def amountOf (v : Value) : Except FilterFault Decimal :=
  match v with
  | .scalar (.number n) =>
    match Decimal.read? n.text.toList with
    | some amount => .ok amount
    | none => .error (.outOfRange n.text)
  | .scalar (.text s) =>
    let trimmed := trim s.toList
    match Decimal.read? trimmed with
    | some amount => .ok amount
    | none =>
      if (Double.read? trimmed).any Double.isFinite then
        .error (.outOfRange (String.ofList trimmed))
      else .error (.wrongKind "a number" v.kind)
  | _ => .error (.wrongKind "a number" v.kind)

/-- The first argument, if it is a text. -/
def firstText? (args : List Literal) : Option String := args.head?.bind Literal.text?

def applyCurrency (format : Format) (args : List Literal) (v : Value) :
    Except FilterFault Value :=
  match amountOf v with
  | .ok amount => .ok (.text (writeCurrency amount ((firstText? args).getD format.currency)))
  | .error fault => .error fault

def temporalOf? : Value → Option Temporal
  | .scalar (.date d) => some (.date d)
  | .scalar (.moment m) => some (.moment m)
  | .scalar (.text s) => Temporal.read? (trim s.toList)
  | _ => none

def applyPattern (pattern : String) (withTime : Bool) (v : Value) : Except FilterFault Value :=
  match temporalOf? v with
  | none => .error (.wrongKind (if withTime then "a date-time" else "a date") v.kind)
  | some t =>
    match (if withTime then t.withTime else t).write? pattern.toList with
    | some s => .ok (.text (String.ofList s))
    | none => .error (.unwritable pattern v.kind)

namespace Filter

/-- The filter on a value that is there and not an empty text. -/
def applyPresent (f : Filter) (format : Format) (args : List Literal) (v : Value) :
    Except FilterFault Value :=
  match f with
  | default => .ok v
  | currency => applyCurrency format args v
  | date => applyPattern ((firstText? args).getD format.datePattern) false v
  | datetime => applyPattern ((firstText? args).getD format.datePattern) true v

def apply (f : Filter) (format : Format) (args : List Literal) (input : Resolved) :
    Except FilterError Resolved :=
  match f with
  | default => .ok (applyDefault args input)
  | _ =>
    if input.isEmptyText then .ok input
    else
      match input with
      | none => .ok none
      | some v =>
        match f.applyPresent format args v with
        | .ok w => .ok (some w)
        | .error fault => .error ⟨f, fault⟩

end Filter

end Proforma
