import Proforma.Calendar.Pattern
import Proforma.Number.Form
import Proforma.Text.Distance
import Proforma.Text.Position

/-! The closed catalogue of filters: their names, how many arguments they take, and which
arguments are accepted. -/
namespace Proforma

open Text

/-- An argument written in a template. -/
inductive Literal where
  | text (s : String)
  | number (x : Double)
  deriving DecidableEq, Repr

namespace Literal

def text? : Literal → Option String
  | text s => some s
  | number _ => none

def render : Literal → String
  | text s => "'" ++ s ++ "'"
  | number x => Double.plainForm.write x

end Literal

inductive Filter where
  | default | currency | date | datetime
  deriving DecidableEq, Repr

inductive Parameter where
  | anyLiteral | currencyCode | datePattern
  deriving DecidableEq, Repr

/-- Why an argument is not accepted. -/
inductive ArgumentFault where
  | codeNotText (given : Literal)
  | badCode (code : String)
  | patternNotText (given : Literal)
  | badPattern (pattern : String)
  deriving DecidableEq, Repr

namespace ArgumentFault

def message : ArgumentFault → String
  | codeNotText given => "currency code must be a string, got " ++ given.render
  | badCode code =>
    "'" ++ code ++ "' is not a currency code (expected three uppercase letters)"
  | patternNotText given => "date pattern must be a string, got " ++ given.render
  | badPattern pattern => "'" ++ pattern ++ "' is not a valid date pattern"

end ArgumentFault

/-- Three upper case ASCII letters. -/
def isCurrencyCode (code : String) : Bool :=
  code.toList.length == 3 && code.toList.all Char.isUpper

namespace Parameter

def check (p : Parameter) (given : Literal) : Except ArgumentFault Unit :=
  match p, given with
  | anyLiteral, _ => .ok ()
  | currencyCode, .text code => if isCurrencyCode code then .ok () else .error (.badCode code)
  | currencyCode, .number _ => .error (.codeNotText given)
  | datePattern, .text pattern =>
    if isPattern pattern then .ok () else .error (.badPattern pattern)
  | datePattern, .number _ => .error (.patternNotText given)

/-- The first fault found; parameters without an argument and arguments without a parameter are
passed over. -/
def checkAll : List Parameter → List Literal → Except ArgumentFault Unit
  | p :: ps, a :: as => do
    p.check a
    checkAll ps as
  | _, _ => .ok ()

end Parameter

namespace Filter

def all : List Filter := [default, currency, date, datetime]

def name : Filter → String
  | default => "default"
  | currency => "currency"
  | date => "date"
  | datetime => "datetime"

def ofName? (name : String) : Option Filter := all.find? (·.name == name)

def parameters : Filter → List Parameter
  | default => [.anyLiteral]
  | currency => [.currencyCode]
  | date => [.datePattern]
  | datetime => [.datePattern]

/-- Number of arguments that may not be left out. -/
def required : Filter → Nat
  | datetime => 1
  | _ => 0

def acceptsCount (f : Filter) (count : Nat) : Bool :=
  f.required ≤ count && count ≤ f.parameters.length

def countDescription (f : Filter) : String :=
  let greatest := f.parameters.length
  if f.required = greatest then
    if greatest = 1 then "exactly 1 argument" else s!"exactly {greatest} arguments"
  else s!"{f.required} to {greatest} arguments"

def checkArguments (f : Filter) (args : List Literal) : Except ArgumentFault Unit :=
  Parameter.checkAll f.parameters args

/-- The name of the filter that an unknown name is nearest to, at most half of whose length lies
between them. -/
def suggestion? (unknown : String) : Option String :=
  let near := all.filterMap fun f =>
    let d := distance unknown.toList f.name.toList
    if d * 100 ≤ f.name.length * 50 then some (d, f.name) else none
  near.foldl (fun best (d, name) =>
    match best with
    | some (least, _) => if d < least then some (d, name) else best
    | none => some (d, name)) none |>.map (·.2)

theorem ofName?_name (f : Filter) : ofName? f.name = some f := by
  cases f <;> decide

end Filter

/-- A filter applied in an expression. -/
structure FilterCall where
  filter : Filter
  args : List Literal
  span : Span
  deriving DecidableEq, Repr

/-- The arguments are as many as the filter takes, and all are accepted. -/
def FilterCall.isAccepted (call : FilterCall) : Bool :=
  call.filter.acceptsCount call.args.length && (call.filter.checkArguments call.args).isOk

end Proforma
