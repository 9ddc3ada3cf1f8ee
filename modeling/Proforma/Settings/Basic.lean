import Proforma.Json.Basic
import Proforma.Proposal.Fragment
import Proforma.Render.Apply

/-! Settings: how values are written, how long a lookup may take, and what a proposal looks like. -/
namespace Proforma

structure Settings where
  /-- The currency of amounts that name none. -/
  currency : String
  /-- The pattern of dates that name none. -/
  datePattern : String
  /-- The pattern of moments in proposals. -/
  momentPattern : String
  /-- Milliseconds that a schema lookup may take. -/
  timeout : UInt64
  sectionTitle : String
  deriving DecidableEq, Repr

/-- What is wrong with settings. -/
inductive SettingsFault where
  | badCurrency (code : String)
  | badDatePattern (pattern : String)
  | badMomentPattern (pattern : String)
  | noTime
  deriving DecidableEq, Repr

def SettingsFault.message : SettingsFault → String
  | badCurrency code =>
    "default_currency '" ++ code ++ "' is not a three-letter uppercase code"
  | badDatePattern pattern => "date_format: " ++ (ArgumentFault.badPattern pattern).message
  | badMomentPattern pattern => "datetime_format: " ++ (ArgumentFault.badPattern pattern).message
  | noTime => "schema_timeout_ms must be greater than zero"

namespace Settings

def standard : Settings where
  currency := Format.standard.currency
  datePattern := Format.standard.datePattern
  momentPattern := Proposal.Options.standard.momentPattern
  timeout := 2000
  sectionTitle := Proposal.Options.standard.sectionTitle

def format (s : Settings) : Format := ⟨s.currency, s.datePattern⟩

def options (s : Settings) : Proposal.Options := ⟨s.sectionTitle, s.momentPattern⟩

/-- The first thing that is wrong. -/
def validate (s : Settings) : Except SettingsFault Unit := do
  if !isCurrencyCode s.currency then throw (.badCurrency s.currency)
  if !isPattern s.datePattern then throw (.badDatePattern s.datePattern)
  if !isPattern s.momentPattern then throw (.badMomentPattern s.momentPattern)
  if s.timeout = 0 then throw .noTime

/-- The value of a key, which must be of the right kind if it is there. -/
def member? {α : Type} (members : List (String × Json)) (key : String) (read : Json → Option α)
    (standard : α) : Option α :=
  match members.lookup key with
  | some v => read v
  | none => some standard

/-- Settings that are not given are the standard ones; unknown keys do not matter. -/
def decode? : Json → Option Settings
  | .object members => do
    some {
      currency := ← member? members "default_currency" Json.text? standard.currency
      datePattern := ← member? members "date_format" Json.text? standard.datePattern
      momentPattern := ← member? members "datetime_format" Json.text? standard.momentPattern
      timeout := ← member? members "schema_timeout_ms" Json.word? standard.timeout
      sectionTitle := ← member? members "gap_section_title" Json.text? standard.sectionTitle }
  | _ => none

end Settings

end Proforma
