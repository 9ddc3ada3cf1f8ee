import Proforma.Schema.Basic

/-!
Where schemas come from. A source belongs to someone else: it may fail, and it may be silent, in
which case a lookup ends when its time is over.
-/
namespace Proforma

inductive LookupFault where
  | timedOut (milliseconds : UInt64)
  | notFound
  | failed (message : String)
  deriving DecidableEq, Repr

/-- Why there is no schema for an entity. -/
structure LookupError where
  entity : String
  fault : LookupFault
  deriving DecidableEq, Repr

def LookupError.message (e : LookupError) : String :=
  match e.fault with
  | .timedOut milliseconds =>
    "schema lookup for `" ++ e.entity ++ s!"` timed out after {milliseconds.toNat}ms"
  | .notFound => "no schema found for entity type `" ++ e.entity ++ "`"
  | .failed message => "schema source failed for `" ++ e.entity ++ "`: " ++ message

/-- What a source does when it is asked for an entity. A schema that it answers may declare
another entity. -/
inductive Reply where
  | schema (s : Schema)
  | notFound
  | failed (message : String)
  | silence

abbrev Source := String → Reply

namespace Source

/-- The schemas of a list, by the entity that each declares; later ones replace earlier ones. -/
def ofSchemas (schemas : List Schema) : Source := fun entity =>
  match schemas.reverse.find? fun s => s.entity == entity with
  | some s => .schema s
  | none => .notFound

/-- One lookup, given up after `timeout` milliseconds. -/
def fetch (source : Source) (entity : String) (timeout : UInt64) : Except LookupError Schema :=
  match source entity with
  | .schema s => .ok s
  | .notFound => .error ⟨entity, .notFound⟩
  | .failed message => .error ⟨entity, .failed message⟩
  | .silence => .error ⟨entity, .timedOut timeout⟩

/-- One lookup by a source that counts how often it is asked. -/
def ask (source : Source) (entity : String) (timeout : UInt64) :
    StateM Nat (Except LookupError Schema) := do
  modify (· + 1)
  return source.fetch entity timeout

@[simp] theorem run_ask (source : Source) (entity : String) (timeout : UInt64) (asks : Nat) :
    (source.ask entity timeout).run asks = (source.fetch entity timeout, asks + 1) := rfl

end Source

end Proforma
