import Proforma.Number.Basic

/-! JSON values. The members of an object stand in the order in which they were written, with
repetitions. -/
namespace Proforma

inductive Json where
  | null
  | bool (b : Bool)
  | number (n : Number)
  | text (s : String)
  | array (items : List Json)
  | object (members : List (String × Json))

namespace Json

instance : Inhabited Json := ⟨null⟩

def ofNat (n : Nat) : Json := number (.integer n)

def ofOption : Option Json → Json
  | some v => v
  | none => null

def text? : Json → Option String
  | text s => some s
  | _ => none

/-- A natural number below `2 ^ 64`. -/
def word? : Json → Option UInt64
  | number (.integer n) => if 0 ≤ n ∧ n.toNat < UInt64.size then some (.ofNat n.toNat) else none
  | _ => none

/-- Null, or what `read` accepts. -/
def nullOr? {α : Type} (read : Json → Option α) : Json → Option (Option α)
  | null => some none
  | v => (read v).map some

/-- The value of a key; of repeated keys the last one counts. -/
def get? (key : String) : Json → Option Json
  | object members => members.reverse.lookup key
  | _ => none

end Json

end Proforma
