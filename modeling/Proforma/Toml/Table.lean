import Proforma.Json.Basic

/-!
Tables while they are being read. A header opens a table once; what a header or a dotted key
only passes through may be opened later, and a value is never extended.
-/
namespace Proforma.Toml

/-- How a table came about. -/
inductive Origin where
  /-- By a header of its own. -/
  | header
  /-- On the way to the table of another header. -/
  | passed
  /-- By a dotted key. -/
  | dotted
  deriving DecidableEq, Repr

inductive Item where
  | value (v : Json)
  | table (origin : Origin) (entries : List (String × Item))
  /-- An array of tables, last one first. -/
  | tables (entries : List (List (String × Item)))

abbrev Entries := List (String × Item)

namespace Entries

def set (es : Entries) (key : String) (item : Item) : Entries :=
  match es with
  | [] => [(key, item)]
  | (k, i) :: es => if k = key then (k, item) :: es else (k, i) :: set es key item

/-- Changes the table at the end of a path. Tables on the way are made when they are missing;
with `dotted`, only tables without a header are passed. -/
def modify? (dotted : Bool) (change : Origin → Entries → Option Entries) (origin : Origin)
    (es : Entries) : List String → Option Entries
  | [] => change origin es
  | key :: path =>
    let made := if dotted then Origin.dotted else .passed
    match es.lookup key with
    | none => (modify? dotted change made [] path).map fun inner => es.set key (.table made inner)
    | some (.value _) => none
    | some (.tables []) => none
    | some (.tables (last :: before)) =>
      if dotted then none
      else (modify? dotted change .header last path).map fun inner =>
        es.set key (.tables (inner :: before))
    | some (.table origin entries) =>
      if dotted && origin == .header then none
      else (modify? dotted change origin entries path).map fun inner =>
        es.set key (.table origin inner)

/-- Adds a new entry to the table that a dotted key leads to. -/
def insert? (es : Entries) (keys : List String) (v : Json) : Option Entries :=
  match keys.getLast? with
  | none => none
  | some key =>
    let path := keys.dropLast
    es.modify? true (fun origin inner =>
      if (origin == .dotted) == path.isEmpty || (inner.lookup key).isSome then none
      else some (inner ++ [(key, .value v)])) .header path

/-- Opens the table of a header. -/
def openTable? (es : Entries) (keys : List String) : Option Entries :=
  match keys.getLast? with
  | none => none
  | some key =>
    es.modify? false (fun _ inner =>
      match inner.lookup key with
      | none => some (inner ++ [(key, .table .header [])])
      | some (.table .passed entries) => some (inner.set key (.table .header entries))
      | some _ => none) .header keys.dropLast

/-- Adds a table to the array of a header. -/
def openArray? (es : Entries) (keys : List String) : Option Entries :=
  match keys.getLast? with
  | none => none
  | some key =>
    es.modify? false (fun _ inner =>
      match inner.lookup key with
      | none => some (inner ++ [(key, .tables [[]])])
      | some (.tables before) => some (inner.set key (.tables ([] :: before)))
      | some _ => none) .header keys.dropLast

/-- Adds an entry to the table that the last header opened. -/
def insertAt? (es : Entries) (header keys : List String) (v : Json) : Option Entries :=
  es.modify? false (fun _ inner => inner.insert? keys v) .header header

end Entries

mutual

def Item.toJson : Item → Json
  | .value v => v
  | .table _ entries => .object (toMembers entries)
  | .tables entries => .array (toObjects entries).reverse

def toMembers : List (String × Item) → List (String × Json)
  | [] => []
  | (key, item) :: es => (key, item.toJson) :: toMembers es

def toObjects : List (List (String × Item)) → List Json
  | [] => []
  | entries :: rest => .object (toMembers entries) :: toObjects rest

end

end Proforma.Toml
