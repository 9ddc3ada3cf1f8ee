import Proforma.Yaml.Basic
import Proforma.Yaml.Layout

/-!
The values that the tokens of a YAML text make up. Where a node is left out it is null, and a
node that has nothing but a tag or an anchor is an empty scalar.
-/
namespace Proforma.Yaml

/-- What is left of the tokens, and what they said about names so far. -/
structure Nodes where
  tokens : List Token
  /-- What the handles of tags stand for. -/
  spaces : List (String × String)
  /-- The anchors of a document by name, the latest first, and their number in the text. -/
  anchors : List (String × Nat)
  anchorCount : Nat
  /-- The values of the nodes that are complete, by the number of their anchor. -/
  values : List (Nat × Yaml)

abbrev NodeReader := StateT Nodes Option

namespace NodeReader

def fail {α : Type} : NodeReader α := fun _ => none

def peek : NodeReader (Option Token) := fun s => some (s.tokens.head?, s)

def advance : NodeReader Unit := fun s => some ((), { s with tokens := s.tokens.tail })

/-- Null if one of the tokens is next, and what the reader reads otherwise. -/
def orNull (stops : List Token) (r : NodeReader Yaml) : NodeReader Yaml := do
  match ← peek with
  | some t => if stops.contains t then pure .null else r
  | none => r

end NodeReader

open NodeReader

/-- A tag as it is meant. A handle of its own must have been declared. -/
def Nodes.tag? (s : Nodes) (handle name : String) : Option Tag :=
  match s.spaces.lookup handle with
  | some space => some ⟨space, name⟩
  | none =>
    if handle = "!!" then some ⟨Tag.standard, name⟩
    else if 2 ≤ handle.length && handle.toList.getLast? == some '!' then none
    else some ⟨handle, name⟩

/-- Gives a new number to an anchor. -/
def addAnchor (name : String) : NodeReader Nat := fun s =>
  some (s.anchorCount, { s with
    anchors := (name, s.anchorCount) :: s.anchors
    anchorCount := s.anchorCount + 1 })

/-- What stands before a node. -/
structure Properties where
  anchor : Option Nat
  tag : Option Tag

def readTag (handle name : String) : NodeReader Tag := fun s =>
  (s.tag? handle name).map fun t => (t, { s with tokens := s.tokens.tail })

/-- An anchor and a tag in any order. -/
def properties : NodeReader Properties := do
  match ← peek with
  | some (.anchor name) =>
    advance
    let n ← addAnchor name
    match ← peek with
    | some (.tag handle name) => pure ⟨some n, some (← readTag handle name)⟩
    | _ => pure ⟨some n, none⟩
  | some (.tag handle name) =>
    let t ← readTag handle name
    match ← peek with
    | some (.anchor name) =>
      advance
      pure ⟨some (← addAnchor name), some t⟩
    | _ => pure ⟨none, some t⟩
  | _ => pure ⟨none, none⟩

/-- Keeps the value of a complete node for references to it. -/
def Properties.keep (p : Properties) (v : Yaml) : NodeReader Yaml := fun s =>
  some (v, match p.anchor with
    | some n => { s with values := (n, v) :: s.values }
    | none => s)

/-- A node of nothing but a tag or an anchor. -/
def Properties.empty (p : Properties) : NodeReader Yaml :=
  if p.anchor.isNone && p.tag.isNone then fail else p.keep (ofTagged p.tag [])

/-- The node that an anchor names, invalid while it is not complete. -/
def reference (name : String) : NodeReader Yaml := fun s =>
  (s.anchors.lookup name).map fun n => ((s.values.lookup n).getD .invalid, s)

/-- The comma between two items. -/
def separate (first : Bool) : NodeReader Unit := do
  if !first then
    if (← peek) == some .comma then advance else fail

/-- The mapping of nodes that are keys and values in turn. -/
def mappingOf (nodes : List Yaml) : NodeReader Yaml := fun s =>
  (Yaml.ofPairs? [] nodes).map fun v => (v, s)

mutual

/-- A node. Blocks may be excluded, and a sequence whose items stand in the column of the key
before it allowed. -/
def node (block level : Bool) : Nat → NodeReader Yaml
  | 0 => fail
  | fuel + 1 => do
    match ← peek with
    | some (.reference name) =>
      advance
      reference name
    | _ =>
      let p ← properties
      match ← peek with
      | some (.scalar isPlain written) =>
        advance
        p.keep (if isPlain then ofTagged p.tag written.toList else .text written)
      | some .openSequence =>
        advance
        p.keep (.sequence (← flowItems true fuel))
      | some .openMapping =>
        advance
        p.keep (← mappingOf (← flowEntries true fuel))
      | some .blockSequence =>
        if !block then p.empty
        else
          advance
          p.keep (.sequence (← blockItems fuel))
      | some .blockMapping =>
        if !block then p.empty
        else
          advance
          p.keep (← mappingOf (← blockEntries fuel))
      | some .item =>
        if level then p.keep (.sequence (← levelItems fuel)) else p.empty
      | _ => p.empty

/-- The items of a sequence in a block of its own. -/
def blockItems : Nat → NodeReader (List Yaml)
  | 0 => fail
  | fuel + 1 => do
    match ← peek with
    | some .blockEnd =>
      advance
      pure []
    | some .item =>
      advance
      let item ← orNull [.item, .blockEnd] (node true false fuel)
      pure (item :: (← blockItems fuel))
    | _ => fail

/-- The items of a sequence in the block of a mapping. -/
def levelItems : Nat → NodeReader (List Yaml)
  | 0 => fail
  | fuel + 1 => do
    match ← peek with
    | some .item =>
      advance
      let item ← orNull [.item, .key, .value, .blockEnd] (node true false fuel)
      pure (item :: (← levelItems fuel))
    | _ => pure []

/-- The keys and values of a block mapping in turn. -/
def blockEntries : Nat → NodeReader (List Yaml)
  | 0 => fail
  | fuel + 1 => do
    match ← peek with
    | some .blockEnd =>
      advance
      pure []
    | some .key =>
      advance
      let key ← orNull [.key, .value, .blockEnd] (node true true fuel)
      let value ← blockValue fuel
      pure (key :: value :: (← blockEntries fuel))
    | some .value =>
      let value ← blockValue fuel
      pure (.null :: value :: (← blockEntries fuel))
    | _ => fail

def blockValue : Nat → NodeReader Yaml
  | 0 => fail
  | fuel + 1 => do
    if (← peek) == some .value then
      advance
      orNull [.key, .value, .blockEnd] (node true true fuel)
    else pure .null

/-- The items of a flow sequence up to its end. -/
def flowItems (first : Bool) : Nat → NodeReader (List Yaml)
  | 0 => fail
  | fuel + 1 => do
    if (← peek) == some .closeSequence then
      advance
      pure []
    else
      separate first
      match ← peek with
      | some .closeSequence =>
        advance
        pure []
      | some .key =>
        advance
        let pair ← flowPair fuel
        pure (pair :: (← flowItems false fuel))
      | _ =>
        let item ← node false false fuel
        pure (item :: (← flowItems false fuel))

/-- A pair without braces, after the mark of its key. If the key is left out, the token in its
place is passed over. -/
def flowPair : Nat → NodeReader Yaml
  | 0 => fail
  | fuel + 1 => do
    let key ← match ← peek with
      | some .value | some .comma | some .closeSequence => do
        advance
        pure .null
      | _ => node false false fuel
    let value ← flowValue .closeSequence fuel
    mappingOf [key, value]

/-- The keys and values of a flow mapping in turn, up to its end. -/
def flowEntries (first : Bool) : Nat → NodeReader (List Yaml)
  | 0 => fail
  | fuel + 1 => do
    if (← peek) == some .closeMapping then
      advance
      pure []
    else
      separate first
      match ← peek with
      | some .closeMapping =>
        advance
        pure []
      | some .key =>
        advance
        let key ← orNull [.value, .comma, .closeMapping] (node false false fuel)
        let value ← flowValue .closeMapping fuel
        pure (key :: value :: (← flowEntries false fuel))
      | some .value =>
        let value ← flowValue .closeMapping fuel
        pure (.null :: value :: (← flowEntries false fuel))
      | _ =>
        let key ← node false false fuel
        pure (key :: .null :: (← flowEntries false fuel))

/-- A value after its colon, null if there is no colon. -/
def flowValue (close : Token) : Nat → NodeReader Yaml
  | 0 => fail
  | fuel + 1 => do
    if (← peek) == some .value then
      advance
      orNull [.comma, close] (node false false fuel)
    else pure .null

end

end Proforma.Yaml
