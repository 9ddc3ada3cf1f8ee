import Proforma.Number.Double
import Proforma.Schema.Source

/-!
Schemas that were looked up before, by the entity that was asked for. An entry stays until it is
replaced, dropped, or known to be of another version. Failed lookups leave no entry.
-/
namespace Proforma

/-- An entity has at most one entry. -/
structure SchemaCache where
  entries : List (String × Schema)
  hits : Nat
  misses : Nat

namespace SchemaCache

def empty : SchemaCache := ⟨[], 0, 0⟩

/-- The entry of an entity, without counting. -/
def entry? (c : SchemaCache) (entity : String) : Option Schema := c.entries.lookup entity

def size (c : SchemaCache) : Nat := c.entries.length

def isEmpty (c : SchemaCache) : Bool := c.entries.isEmpty

/-- Hits in percent of all lookups; zero if there were none. -/
def hitRate (c : SchemaCache) : Double :=
  if c.hits + c.misses = 0 then .zero false
  else (Double.ofQuotient false c.hits (c.hits + c.misses)).mul (.ofNat false 100)

/-- The entry of an entity, counted as a hit or a miss. -/
def get (c : SchemaCache) (entity : String) : Option Schema × SchemaCache :=
  match c.entry? entity with
  | some s => (some s, { c with hits := c.hits + 1 })
  | none => (none, { c with misses := c.misses + 1 })

def erase (c : SchemaCache) (entity : String) : SchemaCache :=
  { c with entries := c.entries.filter fun e => e.1 != entity }

/-- Stores a schema under an entity, whichever one it declares. -/
def insertAs (c : SchemaCache) (entity : String) (s : Schema) : SchemaCache :=
  { c with entries := (entity, s) :: (c.erase entity).entries }

def insert (c : SchemaCache) (s : Schema) : SchemaCache := c.insertAs s.entity s

/-- Drops an entry, and tells if there was one. -/
def invalidate (c : SchemaCache) (entity : String) : Bool × SchemaCache :=
  ((c.entry? entity).isSome, c.erase entity)

/-- Drops an entry of another version, and tells if there was one. -/
def observeVersion (c : SchemaCache) (entity : String) (version : UInt64) :
    Bool × SchemaCache :=
  match c.entry? entity with
  | some s => if s.version = version then (false, c) else (true, c.erase entity)
  | none => (false, c)

/-- The cache when an entity has been answered for: a schema is stored, and a failure is not. -/
def receive (c : SchemaCache) (entity : String) : Except LookupError Schema → SchemaCache
  | .ok s => c.insertAs entity s
  | .error _ => c

/-- The entry of an entity, else what `fetch` answers. -/
def getOr {m : Type → Type} [Monad m] (c : SchemaCache) (entity : String)
    (fetch : m (Except LookupError Schema)) : m (Except LookupError Schema × SchemaCache) :=
  match c.get entity with
  | (some s, c) => return (.ok s, c)
  | (none, c) => do
    let answer ← fetch
    return (answer, c.receive entity answer)

/-- The outcome of a lookup through a cache. -/
structure Lookup where
  result : Except LookupError Schema
  cache : SchemaCache
  /-- How often the source was asked. -/
  asks : Nat

/-- The source was asked. -/
def Lookup.asked (l : Lookup) : Bool := l.asks != 0

/-- The entry of an entity, else what the source answers. -/
def getOrFetch (c : SchemaCache) (source : Source) (entity : String) (timeout : UInt64) :
    Lookup :=
  let ((result, cache), asks) := (c.getOr entity (source.ask entity timeout)).run 0
  ⟨result, cache, asks⟩

end SchemaCache

end Proforma
