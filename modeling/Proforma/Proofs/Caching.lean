import Proforma.Proofs.Tree
import Proforma.Schema.Cache

/-!
What a cache holds, answers and counts after any run of requests, in terms of what was asked and
answered before. An entry stands from the request that stored it until another one is stored under
the same entity or a request drops it.
-/
namespace Proforma

namespace SchemaCache

theorem entry?_erase (c : SchemaCache) (entity other : String) :
    entry? (c.erase other) entity = if entity = other then none else c.entry? entity :=
  lookup_filter_ne other entity c.entries

theorem entry?_insertAs (c : SchemaCache) (other : String) (s : Schema) (entity : String) :
    entry? (c.insertAs other s) entity = if entity = other then some s else c.entry? entity := by
  show List.lookup entity ((other, s) :: (c.erase other).entries) = _
  rw [List.lookup_cons]
  by_cases he : entity = other
  · subst he
    simp
  · rw [beq_false_of_ne he, if_neg he]
    exact (c.entry?_erase entity other).trans (if_neg he)

/-- An entity has at most one entry. -/
def Distinct (c : SchemaCache) : Prop := (c.entries.map Prod.fst).Nodup

theorem Distinct.erase {c : SchemaCache} (h : c.Distinct) (entity : String) :
    (c.erase entity).Distinct :=
  h.sublist (List.filter_sublist.map Prod.fst)

theorem Distinct.insertAs {c : SchemaCache} (h : c.Distinct) (entity : String) (s : Schema) :
    (c.insertAs entity s).Distinct := by
  refine List.nodup_cons.mpr ⟨fun hm => ?_, h.erase entity⟩
  obtain ⟨e, he, hk⟩ := List.mem_map.mp hm
  have hne : (e.1 != entity) = true := (List.mem_filter.mp he).2
  exact bne_iff_ne.mp hne hk

theorem get_of_some {c : SchemaCache} {entity : String} {s : Schema}
    (h : c.entry? entity = some s) : c.get entity = (some s, { c with hits := c.hits + 1 }) := by
  simp only [get, h]

theorem get_of_none {c : SchemaCache} {entity : String} (h : c.entry? entity = none) :
    c.get entity = (none, { c with misses := c.misses + 1 }) := by
  simp only [get, h]

section Effects

variable {m : Type → Type} [Monad m] {c : SchemaCache} {entity : String}

theorem getOr_of_some {s : Schema} (h : c.entry? entity = some s)
    (fetch : m (Except LookupError Schema)) :
    c.getOr entity fetch = pure (.ok s, { c with hits := c.hits + 1 }) := by
  simp only [getOr, get_of_some h]

theorem getOr_of_none (h : c.entry? entity = none) (fetch : m (Except LookupError Schema)) :
    c.getOr entity fetch = fetch >>= fun answer =>
      pure (answer, { c with misses := c.misses + 1 }.receive entity answer) := by
  simp only [getOr, get_of_none h]

end Effects

/-- A source is asked once by a lookup that finds no entry, and not at all by any other one. -/
theorem asks_getOr (c : SchemaCache) (source : Source) (entity : String) (timeout : UInt64)
    (asks : Nat) : ((c.getOr entity (source.ask entity timeout)).run asks).2 =
      if (c.entry? entity).isSome then asks else asks + 1 := by
  cases h : c.entry? entity with
  | some s =>
    rw [getOr_of_some h]
    rfl
  | none =>
    rw [getOr_of_none h, StateT.run_bind, Source.run_ask]
    rfl

/-- The source of an entity that has an entry makes no difference. -/
theorem getOrFetch_of_some {c : SchemaCache} {entity : String} {s : Schema}
    (h : c.entry? entity = some s) (source : Source) (timeout : UInt64) :
    c.getOrFetch source entity timeout = ⟨.ok s, { c with hits := c.hits + 1 }, 0⟩ := by
  rw [getOrFetch, getOr_of_some h]
  rfl

theorem getOrFetch_of_none {c : SchemaCache} {entity : String} (h : c.entry? entity = none)
    (source : Source) (timeout : UInt64) :
    let answer := source.fetch entity timeout
    c.getOrFetch source entity timeout =
      ⟨answer, { c with misses := c.misses + 1 }.receive entity answer, 1⟩ := by
  rw [getOrFetch, getOr_of_none h, StateT.run_bind, Source.run_ask]
  rfl

/-- What a lookup can come to. -/
theorem getOrFetch_cases (c : SchemaCache) (source : Source) (entity : String)
    (timeout : UInt64) :
    (∃ s, c.entry? entity = some s ∧ c.getOrFetch source entity timeout =
      ⟨.ok s, { c with hits := c.hits + 1 }, 0⟩) ∨
    (∃ s, c.entry? entity = none ∧ source.fetch entity timeout = .ok s ∧
      c.getOrFetch source entity timeout =
        ⟨.ok s, { c with misses := c.misses + 1 }.insertAs entity s, 1⟩) ∨
    ∃ e, c.entry? entity = none ∧ source.fetch entity timeout = .error e ∧
      c.getOrFetch source entity timeout = ⟨.error e, { c with misses := c.misses + 1 }, 1⟩ := by
  cases h : c.entry? entity with
  | some s => exact .inl ⟨s, rfl, getOrFetch_of_some h source timeout⟩
  | none =>
    have hl := getOrFetch_of_none h source timeout
    cases hf : source.fetch entity timeout with
    | ok s =>
      rw [hf] at hl
      exact .inr (.inl ⟨s, rfl, rfl, hl⟩)
    | error e =>
      rw [hf] at hl
      exact .inr (.inr ⟨e, rfl, rfl, hl⟩)

/-- A lookup that fails leaves a miss and nothing else. -/
theorem cache_getOrFetch_of_error {c : SchemaCache} {source : Source} {entity : String}
    {timeout : UInt64} {e : LookupError}
    (h : (c.getOrFetch source entity timeout).result = .error e) :
    (c.getOrFetch source entity timeout).cache = { c with misses := c.misses + 1 } := by
  rcases c.getOrFetch_cases source entity timeout with
    ⟨s, -, hl⟩ | ⟨s, -, -, hl⟩ | ⟨e', -, -, hl⟩
  · rw [hl] at h
    cases h
  · rw [hl] at h
    cases h
  · rw [hl]

/-- What a cache can be asked, and the schemas in memory that may be its source. A lookup names
another source, or none. -/
inductive Request where
  | put (s : Schema)
  | insert (s : Schema)
  | insertAs (entity : String) (s : Schema)
  | get (entity : String)
  | getOrFetch (entity : String) (source : Option Source) (timeout : UInt64)
  | observe (entity : String) (version : UInt64)
  | invalidate (entity : String)
  | clear

inductive Answer where
  | done
  | found (entry : Option Schema)
  | looked (result : Except LookupError Schema) (asked : Bool)
  | dropped (removed : Bool)

/-- A request and what it was answered. -/
structure Event where
  request : Request
  answer : Answer

/-- A cache beside schemas in memory, a source that has been asked `served` times. -/
structure Desk where
  cache : SchemaCache
  schemas : List Schema
  served : Nat

namespace Desk

def empty : Desk := ⟨.empty, [], 0⟩

/-- The source of a lookup, by default the schemas in memory. -/
def source (d : Desk) (source : Option Source) : Source := source.getD (.ofSchemas d.schemas)

def lookup (d : Desk) (entity : String) (source : Option Source) (timeout : UInt64) : Lookup :=
  d.cache.getOrFetch (d.source source) entity timeout

def answer (d : Desk) : Request → Answer × Desk
  | .put s => (.done, { d with schemas := d.schemas ++ [s] })
  | .insert s => (.done, { d with cache := d.cache.insert s })
  | .insertAs entity s => (.done, { d with cache := d.cache.insertAs entity s })
  | .get entity =>
    (.found (d.cache.get entity).1, { d with cache := (d.cache.get entity).2 })
  | .getOrFetch entity source timeout =>
    let l := d.lookup entity source timeout
    let served := if source.isNone then d.served + l.asks else d.served
    (.looked l.result l.asked, { d with cache := l.cache, served })
  | .observe entity version =>
    let (removed, cache) := d.cache.observeVersion entity version
    (.dropped removed, { d with cache })
  | .invalidate entity =>
    let (removed, cache) := d.cache.invalidate entity
    (.dropped removed, { d with cache })
  | .clear => (.done, { d with cache := .empty })

/-- The history of a desk and the desk, after one more request. -/
def after (state : List Event × Desk) (r : Request) : List Event × Desk :=
  (state.1 ++ [⟨r, (state.2.answer r).1⟩], (state.2.answer r).2)

def run (requests : List Request) : List Event × Desk := requests.foldl after ([], empty)

end Desk

/-- The entity that is looked up, which counts as a hit or a miss. -/
def Request.sought? : Request → Option String
  | .get entity | .getOrFetch entity _ _ => some entity
  | _ => none

def Request.isLookup (r : Request) : Bool := r.sought?.isSome

def Request.isClear : Request → Bool
  | .clear => true
  | _ => false

/-- A request that ends the entry `s` of an entity and stores nothing in its place. -/
def Request.Drops (entity : String) (s : Schema) : Request → Prop
  | .invalidate other => other = entity
  | .observe other version => other = entity ∧ s.version ≠ version
  | .clear => True
  | _ => False

namespace Event

/-- The entity under which a request stored a schema, and that schema. -/
def stored? : Event → Option (String × Schema)
  | ⟨.insert s, _⟩ => some (s.entity, s)
  | ⟨.insertAs entity s, _⟩ => some (entity, s)
  | ⟨.getOrFetch entity _ _, .looked (.ok s) true⟩ => some (entity, s)
  | _ => none

/-- A lookup that found an entry. -/
def isHit (e : Event) : Bool :=
  match e.answer with
  | .found entry => entry.isSome
  | .looked _ asked => !asked
  | _ => false

/-- A lookup that asked for a schema in memory. -/
def asksMemory : Event → Bool
  | ⟨.getOrFetch _ none _, .looked _ true⟩ => true
  | _ => false

/-- The event leaves the entry `s` of an entity, if there is one. -/
def Leaves (e : Event) (entity : String) (s : Schema) : Prop :=
  (∀ s', e.stored? ≠ some (entity, s')) ∧ ¬ e.request.Drops entity s

end Event

/-- The schema was the last one stored under the entity, and was not dropped since then. -/
def Standing (es : List Event) (entity : String) (s : Schema) : Prop :=
  ∃ before e after, es = before ++ e :: after ∧ e.stored? = some (entity, s) ∧
    ∀ e' ∈ after, e'.Leaves entity s

/-- The events since the cache was last cleared, the latest first. -/
def sinceClear (es : List Event) : List Event :=
  es.reverse.takeWhile fun e => !e.request.isClear

theorem not_standing_nil (entity : String) (s : Schema) : ¬ Standing [] entity s := by
  rintro ⟨before, e, after, h, -⟩
  simp at h

/-- Every event of a history is the last one, or is in the history before that one. -/
theorem split_concat {es before after : List Event} {last e : Event}
    (h : es ++ [last] = before ++ e :: after) :
    (before = es ∧ e = last ∧ after = []) ∨
      ∃ later, after = later ++ [last] ∧ es = before ++ e :: later := by
  rcases List.eq_nil_or_concat after with rfl | ⟨later, final, rfl⟩
  · obtain ⟨rfl, he⟩ := List.append_inj' h rfl
    exact .inl ⟨rfl, (List.singleton_inj.mp he).symm, rfl⟩
  · rw [List.concat_eq_append] at h ⊢
    rw [← List.cons_append, ← List.append_assoc] at h
    obtain ⟨rfl, he⟩ := List.append_inj' h rfl
    exact .inr ⟨later, by rw [he], rfl⟩

/-- What stands after one more event was stored by it, or stood before and was left. -/
theorem standing_concat {es : List Event} {e : Event} {entity : String} {s : Schema} :
    Standing (es ++ [e]) entity s ↔
      e.stored? = some (entity, s) ∨ e.Leaves entity s ∧ Standing es entity s := by
  constructor
  · rintro ⟨before, e', after, h, hs, hl⟩
    obtain ⟨rfl, rfl, rfl⟩ | ⟨later, rfl, rfl⟩ := split_concat h
    · exact .inl hs
    · refine .inr ⟨hl e (by simp), before, e', later, rfl, hs, fun e'' he => ?_⟩
      exact hl e'' (List.mem_append_left _ he)
  · rintro (hs | ⟨hl, before, e', after, rfl, hs, ha⟩)
    · exact ⟨es, e, [], rfl, hs, by simp⟩
    · refine ⟨before, e', after ++ [e], by simp, hs, fun e'' he'' => ?_⟩
      rcases List.mem_append.mp he'' with h | h
      · exact ha e'' h
      · obtain rfl := List.mem_singleton.mp h
        exact hl

theorem sinceClear_concat (es : List Event) (e : Event) :
    sinceClear (es ++ [e]) = if e.request.isClear then [] else e :: sinceClear es := by
  unfold sinceClear
  rw [List.reverse_append, List.reverse_singleton, List.singleton_append, List.takeWhile_cons]
  cases e.request.isClear <;> rfl

theorem countP_sinceClear_concat (p : Event → Bool) (es : List Event) (e : Event) :
    (sinceClear (es ++ [e])).countP p =
      if e.request.isClear then 0
      else (sinceClear es).countP p + (if p e then 1 else 0) := by
  rw [sinceClear_concat]
  split
  · rfl
  · exact List.countP_cons

/-- No request both stores and drops. -/
theorem Event.not_drops_of_stored {e : Event} {p : String × Schema} (he : e.stored? = some p)
    (entity : String) (s : Schema) : ¬ e.request.Drops entity s := by
  obtain ⟨r, a⟩ := e
  cases r with
  | observe _ _ | invalidate _ | clear => cases he
  | _ => exact not_false

/-- An event that stores a schema leaves the entries of all other entities. -/
theorem entry?_of_stored {c : SchemaCache} {e : Event} {other : String} {s' : Schema}
    (he : e.stored? = some (other, s')) (entity : String) (s : Schema) :
    entry? (c.insertAs other s') entity = some s ↔
      e.stored? = some (entity, s) ∨ e.Leaves entity s ∧ c.entry? entity = some s := by
  have hd := Event.not_drops_of_stored he entity s
  rw [entry?_insertAs, Event.Leaves, he]
  by_cases hk : entity = other
  · subst hk
    simp
  · simp [hk, Ne.symm hk, hd]

/-- An event that stores nothing leaves what it does not drop. -/
theorem entry?_of_idle {c c' : SchemaCache} {e : Event} (he : e.stored? = none)
    {entity : String} {s : Schema}
    (h : c'.entry? entity = some s ↔ ¬ e.request.Drops entity s ∧ c.entry? entity = some s) :
    c'.entry? entity = some s ↔
      e.stored? = some (entity, s) ∨ e.Leaves entity s ∧ c.entry? entity = some s := by
  rw [h, Event.Leaves, he]
  simp

theorem entry?_get (c : SchemaCache) (other entity : String) :
    entry? (c.get other).2 entity = c.entry? entity := by
  cases h : c.entry? other with
  | some s => rw [get_of_some h, entry?, entry?]
  | none => rw [get_of_none h, entry?, entry?]

theorem entry?_invalidate (c : SchemaCache) (other entity : String) (s : Schema) :
    entry? (c.invalidate other).2 entity = some s ↔
      other ≠ entity ∧ c.entry? entity = some s := by
  show entry? (c.erase other) entity = some s ↔ _
  rw [entry?_erase]
  by_cases hk : entity = other
  · simp [hk]
  · simp [hk, Ne.symm hk]

theorem entry?_observeVersion (c : SchemaCache) (other : String) (version : UInt64)
    (entity : String) (s : Schema) : entry? (c.observeVersion other version).2 entity = some s ↔
      ¬ (other = entity ∧ s.version ≠ version) ∧ c.entry? entity = some s := by
  unfold observeVersion
  split
  · next s' h =>
    split
    · next hv =>
      refine ⟨fun hs => ⟨?_, hs⟩, And.right⟩
      rintro ⟨rfl, hne⟩
      obtain rfl := Option.some.inj (h.symm.trans hs)
      exact hne hv
    · next hv =>
      rw [entry?_erase]
      by_cases hk : entity = other
      · subst hk
        simp only [if_pos, reduceCtorEq, false_iff, true_and, not_and]
        intro hne hs
        obtain rfl := Option.some.inj (h.symm.trans hs)
        exact hne hv
      · simp [hk, Ne.symm hk]
  · next h =>
    refine ⟨fun hs => ⟨?_, hs⟩, And.right⟩
    rintro ⟨rfl, -⟩
    rw [h] at hs
    cases hs

theorem counters_observeVersion (c : SchemaCache) (entity : String) (version : UInt64) :
    (c.observeVersion entity version).2.hits = c.hits ∧
      (c.observeVersion entity version).2.misses = c.misses := by
  unfold observeVersion
  split
  · split <;> exact ⟨rfl, rfl⟩
  · exact ⟨rfl, rfl⟩

namespace Desk

/-- The event of one more request. -/
def event (d : Desk) (r : Request) : Event := ⟨r, (d.answer r).1⟩

theorem entry?_answer (d : Desk) (r : Request) (entity : String) (s : Schema) :
    entry? (d.answer r).2.cache entity = some s ↔
      (d.event r).stored? = some (entity, s) ∨
        (d.event r).Leaves entity s ∧ d.cache.entry? entity = some s := by
  cases r with
  | put s' => exact entry?_of_idle rfl (by simp [answer, event, Request.Drops])
  | insert s' => exact entry?_of_stored rfl entity s
  | insertAs other s' => exact entry?_of_stored rfl entity s
  | get other =>
    refine entry?_of_idle rfl ?_
    show entry? (d.cache.get other).2 entity = _ ↔ _
    rw [entry?_get]
    exact ⟨fun h => ⟨not_false, h⟩, And.right⟩
  | getOrFetch other source timeout =>
    rw [event, answer, lookup]
    dsimp only
    rcases d.cache.getOrFetch_cases (d.source source) other timeout with
      ⟨s', h, hl⟩ | ⟨s', h, hf, hl⟩ | ⟨e, h, hf, hl⟩
    · rw [hl]
      exact entry?_of_idle rfl ⟨fun hs => ⟨not_false, hs⟩, And.right⟩
    · rw [hl]
      exact entry?_of_stored rfl entity s
    · rw [hl]
      exact entry?_of_idle rfl ⟨fun hs => ⟨not_false, hs⟩, And.right⟩
  | observe other version =>
    exact entry?_of_idle rfl (d.cache.entry?_observeVersion other version entity s)
  | invalidate other => exact entry?_of_idle rfl (d.cache.entry?_invalidate other entity s)
  | clear =>
    refine entry?_of_idle rfl (iff_of_false ?_ fun h => h.1 trivial)
    rintro ⟨⟩

theorem distinct_answer {d : Desk} (h : d.cache.Distinct) (r : Request) :
    (d.answer r).2.cache.Distinct := by
  cases r with
  | put s => exact h
  | insert s => exact h.insertAs s.entity s
  | insertAs entity s => exact h.insertAs entity s
  | get entity =>
    rw [answer, get]
    split <;> exact h
  | getOrFetch entity source timeout =>
    rw [answer, lookup]
    rcases d.cache.getOrFetch_cases (d.source source) entity timeout with
      ⟨s, -, hl⟩ | ⟨s, -, -, hl⟩ | ⟨e, -, -, hl⟩
    · rw [hl]
      exact h
    · have hm : SchemaCache.Distinct { d.cache with misses := d.cache.misses + 1 } := h
      rw [hl]
      exact hm.insertAs entity s
    · rw [hl]
      exact h
  | observe entity version =>
    show (d.cache.observeVersion entity version).2.Distinct
    unfold observeVersion
    split
    · split
      · exact h
      · exact h.erase entity
    · exact h
  | invalidate entity => exact h.erase entity
  | clear => exact List.nodup_nil

/-- The counters after one more request. Only clearing takes them back. -/
theorem counters_answer (d : Desk) (r : Request) :
    (d.answer r).2.cache.hits =
      (if r.isClear then 0 else d.cache.hits + (if (d.event r).isHit then 1 else 0)) ∧
    (d.answer r).2.cache.hits + (d.answer r).2.cache.misses =
      if r.isClear then 0
      else d.cache.hits + d.cache.misses + (if r.isLookup then 1 else 0) := by
  cases r with
  | put _ | insert _ | insertAs _ _ | clear => exact ⟨rfl, rfl⟩
  | get entity =>
    rw [event, answer]
    cases h : d.cache.entry? entity with
    | some s =>
      rw [get_of_some h]
      exact ⟨rfl, Nat.add_right_comm _ 1 _⟩
    | none =>
      rw [get_of_none h]
      exact ⟨rfl, rfl⟩
  | getOrFetch entity source timeout =>
    rw [event, answer, lookup]
    rcases d.cache.getOrFetch_cases (d.source source) entity timeout with
      ⟨s, -, hl⟩ | ⟨s, -, -, hl⟩ | ⟨e, -, -, hl⟩
    · rw [hl]
      exact ⟨rfl, Nat.add_right_comm _ 1 _⟩
    · rw [hl]
      exact ⟨rfl, rfl⟩
    · rw [hl]
      exact ⟨rfl, rfl⟩
  | observe entity version =>
    obtain ⟨hh, hm⟩ := d.cache.counters_observeVersion entity version
    refine ⟨hh, ?_⟩
    show (d.cache.observeVersion entity version).2.hits +
      (d.cache.observeVersion entity version).2.misses = _
    rw [hh, hm]
    rfl
  | invalidate entity => exact ⟨rfl, rfl⟩

theorem served_answer (d : Desk) (r : Request) : (d.answer r).2.served =
    d.served + (if (d.event r).asksMemory then 1 else 0) := by
  cases r with
  | getOrFetch entity source timeout =>
    rw [event, answer, lookup]
    rcases d.cache.getOrFetch_cases (d.source source) entity timeout with
      ⟨s, -, hl⟩ | ⟨s, -, -, hl⟩ | ⟨e, -, -, hl⟩
    all_goals
      rw [hl]
      cases source <;> rfl
  | _ => rfl

/-- A lookup is a hit if there is an entry. -/
theorem isHit_event (d : Desk) (r : Request) :
    (d.event r).isHit = (r.sought?.bind d.cache.entry?).isSome := by
  cases r with
  | put _ | insert _ | insertAs _ _ | observe _ _ | invalidate _ | clear => rfl
  | get entity =>
    show (d.cache.get entity).1.isSome = (d.cache.entry? entity).isSome
    rw [get]
    split <;> next h => rw [h]
  | getOrFetch entity source timeout =>
    show (!(d.cache.getOrFetch (d.source source) entity timeout).asked) =
      (d.cache.entry? entity).isSome
    rcases d.cache.getOrFetch_cases (d.source source) entity timeout with
      ⟨s, h, hl⟩ | ⟨s, h, -, hl⟩ | ⟨e, h, -, hl⟩
    all_goals
      rw [hl, h]
      rfl

/-- A desk is as these events left it. -/
structure Follows (d : Desk) (es : List Event) : Prop where
  distinct : d.cache.Distinct
  entry (entity : String) (s : Schema) : d.cache.entry? entity = some s ↔ Standing es entity s
  lookups : d.cache.hits + d.cache.misses =
    (sinceClear es).countP fun e => e.request.isLookup
  hits : d.cache.hits = (sinceClear es).countP Event.isHit
  isHit (before : List Event) (e : Event) (after : List Event) (h : es = before ++ e :: after) :
    e.isHit = true ↔ ∃ entity s, e.request.sought? = some entity ∧ Standing before entity s
  served : d.served = es.countP Event.asksMemory

theorem follows_empty : empty.Follows [] where
  distinct := List.nodup_nil
  entry entity s := iff_of_false (by rintro ⟨⟩) (not_standing_nil entity s)
  lookups := rfl
  hits := rfl
  isHit before e after h := by simp at h
  served := rfl

/-- One more request and its answer keep a desk in step with its history. -/
theorem Follows.answer {d : Desk} {es : List Event} (h : d.Follows es) (r : Request) :
    (d.answer r).2.Follows (es ++ [d.event r]) where
  distinct := distinct_answer h.distinct r
  entry entity s := by rw [entry?_answer, standing_concat, h.entry]
  lookups := by
    rw [(d.counters_answer r).2, h.lookups, countP_sinceClear_concat]
    rfl
  hits := by
    rw [(d.counters_answer r).1, h.hits, countP_sinceClear_concat]
    rfl
  isHit before e after he := by
    -- the last event was answered by the desk as the events before it left it
    obtain ⟨rfl, rfl, -⟩ | ⟨later, -, rfl⟩ := split_concat he
    · rw [isHit_event, Option.isSome_iff_exists]
      simp only [Option.bind_eq_some_iff, h.entry]
      exact exists_comm.trans (by simp [event])
    · exact h.isHit before e later rfl
  served := by rw [served_answer, h.served, List.countP_append, List.countP_singleton]

/-- The requests of a run and their answers are its history, and the desk is as it says. -/
theorem Follows.foldl {d : Desk} {es : List Event} (h : d.Follows es) (requests : List Request) :
    (requests.foldl after (es, d)).2.Follows (requests.foldl after (es, d)).1 ∧
      (requests.foldl after (es, d)).1.map Event.request =
        es.map Event.request ++ requests := by
  induction requests generalizing d es with
  | nil => exact ⟨h, (List.append_nil _).symm⟩
  | cons r requests ih =>
    obtain ⟨hf, hr⟩ := ih (h.answer r)
    refine ⟨hf, hr.trans ?_⟩
    rw [List.map_append, List.append_assoc]
    rfl

/-- A request to drop an entry tells if it did. -/
def Reports (d : Desk) (r : Request) : Prop :=
  ∃ removed, (d.answer r).1 = .dropped removed ∧
    (removed = true ↔ ∃ entity s, d.cache.entry? entity = some s ∧
      entry? (d.answer r).2.cache entity = none)

theorem reports_invalidate (d : Desk) (entity : String) : d.Reports (.invalidate entity) := by
  refine ⟨_, rfl, ?_⟩
  show (d.cache.entry? entity).isSome = true ↔
    ∃ key s, d.cache.entry? key = some s ∧ entry? (d.cache.erase entity) key = none
  rw [Option.isSome_iff_exists]
  constructor
  · rintro ⟨s, hs⟩
    exact ⟨entity, s, hs, by rw [entry?_erase, if_pos rfl]⟩
  · rintro ⟨key, s, hs, hn⟩
    rw [entry?_erase] at hn
    split at hn
    · next hk => exact ⟨s, hk ▸ hs⟩
    · rw [hn] at hs
      cases hs

theorem reports_observe (d : Desk) (entity : String) (version : UInt64) :
    d.Reports (.observe entity version) := by
  refine ⟨_, rfl, ?_⟩
  show (d.cache.observeVersion entity version).1 = true ↔ ∃ key s,
    d.cache.entry? key = some s ∧ entry? (d.cache.observeVersion entity version).2 key = none
  have hsame : ¬ ∃ key s, d.cache.entry? key = some s ∧ d.cache.entry? key = none := by
    rintro ⟨key, s, hs, hn⟩
    rw [hn] at hs
    cases hs
  unfold observeVersion
  split
  · next s h =>
    split
    · exact iff_of_false Bool.false_ne_true hsame
    · exact iff_of_true rfl ⟨entity, s, h, by rw [entry?_erase, if_pos rfl]⟩
  · exact iff_of_false Bool.false_ne_true hsame

end Desk

end SchemaCache

open SchemaCache in
/-- After any run an entity has the entry that was last stored under it, if nothing has dropped it
since; the counters are those of the lookups since the cache was last cleared; and the next request
is answered accordingly. A lookup asks its source exactly if there is no entry, and then once. -/
theorem cache_follows_requests {requests : List Request} {es : List Event} {d : Desk}
    (h : Desk.run requests = (es, d)) :
    es.map Event.request = requests ∧
    d.cache.Distinct ∧
    (∀ entity s, d.cache.entry? entity = some s ↔ Standing es entity s) ∧
    d.cache.hits + d.cache.misses = (sinceClear es).countP (fun e => e.request.isLookup) ∧
    d.cache.hits = (sinceClear es).countP Event.isHit ∧
    (∀ before e after, es = before ++ e :: after → (e.isHit = true ↔
      ∃ entity s, e.request.sought? = some entity ∧ Standing before entity s)) ∧
    d.served = es.countP Event.asksMemory ∧
    (∀ entity, (d.answer (.get entity)).1 = .found (d.cache.entry? entity)) ∧
    (∀ entity source timeout,
      (∀ s, d.cache.entry? entity = some s →
        (d.answer (.getOrFetch entity source timeout)).1 = .looked (.ok s) false) ∧
      (d.cache.entry? entity = none →
        (d.answer (.getOrFetch entity source timeout)).1 =
          .looked ((d.source source).fetch entity timeout) true) ∧
      (∀ asks, ((d.cache.getOr entity ((d.source source).ask entity timeout)).run asks).2 =
        if (d.cache.entry? entity).isSome then asks else asks + 1) ∧
      ∀ e asked, (d.answer (.getOrFetch entity source timeout)).1 = .looked (.error e) asked →
        (d.answer (.getOrFetch entity source timeout)).2.cache.entries = d.cache.entries) ∧
    ∀ entity version, d.Reports (.observe entity version) ∧ d.Reports (.invalidate entity) := by
  have hrun := Desk.follows_empty.foldl requests
  rw [← Desk.run, h] at hrun
  obtain ⟨hf, hm⟩ := hrun
  refine ⟨hm, hf.distinct, hf.entry, hf.lookups, hf.hits, hf.isHit, hf.served, fun entity => ?_,
    fun entity source timeout => ⟨fun s hs => ?_, fun hn => ?_,
      d.cache.asks_getOr (d.source source) entity timeout, fun e asked he => ?_⟩,
    fun entity version => ⟨d.reports_observe entity version, d.reports_invalidate entity⟩⟩
  · rw [Desk.answer, SchemaCache.get]
    split <;> next he => rw [he]
  · rw [Desk.answer, Desk.lookup, getOrFetch_of_some hs]
    rfl
  · rw [Desk.answer, Desk.lookup, getOrFetch_of_none hn]
    rfl
  · have hc := cache_getOrFetch_of_error (Answer.looked.inj he).1
    show (d.lookup entity source timeout).cache.entries = d.cache.entries
    rw [Desk.lookup, hc]

open SchemaCache in
/-- A schema of invoices stored under orders stays there until orders are at another version. -/
theorem cache_follows_requests_mislabelled :
    let invoice : Schema := ⟨"Invoice", 1, []⟩
    let failing : Source := fun _ => .failed "connection refused"
    let requests := [.put ⟨"Order", 2, []⟩, .getOrFetch "Order" (some fun _ => .schema invoice) 500,
      .get "Invoice", .getOrFetch "Quote" (some failing) 500, .get "Order", .observe "Order" 2,
      .getOrFetch "Order" none 500]
    ∃ es d, Desk.run requests = (es, d) ∧
      (∃ s, Standing es "Order" s ∧ s.version = 2) ∧ (∀ s, ¬ Standing es "Quote" s) ∧
      d.cache.hits = 1 ∧ (sinceClear es).countP (fun e => e.request.isLookup) = 5 ∧
      d.served = 1 ∧
      (∀ asks, ((d.cache.getOr "Quote" (failing.ask "Quote" 500)).run asks).2 = asks + 1) ∧
      ∀ source timeout, ∃ s,
        (d.answer (.getOrFetch "Order" source timeout)).1 = .looked (.ok s) false := by
  intro invoice failing requests
  obtain ⟨-, -, hentry, hlookups, -, -, -, -, hfetch, -⟩ :=
    cache_follows_requests (rfl : Desk.run requests = _)
  refine ⟨_, _, rfl, ⟨_, (hentry "Order" _).mp rfl, rfl⟩, fun s hs => ?_, rfl, ?_, rfl, ?_, ?_⟩
  · have := (hentry "Quote" s).mpr hs
    cases this
  · rw [← hlookups]
    rfl
  · intro asks
    obtain ⟨-, -, hasks, -⟩ := hfetch "Quote" (some failing) 500
    exact hasks asks
  · intro source timeout
    exact ⟨_, (hfetch "Order" source timeout).1 _ rfl⟩

end Proforma
