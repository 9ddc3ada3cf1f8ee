import Proforma.Proofs.Caching

/-!
Lookups that overlap. A lookup that finds no entry waits for its source and stores the answer when
it has one; until then schemas change, versions are observed, and other lookups begin and end. An
observation drops the entry of another version, but not a schema that a lookup already holds and
stores later on. So what is found after an observation is fresh exactly if no lookup held a schema
of another version at that moment.
-/
namespace Proforma

namespace SchemaCache

/-- A lookup that found no entry. It holds what its source answered until that is stored. -/
structure Waiting where
  entity : String
  source : Option Source
  timeout : UInt64
  held : Option Schema

/-- A desk, and the lookups that wait at it by their numbers. -/
structure Traffic where
  desk : Desk
  waiting : List (Nat × Waiting)
  /-- The number of the next lookup that has to wait. -/
  next : Nat

namespace Traffic

/-- What happens at a desk, in single steps. A lookup that finds an entry is over at once; any
other one misses, is answered and stores, unless its source fails or it is given up. -/
inductive Event where
  | put (s : Schema)
  | observed (entity : String) (version : UInt64)
  | found (entity : String) (s : Schema)
  | missed (n : Nat) (entity : String)
  | answered (n : Nat) (entity : String) (s : Schema)
  | failed (n : Nat) (entity : String) (e : LookupError)
  | stored (n : Nat) (entity : String) (s : Schema)
  | givenUp (n : Nat) (entity : String)

def empty : Traffic := ⟨.empty, [], 0⟩

def withCache (t : Traffic) (cache : SchemaCache) : Traffic :=
  { t with desk := { t.desk with cache } }

/-- A request that is answered at once. -/
def request (t : Traffic) (r : Request) : Traffic := { t with desk := (t.desk.answer r).2 }

/-- The source of a lookup has been asked. -/
def ask (t : Traffic) (w : Waiting) : Traffic :=
  { t with desk := { t.desk with
    served := if w.source.isNone then t.desk.served + 1 else t.desk.served } }

/-- The lookup of that number is over. -/
def close (t : Traffic) (n : Nat) : Traffic :=
  { t with waiting := t.waiting.filter fun w => w.1 != n }

/-- A lookup begins to wait. -/
def wait (t : Traffic) (w : Waiting) : Traffic :=
  { t with waiting := (t.next, w) :: t.waiting, next := t.next + 1 }

/-- The lookup of that number holds a schema. -/
def hold (t : Traffic) (n : Nat) (w : Waiting) (s : Schema) : Traffic :=
  { t with waiting := (n, { w with held := some s }) :: (t.close n).waiting }

/-- What a source answers, it answers as it is at that moment. -/
inductive Step (t : Traffic) : Event → Traffic → Prop
  | put (s : Schema) : Step t (.put s) (t.request (.put s))
  | observe (entity : String) (version : UInt64) :
    Step t (.observed entity version) (t.request (.observe entity version))
  | find {entity : String} {s : Schema} {cache : SchemaCache}
      (h : t.desk.cache.get entity = (some s, cache)) :
    Step t (.found entity s) (t.withCache cache)
  | miss {entity : String} {cache : SchemaCache} (source : Option Source) (timeout : UInt64)
      (h : t.desk.cache.get entity = (none, cache)) :
    Step t (.missed t.next entity) ((t.withCache cache).wait ⟨entity, source, timeout, none⟩)
  | answer {n : Nat} {w : Waiting} {s : Schema} (hw : t.waiting.lookup n = some w)
      (hn : w.held = none) (hf : (t.desk.source w.source).fetch w.entity w.timeout = .ok s) :
    Step t (.answered n w.entity s) ((t.ask w).hold n w s)
  | fail {n : Nat} {w : Waiting} {e : LookupError} (hw : t.waiting.lookup n = some w)
      (hn : w.held = none) (hf : (t.desk.source w.source).fetch w.entity w.timeout = .error e) :
    Step t (.failed n w.entity e) ((t.ask w).close n)
  | store {n : Nat} {w : Waiting} {s : Schema} (hw : t.waiting.lookup n = some w)
      (hs : w.held = some s) :
    Step t (.stored n w.entity s) ((t.withCache (t.desk.cache.insertAs w.entity s)).close n)
  | giveUp {n : Nat} {w : Waiting} (hw : t.waiting.lookup n = some w) :
    Step t (.givenUp n w.entity) (t.close n)

/-- One state leads to the other by these events, one after the other. -/
inductive Leads (t : Traffic) : List Event → Traffic → Prop
  | refl : Leads t [] t
  | step {es : List Event} {u v : Traffic} {e : Event} (h : Leads t es u) (hs : u.Step e v) :
    Leads t (es ++ [e]) v

/-- A lookup waits to store this schema. -/
def Holds (t : Traffic) (n : Nat) (entity : String) (s : Schema) : Prop :=
  ∃ w, t.waiting.lookup n = some w ∧ w.entity = entity ∧ w.held = some s

/-- The lookup of that number stored the schema, and none has stored another one since then. -/
def StoredBy (es : List Event) (n : Nat) (entity : String) (s : Schema) : Prop :=
  ∃ before after, es = before ++ .stored n entity s :: after ∧
    ∀ m s', .stored m entity s' ∉ after

/-- Of that version, or answered and stored in the course of these events. -/
def Fresh (es : List Event) (entity : String) (version : UInt64) (s : Schema) : Prop :=
  s.version = version ∨ ∃ n, StoredBy es n entity s ∧ .answered n entity s ∈ es

theorem lookup_close (t : Traffic) (n m : Nat) : (t.close n).waiting.lookup m =
    if m = n then none else t.waiting.lookup m :=
  lookup_filter_ne n m t.waiting

theorem holds_of_close {t : Traffic} {n m : Nat} {entity : String} {s : Schema}
    (h : (t.close n).Holds m entity s) : t.Holds m entity s := by
  obtain ⟨w, hw, he⟩ := h
  rw [lookup_close] at hw
  split at hw
  · cases hw
  · exact ⟨w, hw, he⟩

theorem holds_of_hold {t : Traffic} {n m : Nat} {w : Waiting} {entity : String} {s s' : Schema}
    (h : (t.hold n w s').Holds m entity s) :
    t.Holds m entity s ∨ m = n ∧ w.entity = entity ∧ s' = s := by
  obtain ⟨w', hw, he, hs⟩ := h
  have hl : List.lookup m ((n, { w with held := some s' }) :: (t.close n).waiting) = some w' := hw
  rw [List.lookup_cons] at hl
  split at hl
  · next hm =>
    obtain rfl := Option.some.inj hl
    exact .inr ⟨eq_of_beq hm, he, Option.some.inj hs⟩
  · exact .inl (holds_of_close ⟨w', hl, he, hs⟩)

theorem holds_of_wait {t : Traffic} {w : Waiting} (hn : w.held = none) {m : Nat}
    {entity : String} {s : Schema} (h : (t.wait w).Holds m entity s) : t.Holds m entity s := by
  obtain ⟨w', hw, he, hs⟩ := h
  have hl : List.lookup m ((t.next, w) :: t.waiting) = some w' := hw
  rw [List.lookup_cons] at hl
  split at hl
  · obtain rfl := Option.some.inj hl
    rw [hn] at hs
    cases hs
  · exact ⟨w', hl, he, hs⟩

/-- A lookup holds what it held before, or what its source has just answered. -/
theorem Step.holds {t u : Traffic} {e : Event} (h : t.Step e u) {n : Nat} {entity : String}
    {s : Schema} (hu : u.Holds n entity s) : t.Holds n entity s ∨ e = .answered n entity s := by
  cases h with
  | put | observe | find => exact .inl hu
  | miss => exact .inl (holds_of_wait rfl hu)
  | answer =>
    rcases holds_of_hold hu with hu | ⟨rfl, rfl, rfl⟩
    · exact .inl hu
    · exact .inr rfl
  | fail | store | giveUp => exact .inl (holds_of_close hu)

/-- An entry was there before and nothing was stored in its place, or a lookup that held it has
just stored it. -/
theorem Step.entry {t u : Traffic} {e : Event} (h : t.Step e u) {entity : String} {s : Schema}
    (hu : u.desk.cache.entry? entity = some s) :
    (t.desk.cache.entry? entity = some s ∧ ∀ n s', e ≠ .stored n entity s') ∨
      ∃ n, e = .stored n entity s ∧ t.Holds n entity s := by
  cases h with
  | observe other version =>
    exact .inl ⟨((entry?_observeVersion _ other version entity s).mp hu).2, by simp⟩
  | @find other s' cache hg =>
    have hc : cache = (t.desk.cache.get other).2 := by rw [hg]
    subst hc
    exact .inl ⟨(entry?_get t.desk.cache other entity).symm.trans hu, by simp⟩
  | @miss other cache _ _ hg =>
    have hc : cache = (t.desk.cache.get other).2 := by rw [hg]
    subst hc
    exact .inl ⟨(entry?_get t.desk.cache other entity).symm.trans hu, by simp⟩
  | @store n w s' hw hs =>
    have hi : entry? (t.desk.cache.insertAs w.entity s') entity = some s := hu
    rw [entry?_insertAs] at hi
    split at hi
    · next he =>
      obtain rfl := Option.some.inj hi
      exact .inr ⟨n, by rw [he], w, hw, he.symm, hs⟩
    · next he =>
      refine .inl ⟨hi, fun m s'' h => he ?_⟩
      exact (Event.stored.inj h).2.1.symm
  | put | answer | fail | giveUp => exact .inl ⟨hu, by simp⟩

theorem storedBy_concat (es : List Event) (n : Nat) (entity : String) (s : Schema) :
    StoredBy (es ++ [.stored n entity s]) n entity s := ⟨es, [], rfl, by simp⟩

theorem StoredBy.concat {es : List Event} {n : Nat} {entity : String} {s : Schema}
    (h : StoredBy es n entity s) {e : Event} (he : ∀ m s', e ≠ .stored m entity s') :
    StoredBy (es ++ [e]) n entity s := by
  obtain ⟨before, after, rfl, ha⟩ := h
  refine ⟨before, after ++ [e], by simp, fun m s' hm => ?_⟩
  rcases List.mem_append.mp hm with hm | hm
  · exact ha m s' hm
  · exact he m s' (List.mem_singleton.mp hm).symm

/-- What a lookup holds in the end, it held from the start or was answered on the way. -/
theorem Leads.holds {t u : Traffic} {es : List Event} (h : t.Leads es u) {n : Nat}
    {entity : String} {s : Schema} (hu : u.Holds n entity s) :
    t.Holds n entity s ∨ .answered n entity s ∈ es := by
  induction h with
  | refl => exact .inl hu
  | step _ hs ih =>
    rcases hs.holds hu with hu | rfl
    · exact (ih hu).imp id (List.mem_append_left _)
    · exact .inr (by simp)

/-- An entry was there from the start, or the lookup that stored it last held it from the start or
was answered on the way. -/
theorem Leads.entry {t u : Traffic} {es : List Event} (h : t.Leads es u) {entity : String}
    {s : Schema} (hu : u.desk.cache.entry? entity = some s) :
    t.desk.cache.entry? entity = some s ∨ ∃ n, StoredBy es n entity s ∧
      (t.Holds n entity s ∨ .answered n entity s ∈ es) := by
  induction h with
  | refl => exact .inl hu
  | step h hs ih =>
    rcases hs.entry hu with ⟨hu, he⟩ | ⟨n, rfl, hn⟩
    · rcases ih hu with hu | ⟨n, hn, ha⟩
      · exact .inl hu
      · exact .inr ⟨n, hn.concat he, ha.imp id (List.mem_append_left _)⟩
    · exact .inr ⟨n, storedBy_concat _ n entity s, (h.holds hn).imp id (List.mem_append_left _)⟩

theorem entry?_of_get {c c' : SchemaCache} {entity : String} {s : Schema}
    (h : c.get entity = (some s, c')) : c.entry? entity = some s := by
  cases hc : c.entry? entity with
  | none => rw [get_of_none hc] at h; cases h
  | some s' => rw [get_of_some hc] at h; cases h; rfl

/-- An observation leaves no entry of another version. -/
theorem version_of_observed {t u : Traffic} {entity : String} {version : UInt64}
    (h : t.Step (.observed entity version) u) {s : Schema}
    (hs : u.desk.cache.entry? entity = some s) : s.version = version := by
  cases h
  have hv := ((entry?_observeVersion t.desk.cache entity version entity s).mp hs).1
  exact Decidable.of_not_not fun hne => hv ⟨rfl, hne⟩

theorem holds_of_observed {t u : Traffic} {entity : String} {version : UInt64}
    (h : t.Step (.observed entity version) u) {n : Nat} {other : String} {s : Schema} :
    u.Holds n other s ↔ t.Holds n other s := by
  cases h
  exact Iff.rfl

/-- A lookup that holds a schema can store it, and the next one finds it. -/
theorem Holds.exists_found {t : Traffic} {n : Nat} {entity : String} {s : Schema}
    (h : t.Holds n entity s) :
    ∃ u v, t.Leads [.stored n entity s] u ∧ u.Step (.found entity s) v := by
  obtain ⟨w, hw, rfl, hs⟩ := h
  have he : entry? (t.desk.cache.insertAs w.entity s) w.entity = some s := by
    rw [entry?_insertAs, if_pos rfl]
  exact ⟨_, _, .step .refl (.store hw hs), .find (get_of_some he)⟩

/-- A lookup that nothing comes between is a request that is answered at once. -/
theorem exists_alone (t : Traffic) (entity : String) (source : Option Source)
    (timeout : UInt64) : ∃ es u, t.Leads es u ∧
      u.desk = (t.desk.answer (.getOrFetch entity source timeout)).2 ∧
      match (t.desk.lookup entity source timeout).result with
      | .ok s => es = [.found entity s] ∨
        es = [.missed t.next entity, .answered t.next entity s, .stored t.next entity s]
      | .error e => es = [.missed t.next entity, .failed t.next entity e] := by
  let w : Waiting := ⟨entity, source, timeout, none⟩
  let missed := (t.withCache { t.desk.cache with misses := t.desk.cache.misses + 1 }).wait w
  have hmiss (he : t.desk.cache.entry? entity = none) :
      t.Leads [.missed t.next entity] missed :=
    .step .refl (.miss source timeout (get_of_none he))
  have hw : missed.waiting.lookup t.next = some w := List.lookup_cons_self
  rw [Desk.answer, Desk.lookup]
  rcases t.desk.cache.getOrFetch_cases (t.desk.source source) entity timeout with
    ⟨s, he, hl⟩ | ⟨s, he, hf, hl⟩ | ⟨e, he, hf, hl⟩
  · rw [hl]
    exact ⟨_, _, .step .refl (.find (get_of_some he)), by simp [withCache], .inl rfl⟩
  · have ha : missed.Step (.answered t.next entity s) ((missed.ask w).hold t.next w s) :=
      .answer hw rfl hf
    rw [hl]
    refine ⟨_, _, ((hmiss he).step ha).step (.store List.lookup_cons_self rfl), ?_, .inr rfl⟩
    simp [missed, w, withCache, ask, hold, close, wait]
  · have ha : missed.Step (.failed t.next entity e) ((missed.ask w).close t.next) :=
      .fail hw rfl hf
    rw [hl]
    refine ⟨_, _, (hmiss he).step ha, ?_, rfl⟩
    simp [missed, w, withCache, ask, close, wait]

end Traffic

end SchemaCache

open SchemaCache Traffic in
/-- After a version was observed, a lookup finds a schema of that version, or one that was answered
since then, or one that another lookup held at the time of the observation and stored later on. So
all that is found is fresh exactly if no lookup held a schema of another version. -/
theorem lookups_fresh_iff {es : List Traffic.Event} {t u : Traffic} {entity : String}
    {version : UInt64} (h : Traffic.empty.Leads es t)
    (ho : t.Step (.observed entity version) u) :
    (∀ later v w s, u.Leads later v → v.Step (.found entity s) w →
      Fresh later entity version s ∨ ∃ n, StoredBy later n entity s ∧ t.Holds n entity s ∧
        .answered n entity s ∈ es) ∧
    ((∀ later v w s, u.Leads later v → v.Step (.found entity s) w →
      Fresh later entity version s) ↔ ∀ n s, t.Holds n entity s → s.version = version) := by
  have hfound : ∀ later v w s, u.Leads later v → v.Step (.found entity s) w →
      Fresh later entity version s ∨ ∃ n, StoredBy later n entity s ∧ t.Holds n entity s := by
    intro later v w s hl hs
    cases hs with
    | find hg =>
      rcases hl.entry (entry?_of_get hg) with he | ⟨n, hn, hh | ha⟩
      · exact .inl (.inl (version_of_observed ho he))
      · exact .inr ⟨n, hn, (holds_of_observed ho).mp hh⟩
      · exact .inl (.inr ⟨n, hn, ha⟩)
  refine ⟨fun later v w s hl hs => ?_, fun hfresh n s hn => ?_, fun hheld later v w s hl hs => ?_⟩
  · refine (hfound later v w s hl hs).imp id ?_
    rintro ⟨n, hn, hh⟩
    have hanswered : .answered n entity s ∈ es := by
      refine (h.holds hh).resolve_left ?_
      rintro ⟨w, hw, -⟩
      cases hw
    exact ⟨n, hn, hh, hanswered⟩
  · -- the lookup stores what it held, and nothing is answered meanwhile
    obtain ⟨v, w, hl, hs⟩ := ((holds_of_observed ho).mpr hn).exists_found
    rcases hfresh _ v w s hl hs with hv | ⟨m, -, ha⟩
    · exact hv
    · simp at ha
  · rcases hfound later v w s hl hs with hf | ⟨n, -, hh⟩
    · exact hf
    · exact .inl (hheld n s hh)

open SchemaCache Traffic in
/-- A schema that a lookup held while orders were at their next version is found after all. -/
theorem lookups_fresh_iff_held :
    let old : Schema := ⟨"Order", 1, []⟩
    let es : List Traffic.Event :=
      [.put old, .missed 0 "Order", .answered 0 "Order" old, .put ⟨"Order", 2, []⟩]
    let later : List Traffic.Event := [.stored 0 "Order" old]
    ∃ t u v w, Traffic.empty.Leads es t ∧ t.Step (.observed "Order" 2) u ∧ u.Leads later v ∧
      v.Step (.found "Order" old) w ∧ ¬ Fresh later "Order" 2 old ∧
      ¬ ∀ n s, t.Holds n "Order" s → s.version = 2 := by
  intro old es later
  let waiting : Waiting := ⟨"Order", none, 500, none⟩
  have h : ∃ t, Traffic.empty.Leads es t ∧ t.Holds 0 "Order" old :=
    ⟨_, (((Leads.refl.step (.put old)).step (.miss none 500 rfl)).step
      (.answer (w := waiting) rfl rfl rfl)).step (.put _), _, rfl, rfl, rfl⟩
  obtain ⟨t, h, hold⟩ := h
  have ho := Step.observe (t := t) "Order" 2
  obtain ⟨v, w, hl, hs⟩ := ((holds_of_observed ho).mpr hold).exists_found
  have hstale : ¬ Fresh later "Order" 2 old := by
    rintro (hv | ⟨n, -, ha⟩)
    · revert hv
      decide
    · simp [later] at ha
  exact ⟨t, _, v, w, h, ho, hl, hs, hstale, fun hheld =>
    hstale ((lookups_fresh_iff h ho).2.mpr hheld later v w old hl hs)⟩

end Proforma
