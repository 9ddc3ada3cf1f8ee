import Proforma.Proofs.Parsing
import Proforma.Proofs.Written

/-!
Whatever is read can be written: names are identifiers, indices fit a word, no loop rebinds the
moment of rendering, and every filter takes the arguments it is given.
-/
namespace Proforma

open Text

theorem isIdentifier_of_readName {cs rest : List Char} {name : String}
    (h : readName cs = .ok (name, rest)) : isIdentifier name.toList = true := by
  unfold readName at h
  split at h
  · next word rest' hr =>
    obtain ⟨rfl, -⟩ := Prod.mk.inj (Except.ok.inj h)
    rw [String.toList_ofList]
    exact isIdentifier_of_readIdentifier? hr
  · cases h

theorem lt_size_of_readIndex {cs rest : List Char} {n : Nat} (h : readIndex cs = .ok (n, rest)) :
    n < UInt64.size := by
  unfold readIndex at h
  dsimp only at h
  split at h
  · cases h
  · next hn =>
    obtain ⟨rfl, -⟩ := Prod.mk.inj (Except.ok.inj h)
    simp only [Bool.or_eq_true, decide_eq_true_eq, not_or, Nat.not_le] at hn
    exact hn.2

theorem wellFormed_of_readDotted {cs rest : List Char} {s : Segment}
    (h : readDotted cs = .ok (s, rest)) : s.WellFormed := by
  unfold readDotted at h
  split at h
  · obtain ⟨⟨n, rest'⟩, hr, hs⟩ := bind_eq_ok.mp h
    obtain ⟨rfl, -⟩ := Prod.mk.inj (Except.ok.inj hs)
    exact lt_size_of_readIndex hr
  · obtain ⟨⟨name, rest'⟩, hr, hs⟩ := bind_eq_ok.mp h
    obtain ⟨rfl, -⟩ := Prod.mk.inj (Except.ok.inj hs)
    exact isIdentifier_of_readName hr

theorem wellFormed_of_readBracketed {cs rest : List Char} {s : Segment}
    (h : readBracketed cs = .ok (s, rest)) : s.WellFormed := by
  obtain ⟨⟨n, rest'⟩, hr, hs⟩ := bind_eq_ok.mp h
  dsimp only at hs
  split at hs
  · obtain ⟨rfl, -⟩ := Prod.mk.inj (Except.ok.inj hs)
    exact lt_size_of_readIndex hr
  · cases hs

theorem wellFormed_of_readSegments {cs rest : List Char} {ss : List Segment}
    (h : readSegments cs = .ok (ss, rest)) : ∀ s ∈ ss, s.WellFormed := by
  fun_induction readSegments cs generalizing ss rest with
  | case1 => cases h
  | case2 cs s after hs ih =>
    obtain ⟨⟨ss', rest'⟩, hr, he⟩ := bind_eq_ok.mp h
    obtain ⟨rfl, -⟩ := Prod.mk.inj (Except.ok.inj he)
    exact List.forall_mem_cons.mpr ⟨wellFormed_of_readDotted hs, ih hr⟩
  | case3 => cases h
  | case4 cs s after hs ih =>
    obtain ⟨⟨ss', rest'⟩, hr, he⟩ := bind_eq_ok.mp h
    obtain ⟨rfl, -⟩ := Prod.mk.inj (Except.ok.inj he)
    exact List.forall_mem_cons.mpr ⟨wellFormed_of_readBracketed hs, ih hr⟩
  | case5 =>
    obtain ⟨rfl, -⟩ := Prod.mk.inj (Except.ok.inj h)
    simp

theorem wellFormed_of_readPath {cs rest : List Char} {p : Path}
    (h : readPath cs = .ok (p, rest)) : p.WellFormed := by
  obtain ⟨⟨head, after⟩, hh, h⟩ := bind_eq_ok.mp h
  obtain ⟨⟨tail, rest'⟩, ht, h⟩ := bind_eq_ok.mp h
  obtain ⟨rfl, -⟩ := Prod.mk.inj (Except.ok.inj h)
  exact ⟨isIdentifier_of_readName hh, wellFormed_of_readSegments ht⟩

theorem isFinite_of_readLiteral {cs rest : List Char} {a : Literal}
    (h : readLiteral cs = .ok (a, rest)) : a.isFinite = true := by
  unfold readLiteral at h
  split at h
  · cases h
  · split at h
    · split at h
      · obtain ⟨rfl, -⟩ := Prod.mk.inj (Except.ok.inj h)
        rfl
      · cases h
    · split at h
      · dsimp only at h
        split at h
        · split at h
          · next hx =>
            obtain ⟨rfl, -⟩ := Prod.mk.inj (Except.ok.inj h)
            exact hx
          · cases h
        · cases h
      · cases h

theorem unexpected_ne_ok {α : Type} (rest : List Char) (a : α) : unexpected rest ≠ .ok a := by
  cases rest <;> exact nofun

theorem isFinite_of_readArguments {cs rest : List Char} {as : List Literal}
    (h : readArguments cs = .ok (as, rest)) : ∀ a ∈ as, a.isFinite = true := by
  fun_induction readArguments cs generalizing as rest with
  | case1 => cases h
  | case2 cs a after hl rest' hs =>
    obtain ⟨rfl, -⟩ := Prod.mk.inj (Except.ok.inj h)
    exact List.forall_mem_singleton.mpr (isFinite_of_readLiteral hl)
  | case3 cs a after hl more hs ih =>
    obtain ⟨⟨as', rest'⟩, hr, he⟩ := bind_eq_ok.mp h
    obtain ⟨rfl, -⟩ := Prod.mk.inj (Except.ok.inj he)
    exact List.forall_mem_cons.mpr ⟨isFinite_of_readLiteral hl, ih hr⟩
  | case4 => exact (unexpected_ne_ok _ _ h).elim

theorem isFinite_of_readCallArguments {cs rest : List Char} {as : List Literal}
    (h : readCallArguments cs = .ok (as, rest)) : ∀ a ∈ as, a.isFinite = true := by
  unfold readCallArguments at h
  split at h
  · split at h
    · obtain ⟨rfl, -⟩ := Prod.mk.inj (Except.ok.inj h)
      simp
    · exact isFinite_of_readArguments h
  · obtain ⟨rfl, -⟩ := Prod.mk.inj (Except.ok.inj h)
    simp

theorem wellFormed_of_readCall {stop : Nat} {cs rest : List Char} {call : FilterCall}
    (h : readCall stop cs = .ok (call, rest)) : Call.WellFormed call.call := by
  unfold readCall at h
  split at h
  · cases h
  · split at h
    · cases h
    · obtain ⟨⟨args, rest'⟩, ha, h⟩ := bind_eq_ok.mp h
      dsimp only at h
      split at h
      · next hn =>
        split at h
        · next hc =>
          obtain ⟨rfl, -⟩ := Prod.mk.inj (Except.ok.inj h)
          exact ⟨hn, hc, isFinite_of_readCallArguments ha⟩
        · cases h
      · cases h

theorem wellFormed_of_readPipeline {stop : Nat} {cs : List Char} {calls : List FilterCall}
    (h : readPipeline stop cs = .ok calls) : ∀ c ∈ calls, Call.WellFormed c.call := by
  fun_induction readPipeline stop cs generalizing calls with
  | case1 =>
    obtain rfl := Except.ok.inj h
    simp
  | case2 => cases h
  | case3 cs rest hs call after hc ih =>
    obtain ⟨calls', hr, he⟩ := bind_eq_ok.mp h
    obtain rfl := Except.ok.inj he
    exact List.forall_mem_cons.mpr ⟨wellFormed_of_readCall hc, ih hr⟩
  | case4 => exact (unexpected_ne_ok _ _ h).elim

theorem wellFormed_of_readExpression {stop : Nat} {content : List Char} {p : Path}
    {calls : List FilterCall} (h : readExpression stop content = .ok (p, calls)) :
    p.WellFormed ∧ ∀ c ∈ calls, Call.WellFormed c.call := by
  unfold readExpression at h
  split at h
  · cases h
  · obtain ⟨⟨path, rest⟩, hp, h⟩ := bind_eq_ok.mp h
    obtain ⟨filters, hf, h⟩ := bind_eq_ok.mp h
    obtain ⟨rfl, rfl⟩ := Prod.mk.inj (Except.ok.inj h)
    exact ⟨wellFormed_of_readPath hp, wellFormed_of_readPipeline hf⟩

theorem wellFormed_of_readOnlyPath {keyword : String} {cs : List Char} {p : Path}
    (h : readOnlyPath keyword cs = .ok p) : p.WellFormed := by
  unfold readOnlyPath at h
  split at h
  · cases h
  · obtain ⟨⟨path, rest⟩, hp, h⟩ := bind_eq_ok.mp h
    dsimp only at h
    split at h
    · obtain rfl := Except.ok.inj h
      exact wellFormed_of_readPath hp
    · exact (unexpected_ne_ok _ _ h).elim

theorem wellFormed_of_readLoopHeader {cs : List Char} {binding : String} {collection : Path}
    (h : readLoopHeader cs = .ok (binding, collection)) :
    (Directive.openFor binding collection).WellFormed := by
  unfold readLoopHeader at h
  dsimp only at h
  split at h
  · cases h
  · next hr =>
    split at h
    · cases h
    · next ht =>
      split at h
      · obtain ⟨path, hp, h⟩ := bind_eq_ok.mp h
        obtain ⟨rfl, rfl⟩ := Prod.mk.inj (Except.ok.inj h)
        refine ⟨?_, ht, wellFormed_of_readOnlyPath hp⟩
        rw [String.toList_ofList]
        exact isIdentifier_of_readIdentifier? hr
      · cases h

theorem wellFormed_of_readDirective {content : List Char} {d : Directive}
    (h : readDirective content = .ok d) : d.WellFormed := by
  unfold readDirective at h
  dsimp only at h
  split at h
  · cases h
  · obtain ⟨path, hp, h⟩ := bind_eq_ok.mp h
    obtain rfl := Except.ok.inj h
    exact wellFormed_of_readOnlyPath hp
  · obtain ⟨-, -, h⟩ := bind_eq_ok.mp h
    obtain rfl := Except.ok.inj h
    exact trivial
  · obtain ⟨-, -, h⟩ := bind_eq_ok.mp h
    obtain rfl := Except.ok.inj h
    exact trivial
  · obtain ⟨⟨binding, collection⟩, hh, h⟩ := bind_eq_ok.mp h
    obtain rfl := Except.ok.inj h
    exact wellFormed_of_readLoopHeader hh
  · obtain ⟨-, -, h⟩ := bind_eq_ok.mp h
    obtain rfl := Except.ok.inj h
    exact trivial
  · cases h

/-- What a piece is read as can be written. -/
theorem Chunk.wellFormed_part? {c : Chunk} {q : Part} (hs : c.Sound) (h : c.part? = some q) :
    q.WellFormed := by
  cases c with
  | text raw =>
    obtain rfl := Option.some.inj h
    obtain ⟨hn, hu⟩ := hs
    refine ⟨?_, ?_⟩
    · intro he
      exact hn (by simpa using he)
    · rw [String.toList_ofList]
      exact hu
  | directive d content =>
    cases d with
    | expression =>
      simp only [part?] at h
      split at h
      · next hr =>
        obtain rfl := Option.some.inj h
        obtain ⟨hp, hc⟩ := wellFormed_of_readExpression hr
        exact ⟨hp, List.forall_mem_map.mpr hc⟩
      · cases h
    | tag =>
      simp only [part?] at h
      split at h
      · next hr =>
        obtain rfl := Option.some.inj h
        exact wellFormed_of_readDirective hr
      · cases h

theorem wellFormed_of_parseChars {source : List Char} {t : Tree} (h : parseChars source = .ok t) :
    ∀ q ∈ t.parts, q.WellFormed := by
  obtain ⟨cs, hc, -, hp⟩ := exists_cut_of_parseChars h
  intro q hq
  -- each part of the tree is what one of the pieces is read as
  have hm : some q ∈ cs.map Chunk.part? := hp ▸ List.mem_map_of_mem hq
  obtain ⟨c, hcm, hcq⟩ := List.mem_map.mp hm
  exact c.wellFormed_part? (hc.sound c hcm) hcq

end Proforma
