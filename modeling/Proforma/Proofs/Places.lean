import Mathlib.Data.List.TakeWhile
import Proforma.Text.Position

/-!
Places in a text. A place in a text that comes after another one is found from the place where the
first one ends; spans name slices of a text, and a row of spans can tile a stretch of it.
-/
namespace Proforma.Text

theorem takeBytes_append (a b : List Char) (n : Nat) :
    takeBytes (byteLength a + n) (a ++ b) = (takeBytes n b).map (a ++ ·) := by
  induction a with
  | nil => simp
  | cons c a ih =>
    obtain ⟨m, hm⟩ := Nat.exists_eq_add_one.mpr c.utf8Size_pos
    have hn : byteLength (c :: a) + n = m + byteLength a + n + 1 := by
      rw [byteLength_cons]
      omega
    have hle : c.utf8Size ≤ m + byteLength a + n + 1 := by omega
    have hsub : m + byteLength a + n + 1 - c.utf8Size = byteLength a + n := by omega
    rw [hn, List.cons_append, takeBytes, if_pos hle, hsub, ih, Option.map_map]
    rfl

theorem takeBytes_byteLength (a b : List Char) : takeBytes (byteLength a) (a ++ b) = some a := by
  have h := takeBytes_append a b 0
  simpa [takeBytes] using h

theorem lastLine_append_of_mem {a b : List Char} (h : '\n' ∈ b) :
    lastLine (a ++ b) = lastLine b := by
  have hb : (b.reverse.takeWhile (· != '\n')).length ≠ b.reverse.length := by
    intro hl
    have he := (List.takeWhile_prefix _).eq_of_length hl
    have hm : '\n' ∈ b.reverse.takeWhile (· != '\n') := by rwa [he, List.mem_reverse]
    simpa using List.mem_takeWhile_imp hm
  unfold lastLine
  rw [List.reverse_append, List.takeWhile_append, if_neg hb]

theorem lastLine_append_of_not_mem {a b : List Char} (h : '\n' ∉ b) :
    lastLine (a ++ b) = lastLine a ++ b := by
  have hb : ∀ c ∈ b.reverse, (c != '\n') = true := by
    intro c hc
    have hm := List.mem_reverse.mp hc
    simp only [bne_iff_ne, ne_eq]
    rintro rfl
    exact h hm
  unfold lastLine
  rw [List.reverse_append, List.takeWhile_append_of_pos hb, List.reverse_append,
    List.reverse_reverse]

namespace Position

theorem within_start (p : Position) : p.within start = p := by
  obtain ⟨offset, line, column⟩ := p
  simp [within, start]

theorem line_after_eq_one {cs : List Char} : (after cs).line = 1 ↔ '\n' ∉ cs := by
  simp [after, List.count_eq_zero]

theorem after_append (a b : List Char) : after (a ++ b) = (after b).within (after a) := by
  by_cases h : '\n' ∈ b
  · have hn : ¬ (after b).line = 1 := by simpa [line_after_eq_one] using h
    simp only [within, if_neg hn]
    simp only [after, byteLength_append, List.count_append, lastLine_append_of_mem h]
    congr 1
    omega
  · have hn : (after b).line = 1 := line_after_eq_one.mpr h
    have hl : lastLine b = b := by
      simpa [lastLine] using lastLine_append_of_not_mem (a := []) h
    simp only [within, if_pos hn]
    simp only [after, byteLength_append, List.count_append, lastLine_append_of_not_mem h, hl,
      List.length_append]
    congr 1 <;> omega

/-- A place in the second text. -/
theorem ofOffset_append (a b : List Char) (n : Nat) :
    ofOffset (a ++ b) (byteLength a + n) = (ofOffset b n).within (after a) := by
  have hm : min (byteLength a + n) (byteLength a + byteLength b) =
      byteLength a + min n (byteLength b) := by omega
  have ha : ∀ cs, { after (a ++ cs) with offset := byteLength a + min n (byteLength b) } =
      ({ after cs with offset := min n (byteLength b) } : Position).within (after a) := by
    intro cs
    rw [after_append]
    rfl
  unfold ofOffset
  simp only [byteLength_append, hm, takeBytes_append]
  cases takeBytes (min n (byteLength b)) b with
  | none => exact ha b
  | some cs => exact ha cs

/-- A place in the first text. -/
theorem ofOffset_byteLength (before rest : List Char) :
    ofOffset (before ++ rest) (byteLength before) = after before := by
  have hm : min (byteLength before) (byteLength before + byteLength rest) = byteLength before := by
    omega
  unfold ofOffset
  simp only [byteLength_append, hm, takeBytes_byteLength]
  rfl

end Position

/-- The characters that a span of the text holds. -/
def IsSlice (source : List Char) (span : Span) (cs : List Char) : Prop :=
  ∃ before after, source = before ++ cs ++ after ∧ span.start = byteLength before ∧
    span.stop = byteLength before + byteLength cs

/-- Spans one after the other, without gap or overlap. -/
def Tiles : List Span → Nat → Nat → Prop
  | [], start, stop => start = stop
  | s :: ss, start, stop => s.start = start ∧ start ≤ s.stop ∧ Tiles ss s.stop stop

theorem byteLength_eq_zero {cs : List Char} : byteLength cs = 0 ↔ cs = [] := by
  cases cs with
  | nil => simp
  | cons c cs =>
    have := c.utf8Size_pos
    simp only [byteLength_cons, List.cons_ne_nil, iff_false]
    omega

theorem IsSlice.stop_eq {source cs : List Char} {span : Span} (h : IsSlice source span cs) :
    span.stop = span.start + byteLength cs := by
  obtain ⟨before, after, -, hstart, hstop⟩ := h
  rw [hstart, hstop]

/-- A slice that starts where the rest of the text does begins the rest. -/
theorem IsSlice.prefix_of_start {before rest cs : List Char} {span : Span}
    (h : IsSlice (before ++ rest) span cs) (hs : span.start = byteLength before) :
    cs <+: rest := by
  obtain ⟨before', after, he, hstart, -⟩ := h
  have ht : takeBytes (byteLength before) (before' ++ (cs ++ after)) = some before := by
    rw [← List.append_assoc, ← he, takeBytes_byteLength]
  rw [← hs, hstart, takeBytes_byteLength] at ht
  obtain rfl := Option.some.inj ht
  rw [List.append_assoc] at he
  exact ⟨after, (List.append_cancel_left he).symm⟩

/-- What stands before a span in a row and what stands after it. -/
theorem Tiles.split {s : Span} {ss rs : List Span} {start stop : Nat}
    (h : Tiles (ss ++ s :: rs) start stop) :
    Tiles ss start s.start ∧ start ≤ s.stop ∧ Tiles rs s.stop stop := by
  induction ss generalizing start with
  | nil =>
    obtain ⟨rfl, hle, h⟩ := h
    exact ⟨rfl, hle, h⟩
  | cons r ss ih =>
    obtain ⟨hr, hle, h⟩ := h
    obtain ⟨hss, hle', hrs⟩ := ih h
    exact ⟨⟨hr, hle, hss⟩, hle.trans hle', hrs⟩

end Proforma.Text
