import Mathlib.Data.List.Chain
import Mathlib.Data.List.Forall2
import Proforma.Proofs.Cutting
import Proforma.Proofs.Tree

/-!
How a template is written. White space is free around the tokens between delimiters; indices,
quotes and empty parentheses can be written in more than one way.
-/
namespace Proforma

open Text

/-- The digits of an index; zeros may stand in front. -/
def WritesIndex (n : Nat) (ds : List Char) : Prop :=
  ds ≠ [] ∧ (∀ c ∈ ds, c.isDigit = true) ∧ Double.digitsValue ds = n

inductive Segment.Written : Segment → List Char → Prop where
  | field (name : String) : Written (.field name) ('.' :: name.toList)
  | dotted {n : Nat} {ds : List Char} (h : WritesIndex n ds) : Written (.index n) ('.' :: ds)
  | bracketed {n : Nat} {ds : List Char} (h : WritesIndex n ds) :
    Written (.index n) ('[' :: ds ++ [']'])

/-- A path is one token: no white space stands inside it. -/
inductive Path.Written : Path → List Char → Prop where
  | intro {p : Path} {tail : List (List Char)} (h : List.Forall₂ Segment.Written p.tail tail) :
    Written p (p.head.toList ++ tail.flatten)

/-- A backslash before each backslash and each quote. -/
def escaped (quote : Char) (s : List Char) : List Char :=
  s.flatMap fun c => if c = '\\' ∨ c = quote then ['\\', c] else [c]

/-- A minus sign, digits, and a point with further digits; sign and point may be left out. -/
def decimalText (negative : Bool) (whole : List Char) (fraction : Option (List Char)) : List Char :=
  (if negative then ['-'] else []) ++ whole ++ (fraction.map ('.' :: ·)).getD []

inductive Literal.Written : Literal → List Char → Prop where
  | text (s : String) {quote : Char} (h : isQuote quote = true) :
    Written (.text s) (quote :: escaped quote s.toList ++ [quote])
  /-- The number is the double nearest to what its digits say. -/
  | number {negative : Bool} {whole : List Char} {fraction : Option (List Char)}
    (hw : ∀ c ∈ whole, c.isDigit = true) (hf : ∀ c ∈ fraction.getD [], c.isDigit = true)
    (hn : whole ≠ [] ∨ negative = true ∧ fraction.getD [] ≠ []) :
    Written
      (.number (.ofDecimal negative (Double.digitsValue (whole ++ fraction.getD []))
        (-(fraction.getD []).length)))
      (decimalText negative whole fraction)

/-- Arguments with commas between them. -/
inductive ArgumentsWritten : List Literal → List Char → Prop where
  | last {a : Literal} {before cs after : List Char} (hb : allBlank before = true)
    (h : a.Written cs) (ha : allBlank after = true) :
    ArgumentsWritten [a] (before ++ cs ++ after)
  | cons {a : Literal} {as : List Literal} {before cs after more : List Char}
    (hb : allBlank before = true) (h : a.Written cs) (ha : allBlank after = true)
    (hs : ArgumentsWritten as more) :
    ArgumentsWritten (a :: as) (before ++ cs ++ after ++ ',' :: more)

/-- Without arguments, the parentheses may be left out. -/
inductive Call.Written : Call → List Char → Prop where
  | bare (f : Filter) : Written (f, []) f.name.toList
  | empty (f : Filter) {gap inner : List Char} (hg : allBlank gap = true)
    (hi : allBlank inner = true) : Written (f, []) (f.name.toList ++ gap ++ '(' :: inner ++ [')'])
  | applied (f : Filter) {as : List Literal} {gap cs : List Char} (hg : allBlank gap = true)
    (h : ArgumentsWritten as cs) : Written (f, as) (f.name.toList ++ gap ++ '(' :: cs ++ [')'])

/-- Calls with a bar before each of them. -/
inductive PipelineWritten : List Call → List Char → Prop where
  | nil {gap : List Char} (h : allBlank gap = true) : PipelineWritten [] gap
  | cons {c : Call} {calls : List Call} {before after cs more : List Char}
    (hb : allBlank before = true) (ha : allBlank after = true) (h : Call.Written c cs)
    (hs : PipelineWritten calls more) :
    PipelineWritten (c :: calls) (before ++ '|' :: after ++ cs ++ more)

inductive ExpressionWritten : Path → List Call → List Char → Prop where
  | intro {p : Path} {calls : List Call} {gap cs more : List Char} (hg : allBlank gap = true)
    (hp : p.Written cs) (hs : PipelineWritten calls more) :
    ExpressionWritten p calls (gap ++ cs ++ more)

/-- White space that keeps two words apart. -/
def IsSpace (gap : List Char) : Prop := gap ≠ [] ∧ allBlank gap = true

inductive Directive.Written : Directive → List Char → Prop where
  | openIf {p : Path} {before gap cs after : List Char} (hb : allBlank before = true)
    (hg : IsSpace gap) (hp : p.Written cs) (ha : allBlank after = true) :
    Written (.openIf p) (before ++ "if".toList ++ gap ++ cs ++ after)
  | middle {before after : List Char} (hb : allBlank before = true) (ha : allBlank after = true) :
    Written .middle (before ++ "else".toList ++ after)
  | closeIf {before after : List Char} (hb : allBlank before = true) (ha : allBlank after = true) :
    Written .closeIf (before ++ "endif".toList ++ after)
  | openFor (binding : String) {p : Path} {before gap gap' gap'' cs after : List Char}
    (hb : allBlank before = true) (hg : IsSpace gap) (hg' : IsSpace gap') (hg'' : IsSpace gap'')
    (hp : p.Written cs) (ha : allBlank after = true) :
    Written (.openFor binding p)
      (before ++ "for".toList ++ gap ++ binding.toList ++ gap' ++ "in".toList ++ gap'' ++ cs ++
        after)
  | closeFor {before after : List Char} (hb : allBlank before = true) (ha : allBlank after = true) :
    Written .closeFor (before ++ "endfor".toList ++ after)

inductive Part.Written : Part → Chunk → Prop where
  | text (raw : String) : Written (.text raw) (.text raw.toList)
  | expression {p : Path} {calls : List Call} {content : List Char}
    (h : ExpressionWritten p calls content) :
    Written (.expression p calls) (.directive .expression content)
  | directive {d : Directive} {content : List Char} (h : d.Written content) :
    Written (.directive d) (.directive .tag content)

def Segment.WellFormed : Segment → Prop
  | field name => isIdentifier name.toList = true
  | index n => n < UInt64.size

instance : (s : Segment) → Decidable s.WellFormed
  | .field name => inferInstanceAs (Decidable (isIdentifier name.toList = true))
  | .index n => inferInstanceAs (Decidable (n < UInt64.size))

def Path.WellFormed (p : Path) : Prop :=
  isIdentifier p.head.toList = true ∧ ∀ s ∈ p.tail, s.WellFormed

instance (p : Path) : Decidable p.WellFormed := inferInstanceAs (Decidable (_ ∧ _))

/-- Only finite numbers can be written with digits. -/
def Literal.isFinite : Literal → Bool
  | text _ => true
  | number x => x.isFinite

/-- The filter takes these arguments, and they can be written. -/
def Call.WellFormed (c : Call) : Prop :=
  c.1.acceptsCount c.2.length = true ∧ c.1.checkArguments c.2 = .ok () ∧
    ∀ a ∈ c.2, a.isFinite = true

instance (c : Call) : Decidable (Call.WellFormed c) := inferInstanceAs (Decidable (_ ∧ _ ∧ _))

def Directive.WellFormed : Directive → Prop
  | openIf path => path.WellFormed
  | openFor binding collection =>
    isIdentifier binding.toList = true ∧ binding ≠ todayName ∧ collection.WellFormed
  | middle | closeIf | closeFor => True

instance : (d : Directive) → Decidable d.WellFormed
  | .openIf path => inferInstanceAs (Decidable path.WellFormed)
  | .openFor _ _ => inferInstanceAs (Decidable (_ ∧ _ ∧ _))
  | .middle | .closeIf | .closeFor => inferInstanceAs (Decidable True)

theorem unopened_iff {cs : List Char} :
    Unopened cs ↔ ¬ ['{', '{'] <:+: cs ∧ ¬ ['{', '%'] <:+: cs := by
  constructor
  · intro h
    exact ⟨h .expression, h .tag⟩
  · rintro ⟨he, ht⟩ d
    cases d with
    | expression => exact he
    | tag => exact ht

instance (cs : List Char) : Decidable (Unopened cs) := decidable_of_iff _ unopened_iff.symm

/-- No delimiter that matters to an expression shows up. -/
def Undelimited (cs : List Char) : Prop :=
  Unopened cs ∧ ¬ Delimiter.expression.closer <:+: cs

instance (cs : List Char) : Decidable (Undelimited cs) := inferInstanceAs (Decidable (_ ∧ ¬ _))

def Chunk.Undelimited : Chunk → Prop
  | directive .expression content => Proforma.Undelimited content
  | _ => True

instance : (c : Chunk) → Decidable c.Undelimited
  | .directive .expression content => inferInstanceAs (Decidable (Proforma.Undelimited content))
  | .directive .tag _ | .text _ => inferInstanceAs (Decidable True)

namespace Part

def WellFormed : Part → Prop
  | text raw => raw ≠ "" ∧ Unopened raw.toList
  | expression path calls => path.WellFormed ∧ ∀ c ∈ calls, Call.WellFormed c
  | directive d => d.WellFormed

instance : (q : Part) → Decidable q.WellFormed
  | .text _ => inferInstanceAs (Decidable (_ ∧ _))
  | .expression _ _ => inferInstanceAs (Decidable (_ ∧ _))
  | .directive d => inferInstanceAs (Decidable d.WellFormed)

/-- The second part does not run into the first one. -/
def EndsBefore : Part → Part → Prop
  | text _, text _ => False
  | text raw, _ => raw.toList.getLast? ≠ some '{'
  | _, _ => True

instance : (q q' : Part) → Decidable (q.EndsBefore q')
  | .text _, .text _ => inferInstanceAs (Decidable False)
  | .text _, .expression _ _ | .text _, .directive _ => inferInstanceAs (Decidable (_ ≠ _))
  | .expression _ _, _ | .directive _, _ => inferInstanceAs (Decidable True)

end Part

/-- A tree that can be written. -/
structure Tree.WellFormed (t : Tree) : Prop where
  parts : ∀ p ∈ t.parts, p.WellFormed
  order : t.parts.IsChain Part.EndsBefore

/-- A way to write a tree. -/
structure Tree.Layout (t : Tree) where
  chunks : List Chunk
  written : List.Forall₂ Part.Written t.parts chunks

def Tree.Layout.source {t : Tree} (l : t.Layout) : String := String.ofList (sourceOf l.chunks)

end Proforma
