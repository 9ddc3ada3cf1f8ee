import Proforma.Template.Error
import Proforma.Template.Node

/-!
What stands between delimiters: an attribute path with a pipeline of filters, or a keyword with
its operands. Each reader gives back the text that it leaves; when it fails, the text from the
fault on.
-/
namespace Proforma

open Text

structure Misread where
  fault : Fault
  rest : List Char

def misread {α : Type} (fault : Fault) (rest : List Char) : Except Misread α :=
  .error ⟨fault, rest⟩

/-- What is found is not what may stand here. -/
def unexpected {α : Type} (rest : List Char) : Except Misread α :=
  match rest with
  | c :: _ => misread (.unexpected c) rest
  | [] => misread .unexpectedEnd rest

def readName (cs : List Char) : Except Misread (String × List Char) :=
  match readIdentifier? cs with
  | some (name, rest) => .ok (String.ofList name, rest)
  | none => misread (.notAttribute cs.head?) cs

def readIndex (cs : List Char) : Except Misread (Nat × List Char) :=
  let digits := cs.takeWhile Char.isDigit
  let n := Double.digitsValue digits
  if digits.isEmpty || UInt64.size ≤ n then misread .notIndex cs
  else .ok (n, cs.dropWhile Char.isDigit)

def readDotted (cs : List Char) : Except Misread (Segment × List Char) :=
  if cs.head?.any Char.isDigit then do
    let (n, rest) ← readIndex cs
    .ok (.index n, rest)
  else do
    let (name, rest) ← readName cs
    .ok (.field name, rest)

def readBracketed (cs : List Char) : Except Misread (Segment × List Char) := do
  let (n, rest) ← readIndex cs
  match rest with
  | ']' :: rest => .ok (.index n, rest)
  | _ => misread .missingBracket rest

theorem length_readName {cs rest : List Char} {name : String}
    (h : readName cs = .ok (name, rest)) : rest.length < cs.length := by
  simp only [readName, misread] at h
  split at h
  · next hr =>
    obtain ⟨rfl, rfl⟩ := by simpa using h
    exact length_lt_of_readIdentifier? hr
  · simp at h

theorem length_readIndex {cs rest : List Char} {n : Nat} (h : readIndex cs = .ok (n, rest)) :
    rest.length ≤ cs.length := by
  simp only [readIndex, misread] at h
  split at h
  · simp at h
  · obtain ⟨rfl, rfl⟩ := by simpa using h
    exact (List.dropWhile_sublist _).length_le

theorem length_readDotted {cs rest : List Char} {s : Segment}
    (h : readDotted cs = .ok (s, rest)) : rest.length ≤ cs.length := by
  simp only [readDotted, bind, Except.bind] at h
  split at h
  · split at h
    · simp at h
    · next hr =>
      obtain ⟨rfl, rfl⟩ := by simpa using h
      exact length_readIndex hr
  · split at h
    · simp at h
    · next hr =>
      obtain ⟨rfl, rfl⟩ := by simpa using h
      exact Nat.le_of_lt (length_readName hr)

theorem length_readBracketed {cs rest : List Char} {s : Segment}
    (h : readBracketed cs = .ok (s, rest)) : rest.length ≤ cs.length := by
  simp only [readBracketed, bind, Except.bind] at h
  split at h
  · simp at h
  · next hr =>
    have hl := length_readIndex hr
    split at h
    · obtain ⟨rfl, rfl⟩ := by simpa using h
      simp_all
      omega
    · simp [misread] at h

/-- The fields and indices that follow, up to the first text that is neither. -/
def readSegments (cs : List Char) : Except Misread (List Segment × List Char) :=
  match cs with
  | '.' :: cs =>
    match _h : readDotted cs with
    | .error e => .error e
    | .ok (s, rest) => do
      let (ss, rest) ← readSegments rest
      .ok (s :: ss, rest)
  | '[' :: cs =>
    match _h : readBracketed cs with
    | .error e => .error e
    | .ok (s, rest) => do
      let (ss, rest) ← readSegments rest
      .ok (s :: ss, rest)
  | cs => .ok ([], cs)
termination_by cs.length
decreasing_by
  · have := length_readDotted _h
    simp only [List.length_cons]
    omega
  · have := length_readBracketed _h
    simp only [List.length_cons]
    omega

def readPath (cs : List Char) : Except Misread (Path × List Char) := do
  let (head, rest) ← readName cs
  let (tail, rest) ← readSegments rest
  .ok (⟨head, tail⟩, rest)

/-- The rest of a quoted text, after its opening quote. A backslash stands before any character
that is meant as it is. -/
def readQuoted? (quote : Char) : List Char → Option (List Char × List Char)
  | [] => none
  | '\\' :: c :: cs => (readQuoted? quote cs).map fun (s, rest) => (c :: s, rest)
  | c :: cs =>
    if c = quote then some ([], cs)
    else (readQuoted? quote cs).map fun (s, rest) => (c :: s, rest)

def isNumberChar (c : Char) : Bool := c.isDigit || c == '.' || c == '-'

def isQuote (c : Char) : Bool := c == '\x27' || c == '\x22'

def readLiteral (cs : List Char) : Except Misread (Literal × List Char) :=
  match cs with
  | [] => misread .notLiteral cs
  | c :: body =>
    if isQuote c then
      match readQuoted? c body with
      | some (s, rest) => .ok (.text (String.ofList s), rest)
      | none => misread .unterminatedText cs
    else if c.isDigit || c == '-' then
      let text := cs.takeWhile isNumberChar
      match (Double.Numeral.read? text).map Double.Numeral.toDouble with
      | some x =>
        if x.isFinite then .ok (.number x, cs.dropWhile isNumberChar)
        else misread (.invalidNumber (String.ofList text)) cs
      | none => misread (.invalidNumber (String.ofList text)) cs
    else misread .notLiteral cs

theorem length_readQuoted? {quote : Char} {cs s rest : List Char}
    (h : readQuoted? quote cs = some (s, rest)) : rest.length < cs.length := by
  fun_induction readQuoted? quote cs generalizing s with
  | case1 => simp at h
  | case2 c cs ih =>
    obtain ⟨⟨s', r'⟩, hs, he⟩ := Option.map_eq_some_iff.mp h
    obtain ⟨rfl, rfl⟩ := by simpa using he
    have := ih hs
    simp only [List.length_cons]
    omega
  | case3 cs =>
    obtain ⟨rfl, rfl⟩ := by simpa using h
    simp
  | case4 c cs _ _ ih =>
    obtain ⟨⟨s', r'⟩, hs, he⟩ := Option.map_eq_some_iff.mp h
    obtain ⟨rfl, rfl⟩ := by simpa using he
    have := ih hs
    simp only [List.length_cons]
    omega

theorem length_readLiteral {cs rest : List Char} {a : Literal}
    (h : readLiteral cs = .ok (a, rest)) : rest.length < cs.length := by
  cases cs with
  | nil => simp [readLiteral, misread] at h
  | cons c body =>
    simp only [readLiteral, misread] at h
    split at h
    · split at h
      · next hr =>
        obtain ⟨rfl, rfl⟩ := by simpa using h
        have := length_readQuoted? hr
        simp only [List.length_cons]
        omega
      · simp at h
    · split at h
      · next hc =>
        split at h
        · split at h
          · obtain ⟨rfl, rfl⟩ := by simpa using h
            have hn : isNumberChar c = true := by
              simp only [isNumberChar, Bool.or_eq_true] at hc ⊢
              rcases hc with hc | hc <;> simp [hc]
            have := (List.dropWhile_sublist isNumberChar (l := body)).length_le
            simp only [List.dropWhile_cons, hn, if_true, List.length_cons]
            omega
          · simp at h
        · simp at h
      · simp at h

/-- The arguments after an opening parenthesis, at least one, up to the closing one. -/
def readArguments (cs : List Char) : Except Misread (List Literal × List Char) :=
  match _h : readLiteral (skipBlanks cs) with
  | .error e => .error e
  | .ok (a, after) =>
    match _h' : skipBlanks after with
    | ')' :: rest => .ok ([a], rest)
    | ',' :: more => do
      let (as, rest) ← readArguments more
      .ok (a :: as, rest)
    | rest => unexpected rest
termination_by cs.length
decreasing_by
  have h₁ := length_readLiteral _h
  have h₂ := length_skipBlanks_le cs
  have h₃ := length_skipBlanks_le after
  rw [_h'] at h₃
  simp only [List.length_cons] at h₃
  omega

/-- Arguments in parentheses; both may be left out. -/
def readCallArguments (cs : List Char) : Except Misread (List Literal × List Char) :=
  match skipBlanks cs with
  | '(' :: cs =>
    match skipBlanks cs with
    | ')' :: rest => .ok ([], rest)
    | cs => readArguments cs
  | cs => .ok ([], cs)

/-- A filter call. `stop` is the offset where the text ends. -/
def readCall (stop : Nat) (cs : List Char) : Except Misread (FilterCall × List Char) :=
  match readIdentifier? cs with
  | none => misread .missingFilterName cs
  | some (name, rest) =>
    match Filter.ofName? (String.ofList name) with
    | none => misread (.unknownFilter (String.ofList name)) cs
    | some filter => do
      let (args, rest) ← readCallArguments rest
      if filter.acceptsCount args.length then
        match filter.checkArguments args with
        | .ok () => .ok (⟨filter, args, ⟨stop - byteLength cs, stop - byteLength rest⟩⟩, rest)
        | .error fault => misread (.badArgument filter fault) cs
      else misread (.wrongCount filter args.length) cs

theorem length_readArguments {cs rest : List Char} {as : List Literal}
    (h : readArguments cs = .ok (as, rest)) : rest.length ≤ cs.length := by
  fun_induction readArguments cs generalizing as with
  | case1 => simp at h
  | case2 cs a r hl r' hs =>
    obtain ⟨rfl, rfl⟩ := by simpa using h
    have h₁ := length_readLiteral hl
    have h₂ := length_skipBlanks_le cs
    have h₃ := length_skipBlanks_le r
    rw [hs] at h₃
    simp only [List.length_cons] at h₃
    omega
  | case3 cs a r hl r' hs ih =>
    simp only [bind, Except.bind] at h
    split at h
    · simp at h
    · next v hv =>
      obtain ⟨rfl, rfl⟩ := by simpa using h
      have h₁ := length_readLiteral hl
      have h₂ := length_skipBlanks_le cs
      have h₃ := length_skipBlanks_le r
      have h₄ := ih hv
      rw [hs] at h₃
      simp only [List.length_cons] at h₃
      omega
  | case4 => simp only [unexpected, misread] at h; split at h <;> simp at h

theorem length_readCallArguments {cs rest : List Char} {as : List Literal}
    (h : readCallArguments cs = .ok (as, rest)) : rest.length ≤ cs.length := by
  have h₁ := length_skipBlanks_le cs
  simp only [readCallArguments] at h
  split at h
  · next cs' hc =>
    have h₂ := length_skipBlanks_le cs'
    rw [hc] at h₁
    simp only [List.length_cons] at h₁
    split at h
    · next hr =>
      obtain ⟨rfl, rfl⟩ := by simpa using h
      rw [hr] at h₂
      simp only [List.length_cons] at h₂
      omega
    · have := length_readArguments h
      omega
  · obtain ⟨rfl, rfl⟩ := by simpa using h
    exact h₁

theorem length_readCall {stop : Nat} {cs rest : List Char} {call : FilterCall}
    (h : readCall stop cs = .ok (call, rest)) : rest.length ≤ cs.length := by
  simp only [readCall, misread, bind, Except.bind] at h
  split at h
  · simp at h
  · next hn =>
    split at h
    · simp at h
    · split at h
      · simp at h
      · next ha =>
        split at h
        · split at h
          · obtain ⟨rfl, rfl⟩ := by simpa using h
            have h₁ := length_lt_of_readIdentifier? hn
            have h₂ := length_readCallArguments ha
            omega
          · simp at h
        · simp at h

/-- The filters after a path, each behind a bar, up to the end of the text. -/
def readPipeline (stop : Nat) (cs : List Char) : Except Misread (List FilterCall) :=
  match _h : skipBlanks cs with
  | [] => .ok []
  | '|' :: rest =>
    match _h' : readCall stop (skipBlanks rest) with
    | .error e => .error e
    | .ok (call, after) => do
      let calls ← readPipeline stop after
      .ok (call :: calls)
  | rest => unexpected rest
termination_by cs.length
decreasing_by
  have h₁ := length_skipBlanks_le cs
  have h₂ := length_skipBlanks_le rest
  have h₃ := length_readCall _h'
  rw [_h] at h₁
  simp only [List.length_cons] at h₁
  omega

/-- A path with its filters. -/
def readExpression (stop : Nat) (content : List Char) :
    Except Misread (Path × List FilterCall) :=
  match skipBlanks content with
  | [] => misread .emptyExpression []
  | cs => do
    let (path, rest) ← readPath cs
    let filters ← readPipeline stop rest
    .ok (path, filters)

/-- A block directive with its operands. -/
inductive Directive where
  | openIf (path : Path)
  | middle
  | closeIf
  | openFor (binding : String) (collection : Path)
  | closeFor
  deriving DecidableEq, Repr

namespace Directive

def keyword : Directive → String
  | openIf _ => "if"
  | middle => "else"
  | closeIf => "endif"
  | openFor .. => "for"
  | closeFor => "endfor"

end Directive

/-- A path and nothing after it. -/
def readOnlyPath (keyword : String) (cs : List Char) : Except Misread Path :=
  match skipBlanks cs with
  | [] => misread (.missingPath keyword) cs
  | start => do
    let (path, rest) ← readPath start
    match skipBlanks rest with
    | [] => .ok path
    | rest => unexpected rest

def readNothing (keyword : String) (cs : List Char) : Except Misread Unit :=
  match skipBlanks cs with
  | [] => .ok ()
  | rest => misread (.unwantedArguments keyword) rest

/-- What follows `for`: a loop variable, `in`, and the path of the collection. -/
def readLoopHeader (cs : List Char) : Except Misread (String × Path) :=
  let start := skipBlanks cs
  match readIdentifier? start with
  | none => misread .missingBinding start
  | some (binding, rest) =>
    if String.ofList binding = todayName then misread .reservedBinding start
    else
      let middle := skipBlanks rest
      match readIdentifier? middle with
      | some (['i', 'n'], rest) => do
        let collection ← readOnlyPath "for" rest
        .ok (String.ofList binding, collection)
      | _ => misread .missingIn middle

def isNotBlank (c : Char) : Bool := !isBlank c

def readDirective (content : List Char) : Except Misread Directive :=
  let start := skipBlanks content
  let rest := start.dropWhile isNotBlank
  match String.ofList (start.takeWhile isNotBlank) with
  | "" => misread .emptyDirective []
  | "if" => do
    let path ← readOnlyPath "if" rest
    .ok (.openIf path)
  | "else" => do
    readNothing "else" rest
    .ok .middle
  | "endif" => do
    readNothing "endif" rest
    .ok .closeIf
  | "for" => do
    let (binding, collection) ← readLoopHeader rest
    .ok (.openFor binding collection)
  | "endfor" => do
    readNothing "endfor" rest
    .ok .closeFor
  | keyword => misread (.unknownDirective keyword) start

end Proforma
