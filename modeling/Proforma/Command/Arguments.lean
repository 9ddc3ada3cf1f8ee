import Proforma.Calendar.Reading

/-!
Reading a command line: options of the program, a command, and the options and words of that
command. An option is complete only when the next one begins, so that of two mistakes the one
that is noticed first counts.
-/
namespace Proforma.Command

/-- Why a command line is not understood. The first two are asked for. -/
inductive UsageFault where
  | help
  | version
  | nothingGiven
  | missingCommand
  | missingArgument
  | conflict
  | unwantedValue
  | invalidValue
  | invalidMoment
  | unknownArgument
  | unknownCommand
  deriving DecidableEq, Repr

inductive Flag where
  | verbose | quiet | config | help | version
  | template | context | today | fillGaps | schemaDir | entity | format | strict
  deriving DecidableEq, Repr

namespace Flag

def name : Flag → String
  | verbose => "verbose"
  | quiet => "quiet"
  | config => "config"
  | help => "help"
  | version => "version"
  | template => ""
  | context => "context"
  | today => "today"
  | fillGaps => "fill-gaps"
  | schemaDir => "schema-dir"
  | entity => "entity"
  | format => "format"
  | strict => "strict"

def letter? : Flag → Option Char
  | verbose => some 'v'
  | quiet => some 'q'
  | config => some 'c'
  | help => some 'h'
  | version => some 'V'
  | _ => none

def takesValue : Flag → Bool
  | config | template | context | today | schemaDir | entity | format => true
  | _ => false

/-- Paths are not empty, a format is one of two, and a moment can be read. -/
def check (f : Flag) (value : String) : Except UsageFault Unit :=
  match f with
  | config | template | context | schemaDir =>
    if value.isEmpty then .error .invalidValue else .ok ()
  | format => if value == "text" || value == "json" then .ok () else .error .invalidValue
  | today => if (Moment.read? value.toList).isSome then .ok () else .error .invalidMoment
  | _ => .ok ()

end Flag

inductive Verb where
  | check | render | gaps
  deriving DecidableEq, Repr

namespace Verb

def ofName? (s : String) : Option Verb :=
  if s = "check" then some check
  else if s = "render" then some render
  else if s = "gaps" then some gaps
  else none

def flags : Verb → List Flag
  | check => [.template]
  | render => [.template, .context, .today, .fillGaps, .schemaDir, .entity, .format, .strict]
  | gaps => [.template, .schemaDir, .entity, .format]

def required : Verb → List Flag
  | check => [.template]
  | render => [.template, .context]
  | gaps => [.template, .schemaDir]

end Verb

/-- The options of the program or of a command, as far as they have been read. -/
structure Level where
  flags : List Flag
  /-- Any number of words may be given. -/
  manyWords : Bool
  given : List (Flag × List String)
  /-- The option that may still get a value. -/
  pending : Option (Flag × List String)

namespace Level

/-- Options that may stand before and after the name of a command. -/
def common : List Flag := [.verbose, .quiet, .config, .help]

def top : Level := ⟨.version :: common, false, [], none⟩

def ofVerb (v : Verb) : Level := ⟨common ++ v.flags, v = .check, [], none⟩

def values (l : Level) (f : Flag) : List String := (l.given.filter (·.1 = f)).flatMap (·.2)

def value? (l : Level) (f : Flag) : Option String := (l.values f).head?

def has (l : Level) (f : Flag) : Bool := l.given.any (·.1 = f)

/-- Completes an option. None but the words of a command may be repeated. -/
def settle (l : Level) (f : Flag) (values : List String) : Except UsageFault Level := do
  if f = .help then throw .help
  if f = .version then throw .version
  if f.takesValue && values.isEmpty then throw .invalidValue
  if l.has f && !(f = .template && l.manyWords) then throw .conflict
  values.forM f.check
  return { l with given := l.given ++ [(f, values)] }

/-- Completes the option that was waiting for a value. -/
def resolve (l : Level) : Except UsageFault Level :=
  match l.pending with
  | none => .ok l
  | some (f, values) => settle { l with pending := none } f values

/-- An option and the value that came with it. Tells whether the next word may be its value. -/
def option (l : Level) (f : Flag) (value : Option String) : Except UsageFault (Level × Bool) := do
  match f.takesValue, value with
  | true, none =>
    let l ← l.resolve
    return ({ l with pending := some (f, []) }, true)
  | true, some v =>
    let l ← l.resolve
    return (← l.settle f [v], false)
  | false, none =>
    let l ← l.resolve
    return (← l.settle f [], false)
  | false, some _ => throw .unwantedValue

def long (l : Level) (name : String) (value : Option String) : Except UsageFault (Level × Bool) :=
  match l.flags.find? fun f => f.name == name && f != .template with
  | some f => l.option f value
  | none => .error .unknownArgument

/-- A row of letters. The rest of the row is the value of the first option that takes one. -/
def letters (l : Level) : List Char → Except UsageFault (Level × Bool)
  | [] => .ok (l, false)
  | c :: cs =>
    match l.flags.find? fun f => f.letter? == some c with
    | none => .error .unknownArgument
    | some f =>
      if f.takesValue then
        match cs with
        | [] => l.option f none
        | '=' :: cs => l.option f (some (String.ofList cs))
        | cs => l.option f (some (String.ofList cs))
      else
        match l.option f none with
        | .ok (l, _) => l.letters cs
        | .error e => .error e

/-- A word that is no value of an option. -/
def word (l : Level) (s : String) : Except UsageFault Level := do
  match l.pending with
  | some (.template, words) =>
    if l.manyWords then return { l with pending := some (.template, words ++ [s]) }
    else throw .unknownArgument
  | _ =>
    if l.has .template && !l.manyWords then throw .unknownArgument
    let l ← l.resolve
    return { l with pending := some (.template, [s]) }

/-- The value that an option was waiting for. -/
def push (l : Level) (s : String) : Level :=
  { l with pending := l.pending.map fun (f, values) => (f, values ++ [s]) }

end Level

/-- What an argument looks like. -/
inductive Shape where
  /-- Two dashes, after which everything is a word. -/
  | escape
  | long (name : String) (value : Option String)
  | letters (cs : List Char)
  | word

def shape (argument : String) : Shape :=
  match argument.toList with
  | ['-', '-'] => .escape
  | '-' :: '-' :: cs =>
    let name := String.ofList (cs.takeWhile (· != '='))
    match cs.dropWhile (· != '=') with
    | _ :: value => .long name (some (String.ofList value))
    | [] => .long name none
  | '-' :: c :: cs => .letters (c :: cs)
  | _ => .word

/-- Reads the arguments of a command. -/
def readArguments (l : Level) (escaped waiting : Bool) : List String → Except UsageFault Level
  | [] => l.resolve
  | a :: as =>
    match if escaped then .word else shape a with
    | .escape => readArguments l true false as
    | .long name value => do
      let (l, waiting) ← l.long name value
      readArguments l false waiting as
    | .letters cs => do
      let (l, waiting) ← l.letters cs
      readArguments l false waiting as
    | .word =>
      if waiting then readArguments (l.push a) false false as
      else do readArguments (← l.word a) escaped false as

def checkConflicts (l : Level) : Except UsageFault Unit :=
  if l.has .verbose && l.has .quiet then .error .conflict else .ok ()

/-- Reads a command and sees that nothing is missing. -/
def readCommand (v : Verb) (arguments : List String) : Except UsageFault Level := do
  let l ← readArguments (.ofVerb v) false false arguments
  checkConflicts l
  if !v.required.all l.has || (l.has .fillGaps && !l.has .schemaDir) then throw .missingArgument
  return l

/-- What is asked for after the word `help`: one command after another, of which none has
commands of its own. -/
def helpFault : List String → UsageFault
  | [] => .help
  | [name] => if name == "help" || (Verb.ofName? name).isSome then .help else .unknownCommand
  | _ => .unknownCommand

/-- Reads a command line up to the name of a command, and the rest as that command. -/
def readLevels (l : Level) (escaped waiting : Bool) :
    List String → Except UsageFault (Level × Option (Verb × Level))
  | [] => do return (← l.resolve, none)
  | a :: as =>
    match if escaped then .word else shape a with
    | .escape => readLevels l true false as
    | .long name value => do
      let (l, waiting) ← l.long name value
      readLevels l false waiting as
    | .letters cs => do
      let (l, waiting) ← l.letters cs
      readLevels l false waiting as
    | .word =>
      if waiting then readLevels (l.push a) false false as
      else
        match Verb.ofName? a with
        | some v => do
          if escaped then throw .unknownArgument
          let inner ← readCommand v as
          return (← l.resolve, some (v, inner))
        | none =>
          if a = "help" then .error (if escaped then .unknownArgument else helpFault as)
          else .error .unknownCommand

inductive OutputFormat where
  | text | json
  deriving DecidableEq, Repr

structure RenderOptions where
  template : String
  context : String
  today : Option Moment
  fillGaps : Bool
  schemaDir : Option String
  entity : Option String
  format : OutputFormat
  strict : Bool

structure GapsOptions where
  template : String
  schemaDir : String
  entity : Option String
  format : OutputFormat

inductive Task where
  | check (templates : List String)
  | render (options : RenderOptions)
  | gaps (options : GapsOptions)

/-- A command line that is understood. -/
structure Invocation where
  quiet : Bool
  config : Option String
  task : Task

def Level.format (l : Level) : OutputFormat := if l.value? .format = some "json" then .json else .text

def Level.task (l : Level) : Verb → Task
  | .check => .check (l.values .template)
  | .render => .render {
      template := (l.value? .template).getD ""
      context := (l.value? .context).getD ""
      today := (l.value? .today).bind fun s => Moment.read? s.toList
      fillGaps := l.has .fillGaps
      schemaDir := l.value? .schemaDir
      entity := l.value? .entity
      format := l.format
      strict := l.has .strict }
  | .gaps => .gaps {
      template := (l.value? .template).getD ""
      schemaDir := (l.value? .schemaDir).getD ""
      entity := l.value? .entity
      format := l.format }

/-- Reads a command line. Of a common option given twice, the later one counts. -/
def read (arguments : List String) : Except UsageFault Invocation := do
  let (outer, inner) ← readLevels .top false false arguments
  match inner with
  | none => throw (if outer.given.isEmpty then .nothingGiven else .missingCommand)
  | some (v, inner) =>
    checkConflicts outer
    return ⟨outer.has .quiet || inner.has .quiet, (inner.value? .config).or (outer.value? .config),
      inner.task v⟩

end Proforma.Command
