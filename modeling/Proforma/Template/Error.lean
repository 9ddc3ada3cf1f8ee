import Proforma.Template.Filter
import Proforma.Template.Path
import Proforma.Template.Piece

/-! Why a template cannot be read, where, and the report that an author gets. -/
namespace Proforma

open Text

/-- What is wrong inside a directive. -/
inductive Fault where
  | emptyExpression
  | emptyDirective
  | unknownDirective (keyword : String)
  | missingPath (keyword : String)
  | unwantedArguments (keyword : String)
  | missingBinding
  | reservedBinding
  | missingIn
  | unexpected (c : Char)
  | unexpectedEnd
  | notAttribute (found : Option Char)
  | notIndex
  | missingBracket
  | missingFilterName
  | unterminatedText
  | invalidNumber (text : String)
  | notLiteral
  | unknownFilter (name : String)
  | wrongCount (filter : Filter) (found : Nat)
  | badArgument (filter : Filter) (fault : ArgumentFault)
  deriving DecidableEq, Repr

namespace Fault

def message : Fault → String
  | emptyExpression => "empty expression"
  | emptyDirective => "empty directive"
  | unknownDirective keyword =>
    "unknown directive `" ++ keyword ++ "`; expected if, else, endif, for or endfor"
  | missingPath keyword => "`" ++ keyword ++ "` needs an attribute path"
  | unwantedArguments keyword => "`" ++ keyword ++ "` takes no arguments"
  | missingBinding => "expected `for <item> in <path>`"
  | reservedBinding => "`" ++ todayName ++ "` is reserved and cannot be a loop variable"
  | missingIn => "expected `in` after the loop variable"
  | unexpected c => "unexpected `" ++ String.singleton c ++ "`"
  | unexpectedEnd => "unexpected end of directive"
  | notAttribute (some c) => "expected an attribute name, found `" ++ String.singleton c ++ "`"
  | notAttribute none => "expected an attribute name"
  | notIndex => "expected a sequence index"
  | missingBracket => "expected `]`"
  | missingFilterName => "expected a filter name after `|`"
  | unterminatedText => "unterminated string literal"
  | invalidNumber text => "invalid number `" ++ text ++ "`"
  | notLiteral => "expected a string or number literal"
  | unknownFilter name => "unknown filter `" ++ name ++ "`"
  | wrongCount filter found =>
    "filter `" ++ filter.name ++ "` expects " ++ filter.countDescription ++ s!", got {found}"
  | badArgument filter fault =>
    "invalid argument for filter `" ++ filter.name ++ "`: " ++ fault.message

def title : Fault → String
  | unknownFilter _ => "Unknown Filter"
  | wrongCount .. => "Wrong Filter Argument Count"
  | badArgument .. => "Invalid Filter Argument"
  | _ => "Template Syntax Error"

def hint : Fault → String
  | unknownFilter name =>
    match Filter.suggestion? name with
    | some near => "\nDid you mean `" ++ near ++ "`?\n"
    | none => "\nAvailable filters: " ++ String.intercalate ", " (Filter.all.map Filter.name) ++ "\n"
  | _ => ""

end Fault

/-- Where a block directive stands. -/
structure Site where
  keyword : String
  position : Position
  deriving DecidableEq, Repr

namespace Site

def render (s : Site) : String :=
  "`\x7b% " ++ s.keyword ++ " %\x7d` at " ++ s.position.render

def within (s : Site) (origin : Position) : Site :=
  { s with position := s.position.within origin }

end Site

inductive ParseError where
  | lex (error : LexError) (position : Position)
  /-- There is no opening directive to a stray one, and no closing one to a block that never
  ends. -/
  | blockMismatch (opening closing : Option Site)
  | fault (fault : Fault) (position : Position)
  deriving DecidableEq, Repr

namespace ParseError

def message : ParseError → String
  | lex error p => error.message ++ s!" (at {p.render})"
  | blockMismatch (some opening) (some closing) =>
    closing.render ++ " does not close " ++ opening.render
  | blockMismatch (some opening) none => opening.render ++ " is never closed"
  | blockMismatch none (some closing) => closing.render ++ " has no matching opening directive"
  | blockMismatch none none => "unbalanced block directives"
  | fault f p => f.message ++ s!" (at {p.render})"

/-- The places that an error is about; of a block mismatch the opening comes first. -/
def positions : ParseError → List Position
  | lex _ p => [p]
  | blockMismatch opening closing => (opening.toList ++ closing.toList).map Site.position
  | fault _ p => [p]

def position? (e : ParseError) : Option Position := e.positions.head?

/-- The error of a text that begins at `origin` in an enclosing text. -/
def within (e : ParseError) (origin : Position) : ParseError :=
  match e with
  | lex error p => lex error (p.within origin)
  | blockMismatch opening closing =>
    blockMismatch (opening.map (·.within origin)) (closing.map (·.within origin))
  | fault f p => fault f (p.within origin)

def title : ParseError → String
  | lex .. => "Unterminated Delimiter"
  | blockMismatch .. => "Block Mismatch"
  | fault f _ => f.title

def hint : ParseError → String
  | lex .. => "\nSUGGESTION: close every `\x7b\x7b` with `\x7d\x7d` and every `\x7b%` with `%\x7d`.\n"
  | blockMismatch .. =>
    "\nSUGGESTION: every `\x7b% if %\x7d` needs an `\x7b% endif %\x7d` and every " ++
      "`\x7b% for %\x7d` an `\x7b% endfor %\x7d`, closed innermost first.\n"
  | fault f _ => f.hint

/-- Title, message, an excerpt for every place, and a hint where there is one. -/
def report (e : ParseError) (source : List Char) : String :=
  let excerpts := e.positions.map fun p => "\n" ++ excerpt source p
  "ERROR: " ++ e.title ++ "\n\n" ++ e.message ++ "\n" ++ String.join excerpts ++ e.hint

end ParseError

end Proforma
