import Proforma.Yaml.Cursor

/-!
Plain scalars: words without quotes. A plain scalar may go on over several lines, which are
folded into one, until a comment, a colon that ends a key or a line that stands too far to the
left.
-/
namespace Proforma.Yaml

/-- Whether the first character belongs to a plain scalar. A colon does not if white space
follows it; in a flow collection, the marks of the collection do not. -/
def startsPlain (flow : Bool) : List Char → Bool
  | [] => false
  | c :: cs =>
    if c == ':' then !startsBreak cs && !(flow && startsFlowMark cs)
    else !isGap c && c != '\n' && !(flow && isFlowMark c)

/-- A hyphen in front of a mark of a flow collection is no word. -/
def startsBareHyphen : List Char → Bool
  | '-' :: cs => startsFlowMark cs
  | _ => false

/-- What has been read since the last character of a plain scalar. -/
inductive Between where
  | nothing
  | gaps (skipped : List Char)
  | breaks (count : Nat) (comment : Bool)

namespace Between

/-- What stands between two words, last character first. -/
def folded : Between → List Char
  | nothing => []
  | gaps skipped => skipped
  | breaks count _ => if count = 1 then [' '] else List.replicate (count - 1) '\n'

def lineBreak : Between → Between
  | breaks count _ => breaks (count + 1) false
  | _ => breaks 1 false

def isBreaks : Between → Bool
  | breaks .. => true
  | _ => false

def isNothing : Between → Bool
  | nothing => true
  | _ => false

end Between

/-- A plain scalar that has been read. -/
structure PlainScalar where
  text : List Char
  /-- Whether line breaks follow it. -/
  endsLine : Bool
  next : Cursor

/-- The rest of a plain scalar whose lines after the first begin in column `indent` or further to
the right; `read` holds its characters up to here, last first. Of the lines between, one that
tabs indent must not hold text. -/
def plainFrom? (flow : Bool) (indent : Int) (between : Between) (read : List Char) (p : Place) :
    List Char → Option PlainScalar
  | [] => some ⟨read.reverse, between.isBreaks, ⟨[], p⟩⟩
  | c :: cs =>
    if c == '\n' then plainFrom? flow indent between.lineBreak read (p.after c) cs
    else match between with
    | .breaks count true => plainFrom? flow indent (.breaks count true) read (p.after c) cs
    | _ =>
      if isGap c then
        match between with
        | .nothing => plainFrom? flow indent (.gaps [c]) read (p.after c) cs
        | .gaps skipped => plainFrom? flow indent (.gaps (c :: skipped)) read (p.after c) cs
        | .breaks count _ =>
          if c == '\t' && (p.column : Int) < indent then
            if endsLine cs then plainFrom? flow indent (.breaks count true) read (p.after c) cs
            else none
          else plainFrom? flow indent between read (p.after c) cs
      else
        let isWordStart := !between.isNothing
        let isOver := isWordStart && ((!flow && (p.column : Int) < indent) || c == '#' ||
          (p.column = 0 && startsDocumentMarker (c :: cs)))
        if !isOver && isWordStart && flow && startsBareHyphen (c :: cs) then none
        else if !isOver && startsPlain flow (c :: cs) then
          plainFrom? flow indent .nothing (c :: (between.folded ++ read)) (p.after c) cs
        else some ⟨read.reverse, between.isBreaks, ⟨c :: cs, p⟩⟩

/-- The plain scalar at the front. -/
def Cursor.plain? (c : Cursor) (flow : Bool) (indent : Int) : Option PlainScalar :=
  if flow && ((c.place.column : Int) < indent || startsBareHyphen c.rest) then none
  else plainFrom? flow indent .nothing [] c.place c.rest

example : ((Cursor.ofText "a  b\n c #d".toList).plain? false 0).map (·.text) =
    some "a  b c".toList := by decide +kernel
example : ((Cursor.ofText "a:b: c".toList).plain? false 0).map (·.text) =
    some "a:b".toList := by decide +kernel

end Proforma.Yaml
