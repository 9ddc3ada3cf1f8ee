import Proforma.Template.Directive

/-!
Trees built from a row of items. Blocks that are still open wait on a stack, innermost first;
a closing directive must belong to the innermost one.
-/
namespace Proforma

open Text

/-- A piece of a template with its meaning: a finished node, or a block directive. -/
inductive Item where
  | leaf (node : Node)
  | directive (directive : Directive) (span : Span)

/-- A block directive by its keyword and the offset where it starts. -/
structure Mark where
  keyword : String
  offset : Nat
  deriving DecidableEq, Repr

def Mark.site (source : List Char) (m : Mark) : Site := ⟨m.keyword, .ofOffset source m.offset⟩

/-- A directive that does not continue the innermost open block, or a block that never ends. -/
structure BlockFault where
  opening : Option Mark
  closing : Option Mark
  deriving DecidableEq, Repr

def BlockFault.toError (source : List Char) (f : BlockFault) : ParseError :=
  .blockMismatch (f.opening.map (·.site source)) (f.closing.map (·.site source))

/-- The nodes of an open block so far. -/
inductive Frame where
  | conditional (path : Path) (thenNodes : List Node) (elseNodes : Option (List Node))
  | loop (collection : Path) (binding : String) (body : List Node)

structure OpenBlock where
  frame : Frame
  mark : Mark

namespace Frame

def push (node : Node) : Frame → Frame
  | conditional path thenNodes none => conditional path (thenNodes ++ [node]) none
  | conditional path thenNodes (some elseNodes) =>
    conditional path thenNodes (some (elseNodes ++ [node]))
  | loop collection binding body => loop collection binding (body ++ [node])

def node (span : Span) : Frame → Node
  | conditional path thenNodes elseNodes => .conditional path thenNodes elseNodes span
  | loop collection binding body => .loop collection binding body span

end Frame

structure Builder where
  root : List Node
  blocks : List OpenBlock

namespace Builder

def empty : Builder := ⟨[], []⟩

/-- Adds a node to the innermost open block, or to the root. -/
def push (b : Builder) (node : Node) : Builder :=
  match b.blocks with
  | [] => { b with root := b.root ++ [node] }
  | block :: outer => { b with blocks := { block with frame := block.frame.push node } :: outer }

def openBlock (b : Builder) (frame : Frame) (mark : Mark) : Builder :=
  { b with blocks := ⟨frame, mark⟩ :: b.blocks }

def innermost? (b : Builder) : Option Mark := b.blocks.head?.map OpenBlock.mark

def mismatch (b : Builder) (mark : Mark) : BlockFault := ⟨b.innermost?, some mark⟩

/-- Ends the innermost block, which must satisfy `fits`. -/
def close (b : Builder) (fits : Frame → Bool) (mark : Mark) (stop : Nat) :
    Except BlockFault Builder :=
  match b.blocks with
  | block :: outer =>
    if fits block.frame then
      .ok ({ b with blocks := outer }.push (block.frame.node ⟨block.mark.offset, stop⟩))
    else .error (b.mismatch mark)
  | [] => .error (b.mismatch mark)

/-- Turns to the other branch of the innermost block. -/
def turn (b : Builder) (mark : Mark) : Except BlockFault Builder :=
  match b.blocks with
  | ⟨.conditional path thenNodes none, opening⟩ :: outer =>
    .ok { b with blocks := ⟨.conditional path thenNodes (some []), opening⟩ :: outer }
  | _ => .error (b.mismatch mark)

def isConditional : Frame → Bool
  | .conditional .. => true
  | .loop .. => false

def isLoop : Frame → Bool
  | .loop .. => true
  | .conditional .. => false

def place (b : Builder) : Item → Except BlockFault Builder
  | .leaf node => .ok (b.push node)
  | .directive d span =>
    let mark : Mark := ⟨d.keyword, span.start⟩
    match d with
    | .openIf path => .ok (b.openBlock (.conditional path [] none) mark)
    | .openFor binding collection => .ok (b.openBlock (.loop collection binding []) mark)
    | .middle => b.turn mark
    | .closeIf => b.close isConditional mark span.stop
    | .closeFor => b.close isLoop mark span.stop

/-- The finished tree. A block that is still open never ends. -/
def finish (b : Builder) : Except BlockFault Tree :=
  match b.innermost? with
  | none => .ok b.root
  | some mark => .error ⟨some mark, none⟩

end Builder

/-- The meaning of a piece of `source`. -/
def Item.ofPiece (source : List Char) : Piece → Except ParseError Item
  | .text start raw => .ok (.leaf (.text (String.ofList raw) ⟨start, start + byteLength raw⟩))
  | .directive start delimiter content =>
    let stop := start + Delimiter.width + byteLength content
    let span : Span := ⟨start, stop + Delimiter.width⟩
    let fail (e : Misread) : ParseError :=
      match e.fault with
      | .emptyExpression | .emptyDirective => .fault e.fault (.ofOffset source start)
      | fault => .fault fault (.ofOffset source (stop - byteLength e.rest))
    match delimiter with
    | .expression =>
      match readExpression stop content with
      | .ok (path, filters) => .ok (.leaf (.expression path filters span))
      | .error e => .error (fail e)
    | .tag =>
      match readDirective content with
      | .ok d => .ok (.directive d span)
      | .error e => .error (fail e)

def Builder.step (source : List Char) (b : Builder) (p : Piece) : Except ParseError Builder := do
  let item ← Item.ofPiece source p
  (b.place item).mapError (·.toError source)

/-- Reads a template. -/
def parseChars (source : List Char) : Except ParseError Tree :=
  match pieces source with
  | .error e => .error (.lex e (.ofOffset source e.offset))
  | .ok ps => do
    let b ← ps.foldlM (Builder.step source) .empty
    b.finish.mapError (·.toError source)

def parse (source : String) : Except ParseError Tree := parseChars source.toList

end Proforma
