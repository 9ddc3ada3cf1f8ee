import Proforma.Proofs.Cutting
import Proforma.Proofs.Locating
import Proforma.Template.Basic
import Proforma.Template.Scan

/-!
Whole templates read by byte offsets. What is searched for is found where a row of characters is
split, every slice is in range, and the tokens, the tree or the error, and the body of a template
are those of the readers of characters.
-/
namespace Proforma

open Text

/-- The first opener is found where the text before it ends. -/
theorem nextOpen_eq (cs : List Char) : nextOpen cs =
    (splitOpener? cs).map fun (before, d, _) => (byteLength before, d) := by
  fun_induction splitOpener? cs with
  | case1 => rfl
  | case2 cs =>
    have he : find? Delimiter.expression.opener ('{' :: '{' :: cs) = some 0 := rfl
    rw [nextOpen, he]
    cases find? Delimiter.tag.opener ('{' :: '{' :: cs) <;> rfl
  | case3 cs =>
    have ht : find? Delimiter.tag.opener ('{' :: '%' :: cs) = some 0 := rfl
    have he : find? Delimiter.expression.opener ('{' :: '%' :: cs) =
        (find? Delimiter.expression.opener ('%' :: cs)).map (1 + ·) := rfl
    rw [nextOpen, ht, he]
    cases find? Delimiter.expression.opener ('%' :: cs) with
    | none => rfl
    | some e => simp
  | case4 c cs he ht ih =>
    have hfind : ∀ d : Delimiter, find? d.opener (c :: cs) =
        (find? d.opener cs).map (c.utf8Size + ·) := by
      intro d
      rw [find?, if_neg]
      simpa using not_opener_prefix he ht d
    have hshift : nextOpen (c :: cs) = (nextOpen cs).map fun p => (c.utf8Size + p.1, p.2) := by
      rw [nextOpen, nextOpen, hfind, hfind]
      cases find? Delimiter.expression.opener cs with
      | none => cases find? Delimiter.tag.opener cs <;> rfl
      | some e =>
        cases find? Delimiter.tag.opener cs with
        | none => rfl
        | some t =>
          by_cases hle : e ≤ t
          · have hle' : c.utf8Size + e ≤ c.utf8Size + t := by omega
            simp only [Option.map_some, if_pos hle, if_pos hle']
          · have hle' : ¬ c.utf8Size + e ≤ c.utf8Size + t := by omega
            simp only [Option.map_some, if_neg hle, if_neg hle']
    rw [hshift, ih]
    cases splitOpener? cs <;> rfl

theorem find?_closer (d : Delimiter) (cs : List Char) : find? d.closer cs =
    (splitCloser? d cs).map fun (before, _) => byteLength before := by
  obtain ⟨x, y, hd⟩ := d.closer_eq
  fun_induction splitCloser? d cs with
  | case1 a b cs h =>
    rw [hd] at h
    obtain ⟨rfl, rfl⟩ : x = a ∧ y = b := by simpa using h
    rw [hd, find?, if_pos (by simp)]
    rfl
  | case2 a b cs h ih =>
    have hn : ¬ d.closer.isPrefixOf (a :: b :: cs) = true := by
      rw [hd] at h ⊢
      simpa using h
    rw [find?, if_neg hn, ih, Option.map_map, Option.map_map]
    rfl
  | case3 cs h =>
    rcases cs with _ | ⟨a, _ | ⟨b, cs⟩⟩
    · rw [hd]
      rfl
    · rw [hd]
      simp [find?]
    · exact (h a b cs rfl).elim

theorem scanText_eq (passed raw after : List Char) :
    scanText (passed ++ (raw ++ after)) (byteLength passed) (byteLength raw) =
      pure (Piece.text (byteLength passed) raw).tokens := by
  have hs := slice?_append passed raw after
  rw [List.append_assoc] at hs
  rw [scanText, hs]
  rfl

theorem scanDelimited_eq (passed rest : List Char) (d : Delimiter) :
    scanDelimited (passed ++ (d.opener ++ rest)) d (byteLength passed) =
      match splitCloser? d rest with
      | none => throw (.unterminated d (byteLength passed))
      | some (content, _) =>
        match splitOpener? content with
        | some (lead, inner, _) =>
          throw (.nested d inner (byteLength passed + Delimiter.width + byteLength lead))
        | none => pure ((Piece.directive (byteLength passed) d content).tokens,
          byteLength passed + Delimiter.width + byteLength content + Delimiter.width) := by
  have hs := slice?_append_right (passed ++ d.opener) rest
  rw [List.append_assoc, byteLength_append passed] at hs
  rw [scanDelimited]
  dsimp only
  rw [hs, lift_some_bind, find?_closer]
  cases hc : splitCloser? d rest with
  | none => rfl
  | some found =>
    obtain ⟨content, after⟩ := found
    have hcontent := slice?_append_left content (d.closer ++ after)
    rw [← List.append_assoc, ← append_of_splitCloser? hc] at hcontent
    dsimp only [Option.map_some]
    rw [hcontent, lift_some_bind, nextOpen_eq, d.byteLength_opener, d.byteLength_closer]
    cases splitOpener? content <;> rfl

/-- The tokens from `next` on if less is left than from `position` on. -/
def scanOnward (source : List Char) (position next : Nat) :
    ExceptT LexError Option (List (Token × Span)) :=
  if byteLength source - next < byteLength source - position then scanTokensFrom source next
  else none

theorem scanTokensFrom_turn (source : List Char) (position : Nat) :
    scanTokensFrom source position = scanTurn source (scanOnward source position) position := by
  rw [scanTokensFrom, Text.loop]
  rfl

theorem scanOnward_of_lt {source : List Char} {position next : Nat}
    (hp : position < byteLength source) (hn : position < next) :
    scanOnward source position next = scanTokensFrom source next :=
  if_pos (by omega)

theorem scanTokensFrom_byteLength (source : List Char) :
    scanTokensFrom source (byteLength source) = pure [] := by
  rw [scanTokensFrom_turn, scanTurn, if_neg (Nat.lt_irrefl _)]

/-- The tokens of a source in which a directive opens. -/
theorem scanTokensFrom_opener (passed : List Char) {cs before rest : List Char} {d : Delimiter}
    (hs : splitOpener? cs = some (before, d, rest)) :
    scanTokensFrom (passed ++ cs) (byteLength passed) = do
      let (directive, stop) ← scanDelimited (passed ++ before ++ (d.opener ++ rest)) d
        (byteLength (passed ++ before))
      return (Piece.ofText (byteLength passed) before).flatMap Piece.tokens ++ directive ++
        (← scanOnward (passed ++ cs) (byteLength passed) stop) := by
  have hcs : cs = before ++ (d.opener ++ rest) := by
    rw [append_of_splitOpener? hs, List.append_assoc]
  have hsource : passed ++ cs = passed ++ before ++ (d.opener ++ rest) := by
    rw [hcs, List.append_assoc]
  have hlt : byteLength passed < byteLength (passed ++ cs) := by
    rw [hcs]
    simp only [byteLength_append, d.byteLength_opener, Delimiter.width]
    omega
  rw [scanTokensFrom_turn, scanTurn, if_pos hlt, slice?_append_right, lift_some_bind, nextOpen_eq,
    hs]
  dsimp only [Option.map_some]
  rw [← hsource, ← byteLength_append]
  by_cases hb : before = []
  · subst hb
    rw [if_neg (by simp), pure_bind]
    rfl
  · have hpos : 0 < byteLength before := by
      have := byteLength_eq_zero.not.mpr hb
      omega
    have ht := scanText_eq passed before (d.opener ++ rest)
    rw [← List.append_assoc, ← hsource] at ht
    rw [if_pos hpos, ht, pure_bind]
    have hp : Piece.ofText (byteLength passed) before = [.text (byteLength passed) before] := by
      simp [Piece.ofText, hb]
    rw [hp, List.flatMap_singleton]

theorem scanTokensFrom_eq (passed cs : List Char) :
    scanTokensFrom (passed ++ cs) (byteLength passed) =
      ExceptT.mk (some ((piecesFrom (byteLength passed) cs).map (List.flatMap Piece.tokens))) := by
  generalize hstart : byteLength passed = start
  fun_induction piecesFrom start cs generalizing passed with
  | case1 start cs hs =>
    subst hstart
    by_cases hcs : cs = []
    · subst hcs
      rw [List.append_nil, scanTokensFrom_byteLength]
      rfl
    · have hlt : byteLength passed < byteLength (passed ++ cs) := by
        have := byteLength_eq_zero.not.mpr hcs
        rw [byteLength_append]
        omega
      have ht := scanText_eq passed cs []
      rw [List.append_nil] at ht
      have hp : Piece.ofText (byteLength passed) cs = [.text (byteLength passed) cs] := by
        simp [Piece.ofText, hcs]
      rw [scanTokensFrom_turn, scanTurn, if_pos hlt, slice?_append_right, lift_some_bind,
        nextOpen_eq, hs]
      dsimp only [Option.map_none]
      rw [ht, pure_bind, ← byteLength_append, scanOnward_of_lt hlt hlt, scanTokensFrom_byteLength,
        hp]
      rfl
  | case2 start cs before d rest hs opened hc =>
    subst hstart
    rw [scanTokensFrom_opener passed hs, scanDelimited_eq, hc, byteLength_append]
    rfl
  | case3 start cs before d rest hs opened content after hc inside lead inner more ho =>
    subst hstart
    rw [scanTokensFrom_opener passed hs, scanDelimited_eq, hc]
    dsimp only
    rw [ho, byteLength_append]
    rfl
  | case4 start cs before d rest hs opened content after hc inside hn ih =>
    subst hstart
    have hsource : passed ++ cs = passed ++ before ++ d.opener ++ content ++ d.closer ++ after := by
      rw [append_of_splitOpener? hs, append_of_splitCloser? hc]
      simp only [List.append_assoc]
    have hstop : byteLength (passed ++ before ++ d.opener ++ content ++ d.closer) =
        inside + byteLength content + Delimiter.width := by
      simp only [byteLength_append, d.byteLength_opener, d.byteLength_closer, inside, opened]
    have hrest := ih (passed ++ before ++ d.opener ++ content ++ d.closer) hstop
    rw [← hsource] at hrest
    have hnext : byteLength passed < inside + byteLength content + Delimiter.width := by
      simp only [inside, opened, Delimiter.width]
      omega
    have hlt : byteLength passed < byteLength (passed ++ cs) := by
      refine hnext.trans_le (hstop ▸ hsource ▸ ?_)
      simp only [byteLength_append]
      omega
    rw [scanTokensFrom_opener passed hs, scanDelimited_eq, hc]
    dsimp only
    rw [hn]
    dsimp only
    rw [pure_bind]
    dsimp only
    rw [byteLength_append, scanOnward_of_lt hlt hnext, hrest]
    cases hp : piecesFrom (inside + byteLength content + Delimiter.width) after with
    | error e => rfl
    | ok ps =>
      rw [ok_bind]
      simp only [Except.map, List.flatMap_append, List.flatMap_cons, ← List.append_assoc]
      rfl

theorem scanTokens_eq (source : List Char) :
    (scanTokens source).run = some (tokens source) := by
  have h := scanTokensFrom_eq [] source
  rw [List.nil_append] at h
  exact h

/-- A misreading is reported where the item of its piece reports it. -/
theorem toError_located (source : List Char) (start stop : Nat) (e : Misread) :
    (e.located start stop).toError source =
      match e.fault with
      | .emptyExpression | .emptyDirective => .fault e.fault (.ofOffset source start)
      | fault => .fault fault (.ofOffset source (stop - byteLength e.rest)) := by
  obtain ⟨fault, rest⟩ := e
  cases fault <;> rfl

theorem ofPiece_expression (source : List Char) (start : Nat) (content : List Char) :
    let stop := start + Delimiter.width + byteLength content
    Item.ofPiece source (.directive start .expression content) =
      (readExpression stop content).mapError (fun e => (e.located start stop).toError source) >>=
        fun (path, filters) =>
          .ok (.leaf (.expression path filters ⟨start, stop + Delimiter.width⟩)) := by
  intro stop
  simp only [Item.ofPiece]
  cases readExpression (start + Delimiter.width + byteLength content) content with
  | error e => exact congrArg Except.error (toError_located source start stop e).symm
  | ok found => rfl

theorem ofPiece_tag (source : List Char) (start : Nat) (content : List Char) :
    let stop := start + Delimiter.width + byteLength content
    Item.ofPiece source (.directive start .tag content) =
      (readDirective content).mapError (fun e => (e.located start stop).toError source) >>=
        fun d => .ok (.directive d ⟨start, stop + Delimiter.width⟩) := by
  intro stop
  simp only [Item.ofPiece]
  cases readDirective content with
  | error e => exact congrArg Except.error (toError_located source start stop e).symm
  | ok d => rfl

theorem Cursor.Locates.adapt {α : Type} {start stop : Nat} {text : List Char}
    {x : ExceptT Located Option α} {y : Except Misread α} (h : Locates start stop text x y)
    (source : List Char) : x.adapt (Located.toError source) =
      ExceptT.mk (some (y.mapError fun e => (e.located start stop).toError source)) := by
  cases h <;> rfl

theorem mk_ok_bind {ε α β : Type} (a : α) (f : α → ExceptT ε Option β) :
    (ExceptT.mk (some (.ok a)) >>= f) = f a := rfl

/-- The items of pieces are placed one after the other. -/
theorem Builder.scan_eq (source : List Char) (b : Builder) (ps : List Piece) :
    b.scan source (ps.flatMap Piece.tokens) =
      ExceptT.mk (some (ps.foldlM (Builder.step source) b)) := by
  induction ps generalizing b with
  | nil => rfl
  | cons p ps ih =>
    rw [List.flatMap_cons, List.foldlM_cons, Builder.step]
    cases p with
    | text start raw =>
      rw [Piece.tokens, List.singleton_append, Builder.scan, ih]
      rfl
    | directive start d content =>
      rw [Piece.tokens]
      cases d with
      | expression =>
        have hl := (locates_expression content (start + Delimiter.width) start).adapt source
        rw [ofPiece_expression]
        show Builder.scan source b (_ :: _ :: _ :: _) = _
        rw [Builder.scan]
        dsimp only
        rw [String.toList_ofList, hl]
        cases readExpression (start + Delimiter.width + byteLength content) content with
        | error e => rfl
        | ok found => exact ih _
      | tag =>
        have hl := (locates_scanDirective content (start + Delimiter.width) start).adapt source
        rw [ofPiece_tag]
        show Builder.scan source b (_ :: _ :: _ :: _) = _
        rw [Builder.scan]
        dsimp only
        rw [String.toList_ofList, hl]
        cases readDirective content with
        | error e => rfl
        | ok d =>
          rw [Except.mapError, mk_ok_bind, ok_bind, ok_bind]
          cases b.place (.directive d _) with
          | error f => rfl
          | ok b' => exact ih b'

/-- A source read by byte offsets is read as a row of characters is. -/
theorem scan_eq (source : List Char) : (scan source).run = some (parseChars source) := by
  have ht : scanTokens source = ExceptT.mk (some (tokens source)) := scanTokens_eq source
  rw [scan, ht]
  unfold parseChars tokens
  cases pieces source with
  | error e => rfl
  | ok ps =>
    show (Builder.empty.scan source (ps.flatMap Piece.tokens) >>= _ :
      ExceptT ParseError Option Tree) =
      some (ps.foldlM (Builder.step source) .empty >>= fun b => b.finish.mapError _)
    rw [Builder.scan_eq]
    cases ps.foldlM (Builder.step source) .empty with
    | error e => rfl
    | ok b =>
      rw [mk_ok_bind, ok_bind]
      cases b.finish <;> rfl

namespace FrontMatter

theorem closeOffset?_eq (offset : Nat) (lines : List (List Char)) :
    closeOffset? offset lines = (close? lines).map fun p => offset + byteLength p.head := by
  induction lines generalizing offset with
  | nil => rfl
  | cons line rest ih =>
    rw [closeOffset?, close?]
    split
    · rfl
    · rw [ih, Option.map_map]
      congr 1
      funext p
      simp [Nat.add_assoc]

theorem bodyOffset?_eq (text : List Char) :
    bodyOffset? text = (split? text).map fun p => byteLength p.head := by
  rw [bodyOffset?, split?]
  cases fullLines text with
  | nil => rfl
  | cons first rest =>
    dsimp only
    split
    · rw [closeOffset?_eq, Option.map_map]
      congr 1
      funext p
      simp
    · rfl

end FrontMatter

/-- The body of a template begins where its front matter ends. -/
theorem scanOrigin_eq {name text : String} {t : Template}
    (h : Template.ofMarkdown? name text = some t) :
    text.toList = t.head.toList ++ t.body.toList ∧ scanOrigin text.toList = t.origin := by
  rw [scanOrigin, FrontMatter.bodyOffset?_eq]
  unfold Template.ofMarkdown? at h
  cases hs : FrontMatter.split? text.toList with
  | none =>
    rw [hs] at h
    obtain rfl := Option.some.inj h
    exact ⟨rfl, rfl⟩
  | some parts =>
    rw [hs] at h
    obtain ⟨front, -, rfl⟩ := Option.map_eq_some_iff.mp h
    have happ := FrontMatter.append_of_split? hs
    refine ⟨by rw [String.toList_ofList, String.toList_ofList, happ], ?_⟩
    show Position.ofOffset text.toList (byteLength parts.head) =
      .after (String.ofList parts.head).toList
    rw [← happ, Position.ofOffset_byteLength, String.toList_ofList]

/-- The slice from the origin of a template on is its body. -/
theorem slice?_body (t : Template) :
    slice? t.text.toList t.origin.offset (byteLength t.text.toList) = some t.body.toList := by
  rw [Template.text, String.toList_append]
  exact slice?_append_right t.head.toList t.body.toList

end Proforma
