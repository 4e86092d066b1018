import Codebox.Script.Primary
import Codebox.Proofs.Parsing.Pattern

/-! # Lists, blocks and members

The rules for lists in brackets, for blocks and for the members of objects and
classes give pieces in a row. A block has an opening and a closing brace of one byte
each, and only comments after the closing one. An array starts with its bracket.
-/

namespace Codebox.Script

variable {text : List Char} {low middle high : Int} {self : Goal → Parser Pieces}
  {pieces before : Pieces}

/-! ## Lists -/

/-- Items with commas between them lie in a row up to the closing mark. -/
theorem meets_listed {close : String} {item : Parser Pieces}
    (each : ∀ middle, Meets text middle item (Term text true middle)) :
    Meets text low (listed close item) (Lead text true low) := by
  refine meets_repeated fun middle => .ahead fun gap stands => ?_
  dsimp only
  split
  · exact .pure .none
  · split
    · exact (meets_takeToken stands).bind fun comma _ _ term => .pure (.some term.body)
    · refine (each middle).bind fun pieces high order term => .ahead fun after _ => ?_
      split
      · exact .pure (.some term.body)
      · exact .stop _ _

/-- An item of a list, spread or not, is one construct. -/
theorem meets_item (obeys : Obeys text self) :
    Meets text low (item self) (Term text true low) := by
  refine .ahead fun gap stands => ?_
  split
  · refine (meets_takeToken stands).bind fun dots _ _ first => ?_
    refine (obeys (.element false) _).bind fun element _ _ second => ?_
    exact .pure ((first.and second.toLaid).wrap rfl)
  · exact obeys _ _

/-- The pieces of a list in parentheses lie in a row. -/
def Parenthesized.At (text : List Char) (low high : Int) (list : Parenthesized) : Prop :=
  ∃ first last, Term text true low first list.opening ∧
    Laid text true first last list.items ∧ Term text true last high list.closing

/-- A list in parentheses is read as its two marks with the items between them. -/
theorem meets_parenthesized (obeys : Obeys text self) :
    Meets text low (parenthesized self) (Parenthesized.At text low) := by
  refine meets_mark.bind fun opening first _ opens => ?_
  refine (meets_listed fun _ => meets_item obeys).bind fun items last _ inner => ?_
  refine meets_mark.bind fun closing high _ closes => ?_
  exact .pure ⟨first, last, opens.toTerm, inner.laid, closes.toTerm⟩

variable {list : Parenthesized}

/-- The parts of a list, wrapped with whatever its items are turned into. -/
theorem Parenthesized.At.wrap {kind : Kind} {items : Pieces} (stands : list.At text low high)
    (inner : ∀ {first last}, Laid text true first last list.items → Laid text true first last items)
    (plain : kind.isPlain) :
    Term text true low high (Script.wrap kind (list.opening ++ items ++ list.closing)) := by
  obtain ⟨first, last, opens, items, closes⟩ := stands
  exact ((opens.and (inner items)).and closes.toLaid).wrap plain

/-- A list that can be parameters is one construct as such. -/
theorem Parenthesized.At.parameters? (stands : list.At text low high)
    (found : list.parameters? = some pieces) : Term text true low high pieces := by
  unfold Parenthesized.parameters? at found
  split at found
  · obtain ⟨items, foundItems, rfl⟩ := Option.map_eq_some_iff.mp found
    exact stands.wrap (fun laid => laid.patterns? foundItems) rfl
  · cases found

/-- A list in parentheses is one construct as an expression. -/
theorem Parenthesized.At.expression (stands : list.At text low high) :
    Term text true low high list.expression := by
  unfold Parenthesized.expression
  dsimp only
  split
  · exact stands.wrap (fun laid => laid.wrap rfl) rfl
  · exact stands.wrap id rfl

/-- The parameters of a function are one construct. -/
theorem meets_formalParameters (obeys : Obeys text self) :
    Meets text low (formalParameters self) (Term text true low) := by
  refine .ahead fun gap _ => (meets_parenthesized obeys).bind fun list high _ stands => ?_
  split
  next pieces found => exact .pure (stands.parameters? found)
  next => exact .refuse _

/-- The arguments of a call are one construct. -/
theorem meets_callArguments (obeys : Obeys text self) :
    Meets text low (callArguments self) (Term text true low) := by
  refine .ahead fun gap _ => (meets_parenthesized obeys).bind fun list high _ stands => ?_
  split
  · exact .refuse _
  · exact .pure (stands.wrap id rfl)

/-- A condition in parentheses is one construct. -/
theorem meets_condition (obeys : Obeys text self) :
    Meets text low (condition self) (Term text true low) := by
  refine meets_mark.bind fun opening _ _ opens => ?_
  refine (obeys (.sequence false) _).bind fun inner _ _ holds => ?_
  refine meets_mark.bind fun closing _ _ closes => ?_
  exact .pure (((opens.toTerm.and holds.toLaid).and closes.toLaid).wrap rfl)

/-! ## Blocks -/

/-- After its last token a construct takes in comments only. -/
theorem meets_closingComments {operators value : Bool} :
    Meets text low (closingComments operators value) (Comments text low) := by
  refine .sequel fun following stands => ?_
  cases following with
  | ends comments edge =>
      obtain ⟨comments, reached⟩ := stands
      exact .set reached comments.row.le (.pure comments)
  | continues gap =>
      dsimp only
      split
      · exact .refuse _
      · exact .pure (.nil (Int.le_refl _))

/-- Statements one after the other lie in a row. They need not be calm. -/
theorem meets_statements {ends : List Char → Bool} (obeys : Obeys text self) :
    Meets text low (statements self ends) (Lead text false low) := by
  refine meets_repeated fun middle => .ahead fun gap _ => ?_
  split
  · exact .pure .none
  · exact (obeys .statement middle).bind fun pieces _ _ term => .pure (.some term.body)

/-- Comments, and then statements in braces. -/
structure Block (text : List Char) (low high : Int) (pieces : Pieces) : Prop extends
    Term text false low high pieces where
  enclosed : ∃ comments node parts, pieces = comments ++ [node] ∧ Braces.Enclose parts node ∧
    Bytes.cut (Utf8.encodeChars text) parts.closing.span = Utf8.encode "\x7d"

/-- Braces, what lies between them and the comments after them make a block. -/
theorem block_of_parts {opening inner closing comments : Pieces} {first last stop : Int}
    (opens : Token text "\x7b" low first opening) (within : Laid text false first last inner)
    (closes : Token text "\x7d" last stop closing) (trailing : Comments text stop high comments) :
    Block text low high (wrap .statementBlock (opening ++ inner ++ closing ++ comments)) := by
  refine ⟨(((opens.toTerm.loosen.and within).and closes.toLaid.loosen).and
    trailing.laid).wrap rfl, ?_⟩
  obtain ⟨ahead, left, rfl, triviaAhead, kindLeft, -, -, widthLeft, -⟩ := opens.leaf
  obtain ⟨between, right, rfl, -, kindRight, -, -, widthRight, written, -⟩ := closes.leaf
  have solid : left.kind.isTrivia = false := by
    rw [kindLeft]
    rfl
  have one_left : left.span.stop = left.span.start + 1 := widthLeft
  have one_right : right.span.stop = right.span.start + 1 := widthRight
  have shape : ahead ++ [left] ++ inner ++ (between ++ [right]) ++ comments =
      ahead ++ left :: (inner ++ between ++ right :: comments) := by
    simp
  rw [shape, wrap_eq triviaAhead solid]
  refine ⟨ahead, _, ⟨left, inner ++ between, right, comments⟩, rfl, ?_, written⟩
  constructor
  case kind => rfl
  case children => rfl
  case opening_kind => exact kindLeft
  case opening_span =>
    change left.span = ⟨left.span.start, left.span.start + 1⟩
    rw [← one_left]
  case opening_calm => exact opens.calm rfl left (List.mem_append_right _ List.mem_cons_self)
  case closing_kind => exact kindRight
  case closing_span => exact one_right
  case closing_calm => exact closes.calm rfl right (List.mem_append_right _ List.mem_cons_self)
  case comments_trivia => exact trailing.trivia
  case stop =>
    simp [built, Node.span, Node.head, List.getLastD_eq_getLast?, List.getLast?_append,
      List.getLast?_cons]

/-- A block has its braces around its statements. -/
theorem meets_block {place : BlockPlace} (obeys : Obeys text self) :
    Meets text low (block self place) (Block text low) := by
  refine meets_mark.bind fun opening _ _ opens => ?_
  refine (meets_statements obeys).bind fun inner _ _ within => ?_
  refine meets_mark.bind fun closing _ _ closes => ?_
  refine meets_closingComments.bind fun comments _ _ trailing => ?_
  exact .pure (block_of_parts opens within.laid closes trailing)

/-! ## Members of objects -/

/-- The name of a property is one construct and opens no scope. -/
theorem meets_propertyName (obeys : Obeys text self) :
    Meets text low (propertyName self) fun high pieces => Term text true low high pieces ∧
      ∃ kind, kindOf pieces = some kind ∧ kind.opensScope = false := by
  refine .ahead fun gap stands => ?_
  have leaf : ∀ (kind : Kind) (length : Nat), kind.isPlain → kind.opensScope = false →
      Meets text low (takeAfter gap kind true length) fun high pieces =>
        Term text true low high pieces ∧
          ∃ kind, kindOf pieces = some kind ∧ kind.opensScope = false :=
    fun kind length plain flat => (meets_leaf stands plain).mono
      fun pieces high _ held => ⟨held.1, kind, held.2.1, flat⟩
  dsimp only
  split
  · exact leaf _ _ rfl rfl
  · split
    · exact leaf _ _ rfl rfl
    · refine (meets_takeToken stands).bind fun opening _ _ opens => ?_
      refine (obeys (.expression false) _).bind fun inner _ _ holds => ?_
      refine meets_mark.bind fun closing _ _ closes => ?_
      have body := (opens.and holds.toLaid).and closes.toLaid
      exact .pure ⟨body.wrap rfl, _, body.kindOf_wrap _, rfl⟩
    · exact leaf _ _ rfl rfl
    · exact leaf _ _ rfl rfl
    · exact .refuse _

/-- The modifiers before the name of a member lie in a row. -/
theorem meets_modifiers {after : List String} {ends : Bool} :
    Meets text low (modifiers after ends) (Lead text true low) := by
  refine meets_repeated fun middle => .ahead fun gap stands => ?_
  have taken : ∀ symbol, Meets text middle (do return some (← takeToken gap symbol))
      (Stepped (Body text true middle)) :=
    fun symbol => (meets_takeToken stands).bind fun pieces _ _ term => .pure (.some term.body)
  dsimp only
  split
  · exact taken _
  · split
    · split
      · split
        · exact .pure .none
        · split
          · exact .pure .none
          · exact taken _
      · exact .pure .none
    · exact .pure .none

/-- What follows the name of a method makes it one construct. Its body opens a scope. -/
theorem meets_methodAfter (obeys : Obeys text self) (first : Body text true low middle before) :
    Meets text middle (methodAfter self before) (Term text true low) := by
  refine (meets_formalParameters obeys).bind fun parameters _ _ second => ?_
  refine (meets_block obeys).bind fun body _ _ third => ?_
  have parts := (first.loosen.and (second.toLaid.inRole .parameters).loosen).and
    (third.toLaid.inRole .body)
  exact .pure (parts.wrapScope rfl rfl)

/-- Another kind for one construct that opens no scope. -/
theorem Term.recastLast {kind other : Kind} (term : Term text true low high pieces)
    (last : kindOf pieces = some other) (flat : other.opensScope = false) (plain : kind.isPlain) :
    Term text true low high (recastLast kind pieces) := by
  obtain ⟨comments, node, rfl, trivia, -⟩ := term.single
  obtain ⟨front, sound, calm, back⟩ := Laid.append_cons.mp term.toLaid
  obtain ⟨bareFront, bareNode⟩ := List.forall_mem_append.mp term.bare
  rw [kindOf_concat, Option.some.injEq] at last
  have children := laid_children sound (calm rfl) (by rw [last]; exact flat)
  unfold Script.recastLast
  rw [List.getLast?_concat]
  dsimp only
  rw [List.dropLast_concat]
  obtain ⟨head, inner⟩ := node
  have recast := Recast.of_isPlain sound plain children
  refine ⟨Laid.append_cons.mpr ⟨front, recast.sound, fun _ => recast.calm, back⟩, ?_, ?_⟩
  · refine List.forall_mem_append.mpr ⟨bareFront, List.forall_mem_singleton.mpr ?_⟩
    exact bareNode (.mk head inner) List.mem_cons_self
  · exact ⟨comments, _, rfl, trivia, Kind.isTrivia_of_isPlain plain⟩

/-- A member of an object is one construct. -/
theorem meets_objectMember (obeys : Obeys text self) :
    Meets text low (objectMember self) (Term text true low) := by
  refine .ahead fun gap _ => ?_
  split
  · exact meets_item obeys
  · refine meets_modifiers.bind fun before first order lead => .ahead fun start _ => ?_
    refine (meets_propertyName obeys).bind ?_
    rintro name second - ⟨named, other, last, flat⟩
    refine .ahead fun gap stands => ?_
    have whole := named.widen order
    split
    · exact meets_methodAfter obeys (lead.and (named.inRole .name))
    · split
      · refine (meets_takeToken stands).bind fun colon _ _ colons => ?_
        refine (obeys (.element false) _).bind fun value _ _ valued => ?_
        exact .pure (((whole.and colons.toLaid).and (valued.toLaid.inRole .value)).wrap rfl)
      · exact .refuse _
    · split
      · refine (meets_takeToken stands).bind fun equals _ _ assigns => ?_
        refine (obeys (.expression false) _).bind fun value _ _ valued => ?_
        have name := whole.recastLast last flat
          (show Kind.shorthandPropertyIdentifierPattern.isPlain from rfl)
        exact .pure (((name.and assigns.toLaid).and valued.toLaid).wrap rfl)
      · exact .refuse _
    · split
      · exact .pure (whole.recastLast last flat rfl)
      · exact .refuse _

/-- An array starts with its bracket. -/
theorem Token.array {opening others : Pieces} (opens : Token text "[" low middle opening)
    (laid : Laid text true middle high others) :
    Term text true low high (wrap .array (opening ++ others)) := by
  have whole := (opens.toTerm.and laid).toLaid
  have bare := opens.bare
  obtain ⟨comments, leaf, rfl, trivia, kind, anonymous, -, -, written, -⟩ := opens.leaf
  have solid : leaf.kind.isTrivia = false := by
    rw [kind]
    rfl
  rw [List.append_assoc, List.singleton_append] at whole ⊢
  rw [wrap_eq trivia solid]
  have triviaBare : ∀ comment ∈ comments, comment.kind.isTrivia ∧ comment.head.role = none :=
    fun comment member => ⟨trivia comment member, bare comment (List.mem_append_left _ member)⟩
  apply whole.term_built triviaBare rfl
  case shaped =>
    constructor
    case array => exact fun _ => ⟨leaf, others, rfl, kind, anonymous, rfl, written⟩
    case returns => exact fun returns => nomatch returns
    case keyword => exact fun returns => nomatch returns
    case returned => exact fun returns => nomatch returns
    case declaration => exact fun declares => nomatch declares
    case loop => exact fun loop => nomatch loop
    case function => exact fun function => nomatch function
    case trivia => exact fun trivia => nomatch trivia
    case declarator => exact fun declarator => nomatch declarator
    case assignment => exact fun assigns => assigns.elim nofun nofun
  case quiet =>
    intro holds
    apply Node.calm_of_children rfl
    exact fun _ child member => whole.calm holds child (List.mem_append_right _ member)

/-- A list in brackets, or the pattern that it has to be. -/
theorem meets_bracketed {opening items closing : Pieces} {first last : Int} {place : Place}
    {kind other : Kind} (opens : Term text true low first opening)
    (inner : Laid text true first last items) (closes : Term text true last middle closing)
    (whole : Term text true low middle (wrap kind (opening ++ items ++ closing)))
    (plainOther : other.isPlain) :
    Meets text middle
      (if items.any makesPattern then
        match patterns? place items with
        | some items => pure (wrap other (opening ++ items ++ closing))
        | none => do refuse (← get)
      else pure (wrap kind (opening ++ items ++ closing))) (Term text true low) := by
  split
  · split
    next found =>
      exact .pure (((opens.and (inner.patterns? found)).and closes.toLaid).wrap plainOther)
    next => exact .get fun _ _ _ => .refuse _
  · exact .pure whole

/-- An object, or the pattern that it turns out to be, is one construct. -/
theorem meets_object (obeys : Obeys text self) :
    Meets text low (object self) (Term text true low) := by
  refine meets_mark.bind fun opening _ _ opens => ?_
  refine (meets_listed fun _ => meets_objectMember obeys).bind fun members _ _ lead => ?_
  refine meets_mark.bind fun closing _ _ closes => ?_
  exact meets_bracketed opens.toTerm lead.laid closes.toTerm
    (((opens.toTerm.and lead.laid).and closes.toLaid).wrap rfl) rfl

/-- An array, or the pattern that it turns out to be, is one construct. -/
theorem meets_array (obeys : Obeys text self) :
    Meets text low (array self) (Term text true low) := by
  refine meets_mark.bind fun opening _ _ opens => ?_
  refine (meets_listed fun _ => meets_item obeys).bind fun items _ _ lead => ?_
  refine meets_mark.bind fun closing _ _ closes => ?_
  have whole := opens.array (lead.laid.append closes.toLaid)
  rw [← List.append_assoc] at whole
  exact meets_bracketed opens.toTerm lead.laid closes.toTerm whole rfl

/-! ## Members of classes -/

/-- The names after dots in a decorator lie in a row. -/
theorem meets_decoratorPath : Meets text low decoratorPath (Lead text true low) := by
  refine meets_repeated fun middle => .ahead fun gap stands => ?_
  split
  · refine (meets_takeToken stands).bind fun dot _ _ first => ?_
    refine (meets_freeName rfl).bind fun name _ _ second => ?_
    exact .pure (.some (first.and second.toLaid))
  · exact .pure .none

/-- Decorators lie in a row. -/
theorem meets_decorators (obeys : Obeys text self) :
    Meets text low (decorators self) (Lead text true low) := by
  refine meets_repeated fun middle => .ahead fun gap stands => ?_
  split
  · refine (meets_takeToken stands).bind fun sign _ _ first => .ahead fun _ _ => ?_
    split
    · refine (meets_condition obeys).bind fun inner _ _ second => ?_
      exact .pure (.some ((first.and second.toLaid).wrap rfl).body)
    · refine (meets_freeName rfl).bind fun name _ _ second => ?_
      refine meets_decoratorPath.bind fun path _ _ third => .ahead fun _ _ => ?_
      refine .branch (fun _ => (meets_callArguments obeys).mono fun _ _ _ term => term.toLaid)
        (fun _ => .pure (.nil (Int.le_refl _))) fun call _ _ fourth => ?_
      have parts := ((first.and second.toLaid).and third.laid).and fourth
      exact .pure (.some (parts.wrap rfl).body)
  · exact .pure .none

/-- What follows the name of a field makes it one construct, with its semicolon after it. -/
theorem meets_fieldAfter (obeys : Obeys text self) (first : Body text true low middle before) :
    Meets text middle (fieldAfter self before) (Body text true low) := by
  have rest : ∀ value high, Laid text true middle high value →
      Meets text high (do
        let closing ← semicolon (!value.isEmpty)
        return wrap .fieldDefinition (before ++ value) ++ closing) (Body text true low) := by
    intro value high laid
    refine meets_semicolon.bind fun closing _ _ third => ?_
    exact .pure (((first.and laid).wrap rfl).and third.1)
  refine .sequel fun following stands => ?_
  cases following with
  | ends => exact rest [] middle (.nil (Int.le_refl _))
  | continues gap =>
      dsimp only
      split
      · refine (meets_takeToken stands).bind fun equals _ _ second => ?_
        refine (obeys (.expression true) _).bind fun value _ _ third => ?_
        exact rest _ _ (second.toLaid.append (third.toLaid.inRole .value))
      · exact rest [] middle (.nil (Int.le_refl _))

/-- A step over the members of a class gives a member or declines. -/
theorem meets_classMember (obeys : Obeys text self) :
    Meets text low (classMember self) (Stepped (Body text false low)) := by
  refine .ahead fun gap stands => ?_
  dsimp only
  split
  · exact .pure .none
  · split
    · refine (meets_takeToken stands).bind fun sign _ _ term => ?_
      exact .pure (.some term.body.loosen)
    · split
      · refine meets_word.bind fun keyword _ _ first => ?_
        refine (meets_block obeys).bind fun body _ _ second => ?_
        have parts := first.toTerm.loosen.and (second.toLaid.inRole .body)
        exact .pure (.some (parts.wrap rfl).body)
      · refine (meets_decorators obeys).bind fun marks _ _ first => ?_
        refine meets_modifiers.bind fun before _ _ second => ?_
        refine (meets_propertyName obeys).bind ?_
        rintro name last - ⟨third, -⟩
        have named : Body text true low last (marks ++ before ++ inRole .name name) := by
          rw [List.append_assoc]
          exact first.and (second.and (third.inRole .name))
        refine .ahead fun _ _ => ?_
        split
        · refine (meets_methodAfter obeys named).bind fun member _ _ term => ?_
          exact .pure (.some term.body.loosen)
        · refine (meets_fieldAfter obeys named).bind fun member _ _ body => ?_
          exact .pure (.some body.loosen)

/-- The body of a class is one calm construct, since a class opens a scope. -/
theorem meets_classBody (obeys : Obeys text self) :
    Meets text low (classBody self) (Term text true low) := by
  refine meets_mark.bind fun opening _ _ opens => ?_
  refine (meets_repeated fun _ => meets_classMember obeys).bind fun members _ _ lead => ?_
  refine meets_mark.bind fun closing _ _ closes => ?_
  exact .pure (((opens.toTerm.loosen.and lead.laid).and closes.toLaid.loosen).wrapScope rfl rfl)

/-- The parts of a class lie in a row after the comments before its keyword. -/
theorem meets_classParts (obeys : Obeys text self) :
    Meets text low (classParts self) (Body text true low) := by
  refine meets_word.bind fun keyword _ _ first => .ahead fun _ _ => ?_
  refine .branch (fun _ => (meets_freeName rfl).mono fun _ _ _ term => term.toLaid)
    (fun _ => .pure (.nil (Int.le_refl _))) fun name high _ second => .ahead fun _ _ => ?_
  have rest : ∀ heritage last, Laid text true high last heritage →
      Meets text last (do
        let body ← classBody self
        return keyword ++ inRole .name name ++ heritage ++ inRole .body body)
        (Body text true low) := by
    intro heritage last third
    refine (meets_classBody obeys).bind fun body _ _ fourth => ?_
    exact .pure (((first.toTerm.and (second.inRole .name)).and third).and
      (fourth.toLaid.inRole .body))
  dsimp only
  split
  · refine meets_word.bind fun heads _ _ leads => ?_
    refine (obeys (.expression false) _).bind fun parent _ _ follows => ?_
    exact rest _ _ ((leads.toTerm.and follows.toLaid).wrap rfl).toLaid
  · exact rest [] high (.nil (Int.le_refl _))

end Codebox.Script
