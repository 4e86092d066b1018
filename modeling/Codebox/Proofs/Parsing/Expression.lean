import Codebox.Script.Expression
import Codebox.Script.Markup
import Codebox.Proofs.Parsing.Member

/-! # Expressions

Every rule for an expression gives one construct, and nothing in it is rewritten:
statements stand in an expression only inside a function or a class.
-/

namespace Codebox.Script

variable {text : List Char} {low middle high : Int} {self : Goal → Parser Pieces}
  {pieces before : Pieces} {ends : Bool} {gap : Gap}

/-! ## Primary expressions -/

/-- A place without blanks before it is a gap. -/
theorem gap_here {cursor : Cursor} (stands : cursor.At text)
    (offset : (cursor.offset : Int) = low) : (Gap.mk [] cursor cursor).At text low :=
  ⟨.nil (Int.le_of_eq offset.symm), stands⟩

/-- The texts and the substitutions of a template lie in a row. -/
theorem meets_templateParts (obeys : Obeys text self) :
    Meets text low (templateParts self) (Lead text true low) := by
  refine meets_repeated fun middle => .get fun start stands offset => ?_
  have here := gap_here stands offset
  dsimp only
  split
  · exact .stop _ _
  · exact .pure .none
  · refine (meets_takeToken here).bind fun opening _ _ opens => ?_
    refine (obeys (.sequence false) _).bind fun inner _ _ holds => ?_
    refine meets_mark.bind fun closing _ _ closes => ?_
    exact .pure (.some (((opens.and holds.toLaid).and closes.toLaid).wrap rfl).body)
  · split
    · exact (meets_takeAfter here rfl).bind fun _ _ _ term => .pure (.some term.body)
    · exact .refuse _
  · exact (meets_takeAfter here rfl).bind fun _ _ _ term => .pure (.some term.body)

/-- A template is one construct. -/
theorem meets_template (obeys : Obeys text self) :
    Meets text low (template self) (Term text true low) := by
  refine meets_mark.bind fun opening _ _ opens => ?_
  refine (meets_templateParts obeys).bind fun parts _ _ lead => ?_
  refine meets_mark.bind fun closing _ _ closes => ?_
  exact .pure (((opens.toTerm.and lead.laid).and closes.toLaid).wrap rfl)

/-- A function in an expression is calm, because it opens a scope. -/
theorem meets_functionExpression (obeys : Obeys text self)
    (lead : Lead text true low middle before) :
    Meets text middle (functionExpression self before) (Term text true low) := by
  refine meets_word.bind fun keyword _ _ first => ?_
  refine meets_mark?.bind fun star _ _ second => .ahead fun _ _ => ?_
  refine .branch (fun _ => (meets_freeName rfl).mono fun _ _ _ term => term.toLaid)
    (fun _ => .pure (.nil (Int.le_refl _))) fun name _ _ third => ?_
  refine (meets_formalParameters obeys).bind fun parameters _ _ fourth => ?_
  refine (meets_block obeys).bind fun body _ _ fifth => ?_
  have parts := ((((lead.and first.body).and second.laid).and (third.inRole .name)).and
    (fourth.toLaid.inRole .parameters)).loosen.and (fifth.toLaid.inRole .body)
  refine .pure (parts.wrapScope ?_ ?_)
  · split <;> rfl
  · split <;> rfl

/-- Whether an arrow follows is looked at without moving. -/
theorem Meets.arrowFollows {α : Type} {next : Bool → Parser α} {post : Int → α → Prop}
    (second : ∀ follows, Meets text low (next follows) post) :
    Meets text low (Script.arrowFollows ends >>= next) post := by
  have looked : Meets text low (Script.arrowFollows ends) fun high _ => high = low := by
    refine .sequel fun following _ => ?_
    cases following with
    | ends => exact .pure rfl
    | continues => exact .pure rfl
  refine looked.bind ?_
  rintro follows _ - rfl
  exact second follows

/-- An arrow and a body after parameters make a function, which opens a scope. -/
theorem meets_arrowAfter (obeys : Obeys text self) (first : Body text true low middle before) :
    Meets text middle (arrowAfter self ends before) (Term text true low) := by
  refine meets_mark.bind fun arrow high _ second => .ahead fun _ _ => ?_
  have rest : ∀ body last, Laid text false high last body →
      Meets text last (pure (wrap .arrowFunction (before ++ arrow ++ inRole .body body)))
        (Term text true low) := by
    intro body last third
    exact .pure (((first.and second.toLaid).loosen.and (third.inRole .body)).wrapScope rfl rfl)
  dsimp only
  split
  · exact (meets_block obeys).bind fun body _ _ third => rest body _ third.toLaid
  · exact (obeys (.expression ends) _).bind fun body _ _ third => rest body _ third.toLaid.loosen

/-- A list in parentheses is one construct, or an arrow follows it and takes it as parameters. -/
theorem meets_parenthesizedOrArrow (obeys : Obeys text self) :
    Meets text low (parenthesizedOrArrow self ends) (Term text true low) := by
  refine .ahead fun gap _ => (meets_parenthesized obeys).bind fun list high _ stands => ?_
  refine .arrowFollows fun _ => ?_
  split
  · split
    next found => exact meets_arrowAfter obeys ((stands.parameters? found).inRole .parameters)
    next => exact .refuse _
  · split
    · exact .pure stands.expression
    · exact .refuse _

/-- What the word `async` starts is one construct: a function, an arrow, a call or a name. -/
theorem meets_asyncPrimary (obeys : Obeys text self) :
    Meets text low (asyncPrimary self ends) (Term text true low) := by
  refine .ahead fun gap stands => ?_
  refine (meets_leaf stands rfl).bind ?_
  rintro asName high - ⟨named, -, order⟩
  refine .get fun cursor reached offset => ?_
  have keyed : Term text true low high
      (gap.comments ++ [gap.next.leaf cursor (.token "async") false]) := by
    rw [← offset] at order ⊢
    exact stands.term reached (Int.ofNat_le.mp order) rfl
  refine .sequel fun following stands => ?_
  cases following with
  | ends => exact .pure named
  | continues following =>
      dsimp only
      split
      · split
        · exact meets_functionExpression obeys (.inr keyed.body)
        · split
          · refine (meets_freeName rfl).bind fun parameter _ _ second => ?_
            exact meets_arrowAfter obeys (keyed.and second.toLaid)
          · exact .pure named
      · split
        · exact meets_arrowAfter obeys named.body
        · refine (meets_parenthesized obeys).bind fun list _ _ stands => ?_
          refine .arrowFollows fun _ => ?_
          split
          · split
            next found =>
              exact meets_arrowAfter obeys
                (keyed.and ((stands.parameters? found).toLaid.inRole .parameters))
            next => exact .refuse _
          · split
            · exact .refuse _
            · have arguments : Term text true high _
                  (wrap .arguments (list.opening ++ list.items ++ list.closing)) :=
                stands.wrap id rfl
              exact .pure ((named.and arguments.toLaid).wrap rfl)
        · exact .pure named

/-- What the word `import` starts in an expression is one construct. -/
theorem meets_importPrimary : Meets text low importPrimary (Term text true low) := by
  refine .ahead fun gap stands => ?_
  refine (meets_takeAfter stands rfl).bind fun keyword _ _ first => .ahead fun gap stands => ?_
  split
  · exact .pure first
  · refine (meets_takeToken stands).bind fun dot _ _ second => ?_
    refine meets_word.bind fun property _ _ third => ?_
    exact .pure (((first.and second.toLaid).and third.toLaid).wrap rfl)
  · exact .refuse _

/-- An expression with `new`, with or without arguments, is one construct. -/
theorem meets_newExpression (obeys : Obeys text self) :
    Meets text low (newExpression self ends) (Term text true low) := by
  refine meets_word.bind fun keyword middle _ first => .ahead fun gap stands => ?_
  split
  · refine (meets_takeToken stands).bind fun dot _ _ second => ?_
    refine meets_word.bind fun property _ _ third => ?_
    exact .pure (((first.toTerm.and second.toLaid).and third.toLaid).wrap rfl)
  · refine (meets_valued (obeys (.callee ends) middle)).bind fun callee high _ second => ?_
    have rest : ∀ arguments last, Laid text true high last arguments →
        Meets text last (pure (wrap .newExpression (keyword ++ callee ++ arguments)))
          (Term text true low) := by
      intro arguments last third
      exact .pure (((first.toTerm.and second.toLaid).and third).wrap rfl)
    refine .sequel fun following _ => ?_
    cases following with
    | ends => exact rest [] high (.nil (Int.le_refl _))
    | continues gap =>
        dsimp only
        split
        · exact (meets_callArguments obeys).bind fun arguments _ _ third =>
            rest arguments _ third.toLaid
        · exact rest [] high (.nil (Int.le_refl _))

/-- The words with a kind of their own have plain kinds. -/
theorem isPlain_of_wordKind? {name : String} {kind : Kind} (found : wordKind? name = some kind) :
    kind.isPlain := by
  unfold wordKind? at found
  split at found <;> cases found <;> rfl

/-- A primary expression that starts with a word is one construct. -/
theorem meets_wordPrimary {name : String} (obeys : Obeys text self) (stands : gap.At text low) :
    Meets text low (wordPrimary self ends gap name) (Term text true low) := by
  unfold wordPrimary
  split
  · exact meets_functionExpression obeys (.nil (Int.le_refl _))
  · exact (meets_classParts obeys).bind fun parts _ _ body => .pure (body.wrap rfl)
  · exact meets_newExpression obeys
  · exact meets_importPrimary
  · exact meets_asyncPrimary obeys
  · split
    next found => exact meets_takeAfter stands (isPlain_of_wordKind? found)
    next =>
      split
      · refine (meets_takeAfter stands rfl).bind fun pieces _ _ term => .arrowFollows fun _ => ?_
        split
        · exact meets_arrowAfter obeys term.body
        · exact .pure term
      · exact .refuse _

/-- A primary expression that starts with a mark is one construct. -/
theorem meets_markPrimary (obeys : Obeys text self) (stands : gap.At text low) :
    Meets text low (markPrimary self ends gap) (Term text true low) := by
  unfold markPrimary
  split
  · exact meets_parenthesizedOrArrow obeys
  · exact meets_array obeys
  · exact meets_object obeys
  · exact meets_template obeys
  · exact obeys .markup low
  · refine (meets_decorators obeys).bind fun marks _ _ lead => ?_
    exact (meets_classParts obeys).bind fun parts _ _ body => .pure ((lead.and body).wrap rfl)
  · split
    · exact .refuse _
    · exact meets_takeAfter stands rfl
  · split
    · exact meets_takeAfter stands rfl
    · exact .refuse _
  · exact .refuse _

/-- A primary expression is one construct. -/
theorem meets_primary (obeys : Obeys text self) :
    Meets text low (primary self ends) (Term text true low) := by
  refine .ahead fun gap stands => ?_
  dsimp only
  split
  · exact meets_wordPrimary obeys stands
  · split
    · exact meets_takeAfter stands rfl
    · exact meets_takeAfter stands rfl
    · exact meets_markPrimary obeys stands

/-! ## Accesses, calls and assignments -/

/-- The name after a dot is one construct. -/
theorem meets_memberName : Meets text low memberName (Term text true low) := by
  refine .ahead fun gap stands => ?_
  split
  · exact meets_takeAfter stands rfl
  · split
    · split
      · exact .refuse _
      · exact meets_takeAfter stands rfl
    · exact .refuse _

/-- A subscript in its brackets lies in a row. -/
theorem meets_subscript (obeys : Obeys text self) :
    Meets text low (subscript self) (Laid text true low) := by
  refine meets_mark.bind fun opening _ _ opens => ?_
  refine (obeys (.sequence false) _).bind fun index _ _ holds => ?_
  refine meets_mark.bind fun closing _ _ closes => ?_
  exact .pure ((opens.toLaid.append holds.toLaid).append closes.toLaid)

/-- A step over accesses extends the expression so far to one construct, or declines. -/
theorem meets_access {calls : Bool} (obeys : Obeys text self)
    (left : Term text true low middle before) :
    Meets text middle (access self ends calls before) (Stepped (Term text true low)) := by
  -- A step wraps the construct so far and what follows it.
  have step : ∀ {kind : Kind} {others high}, kind.isPlain → Laid text true middle high others →
      Meets text high (pure (some (wrap kind (before ++ others)))) (Stepped (Term text true low)) :=
    fun plain laid => .pure (.some ((left.and laid).wrap plain))
  refine .sequel fun following stands => ?_
  cases following with
  | ends => exact .pure .none
  | continues gap =>
      dsimp only
      split
      · refine (meets_takeToken stands).bind fun dot _ _ first => ?_
        refine meets_memberName.bind fun name _ _ second => ?_
        rw [List.append_assoc]
        exact step rfl (first.toLaid.append second.toLaid)
      · refine (meets_takeAfter stands rfl).bind fun chain _ _ first => .ahead fun _ _ => ?_
        split
        · refine (meets_callArguments obeys).bind fun arguments _ _ second => ?_
          rw [List.append_assoc]
          exact step rfl (first.toLaid.append second.toLaid)
        · refine (meets_subscript obeys).bind fun index _ _ second => ?_
          rw [List.append_assoc]
          exact step rfl (first.toLaid.append second)
        · refine meets_memberName.bind fun name _ _ second => ?_
          rw [List.append_assoc]
          exact step rfl (first.toLaid.append second.toLaid)
      · exact (meets_subscript obeys).bind fun index _ _ laid => step rfl laid
      · exact (meets_template obeys).bind fun quoted _ _ term => step rfl term.toLaid
      · split
        · exact (meets_callArguments obeys).bind fun arguments _ _ term => step rfl term.toLaid
        · exact .pure .none
      · split
        · exact (meets_takeToken stands).bind fun sign _ _ term => step rfl term.toLaid
        · exact .pure .none
      · split
        · exact (meets_takeToken stands).bind fun sign _ _ term => step rfl term.toLaid
        · exact .pure .none
      · exact .pure .none

/-- An expression with the accesses after it is one construct. -/
theorem meets_accessed {calls : Bool} (obeys : Obeys text self) :
    Meets text low (accessed self ends calls) (Term text true low) := by
  refine (obeys (.primary ends) low).bind fun first middle _ term => ?_
  split
  · exact .pure term
  · exact meets_extended (fun above held => held.extend above)
      (fun _ _ held => meets_access obeys held) term

/-- A target and a value make an assignment. -/
theorem Term.assigns {target between right : Pieces} {last : Int}
    (left : Term text true low middle target) (laid : Laid text true middle last between)
    (value : Term text true last high right) :
    Term text true low high
      (Script.wrap .assignmentExpression
        (Script.inRole .left target ++ between ++ Script.inRole .right right)) := by
  have whole := (((left.inRole .left).and laid).and (value.toLaid.inRole .right)).toLaid
  have bare := left.bare
  obtain ⟨comments, node, rfl, trivia, solid⟩ := left.single
  obtain ⟨front, last, rfl, -, -⟩ := value.single
  have shape : Script.inRole .left (comments ++ [node]) ++ between ++
        Script.inRole .right (front ++ [last]) =
      comments ++ node.inRole .left :: (between ++ (front ++ [last.inRole .right])) := by
    simp [inRole_concat]
  have solidLeft : (node.inRole .left).kind.isTrivia = false := by
    cases node
    exact solid
  rw [shape] at whole ⊢
  rw [wrap_eq trivia solidLeft]
  refine whole.term_built (fun comment member => ?_) rfl ?_ fun _ => ?_
  · exact ⟨trivia comment member, bare comment (List.mem_append_left _ member)⟩
  · exact shaped_assignment (.inl rfl) (by cases node; rfl) solidLeft
      (List.mem_append_right _ (List.mem_append_right _ List.mem_cons_self)) (by cases last; rfl)
  · refine Node.calm_of_children rfl fun _ child member => ?_
    exact whole.calm rfl child (List.mem_append_right _ member)

/-- An assignment has a left and a right side, and is one construct. -/
theorem meets_assignment (obeys : Obeys text self) :
    Meets text low (assignment self ends) (Term text true low) := by
  refine (meets_accessed obeys).bind fun left _ _ first => .sequel fun following stands => ?_
  cases following with
  | ends => exact .pure first
  | continues gap =>
      dsimp only
      split
      · split
        next found =>
          refine (meets_takeToken stands).bind fun equals _ _ second => ?_
          refine (obeys (.expression ends) _).bind fun right _ _ third => ?_
          exact .pure ((first.target? found).assigns second.toLaid third)
        next => exact .pure first
      · split
        · refine (meets_takeToken stands).bind fun operator _ _ second => ?_
          refine (obeys (.expression ends) _).bind fun right _ _ third => ?_
          have parts := ((first.inRole .left).and (second.toLaid.inRole .operator)).and
            (third.toLaid.inRole .right)
          exact .pure (parts.wrap rfl)
        · exact .pure first

/-! ## Operators -/

/-- An operator and the operand after it are one construct. -/
theorem meets_applied {kind : Kind} {operator : Pieces} (obeys : Obeys text self)
    (first : Term text true low middle operator) (plain : kind.isPlain) :
    Meets text middle (applied self ends kind operator) (Term text true low) := by
  refine (meets_valued (obeys (.operand ends) _)).bind fun argument _ _ second => ?_
  exact .pure (((first.inRole .operator).and (second.toLaid.inRole .argument)).wrap plain)

/-- What the word `await` starts is one construct, be it a name or an operator. -/
theorem meets_awaited (obeys : Obeys text self) (stands : gap.At text low) :
    Meets text low (awaited self ends gap) (Term text true low) := by
  unfold awaited
  split
  · exact meets_assignment obeys
  · split
    · exact (meets_takeToken stands).bind fun operator _ _ term => meets_applied obeys term rfl
    · exact meets_assignment obeys

/-- An expression with `yield` is one construct, with or without a value. -/
theorem meets_yielded (obeys : Obeys text self) (stands : gap.At text low) :
    Meets text low (yielded self ends gap) (Term text true low) := by
  refine (meets_takeToken stands).bind fun keyword _ _ first => .sequel fun following stands => ?_
  cases following with
  | ends => exact .pure (first.body.wrap rfl)
  | continues following =>
      dsimp only
      split
      · refine (meets_takeToken stands).bind fun star _ _ second => ?_
        refine (obeys (.expression ends) _).bind fun value _ _ third => ?_
        exact .pure (((first.and second.toLaid).and third.toLaid).wrap rfl)
      · split
        · refine (obeys (.expression ends) _).bind fun value _ _ second => ?_
          exact .pure ((first.and second.toLaid).wrap rfl)
        · exact .pure (first.body.wrap rfl)

/-- An operand is one construct, with the operators before it. -/
theorem meets_operand (obeys : Obeys text self) :
    Meets text low (operand self ends) (Term text true low) := by
  refine .ahead fun gap stands => ?_
  have sign : ∀ (kind : Kind) (symbol : String), kind.isPlain →
      Meets text low (do applied self ends kind (← takeToken gap symbol)) (Term text true low) :=
    fun kind symbol plain => (meets_takeToken stands).bind fun operator _ _ term =>
      meets_applied obeys term plain
  dsimp only
  split
  · split
    · exact sign _ _ rfl
    · split
      · exact meets_awaited obeys stands
      · split
        · exact meets_yielded obeys stands
        · exact meets_assignment obeys
  · split
    · exact sign _ _ rfl
    · split
      · exact sign _ _ rfl
      · exact meets_assignment obeys

/-- A step over operators extends the expression so far to one construct, or declines. -/
theorem meets_operation {level : Nat} (obeys : Obeys text self)
    (left : Term text true low middle before) :
    Meets text middle (operation self ends level before) (Stepped (Term text true low)) := by
  refine .sequel fun following stands => ?_
  cases following with
  | ends => exact .pure .none
  | continues gap =>
      dsimp only
      split
      · split
        · refine (meets_takeToken stands).bind fun symbol _ _ second => ?_
          refine (meets_valued (obeys (.binary ends _) _)).bind fun right _ _ third => ?_
          have parts := ((left.inRole .left).and (second.toLaid.inRole .operator)).and
            (third.toLaid.inRole .right)
          exact .pure (.some (parts.wrap rfl))
        · exact .pure .none
      · exact .pure .none

/-- Operands with operators between them are one construct. -/
theorem meets_binary {level : Nat} (obeys : Obeys text self) :
    Meets text low (binary self ends level) (Term text true low) := by
  refine (obeys (.operand ends) low).bind fun left _ _ term => ?_
  split
  · exact .pure term
  · exact meets_extended (fun above held => held.extend above)
      (fun _ _ held => meets_operation obeys held) term

/-- An expression that a condition may choose is one construct. -/
theorem meets_element (obeys : Obeys text self) :
    Meets text low (element self ends) (Term text true low) := by
  refine (obeys (.binary ends 0) low).bind fun left _ _ first => ?_
  split
  · exact .pure first
  · refine .sequel fun following stands => ?_
    cases following with
    | ends => exact .pure first
    | continues gap =>
        dsimp only
        split
        · refine (meets_takeToken stands).bind fun question _ _ second => ?_
          refine (obeys (.expression false) _).bind fun yes _ _ third => ?_
          refine meets_mark.bind fun colon _ _ fourth => ?_
          refine (obeys (.expression ends) _).bind fun no _ _ fifth => ?_
          exact .pure (((((first.and second.toLaid).and third.toLaid).and fourth.toLaid).and
            fifth.toLaid).wrap rfl)
        · exact .pure first

/-- Expressions with commas between them are one construct. -/
theorem meets_sequence (obeys : Obeys text self) :
    Meets text low (sequence self ends) (Term text true low) := by
  refine (obeys (.expression ends) low).bind fun first last _ term => ?_
  refine .bind (meets_repeated fun middle => ?_ : Meets text last _ (Lead text true last)) ?_
  · refine .sequel fun following stands => ?_
    cases following with
    | ends => exact .pure .none
    | continues gap =>
        dsimp only
        split
        · refine (meets_takeToken stands).bind fun comma _ _ second => ?_
          refine (obeys (.expression ends) _).bind fun other _ _ third => ?_
          exact .pure (.some (second.and third.toLaid))
        · exact .pure .none
  · intro others high order lead
    split
    · exact .pure (term.extend order)
    · exact .pure ((term.and lead.laid).wrap rfl)

/-! ## Embedded markup -/

/-- The name of an element or an attribute lies in a row, with its dots and colons. -/
theorem meets_markupName : Meets text low markupName (Body text true low) := by
  refine .ahead fun gap stands => ?_
  split
  · exact .refuse _
  · refine (meets_takeAfter stands rfl).bind fun first last _ term => ?_
    refine .bind (meets_repeated fun middle => ?_ : Meets text last _ (Lead text true last)) ?_
    · refine .ahead fun gap stands => ?_
      dsimp only
      split
      · refine (meets_takeToken stands).bind fun joint _ _ second => .ahead fun gap stands => ?_
        split
        · exact .refuse _
        · refine (meets_takeAfter stands rfl).bind fun name _ _ third => ?_
          exact .pure (.some (second.and third.toLaid))
      · exact .pure .none
    · intro others high _ lead
      exact .pure (term.and lead.laid)

/-- An expression in braces, inside markup, is one construct. -/
theorem meets_markupExpression (obeys : Obeys text self) :
    Meets text low (markupExpression self) (Term text true low) := by
  refine meets_mark.bind fun opening middle _ opens => .ahead fun gap _ => ?_
  have rest : ∀ inner high, Laid text true middle high inner →
      Meets text high (do
        let closing ← mark "\x7d"
        return wrap .markupExpression (opening ++ inner ++ closing)) (Term text true low) := by
    intro inner high laid
    refine meets_mark.bind fun closing _ _ closes => ?_
    exact .pure (((opens.toTerm.and laid).and closes.toLaid).wrap rfl)
  dsimp only
  split
  · exact rest [] middle (.nil (Int.le_refl _))
  · exact (meets_item obeys).bind fun inner _ _ term => rest inner _ term.toLaid
  · exact (obeys (.sequence false) _).bind fun inner _ _ term => rest inner _ term.toLaid

/-- The value of an attribute is one construct. -/
theorem meets_markupValue (obeys : Obeys text self) :
    Meets text low (markupValue self) (Term text true low) := by
  refine .ahead fun gap stands => ?_
  split
  · exact meets_takeAfter stands rfl
  · split
    · exact meets_markupExpression obeys
    · exact obeys .markup low
    · exact .refuse _

/-- The attributes of an element lie in a row. -/
theorem meets_markupAttributes (obeys : Obeys text self) :
    Meets text low (markupAttributes self) (Lead text true low) := by
  refine meets_repeated fun middle => .ahead fun gap stands => ?_
  split
  · exact (meets_markupExpression obeys).bind fun _ _ _ term => .pure (.some term.body)
  · split
    · exact .pure .none
    · refine meets_markupName.bind fun name _ _ first => .ahead fun gap stands => ?_
      split
      · refine (meets_takeToken stands).bind fun equals _ _ second => ?_
        refine (meets_markupValue obeys).bind fun value _ _ third => ?_
        exact .pure (.some (((first.and second.toLaid).and third.toLaid).wrap rfl).body)
      · exact .pure (.some (first.wrap rfl).body)

/-- A mark of a tag is one construct. -/
theorem meets_tagMark {symbol : String} :
    Meets text low (tagMark symbol) (Term text true low) := by
  refine .ahead fun gap stands => ?_
  split
  · exact meets_takeToken stands
  · exact .stop _ _

/-- What stands between two tags lies in a row. -/
theorem meets_markupChildren (obeys : Obeys text self) :
    Meets text low (markupChildren self) (Lead text true low) := by
  refine meets_repeated fun middle => .get fun start stands offset => ?_
  have here := gap_here stands offset
  split
  · exact .stop _ _
  · split
    · exact .pure .none
    · exact (obeys .markup _).bind fun _ _ _ term => .pure (.some term.body)
  · exact (meets_markupExpression obeys).bind fun _ _ _ term => .pure (.some term.body)
  · split
    · exact (meets_takeAfter here rfl).bind fun _ _ _ term => .pure (.some term.body)
    · exact .refuse _
  · split
    · exact .refuse _
    · exact (meets_takeAfter here rfl).bind fun _ _ _ term => .pure (.some term.body)

/-- The name in a tag lies in a row, if there is one. -/
theorem meets_tagName : Meets text low tagName (Laid text true low) := by
  refine .ahead fun gap _ => ?_
  split
  · exact .pure (.nil (Int.le_refl _))
  · exact meets_markupName.mono fun _ _ _ body => body.toLaid

/-- An element of markup is one construct. -/
theorem meets_markup (obeys : Obeys text self) :
    Meets text low (markup self) (Term text true low) := by
  refine meets_tagMark.bind fun opening _ _ first => ?_
  refine meets_tagName.bind fun name _ _ second => ?_
  refine .branch (fun _ => .pure (.nil (Int.le_refl _)))
    (fun _ => (meets_markupAttributes obeys).mono fun _ _ _ lead => lead.laid)
    fun attributes _ _ third => .ahead fun gap stands => ?_
  have front := (first.and second).and third
  split
  · refine (meets_takeToken stands).bind fun slash _ _ fourth => ?_
    refine meets_tagMark.bind fun closing _ _ fifth => ?_
    exact .pure (((front.and fourth.toLaid).and fifth.toLaid).wrap rfl)
  · refine meets_tagMark.bind fun closing _ _ fourth => ?_
    refine (meets_markupChildren obeys).bind fun children _ _ inner => ?_
    refine meets_tagMark.bind fun opening _ _ opens => ?_
    refine meets_tagMark.bind fun slash _ _ slashes => ?_
    refine meets_tagName.bind fun name _ _ named => ?_
    refine meets_tagMark.bind fun closing _ _ closes => ?_
    have head := (front.and fourth.toLaid).wrap (show Kind.markupOpening.isPlain from rfl)
    have tail := (((opens.and slashes.toLaid).and named).and closes.toLaid).wrap
      (show Kind.markupClosing.isPlain from rfl)
    exact .pure (((head.and inner.laid).and tail.toLaid).wrap rfl)

end Codebox.Script
