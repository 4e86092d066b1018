import Codebox.Proofs.Parsing.Agreement

/-! # Expressions, block by block

Lists, blocks, members, primary expressions, operators and markup are parsed in the same way by
two functions that agree wherever fewer characters are ahead. Most rules take a token first; those
that call on a goal first are told that the functions agree on that one goal.
-/

namespace Codebox.Script

variable {text : List Char} {room : Nat} {self other : Goal → Parser Pieces} {ends : Bool}

/-! ## Lists and blocks -/

/-- Lists agree if their items do. -/
theorem agree_listed {close : String} {item other : Parser Pieces}
    (each : Agree text room item other) :
    Agree text room (listed close item) (listed close other) := by
  refine agree_repeated (.ahead fun gap near => ?_)
  dsimp only
  split
  · exact .pure _
  · split
    · exact (agree_takeToken near).bind fun _ => .pure _
    · refine each.bind fun pieces => .ahead fun after _ => ?_
      split
      · exact .pure _
      · exact .stop _ _

theorem agree_item (agreed : Agreed text (room + 1) self other) :
    Agree text room (item self) (item other) := by
  refine .ahead fun gap near => ?_
  split
  · exact (agree_takeToken near).bind fun dots => (agreed.here _).bind fun _ => .pure _
  · exact agreed.here _

/-- A list in parentheses takes its opening mark first. -/
theorem agree_parenthesized (agreed : Agreed text room self other) :
    Agree text room (parenthesized self) (parenthesized other) := by
  refine .take (takes_mark (by decide)) fun opening less shrinks => ?_
  refine (agree_listed (agree_item (agreed.after shrinks))).bind fun items => ?_
  exact agree_mark.bind fun closing => .pure _

theorem agree_formalParameters (agreed : Agreed text room self other) :
    Agree text room (formalParameters self) (formalParameters other) := by
  refine .ahead fun place _ => (agree_parenthesized agreed).bind fun list => ?_
  split
  · exact .pure _
  · exact .refuse _

theorem agree_callArguments (agreed : Agreed text room self other) :
    Agree text room (callArguments self) (callArguments other) := by
  refine .ahead fun place _ => (agree_parenthesized agreed).bind fun list => ?_
  split
  · exact .refuse _
  · exact .pure _

/-- An expression in parentheses takes its opening mark first. -/
theorem agree_condition (agreed : Agreed text room self other) :
    Agree text room (condition self) (condition other) := by
  refine .take (takes_mark (by decide)) fun opening less shrinks => ?_
  refine (agreed _ less shrinks).bind fun inner => ?_
  exact agree_mark.bind fun closing => .pure _

/-- Statements in a row are parsed in the same way if each is. -/
theorem agree_statements {ends : List Char → Bool} (agreed : Agreed text (room + 1) self other) :
    Agree text room (statements self ends) (statements other ends) := by
  refine agree_repeated (.ahead fun gap _ => ?_)
  split
  · exact .pure _
  · exact (agreed.here _).bind fun _ => .pure _

/-- A block takes its opening brace first. -/
theorem agree_block {place : BlockPlace} (agreed : Agreed text room self other) :
    Agree text room (block self place) (block other place) := by
  refine .take (takes_mark (by decide)) fun opening less shrinks => ?_
  refine (agree_statements (agreed.after shrinks)).bind fun inner => ?_
  refine agree_mark.bind fun closing => ?_
  exact (Agree.of_meets fun _ => meets_closingComments).bind fun comments => .pure _

/-! ## Members -/

theorem agree_propertyName (agreed : Agreed text (room + 1) self other) :
    Agree text room (propertyName self) (propertyName other) := by
  refine .ahead fun gap near => ?_
  dsimp only
  split
  · exact agree_takeAfter near
  · split
    · exact agree_takeAfter near
    · refine (agree_takeToken near).bind fun opening => (agreed.here _).bind fun inner => ?_
      exact agree_mark.bind fun closing => .pure _
    · exact agree_takeAfter near
    · exact agree_takeAfter near
    · exact .refuse _

/-- A method takes its opening parenthesis first. -/
theorem agree_methodAfter {before : Pieces} (agreed : Agreed text room self other) :
    Agree text room (methodAfter self before) (methodAfter other before) := by
  refine (agree_formalParameters agreed).bind fun parameters => ?_
  exact (agree_block agreed).bind fun body => .pure _

theorem agree_objectMember (agreed : Agreed text (room + 1) self other) :
    Agree text room (objectMember self) (objectMember other) := by
  refine .ahead fun gap _ => ?_
  split
  · exact agree_item agreed
  · refine (Agree.of_meets fun _ => meets_modifiers).bind fun before => .ahead fun start _ => ?_
    refine (agree_propertyName agreed).bind fun name => .ahead fun gap near => ?_
    split
    · exact agree_methodAfter agreed.below
    · split
      · refine (agree_takeToken near).bind fun colon => ?_
        exact (agreed.here _).bind fun value => .pure _
      · exact .refuse _
    · split
      · refine (agree_takeToken near).bind fun equals => ?_
        exact (agreed.here _).bind fun value => .pure _
      · exact .refuse _
    · split
      · exact .pure _
      · exact .refuse _

/-- A list in brackets, or the pattern that it has to be, is made in the same way. -/
theorem agree_bracketed {opening items closing : Pieces} {place : Place} {kind pattern : Kind} :
    let made : Parser Pieces :=
      if items.any makesPattern then
        match patterns? place items with
        | some items => pure (wrap pattern (opening ++ items ++ closing))
        | none => do refuse (← get)
      else pure (wrap kind (opening ++ items ++ closing))
    Agree text room made made := by
  dsimp only
  split
  · split
    · exact .pure _
    · exact .get fun _ _ => .refuse _
  · exact .pure _

/-- An object takes its opening brace first. -/
theorem agree_object (agreed : Agreed text room self other) :
    Agree text room (object self) (object other) := by
  refine .take (takes_mark (by decide)) fun opening less shrinks => ?_
  refine (agree_listed (agree_objectMember (agreed.after shrinks))).bind fun members => ?_
  exact agree_mark.bind fun closing => agree_bracketed

/-- An array takes its opening bracket first. -/
theorem agree_array (agreed : Agreed text room self other) :
    Agree text room (array self) (array other) := by
  refine .take (takes_mark (by decide)) fun opening less shrinks => ?_
  refine (agree_listed (agree_item (agreed.after shrinks))).bind fun items => ?_
  exact agree_mark.bind fun closing => agree_bracketed

/-- Each decorator takes its sign first. -/
theorem agree_decorators (agreed : Agreed text room self other) :
    Agree text room (decorators self) (decorators other) := by
  refine agree_repeated (.ahead fun gap near => ?_)
  split
  · refine (agree_takeToken near).bind fun sign => .ahead fun _ _ => ?_
    split
    · exact (agree_condition agreed).bind fun _ => .pure _
    · refine (agree_freeName rfl).bind fun name => ?_
      refine (Agree.of_meets fun _ => meets_decoratorPath).bind fun path => .ahead fun _ _ => ?_
      exact .branch (fun _ => agree_callArguments agreed) (fun _ => .pure _) fun call => .pure _
  · exact .pure _

theorem agree_fieldAfter {before : Pieces} (agreed : Agreed text (room + 1) self other) :
    Agree text room (fieldAfter self before) (fieldAfter other before) := by
  refine .sequel fun following near => ?_
  cases following with
  | ends => exact agree_semicolon.bind fun closing => .pure _
  | continues gap =>
      dsimp only
      split
      · refine (agree_takeToken near).bind fun equals => (agreed.here _).bind fun value => ?_
        exact agree_semicolon.bind fun closing => .pure _
      · exact agree_semicolon.bind fun closing => .pure _

theorem agree_classMember (agreed : Agreed text (room + 1) self other) :
    Agree text room (classMember self) (classMember other) := by
  refine .ahead fun gap near => ?_
  dsimp only
  split
  · exact .pure _
  · split
    · exact (agree_takeToken near).bind fun _ => .pure _
    · split
      · exact agree_word.bind fun keyword => (agree_block agreed.below).bind fun body => .pure _
      · refine (agree_decorators agreed.below).bind fun marks => ?_
        refine (Agree.of_meets fun _ => meets_modifiers).bind fun before => ?_
        refine (agree_propertyName agreed).bind fun name => .ahead fun _ _ => ?_
        split
        · exact (agree_methodAfter agreed.below).bind fun _ => .pure _
        · exact (agree_fieldAfter agreed).bind fun _ => .pure _

/-- The body of a class takes its opening brace first. -/
theorem agree_classBody (agreed : Agreed text room self other) :
    Agree text room (classBody self) (classBody other) := by
  refine .take (takes_mark (by decide)) fun opening less shrinks => ?_
  refine (agree_repeated (agree_classMember (agreed.after shrinks))).bind fun members => ?_
  exact agree_mark.bind fun closing => .pure _

/-- A class takes its keyword first. -/
theorem agree_classParts (agreed : Agreed text room self other) :
    Agree text room (classParts self) (classParts other) := by
  refine .take (takes_word (by decide)) fun keyword less shrinks => .ahead fun _ _ => ?_
  have inner := agreed.after shrinks
  refine .branch (fun _ => agree_freeName rfl) (fun _ => .pure _) fun name => .ahead fun _ _ => ?_
  split
  · refine agree_word.bind fun keyword => (inner.here _).bind fun parent => ?_
    exact .bind (.pure _) fun heritage => (agree_classBody inner.below).bind fun body => .pure _
  · exact .bind (.pure _) fun heritage => (agree_classBody inner.below).bind fun body => .pure _

/-! ## Primary expressions -/

theorem agree_templateParts (agreed : Agreed text (room + 1) self other) :
    Agree text room (templateParts self) (templateParts other) := by
  refine agree_repeated (.get fun start near => ?_)
  dsimp only
  split
  · exact .stop _ _
  · exact .pure _
  · refine (agree_takeToken near).bind fun opening => (agreed.here _).bind fun inner => ?_
    exact agree_mark.bind fun closing => .pure _
  · split
    · exact (agree_takeAfter near).bind fun _ => .pure _
    · exact .refuse _
  · exact (agree_takeAfter near).bind fun _ => .pure _

/-- A template takes its backquote first. -/
theorem agree_template (agreed : Agreed text room self other) :
    Agree text room (template self) (template other) := by
  refine .take (takes_mark (by decide)) fun opening less shrinks => ?_
  refine (agree_templateParts (agreed.after shrinks)).bind fun parts => ?_
  exact agree_mark.bind fun closing => .pure _

/-- A function in an expression takes its keyword first. -/
theorem agree_functionExpression {before : Pieces} (agreed : Agreed text room self other) :
    Agree text room (functionExpression self before) (functionExpression other before) := by
  refine agree_word.bind fun keyword => (Agree.of_meets fun _ => meets_mark?).bind fun star => ?_
  refine .ahead fun _ _ => .branch (fun _ => agree_freeName rfl) (fun _ => .pure _) fun name => ?_
  refine (agree_formalParameters agreed).bind fun parameters => ?_
  exact (agree_block agreed).bind fun body => .pure _

/-- An arrow is taken before the body after it. -/
theorem agree_arrowAfter {parameters : Pieces} (agreed : Agreed text room self other) :
    Agree text room (arrowAfter self ends parameters) (arrowAfter other ends parameters) := by
  refine .take (takes_mark (by decide)) fun arrow less shrinks => .ahead fun _ _ => ?_
  have inner := agreed.after shrinks
  exact .branch (fun _ => agree_block inner.below) (fun _ => inner.here _) fun body => .pure _

/-- Whether an arrow follows is seen in the same way. -/
theorem agree_arrowFollows {next after : Bool → Parser Pieces}
    (later : ∀ follows, Agree text room (next follows) (after follows)) :
    Agree text room (arrowFollows ends >>= next) (arrowFollows ends >>= after) := by
  refine .bind (.sequel fun following _ => ?_) later
  cases following with
  | ends => exact .pure _
  | continues gap => exact .pure _

/-- A list in parentheses, or an arrow after it, takes the opening mark first. -/
theorem agree_parenthesizedOrArrow (agreed : Agreed text room self other) :
    Agree text room (parenthesizedOrArrow self ends) (parenthesizedOrArrow other ends) := by
  refine .ahead fun place _ => (agree_parenthesized agreed).bind fun list => ?_
  refine agree_arrowFollows fun follows => ?_
  split
  · split
    · exact agree_arrowAfter agreed
    · exact .refuse _
  · split
    · exact .pure _
    · exact .refuse _

/-- Whatever the word `async` turns out to be, it is taken first. -/
theorem agree_asyncPrimary (agreed : Agreed text room self other) :
    Agree text room (asyncPrimary self ends) (asyncPrimary other ends) := by
  refine .ahead fun gap near => (agree_takeAfter near).bind fun asName => .get fun here _ => ?_
  refine .sequel fun following near => ?_
  cases following with
  | ends => exact .pure _
  | continues following =>
      dsimp only
      split
      · split
        · exact agree_functionExpression agreed
        · split
          · exact (agree_freeName rfl).bind fun parameter => agree_arrowAfter agreed
          · exact .pure _
      · split
        · exact agree_arrowAfter agreed
        · refine (agree_parenthesized agreed).bind fun list => agree_arrowFollows fun follows => ?_
          split
          · split
            · exact agree_arrowAfter agreed
            · exact .refuse _
          · split
            · exact .refuse _
            · exact .pure _
        · exact .pure _

/-- An expression with `new` takes that word first. -/
theorem agree_newExpression (agreed : Agreed text room self other) :
    Agree text room (newExpression self ends) (newExpression other ends) := by
  refine .take (takes_word (by decide)) fun keyword less shrinks => .ahead fun gap near => ?_
  have inner := agreed.after shrinks
  split
  · exact (agree_takeToken near).bind fun dot => agree_word.bind fun property => .pure _
  · refine (agree_valued (inner.here _)).bind fun callee => .sequel fun following near => ?_
    cases following with
    | ends => exact .pure _
    | continues gap =>
        dsimp only
        split
        · exact (agree_callArguments inner.below).bind fun _ => .pure _
        · exact .pure _

/-- A primary expression that starts with a word takes the word first. -/
theorem agree_wordPrimary {gap : Gap} {name : String} (agreed : Agreed text room self other)
    (near : gap.next.Within text room) :
    Agree text room (wordPrimary self ends gap name) (wordPrimary other ends gap name) := by
  unfold wordPrimary
  split
  · exact agree_functionExpression agreed
  · exact (agree_classParts agreed).bind fun _ => .pure _
  · exact agree_newExpression agreed
  · exact .of_meets fun _ => meets_importPrimary
  · exact agree_asyncPrimary agreed
  · split
    · exact agree_takeAfter near
    · split
      · refine (agree_takeAfter near).bind fun pieces => agree_arrowFollows fun follows => ?_
        split
        · exact agree_arrowAfter agreed
        · exact .pure _
      · exact .refuse _

/-- A primary expression that starts with a mark takes the mark first, or calls on markup. -/
theorem agree_markPrimary {gap : Gap} (agreed : Agreed text room self other)
    (near : gap.next.Within text room) (markup : Agree text room (self .markup) (other .markup)) :
    Agree text room (markPrimary self ends gap) (markPrimary other ends gap) := by
  unfold markPrimary
  split
  · exact agree_parenthesizedOrArrow agreed
  · exact agree_array agreed
  · exact agree_object agreed
  · exact agree_template agreed
  · exact markup
  · refine (agree_decorators agreed).bind fun marks => ?_
    exact (agree_classParts agreed).bind fun _ => .pure _
  · split
    · exact .refuse _
    · exact agree_takeAfter near
  · split
    · exact agree_takeAfter near
    · exact .refuse _
  · exact .refuse _

/-- A primary expression calls on no goal but markup before it takes a token. -/
theorem agree_primary (agreed : Agreed text room self other)
    (markup : Agree text room (self .markup) (other .markup)) :
    Agree text room (primary self ends) (primary other ends) := by
  refine .ahead fun gap near => ?_
  dsimp only
  split
  · exact agree_wordPrimary agreed near
  · split
    · exact agree_takeAfter near
    · exact agree_takeAfter near
    · exact agree_markPrimary agreed near markup

/-! ## Expressions -/

/-- A name that is read has a character. -/
theorem ne_empty_of_name? {rest : List Char} {name : String} (found : name? rest = some name) :
    name ≠ "" := by
  rintro rfl
  cases rest with
  | nil => cases found
  | cons c rest =>
      unfold name? at found
      split at found
      next => cases found
      next wide =>
        have empty := congrArg String.toList (Option.some.inj found)
        rw [String.toList_ofList] at empty
        rcases List.take_eq_nil_iff.mp empty with none | absurd
        · exact wide none
        · cases absurd

/-- An operator that is read stands at the front of the text and has a character. -/
theorem operatorAt?_eq_some {rest : List Char} {operator : Operator}
    (found : operatorAt? rest = some operator) :
    operator.text.toList <+: rest ∧ operator.text ≠ "" := by
  unfold operatorAt? at found
  obtain ⟨level, leveled, rfl⟩ := Option.map_eq_some_iff.mp found
  dsimp only
  refine ⟨?_, ?_⟩
  · cases named : name? rest with
    | some name => exact prefix_of_name? named
    | none => exact prefix_of_markAt rfl
  · intro empty
    rw [empty] at leveled
    cases leveled

/-- An index takes its opening bracket first. -/
theorem agree_subscript (agreed : Agreed text room self other) :
    Agree text room (subscript self) (subscript other) := by
  refine .take (takes_mark (by decide)) fun opening less shrinks => ?_
  refine (agreed _ less shrinks).bind fun index => ?_
  exact agree_mark.bind fun closing => .pure _

/-- An access, a call or a step takes a token first. -/
theorem agree_access {calls : Bool} {left : Pieces} (agreed : Agreed text room self other) :
    Agree text room (access self ends calls left) (access other ends calls left) := by
  refine .sequel fun following near => ?_
  cases following with
  | ends => exact .pure _
  | continues gap =>
      have name : Agree text room memberName memberName := .of_meets fun _ => meets_memberName
      dsimp only
      split
      · exact (agree_takeToken near).bind fun dot => name.bind fun _ => .pure _
      · refine (agree_takeAfter near).bind fun chain => .ahead fun _ _ => ?_
        split
        · exact (agree_callArguments agreed).bind fun _ => .pure _
        · exact (agree_subscript agreed).bind fun _ => .pure _
        · exact name.bind fun _ => .pure _
      · exact (agree_subscript agreed).bind fun _ => .pure _
      · exact (agree_template agreed).bind fun _ => .pure _
      · split
        · exact (agree_callArguments agreed).bind fun _ => .pure _
        · exact .pure _
      · split
        · exact (agree_takeToken near).bind fun _ => .pure _
        · exact .pure _
      · split
        · exact (agree_takeToken near).bind fun _ => .pure _
        · exact .pure _
      · exact .pure _

/-- An expression with accesses calls on a primary expression first. -/
theorem agree_accessed {calls : Bool} (agreed : Agreed text room self other)
    (primary : Agree text room (self (.primary ends)) (other (.primary ends))) :
    Agree text room (accessed self ends calls) (accessed other ends calls) := by
  refine primary.bind fun first => ?_
  split
  · exact .pure _
  · exact agree_extended first fun left => agree_access agreed

/-- An assignment calls on a primary expression first, and takes its operator before the right side.
-/
theorem agree_assignment (agreed : Agreed text room self other)
    (primary : Agree text room (self (.primary ends)) (other (.primary ends))) :
    Agree text room (assignment self ends) (assignment other ends) := by
  refine (agree_accessed agreed primary).bind fun left => .sequel fun following near => ?_
  cases following with
  | ends => exact .pure _
  | continues gap =>
      dsimp only
      split
      next found =>
        split
        · refine .token near (prefix_of_markAt found) (by decide) fun equals less shrinks => ?_
          exact (agreed _ less shrinks).bind fun right => .pure _
        · exact .pure _
      next =>
        split
        next assigns =>
          have filled : markAt gap.next.rest ≠ "" := by
            intro empty
            rw [empty] at assigns
            exact absurd (Bool.and_eq_true_iff.mp assigns).1 (by decide)
          refine .token near (prefix_of_markAt rfl) filled fun operator less shrinks => ?_
          exact (agreed _ less shrinks).bind fun right => .pure _
        next => exact .pure _

theorem agree_applied {kind : Kind} {operator : Pieces}
    (agreed : Agreed text (room + 1) self other) :
    Agree text room (applied self ends kind operator) (applied other ends kind operator) :=
  (agree_valued (agreed.here _)).bind fun _ => .pure _

/-- The word `await` is taken before its operand, or starts an assignment. -/
theorem agree_awaited {gap : Gap} (agreed : Agreed text room self other)
    (near : gap.next.Within text room) (found : name? gap.next.rest = some "await")
    (primary : Agree text room (self (.primary ends)) (other (.primary ends))) :
    Agree text room (awaited self ends gap) (awaited other ends gap) := by
  unfold awaited
  split
  · exact agree_assignment agreed primary
  · split
    · refine .token near (prefix_of_name? found) (by decide) fun keyword less shrinks => ?_
      exact agree_applied (agreed.after shrinks)
    · exact agree_assignment agreed primary

/-- The word `yield` is taken before what it yields. -/
theorem agree_yielded {gap : Gap} (agreed : Agreed text room self other)
    (near : gap.next.Within text room) (found : name? gap.next.rest = some "yield") :
    Agree text room (yielded self ends gap) (yielded other ends gap) := by
  refine .token near (prefix_of_name? found) (by decide) fun keyword less shrinks => ?_
  have inner := agreed.after shrinks
  refine .sequel fun following near => ?_
  cases following with
  | ends => exact .pure _
  | continues following =>
      dsimp only
      split
      · exact (agree_takeToken near).bind fun star => (inner.here _).bind fun _ => .pure _
      · split
        · exact (inner.here _).bind fun _ => .pure _
        · exact .pure _

/-- An operand takes a word or mark first, or calls on a primary expression. -/
theorem agree_operand (agreed : Agreed text room self other)
    (primary : Agree text room (self (.primary ends)) (other (.primary ends))) :
    Agree text room (operand self ends) (operand other ends) := by
  refine .ahead fun gap near => ?_
  -- A word or mark is taken before what it is applied to.
  have sign : ∀ (kind : Kind) (symbol : String), symbol.toList <+: gap.next.rest → symbol ≠ "" →
      Agree text room (do applied self ends kind (← takeToken gap symbol))
        (do applied other ends kind (← takeToken gap symbol)) := by
    intro kind symbol found filled
    exact .token near found filled fun operator less shrinks => agree_applied (agreed.after shrinks)
  split
  next name found =>
    split
    next => exact sign _ _ (prefix_of_name? found) (ne_empty_of_name? found)
    next =>
      split
      next same => exact agree_awaited agreed near (same ▸ found) primary
      next =>
        split
        next same => exact agree_yielded agreed near (same ▸ found)
        next => exact agree_assignment agreed primary
  next =>
    dsimp only
    split
    next signs => exact sign _ _ (prefix_of_markAt rfl) (by rintro empty; simp [empty] at signs)
    next =>
      split
      next steps => exact sign _ _ (prefix_of_markAt rfl) (by rintro empty; simp [empty] at steps)
      next => exact agree_assignment agreed primary

/-- A binary operator is taken before its right side. -/
theorem agree_operation {level : Nat} {left : Pieces} (agreed : Agreed text room self other) :
    Agree text room (operation self ends level left) (operation other ends level left) := by
  refine .sequel fun following near => ?_
  cases following with
  | ends => exact .pure _
  | continues gap =>
      dsimp only
      split
      next operator found =>
        split
        next =>
          obtain ⟨starts, filled⟩ := operatorAt?_eq_some found
          refine .token near starts filled fun symbol less shrinks => ?_
          exact (agree_valued (agreed _ less shrinks)).bind fun right => .pure _
        next => exact .pure _
      next => exact .pure _

/-- Binary operators call on an operand first. -/
theorem agree_binary {level : Nat} (agreed : Agreed text room self other)
    (operand : Agree text room (self (.operand ends)) (other (.operand ends))) :
    Agree text room (binary self ends level) (binary other ends level) := by
  refine operand.bind fun left => ?_
  split
  · exact .pure _
  · exact agree_extended left fun left => agree_operation agreed

/-- An element calls on what binary operators join first. -/
theorem agree_element (agreed : Agreed text room self other)
    (binary : Agree text room (self (.binary ends 0)) (other (.binary ends 0))) :
    Agree text room (element self ends) (element other ends) := by
  refine binary.bind fun left => ?_
  split
  · exact .pure _
  · refine .sequel fun following near => ?_
    cases following with
    | ends => exact .pure _
    | continues gap =>
        dsimp only
        split
        next found =>
          refine .token near (prefix_of_markAt found) (by decide) fun question less shrinks => ?_
          refine (agreed _ less shrinks).bind fun first => agree_mark.bind fun colon => ?_
          exact (agreed _ less shrinks).bind fun second => .pure _
        next => exact .pure _

/-- Expressions with commas call on the first one, and take a comma before each other. -/
theorem agree_sequence (agreed : Agreed text room self other)
    (expression : Agree text room (self (.expression ends)) (other (.expression ends))) :
    Agree text room (sequence self ends) (sequence other ends) := by
  refine expression.bind fun first => .bind (agree_repeated ?_) fun others => .pure _
  refine .sequel fun following near => ?_
  cases following with
  | ends => exact .pure _
  | continues gap =>
      dsimp only
      split
      next found =>
        refine .token near (prefix_of_markAt found) (by decide) fun comma less shrinks => ?_
        exact (agreed _ less shrinks).bind fun _ => .pure _
      next => exact .pure _

/-! ## Markup -/

/-- A mark of a tag moves over a character. -/
theorem takes_tagMark {symbol : String} (filled : symbol ≠ "") : Takes text (tagMark symbol) := by
  intro low
  refine .ahead fun gap stands => ?_
  split
  next found =>
    refine (meets_token stands (List.isPrefixOf_iff_prefix.mp found)).mono ?_
    exact fun _ _ _ token => token.low_lt filled
  next => exact .stop _ _

/-- An expression in markup takes its opening brace first. -/
theorem agree_markupExpression (agreed : Agreed text room self other) :
    Agree text room (markupExpression self) (markupExpression other) := by
  refine .take (takes_mark (by decide)) fun opening less shrinks => .ahead fun gap _ => ?_
  have inner := agreed.after shrinks
  split
  · exact .bind (.pure _) fun _ => agree_mark.bind fun closing => .pure _
  · exact (agree_item inner).bind fun _ => agree_mark.bind fun closing => .pure _
  · exact (inner.here _).bind fun _ => agree_mark.bind fun closing => .pure _

theorem agree_markupValue (agreed : Agreed text (room + 1) self other) :
    Agree text room (markupValue self) (markupValue other) := by
  refine .ahead fun gap near => ?_
  split
  · exact agree_takeAfter near
  · split
    · exact agree_markupExpression agreed.below
    · exact agreed.here _
    · exact .refuse _

theorem agree_markupAttributes (agreed : Agreed text (room + 1) self other) :
    Agree text room (markupAttributes self) (markupAttributes other) := by
  refine agree_repeated (.ahead fun gap near => ?_)
  split
  · exact (agree_markupExpression agreed.below).bind fun _ => .pure _
  · split
    · exact .pure _
    · refine (Agree.of_meets fun _ => meets_markupName).bind fun name => .ahead fun gap near => ?_
      split
      · refine (agree_takeToken near).bind fun equals => ?_
        exact (agree_markupValue agreed).bind fun value => .pure _
      · exact .pure _

theorem agree_markupChildren (agreed : Agreed text (room + 1) self other) :
    Agree text room (markupChildren self) (markupChildren other) := by
  refine agree_repeated (.get fun start near => ?_)
  split
  · exact .stop _ _
  · split
    · exact .pure _
    · exact (agreed.here _).bind fun _ => .pure _
  · exact (agree_markupExpression agreed.below).bind fun _ => .pure _
  · split
    · exact (agree_takeAfter near).bind fun _ => .pure _
    · exact .refuse _
  · split
    · exact .refuse _
    · exact (agree_takeAfter near).bind fun _ => .pure _

/-- An element takes its opening mark first. -/
theorem agree_markup (agreed : Agreed text room self other) :
    Agree text room (markup self) (markup other) := by
  have name : ∀ {room}, Agree text room tagName tagName := .of_meets fun _ => meets_tagName
  have tag : ∀ {room symbol}, Agree text room (tagMark symbol) (tagMark symbol) :=
    .of_meets fun _ => meets_tagMark
  refine .take (takes_tagMark (by decide)) fun opening less shrinks => name.bind fun named => ?_
  have inner := agreed.after shrinks
  refine .branch (fun _ => .pure _) (fun _ => agree_markupAttributes inner) fun attributes => ?_
  refine .ahead fun gap near => ?_
  split
  · exact (agree_takeToken near).bind fun slash => tag.bind fun closing => .pure _
  · refine tag.bind fun closing => (agree_markupChildren inner).bind fun children => ?_
    refine tag.bind fun opening => tag.bind fun slash => ?_
    exact name.bind fun closed => tag.bind fun closing => .pure _

end Codebox.Script
