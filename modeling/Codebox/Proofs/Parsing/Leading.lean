import Codebox.Proofs.Parsing.Expression
import Codebox.Proofs.Parsing.Opening

/-! # What stands before the first token

Every rule of the grammar takes a token first or calls on another goal first. So, by induction on
how deep goals nest, the pieces of every goal start with the comments before its first token, and
the children of a script start with the comments at its start.
-/

namespace Codebox.Script

variable {gap : Gap} {symbol : String}

/-! ## Primary expressions -/

variable {self : Goal → Parser Pieces} {ends : Bool} {before : Pieces}

/-- Whatever goal a parser is asked for, it leads. -/
def Leading (self : Goal → Parser Pieces) : Prop :=
  ∀ goal gap, Leads gap (self goal)

/-- Pieces that have to be an expression start as they did. -/
theorem leads_valued {parser : Parser Pieces} (head : Leads gap parser) :
    Leads gap (valued parser) := by
  refine .ahead (head.bind fun pieces opens => ?_)
  split
  · exact .refuse _
  · exact .pure opens

/-- A template starts with its backquote. -/
theorem leads_template : Leads gap (template self) := by
  refine (leads_mark (by decide)).bind fun opening opens => ?_
  refine .skip fun parts => .skip fun closing => ?_
  exact .pure (((opens.append _).append _).wrap rfl)

/-- A function in an expression starts with what comes before its keyword, or with that. -/
theorem onward_functionExpression : Onward gap before (functionExpression self before) := by
  refine leads_word.onward fun keyword opens => .skip fun star => .skip fun following => ?_
  refine .branch fun name => .skip fun parameters => .skip fun body => ?_
  refine .pure (((((opens.append _).append _).append _).append _).wrap ?_)
  split
  · rfl
  · rfl

/-- A function with an arrow starts with its parameters. -/
theorem yields_arrowAfter (opens : gap.Opens before) :
    Yields (arrowAfter self ends before) gap.Opens := by
  refine .skip fun arrow => .skip fun following => .branch fun body => ?_
  exact .pure (((opens.append _).append _).wrap rfl)

/-- A list in parentheses, opened by the gap. -/
theorem leads_parenthesized {next : Parenthesized → Parser Pieces}
    (later : ∀ list : Parenthesized, gap.Opens list.opening → Yields (next list) gap.Opens) :
    Leads gap (parenthesized self >>= next) := by
  unfold parenthesized
  simp only [bind_assoc, pure_bind]
  refine (leads_mark (by decide)).bind fun opening opens => ?_
  exact .skip fun items => .skip fun closing => later ⟨opening, items, closing⟩ opens

/-- A list that is read as parameters starts with its opening mark. -/
theorem opens_parameters {list : Parenthesized} {parameters : Pieces}
    (opens : gap.Opens list.opening) (found : list.parameters? = some parameters) :
    gap.Opens parameters := by
  unfold Parenthesized.parameters? at found
  split at found
  · obtain ⟨items, -, rfl⟩ := Option.map_eq_some_iff.mp found
    exact ((opens.append _).append _).wrap rfl
  · cases found

/-- A list in parentheses, or an arrow after it, starts with the opening mark. -/
theorem leads_parenthesizedOrArrow : Leads gap (parenthesizedOrArrow self ends) := by
  refine .ahead (leads_parenthesized fun list opens => .skip fun follows => ?_)
  split
  · split
    next found => exact yields_arrowAfter ((opens_parameters opens found).role _)
    next => exact .refuse _
  · split
    · exact .pure (((opens.append _).append _).wrap rfl)
    · exact .refuse _

/-- Whatever the word `async` turns out to be, the pieces start with it. -/
theorem leads_asyncPrimary (visible : Visible gap.next.rest) :
    Leads gap (asyncPrimary self ends) := by
  refine .ahead ((leads_takeAfter visible rfl).bind fun asName named => .skip fun cursor => ?_)
  have keyed : gap.Opens (gap.comments ++ [gap.next.leaf cursor (.token "async") false]) :=
    ⟨named.trivia, visible, _, [], rfl, rfl, rfl⟩
  refine .skip fun following => ?_
  cases following with
  | ends => exact .pure named
  | continues following =>
      dsimp only
      split
      · split
        · exact onward_functionExpression.begun keyed
        · split
          · exact .skip fun parameter => yields_arrowAfter (keyed.append _)
          · exact .pure named
      · split
        · exact yields_arrowAfter named
        · refine .skip fun list => .skip fun follows => ?_
          split
          · split
            · exact yields_arrowAfter (keyed.append _)
            · exact .refuse _
          · split
            · exact .refuse _
            · exact .pure ((named.append _).wrap rfl)
        · exact .pure named

/-- What the word `import` starts in an expression starts with it. -/
theorem leads_importPrimary (visible : Visible gap.next.rest) : Leads gap importPrimary := by
  refine .ahead ((leads_takeAfter visible rfl).bind fun keyword opens => .skip fun following => ?_)
  split
  · exact .pure opens
  · exact .skip fun dot => .skip fun property => .pure (((opens.append _).append _).wrap rfl)
  · exact .refuse _

/-- An expression with `new` starts with that word. -/
theorem leads_newExpression : Leads gap (newExpression self ends) := by
  refine leads_word.bind fun keyword opens => .skip fun following => ?_
  split
  · exact .skip fun dot => .skip fun property => .pure (((opens.append _).append _).wrap rfl)
  · refine .skip fun callee => ?_
    have rest : ∀ arguments, Yields (pure (wrap .newExpression (keyword ++ callee ++ arguments)))
        gap.Opens := fun arguments => .pure (((opens.append _).append _).wrap rfl)
    refine .skip fun following => ?_
    cases following with
    | ends => exact rest []
    | continues following =>
        dsimp only
        split
        · exact .skip rest
        · exact rest []

/-- A class starts with its keyword. -/
theorem leads_classParts : Leads gap (classParts self) := by
  refine leads_word.bind fun keyword opens => .skip fun following => .branch fun name => ?_
  have rest : ∀ heritage, Yields (do
      let body ← classBody self
      return keyword ++ inRole .name name ++ heritage ++ inRole .body body) gap.Opens :=
    fun heritage => .skip fun body => .pure (((opens.append _).append _).append _)
  refine .skip fun following => ?_
  dsimp only
  split
  · exact .skip fun keyword => .skip fun parent => rest _
  · exact rest []

/-- An array, or the pattern that it turns out to be, starts with its bracket. -/
theorem leads_array : Leads gap (array self) := by
  refine (leads_mark (by decide)).bind fun opening opens => ?_
  refine .skip fun items => .skip fun closing => ?_
  split
  · split
    · exact .pure (((opens.append _).append _).wrap rfl)
    · exact .skip fun _ => .refuse _
  · exact .pure (((opens.append _).append _).wrap rfl)

/-- An object, or the pattern that it turns out to be, starts with its brace. -/
theorem leads_object : Leads gap (object self) := by
  refine (leads_mark (by decide)).bind fun opening opens => ?_
  refine .skip fun members => .skip fun closing => ?_
  split
  · split
    · exact .pure (((opens.append _).append _).wrap rfl)
    · exact .skip fun _ => .refuse _
  · exact .pure (((opens.append _).append _).wrap rfl)

/-- Decorators start with the sign of the first, if there are any. -/
theorem mayLead_decorators : MayLead gap True (decorators self) := by
  refine mayLead_repeated (.ahead ?_)
  split
  next found =>
    have visible : Visible gap.next.rest := visible_of_markAt (by rw [found]; decide)
    refine .bind (leads_takeToken visible) fun sign opens => .skip fun following => ?_
    split
    · exact .skip fun inner => .pure ⟨_, rfl, (opens.append _).wrap rfl⟩
    · refine .skip fun name => .skip fun path => .skip fun following => .branch fun call => ?_
      exact .pure ⟨_, rfl, (((opens.append _).append _).append _).wrap rfl⟩
  next => exact .none trivial

/-- A primary expression that starts with a word starts with it in every case. -/
theorem leads_wordPrimary {name : String} (visible : Visible gap.next.rest) :
    Leads gap (wordPrimary self ends gap name) := by
  unfold wordPrimary
  split
  · exact onward_functionExpression.fresh rfl
  · exact leads_classParts.bind fun parts opens => .pure (opens.wrap rfl)
  · exact leads_newExpression
  · exact leads_importPrimary visible
  · exact leads_asyncPrimary visible
  · split
    next found =>
      exact leads_takeAfter visible (Kind.isTrivia_of_isPlain (isPlain_of_wordKind? found))
    next =>
      split
      · refine (leads_takeAfter visible rfl).bind fun pieces opens => .skip fun follows => ?_
        split
        · exact yields_arrowAfter opens
        · exact .pure opens
      · exact .of_yields (.refuse _)

/-- A primary expression that starts with a mark starts with it in every case. -/
theorem leads_markPrimary (leading : Leading self) : Leads gap (markPrimary self ends gap) := by
  unfold markPrimary
  split
  · exact leads_parenthesizedOrArrow
  · exact leads_array
  · exact leads_object
  · exact leads_template
  · exact leading .markup gap
  · exact mayLead_decorators.onward fun marks =>
      leads_classParts.onward fun parts opens => .pure (opens.wrap rfl)
  next rest starts =>
    have visible : Visible gap.next.rest := ⟨'#', rest, starts, by decide⟩
    split
    · exact .of_yields (.refuse _)
    · exact leads_takeAfter visible rfl
  next rest starts =>
    have visible : Visible gap.next.rest := ⟨'/', rest, starts, by decide⟩
    split
    · exact leads_takeAfter visible rfl
    · exact .of_yields (.refuse _)
  · exact .of_yields (.refuse _)

/-- A primary expression starts with its first token. -/
theorem leads_primary (leading : Leading self) : Leads gap (primary self ends) := by
  refine .ahead ?_
  dsimp only
  split
  next found => exact leads_wordPrimary (visible_of_name? found)
  next =>
    split
    next found => exact leads_takeAfter (visible_of_stringLength? found) rfl
    next length _ long =>
      exact leads_takeAfter (visible_of_numberLength (by rw [long]; exact Nat.succ_ne_zero _)) rfl
    next => exact leads_markPrimary leading

/-! ## Expressions -/

/-- An access keeps the start of the expression that it extends. -/
theorem grows_access {calls : Bool} : Grows gap (access self ends calls) := by
  intro left opens
  refine .skip fun following => ?_
  cases following with
  | ends => exact .pure .none
  | continues following =>
      dsimp only
      split
      · refine .skip fun dot => .skip fun name => ?_
        exact .pure (.some (((opens.append _).append _).wrap rfl))
      · refine .skip fun chain => .skip fun following => ?_
        split
        · exact .skip fun _ => .pure (.some (((opens.append _).append _).wrap rfl))
        · exact .skip fun _ => .pure (.some (((opens.append _).append _).wrap rfl))
        · exact .skip fun _ => .pure (.some (((opens.append _).append _).wrap rfl))
      · exact .skip fun _ => .pure (.some ((opens.append _).wrap rfl))
      · exact .skip fun _ => .pure (.some ((opens.append _).wrap rfl))
      · split
        · exact .skip fun _ => .pure (.some ((opens.append _).wrap rfl))
        · exact .pure .none
      · split
        · exact .skip fun _ => .pure (.some ((opens.append _).wrap rfl))
        · exact .pure .none
      · split
        · exact .skip fun _ => .pure (.some ((opens.append _).wrap rfl))
        · exact .pure .none
      · exact .pure .none

/-- An expression with accesses after it starts as the expression does. -/
theorem leads_accessed {calls : Bool} (leading : Leading self) :
    Leads gap (accessed self ends calls) := by
  refine (leading _ gap).bind fun pieces opens => ?_
  split
  · exact .pure opens
  · exact yields_extended grows_access opens

/-- An assignment starts as its left side does. -/
theorem leads_assignment (leading : Leading self) : Leads gap (assignment self ends) := by
  refine (leads_accessed leading).bind fun left opens => .skip fun following => ?_
  cases following with
  | ends => exact .pure opens
  | continues following =>
      dsimp only
      split
      · split
        next found =>
          refine .skip fun equals => .skip fun right => ?_
          exact .pure (((((opens.target? found).role _).append _).append _).wrap rfl)
        next => exact .pure opens
      · split
        · refine .skip fun operator => .skip fun right => ?_
          exact .pure ((((opens.role _).append _).append _).wrap rfl)
        · exact .pure opens

/-- An applied operator starts with the operator. -/
theorem yields_applied {kind : Kind} {operator : Pieces} (solid : kind.isTrivia = false)
    (opens : gap.Opens operator) : Yields (applied self ends kind operator) gap.Opens :=
  .skip fun _ => .pure (((opens.role _).append _).wrap solid)

/-- What the word `await` starts begins with it, as an operator or as a name. -/
theorem leads_awaited (leading : Leading self) (visible : Visible gap.next.rest) :
    Leads gap (awaited self ends gap) := by
  unfold awaited
  split
  · exact leads_assignment leading
  · split
    · exact (leads_takeToken visible).bind fun keyword opens => yields_applied rfl opens
    · exact leads_assignment leading

/-- An expression with `yield` starts with that word. -/
theorem leads_yielded (visible : Visible gap.next.rest) : Leads gap (yielded self ends gap) := by
  refine (leads_takeToken visible).bind fun keyword opens => .skip fun following => ?_
  cases following with
  | ends => exact .pure (opens.wrap rfl)
  | continues following =>
      dsimp only
      split
      · exact .skip fun star => .skip fun value => .pure (((opens.append _).append _).wrap rfl)
      · split
        · exact .skip fun value => .pure ((opens.append _).wrap rfl)
        · exact .pure (opens.wrap rfl)

/-- An operand starts with its operator, if it has one in front. -/
theorem leads_operand (leading : Leading self) : Leads gap (operand self ends) := by
  refine .ahead ?_
  split
  next found =>
    have visible := visible_of_name? found
    split
    · exact (leads_takeToken visible).bind fun operator opens => yields_applied rfl opens
    · split
      · exact leads_awaited leading visible
      · split
        · exact leads_yielded visible
        · exact leads_assignment leading
  next =>
    dsimp only
    split
    next found =>
      have visible : Visible gap.next.rest := visible_of_markAt fun none => by simp [none] at found
      exact (leads_takeToken visible).bind fun operator opens => yields_applied rfl opens
    next =>
      split
      next found =>
        have visible : Visible gap.next.rest :=
          visible_of_markAt fun none => by simp [none] at found
        exact (leads_takeToken visible).bind fun operator opens => yields_applied rfl opens
      next => exact leads_assignment leading

/-- An operator keeps the start of the expression that it extends. -/
theorem grows_operation {level : Nat} : Grows gap (operation self ends level) := by
  intro left opens
  refine .skip fun following => ?_
  cases following with
  | ends => exact .pure .none
  | continues following =>
      dsimp only
      split
      · split
        · refine .skip fun symbol => .skip fun right => ?_
          exact .pure (.some ((((opens.role _).append _).append _).wrap rfl))
        · exact .pure .none
      · exact .pure .none

/-- An expression with operators starts as its first operand does. -/
theorem leads_binary {level : Nat} (leading : Leading self) :
    Leads gap (binary self ends level) := by
  refine (leading _ gap).bind fun left opens => ?_
  split
  · exact .pure opens
  · exact yields_extended grows_operation opens

/-- An expression that a condition may choose starts as the condition does. -/
theorem leads_element (leading : Leading self) : Leads gap (element self ends) := by
  refine (leading _ gap).bind fun left opens => ?_
  split
  · exact .pure opens
  · refine .skip fun following => ?_
    cases following with
    | ends => exact .pure opens
    | continues following =>
        dsimp only
        split
        · refine .skip fun question => .skip fun first => .skip fun colon => .skip fun second => ?_
          exact .pure (((((opens.append _).append _).append _).append _).wrap rfl)
        · exact .pure opens

/-- Expressions with commas between them start as the first does. -/
theorem leads_sequence (leading : Leading self) : Leads gap (sequence self ends) := by
  refine (leading _ gap).bind fun first opens => .skip fun others => .pure ?_
  split
  · exact opens
  · exact (opens.append _).wrap rfl

/-- An element of markup starts with its opening mark. -/
theorem leads_markup : Leads gap (markup self) := by
  have head : Leads gap (tagMark "<") := by
    refine .ahead ?_
    split
    next found =>
      refine leads_takeToken (visible_of_start ?_ (List.isPrefixOf_iff_prefix.mp found))
      exact ⟨'<', [], by decide, by decide⟩
    next => exact .of_yields (.stop _ _)
  refine head.bind fun opening opens => .skip fun name => .branch fun attributes => ?_
  refine .skip fun following => ?_
  split
  · refine .skip fun slash => .skip fun closing => ?_
    exact .pure (((((opens.append _).append _).append _).append _).wrap rfl)
  · refine .skip fun closing => .skip fun children => .skip fun again => .skip fun slash => ?_
    refine .skip fun again => .skip fun closing => .pure (Gap.Opens.wrap ?_ rfl)
    exact (((((opens.append _).append _).append _).wrap rfl).append _).append _

/-! ## Statements -/

/-- An expression statement starts as the expression does. -/
theorem leads_expressionStatement (leading : Leading self) :
    Leads gap (expressionStatement self) := by
  refine (leading _ gap).bind fun inner opens => .skip fun closing => ?_
  exact .pure ((opens.append _).wrap rfl)

/-- An empty statement is its semicolon. -/
theorem leads_emptyStatement : Leads gap emptyStatement :=
  (leads_mark (by decide)).bind fun _ opens => .pure (opens.wrap rfl)

/-- A block starts with its opening brace. -/
theorem leads_block {place : BlockPlace} : Leads gap (block self place) := by
  refine (leads_mark (by decide)).bind fun opening opens => ?_
  refine .skip fun inner => .skip fun closing => .skip fun comments => ?_
  exact .pure ((((opens.append _).append _).append _).wrap rfl)

/-- A declaration starts with its keyword. -/
theorem yields_variablesAfter {kind : Kind} {keyword : Pieces} (solid : kind.isTrivia = false)
    (opens : gap.Opens keyword) : Yields (variablesAfter self kind keyword) gap.Opens := by
  refine .skip fun first => .skip fun declarators => .skip fun closing => ?_
  exact .pure (((opens.append _).append _).wrap solid)

/-- A declaration of variables starts with its keyword. -/
theorem leads_variableStatement (starts : startsVariables gap.next) :
    Leads gap (variableStatement self) := by
  have visible : Visible gap.next.rest := by
    unfold startsVariables at starts
    split at starts
    next found => exact visible_of_name? found
    next found => exact visible_of_name? found
    next found => exact visible_of_name? found
    next => cases starts
  refine .ahead ((leads_takeToken visible).bind fun keyword opens => ?_)
  refine yields_variablesAfter ?_ (opens.role _)
  split
  · rfl
  · rfl

/-- A declaration of resources starts with `await`, if that is there, or with `using`. -/
theorem leads_resources : Leads gap (resources self) := by
  refine mayLead_word?.onward fun awaiting => leads_word.onward fun keyword opens => ?_
  exact yields_variablesAfter rfl (opens.inRole _)

/-- A declared function starts with `async`, if that is there, or with its keyword. -/
theorem leads_declaredFunction {place : BlockPlace} : Leads gap (declaredFunction self place) := by
  refine mayLead_word?.onward fun before => leads_word.onward fun keyword opens => ?_
  refine .skip fun star => .skip fun name => .skip fun parameters => .skip fun body => ?_
  refine .pure (((((opens.append _).append _).append _).append _).wrap ?_)
  split
  · rfl
  · rfl

/-- A declared class starts with its decorators, or with its keyword. -/
theorem onward_classAfter {place : BlockPlace} :
    Onward gap before (classAfter self place before) := by
  refine leads_classParts.onward fun parts opens => .skip fun comments => ?_
  exact .pure ((opens.append _).wrap rfl)

/-- Whatever declaration is found to start here, its first token starts the pieces. -/
theorem leads_declared? {place : BlockPlace} {start : Cursor} {declaration : Parser Pieces}
    (found : declared? self place start = some declaration) : Leads gap declaration := by
  unfold declared? at found
  split at found
  · cases found
    exact leads_declaredFunction
  · split at found
    · cases found
      exact onward_classAfter.fresh rfl
    · cases found

/-- A statement with a label starts with the label. -/
theorem leads_labeledStatement : Leads gap (labeledStatement self) := by
  refine (leads_freeName rfl).bind fun label opens => .skip fun colon => .skip fun body => ?_
  exact .pure (((opens.append _).append _).wrap rfl)

/-- A branching statement starts with its keyword. -/
theorem leads_ifStatement : Leads gap (ifStatement self) := by
  refine leads_word.bind fun keyword opens => .skip fun test => .skip fun first => ?_
  refine .skip fun following => ?_
  dsimp only
  split
  · refine .skip fun again => .skip fun body => ?_
    exact .pure ((((opens.append _).append _).append _).wrap rfl)
  · exact .pure ((((opens.append _).append _).append _).wrap rfl)

/-- A loop with a condition starts with its keyword. -/
theorem leads_whileStatement : Leads gap (whileStatement self) := by
  refine leads_word.bind fun keyword opens => .skip fun test => .skip fun body => ?_
  exact .pure (((opens.append _).append _).wrap rfl)

/-- A statement that opens an object starts with its keyword. -/
theorem leads_withStatement : Leads gap (withStatement self) := by
  refine leads_word.bind fun keyword opens => .skip fun test => .skip fun body => ?_
  exact .pure (((opens.append _).append _).wrap rfl)

/-- A loop with its condition at the end starts with its keyword. -/
theorem leads_doStatement : Leads gap (doStatement self) := by
  refine leads_word.bind fun keyword opens => .skip fun body => .skip fun again => ?_
  refine .skip fun test => .skip fun following => ?_
  have rest : ∀ closing, Yields (pure (wrap .doStatement
      (keyword ++ inRole .body body ++ again ++ test ++ closing))) gap.Opens := fun closing =>
    .pure (((((opens.append _).append _).append _).append _).wrap rfl)
  cases following with
  | ends => exact .skip fun _ => rest _
  | continues following =>
      dsimp only
      split
      · exact .skip rest
      · split
        · exact .skip rest
        · exact rest []

/-- A loop with a head starts with its keyword, whichever head it has. -/
theorem leads_forStatement : Leads gap (forStatement self) := by
  refine leads_word.bind fun keyword opens => .skip fun awaiting => .skip fun opening => ?_
  have heads : Yields (orElse (do return (Kind.forInStatement, ← rangeHead self))
      (do return (Kind.forStatement, ← countingHead self))) fun found =>
        found.1.isTrivia = false :=
    .orElse (.skip fun _ => .pure rfl) (.skip fun _ => .pure rfl)
  refine heads.bind ?_
  rintro ⟨kind, head⟩ solid
  exact .skip fun body => .pure (((((opens.append _).append _).append _).append _).wrap solid)

/-- A statement with cases starts with its keyword. -/
theorem leads_switchStatement : Leads gap (switchStatement self) := by
  refine leads_word.bind fun keyword opens => .skip fun value => .skip fun opening => ?_
  refine .skip fun clauses => .skip fun closing => ?_
  exact .pure (((opens.append _).append _).wrap rfl)

/-- A statement with a handler starts with its keyword. -/
theorem leads_tryStatement : Leads gap (tryStatement self) := by
  refine leads_word.bind fun keyword opens => .skip fun body => .skip fun following => ?_
  refine .branch fun handler => .skip fun following => ?_
  dsimp only
  split
  · refine .skip fun again => .skip fun finalizer => ?_
    exact .pure ((((opens.append _).append _).append _).wrap rfl)
  · exact .pure ((((opens.append _).append _).append _).wrap rfl)

/-- A return statement starts with its keyword, with or without a value. -/
theorem leads_returnStatement : Leads gap (returnStatement self) := by
  refine leads_word.bind fun keyword opens => .skip fun following => ?_
  cases following with
  | ends => exact .skip fun _ => .pure ((opens.append _).wrap rfl)
  | continues following =>
      dsimp only
      split
      · exact .skip fun _ => .pure ((opens.append _).wrap rfl)
      · split
        · exact .refuse _
        · exact .skip fun value => .skip fun closing => .pure (((opens.append _).append _).wrap rfl)

/-- A statement that throws starts with its keyword. -/
theorem leads_throwStatement : Leads gap (throwStatement self) := by
  refine leads_word.bind fun keyword opens => .skip fun value => .skip fun closing => ?_
  exact .pure (((opens.append _).append _).wrap rfl)

/-- A statement that leaves or restarts a loop starts with its keyword. -/
theorem leads_jumpStatement {kind : Kind} (solid : kind.isTrivia = false) :
    Leads gap (jumpStatement kind symbol) := by
  refine leads_word.bind fun keyword opens => .skip fun following => ?_
  have rest : ∀ label, Yields (do
      let closing ← semicolon false
      return wrap kind (keyword ++ label ++ closing)) gap.Opens := fun label =>
    .skip fun _ => .pure (((opens.append _).append _).wrap solid)
  cases following with
  | ends => exact rest []
  | continues following =>
      dsimp only
      split
      · exact .skip rest
      · exact rest []

/-- A statement that stops for a debugger starts with its keyword. -/
theorem leads_debuggerStatement : Leads gap debuggerStatement :=
  leads_word.bind fun _ opens => .skip fun _ => .pure ((opens.append _).wrap rfl)

/-- An import starts with its keyword, whatever is imported. -/
theorem leads_importStatement : Leads gap (importStatement self) := by
  refine leads_word.bind fun keyword opens => .skip fun following => ?_
  have closed : ∀ source terms, Yields (do
      let closing ← semicolon false
      return wrap .importStatement (keyword ++ source ++ terms ++ closing)) gap.Opens :=
    fun source terms => .skip fun _ => .pure ((((opens.append _).append _).append _).wrap rfl)
  dsimp only
  split
  case' isTrue => refine .skip fun source => ?_
  case' isFalse => refine .skip fun clause => .skip fun origin => .skip fun source => ?_
  -- What is imported makes no difference to the attributes after it.
  all_goals
    refine .skip fun following => ?_
    cases following with
    | ends => exact closed source []
    | continues following =>
        dsimp only
        split
        · exact .skip fun keyword => .skip fun value => closed source _
        · exact closed source []

/-- What is exported by default comes after the words before it. -/
theorem yields_defaultExport (opens : gap.Opens before) :
    Yields (defaultExport self before) gap.Opens := by
  refine .skip fun following => ?_
  dsimp only
  split
  · exact .skip fun declaration => .pure (opens.append _)
  · exact .skip fun value => .skip fun closing => .pure ((opens.append _).append _)

/-- An export starts with its decorators, or with its keyword. -/
theorem onward_exportAfter : Onward gap before (exportAfter self before) := by
  refine leads_word.onward fun keyword opens => .skip fun following => ?_
  dsimp only
  split
  · refine .skip fun names => .skip fun source => .skip fun closing => ?_
    exact .pure ((((opens.append _).append _).append _).wrap rfl)
  · split
    · refine .skip fun names => .skip fun following => ?_
      have rest : ∀ source, Yields (do
          let closing ← semicolon false
          return wrap .exportStatement (before ++ keyword ++ names ++ source ++ closing))
          gap.Opens :=
        fun source => .skip fun _ => .pure ((((opens.append _).append _).append _).wrap rfl)
      cases following with
      | ends => exact rest []
      | continues following =>
          dsimp only
          split
          · exact .skip rest
          · exact rest []
    · split
      · refine .skip fun word => ?_
        exact (yields_defaultExport (opens.append word)).bind fun inner opens =>
          .pure (opens.wrap rfl)
      · exact .skip fun declaration => .pure ((opens.append _).wrap rfl)

/-- A decorated declaration starts with its decorators, or is not decorated. -/
theorem leads_decorated : Leads gap (decorated self) := by
  refine mayLead_decorators.onward fun marks => ?_
  constructor
  · rintro rfl
    refine .ahead ?_
    split
    · exact onward_exportAfter.fresh rfl
    · exact onward_classAfter.fresh rfl
  · intro opens
    refine .skip fun following => ?_
    split
    · exact onward_exportAfter.begun opens
    · exact onward_classAfter.begun opens

/-- A statement that starts with a word starts with it, whatever the word means. -/
theorem leads_wordStatement {name : String} (leading : Leading self) :
    Leads gap (wordStatement self gap.next name) := by
  unfold wordStatement
  split
  · exact leads_ifStatement
  · exact leads_forStatement
  · exact leads_whileStatement
  · exact leads_doStatement
  · exact leads_switchStatement
  · exact leads_tryStatement
  · exact leads_withStatement
  · exact leads_returnStatement
  · exact leads_throwStatement
  · exact leads_jumpStatement rfl
  · exact leads_jumpStatement rfl
  · exact leads_debuggerStatement
  · exact onward_exportAfter.fresh rfl
  · split
    · exact leads_importStatement
    · exact leads_expressionStatement leading
  · split
    next found => exact leads_declared? found
    next =>
      split
      next starts => exact leads_variableStatement starts
      next =>
        split
        · exact leads_resources
        · split
          · exact leads_labeledStatement
          · exact leads_expressionStatement leading

/-- A statement starts with its first token. -/
theorem leads_statement (leading : Leading self) : Leads gap (statement self) := by
  refine .ahead ?_
  split
  · exact leads_wordStatement leading
  · split
    · unfold braced
      split
      · exact .orElse (leads_expressionStatement leading) leads_block
      · exact leads_block
    · exact leads_emptyStatement
    · exact leads_decorated
    · exact .of_yields (.refuse _)
    · exact .of_yields (.refuse _)
    · exact .of_yields (.refuse _)
    · exact leads_expressionStatement leading

/-! ## Scripts -/

/-- A rule leads if the goals that it calls on do. -/
theorem leads_rule (leading : Leading self) (goal : Goal) : Leads gap (rule self goal) := by
  cases goal with
  | statement => exact leads_statement leading
  | sequence ends => exact leads_sequence leading
  | expression ends => exact leads_valued (leads_element leading)
  | element ends => exact leads_element leading
  | binary ends level => exact leads_binary leading
  | operand ends => exact leads_operand leading
  | primary ends => exact leads_primary leading
  | callee ends => exact leads_accessed leading
  | markup => exact leads_markup

/-- By induction on the depth: a rule calls on goals one level less deep. -/
theorem leading_parseGoal (depth : Nat) : Leading (parseGoal depth) := by
  induction depth with
  | zero => exact fun goal gap => .of_yields (.skip fun _ => .refuse _)
  | succ depth ih => exact fun goal gap => leads_rule ih goal

/-- The line that names an interpreter starts a script, if it is there. -/
theorem mayLead_hashBangLine : MayLead gap True hashBangLine := by
  refine .ahead ?_
  split
  next starts => exact .of_leads (leads_takeAfter ⟨'#', _, starts, by decide⟩ rfl)
  next => exact .nothing trivial

/-- Statements start with the first, and there is none only at the end of the text. -/
theorem mayLead_statements (leading : Leading self) :
    MayLead gap (gap.next.rest = []) (statements self (·.isEmpty)) := by
  refine mayLead_repeated (.ahead ?_)
  split
  next empty => exact .none (List.isEmpty_iff.mp empty)
  next => exact .bind (leading .statement gap) fun pieces opens => .pure ⟨pieces, rfl, opens⟩

/-- The children of a script start with the comments at its start. After these the script ends,
or a visible character follows. -/
theorem program_leads {cursor last : Cursor} {children : Pieces}
    (ran : program cursor = .ok (children, last)) :
    (children = cursor.gap.comments ∧ cursor.gap.next.rest = []) ∨ cursor.gap.Opens children := by
  have leading := leading_parseGoal (depthBound cursor.size)
  obtain ⟨⟨first, second⟩, started, ran⟩ := Outcome.bind_eq_ok_iff.mp ran
  obtain ⟨⟨inner, third⟩, went, ran⟩ := Outcome.bind_eq_ok_iff.mp ran
  cases ran
  obtain ⟨rfl, rfl, -⟩ | opens := mayLead_hashBangLine cursor first second rfl started
  · obtain ⟨rfl, rfl, empty⟩ | opens := mayLead_statements leading _ inner third rfl went
    · exact .inl ⟨rfl, empty⟩
    · exact .inr (opens.append _)
  · exact .inr ((opens.append _).append _)

end Codebox.Script
