import Codebox.Proofs.Parsing.Phrases

/-! # How deep goals nest

A rule calls on a goal after it has taken a token, or on one of a lower rank. So no more than
eight goals start at one place of a text, and a parser that lets them nest that deep for every
place gives what any deeper one gives.
-/

namespace Codebox.Script

variable {text : List Char} {room : Nat} {self other : Goal → Parser Pieces} {place : BlockPlace}
  {before : Pieces}

/-! ## Declarations and simple statements -/

/-- A statement that is an expression calls on expressions with commas first. -/
theorem agree_expressionStatement
    (sequence : Agree text room (self (.sequence true)) (other (.sequence true))) :
    Agree text room (expressionStatement self) (expressionStatement other) :=
  sequence.bind fun _ => agree_semicolon.bind fun _ => .pure _

/-- What is bound is a name, or calls on a primary expression. -/
theorem agree_binding
    (primary : Agree text room (self (.primary false)) (other (.primary false))) :
    Agree text room (binding self) (binding other) := by
  refine .ahead fun gap _ => ?_
  split
  · exact agree_freeName rfl
  · split
    · refine primary.bind fun pieces => ?_
      split
      · exact .pure _
      · exact .refuse _
    · exact .refuse _

/-- A declarator calls on a primary expression first, and takes a mark before its value. -/
theorem agree_declarator (agreed : Agreed text room self other)
    (primary : Agree text room (self (.primary false)) (other (.primary false))) :
    Agree text room (declarator self) (declarator other) := by
  refine (agree_binding primary).bind fun name => .sequel fun following near => ?_
  cases following with
  | ends => exact .pure _
  | continues gap =>
      dsimp only
      split
      next found =>
        refine .token near (prefix_of_markAt found) (by decide) fun equals less shrinks => ?_
        exact (agreed _ less shrinks).bind fun value => .pure _
      next => exact .pure _

/-- Each further declarator comes after a comma. -/
theorem agree_moreDeclarators {pieces : Pieces} (agreed : Agreed text room self other) :
    Agree text room (moreDeclarators self pieces) (moreDeclarators other pieces) := by
  refine .sequel fun following near => ?_
  cases following with
  | ends => exact .pure _
  | continues gap =>
      dsimp only
      split
      next found =>
        refine .token near (prefix_of_markAt found) (by decide) fun comma less shrinks => ?_
        have inner := agreed.after shrinks
        exact (agree_declarator inner.below (inner.here _)).bind fun _ => .pure _
      next => exact .pure _

theorem agree_variablesAfter {kind : Kind} {keyword : Pieces} (agreed : Agreed text room self other)
    (primary : Agree text room (self (.primary false)) (other (.primary false))) :
    Agree text room (variablesAfter self kind keyword) (variablesAfter other kind keyword) := by
  refine (agree_declarator agreed primary).bind fun first => ?_
  refine (agree_extended first fun _ => agree_moreDeclarators agreed).bind fun declarators => ?_
  exact agree_semicolon.bind fun closing => .pure _

theorem agree_variableStatement (agreed : Agreed text room self other)
    (primary : Agree text room (self (.primary false)) (other (.primary false))) :
    Agree text room (variableStatement self) (variableStatement other) := by
  refine .ahead fun gap near => (agree_takeToken near).bind fun keyword => ?_
  exact agree_variablesAfter agreed primary

/-- A declaration of resources takes its keyword first. -/
theorem agree_resources (agreed : Agreed text room self other) :
    Agree text room (resources self) (resources other) := by
  refine (Agree.of_meets fun _ => meets_word?).bind fun awaiting => ?_
  refine .take (takes_word (by decide)) fun keyword less shrinks => ?_
  have inner := agreed.after shrinks
  exact agree_variablesAfter inner.below (inner.here _)

/-- A declared function takes its keyword first. -/
theorem agree_declaredFunction (agreed : Agreed text room self other) :
    Agree text room (declaredFunction self place) (declaredFunction other place) := by
  refine (Agree.of_meets fun _ => meets_word?).bind fun before => agree_word.bind fun keyword => ?_
  refine (Agree.of_meets fun _ => meets_mark?).bind fun star => ?_
  refine (agree_freeName rfl).bind fun name => ?_
  refine (agree_formalParameters agreed).bind fun parameters => ?_
  exact (agree_block agreed).bind fun body => .pure _

/-- A declared class takes its keyword first. -/
theorem agree_classAfter (agreed : Agreed text room self other) :
    Agree text room (classAfter self place before) (classAfter other place before) := by
  refine (agree_classParts agreed).bind fun parts => ?_
  exact (Agree.of_meets fun _ => meets_closingComments).bind fun comments => .pure _

/-- Whether a function or a class is declared does not depend on how goals are parsed. -/
theorem agree_declared? {start : Cursor} (agreed : Agreed text room self other) :
    (declared? self place start = none ∧ declared? other place start = none) ∨
      ∃ first second, declared? self place start = some first ∧
        declared? other place start = some second ∧ Agree text room first second := by
  unfold declared?
  split
  · exact .inr ⟨_, _, rfl, rfl, agree_declaredFunction agreed⟩
  · split
    · exact .inr ⟨_, _, rfl, rfl, agree_classAfter agreed⟩
    · exact .inl ⟨rfl, rfl⟩

/-- A statement that returns takes its keyword first. -/
theorem agree_returnStatement (agreed : Agreed text room self other) :
    Agree text room (returnStatement self) (returnStatement other) := by
  refine .take (takes_word (by decide)) fun keyword less shrinks => ?_
  refine .sequel fun following near => ?_
  cases following with
  | ends comments edge => exact .set near (Nat.le_refl _) (.pure _)
  | continues gap =>
      dsimp only
      split
      · exact (agree_takeToken near).bind fun _ => .pure _
      · split
        · exact .refuse _
        · refine (agreed _ less shrinks).bind fun value => ?_
          exact agree_semicolon.bind fun closing => .pure _

/-- A statement that throws takes its keyword first. -/
theorem agree_throwStatement (agreed : Agreed text room self other) :
    Agree text room (throwStatement self) (throwStatement other) := by
  refine .take (takes_word (by decide)) fun keyword less shrinks => ?_
  refine (agreed _ less shrinks).bind fun value => ?_
  exact agree_semicolon.bind fun closing => .pure _

/-- A label and its colon are taken before the statement. -/
theorem agree_labeledStatement (agreed : Agreed text room self other) :
    Agree text room (labeledStatement self) (labeledStatement other) := by
  refine (agree_freeName rfl).bind fun label => ?_
  refine .take (takes_mark (by decide)) fun colon less shrinks => ?_
  exact (agreed _ less shrinks).bind fun body => .pure _

/-! ## Branches and loops -/

theorem agree_controlled (agreed : Agreed text (room + 1) self other) :
    Agree text room (controlled self) (controlled other) := by
  refine .ahead fun gap _ => ?_
  split
  · exact .stop _ _
  · exact agreed.here _

/-- A branch takes its keyword first. -/
theorem agree_ifStatement (agreed : Agreed text room self other) :
    Agree text room (ifStatement self) (ifStatement other) := by
  refine .take (takes_word (by decide)) fun keyword less shrinks => ?_
  have inner := agreed.after shrinks
  refine (agree_condition inner.below).bind fun test => ?_
  refine (agree_controlled inner).bind fun first => .ahead fun _ _ => ?_
  split
  · refine agree_word.bind fun keyword => (agree_controlled inner).bind fun body => ?_
    exact .pure _
  · exact .pure _

/-- A keyword is taken before the condition after it and the statement that it controls. -/
theorem agree_guarded {kind : Kind} {symbol : String} (filled : symbol ≠ "")
    (agreed : Agreed text room self other) :
    Agree text room
      (do
        let keyword ← word symbol
        let test ← condition self
        let body ← controlled self
        return wrap kind (keyword ++ test ++ inRole .body body))
      (do
        let keyword ← word symbol
        let test ← condition other
        let body ← controlled other
        return wrap kind (keyword ++ test ++ inRole .body body)) := by
  refine .take (takes_word filled) fun keyword less shrinks => ?_
  have inner := agreed.after shrinks
  refine (agree_condition inner.below).bind fun test => ?_
  exact (agree_controlled inner).bind fun body => .pure _

/-- A loop with its test at the end takes its keyword first. -/
theorem agree_doStatement (agreed : Agreed text room self other) :
    Agree text room (doStatement self) (doStatement other) := by
  refine .take (takes_word (by decide)) fun keyword less shrinks => ?_
  have inner := agreed.after shrinks
  refine (agree_controlled inner).bind fun body => agree_word.bind fun again => ?_
  refine (agree_condition inner.below).bind fun test => .sequel fun following near => ?_
  cases following with
  | ends comments edge => exact .set near (Nat.le_refl _) (.pure _)
  | continues gap =>
      dsimp only
      split
      · exact (agree_takeToken near).bind fun closing => .pure _
      · split
        · exact .bind (.refuse _) fun closing => .pure _
        · exact .pure _

theorem agree_rangeInitial (agreed : Agreed text (room + 1) self other) :
    Agree text room (rangeInitial self) (rangeInitial other) := by
  refine (Agree.of_meets fun _ => meets_mark?).bind fun equals => ?_
  split
  · exact .pure _
  · exact (agree_valued (agreed.here _)).bind fun _ => .pure _

theorem agree_rangeHead (agreed : Agreed text (room + 1) self other) :
    Agree text room (rangeHead self) (rangeHead other) := by
  refine .ahead fun gap near => ?_
  have rest : ∀ left, Agree text room
      (do
        let operator ← rangeWord
        let range ← self (.sequence false)
        let closing ← mark ")"
        return left ++ inRole .operator operator ++ inRole .right range ++ closing)
      (do
        let operator ← rangeWord
        let range ← other (.sequence false)
        let closing ← mark ")"
        return left ++ inRole .operator operator ++ inRole .right range ++ closing) := by
    intro left
    refine (Agree.of_meets fun _ => meets_rangeWord).bind fun operator => ?_
    exact (agreed.here _).bind fun range => agree_mark.bind fun closing => .pure _
  split
  · refine (agree_takeToken near).bind fun keyword => ?_
    refine (agree_binding (agreed.here _)).bind fun left => ?_
    exact .branch (fun _ => agree_rangeInitial agreed) (fun _ => .pure _) fun initial => rest _
  · refine (agreed.here _).bind fun pieces => ?_
    split
    · exact rest _
    · exact .bind (.refuse _) rest

theorem agree_headPart (agreed : Agreed text (room + 1) self other) :
    Agree text room (headPart self) (headPart other) := by
  refine .ahead fun _ _ => ?_
  split
  · exact .of_meets fun _ => meets_emptyStatement
  · exact (agreed.here _).bind fun inner => agree_mark.bind fun closing => .pure _

theorem agree_countingHead (agreed : Agreed text (room + 1) self other) :
    Agree text room (countingHead self) (countingHead other) := by
  refine .ahead fun _ _ => .branch (fun _ => agree_variableStatement agreed.below (agreed.here _))
    (fun _ => agree_headPart agreed) fun start => ?_
  refine (agree_headPart agreed).bind fun test => .ahead fun _ _ => ?_
  refine .branch (fun _ => .pure _) (fun _ => agreed.here _) fun step => ?_
  exact agree_mark.bind fun closing => .pure _

/-- A loop with a head takes its keyword first. -/
theorem agree_forStatement (agreed : Agreed text room self other) :
    Agree text room (forStatement self) (forStatement other) := by
  refine .take (takes_word (by decide)) fun keyword less shrinks => ?_
  have inner := agreed.after shrinks
  refine (Agree.of_meets fun _ => meets_word?).bind fun awaiting => ?_
  refine agree_mark.bind fun opening => .bind (.orElse ?_ ?_) ?_
  · exact (agree_rangeHead inner).bind fun head => .pure _
  · exact (agree_countingHead inner).bind fun head => .pure _
  · rintro ⟨kind, head⟩
    exact (agree_controlled inner).bind fun body => .pure _

theorem agree_switchClause (agreed : Agreed text (room + 1) self other) :
    Agree text room (switchClause self) (switchClause other) := by
  refine .ahead fun gap near => ?_
  split
  · refine (agree_takeToken near).bind fun keyword => (agreed.here _).bind fun value => ?_
    exact agree_mark.bind fun colon => (agree_statements agreed).bind fun body => .pure _
  · refine (agree_takeToken near).bind fun keyword => agree_mark.bind fun colon => ?_
    exact (agree_statements agreed).bind fun body => .pure _
  · exact .pure _

/-- A choice among cases takes its keyword first. -/
theorem agree_switchStatement (agreed : Agreed text room self other) :
    Agree text room (switchStatement self) (switchStatement other) := by
  refine .take (takes_word (by decide)) fun keyword less shrinks => ?_
  have inner := agreed.after shrinks
  refine (agree_condition inner.below).bind fun value => agree_mark.bind fun opening => ?_
  refine (agree_repeated (agree_switchClause inner)).bind fun clauses => ?_
  exact agree_mark.bind fun closing => .pure _

theorem agree_catchClause (agreed : Agreed text (room + 1) self other) :
    Agree text room (catchClause self) (catchClause other) := by
  refine agree_word.bind fun keyword => .ahead fun _ _ => ?_
  split
  · refine agree_mark.bind fun opening => (agree_binding (agreed.here _)).bind fun name => ?_
    refine agree_mark.bind fun closing => ?_
    exact .bind (.pure _) fun parameter => (agree_block agreed.below).bind fun body => .pure _
  · exact .bind (.pure _) fun parameter => (agree_block agreed.below).bind fun body => .pure _

/-- A block with what catches takes its keyword first. -/
theorem agree_tryStatement (agreed : Agreed text room self other) :
    Agree text room (tryStatement self) (tryStatement other) := by
  refine .take (takes_word (by decide)) fun keyword less shrinks => ?_
  have inner := agreed.after shrinks
  refine (agree_block inner.below).bind fun body => .ahead fun _ _ => ?_
  refine .branch (fun _ => agree_catchClause inner) (fun _ => .pure _) fun handler => ?_
  refine .ahead fun _ _ => ?_
  split
  · refine agree_word.bind fun keyword => (agree_block inner.below).bind fun body => ?_
    exact .pure _
  · exact .pure _

/-! ## Imports and exports -/

/-- An import takes its keyword first. -/
theorem agree_importStatement (agreed : Agreed text room self other) :
    Agree text room (importStatement self) (importStatement other) := by
  refine .take (takes_word (by decide)) fun keyword less shrinks => .ahead fun _ _ => ?_
  have inner := agreed.after shrinks
  dsimp only
  split
  case' isTrue => refine (Agree.of_meets fun _ => meets_quoted).bind fun source => ?_
  case' isFalse =>
    refine (Agree.of_meets fun _ => meets_importClause).bind fun clause => ?_
    refine (Agree.of_meets fun _ => meets_origin).bind fun origin => ?_
    refine .bind (.pure _) fun source => ?_
  -- What is imported makes no difference to the attributes after it.
  all_goals
    refine .sequel fun following near => ?_
    cases following with
    | ends => exact .bind (.pure _) fun terms => agree_semicolon.bind fun closing => .pure _
    | continues gap =>
        dsimp only
        split
        · refine (agree_takeToken near).bind fun keyword => ?_
          refine (agree_valued (inner.here _)).bind fun value => .bind (.pure _) fun terms => ?_
          exact agree_semicolon.bind fun closing => .pure _
        · exact .bind (.pure _) fun terms => agree_semicolon.bind fun closing => .pure _

theorem agree_defaultExport (agreed : Agreed text (room + 1) self other) :
    Agree text room (defaultExport self before) (defaultExport other before) := by
  refine .ahead fun gap _ => ?_
  dsimp only
  rcases agree_declared? agreed.below with ⟨absent, absentOther⟩ | ⟨_, _, found, foundOther, same⟩
  · rw [absent, absentOther]
    refine (agreed.here _).bind fun value => ?_
    exact agree_semicolon.bind fun closing => .pure _
  · rw [found, foundOther]
    exact same.bind fun _ => .pure _

theorem agree_exportedDeclaration (agreed : Agreed text (room + 1) self other) :
    Agree text room (exportedDeclaration self) (exportedDeclaration other) := by
  refine .ahead fun gap _ => ?_
  dsimp only
  rcases agree_declared? agreed.below with ⟨absent, absentOther⟩ | ⟨_, _, found, foundOther, same⟩
  · rw [absent, absentOther]
    dsimp only
    split
    · exact agree_variableStatement agreed.below (agreed.here _)
    · split
      · exact agree_resources agreed.below
      · split
        · refine (agree_decorators agreed.below).bind fun marks => ?_
          exact agree_classAfter agreed.below
        · exact .refuse _
  · rw [found, foundOther]
    exact same

/-- An export takes its keyword first. -/
theorem agree_exportAfter (agreed : Agreed text room self other) :
    Agree text room (exportAfter self before) (exportAfter other before) := by
  refine .take (takes_word (by decide)) fun keyword less shrinks => .ahead fun gap near => ?_
  have inner := agreed.after shrinks
  have source : Agree text less origin origin := .of_meets fun _ => meets_origin
  dsimp only
  split
  · refine (Agree.of_meets fun _ => meets_wholeExport).bind fun names => source.bind fun _ => ?_
    exact agree_semicolon.bind fun closing => .pure _
  · split
    · refine (Agree.of_meets fun _ => meets_specifiers rfl rfl).bind fun names => ?_
      refine .sequel fun following _ => ?_
      cases following with
      | ends => exact .bind (.pure _) fun _ => agree_semicolon.bind fun closing => .pure _
      | continues gap =>
          exact .branch (fun _ => source) (fun _ => .pure _) fun _ =>
            agree_semicolon.bind fun closing => .pure _
    · split
      · refine (agree_takeToken near).bind fun keyword => ?_
        exact (agree_defaultExport inner).bind fun _ => .pure _
      · exact (agree_exportedDeclaration inner).bind fun _ => .pure _

/-- A statement after decorators takes a keyword first. -/
theorem agree_decorated (agreed : Agreed text room self other) :
    Agree text room (decorated self) (decorated other) := by
  refine (agree_decorators agreed).bind fun marks => .ahead fun _ _ => ?_
  split
  · exact agree_exportAfter agreed
  · exact agree_classAfter agreed

/-! ## Statements -/

/-- A statement that starts with a word takes the word first, or calls on a goal of a lower rank. -/
theorem agree_wordStatement {start : Cursor} {name : String} (agreed : Agreed text room self other)
    (sequence : Agree text room (self (.sequence true)) (other (.sequence true)))
    (primary : Agree text room (self (.primary false)) (other (.primary false))) :
    Agree text room (wordStatement self start name) (wordStatement other start name) := by
  unfold wordStatement
  split
  · exact agree_ifStatement agreed
  · exact agree_forStatement agreed
  · exact agree_guarded (by decide) agreed
  · exact agree_doStatement agreed
  · exact agree_switchStatement agreed
  · exact agree_tryStatement agreed
  · exact agree_guarded (by decide) agreed
  · exact agree_returnStatement agreed
  · exact agree_throwStatement agreed
  · exact .of_meets fun _ => meets_jumpStatement rfl
  · exact .of_meets fun _ => meets_jumpStatement rfl
  · exact .of_meets fun _ => meets_debuggerStatement
  · exact agree_exportAfter agreed
  · split
    · exact agree_importStatement agreed
    · exact agree_expressionStatement sequence
  · rcases agree_declared? agreed with ⟨absent, absentOther⟩ | ⟨_, _, found, foundOther, same⟩
    · rw [absent, absentOther]
      dsimp only
      split
      · exact agree_variableStatement agreed primary
      · split
        · exact agree_resources agreed
        · split
          · exact agree_labeledStatement agreed
          · exact agree_expressionStatement sequence
    · rw [found, foundOther]
      exact same

/-- A statement takes a token first, or calls on a goal of a lower rank. -/
theorem agree_statement (agreed : Agreed text room self other)
    (sequence : Agree text room (self (.sequence true)) (other (.sequence true)))
    (primary : Agree text room (self (.primary false)) (other (.primary false))) :
    Agree text room (statement self) (statement other) := by
  refine .ahead fun gap _ => ?_
  split
  · exact agree_wordStatement agreed sequence primary
  · split
    · unfold braced
      split
      · exact .orElse (agree_expressionStatement sequence) (agree_block agreed)
      · exact agree_block agreed
    · exact .of_meets fun _ => meets_emptyStatement
    · exact agree_decorated agreed
    · exact .refuse _
    · exact .refuse _
    · exact .refuse _
    · exact agree_expressionStatement sequence

/-! ## Depth -/

/-- How many goals can start at one place below a goal. -/
def Goal.rank : Goal → Nat
  | .markup => 0
  | .primary _ => 1
  | .callee _ | .operand _ => 2
  | .binary .. => 3
  | .element _ | .expression _ => 4
  | .sequence _ => 5
  | .statement => 6

/-- There are fewer than eight ranks. -/
theorem Goal.rank_lt (goal : Goal) : goal.rank < 8 := by
  cases goal <;> simp [rank]

/-- A rule agrees if the goals do that start later, or at the same place with a lower rank. -/
theorem agree_rule (agreed : Agreed text room self other) (goal : Goal)
    (lower : ∀ inner : Goal, inner.rank < goal.rank → Agree text room (self inner) (other inner)) :
    Agree text room (rule self goal) (rule other goal) := by
  cases goal with
  | statement =>
      exact agree_statement agreed (lower _ (by simp [Goal.rank])) (lower _ (by simp [Goal.rank]))
  | sequence ends => exact agree_sequence agreed (lower _ (by simp [Goal.rank]))
  | expression ends => exact agree_valued (agree_element agreed (lower _ (by simp [Goal.rank])))
  | element ends => exact agree_element agreed (lower _ (by simp [Goal.rank]))
  | binary ends level => exact agree_binary agreed (lower _ (by simp [Goal.rank]))
  | operand ends => exact agree_operand agreed (lower _ (by simp [Goal.rank]))
  | primary ends => exact agree_primary agreed (lower _ (by simp [Goal.rank]))
  | callee ends => exact agree_accessed agreed (lower _ (by simp [Goal.rank]))
  | markup => exact agree_markup agreed

/-- By induction on the depth: where two depths are enough for the characters ahead and the rank of
a goal, they are enough for the goals that its rule calls on. -/
theorem agree_parseGoal {depth deeper : Nat} (goal : Goal) (enough : 8 * room + goal.rank < depth)
    (more : 8 * room + goal.rank < deeper) :
    Agree text room (parseGoal depth goal) (parseGoal deeper goal) := by
  induction depth generalizing deeper room goal with
  | zero => omega
  | succ depth ih =>
      obtain ⟨deeper, rfl⟩ : ∃ less, deeper = less + 1 := ⟨deeper - 1, by omega⟩
      refine agree_rule (fun inner less shrinks => ?_) goal fun inner lower => ?_
      · have rank := inner.rank_lt
        exact ih inner (by omega) (by omega)
      · exact ih inner (by omega) (by omega)

/-- **No script is refused for want of depth.** From the start of a text, a parser that lets goals
nest at least as deep as the bound gives what the program gives: the same tree, or the same
fault. -/
theorem script_parseGoal (text : List Char) {depth : Nat}
    (enough : depthBound text.length ≤ depth) :
    (script (parseGoal depth)).run (.start text) = program.run (.start text) := by
  unfold depthBound at enough
  have agreed : Agreed text (text.length + 1) (parseGoal depth)
      (parseGoal (depthBound text.length)) := by
    intro goal less shrinks
    have rank := goal.rank_lt
    exact agree_parseGoal goal (by omega) (by unfold depthBound; omega)
  have same : Agree text text.length (script (parseGoal depth))
      (script (parseGoal (depthBound text.length))) := by
    refine (Agree.of_meets fun _ => meets_hashBangLine).bind fun first => ?_
    refine (agree_statements agreed).bind fun inner => .ahead fun gap near => ?_
    exact .set near (Nat.le_refl _) (.pure _)
  exact same.same (.start text) ⟨Cursor.at_start text, Nat.le_refl _⟩

end Codebox.Script
