import Codebox.Script.Program
import Codebox.Proofs.Sequence
import Codebox.Proofs.Parsing.Statement

/-! # Parsed scripts are well-laid

The rule for every goal gives one construct, so the knot of the grammar does, and the
tree of a script is well-laid.
-/

namespace Codebox.Script

variable {text : List Char} {low middle high : Int} {self : Goal → Parser Pieces}
  {pieces before : Pieces} {gap : Gap} {place : BlockPlace}

/-! ## Imports and exports -/

/-- A quoted name is one construct. -/
theorem meets_quoted : Meets text low quoted (Term text true low) := by
  refine .ahead fun gap stands => ?_
  split
  · exact meets_takeAfter stands rfl
  · exact .refuse _

/-- A name as other scripts see it is one construct, be it quoted or not. -/
theorem meets_outsideName : Meets text low outsideName (Term text true low) := by
  refine .ahead fun gap stands => ?_
  split
  · exact meets_takeAfter stands rfl
  · exact meets_quoted

/-- An imported or exported name, under another name or not, is one construct. -/
theorem meets_specifier {kind : Kind} (plain : kind.isPlain) :
    Meets text low (specifier kind) (Term text true low) := by
  refine meets_outsideName.bind fun name middle _ first => .ahead fun _ _ => ?_
  have rest : ∀ renamed high, Laid text true middle high renamed →
      Meets text high (pure (wrap kind (name ++ renamed))) (Term text true low) :=
    fun renamed high second => .pure ((first.and second).wrap plain)
  dsimp only
  split
  · refine meets_word.bind fun keyword _ _ second => ?_
    refine meets_outsideName.bind fun other _ _ third => ?_
    exact rest _ _ (second.toLaid.append third.toLaid)
  · exact rest [] middle (.nil (Int.le_refl _))

/-- Names in braces are one construct. -/
theorem meets_specifiers {kind each : Kind} (plain : kind.isPlain) (plainEach : each.isPlain) :
    Meets text low (specifiers kind each) (Term text true low) := by
  refine .ahead fun gap _ => meets_mark.bind fun opening _ _ opens => ?_
  refine (meets_listed fun _ => meets_specifier plainEach).bind fun inner _ _ lead => ?_
  refine meets_mark.bind fun closing _ _ closes => ?_
  split
  · exact .pure (((opens.toTerm.and lead.laid).and closes.toLaid).wrap plain)
  · exact .refuse _

/-- Where names come from lies in a row. -/
theorem meets_origin : Meets text low origin (Laid text true low) := by
  refine meets_word.bind fun keyword _ _ first => ?_
  refine meets_quoted.bind fun source _ _ second => ?_
  exact .pure (first.toLaid.append second.toLaid)

/-- All names of a script under one name are one construct. -/
theorem meets_namespaceImport : Meets text low namespaceImport (Term text true low) := by
  refine meets_mark.bind fun star _ _ first => meets_word.bind fun keyword _ _ second => ?_
  refine (meets_freeName rfl).bind fun name _ _ third => ?_
  exact .pure (((first.toTerm.and second.toLaid).and third.toLaid).wrap rfl)

/-- Imported names are one construct. -/
theorem meets_importedNames : Meets text low importedNames (Term text true low) := by
  refine .ahead fun gap _ => ?_
  split
  · exact meets_namespaceImport
  · exact meets_specifiers rfl rfl

/-- What is imported is one construct. -/
theorem meets_importClause : Meets text low importClause (Term text true low) := by
  refine .ahead fun gap _ => ?_
  split
  · refine (meets_freeName rfl).bind fun name _ _ first => ?_
    refine meets_mark?.bind fun comma _ _ second => ?_
    refine .branch (fun _ => .pure (.nil (Int.le_refl _)))
      (fun _ => meets_importedNames.mono fun _ _ _ term => term.toLaid) fun others _ _ third => ?_
    exact .pure (((first.and second.laid).and third).wrap rfl)
  · exact meets_importedNames.bind fun names _ _ term => .pure (term.body.wrap rfl)

/-- An import is one calm construct. -/
theorem meets_importStatement (obeys : Obeys text self) :
    Meets text low (importStatement self) (Term text true low) := by
  refine meets_word.bind fun keyword middle _ first => .ahead fun _ _ => ?_
  have closed : ∀ source terms last high, Laid text true middle last source →
      Laid text true last high terms →
        Meets text high (do
          let closing ← semicolon false
          return wrap .importStatement (keyword ++ source ++ terms ++ closing))
          (Term text true low) := by
    intro source terms last high second third
    refine meets_semicolon.bind fun closing _ _ fourth => ?_
    exact .pure ((((first.toTerm.and second).and third).and fourth.1).wrap rfl)
  dsimp only
  split
  case' isTrue =>
    refine meets_quoted.bind fun source last _ quoted => ?_
    have second := quoted.toLaid
  case' isFalse =>
    refine meets_importClause.bind fun clause _ _ named => ?_
    refine meets_origin.bind fun origin _ _ whence => ?_
    have both : Meets text _ (pure (clause ++ origin)) (Laid text true middle) :=
      .pure (named.toLaid.append whence)
    refine both.bind fun source last _ second => ?_
  -- What is imported makes no difference to the attributes after it.
  all_goals
    refine .sequel fun following stands => ?_
    cases following with
    | ends => exact closed _ [] last last second (.nil (Int.le_refl _))
    | continues gap =>
        dsimp only
        split
        · refine (meets_takeToken stands).bind fun keyword _ _ third => ?_
          refine (meets_valued (obeys (.primary false) _)).bind fun value _ _ fourth => ?_
          exact closed _ _ last _ second ((third.and fourth.toLaid).wrap rfl).toLaid
        · exact closed _ [] last last second (.nil (Int.le_refl _))

/-- What is exported by default comes after the words before it. -/
theorem meets_defaultExport (obeys : Obeys text self) (first : Body text true low middle before) :
    Meets text middle (defaultExport self before) (Body text false low) := by
  refine .ahead fun gap _ => ?_
  dsimp only
  split
  next found =>
    refine (meets_declared? obeys found).bind fun declaration _ _ second => ?_
    exact .pure (first.loosen.and (second.toLaid.inRole .declaration))
  next =>
    refine (obeys (.expression true) _).bind fun value _ _ second => ?_
    refine meets_semicolon.bind fun closing _ _ third => ?_
    exact .pure ((first.and (second.toLaid.inRole .value)).and third.1).loosen

/-- All names of a script, exported, are one construct. -/
theorem meets_wholeExport : Meets text low wholeExport (Term text true low) := by
  refine meets_mark.bind fun star _ _ first => .ahead fun _ _ => ?_
  split
  · refine meets_word.bind fun keyword _ _ second => ?_
    refine meets_outsideName.bind fun name _ _ third => ?_
    exact .pure (((first.toTerm.and second.toLaid).and third.toLaid).wrap rfl)
  · exact .pure first.toTerm

/-- An exported declaration is one construct of its shape. -/
theorem meets_exportedDeclaration (obeys : Obeys text self) :
    Meets text low (exportedDeclaration self) (Term text false low) := by
  refine .look fun gap seen => ?_
  dsimp only
  split
  next found => exact meets_declared? obeys found
  next =>
    split
    next starts => exact meets_variableStatement obeys seen starts
    next =>
      split
      · exact meets_resources obeys
      · split
        · refine (meets_decorators obeys).bind fun marks _ _ lead => ?_
          exact (meets_classAfter obeys lead).mono fun _ _ _ term => term.loosen
        · exact .refuse _

/-- An export is one construct, with what comes before its keyword. -/
theorem meets_exportAfter (obeys : Obeys text self) (lead : Lead text true low middle before) :
    Meets text middle (exportAfter self before) (Term text false low) := by
  refine meets_word.bind fun keyword _ _ first => .ahead fun gap stands => ?_
  have front := lead.and first.body
  dsimp only
  split
  · refine meets_wholeExport.bind fun names _ _ second => ?_
    refine meets_origin.bind fun source _ _ third => ?_
    refine meets_semicolon.bind fun closing _ _ fourth => ?_
    exact .pure (((front.and second.toLaid).and third).and fourth.1 |>.wrap rfl).loosen
  · split
    · refine (meets_specifiers rfl rfl).bind fun names last _ second => ?_
      have rest : ∀ source high, Laid text true last high source →
          Meets text high (do
            let closing ← semicolon false
            return wrap .exportStatement (before ++ keyword ++ names ++ source ++ closing))
            (Term text false low) := by
        intro source high third
        refine meets_semicolon.bind fun closing _ _ fourth => ?_
        exact .pure (((front.and second.toLaid).and third).and fourth.1 |>.wrap rfl).loosen
      refine .sequel fun following _ => ?_
      cases following with
      | ends => exact rest [] last (.nil (Int.le_refl _))
      | continues gap =>
          dsimp only
          split
          · exact meets_origin.bind fun source _ _ third => rest source _ third
          · exact rest [] last (.nil (Int.le_refl _))
    · split
      · refine (meets_takeToken stands).bind fun word _ _ second => ?_
        refine (meets_defaultExport obeys (front.and second.toLaid)).bind fun inner _ _ body => ?_
        exact .pure (body.wrap rfl)
      · refine (meets_exportedDeclaration obeys).bind fun declaration _ _ second => ?_
        exact .pure ((front.loosen.and (second.toLaid.inRole .declaration)).wrap rfl)

/-- A decorated declaration is one construct. -/
theorem meets_decorated (obeys : Obeys text self) :
    Meets text low (decorated self) (Term text false low) := by
  refine (meets_decorators obeys).bind fun marks _ _ lead => .ahead fun _ _ => ?_
  split
  · exact meets_exportAfter obeys lead
  · exact (meets_classAfter obeys lead).mono fun _ _ _ term => term.loosen

/-! ## Statements -/

/-- A statement that starts with a word is one construct, whatever the word means. -/
theorem meets_wordStatement {name : String} (obeys : Obeys text self) (leading : Leading self)
    (seen : gap.Ahead text low) :
    Meets text low (wordStatement self gap.next name) (Term text false low) := by
  unfold wordStatement
  split
  · exact meets_ifStatement obeys
  · exact meets_forStatement obeys
  · exact meets_whileStatement obeys
  · exact meets_doStatement obeys
  · exact meets_switchStatement obeys
  · exact meets_tryStatement obeys
  · exact meets_withStatement obeys
  · exact meets_returnStatement obeys leading
  · exact (meets_throwStatement obeys).mono fun _ _ _ term => term.loosen
  · exact (meets_jumpStatement rfl).mono fun _ _ _ term => term.loosen
  · exact (meets_jumpStatement rfl).mono fun _ _ _ term => term.loosen
  · exact meets_debuggerStatement.mono fun _ _ _ term => term.loosen
  · exact meets_exportAfter obeys (.nil (Int.le_refl _))
  · split
    · exact (meets_importStatement obeys).mono fun _ _ _ term => term.loosen
    · exact (meets_expressionStatement obeys).mono fun _ _ _ term => term.loosen
  · split
    next found => exact meets_declared? obeys found
    next =>
      split
      next starts => exact meets_variableStatement obeys seen starts
      next =>
        split
        · exact meets_resources obeys
        · split
          · exact meets_labeledStatement obeys
          · exact (meets_expressionStatement obeys).mono fun _ _ _ term => term.loosen

/-- A statement is one construct of its shape. -/
theorem meets_statement (obeys : Obeys text self) (leading : Leading self) :
    Meets text low (statement self) (Term text false low) := by
  have plain : Meets text low (expressionStatement self) (Term text false low) :=
    (meets_expressionStatement obeys).mono fun _ _ _ term => term.loosen
  have braces : Meets text low (block self .statement) (Term text false low) :=
    (meets_block obeys).mono fun _ _ _ block => block.toTerm
  refine .look fun gap seen => ?_
  split
  · exact meets_wordStatement obeys leading seen
  · split
    · unfold braced
      split
      · exact .orElse plain braces
      · exact braces
    · exact meets_emptyStatement.mono fun _ _ _ term => term.loosen
    · exact meets_decorated obeys
    · exact .refuse _
    · exact .refuse _
    · exact .refuse _
    · exact plain

/-! ## The knot -/

/-- A rule gives one construct if the goals that it calls on do. -/
theorem meets_rule (obeys : Obeys text self) (leading : Leading self) (goal : Goal) :
    Meets text low (rule self goal) (Term text goal.isCalm low) := by
  cases goal with
  | statement => exact meets_statement obeys leading
  | sequence ends => exact meets_sequence obeys
  | expression ends => exact meets_valued (meets_element obeys)
  | element ends => exact meets_element obeys
  | binary ends level => exact meets_binary obeys
  | operand ends => exact meets_operand obeys
  | primary ends => exact meets_primary obeys
  | callee ends => exact meets_accessed obeys
  | markup => exact meets_markup obeys

/-- By induction on the depth: a rule calls on goals one level less deep. -/
theorem obeys_parseGoal (text : List Char) (depth : Nat) : Obeys text (parseGoal depth) := by
  induction depth with
  | zero => exact fun goal low => .get fun _ _ _ => .refuse _
  | succ depth ih => exact fun goal low => meets_rule ih (leading_parseGoal depth) goal

/-! ## Trees -/

/-- The line that names an interpreter lies in a row, if it is there. -/
theorem meets_hashBangLine : Meets text low hashBangLine (Laid text true low) := by
  refine .ahead fun gap stands => ?_
  split
  · exact (meets_takeAfter stands rfl).mono fun _ _ _ term => term.toLaid
  · exact .pure (.nil (Int.le_refl _))

/-- What a script consists of lies in a row. -/
theorem meets_script (obeys : Obeys text self) :
    Meets text low (script self) (Laid text false low) := by
  refine meets_hashBangLine.bind fun first _ _ laid => ?_
  refine (meets_statements obeys).bind fun inner _ _ lead => ?_
  refine .ahead fun gap stands => .set stands.next stands.comments.row.le ?_
  exact .pure ((laid.loosen.append lead.laid).append stands.comments.laid)

/-- What a whole text consists of lies in a row. -/
theorem meets_program : Meets text low program (Laid text false low) :=
  .get fun _ _ _ => meets_script (obeys_parseGoal text _)

/-- The root over pieces in a row is well laid. -/
theorem sound_root {last : Cursor} (stands : last.At text)
    (laid : Laid text false low last.offset pieces) :
    (root pieces last).Sound (Utf8.encodeChars text) := by
  cases pieces with
  | nil =>
      exact .mk stands.boundary stands.boundary (Int.le_refl _) stands.point (Int.le_refl _)
        (Node.shaped_of_isPlain rfl) laid.sound
  | cons first rest =>
      obtain ⟨-, order, row⟩ := laid.row
      have sound := laid.sound first List.mem_cons_self
      exact .mk sound.starts stands.boundary (Int.le_trans order row.le) sound.point
        ⟨Int.le_refl _, order, row⟩ (Node.shaped_of_isPlain rfl) laid.sound

/-- The tree of a text is well-laid. -/
theorem sound_tree {node : Node} (parsed : tree text = .ok node) :
    node.Sound (Utf8.encodeChars text) := by
  unfold tree at parsed
  obtain ⟨⟨children, last⟩, ran, made⟩ := Outcome.bind_eq_ok_iff.mp parsed
  cases made
  obtain ⟨stands, -, laid⟩ :=
    meets_program.ends (.start text) children last (Cursor.at_start text) rfl ran
  exact sound_root stands laid

/-- The root of a tree carries no mark. -/
theorem unmarked_tree {node : Node} (parsed : tree text = .ok node) : node.head.flawed = false := by
  unfold tree at parsed
  obtain ⟨⟨children, last⟩, -, made⟩ := Outcome.bind_eq_ok_iff.mp parsed
  cases made
  rfl

/-- A tree is that of a script. -/
theorem kind_tree {node : Node} (parsed : tree text = .ok node) : node.kind = .program := by
  unfold tree at parsed
  obtain ⟨⟨children, last⟩, -, made⟩ := Outcome.bind_eq_ok_iff.mp parsed
  cases made
  rfl

/-- A text that has no tree is malformed. -/
theorem fails_tree : Outcome.FailsOnly (·.isMalformed) (tree text) := by
  have met : Meets text 0 program (Laid text false 0) := meets_program
  refine .bind (fun fault failed => ?_) fun _ _ => .ok _
  exact met.stops (.start text) fault (Cursor.at_start text) rfl failed

end Codebox.Script

namespace Codebox.Document

variable {source : String} {document : Document}

/-- A script is read as the tree of its text: no tree of a text is marked at its root, so none
is refused for a flaw. -/
theorem parse_eq_map_tree :
    Document.parse source = (Script.tree source.toList).map (Document.mk (Utf8.encode source)) := by
  unfold Document.parse
  cases made : Script.tree source.toList with
  | error fault => rfl
  | ok root =>
      change Document.ofTree _ root = .ok _
      unfold Document.ofTree
      rw [Script.unmarked_tree made]
      rfl

/-- A parsed document has the bytes of its text and the tree of it. -/
theorem parse_eq_ok (parsed : Document.parse source = .ok document) :
    document.source = Utf8.encode source ∧ Script.tree source.toList = .ok document.root := by
  rw [parse_eq_map_tree] at parsed
  cases made : Script.tree source.toList with
  | error fault =>
      rw [made] at parsed
      cases parsed
  | ok root =>
      rw [made] at parsed
      cases parsed
      exact ⟨rfl, rfl⟩

/-- The root of a parsed document stands for the whole script. -/
theorem kind_root (parsed : Document.parse source = .ok document) : document.root.kind = .program :=
  Script.kind_tree (parse_eq_ok parsed).2

/-- A parsed document is well-laid. -/
theorem sound_of_parse (parsed : Document.parse source = .ok document) : document.Sound := by
  obtain ⟨bytes, tree⟩ := parse_eq_ok parsed
  unfold Document.Sound
  rw [bytes]
  exact Script.sound_tree tree

/-- **No part that the rewriting takes for granted is missing.** In the tree of a script every
declaration has a first token and a declarator, every declarator has something that it binds, and
every default has a left and a right side. The branches of `declaring?`, `declaratorLine` and
`readParameter` for nodes without them are not taken. -/
theorem parts_of_parse (parsed : Document.parse source = .ok document) {node : Node}
    (held : document.root.Holds node) :
    (node.kind.declares → (declaring? node).isSome) ∧
      (node.kind = .variableDeclarator → (node.child? .name).isSome) ∧
      (node.kind = .assignmentPattern →
        (node.child? .left).isSome ∧ (node.child? .right).isSome) := by
  have shaped := ((sound_of_parse parsed).ofHolds held).shaped
  refine ⟨fun declares => ?_, shaped.declarator, fun default => ?_⟩
  · obtain ⟨parts, leads⟩ := shaped.declaration declares
    exact Option.isSome_iff_exists.mpr ⟨_, leads.declaring⟩
  · obtain ⟨left, rest, children, leads, -, right, member, follows⟩ :=
      shaped.assignment (.inr default)
    unfold Node.child?
    rw [children]
    refine ⟨List.find?_isSome.mpr ⟨left, List.mem_cons_self, by simp [leads]⟩, ?_⟩
    exact List.find?_isSome.mpr ⟨right, List.mem_cons_of_mem _ member, by simp [follows]⟩

/-- A text that is no script is malformed. -/
theorem fails_parse : Outcome.FailsOnly (·.isMalformed) (Document.parse source) := by
  intro fault failed
  rw [parse_eq_map_tree] at failed
  cases made : Script.tree source.toList with
  | error cause =>
      rw [made] at failed
      cases failed
      exact Script.fails_tree fault made
  | ok root =>
      rw [made] at failed
      cases failed

end Codebox.Document
