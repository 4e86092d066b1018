import Codebox.Proofs.Faults
import Codebox.Proofs.Holes
import Codebox.Proofs.KeywordEdits

/-! # What a patch is made of

A patch is read off a function in three parts. The header has a line for each
parameter, the body has the lines of the statements before the first return, and the
outputs are what that return gives. Nothing after the return has a say. Each part is
described by a relation on the tree, and the patch is made exactly if all three hold.
How a part fails, and with which fault, is described in the same way.
-/

namespace Codebox

variable {source : Bytes}

/-! ## The header -/

/-- The lines of parameters: first those that declare the ones with a default, then
those that bind the others to inputs, which are counted from `number` on. -/
inductive Headed : Nat → List Parameter → List String → List String → Prop
  | nil (number : Nat) : Headed number [] [] []
  | declared {number : Nat} {rest : List Parameter} {params inputs : List String}
      (name initial : String) (headed : Headed number rest params inputs) :
      Headed number (⟨name, some initial⟩ :: rest)
        (("Param " ++ name ++ "(" ++ initial ++ ");") :: params) inputs
  | input {number : Nat} {rest : List Parameter} {params inputs : List String} (name : String)
      (headed : Headed (number + 1) rest params inputs) :
      Headed number (⟨name, none⟩ :: rest) params
        ((name ++ " = in" ++ toString number ++ ";") :: inputs)

/-- The lines of parameters are determined by them. -/
theorem headed_iff {number : Nat} {parameters : List Parameter} {params inputs : List String} :
    Headed number parameters params inputs ↔ params = paramLines parameters ∧
      inputs = ((parameters.filter (·.initial.isNone)).map (·.name)).mapIdx fun index name =>
        name ++ " = in" ++ toString (index + number) ++ ";" := by
  induction parameters generalizing number params inputs with
  | nil =>
      constructor
      · rintro ⟨⟩
        exact ⟨rfl, rfl⟩
      · rintro ⟨rfl, rfl⟩
        exact .nil number
  | cons parameter rest ih =>
      obtain ⟨name, initial⟩ := parameter
      cases initial with
      | none =>
          have shift : ∀ index : Nat, index + 1 + number = index + (number + 1) := by omega
          simp only [paramLines, List.filterMap_cons, Option.map_none, Option.isNone_none,
            List.filter_cons_of_pos, List.map_cons, List.mapIdx_cons, Nat.zero_add, shift]
          constructor
          · rintro (_ | _ | ⟨_, headed⟩)
            obtain ⟨rfl, rfl⟩ := ih.mp headed
            exact ⟨rfl, rfl⟩
          · rintro ⟨rfl, rfl⟩
            exact .input name (ih.mpr ⟨rfl, rfl⟩)
      | some initial =>
          simp only [paramLines, List.filterMap_cons, Option.map_some]
          rw [List.filter_cons_of_neg (by simp)]
          constructor
          · rintro (_ | ⟨_, _, headed⟩ | _)
            obtain ⟨rfl, rfl⟩ := ih.mp headed
            exact ⟨rfl, rfl⟩
          · rintro ⟨rfl, rfl⟩
            exact .declared name initial (ih.mpr ⟨rfl, rfl⟩)

/-- The header is the lines of the parameters and of the inputs, each numbered in order. -/
theorem headerLines_eq_iff {parameters : List Parameter} {lines : List String} :
    lines = headerLines parameters ↔
      ∃ params inputs, Headed 1 parameters params inputs ∧ lines = params ++ inputs := by
  simp only [headed_iff]
  constructor
  · rintro rfl
    exact ⟨_, _, ⟨rfl, rfl⟩, rfl⟩
  · rintro ⟨_, _, ⟨rfl, rfl⟩, rfl⟩
    rfl

/-! ## Longest fronts -/

/-- The longest front of a list whose items all have a property. -/
structure LongestFront {α : Type} (holds : α → Prop) (items front : List α) : Prop where
  all : ∀ item ∈ front, holds item
  stops : ∃ rest, items = front ++ rest ∧ ∀ item ∈ rest.head?, ¬ holds item

/-- The longest front is what is taken while the property holds. -/
theorem longestFront_iff {α : Type} {holds : α → Prop} (test : α → Bool)
    (tests : ∀ item, test item ↔ holds item) {items front : List α} :
    LongestFront holds items front ↔ front = items.takeWhile test := by
  constructor
  · rintro ⟨all, rest, rfl, stops⟩
    have inside : ∀ item ∈ front, test item = true := fun item member =>
      (tests item).mpr (all item member)
    have outside : rest.takeWhile test = [] := by
      cases rest with
      | nil => rfl
      | cons item others =>
          exact List.takeWhile_cons_of_neg fun passes => stops item rfl ((tests item).mp passes)
    rw [List.takeWhile_append_of_pos inside, outside, List.append_nil]
  · rintro rfl
    refine ⟨fun item member => (tests item).mp (List.mem_takeWhile_imp member),
      items.dropWhile test, List.takeWhile_append_dropWhile.symm, fun item first passes => ?_⟩
    have stopped := List.head?_dropWhile_not test items
    rw [Option.mem_def.mp first] at stopped
    cases stopped.symm.trans ((tests item).mpr passes)

/-- The first line of a text ends before the first line feed. -/
def IsFirstLine (text line : String) : Prop :=
  LongestFront (· ≠ '\n') text.toList line.toList

/-- There is one first line of a text. -/
theorem isFirstLine_iff {text line : String} :
    IsFirstLine text line ↔ line = String.ofList (Text.firstLine text.toList) := by
  unfold IsFirstLine Text.firstLine
  rw [longestFront_iff (fun c => decide (c ≠ '\n')) fun c => by simp]
  constructor
  · intro same
    rw [← same, String.ofList_toList]
  · rintro rfl
    rw [String.toList_ofList]

/-- The first line of a node can be read exactly if the node can. -/
theorem firstLine_eq_ok_iff {node : Node} {line : String} :
    node.firstLine source = .ok line ↔
      ∃ text, node.text source = .ok text ∧ IsFirstLine text line := by
  unfold Node.firstLine
  simp only [isFirstLine_iff]
  rw [Outcome.bind_eq_ok_iff]
  refine exists_congr fun text => and_congr_right fun _ => ?_
  constructor
  · rintro ⟨⟩
    rfl
  · rintro rfl
    rfl

/-- The first line of a node fails to be read exactly as its text does. -/
theorem firstLine_eq_error_iff {node : Node} {fault : Fault} :
    node.firstLine source = .error fault ↔ node.text source = .error fault := by
  unfold Node.firstLine
  rw [Outcome.bind_eq_error_iff]
  simp [pure, Except.pure]

/-! ## Deleted keywords -/

/-- The deletions at one node of a scope. A node that declares by `const`, `let` or `var`
loses this word and the longest front of blanks after it, up to what the word binds at
most. Any other node loses nothing. -/
inductive Node.Sheds (source : Bytes) (node : Node) : List Edit → Prop
  | keyword {keyword binding : Node} {gap : Bytes} (declares : node.DeclaresBy keyword binding)
      (named : keyword.kind ∈ [.constKeyword, .letKeyword, .varKeyword])
      (blank : LongestFront (· ∈ blankBytes)
        (source.cut ⟨keyword.span.stop, binding.span.start⟩) gap) :
      Sheds source node [⟨⟨keyword.span.start, keyword.span.stop + gap.length⟩, ""⟩]
  | nothing (plain : ∀ keyword binding, node.DeclaresBy keyword binding →
        keyword.kind ∉ [.constKeyword, .letKeyword, .varKeyword]) : Sheds source node []

/-- How a text without its keywords is read: the deletions of all nodes of a scope are made
in the bytes of its own node. -/
def Node.Stripped (source : Bytes) (scope : Node) (outcome : Except Fault String) : Prop :=
  ∃ chunks, List.Forall₂ (Node.Sheds source) (scope :: scope.walk) chunks ∧
    source.spliceIn chunks.flatten scope.span = outcome

/-- The declaring keywords are these three. -/
theorem Kind.isKeyword_iff {kind : Kind} :
    kind.isKeyword ↔ kind ∈ [.constKeyword, .letKeyword, .varKeyword] := by
  cases kind <;> simp [Kind.isKeyword]

/-- The deletions at a node are determined by it. -/
theorem sheds_iff {node : Node} {edits : List Edit} :
    node.Sheds source edits ↔ edits = (keywordEdit? source node).toList := by
  unfold keywordEdit?
  constructor
  · intro sheds
    cases sheds with
    | keyword declares named blank =>
        rw [longestFront_iff isGapByte fun _ => isGapByte_iff] at blank
        simp only [declaring?_eq_some_iff.mpr declares, Kind.isKeyword_iff.mpr named, if_true,
          blank]
        rfl
    | nothing plain =>
        split
        next keyword binding found =>
          rw [if_neg fun named => plain keyword binding (declaring?_eq_some_iff.mp found)
            (Kind.isKeyword_iff.mp named)]
          rfl
        next => rfl
  · rintro rfl
    split
    next keyword binding found =>
      split
      next named =>
        exact .keyword (declaring?_eq_some_iff.mp found) (Kind.isKeyword_iff.mp named)
          ((longestFront_iff isGapByte fun _ => isGapByte_iff).mpr rfl)
      next other =>
        refine .nothing fun keyword' binding' declares named => other ?_
        cases found.symm.trans (declaring?_eq_some_iff.mpr declares)
        exact Kind.isKeyword_iff.mpr named
    next absent =>
      refine .nothing fun keyword binding declares _ => ?_
      cases absent.symm.trans (declaring?_eq_some_iff.mpr declares)

/-- Each node sheds its own keyword and nothing else. -/
theorem forall₂_sheds_iff {nodes : List Node} {chunks : List (List Edit)} :
    List.Forall₂ (Node.Sheds source) nodes chunks ↔
      chunks = nodes.map fun node => (keywordEdit? source node).toList := by
  constructor
  · intro each
    induction each with
    | nil => rfl
    | cons first _ ih => rw [List.map_cons, sheds_iff.mp first, ih]
  · rintro rfl
    induction nodes with
    | nil => exact .nil
    | cons node rest ih => exact .cons (sheds_iff.mpr rfl) ih

/-- A scope is stripped by deleting its keywords. -/
theorem stripped_iff {scope : Node} {outcome : Except Fault String} :
    scope.Stripped source outcome ↔
      source.spliceIn (keywordEdits source scope) scope.span = outcome := by
  unfold Node.Stripped keywordEdits
  simp only [forall₂_sheds_iff, exists_eq_left]
  rw [← List.flatMap_def, ← List.filterMap_eq_flatMap_toList]

/-! ## Statements -/

/-- The line of a declarator: its name is bound to its initial value, or to zero. -/
inductive Node.Binds (source : Bytes) (declarator : Node) : String → Prop
  | initial {name value : Node} {text given : String}
      (named : declarator.child? .name = some name) (plain : name.kind = .identifier)
      (read : name.text source = .ok text) (valued : declarator.child? .value = some value)
      (readValue : value.text source = .ok given) :
      Binds source declarator (text ++ " = " ++ given ++ ";")
  | zero {name : Node} {text : String} (named : declarator.child? .name = some name)
      (plain : name.kind = .identifier) (read : name.text source = .ok text)
      (absent : declarator.child? .value = none) :
      Binds source declarator (text ++ " = " ++ "0" ++ ";")

/-- The lines of a statement. A statement of no kind that is named here is copied
without its keywords, unless it holds a return. -/
inductive Node.Writes (source : Bytes) (statement : Node) : List String → Prop
  | declaration {lines : List String} (kind : statement.kind.declares)
      (each : List.Forall₂ (Node.Binds source)
        (statement.namedChildren.filter (·.kind = .variableDeclarator)) lines) :
      Writes source statement lines
  | closed {front : String} (kind : statement.kind = .expressionStatement)
      (read : statement.text source = .ok (front ++ ";")) : Writes source statement [front ++ ";"]
  | unclosed {text : String} (kind : statement.kind = .expressionStatement)
      (read : statement.text source = .ok text) (unclosed : ∀ front, text ≠ front ++ ";") :
      Writes source statement [text ++ ";"]
  | comment {text : String} (kind : statement.kind = .comment)
      (read : statement.text source = .ok text) : Writes source statement [text]
  | empty (kind : statement.kind = .emptyStatement) : Writes source statement []
  | copied {text : String} (kind : ¬ statement.kind.declares ∧
        statement.kind ∉ [.expressionStatement, .comment, .emptyStatement])
      (flat : ∀ inner ∈ statement.walk, inner.kind ≠ .returnStatement)
      (stripped : statement.Stripped source (.ok text)) : Writes source statement [text]

/-- How a declarator fails. It binds no plain name, and its first line is told; or one of
the texts that it takes cannot be read. -/
inductive Node.FailsToBind (source : Bytes) (declarator : Node) : Fault → Prop
  | pattern {text line : String}
      (unnamed : ∀ name ∈ declarator.child? .name, name.kind ≠ .identifier)
      (read : declarator.text source = .ok text) (first : IsFirstLine text line) :
      FailsToBind source declarator
        (.unsupported (.destructuringDeclaration line) declarator.location)
  | pattern_unread {fault : Fault}
      (unnamed : ∀ name ∈ declarator.child? .name, name.kind ≠ .identifier)
      (unread : declarator.text source = .error fault) : FailsToBind source declarator fault
  | value_unread {name value : Node} {fault : Fault} (named : declarator.child? .name = some name)
      (plain : name.kind = .identifier) (valued : declarator.child? .value = some value)
      (unread : value.text source = .error fault) : FailsToBind source declarator fault
  | name_unread {name : Node} {fault : Fault} (named : declarator.child? .name = some name)
      (plain : name.kind = .identifier)
      (read : ∀ value ∈ declarator.child? .value, ∃ text, value.text source = .ok text)
      (unread : name.text source = .error fault) : FailsToBind source declarator fault

/-- A declarator is written as a line exactly if it binds to that line. -/
theorem declaratorLine_eq_ok_iff {declarator : Node} {line : String} :
    declaratorLine source declarator = .ok line ↔ declarator.Binds source line := by
  constructor
  · intro found
    unfold declaratorLine at found
    split at found
    next name named =>
      split at found
      next plain =>
        split at found
        next value valued =>
          obtain ⟨given, readValue, found⟩ := Outcome.bind_eq_ok_iff.mp found
          obtain ⟨text, read, found⟩ := Outcome.bind_eq_ok_iff.mp found
          cases found
          exact .initial named plain read valued readValue
        next absent =>
          rw [pure_bind] at found
          obtain ⟨text, read, found⟩ := Outcome.bind_eq_ok_iff.mp found
          cases found
          exact .zero named plain read absent
      next =>
        obtain ⟨first, read, found⟩ := Outcome.bind_eq_ok_iff.mp found
        cases found
    next =>
      obtain ⟨first, read, found⟩ := Outcome.bind_eq_ok_iff.mp found
      cases found
  · intro binds
    unfold declaratorLine
    cases binds with
    | initial named plain read valued readValue =>
        simp only [named, plain, valued, readValue, read, if_pos, Outcome.bind_ok]
        rfl
    | zero named plain read absent =>
        simp only [named, plain, absent, read, if_pos]
        rfl

/-- A declarator fails to be written exactly if it fails to bind. -/
theorem declaratorLine_eq_error_iff {declarator : Node} {fault : Fault} :
    declaratorLine source declarator = .error fault ↔ declarator.FailsToBind source fault := by
  -- Both ways to have no plain name are refused in the same words.
  have refused (unnamed : ∀ name ∈ declarator.child? .name, name.kind ≠ .identifier) :
      (declarator.firstLine source >>= fun line => (.error (.unsupported
        (.destructuringDeclaration line) declarator.location) : Except Fault String)) =
          .error fault → declarator.FailsToBind source fault := by
    intro failed
    rcases Outcome.bind_eq_error_iff.mp failed with unread | ⟨line, read, failed⟩
    · exact .pattern_unread unnamed (firstLine_eq_error_iff.mp unread)
    · obtain ⟨text, read, first⟩ := firstLine_eq_ok_iff.mp read
      cases failed
      exact .pattern unnamed read first
  unfold declaratorLine
  constructor
  · intro failed
    split at failed
    next name named =>
      split at failed
      next plain =>
        split at failed
        next value valued =>
          rcases Outcome.bind_eq_error_iff.mp failed with unread | ⟨given, readValue, failed⟩
          · exact .value_unread named plain valued unread
          · rcases Outcome.bind_eq_error_iff.mp failed with unread | ⟨text, read, failed⟩
            · refine .name_unread named plain (fun other found => ?_) unread
              cases (Option.mem_def.mp found).symm.trans valued
              exact ⟨given, readValue⟩
            · cases failed
        next absent =>
          rw [pure_bind] at failed
          rcases Outcome.bind_eq_error_iff.mp failed with unread | ⟨text, read, failed⟩
          · refine .name_unread named plain (fun other found => ?_) unread
            cases (Option.mem_def.mp found).symm.trans absent
          · cases failed
      next other =>
        refine refused (fun name' found => ?_) failed
        cases (Option.mem_def.mp found).symm.trans named
        exact other
    next unnamed =>
      refine refused (fun name found => ?_) failed
      cases (Option.mem_def.mp found).symm.trans unnamed
  · intro fails
    cases fails with
    | pattern unnamed read first =>
        have line := firstLine_eq_ok_iff.mpr ⟨_, read, first⟩
        cases named : declarator.child? .name with
        | none => simp only [line, Outcome.bind_ok]; rfl
        | some name => simp only [unnamed name named, line, if_false, Outcome.bind_ok]; rfl
    | pattern_unread unnamed unread =>
        have line := firstLine_eq_error_iff.mpr unread
        cases named : declarator.child? .name with
        | none => simp only [line, Outcome.bind_error]
        | some name => simp only [unnamed name named, line, if_false, Outcome.bind_error]
    | value_unread named plain valued unread =>
        simp only [named, plain, valued, unread, if_true, Outcome.bind_error]
    | name_unread named plain read unread =>
        cases valued : declarator.child? .value with
        | none => simp only [named, plain, unread, if_true, pure_bind, Outcome.bind_error]
        | some value =>
            obtain ⟨given, readValue⟩ := read value valued
            simp only [named, plain, readValue, unread, if_true, Outcome.bind_ok,
              Outcome.bind_error]

/-- A text ends with a semicolon exactly if that is its last character. -/
theorem endsWithSemicolon_iff_exists {text : String} :
    endsWithSemicolon text ↔ ∃ front, text = front ++ ";" := by
  unfold endsWithSemicolon
  rw [decide_eq_true_iff, List.getLast?_eq_some_iff]
  constructor
  · rintro ⟨front, split⟩
    refine ⟨String.ofList front, String.ext ?_⟩
    simpa using split
  · rintro ⟨front, rfl⟩
    exact ⟨front.toList, by simp⟩

namespace Synthesizer

variable {synthesizer : Synthesizer} {statement node : Node} {lines : List String} {fault : Fault}

theorem emit_of_declares (declares : statement.kind.declares) :
    synthesizer.emit statement = synthesizer.emitDeclaration statement := by
  unfold emit
  cases kind : statement.kind <;> simp_all [Kind.declares]

theorem emit_of_expression (kind : statement.kind = .expressionStatement) :
    synthesizer.emit statement = Run.lift (statement.text synthesizer.source >>= fun text =>
      .ok (closed text)) >>= Run.write := by
  unfold emit
  rw [kind]
  cases statement.text synthesizer.source <;> rfl

theorem emit_of_comment (kind : statement.kind = .comment) :
    synthesizer.emit statement =
      Run.lift (statement.text synthesizer.source) >>= Run.write := by
  unfold emit
  rw [kind]

theorem emit_of_empty (kind : statement.kind = .emptyStatement) :
    synthesizer.emit statement = ⟨[], .ok ()⟩ := by
  unfold emit
  rw [kind]
  rfl

theorem emit_of_other (kind : ¬ statement.kind.declares ∧
      statement.kind ∉ [.expressionStatement, .comment, .emptyStatement]) :
    synthesizer.emit statement =
      Run.lift (synthesizer.statementText statement) >>= Run.write := by
  unfold emit
  cases same : statement.kind <;> simp_all [Kind.declares]

/-- A statement has no returns exactly if its walk meets none. -/
theorem returnsOf_eq_nil_iff : returnsOf statement = [] ↔
    ∀ inner ∈ statement.walk, inner.kind ≠ .returnStatement := by
  unfold returnsOf
  simp

/-- The text of a statement is written exactly if it has no return, and then without keywords. -/
theorem statementText_eq_ok_iff {text : String} :
    synthesizer.statementText statement = .ok text ↔
      (∀ inner ∈ statement.walk, inner.kind ≠ .returnStatement) ∧
        statement.Stripped synthesizer.source (.ok text) := by
  rw [← returnsOf_eq_nil_iff, stripped_iff]
  unfold statementText
  cases found : returnsOf statement with
  | nil => simp
  | cons node rest =>
      simp only [Outcome.bind_eq_ok_iff, reduceCtorEq, false_and, iff_false, not_exists, not_and]
      intro line _ impossible
      cases impossible

/-- A declaration is written declarator by declarator. -/
theorem emitDeclaration_eq_ok_iff :
    synthesizer.emitDeclaration statement = ⟨lines, .ok ()⟩ ↔
      List.Forall₂ (Node.Binds synthesizer.source) (declarators statement) lines := by
  unfold emitDeclaration
  rw [Run.forM_eq_ok_iff, ← Outcome.forall₂_singleton_iff]
  simp only [Run.lift_bind_write_eq_ok_iff, declaratorLine_eq_ok_iff]

/-- A declaration fails at the first declarator that fails, and keeps the lines of those
before it. -/
theorem emitDeclaration_eq_error_iff :
    synthesizer.emitDeclaration statement = ⟨lines, .error fault⟩ ↔
      ∃ done declarator later, declarators statement = done ++ declarator :: later ∧
        List.Forall₂ (Node.Binds synthesizer.source) done lines ∧
        declarator.FailsToBind synthesizer.source fault := by
  unfold emitDeclaration
  simp only [Run.forM_eq_error_iff, Run.lift_bind_write_eq_ok_iff,
    Run.lift_bind_write_eq_error_iff, declaratorLine_eq_ok_iff, declaratorLine_eq_error_iff]
  constructor
  · rintro ⟨done, declarator, later, chunks, _, split, each, ⟨failed, rfl⟩, rfl⟩
    refine ⟨done, declarator, later, split, ?_, failed⟩
    exact Outcome.forall₂_singleton_iff.mp ⟨chunks, each, List.append_nil _⟩
  · rintro ⟨done, declarator, later, split, each, failed⟩
    obtain ⟨chunks, singles, rfl⟩ := Outcome.forall₂_singleton_iff.mpr each
    exact ⟨done, declarator, later, chunks, [], split, singles, ⟨failed, rfl⟩,
      (List.append_nil _).symm⟩

/-- What a statement writes if it does not fail. -/
theorem emit_eq_ok_iff : synthesizer.emit statement = ⟨lines, .ok ()⟩ ↔
    statement.Writes synthesizer.source lines := by
  constructor
  · intro ended
    by_cases declares : statement.kind.declares
    · rw [emit_of_declares declares, emitDeclaration_eq_ok_iff] at ended
      exact .declaration declares ended
    by_cases expression : statement.kind = .expressionStatement
    · rw [emit_of_expression expression, Run.lift_bind_write_eq_ok_iff] at ended
      obtain ⟨line, written, rfl⟩ := ended
      obtain ⟨text, read, same⟩ := Outcome.bind_eq_ok_iff.mp written
      cases same
      unfold closed
      split
      next closing =>
        obtain ⟨front, rfl⟩ := endsWithSemicolon_iff_exists.mp closing
        exact .closed expression read
      next closing =>
        refine .unclosed expression read fun front same => ?_
        exact closing (endsWithSemicolon_iff_exists.mpr ⟨front, same⟩)
    by_cases comment : statement.kind = .comment
    · rw [emit_of_comment comment, Run.lift_bind_write_eq_ok_iff] at ended
      obtain ⟨text, read, rfl⟩ := ended
      exact .comment comment read
    by_cases empty : statement.kind = .emptyStatement
    · rw [emit_of_empty empty] at ended
      cases ended
      exact .empty empty
    have other : ¬ statement.kind.declares ∧
        statement.kind ∉ [.expressionStatement, .comment, .emptyStatement] := by
      simp [declares, expression, comment, empty]
    rw [emit_of_other other, Run.lift_bind_write_eq_ok_iff] at ended
    obtain ⟨text, read, rfl⟩ := ended
    obtain ⟨flat, stripped⟩ := statementText_eq_ok_iff.mp read
    exact .copied other flat stripped
  · intro writes
    cases writes with
    | declaration kind each => rw [emit_of_declares kind, emitDeclaration_eq_ok_iff.mpr each]
    | @closed front kind read =>
        have ends : closed (front ++ ";") = front ++ ";" :=
          if_pos (endsWithSemicolon_iff_exists.mpr ⟨front, rfl⟩)
        rw [emit_of_expression kind, read, Outcome.bind_ok, ends]
        rfl
    | @unclosed text kind read unclosed =>
        have ends : closed text = text ++ ";" := by
          refine if_neg fun closing => ?_
          obtain ⟨front, same⟩ := endsWithSemicolon_iff_exists.mp closing
          exact unclosed front same
        rw [emit_of_expression kind, read, Outcome.bind_ok, ends]
        rfl
    | comment kind read =>
        rw [emit_of_comment kind, read]
        rfl
    | empty kind => exact emit_of_empty kind
    | copied kind flat stripped =>
        rw [emit_of_other kind, statementText_eq_ok_iff.mpr ⟨flat, stripped⟩]
        rfl

/-- How a statement fails with a fault, and the lines that it has written by then: a
declaration those of the declarators before the one that fails, any other statement
none. An expression or a comment fails if it cannot be read. Any other statement fails if it
holds a return of the main function, whose first line is told, or if its text without
keywords cannot be read. -/
inductive Breaks (synthesizer : Synthesizer) (statement : Node) : Fault → List String → Prop
  | declarator {done later : List Node} {declarator : Node} {lines : List String} {fault : Fault}
      (kind : statement.kind.declares)
      (split : statement.namedChildren.filter (·.kind = .variableDeclarator) =
        done ++ declarator :: later)
      (each : List.Forall₂ (Node.Binds synthesizer.source) done lines)
      (failed : declarator.FailsToBind synthesizer.source fault) :
      Breaks synthesizer statement fault lines
  | unread {fault : Fault} (kind : statement.kind ∈ [.expressionStatement, .comment])
      (unread : statement.text synthesizer.source = .error fault) :
      Breaks synthesizer statement fault []
  | nested {done later : List Node} {node : Node} {text line : String}
      (kind : ¬ statement.kind.declares ∧
        statement.kind ∉ [.expressionStatement, .comment, .emptyStatement])
      (split : statement.walk = done ++ node :: later)
      (earlier : ∀ other ∈ done, other.kind ≠ .returnStatement)
      (returns : node.kind = .returnStatement)
      (read : node.text synthesizer.source = .ok text) (first : IsFirstLine text line) :
      Breaks synthesizer statement
        (.unsupported (.nestedReturn synthesizer.options.mainName line) node.location) []
  | nested_unread {done later : List Node} {node : Node} {fault : Fault}
      (kind : ¬ statement.kind.declares ∧
        statement.kind ∉ [.expressionStatement, .comment, .emptyStatement])
      (split : statement.walk = done ++ node :: later)
      (earlier : ∀ other ∈ done, other.kind ≠ .returnStatement)
      (returns : node.kind = .returnStatement)
      (unread : node.text synthesizer.source = .error fault) :
      Breaks synthesizer statement fault []
  | stripped {fault : Fault} (kind : ¬ statement.kind.declares ∧
        statement.kind ∉ [.expressionStatement, .comment, .emptyStatement])
      (flat : ∀ inner ∈ statement.walk, inner.kind ≠ .returnStatement)
      (failed : statement.Stripped synthesizer.source (.error fault)) :
      Breaks synthesizer statement fault []

/-- A statement is refused at the first return that its walk meets. -/
theorem statementText_of_return {done later : List Node}
    (split : statement.walk = done ++ node :: later)
    (earlier : ∀ other ∈ done, other.kind ≠ .returnStatement)
    (returns : node.kind = .returnStatement) :
    synthesizer.statementText statement = node.firstLine synthesizer.source >>= fun line =>
      .error (.unsupported (.nestedReturn synthesizer.options.mainName line) node.location) := by
  have found : returnsOf statement = node :: later.filter (·.kind = .returnStatement) := by
    refine List.filter_eq_cons_iff.mpr ⟨done, later, split, fun other member => ?_, ?_, rfl⟩
    · simpa using earlier other member
    · simpa using returns
  unfold statementText
  rw [found]
  rfl

/-- The text of a statement without a return is its text without keywords. -/
theorem statementText_of_flat (flat : ∀ inner ∈ statement.walk, inner.kind ≠ .returnStatement) :
    synthesizer.statementText statement =
      synthesizer.source.spliceIn (keywordEdits synthesizer.source statement) statement.span := by
  unfold statementText
  rw [returnsOf_eq_nil_iff.mpr flat]

/-- A statement whose text cannot be made fails in one of three ways. -/
theorem breaks_of_statementText (kind : ¬ statement.kind.declares ∧
      statement.kind ∉ [.expressionStatement, .comment, .emptyStatement])
    (failed : synthesizer.statementText statement = .error fault) :
    synthesizer.Breaks statement fault [] := by
  by_cases flat : ∀ inner ∈ statement.walk, inner.kind ≠ .returnStatement
  · rw [statementText_of_flat flat] at failed
    exact .stripped kind flat (stripped_iff.mpr failed)
  · cases found : returnsOf statement with
    | nil => exact (flat (returnsOf_eq_nil_iff.mp found)).elim
    | cons node rest =>
        obtain ⟨done, later, split, earlier, returns, -⟩ := List.filter_eq_cons_iff.mp found
        have earlier : ∀ other ∈ done, other.kind ≠ .returnStatement := by simpa using earlier
        have returns : node.kind = .returnStatement := by simpa using returns
        rw [statementText_of_return split earlier returns] at failed
        rcases Outcome.bind_eq_error_iff.mp failed with unread | ⟨line, read, told⟩
        · exact .nested_unread kind split earlier returns (firstLine_eq_error_iff.mp unread)
        · obtain ⟨text, read, first⟩ := firstLine_eq_ok_iff.mp read
          cases told
          exact .nested kind split earlier returns read first

/-- How a statement fails, and what it has written by then. -/
theorem emit_eq_error_iff : synthesizer.emit statement = ⟨lines, .error fault⟩ ↔
    synthesizer.Breaks statement fault lines := by
  constructor
  · intro failed
    by_cases declares : statement.kind.declares
    · rw [emit_of_declares declares, emitDeclaration_eq_error_iff] at failed
      obtain ⟨done, declarator, later, split, each, failed⟩ := failed
      exact .declarator declares split each failed
    by_cases expression : statement.kind = .expressionStatement
    · rw [emit_of_expression expression, Run.lift_bind_write_eq_error_iff] at failed
      obtain ⟨failed, rfl⟩ := failed
      rcases Outcome.bind_eq_error_iff.mp failed with unread | ⟨text, -, impossible⟩
      · exact .unread (by simp [expression]) unread
      · cases impossible
    by_cases comment : statement.kind = .comment
    · rw [emit_of_comment comment, Run.lift_bind_write_eq_error_iff] at failed
      obtain ⟨unread, rfl⟩ := failed
      exact .unread (by simp [comment]) unread
    by_cases empty : statement.kind = .emptyStatement
    · rw [emit_of_empty empty] at failed
      cases failed
    have other : ¬ statement.kind.declares ∧
        statement.kind ∉ [.expressionStatement, .comment, .emptyStatement] := by
      simp [declares, expression, comment, empty]
    rw [emit_of_other other, Run.lift_bind_write_eq_error_iff] at failed
    obtain ⟨failed, rfl⟩ := failed
    exact breaks_of_statementText other failed
  · intro breaks
    cases breaks with
    | declarator kind split each failed =>
        rw [emit_of_declares kind, emitDeclaration_eq_error_iff]
        exact ⟨_, _, _, split, each, failed⟩
    | unread kind unread =>
        rcases List.mem_pair.mp kind with expression | comment
        · rw [emit_of_expression expression, unread]
          rfl
        · rw [emit_of_comment comment, unread]
          rfl
    | nested kind split earlier returns read first =>
        rw [emit_of_other kind, statementText_of_return split earlier returns,
          firstLine_eq_ok_iff.mpr ⟨_, read, first⟩]
        rfl
    | nested_unread kind split earlier returns unread =>
        rw [emit_of_other kind, statementText_of_return split earlier returns,
          firstLine_eq_error_iff.mpr unread]
        rfl
    | stripped kind flat failed =>
        rw [emit_of_other kind, statementText_of_flat flat, stripped_iff.mp failed]
        rfl

/-! ## Statements in a row -/

variable {statements : List Node} {body : List String}

/-- The lines of statements, one after the other. -/
theorem forM_emit_eq_ok_iff : statements.forM synthesizer.emit = ⟨body, .ok ()⟩ ↔
    ∃ chunks, List.Forall₂ (Node.Writes synthesizer.source) statements chunks ∧
      body = chunks.flatten := by
  simp only [Run.forM_eq_ok_iff, emit_eq_ok_iff]

/-- The first statement that fails ends the body; what was written before it stays. -/
theorem forM_emit_eq_error_iff : statements.forM synthesizer.emit = ⟨body, .error fault⟩ ↔
    ∃ done statement later chunks last, statements = done ++ statement :: later ∧
      List.Forall₂ (Node.Writes synthesizer.source) done chunks ∧
      synthesizer.Breaks statement fault last ∧ body = chunks.flatten ++ last := by
  simp only [Run.forM_eq_error_iff, emit_eq_ok_iff, emit_eq_error_iff]

/-! ## The return -/

end Synthesizer

/-- The lines that bind elements to outputs, which are counted from `number` on. -/
inductive Outputs (source : Bytes) : Nat → List Node → List String → Prop
  | nil (number : Nat) : Outputs source number [] []
  | cons {number : Nat} {element : Node} {elements : List Node} {text : String}
      {lines : List String} (read : element.text source = .ok text)
      (rest : Outputs source (number + 1) elements lines) :
      Outputs source number (element :: elements)
        (("out" ++ toString number ++ " = " ++ text ++ ";") :: lines)

/-- The output lines of what is returned: one for each element of an array without holes,
one for any other value, and none for a return without a value or if there is no return. -/
inductive Returned (source : Bytes) : Option Node → List String → Prop
  | absent : Returned source none []
  | bare {node : Node} (none : node.parts.head? = none) : Returned source (some node) []
  | value {node argument : Node} {text : String} (first : node.parts.head? = some argument)
      (kind : argument.kind ≠ .array) (read : argument.text source = .ok text) :
      Returned source (some node) ["out1 = " ++ text ++ ";"]
  | array {node argument : Node} {lines : List String}
      (first : node.parts.head? = some argument) (kind : argument.kind = .array)
      (full : ∀ before comma, ¬ argument.HoleAfter before comma)
      (each : Outputs source 1 argument.parts lines) : Returned source (some node) lines

/-- How a return fails. It returns an array with a hole, and the comma of the first hole is
told; or what it returns cannot be read. -/
inductive FailsToReturn (source : Bytes) (node : Node) : Fault → Prop
  | hole {argument comma : Node} {before : List Node} (first : node.parts.head? = some argument)
      (kind : argument.kind = .array) (hole : argument.HoleAfter before comma)
      (least : ∀ other later, argument.HoleAfter other later → before.length ≤ other.length) :
      FailsToReturn source node (.unsupported .arrayHole comma.location)
  | value {argument : Node} {fault : Fault} (first : node.parts.head? = some argument)
      (kind : argument.kind ≠ .array) (unread : argument.text source = .error fault) :
      FailsToReturn source node fault
  | element {argument element : Node} {done later : List Node} {fault : Fault}
      (first : node.parts.head? = some argument) (kind : argument.kind = .array)
      (full : ∀ before comma, ¬ argument.HoleAfter before comma)
      (split : argument.parts = done ++ element :: later)
      (read : ∀ other ∈ done, ∃ text, other.text source = .ok text)
      (unread : element.text source = .error fault) : FailsToReturn source node fault

/-- The lines of outputs are the texts of the elements, each numbered in order. -/
theorem outputs_iff {number : Nat} {elements : List Node} {lines : List String} :
    Outputs source number elements lines ↔ ∃ texts,
      elements.mapM (·.text source) = .ok texts ∧ lines = texts.mapIdx fun index text =>
        "out" ++ toString (index + number) ++ " = " ++ text ++ ";" := by
  simp only [Outcome.mapM_eq_ok_iff]
  induction elements generalizing number lines with
  | nil =>
      constructor
      · rintro ⟨⟩
        exact ⟨[], .nil, rfl⟩
      · rintro ⟨_, ⟨⟩, rfl⟩
        exact .nil number
  | cons element rest ih =>
      have shift : ∀ index : Nat, index + 1 + number = index + (number + 1) := by omega
      constructor
      · rintro (_ | ⟨read, others⟩)
        obtain ⟨texts, each, rfl⟩ := ih.mp others
        exact ⟨_ :: texts, .cons read each, by simp [shift]⟩
      · rintro ⟨_, _ | ⟨read, each⟩, rfl⟩
        rw [List.mapIdx_cons, Nat.zero_add]
        simp only [shift]
        exact .cons read (ih.mpr ⟨_, each, rfl⟩)

namespace Synthesizer

variable {synthesizer : Synthesizer} {node : Node} {lines : List String} {fault : Fault}

theorem outputs_of_bare (bare : node.parts.head? = none) : synthesizer.outputs node = .ok [] := by
  unfold outputs returnArgument?
  rw [bare]

theorem outputs_of_value {argument : Node} (first : node.parts.head? = some argument)
    (kind : argument.kind ≠ .array) :
    synthesizer.outputs node = argument.text synthesizer.source >>= fun text =>
      .ok ["out1 = " ++ text ++ ";"] := by
  unfold outputs returnArgument? arrayElements
  simp only [first, if_neg kind, Outcome.bind_ok]
  rfl

theorem outputs_of_array {argument : Node} (first : node.parts.head? = some argument)
    (kind : argument.kind = .array) (full : firstHole? .openBracket argument.children = none) :
    synthesizer.outputs node = argument.parts.mapM (·.text synthesizer.source) >>= fun texts =>
      .ok (valueLines texts) := by
  unfold outputs returnArgument? arrayElements
  simp only [first, if_pos kind, full, Outcome.bind_ok]
  rfl

theorem outputs_of_hole {argument comma : Node} (first : node.parts.head? = some argument)
    (kind : argument.kind = .array)
    (hole : firstHole? .openBracket argument.children = some comma) :
    synthesizer.outputs node = .error (.unsupported .arrayHole comma.location) := by
  unfold outputs returnArgument? arrayElements
  simp only [first, if_pos kind, hole, Outcome.bind_error]

/-- The outputs of a return, if it does not fail. -/
theorem outputs_eq_ok_iff :
    synthesizer.outputs node = .ok lines ↔ Returned synthesizer.source (some node) lines := by
  constructor
  · intro found
    cases first : node.parts.head? with
    | none =>
        rw [outputs_of_bare first] at found
        cases found
        exact .bare first
    | some argument =>
        by_cases kind : argument.kind = .array
        · cases hole : firstHole? .openBracket argument.children with
          | some comma =>
              rw [outputs_of_hole first kind hole] at found
              cases found
          | none =>
              rw [outputs_of_array first kind hole] at found
              obtain ⟨texts, read, same⟩ := Outcome.bind_eq_ok_iff.mp found
              cases same
              exact .array first kind (firstHole?_eq_none_iff.mp hole)
                (outputs_iff.mpr ⟨texts, read, rfl⟩)
        · rw [outputs_of_value first kind] at found
          obtain ⟨text, read, same⟩ := Outcome.bind_eq_ok_iff.mp found
          cases same
          exact .value first kind read
  · intro returned
    cases returned with
    | bare none => exact outputs_of_bare none
    | value first kind read =>
        rw [outputs_of_value first kind, read]
        rfl
    | array first kind full each =>
        obtain ⟨texts, read, rfl⟩ := outputs_iff.mp each
        rw [outputs_of_array first kind (firstHole?_eq_none_iff.mpr full), read]
        rfl

/-- How a return fails. -/
theorem outputs_eq_error_iff :
    synthesizer.outputs node = .error fault ↔ FailsToReturn synthesizer.source node fault := by
  constructor
  · intro failed
    cases first : node.parts.head? with
    | none =>
        rw [outputs_of_bare first] at failed
        cases failed
    | some argument =>
        by_cases kind : argument.kind = .array
        · cases hole : firstHole? .openBracket argument.children with
          | some comma =>
              rw [outputs_of_hole first kind hole] at failed
              cases failed
              obtain ⟨before, hole, least⟩ := firstHole?_eq_some_iff.mp hole
              exact .hole first kind hole least
          | none =>
              rw [outputs_of_array first kind hole] at failed
              rcases Outcome.bind_eq_error_iff.mp failed with unread | ⟨texts, -, impossible⟩
              · obtain ⟨done, element, later, split, read, unread⟩ :=
                  Outcome.mapM_eq_error_iff.mp unread
                exact .element first kind (firstHole?_eq_none_iff.mp hole) split read unread
              · cases impossible
        · rw [outputs_of_value first kind] at failed
          rcases Outcome.bind_eq_error_iff.mp failed with unread | ⟨text, -, impossible⟩
          · exact .value first kind unread
          · cases impossible
  · intro fails
    cases fails with
    | hole first kind hole least =>
        exact outputs_of_hole first kind (firstHole?_eq_some_iff.mpr ⟨_, hole, least⟩)
    | value first kind unread =>
        rw [outputs_of_value first kind, unread]
        rfl
    | element first kind full split read unread =>
        rw [outputs_of_array first kind (firstHole?_eq_none_iff.mpr full),
          Outcome.mapM_eq_error_iff.mpr ⟨_, _, _, split, read, unread⟩]
        rfl

/-- What is returned is bound to outputs, if anything is. -/
theorem returnLines_eq_ok_iff {first? : Option Node} : synthesizer.returnLines first? = .ok lines ↔
    Returned synthesizer.source first? lines := by
  cases first? with
  | none =>
      constructor
      · rintro ⟨⟩
        exact .absent
      · rintro ⟨⟩
        rfl
  | some node => exact outputs_eq_ok_iff

/-- The lines of a return fail to be written exactly if the first return fails. -/
theorem returnLines_eq_error_iff {first? : Option Node} :
    synthesizer.returnLines first? = .error fault ↔
      ∃ node, first? = some node ∧ FailsToReturn synthesizer.source node fault := by
  simp only [← outputs_eq_error_iff]
  cases first? with
  | none => simp [returnLines]
  | some node => simp [returnLines]

/-! ## The whole patch -/

theorem header_eq_ok_iff : synthesizer.header = .ok lines ↔ ∃ parameters params inputs,
    synthesizer.function.readParameters synthesizer.source synthesizer.options = .ok parameters ∧
      Headed 1 parameters params inputs ∧ lines = params ++ inputs := by
  unfold header
  rw [Outcome.bind_eq_ok_iff]
  constructor
  · rintro ⟨parameters, read, same⟩
    cases same
    obtain ⟨params, inputs, headed, same⟩ := headerLines_eq_iff.mp rfl
    exact ⟨parameters, params, inputs, read, headed, same⟩
  · rintro ⟨parameters, params, inputs, read, headed, rfl⟩
    refine ⟨parameters, read, congrArg Except.ok ?_⟩
    exact (headerLines_eq_iff.mpr ⟨params, inputs, headed, rfl⟩).symm

theorem header_eq_error_iff {fault : Fault} : synthesizer.header = .error fault ↔
    synthesizer.function.readParameters synthesizer.source synthesizer.options =
      .error fault := by
  unfold header
  rw [Outcome.bind_eq_error_iff]
  simp [pure, Except.pure]

theorem exists_header_iff : (∃ header, synthesizer.header = .ok header) ↔ ∃ parameters,
    synthesizer.function.readParameters synthesizer.source synthesizer.options =
      .ok parameters := by
  unfold header
  simp [Outcome.bind_eq_ok_iff, pure, Except.pure]

/-- A patch is made exactly if each of its parts is. -/
theorem synthesize_eq_ok_iff {text : String} : synthesizer.synthesize.2.outcome = .ok text ↔
    ∃ header body outputs, synthesizer.header = .ok header ∧
      synthesizer.before.forM synthesizer.emit = ⟨body, .ok ()⟩ ∧
      synthesizer.returnLines synthesizer.firstReturn? = .ok outputs ∧
      text = Patch.text ⟨header, body, outputs⟩ := by
  rw [synthesize_outcome]
  constructor
  · intro ended
    obtain ⟨header, headed, ended⟩ := Outcome.bind_eq_ok_iff.mp ended
    obtain ⟨_, emitted, ended⟩ := Outcome.bind_eq_ok_iff.mp ended
    obtain ⟨outputs, returned, same⟩ := Outcome.bind_eq_ok_iff.mp ended
    cases same
    exact ⟨header, _, outputs, headed, by rw [← emitted], returned, rfl⟩
  · rintro ⟨header, body, outputs, headed, emitted, returned, rfl⟩
    rw [headed, emitted, returned]
    rfl

/-- The first part that fails decides how making a patch fails. -/
theorem synthesize_eq_error_iff {fault : Fault} :
    synthesizer.synthesize.2.outcome = .error fault ↔ synthesizer.header = .error fault ∨
      (∃ header, synthesizer.header = .ok header) ∧
        ((∃ body, synthesizer.before.forM synthesizer.emit = ⟨body, .error fault⟩) ∨
          (∃ body, synthesizer.before.forM synthesizer.emit = ⟨body, .ok ()⟩) ∧
            synthesizer.returnLines synthesizer.firstReturn? = .error fault) := by
  rw [synthesize_outcome]
  cases synthesizer.header with
  | error other => simp [Outcome.bind_error]
  | ok header =>
      cases synthesizer.before.forM synthesizer.emit with
      | mk body outcome =>
          cases outcome with
          | error other => simp [Outcome.bind_ok, Outcome.bind_error]
          | ok => simp [Outcome.bind_ok, Outcome.bind_eq_error_iff]

end Synthesizer

/-- **A patch is what its parts say.** A patch is made exactly if the parameters can be
read, every statement before the first return can be written and what is returned can be
bound to outputs. Its text is the header and, after a blank line, the lines of these
statements in order with the outputs after them; a part without lines is left out. If a
patch cannot be made, the first of these parts that fails gives the fault. -/
theorem synthesize_eq_reference (synthesizer : Synthesizer) :
    let source := synthesizer.source
    let parameters := synthesizer.function.readParameters source synthesizer.options
    let statements := synthesizer.function.body.namedChildren
    let before := statements.takeWhile (·.kind ≠ .returnStatement)
    let first? := (statements.dropWhile (·.kind ≠ .returnStatement)).head?
    let outcome := synthesizer.synthesize.2.outcome
    (∀ text, outcome = .ok text ↔ ∃ read params inputs chunks outputs,
      parameters = .ok read ∧ Headed 1 read params inputs ∧
      List.Forall₂ (Node.Writes source) before chunks ∧ Returned source first? outputs ∧
      text = Text.joined "\n\n"
        (([params ++ inputs, chunks.flatten ++ outputs].filter (!·.isEmpty)).map
          (Text.joined "\n"))) ∧
    ∀ fault, outcome = .error fault ↔ parameters = .error fault ∨
      (∃ read, parameters = .ok read) ∧
        ((∃ done statement later chunks lines, before = done ++ statement :: later ∧
            List.Forall₂ (Node.Writes source) done chunks ∧
            synthesizer.Breaks statement fault lines) ∨
          (∃ chunks, List.Forall₂ (Node.Writes source) before chunks) ∧
            ∃ node, first? = some node ∧ FailsToReturn source node fault) := by
  intro source parameters statements before first? outcome
  constructor
  · intro text
    rw [Synthesizer.synthesize_eq_ok_iff]
    simp only [Synthesizer.header_eq_ok_iff, Synthesizer.forM_emit_eq_ok_iff,
      Synthesizer.returnLines_eq_ok_iff]
    constructor
    · rintro ⟨_, _, outputs, ⟨read, params, inputs, found, headed, rfl⟩, ⟨chunks, each, rfl⟩,
        returned, same⟩
      exact ⟨read, params, inputs, chunks, outputs, found, headed, each, returned, same⟩
    · rintro ⟨read, params, inputs, chunks, outputs, found, headed, each, returned, same⟩
      exact ⟨_, _, outputs, ⟨read, params, inputs, found, headed, rfl⟩, ⟨chunks, each, rfl⟩,
        returned, same⟩
  · intro fault
    rw [Synthesizer.synthesize_eq_error_iff, Synthesizer.header_eq_error_iff,
      Synthesizer.exists_header_iff, Synthesizer.returnLines_eq_error_iff]
    simp only [Synthesizer.forM_emit_eq_error_iff, Synthesizer.forM_emit_eq_ok_iff]
    refine or_congr_right (and_congr_right fun _ => or_congr ?_ (and_congr_left' ?_))
    · constructor
      · rintro ⟨_, done, statement, later, chunks, lines, split, each, breaks, rfl⟩
        exact ⟨done, statement, later, chunks, lines, split, each, breaks⟩
      · rintro ⟨done, statement, later, chunks, lines, split, each, breaks⟩
        exact ⟨_, done, statement, later, chunks, lines, split, each, breaks, rfl⟩
    · constructor
      · rintro ⟨_, chunks, each, rfl⟩
        exact ⟨chunks, each⟩
      · rintro ⟨chunks, each⟩
        exact ⟨_, chunks, each, rfl⟩

end Codebox
