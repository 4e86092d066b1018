import Codebox.Proofs.Modes
import Mathlib.Data.List.Flatten

/-! # Ignored parts of a patch

Patch mode uses the first function with the main name, up to its first return. Later
functions with that name and statements after that return are not part of the patch.
They are rendered all the same before they are dropped, so a fault in them still stops
the conversion. Without such a fault they have no influence.
-/

namespace Codebox

/-! ## Leaving parts out -/

/-- A list changed from the first item on that passes a test. -/
def atFirst {α : Type} (test : α → Bool) (change : α → List α → List α) : List α → List α
  | [] => []
  | item :: rest =>
    if test item then change item rest else item :: atFirst test change rest

/-- A node with other children. -/
def Node.withChildren (children : List Node) : Node → Node
  | mk head _ => mk head children

/-- Whether a statement returns. -/
def Node.isReturn (statement : Node) : Bool :=
  statement.head.named && statement.kind = .returnStatement

/-- A block without the statements and comments after its first return. -/
def Node.untilReturn (block : Node) : Node :=
  block.withChildren (atFirst isReturn
    (fun statement rest => statement :: rest.filter (!·.head.named)) block.children)

/-- A function declaration with its body up to the first return. -/
def Node.bodyUntilReturn (node : Node) : Node :=
  node.withChildren (node.children.map fun child =>
    if child.head.role = some .body then child.untilReturn else child)

/-- The function that a child of a program declares. -/
def FunctionNode.declared? (node : Node) : Option FunctionNode :=
  if node.head.named then of? node else none

/-- Whether a child of a program declares a function with this name. -/
def Node.declaresNamed (source : Bytes) (name : String) (node : Node) : Bool :=
  (FunctionNode.declared? node).any (·.isNamed source name)

namespace Document

/-- A document changed from its first function with this name on. -/
def atMain (name : String) (change : Node → List Node → List Node) (document : Document) :
    Document :=
  ⟨document.source, document.root.withChildren
    (atFirst (Node.declaresNamed document.source name) change document.root.children)⟩

/-- A document without the later functions that have the name of an earlier one. -/
def withoutDuplicates (name : String) (document : Document) : Document :=
  document.atMain name fun node rest =>
    node :: rest.filter (!Node.declaresNamed document.source name ·)

/-- A document without the statements after the return of its first function with this
name. -/
def withoutDeadCode (name : String) (document : Document) : Document :=
  document.atMain name fun node rest => node.bodyUntilReturn :: rest

end Document

/-! ## Faults in what is left out -/

/-- The expansions of all returned arrays in a statement. -/
def Node.expansions (source : Bytes) (statement : Node) : Except Fault (List (Option Edit)) :=
  statement.returnsWithin.mapM (returnEdit source)

/-- The first returned array of a function that is not expanded stands in a statement
after a return. -/
def FunctionNode.FailsAfterReturn (source : Bytes) (function : FunctionNode) (fault : Fault) :
    Prop :=
  ∃ before statement between dead after,
    function.body.children = before ++ statement :: (between ++ dead :: after) ∧
    statement.isReturn ∧ dead.head.named ∧
    (∀ child ∈ before ++ statement :: between, ∃ edits, child.expansions source = .ok edits) ∧
    dead.expansions source = .error fault

namespace Document

/-- The first function that is not rendered has the main name, and so has an earlier
one. -/
def FailsInDuplicate (document : Document) (options : Options) (fault : Fault) : Prop :=
  ∃ before function after,
    FunctionNode.topLevel document.root = before ++ function :: after ∧
    (∀ earlier ∈ before, ∃ text, (earlier.render document.source options).outcome = .ok text) ∧
    (∃ main ∈ before, main.isNamed document.source options.mainName) ∧
    function.isNamed document.source options.mainName ∧
    (function.render document.source options).outcome = .error fault

/-- The first function that is not rendered is the first one with the main name, and it
fails after its return. -/
def FailsInDeadCode (document : Document) (options : Options) (fault : Fault) : Prop :=
  ∃ before main after,
    FunctionNode.topLevel document.root = before ++ main :: after ∧
    (∀ earlier ∈ before, (∃ text, (earlier.render document.source options).outcome = .ok text) ∧
      earlier.isNamed document.source options.mainName = false) ∧
    main.isNamed document.source options.mainName ∧
    (∃ parameters, main.readParameters document.source options = .ok parameters) ∧
    main.FailsAfterReturn document.source fault

end Document

/-! ## Lists -/

section AtFirst

variable {α : Type} {test : α → Bool} {change : α → List α → List α} {before after : List α}
  {item : α}

/-- Nothing is changed where nothing is found. -/
theorem atFirst_of_none {items : List α} (absent : ∀ item ∈ items, test item = false) :
    atFirst test change items = items := by
  induction items with
  | nil => rfl
  | cons first rest ih =>
      obtain ⟨here, absent⟩ := List.forall_mem_cons.mp absent
      simp [atFirst, here, ih absent]

/-- The first item that is found is changed, with what follows it. -/
theorem atFirst_append_cons (absent : ∀ other ∈ before, test other = false)
    (found : test item = true) :
    atFirst test change (before ++ item :: after) = before ++ change item after := by
  induction before with
  | nil => simp [atFirst, found]
  | cons first rest ih =>
      obtain ⟨here, absent⟩ := List.forall_mem_cons.mp absent
      simp [atFirst, here, ih absent]

/-- No item passes a test, or there is a first one that does. -/
theorem none_or_first (test : α → Bool) (items : List α) :
    (∀ item ∈ items, test item = false) ∨ ∃ before item after,
      items = before ++ item :: after ∧ (∀ other ∈ before, test other = false) ∧
        test item = true := by
  cases found : items.find? test with
  | none => exact .inl (by simpa using found)
  | some item =>
      obtain ⟨passes, before, after, split, absent⟩ := List.find?_eq_some_iff_append.mp found
      exact .inr ⟨before, item, after, split, by simpa using absent, passes⟩

end AtFirst

/-! ## Bodies up to the return -/

namespace Node

@[simp] theorem head_withChildren (children : List Node) (node : Node) :
    (node.withChildren children).head = node.head := by
  cases node
  rfl

@[simp] theorem children_withChildren (children : List Node) (node : Node) :
    (node.withChildren children).children = children := by
  cases node
  rfl

@[simp] theorem head_untilReturn (block : Node) : block.untilReturn.head = block.head :=
  head_withChildren _ _

/-- A block that is cut off at its return keeps its kind. -/
theorem kind_untilReturn (block : Node) : block.untilReturn.kind = block.kind :=
  congrArg Head.kind block.head_untilReturn

/-- A block that is cut off at its return keeps its span. -/
theorem span_untilReturn (block : Node) : block.untilReturn.span = block.span :=
  congrArg Head.span block.head_untilReturn

/-- A block is kept as it is, or what follows its first return is dropped. -/
theorem untilReturn_cases (block : Node) :
    block.untilReturn.children = block.children ∨
    ∃ before statement after, block.children = before ++ statement :: after ∧
      (∀ child ∈ before, child.isReturn = false) ∧ statement.isReturn ∧
      block.untilReturn.children =
        before ++ statement :: after.filter (!·.head.named) := by
  unfold untilReturn
  rw [children_withChildren]
  rcases none_or_first isReturn block.children with
    absent | ⟨before, statement, after, split, absent, returns⟩
  · exact .inl (atFirst_of_none absent)
  · refine .inr ⟨before, statement, after, split, absent, returns, ?_⟩
    rw [split, atFirst_append_cons absent returns]

/-- Cutting a block off at its return only leaves children out. -/
theorem untilReturn_sublist (block : Node) :
    block.untilReturn.children.Sublist block.children := by
  rcases block.untilReturn_cases with same | ⟨before, statement, after, split, -, -, same⟩
  · rw [same]
  · rw [same, split]
    exact (List.Sublist.refl _).append (List.filter_sublist.cons_cons statement)

/-- The edits of what is left are among those of the whole block. -/
theorem editsOf_untilReturn (source : Bytes) (block : Node) :
    (editsOf source block.untilReturn.walk).Sublist (editsOf source block.walk) := by
  rw [walk_eq_listings, walk_eq_listings, listings_eq_flatMap, listings_eq_flatMap]
  exact (block.untilReturn_sublist.flatMap listing).filterMap _

/-- The returned arrays of a block are expanded statement by statement. -/
theorem returnEdits_eq_expansions (source : Bytes) (block : Node) :
    returnEdits source block = block.children.mapM (expansions source) >>= fun found =>
      .ok (found.flatten.filterMap id) := by
  unfold returnEdits
  rw [returnsOf_eq_flatMap, Outcome.mapM_flatMap, bind_assoc]
  rfl

/-- Statements before the first return, and that return, are the same in what is left. -/
theorem statements_untilReturn (block : Node) :
    block.untilReturn.namedChildren.takeWhile (·.kind ≠ .returnStatement) =
        block.namedChildren.takeWhile (·.kind ≠ .returnStatement) ∧
      (block.untilReturn.namedChildren.dropWhile (·.kind ≠ .returnStatement)).head? =
        (block.namedChildren.dropWhile (·.kind ≠ .returnStatement)).head? := by
  unfold namedChildren
  rcases block.untilReturn_cases with
    same | ⟨before, statement, after, split, absent, returns, same⟩
  · rw [same]
    exact ⟨rfl, rfl⟩
  · obtain ⟨named, kind⟩ : statement.head.named ∧ statement.kind = .returnStatement := by
      simpa [isReturn] using returns
    have ahead : ∀ child ∈ before.filter (·.head.named),
        decide (child.kind ≠ .returnStatement) = true := by
      intro child member
      obtain ⟨among, shown⟩ := List.mem_filter.mp member
      simpa [isReturn, shown] using absent child among
    rw [same, split, List.filter_append, List.filter_append,
      List.filter_cons_of_pos (by simpa using named),
      List.filter_cons_of_pos (by simpa using named), List.takeWhile_append_of_pos ahead,
      List.takeWhile_append_of_pos ahead, List.dropWhile_append_of_pos ahead,
      List.dropWhile_append_of_pos ahead]
    simp [kind]

end Node

/-! ## Functions up to the return -/

namespace FunctionNode

variable {source : Bytes} {options : Options} {function : FunctionNode} {node : Node}

/-- A function with its body up to the first return. -/
def untilReturn (function : FunctionNode) : FunctionNode :=
  ⟨function.node.bodyUntilReturn, function.name, function.parameters, function.body.untilReturn⟩

/-- A function that is cut off at its return has its children, with another body. -/
theorem child?_bodyUntilReturn (node : Node) (role : Role) :
    node.bodyUntilReturn.child? role = (node.child? role).map fun child =>
      if child.head.role = some .body then child.untilReturn else child := by
  unfold Node.child? Node.bodyUntilReturn
  rw [Node.children_withChildren, List.find?_map]
  congr 2
  funext child
  by_cases body : child.head.role = some .body <;> simp [body]

/-- A function that is cut off at its return is read as such. -/
theorem of?_bodyUntilReturn (found : of? node = some function) :
    of? node.bodyUntilReturn = some function.untilReturn := by
  obtain ⟨rfl, kind, name, parameters, body⟩ := of?_eq_some found
  have kept : function.node.bodyUntilReturn.kind = .functionDeclaration := by
    rw [← kind]
    exact congrArg Head.kind (Node.head_withChildren _ _)
  have roles : function.name.head.role = some .name ∧
      function.parameters.head.role = some .parameters ∧
        function.body.head.role = some .body :=
    ⟨by simpa using List.find?_some name, by simpa using List.find?_some parameters,
      by simpa using List.find?_some body⟩
  unfold of?
  rw [if_pos kept, child?_bodyUntilReturn, child?_bodyUntilReturn, child?_bodyUntilReturn, name,
    parameters, body]
  simp [roles, untilReturn]

/-- Cutting off leaves the inside of a body in its place. -/
theorem inside_untilReturn (function : FunctionNode) :
    function.untilReturn.inside = function.inside := by
  unfold inside
  rw [untilReturn, Node.span_untilReturn]

/-- A well-laid function stays orderly when it is cut off at its return. -/
theorem Sound.orderly_untilReturn (sound : function.Sound source) :
    function.untilReturn.Orderly source := by
  obtain ⟨parts, enclosed⟩ := sound.braces
  have whole := sound.orderly
  refine ⟨sound.nameText, ?_, ?_, keywordEdit?_eq_none ?_, ?_⟩
  · rw [inside_untilReturn]
    exact whole.starts
  · rw [inside_untilReturn]
    exact whole.most
  · rw [untilReturn, Node.kind_untilReturn, enclosed.kind]
    rfl
  · rw [inside_untilReturn]
    exact whole.edits.sublist (Node.editsOf_untilReturn source function.body)

/-- Unless a returned array after the return is at fault, leaving out what follows the
return does not matter for how the returned arrays are expanded. -/
theorem returnEdits_untilReturn (harmless : ∀ fault, ¬ function.FailsAfterReturn source fault) :
    Outcome.FailsAs (returnEdits source function.body)
      (returnEdits source function.untilReturn.body) := by
  rw [Node.returnEdits_eq_expansions, Node.returnEdits_eq_expansions]
  refine .bind ?_ fun _ _ _ _ => .ok _ _
  change Outcome.FailsAs _ (function.body.untilReturn.children.mapM _)
  rcases function.body.untilReturn_cases with
    same | ⟨before, statement, after, split, -, returns, same⟩
  · rw [same]
    exact .refl _
  · -- Up to the return nothing is left out, so only what follows it is compared.
    rw [same, split, Outcome.mapM_append_cons, Outcome.mapM_append_cons]
    refine .bind (.refl _) fun ahead _ earlier _ => .bind (.refl _) fun edits _ here _ => ?_
    refine .bind (.mapM_filter ?_) fun _ _ _ _ => .ok _ _
    intro between dead rest fault divided expanded named failed
    apply harmless fault
    refine ⟨before, statement, between, dead, rest, by rw [split, divided], returns,
      by simpa using named, ?_, failed⟩
    intro child member
    rcases List.mem_append.mp member with member | member
    · exact Outcome.exists_mapM_iff.mp ⟨ahead, earlier⟩ child member
    · rcases List.mem_cons.mp member with rfl | member
      · exact ⟨edits, here⟩
      · exact expanded child member

/-- Where nothing fails after the return, a body is rendered, or fails, as the one cut off there. -/
theorem Sound.renderBody_untilReturn (sound : function.Sound source)
    (harmless : ∀ fault, ¬ function.FailsAfterReturn source fault) :
    Outcome.FailsAs (function.renderBody source).outcome
      (function.untilReturn.renderBody source).outcome := by
  rw [sound.orderly.renderBody_outcome, sound.orderly_untilReturn.renderBody_outcome]
  refine .bind (returnEdits_untilReturn harmless) fun _ _ _ _ fault => ?_
  rw [sound.orderly.decode_eq_error_iff, sound.orderly_untilReturn.decode_eq_error_iff, Severed,
    Severed, inside_untilReturn]

/-- Where nothing fails after the return, a function is declared, or fails, as the one cut off
there. -/
theorem Sound.declaration_untilReturn (sound : function.Sound source)
    (harmless : (∃ parameters, function.readParameters source options = .ok parameters) →
      ∀ fault, ¬ function.FailsAfterReturn source fault) :
    Outcome.FailsAs (function.declaration source options).outcome
      (function.untilReturn.declaration source options).outcome := by
  obtain ⟨name, named⟩ := sound.nameText
  rw [function.declaration_outcome options named,
    function.untilReturn.declaration_outcome options named]
  refine .bind (.refl _) fun parameters _ read _ => ?_
  exact .bind (sound.renderBody_untilReturn (harmless ⟨parameters, read⟩)) fun _ _ _ _ => .ok _ _

/-- What follows the return is no part of the patch. -/
theorem patch_untilReturn (source : Bytes) (options : Options) (function : FunctionNode) :
    function.untilReturn.patch source options = function.patch source options := by
  obtain ⟨statements, first⟩ := function.body.statements_untilReturn
  have before : Synthesizer.before { source, function := function.untilReturn, options } =
      Synthesizer.before { source, function, options } := statements
  have returned : Synthesizer.firstReturn? { source, function := function.untilReturn, options } =
      Synthesizer.firstReturn? { source, function, options } := first
  unfold patch
  rw [Synthesizer.synthesize_outcome, Synthesizer.synthesize_outcome, before, returned]
  rfl

end FunctionNode

/-! ## Documents -/

namespace Document

variable {document : Document} {options : Options}

/-- A function with its declaration. -/
def declare (source : Bytes) (options : Options) (function : FunctionNode) :
    Except Fault (FunctionNode × Declaration) :=
  (function.declaration source options).outcome >>= fun declaration => .ok (function, declaration)

/-- What patch mode makes of functions with their declarations. -/
def assemble (source : Bytes) (options : Options)
    (collected : List (FunctionNode × Declaration)) : Except Fault String :=
  (patchSection source options (collected.filter (·.2.isMain))).outcome >>= fun patch =>
    .ok (Text.joined "\n\n" ((collected.filter (!·.2.isMain)).map (·.2.text) ++ patch))

section Declare

variable {source : Bytes} {function : FunctionNode} {functions : List FunctionNode}
  {pair : FunctionNode × Declaration} {pairs : List (FunctionNode × Declaration)}

/-- A function can be declared exactly if it can be rendered. -/
theorem exists_declare_iff : (∃ pair, declare source options function = .ok pair) ↔
    ∃ text, (function.render source options).outcome = .ok text := by
  rw [FunctionNode.exists_render_iff]
  simp [declare, Outcome.bind_eq_ok_iff]

/-- A function fails to be declared as it fails to be rendered. -/
theorem declare_eq_error_iff {fault : Fault} : declare source options function = .error fault ↔
    (function.render source options).outcome = .error fault := by
  rw [FunctionNode.render_outcome]
  simp [declare, Outcome.bind_eq_error_iff]

/-- A declaration comes with its function. -/
theorem fst_of_declare (declared : declare source options function = .ok pair) :
    pair.1 = function := by
  obtain ⟨declaration, -, same⟩ := Outcome.bind_eq_ok_iff.mp declared
  cases same
  rfl

/-- A declaration is the main one exactly if the function has that name. -/
theorem isMain_of_declare (readable : ∃ name, function.nameText source = .ok name)
    (declared : declare source options function = .ok pair) :
    pair.2.isMain = function.isNamed source options.mainName := by
  obtain ⟨declaration, found, same⟩ := Outcome.bind_eq_ok_iff.mp declared
  cases same
  exact isMain_eq_isNamed readable found

/-- Of all declarations, the main ones are those of functions with that name. -/
theorem isMain_of_mapM (readable : ∀ function ∈ functions, ∃ name,
      function.nameText source = .ok name)
    (declared : functions.mapM (declare source options) = .ok pairs) :
    ∀ pair ∈ pairs, pair.1 ∈ functions ∧
      pair.2.isMain = pair.1.isNamed source options.mainName := by
  intro pair member
  obtain ⟨function, among, found⟩ := Outcome.exists_source_of_mapM declared member
  rw [fst_of_declare found]
  exact ⟨among, isMain_of_declare (readable function among) found⟩

/-- Declarations are the same whether or not other functions are left out. -/
theorem declare_filter (keep : FunctionNode → Bool)
    (declared : functions.mapM (declare source options) = .ok pairs) :
    (functions.filter keep).mapM (declare source options) = .ok (pairs.filter (keep ·.1)) := by
  rw [Outcome.mapM_eq_ok_iff] at declared ⊢
  induction declared with
  | nil => exact .nil
  | @cons function pair _ _ here _ ih =>
      have same := fst_of_declare here
      by_cases kept : keep function
      · rw [List.filter_cons_of_pos kept, List.filter_cons_of_pos (by rwa [same])]
        exact .cons here ih
      · rw [List.filter_cons_of_neg kept, List.filter_cons_of_neg (by rwa [same])]
        exact ih

/-- The first main function makes the patch, and later ones do not count. -/
theorem assemble_of_main {before after : List (FunctionNode × Declaration)}
    (absent : ∀ other ∈ before, other.2.isMain = false) (main : pair.2.isMain) :
    assemble source options (before ++ pair :: after) =
      pair.1.patch source options >>= fun patch => .ok (Text.joined "\n\n"
        (before.map (·.2.text) ++ (after.filter (!·.2.isMain)).map (·.2.text) ++
          patchSections patch)) := by
  have mains : (before ++ pair :: after).filter (·.2.isMain) =
      pair :: after.filter (·.2.isMain) := by
    rw [List.filter_append, List.filter_eq_nil_iff.mpr (by simpa using absent),
      List.filter_cons_of_pos (by simpa using main), List.nil_append]
  have others : (before ++ pair :: after).filter (!·.2.isMain) =
      before ++ after.filter (!·.2.isMain) := by
    rw [List.filter_append, List.filter_eq_self.mpr (by simpa using absent),
      List.filter_cons_of_neg (by simpa using main)]
  unfold assemble
  rw [mains, others, List.map_append, patchSection_of_some rfl]
  cases pair.1.patch source options with
  | error fault => rfl
  | ok patch => rfl

end Declare

/-- Patch mode treats the functions before one, that function, and those after it. -/
theorem convertToPatch_of_split {source : Bytes} {before after : List FunctionNode}
    {main : FunctionNode} (bytes : document.source = source)
    (noted : document.noteExports.outcome = .ok ())
    (split : FunctionNode.topLevel document.root = before ++ main :: after) :
    (document.convertToPatch options).outcome =
      before.mapM (declare source options) >>= fun ahead => declare source options main >>=
        fun pair => after.mapM (declare source options) >>= fun behind =>
          assemble source options (ahead ++ pair :: behind) := by
  subst bytes
  have gathered : (document.collect options).outcome =
      (before ++ main :: after).mapM (declare document.source options) := by
    rw [collect_of_noted noted, split]
    rfl
  have assembled : (document.convertToPatch options).outcome =
      (document.collect options).outcome >>= assemble document.source options := by
    unfold convertToPatch
    simp only [Run.outcome_bind, noteDuplicates_outcome, Outcome.bind_ok]
    rfl
  rw [assembled, gathered, Outcome.mapM_append_cons]
  simp only [bind_assoc, Outcome.bind_ok]

/-! ### The first main function -/

/-- The first child of a program that declares a function with this name, and what lies
around it. -/
structure HasMain (document : Document) (name : String) (before : List Node) (node : Node)
    (main : FunctionNode) (after : List Node) : Prop where
  children : document.root.children = before ++ node :: after
  absent : ∀ other ∈ before, other.declaresNamed document.source name = false
  declared : FunctionNode.declared? node = some main
  named : main.isNamed document.source name

/-- A document declares no function of a name, or has a first one. -/
theorem none_or_main (document : Document) (name : String) :
    (∀ node ∈ document.root.children, node.declaresNamed document.source name = false) ∨
      ∃ before node main after, document.HasMain name before node main after := by
  rcases none_or_first (Node.declaresNamed document.source name) document.root.children with
    absent | ⟨before, node, after, split, absent, found⟩
  · exact .inl absent
  · obtain ⟨main, declared, named⟩ := (Option.any_eq_true _ _).mp found
    exact .inr ⟨before, node, main, after, split, absent, declared, named⟩

/-- The functions at the top level are those that its nodes declare. -/
theorem topLevel_eq (root : Node) :
    FunctionNode.topLevel root = root.children.filterMap FunctionNode.declared? := by
  unfold FunctionNode.topLevel Node.namedChildren
  rw [List.filterMap_filter]
  rfl

/-- Leaving functions out changes nothing in the text. -/
theorem source_withoutDuplicates (name : String) :
    (document.withoutDuplicates name).source = document.source := rfl

/-- Cutting a function off changes nothing in the text. -/
theorem source_withoutDeadCode (name : String) :
    (document.withoutDeadCode name).source = document.source := rfl

/-- Without a function of that name nothing is changed. -/
theorem atMain_of_none {name : String} {change : Node → List Node → List Node}
    (absent : ∀ node ∈ document.root.children,
      node.declaresNamed document.source name = false) :
    document.atMain name change = document := by
  obtain ⟨source, ⟨head, children⟩⟩ := document
  unfold atMain
  rw [atFirst_of_none absent]
  rfl

/-- Leaving out the nodes that declare a name leaves out the functions of that name. -/
theorem filterMap_declared?_filter (source : Bytes) (name : String) (nodes : List Node) :
    (nodes.filter (!Node.declaresNamed source name ·)).filterMap FunctionNode.declared? =
      (nodes.filterMap FunctionNode.declared?).filter (!·.isNamed source name) := by
  rw [List.filterMap_filter, List.filter_filterMap]
  congr 1
  funext node
  unfold Node.declaresNamed
  cases FunctionNode.declared? node with
  | none => simp
  | some function => simp [Option.filter]

/-- The exported functions are those that named nodes of the top level export. -/
theorem mem_exported_iff {root : Node} {function : FunctionNode} :
    function ∈ FunctionNode.exported root ↔ ∃ node ∈ root.children,
      node.head.named ∧ FunctionNode.exported? node = some function := by
  simp [FunctionNode.exported, Node.namedChildren, and_assoc]

namespace HasMain

variable {name : String} {before after : List Node} {node : Node} {main : FunctionNode}
  {change : Node → List Node → List Node}

/-- The functions of a document around its main one. -/
theorem functions (hasMain : document.HasMain name before node main after) :
    FunctionNode.topLevel document.root = before.filterMap FunctionNode.declared? ++
      main :: after.filterMap FunctionNode.declared? := by
  rw [topLevel_eq, hasMain.children, List.filterMap_append,
    List.filterMap_cons_some hasMain.declared]

/-- No function before the main one has its name. -/
theorem unnamed (hasMain : document.HasMain name before node main after) :
    ∀ function ∈ before.filterMap FunctionNode.declared?,
      function.isNamed document.source name = false := by
  intro function member
  obtain ⟨other, among, declared⟩ := List.mem_filterMap.mp member
  simpa [Node.declaresNamed, declared] using hasMain.absent other among

/-- The node of the main function is a named one and is read as that function. -/
theorem of?_eq (hasMain : document.HasMain name before node main after) :
    node.head.named ∧ FunctionNode.of? node = some main := by
  have declared := hasMain.declared
  unfold FunctionNode.declared? at declared
  split at declared
  next named => exact ⟨named, declared⟩
  next => cases declared

/-- A change at the main function leaves what comes before it. -/
theorem children_atMain (hasMain : document.HasMain name before node main after) :
    (document.atMain name change).root.children = before ++ change node after := by
  have found : node.declaresNamed document.source name = true := by
    simp [Node.declaresNamed, hasMain.declared, hasMain.named]
  unfold atMain
  rw [Node.children_withChildren, hasMain.children, atFirst_append_cons hasMain.absent found]

/-- Exported functions are noted without a fault in the changed document too, if the
change only leaves parts out or brings in function declarations. -/
theorem noted_atMain (hasMain : document.HasMain name before node main after)
    (sound : document.Sound)
    (kept : ∀ child ∈ change node after,
      child ∈ node :: after ∨ child.kind = .functionDeclaration) :
    (document.atMain name change).noteExports.outcome = .ok () := by
  apply noteExports_of_named
  intro function member
  obtain ⟨child, among, named, exported⟩ := mem_exported_iff.mp member
  rw [hasMain.children_atMain] at among
  have there : child ∈ document.root.children := by
    rw [hasMain.children]
    rcases List.mem_append.mp among with among | among
    · exact List.mem_append_left _ among
    · rcases kept child among with among | kind
      · exact List.mem_append_right before among
      · simp [FunctionNode.exported?, kind] at exported
  exact (FunctionNode.sound_exported sound
    (mem_exported_iff.mpr ⟨child, there, named, exported⟩)).nameText

/-- Without duplicates, the functions after the main one have other names. -/
theorem functions_withoutDuplicates (hasMain : document.HasMain name before node main after) :
    FunctionNode.topLevel (document.withoutDuplicates name).root =
      before.filterMap FunctionNode.declared? ++
        main :: (after.filterMap FunctionNode.declared?).filter
          (!·.isNamed document.source name) := by
  rw [topLevel_eq, withoutDuplicates, hasMain.children_atMain, List.filterMap_append,
    List.filterMap_cons_some hasMain.declared, filterMap_declared?_filter]

/-- Without dead code, the main function is cut off at its return. -/
theorem functions_withoutDeadCode (hasMain : document.HasMain name before node main after) :
    FunctionNode.topLevel (document.withoutDeadCode name).root =
      before.filterMap FunctionNode.declared? ++
        main.untilReturn :: after.filterMap FunctionNode.declared? := by
  obtain ⟨named, found⟩ := hasMain.of?_eq
  have declared : FunctionNode.declared? node.bodyUntilReturn = some main.untilReturn := by
    unfold FunctionNode.declared? Node.bodyUntilReturn
    rw [Node.head_withChildren, if_pos named]
    exact FunctionNode.of?_bodyUntilReturn found
  rw [topLevel_eq, withoutDeadCode, hasMain.children_atMain, List.filterMap_append,
    List.filterMap_cons_some declared]

end HasMain

/-! ### Leaving parts out -/

section Harmless

variable {before after : List Node} {node : Node} {main : FunctionNode}

/-- The functions around the main one are well laid. -/
theorem HasMain.sound_of_mem
    (hasMain : document.HasMain options.mainName before node main after)
    (sound : document.Sound) {function : FunctionNode}
    (member : function ∈ before.filterMap FunctionNode.declared? ++
      main :: after.filterMap FunctionNode.declared?) : function.Sound document.source := by
  apply FunctionNode.sound_topLevel sound
  rwa [hasMain.functions]

/-- The main function is well laid. -/
theorem HasMain.sound_main (hasMain : document.HasMain options.mainName before node main after)
    (sound : document.Sound) : main.Sound document.source :=
  hasMain.sound_of_mem sound (List.mem_append_right _ List.mem_cons_self)

/-- No function before the main one is taken for it. -/
theorem HasMain.isMain_ahead (hasMain : document.HasMain options.mainName before node main after)
    (sound : document.Sound) {pairs : List (FunctionNode × Declaration)}
    (declared : (before.filterMap FunctionNode.declared?).mapM
      (declare document.source options) = .ok pairs) :
    ∀ pair ∈ pairs, pair.2.isMain = false := by
  intro pair member
  have readable : ∀ function ∈ before.filterMap FunctionNode.declared?,
      ∃ name, function.nameText document.source = .ok name := fun function among =>
    (hasMain.sound_of_mem sound (List.mem_append_left _ among)).nameText
  obtain ⟨among, same⟩ := isMain_of_mapM readable declared pair member
  rw [same, hasMain.unnamed pair.1 among]

/-- A later function is taken for the main one exactly if it has the name. -/
theorem HasMain.filter_behind
    (hasMain : document.HasMain options.mainName before node main after)
    (sound : document.Sound) {pairs : List (FunctionNode × Declaration)}
    (declared : (after.filterMap FunctionNode.declared?).mapM
      (declare document.source options) = .ok pairs) :
    (pairs.filter (!·.1.isNamed document.source options.mainName)).filter (!·.2.isMain) =
      pairs.filter (!·.2.isMain) := by
  have readable : ∀ function ∈ after.filterMap FunctionNode.declared?,
      ∃ name, function.nameText document.source = .ok name := fun function among =>
    (hasMain.sound_of_mem sound
      (List.mem_append_right _ (List.mem_cons_of_mem main among))).nameText
  rw [List.filter_filter]
  apply List.filter_congr
  intro pair member
  rw [(isMain_of_mapM readable declared pair member).2, Bool.and_self]

/-- Once the main function is rendered, no later function with its name is the first that
fails. -/
theorem HasMain.harmless_duplicates
    (hasMain : document.HasMain options.mainName before node main after)
    (harmless : ∀ fault, ¬ document.FailsInDuplicate options fault)
    {pairs : List (FunctionNode × Declaration)} {pair : FunctionNode × Declaration}
    (ahead : (before.filterMap FunctionNode.declared?).mapM
      (declare document.source options) = .ok pairs)
    (here : declare document.source options main = .ok pair) :
    ∀ earlier function later fault,
      after.filterMap FunctionNode.declared? = earlier ++ function :: later →
      (∀ other ∈ earlier, ∃ result, declare document.source options other = .ok result) →
      (!function.isNamed document.source options.mainName) = false →
        declare document.source options function ≠ .error fault := by
  intro earlier function later fault split succeeded named failed
  apply harmless fault
  refine ⟨before.filterMap FunctionNode.declared? ++ main :: earlier, function, later, ?_, ?_,
    ⟨main, by simp, hasMain.named⟩, by simpa using named, declare_eq_error_iff.mp failed⟩
  · rw [hasMain.functions, split]
    simp
  · intro other member
    apply exists_declare_iff.mp
    rcases List.mem_append.mp member with member | member
    · exact Outcome.exists_mapM_iff.mp ⟨pairs, ahead⟩ other member
    · rcases List.mem_cons.mp member with rfl | member
      · exact ⟨pair, here⟩
      · exact succeeded other member

/-- Later functions with the main name have no influence unless one of them is the first
function that fails. -/
theorem HasMain.withoutDuplicates_outcome
    (hasMain : document.HasMain options.mainName before node main after)
    (sound : document.Sound) (harmless : ∀ fault, ¬ document.FailsInDuplicate options fault) :
    ((document.withoutDuplicates options.mainName).convertToPatch options).outcome =
      (document.convertToPatch options).outcome := by
  have noted : (document.withoutDuplicates options.mainName).noteExports.outcome = .ok () := by
    apply hasMain.noted_atMain sound
    intro child member
    exact .inl ((List.filter_sublist.cons_cons node).subset member)
  rw [convertToPatch_of_split (source_withoutDuplicates _) noted
      hasMain.functions_withoutDuplicates,
    convertToPatch_of_split rfl (noteExports_outcome sound) hasMain.functions]
  cases ahead : (before.filterMap FunctionNode.declared?).mapM
      (declare document.source options) with
  | error fault => rfl
  | ok pairs =>
      cases here : declare document.source options main with
      | error fault => rfl
      | ok pair =>
          -- The functions up to the main one are the same, so only the later ones are compared.
          rw [Outcome.bind_ok, Outcome.bind_ok, Outcome.bind_ok, Outcome.bind_ok]
          have plain := hasMain.isMain_ahead sound ahead
          have isMain : pair.2.isMain = true := by
            rw [isMain_of_declare (hasMain.sound_main sound).nameText here, hasMain.named]
          cases behind : (after.filterMap FunctionNode.declared?).mapM
              (declare document.source options) with
          | error fault =>
              have same := Outcome.FailsAs.mapM_filter
                (hasMain.harmless_duplicates harmless ahead here)
              rw [(same fault).mp behind]
          | ok others =>
              rw [declare_filter _ behind, Outcome.bind_ok, Outcome.bind_ok,
                assemble_of_main plain isMain, assemble_of_main plain isMain,
                hasMain.filter_behind sound behind]

/-- What follows the return of the main function has no influence unless it holds the
first fault. -/
theorem HasMain.withoutDeadCode_outcome
    (hasMain : document.HasMain options.mainName before node main after)
    (sound : document.Sound) (harmless : ∀ fault, ¬ document.FailsInDeadCode options fault) :
    ((document.withoutDeadCode options.mainName).convertToPatch options).outcome =
      (document.convertToPatch options).outcome := by
  have noted : (document.withoutDeadCode options.mainName).noteExports.outcome = .ok () := by
    apply hasMain.noted_atMain sound
    intro child member
    rcases List.mem_cons.mp member with rfl | member
    · have kind := (FunctionNode.of?_eq_some hasMain.of?_eq.2).2.1
      exact .inr ((congrArg Head.kind (Node.head_withChildren _ _)).trans kind)
    · exact .inl (List.mem_cons_of_mem node member)
  rw [convertToPatch_of_split (source_withoutDeadCode _) noted
      hasMain.functions_withoutDeadCode,
    convertToPatch_of_split rfl (noteExports_outcome sound) hasMain.functions]
  have soundMain := hasMain.sound_main sound
  cases ahead : (before.filterMap FunctionNode.declared?).mapM
      (declare document.source options) with
  | error fault => rfl
  | ok pairs =>
      have plain := hasMain.isMain_ahead sound ahead
      -- The main function fails alike with its whole body and with what is left of it.
      have same : Outcome.FailsAs (declare document.source options main)
          (declare document.source options main.untilReturn) := by
        refine .bind (soundMain.declaration_untilReturn ?_) fun _ _ _ _ => .ok _ _
        intro read fault failed
        apply harmless fault
        refine ⟨_, main, _, hasMain.functions, ?_, hasMain.named, read, failed⟩
        intro earlier member
        refine ⟨exists_declare_iff.mp ?_, hasMain.unnamed earlier member⟩
        exact Outcome.exists_mapM_iff.mp ⟨pairs, ahead⟩ earlier member
      rw [Outcome.bind_ok, Outcome.bind_ok]
      cases here : declare document.source options main with
      | error fault => rw [(same fault).mp here, Outcome.bind_error]
      | ok pair =>
          obtain ⟨shorter, hereShorter⟩ := same.exists_ok here
          have isMain : pair.2.isMain = true := by
            rw [isMain_of_declare soundMain.nameText here, hasMain.named]
          have isMainShorter : shorter.2.isMain = true := by
            rw [isMain_of_declare soundMain.orderly_untilReturn.named hereShorter]
            exact hasMain.named
          rw [hereShorter, Outcome.bind_ok, Outcome.bind_ok]
          refine congrArg _ (funext fun behind => ?_)
          rw [assemble_of_main plain isMain, assemble_of_main plain isMainShorter,
            fst_of_declare here, fst_of_declare hereShorter, FunctionNode.patch_untilReturn]

end Harmless

/-! ### Faults in what is left out -/

/-- A patch fails at the first function that cannot be rendered. -/
theorem convertToPatch_of_render_error (sound : document.Sound) {before after : List FunctionNode}
    {function : FunctionNode} {fault : Fault}
    (split : FunctionNode.topLevel document.root = before ++ function :: after)
    (rendered : ∀ earlier ∈ before,
      ∃ text, (earlier.render document.source options).outcome = .ok text)
    (failed : (function.render document.source options).outcome = .error fault) :
    (document.convertToPatch options).outcome = .error fault :=
  convertToPatch_of_error
    ((convert_eq_error_iff sound).mp (convert_of_error sound split rendered failed))

end Document

/-- A fault after the return keeps the function from being rendered. -/
theorem FunctionNode.Sound.render_of_failsAfterReturn {source : Bytes} {options : Options}
    {function : FunctionNode} {fault : Fault} {parameters : List Parameter}
    (sound : function.Sound source)
    (read : function.readParameters source options = .ok parameters)
    (failed : function.FailsAfterReturn source fault) :
    (function.render source options).outcome = .error fault := by
  obtain ⟨before, statement, between, dead, after, split, -, -, expanded, failed⟩ := failed
  obtain ⟨name, named⟩ := sound.nameText
  have found : function.body.children.mapM (Node.expansions source) = .error fault := by
    apply Outcome.mapM_eq_error_iff.mpr
    exact ⟨before ++ statement :: between, dead, after, by simp [split], expanded, failed⟩
  rw [function.render_outcome, function.declaration_outcome options named,
    sound.orderly.renderBody_outcome, Node.returnEdits_eq_expansions, read, found]
  rfl

/-- **Ignored parts of a well-laid document.** Leaving out the later functions with the main
name changes nothing, unless one of them is the first function that fails, whose fault is then
that of the conversion. Leaving out what follows the return of the first function with
that name changes nothing either, unless the first fault of the conversion is there. -/
theorem Document.convertToPatch_leaves_out {document : Document} (sound : document.Sound)
    (options : Options) :
    let outcome := (document.convertToPatch options).outcome
    (∀ fault, document.FailsInDuplicate options fault → outcome = .error fault) ∧
    ((∀ fault, ¬ document.FailsInDuplicate options fault) →
      ((document.withoutDuplicates options.mainName).convertToPatch options).outcome = outcome) ∧
    (∀ fault, document.FailsInDeadCode options fault → outcome = .error fault) ∧
    ((∀ fault, ¬ document.FailsInDeadCode options fault) →
      ((document.withoutDeadCode options.mainName).convertToPatch options).outcome = outcome) := by
  refine ⟨?_, ?_, ?_, ?_⟩
  · rintro fault ⟨before, function, after, split, rendered, -, -, failed⟩
    exact convertToPatch_of_render_error sound split rendered failed
  · intro harmless
    rcases document.none_or_main options.mainName with absent | ⟨_, _, _, _, hasMain⟩
    · rw [withoutDuplicates, atMain_of_none absent]
    · exact hasMain.withoutDuplicates_outcome sound harmless
  · rintro fault ⟨before, main, after, split, rendered, -, ⟨parameters, read⟩, failed⟩
    have member : main ∈ FunctionNode.topLevel document.root := by
      rw [split]
      exact List.mem_append_right before List.mem_cons_self
    have soundMain := FunctionNode.sound_topLevel sound member
    exact convertToPatch_of_render_error sound split
      (fun earlier member => (rendered earlier member).1)
      (soundMain.render_of_failsAfterReturn read failed)
  · intro harmless
    rcases document.none_or_main options.mainName with absent | ⟨_, _, _, _, hasMain⟩
    · rw [withoutDeadCode, atMain_of_none absent]
    · exact hasMain.withoutDeadCode_outcome sound harmless

/-- **Ignored parts of a patch.** Leaving out the later functions with the main name
changes nothing, unless one of them is the first function that fails, whose fault is then
that of the conversion. Leaving out what follows the return of the first function with
that name changes nothing either, unless the first fault of the conversion is there. -/
theorem convertToPatch_ignores {script : String} {document : Document}
    (parsed : Document.parse script = .ok document) (options : Options) :
    let chosen := options.resolve script
    let outcome := (convertToPatch script options).outcome
    (∀ fault, document.FailsInDuplicate chosen fault → outcome = .error fault) ∧
    ((∀ fault, ¬ document.FailsInDuplicate chosen fault) →
      ((document.withoutDuplicates chosen.mainName).convertToPatch chosen).outcome = outcome) ∧
    (∀ fault, document.FailsInDeadCode chosen fault → outcome = .error fault) ∧
    ((∀ fault, ¬ document.FailsInDeadCode chosen fault) →
      ((document.withoutDeadCode chosen.mainName).convertToPatch chosen).outcome = outcome) := by
  intro chosen outcome
  have same : outcome = (document.convertToPatch chosen).outcome :=
    convertToPatch_outcome options parsed
  rw [same]
  exact Document.convertToPatch_leaves_out (Document.sound_of_parse parsed) chosen

/-- A script with a second main function and a statement after the return, one with a
hole after the return, and one whose second main function is refused. -/
theorem convertToPatch_ignores_inputs :
    (∃ document, Document.parse
        "function main(a) \x7b return a; b; \x7d function main(c) \x7b\x7d" = .ok document ∧
      let chosen := ({} : Options).resolve
        "function main(a) \x7b return a; b; \x7d function main(c) \x7b\x7d"
      ((document.withoutDuplicates chosen.mainName).convertToPatch chosen).outcome =
        .ok "a = in1;\n\nout1 = a;" ∧
      ((document.withoutDeadCode chosen.mainName).convertToPatch chosen).outcome =
        .ok "a = in1;\n\nout1 = a;") ∧
    (∃ document fault, Document.parse
        "function main(a) \x7b return a; return [a, , a]; \x7d" = .ok document ∧
      document.FailsInDeadCode (({} : Options).resolve
        "function main(a) \x7b return a; return [a, , a]; \x7d") fault) ∧
    ∃ document fault, Document.parse
        "function main(a) \x7b return a; \x7d function main(...b) \x7b\x7d" = .ok document ∧
      document.FailsInDuplicate (({} : Options).resolve
        "function main(a) \x7b return a; \x7d function main(...b) \x7b\x7d") fault := by
  refine ⟨?_, ?_, ?_⟩
  · have ended : (convertToPatch
        "function main(a) \x7b return a; b; \x7d function main(c) \x7b\x7d" {}).outcome =
          .ok "a = in1;\n\nout1 = a;" := by decide +kernel
    obtain ⟨document, parsed, -⟩ :=
      Outcome.bind_eq_ok_iff.mp ((Run.outcome_bind _ _).symm.trans ended)
    obtain ⟨duplicate, unchanged, dead, unchangedDead⟩ := convertToPatch_ignores parsed {}
    refine ⟨document, parsed, (unchanged fun fault fails => ?_).trans ended,
      (unchangedDead fun fault fails => ?_).trans ended⟩
    · cases ended.symm.trans (duplicate fault fails)
    · cases ended.symm.trans (dead fault fails)
  · obtain ⟨document, parsed, changed⟩ := Outcome.exists_ok_of_any (show
      ((Document.parse "function main(a) \x7b return a; return [a, , a]; \x7d").toOption.any
        fun document =>
          let chosen := ({} : Options).resolve
            "function main(a) \x7b return a; return [a, , a]; \x7d"
          ((document.withoutDeadCode chosen.mainName).convertToPatch chosen).outcome ≠
            (document.convertToPatch chosen).outcome) = true by decide +kernel)
    obtain ⟨-, -, -, unchanged⟩ := convertToPatch_ignores parsed {}
    rw [convertToPatch_outcome {} parsed] at unchanged
    by_contra absent
    apply of_decide_eq_true changed
    exact unchanged fun fault fails => absent ⟨document, fault, parsed, fails⟩
  · obtain ⟨document, parsed, changed⟩ := Outcome.exists_ok_of_any (show
      ((Document.parse
        "function main(a) \x7b return a; \x7d function main(...b) \x7b\x7d").toOption.any
        fun document =>
          let chosen := ({} : Options).resolve
            "function main(a) \x7b return a; \x7d function main(...b) \x7b\x7d"
          ((document.withoutDuplicates chosen.mainName).convertToPatch chosen).outcome ≠
            (document.convertToPatch chosen).outcome) = true by decide +kernel)
    obtain ⟨-, unchanged, -⟩ := convertToPatch_ignores parsed {}
    rw [convertToPatch_outcome {} parsed] at unchanged
    by_contra absent
    apply of_decide_eq_true changed
    exact unchanged fun fault fails => absent ⟨document, fault, parsed, fails⟩

/-- A hole in a statement after the return stops the conversion, and so does a parameter of
a second main function. Without these parts there is a patch. -/
theorem convertToPatch_heeds_ignored :
    (∃ document, Document.parse "function main(a) \x7b return a; return [a, , a]; \x7d" =
        .ok document ∧
      (document.convertToPatch {}).outcome = .error (.unsupported .arrayHole ⟨1, 41⟩) ∧
      ((document.withoutDeadCode "main").convertToPatch {}).outcome =
        .ok "a = in1;\n\nout1 = a;") ∧
    ∃ document, Document.parse
        "function main(a) \x7b return a; \x7d function main(...b) \x7b\x7d" = .ok document ∧
      (document.convertToPatch {}).outcome =
        .error (.unsupported (.restParameter "...b") ⟨1, 46⟩) ∧
      ((document.withoutDuplicates "main").convertToPatch {}).outcome =
        .ok "a = in1;\n\nout1 = a;" := by
  constructor
  · obtain ⟨document, parsed, holds⟩ := Outcome.exists_ok_of_any (show
      ((Document.parse "function main(a) \x7b return a; return [a, , a]; \x7d").toOption.any
        fun document =>
          (document.convertToPatch {}).outcome = .error (.unsupported .arrayHole ⟨1, 41⟩) &&
          ((document.withoutDeadCode "main").convertToPatch {}).outcome =
            .ok "a = in1;\n\nout1 = a;") = true by decide +kernel)
    simp only [Bool.and_eq_true, decide_eq_true_eq] at holds
    exact ⟨document, parsed, holds⟩
  · obtain ⟨document, parsed, holds⟩ := Outcome.exists_ok_of_any (show
      ((Document.parse
          "function main(a) \x7b return a; \x7d function main(...b) \x7b\x7d").toOption.any
        fun document => (document.convertToPatch {}).outcome =
            .error (.unsupported (.restParameter "...b") ⟨1, 46⟩) &&
          ((document.withoutDuplicates "main").convertToPatch {}).outcome =
            .ok "a = in1;\n\nout1 = a;") = true by decide +kernel)
    simp only [Bool.and_eq_true, decide_eq_true_eq] at holds
    exact ⟨document, parsed, holds⟩

end Codebox
