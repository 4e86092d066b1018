import Codebox.Proofs.Direct
import Codebox.Proofs.FirstReturn
import Codebox.Proofs.Relocation

/-! # Functions in another place

A function that lies in a text is read and rendered in the same way wherever the text
stands in a longer one, and so is the patch that is made of it. What is wrong with a
function stays wrong with the same message; only the place that the fault names is
another one.
-/

namespace Codebox

variable {move : Move} {source whole : Bytes} {node : Node}

/-! ## Functions -/

/-- A function in its new place. -/
def FunctionNode.moved (move : Move) (function : FunctionNode) : FunctionNode where
  node := function.node.moved move
  name := function.name.moved move
  parameters := function.parameters.moved move
  body := function.body.moved move

theorem Node.refusal_moved {α : Type} {shown there : Except Fault String} (node : Node)
    (cause : String → Unsupported) (same : there = Outcome.moved move id shown) :
    (there >>= fun text => (.error (.unsupported (cause text) (node.moved move).location) :
        Except Fault α)) =
      Outcome.moved move id
        (shown >>= fun text => .error (.unsupported (cause text) node.location)) := by
  rw [same, location_moved]
  exact Outcome.moved_bind fun text _ => rfl

theorem refuseDestructuring_moved {α : Type} (carries : move.Carries source whole)
    (lies : node.LiesIn source) :
    (refuseDestructuring whole (node.moved move) : Except Fault α) =
      Outcome.moved move id (refuseDestructuring source node) :=
  node.refusal_moved .destructuringParameter (Node.text_moved carries lies)

theorem readParameter_moved (options : Options) (carries : move.Carries source whole)
    (lies : node.LiesIn source) :
    readParameter whole options (node.moved move) =
      Outcome.moved move id (readParameter source options node) := by
  have refused : (refuseDestructuring whole (node.moved move) : Except Fault Parameter) = _ :=
    refuseDestructuring_moved carries lies
  unfold readParameter
  rw [Node.kind_moved, Node.child?_moved, Node.child?_moved]
  split
  · rw [Node.text_moved carries lies]
    exact Outcome.moved_bind fun text _ => rfl
  · cases foundLeft : node.child? .left with
    | none => exact refused
    | some left =>
        cases foundRight : node.child? .right with
        | none => exact refused
        | some right =>
            simp only [Option.map_some, Node.kind_moved, Node.isLiteral_moved]
            split
            · rw [Node.text_moved carries (lies.child? foundLeft),
                Node.text_moved carries (lies.child? foundRight)]
              refine Outcome.moved_bind fun name _ => ?_
              refine Outcome.moved_bind fun initial _ => ?_
              split
              · rw [Node.location_moved]
                rfl
              · rfl
            · exact refused
  · exact node.refusal_moved .restParameter (Node.text_moved carries lies)
  · exact refused

namespace FunctionNode

variable {function : FunctionNode}

theorem of?_moved (move : Move) (node : Node) :
    of? (node.moved move) = (of? node).map (moved move) := by
  unfold of?
  simp only [Node.kind_moved, Node.child?_moved]
  split
  · cases node.child? .name <;> cases node.child? .parameters <;> cases node.child? .body <;> rfl
  · rfl

/-- The name, the parameters and the body of a function lie in a text. -/
structure LiesIn (source : Bytes) (function : FunctionNode) : Prop where
  name : function.name.LiesIn source
  parameters : function.parameters.LiesIn source
  body : function.body.LiesIn source

/-- The parts of a well-laid function lie in its text. -/
theorem Sound.liesIn {function : FunctionNode} (sound : function.Sound source) :
    function.LiesIn source :=
  ⟨sound.name.liesIn, sound.parameters.liesIn, sound.body.liesIn⟩

/-- A function that is read off a node of the text lies in the text. -/
theorem liesIn_of? (lies : node.LiesIn source) (found : of? node = some function) :
    function.LiesIn source := by
  obtain ⟨-, -, name, parameters, body⟩ := of?_eq_some found
  exact ⟨lies.child? name, lies.child? parameters, lies.child? body⟩

/-- Parameters are read the same wherever they stand. -/
theorem readParameters_moved (options : Options) (carries : move.Carries source whole)
    (lies : function.LiesIn source) :
    (function.moved move).readParameters whole options =
      Outcome.moved move id (function.readParameters source options) := by
  unfold readParameters
  change (function.parameters.moved move).parts.mapM _ = _
  rw [Node.parts_moved]
  apply Outcome.moved_mapM_id
  intro parameter member
  exact readParameter_moved options carries (lies.parameters.part member)

theorem nameText_moved (carries : move.Carries source whole) (lies : function.LiesIn source) :
    (function.moved move).nameText whole = Outcome.moved move id (function.nameText source) :=
  Node.text_moved carries lies.name

theorem renderBody_moved (carries : move.Carries source whole) (lies : function.LiesIn source)
    (filled : 0 < function.body.span.stop) :
    (function.moved move).renderBody whole = (function.renderBody source).moved move id := by
  have inside := lies.body.span
  have window : (function.moved move).inside = function.inside.moved move := by
    simp only [FunctionNode.inside, moved, Node.span_moved, Span.moved]
    congr 1 <;> omega
  have keywords : keywordEdits whole (function.moved move).body = _ :=
    keywordEdits_moved carries lies.body
  have returns : returnEdits whole (function.moved move).body = _ :=
    returnEdits_moved carries lies.body
  unfold renderBody
  simp only [keywords, returns, nameText_moved carries lies, window, Run.moved_lift]
  refine Run.moved_bind fun edits => ?_
  refine Run.moved_bind fun name => ?_
  have spliced := Bytes.spliceIn_moved carries (Int.le_add_one inside.least)
    (show 0 ≤ function.inside.stop from Int.le_sub_one_of_lt filled)
    (Int.le_trans (Int.sub_le_self _ (by decide)) inside.most)
    (keywordEdits source function.body ++ edits)
  rw [List.length_map, List.length_map, ← List.map_append, spliced]
  rfl

/-- A function is declared the same wherever it stands. -/
theorem declaration_moved (options : Options) (carries : move.Carries source whole)
    (lies : function.LiesIn source) (filled : 0 < function.body.span.stop) :
    (function.moved move).declaration whole options =
      (function.declaration source options).moved move id := by
  unfold declaration
  rw [readParameters_moved options carries lies, nameText_moved carries lies,
    renderBody_moved carries lies filled, Run.moved_lift, Run.moved_lift]
  refine Run.moved_bind fun parameters => ?_
  refine Run.moved_bind fun name => ?_
  exact Run.moved_bind fun body => rfl

/-- A function is rendered the same wherever it stands. -/
theorem render_moved (options : Options) (carries : move.Carries source whole)
    (lies : function.LiesIn source) (filled : 0 < function.body.span.stop) :
    (function.moved move).render whole options =
      (function.render source options).moved move id := by
  unfold render
  rw [declaration_moved options carries lies filled]
  exact Run.moved_bind fun declaration => rfl

/-- The body of a well-laid function covers its braces. -/
theorem Sound.filled (sound : function.Sound source) : 0 < function.body.span.stop := by
  obtain ⟨parts, enclosed⟩ := sound.braces
  have least := (enclosed.sound_closing sound.body).starts.nonneg
  have wide := enclosed.closing_lt sound.body
  omega

end FunctionNode

/-! ## Patches -/

theorem Node.firstLine_moved (carries : move.Carries source whole) (lies : node.LiesIn source) :
    (node.moved move).firstLine whole = Outcome.moved move id (node.firstLine source) := by
  unfold firstLine
  rw [text_moved carries lies]
  exact Outcome.moved_bind fun text _ => rfl

theorem declaratorLine_moved (carries : move.Carries source whole) (lies : node.LiesIn source) :
    declaratorLine whole (node.moved move) =
      Outcome.moved move id (declaratorLine source node) := by
  have refused : ((node.moved move).firstLine whole >>= fun line => (.error (.unsupported
      (.destructuringDeclaration line) (node.moved move).location) : Except Fault String)) = _ :=
    node.refusal_moved .destructuringDeclaration (Node.firstLine_moved carries lies)
  unfold declaratorLine
  rw [Node.child?_moved, Node.child?_moved]
  cases foundName : node.child? .name with
  | none => exact refused
  | some name =>
      have named := Node.text_moved carries (lies.child? foundName)
      simp only [Option.map_some, Node.kind_moved]
      split
      · rw [named]
        cases foundValue : node.child? .value with
        | none => exact Outcome.moved_bind fun name _ => rfl
        | some value =>
            simp only [Option.map_some, Node.text_moved carries (lies.child? foundValue)]
            refine Outcome.moved_bind fun value _ => ?_
            exact Outcome.moved_bind fun name _ => rfl
      · exact refused

namespace Synthesizer

variable {synthesizer : Synthesizer}

/-- A synthesizer for the function in its new place, in the longer text. -/
def moved (move : Move) (whole : Bytes) (synthesizer : Synthesizer) : Synthesizer :=
  { synthesizer with source := whole, function := synthesizer.function.moved move }

theorem header_moved (carries : move.Carries synthesizer.source whole)
    (lies : synthesizer.function.LiesIn synthesizer.source) :
    (synthesizer.moved move whole).header = Outcome.moved move id synthesizer.header := by
  unfold header
  change (synthesizer.function.moved move).readParameters whole synthesizer.options >>= _ = _
  rw [FunctionNode.readParameters_moved _ carries lies]
  exact Outcome.moved_bind fun parameters _ => rfl

/-- The outputs of a return are the same wherever it stands. -/
theorem outputs_moved (carries : move.Carries synthesizer.source whole)
    (lies : node.LiesIn synthesizer.source) :
    (synthesizer.moved move whole).outputs (node.moved move) =
      Outcome.moved move id (synthesizer.outputs node) := by
  unfold outputs
  rw [returnArgument?_moved]
  cases found : returnArgument? node with
  | none => rfl
  | some argument =>
      have inside : argument.LiesIn synthesizer.source := lies.part (List.mem_of_mem_head? found)
      have shown : (argument.moved move).text (synthesizer.moved move whole).source = _ :=
        Node.text_moved carries inside
      simp only [Option.map_some, arrayElements_moved, shown]
      refine Outcome.moved_bind fun elements ended => ?_
      cases elements with
      | none => exact Outcome.moved_bind fun text _ => rfl
      | some elements =>
          have texts := mapM_text_moved carries (arrayElements_liesIn inside ended)
          simp only [Option.map_some]
          change (elements.map (Node.moved move)).mapM (·.text whole) >>= _ = _
          rw [texts]
          exact Outcome.moved_bind fun texts _ => rfl

theorem emitDeclaration_moved (carries : move.Carries synthesizer.source whole)
    (lies : node.LiesIn synthesizer.source) :
    (synthesizer.moved move whole).emitDeclaration (node.moved move) =
      (synthesizer.emitDeclaration node).moved move id := by
  have same : declarators (node.moved move) = (declarators node).map (Node.moved move) := by
    unfold declarators
    rw [Node.namedChildren_moved, List.filter_map]
    simp [Function.comp_def]
  unfold emitDeclaration
  rw [same]
  apply Run.moved_forM
  intro declarator member
  have line := declaratorLine_moved carries (lies.namedChild (List.mem_filter.mp member).1)
  change Run.lift (declaratorLine whole (declarator.moved move)) >>= _ = _
  rw [line, Run.moved_lift]
  exact Run.moved_bind fun line => rfl

/-- A statement has the same text wherever it stands. -/
theorem statementText_moved (carries : move.Carries synthesizer.source whole)
    (lies : node.LiesIn synthesizer.source) :
    (synthesizer.moved move whole).statementText (node.moved move) =
      Outcome.moved move id (synthesizer.statementText node) := by
  unfold statementText
  rw [returnsOf_moved]
  cases found : returnsOf node with
  | nil =>
      have inside := lies.span
      change whole.spliceIn (keywordEdits whole (node.moved move)) (node.moved move).span = _
      rw [keywordEdits_moved carries lies, Node.span_moved]
      exact Bytes.spliceIn_moved carries inside.least inside.stop_nonneg
        inside.most _
  | cons inner rest =>
      have member : inner ∈ node.walk :=
        (List.mem_filter.mp (show inner ∈ returnsOf node by simp [found])).1
      exact inner.refusal_moved (.nestedReturn synthesizer.options.mainName)
        (Node.firstLine_moved carries (lies.walk member))

theorem emit_moved (carries : move.Carries synthesizer.source whole)
    (lies : node.LiesIn synthesizer.source) :
    (synthesizer.moved move whole).emit (node.moved move) =
      (synthesizer.emit node).moved move id := by
  have shown : (node.moved move).text (synthesizer.moved move whole).source = _ :=
    Node.text_moved carries lies
  unfold emit
  rw [Node.kind_moved]
  split
  · exact emitDeclaration_moved carries lies
  · exact emitDeclaration_moved carries lies
  · rw [shown, Run.moved_lift]
    exact Run.moved_bind fun text => rfl
  · rw [shown, Run.moved_lift]
    exact Run.moved_bind fun text => rfl
  · rfl
  · rw [statementText_moved carries lies, Run.moved_lift]
    exact Run.moved_bind fun text => rfl

theorem statements_moved (move : Move) (whole : Bytes) (synthesizer : Synthesizer) :
    (synthesizer.moved move whole).statements = synthesizer.statements.map (Node.moved move) :=
  Node.namedChildren_moved move synthesizer.function.body

theorem before_moved (move : Move) (whole : Bytes) (synthesizer : Synthesizer) :
    (synthesizer.moved move whole).before = synthesizer.before.map (Node.moved move) := by
  unfold before
  rw [statements_moved, List.takeWhile_map]
  simp [Function.comp_def]

theorem fromReturn_moved (move : Move) (whole : Bytes) (synthesizer : Synthesizer) :
    (synthesizer.moved move whole).fromReturn =
      synthesizer.fromReturn.map (Node.moved move) := by
  unfold fromReturn
  rw [statements_moved, List.dropWhile_map]
  simp [Function.comp_def]

theorem firstReturn?_moved (move : Move) (whole : Bytes) (synthesizer : Synthesizer) :
    (synthesizer.moved move whole).firstReturn? =
      synthesizer.firstReturn?.map (Node.moved move) := by
  unfold firstReturn?
  rw [fromReturn_moved, List.head?_map]

theorem length_unreachable_moved (move : Move) (whole : Bytes) (synthesizer : Synthesizer) :
    (synthesizer.moved move whole).unreachable.length = synthesizer.unreachable.length := by
  unfold unreachable
  rw [fromReturn_moved, ← List.map_tail, List.filter_map, List.length_map]
  simp only [Function.comp_def, Node.kind_moved]

theorem noteDropped_moved (move : Move) (whole : Bytes) (synthesizer : Synthesizer) (count : Nat) :
    (synthesizer.moved move whole).noteDropped count =
      (synthesizer.noteDropped count).moved move id := by
  cases count <;> rfl

/-- The lines of the return are the same wherever the function stands. -/
theorem returnLines_moved (carries : move.Carries synthesizer.source whole)
    (lies : synthesizer.function.LiesIn synthesizer.source) :
    (synthesizer.moved move whole).returnLines (synthesizer.moved move whole).firstReturn? =
      Outcome.moved move id (synthesizer.returnLines synthesizer.firstReturn?) := by
  rw [firstReturn?_moved]
  cases found : synthesizer.firstReturn? with
  | none => rfl
  | some node => exact outputs_moved carries (lies.body.namedChild (mem_of_firstReturn? found))

/-- The statements before the return are emitted the same wherever the function stands. -/
theorem forM_emit_moved (carries : move.Carries synthesizer.source whole)
    (lies : synthesizer.function.LiesIn synthesizer.source) :
    (synthesizer.moved move whole).before.forM (synthesizer.moved move whole).emit =
      (synthesizer.before.forM synthesizer.emit).moved move id := by
  rw [before_moved]
  apply Run.moved_forM
  intro statement member
  exact emit_moved carries (lies.body.namedChild ((List.takeWhile_sublist _).subset member))

theorem synthesize_moved (synthesizer : Synthesizer)
    (carries : move.Carries synthesizer.source whole)
    (lies : synthesizer.function.LiesIn synthesizer.source) :
    (synthesizer.moved move whole).synthesize =
      (synthesizer.synthesize.1.moved move whole, synthesizer.synthesize.2.moved move id) := by
  have headerMoved := header_moved carries lies
  have emitMoved := forM_emit_moved carries lies
  have returnMoved := returnLines_moved carries lies
  have noted := noteDropped_moved move whole synthesizer synthesizer.unreachable.length
  cases headed : synthesizer.header with
  | error fault =>
      rw [headed] at headerMoved
      rw [synthesize_of_header_error headed, synthesize_of_header_error headerMoved]
      rfl
  | ok header =>
      rw [headed] at headerMoved
      cases emitted : synthesizer.before.forM synthesizer.emit with
      | mk body outcome =>
          rw [emitted] at emitMoved
          cases outcome with
          | error fault =>
              rw [synthesize_of_emit_error headed emitted,
                synthesize_of_emit_error headerMoved emitMoved]
              rfl
          | ok =>
              cases returned : synthesizer.returnLines synthesizer.firstReturn? with
              | error fault =>
                  rw [returned] at returnMoved
                  rw [synthesize_of_return_error headed emitted returned,
                    synthesize_of_return_error headerMoved emitMoved returnMoved,
                    length_unreachable_moved, noted]
                  exact Prod.ext rfl (Run.moved_bind fun _ => rfl)
              | ok outputs =>
                  rw [returned] at returnMoved
                  rw [synthesize_of_ok headed emitted returned,
                    synthesize_of_ok headerMoved emitMoved returnMoved,
                    length_unreachable_moved, noted]
                  exact Prod.ext rfl (Run.moved_bind fun _ => rfl)

end Synthesizer

/-! ## Independence of the place -/

@[simp] theorem Fault.message_moved (move : Move) (fault : Fault) :
    (fault.moved move).message = fault.message := by
  cases fault <;> rfl

/-- **What is made of a function does not depend on where it stands.** Let a function lie in
a text, and let bytes be put before and after the text. In its new place the function is
rendered with the same notes and to the same text, or it is refused there with the same
message. In every scope of the text the same edits are made at the new places, and the
function gives the same patch. A body that ended where the text starts would have to be empty;
its window would end at a negative offset, which counts from the end of the text. -/
theorem rendering_independent_of_place (before source after : Bytes) (place : Point → Point)
    (options : Options) {node : Node} {function : FunctionNode}
    (found : FunctionNode.of? node = some function) (lies : node.LiesIn source)
    (filled : 0 < function.body.span.stop) :
    let move : Move := ⟨before.length, place⟩
    let whole := before ++ source ++ after
    let there := function.moved move
    FunctionNode.of? (node.moved move) = some there ∧
    there.render whole options = (function.render source options).moved move id ∧
    (∀ scope : Node, scope.LiesIn source →
      keywordEdits whole (scope.moved move) = (keywordEdits source scope).map (Edit.moved move) ∧
      returnEdits whole (scope.moved move) =
        Outcome.moved move (List.map (Edit.moved move)) (returnEdits source scope)) ∧
    (∀ patch,
      let made := (Synthesizer.mk source function options patch).synthesize
      let madeThere := (Synthesizer.mk whole there options patch).synthesize
      madeThere.1.patch = made.1.patch ∧ madeThere.2 = made.2.moved move id) ∧
    ∀ fault : Fault, (fault.moved move).message = fault.message := by
  intro move whole there
  have carries : move.Carries source whole := Move.carries_append place before source after
  have inside := FunctionNode.liesIn_of? lies found
  refine ⟨?_, FunctionNode.render_moved options carries inside filled, ?_, ?_,
    Fault.message_moved move⟩
  · rw [FunctionNode.of?_moved, found]
    rfl
  · intro scope within
    exact ⟨keywordEdits_moved carries within, returnEdits_moved carries within⟩
  · intro patch made madeThere
    have same : madeThere = (made.1.moved move whole, made.2.moved move id) :=
      Synthesizer.synthesize_moved ⟨source, function, options, patch⟩ carries inside
    rw [same]
    exact ⟨rfl, rfl⟩

/-- A function below a line with a letter of two bytes: it is rendered, and its patch is
refused at the place that its nested return has in the longer text. -/
theorem rendering_independent_of_place_below :
    let ahead := Utf8.encode "// \u00e9\n"
    let move : Move := ⟨ahead.length, fun point => ⟨point.row + 1, point.column⟩⟩
    ∃ document function,
      Document.parse "function f(a, b = 1) \x7bif (a) \x7breturn [a, b];\x7d var c = b;\x7d" =
        .ok document ∧
      function ∈ FunctionNode.topLevel document.root ∧
      let whole := ahead ++ document.source ++ Utf8.encode "f(2);"
      ((function.moved move).render whole {}).outcome = .ok
        "f(a, b=1) \x7bif (a) \x7breturn a, b;\x7d c = b;\x7d" ∧
      (Synthesizer.mk whole (function.moved move) {} {}).synthesize.2.outcome =
        .error (.unsupported (.nestedReturn "main" "return [a, b];") ⟨2, 31⟩) := by
  intro ahead move
  obtain ⟨document, parsed, found⟩ := Outcome.exists_ok_of_any (show
    ((Document.parse
        "function f(a, b = 1) \x7bif (a) \x7breturn [a, b];\x7d var c = b;\x7d").toOption.any
      fun document => (FunctionNode.topLevel document.root).any fun function =>
        decide ((function.render document.source {}).outcome = .ok
          "f(a, b=1) \x7bif (a) \x7breturn a, b;\x7d c = b;\x7d") &&
        decide ((Synthesizer.mk document.source function {} {}).synthesize.2.outcome =
          .error (.unsupported (.nestedReturn "main" "return [a, b];") ⟨1, 31⟩))) = true
      by decide +kernel)
  obtain ⟨function, member, found⟩ := List.any_eq_true.mp found
  simp only [Bool.and_eq_true, decide_eq_true_eq] at found
  obtain ⟨rendered, refused⟩ := found
  have sound := Document.sound_of_parse parsed
  have filled := (FunctionNode.sound_topLevel sound member).filled
  obtain ⟨node, among, found⟩ := List.mem_filterMap.mp member
  obtain ⟨-, same, -, patched, -⟩ := rendering_independent_of_place ahead document.source
    (Utf8.encode "f(2);") move.place {} found (sound.namedChild among).liesIn filled
  refine ⟨document, function, parsed, member, ?_, ?_⟩
  · exact (congrArg Run.outcome same).trans (congrArg (Outcome.moved move id) rendered)
  · exact (congrArg Run.outcome (patched {}).2).trans (congrArg (Outcome.moved move id) refused)

/-- **A well-laid function is the same wherever its text stands.** The body of such a function
holds its braces, so it never ends where the text starts: nothing has to be assumed of it. Its
rendering and its patch in the new place are those of the old one, with their faults moved along. -/
theorem FunctionNode.Sound.made_anywhere {function : FunctionNode} (sound : function.Sound source)
    (before after : Bytes) (place : Point → Point) (options : Options) (patch : Patch) :
    let move : Move := ⟨before.length, place⟩
    let whole := before ++ source ++ after
    let made := (Synthesizer.mk source function options patch).synthesize
    (function.moved move).render whole options = (function.render source options).moved move id ∧
      (Synthesizer.mk whole (function.moved move) options patch).synthesize =
        (made.1.moved move whole, made.2.moved move id) := by
  intro move whole made
  have carries : move.Carries source whole := Move.carries_append place before source after
  exact ⟨render_moved options carries sound.liesIn sound.filled,
    Synthesizer.synthesize_moved ⟨source, function, options, patch⟩ carries sound.liesIn⟩

end Codebox
