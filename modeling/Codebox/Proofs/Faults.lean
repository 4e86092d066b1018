import Codebox.Proofs.Direct
import Codebox.Proofs.FirstReturn

/-! # Faults of a conversion

A conversion ends with a text or with a fault that is told to its user: the text
is no script, or it says what a codebox cannot. One inner fault remains. Where the
last byte of a body belongs to a longer character, the text between the braces
cannot be read. A body ends so only if its block takes in a comment after the
closing brace.
-/

namespace Codebox

open Outcome (FailsOnly)

/-- Whether a fault says that a codebox cannot say what the script says. -/
def Fault.isUnsupported : Fault → Bool
  | .unsupported .. => true
  | _ => false

/-- Whether a fault is told to the user. -/
def Fault.isReported : Fault → Bool
  | .malformed .. | .unsupported .. => true
  | _ => false

/-- The reported faults are those of scripts that cannot be read and of what is not supported. -/
theorem Fault.isReported_eq (fault : Fault) :
    fault.isReported = (fault.isMalformed || fault.isUnsupported) := by
  cases fault <;> rfl

variable {source : Bytes} {node : Node} {options : Options}

/-! ## Parameters -/

/-- A parameter is refused with a fault that is reported. -/
theorem fails_refuseDestructuring {α : Type} (sound : node.Sound source) :
    FailsOnly (·.isUnsupported) (refuseDestructuring source node : Except Fault α) := by
  obtain ⟨text, read⟩ := sound.text
  exact .bind (.of_ok read) fun _ _ => .error rfl

/-- A parameter is read, or refused as not supported. -/
theorem fails_readParameter (sound : node.Sound source) :
    FailsOnly (·.isUnsupported) (readParameter source options node) := by
  obtain ⟨text, read⟩ := sound.text
  unfold readParameter
  split
  · exact .bind (.of_ok read) fun _ _ => .ok _
  · split
    next left right foundLeft foundRight =>
      obtain ⟨name, readName⟩ := (sound.child? foundLeft).text
      obtain ⟨initial, readInitial⟩ := (sound.child? foundRight).text
      split
      · refine .bind (.of_ok readName) fun _ _ => .bind (.of_ok readInitial) fun _ _ => ?_
        split
        · exact .error rfl
        · exact .ok _
      · exact fails_refuseDestructuring sound
    next => exact fails_refuseDestructuring sound
  · exact .bind (.of_ok read) fun _ _ => .error rfl
  · exact fails_refuseDestructuring sound

/-- Parameters are read, or refused as not supported. -/
theorem fails_readParameters {function : FunctionNode} (sound : function.Sound source) :
    FailsOnly (·.isUnsupported) (function.readParameters source options) :=
  .mapM fun _ member => fails_readParameter (sound.parameters.part member)

/-- Returned arrays are expanded, or refused as not supported. -/
theorem fails_returnEdits (sound : node.Sound source) :
    FailsOnly (·.isUnsupported) (returnEdits source node) := by
  intro fault failed
  obtain ⟨location, rfl⟩ := sound.returnEdits_error failed
  rfl

/-! ## Functions -/

/-- The last byte of a body belongs to a longer character. -/
def FunctionNode.Severed (source : Bytes) (function : FunctionNode) : Prop :=
  ¬ source.Boundary function.inside.stop

/-- Once its returned arrays are expanded, a body is not read exactly if it is severed. -/
theorem FunctionNode.Orderly.decode_eq_error_iff {function : FunctionNode}
    (orderly : function.Orderly source) {fault : Fault} :
    (source.woven function.inside.stop function.inside.start
      (editsOf source function.body.walk)).decode = .error fault ↔
        fault = .undecodable ∧ function.Severed source := by
  rw [Bytes.decode_eq_error_iff, Severed,
    ← Bytes.exists_encode_woven_iff orderly.starts orderly.most orderly.edits, not_exists]

namespace FunctionNode.Sound

variable {function : FunctionNode}

/-- A body is severed exactly if its block takes in comments after the closing brace
and the last byte of the last one is not a character of its own. -/
theorem severed_iff (sound : function.Sound source) {parts : Braces}
    (enclosed : parts.Enclose function.body) :
    function.Severed source ↔ ∃ comment, parts.comments.getLast? = some comment ∧
      ¬ source.Boundary (comment.span.stop - 1) := by
  have stop : function.inside.stop = function.body.span.stop - 1 := rfl
  have ends := enclosed.stop
  have closing := enclosed.closing_span
  rw [List.getLastD_eq_getLast?] at ends
  rw [Severed, stop]
  cases last : parts.comments.getLast? with
  | none =>
      rw [last, Option.getD_none] at ends
      have brace : function.body.span.stop - 1 = parts.closing.span.start := by omega
      rw [brace]
      simpa using (enclosed.sound_closing sound.body).starts
  | some comment =>
      rw [last, Option.getD_some] at ends
      rw [ends]
      simp

/-- The fault that is not reported. -/
theorem declaration_eq_undecodable_iff (sound : function.Sound source) :
    (function.declaration source options).outcome = .error .undecodable ↔
      (∃ parameters, function.readParameters source options = .ok parameters) ∧
        (∃ returns, returnEdits source function.body = .ok returns) ∧
          function.Severed source := by
  obtain ⟨name, named⟩ := sound.nameText
  rw [function.declaration_outcome options named, sound.orderly.renderBody_outcome]
  cases read : function.readParameters source options with
  | error fault =>
      have known := fails_readParameters sound fault read
      rw [Outcome.bind_error]
      constructor
      · intro same
        cases same
        cases known
      · rintro ⟨⟨parameters, same⟩, -⟩
        cases same
  | ok parameters =>
      cases expanded : returnEdits source function.body with
      | error fault =>
          have known := fails_returnEdits sound.body fault expanded
          rw [Outcome.bind_ok, Outcome.bind_error, Outcome.bind_error]
          constructor
          · intro same
            cases same
            cases known
          · rintro ⟨-, ⟨returns, same⟩, -⟩
            cases same
      | ok returns =>
          simp [Outcome.bind_ok, Outcome.bind_eq_error_iff, sound.orderly.decode_eq_error_iff]

/-- A function is declared, or something in it is not supported, or its body ends inside a
character. -/
theorem fails_declaration (sound : function.Sound source) :
    FailsOnly (fun fault => fault.isUnsupported ∨ fault = .undecodable)
      (function.declaration source options).outcome := by
  obtain ⟨name, named⟩ := sound.nameText
  rw [function.declaration_outcome options named, sound.orderly.renderBody_outcome]
  refine .bind (fun fault failed => .inl (fails_readParameters sound fault failed)) fun _ _ => ?_
  refine .bind (.bind (fun fault failed => .inl (fails_returnEdits sound.body fault failed))
    fun _ _ fault failed => .inr (sound.orderly.decode_eq_error_iff.mp failed).1) fun _ _ => .ok _

end FunctionNode.Sound

/-! ## Edits -/

/-- Edits within a window, none of which reaches into another. -/
structure Edit.Separate (window : Span) (edits : List Edit) : Prop where
  inside : ∀ edit ∈ edits, window.start ≤ edit.span.start ∧ edit.span.start ≤ edit.span.stop ∧
    edit.span.stop ≤ window.stop
  apart : edits.Pairwise fun first second =>
    first.span.stop ≤ second.span.start ∨ second.span.stop ≤ first.span.start

/-- Tidy edits stay apart from each other, in whatever order they are given. -/
theorem Edit.Tidy.separate {window : Span} {edits others : List Edit}
    (tidy : Edit.Tidy source window.start window.stop edits) (perm : others.Perm edits) :
    Edit.Separate window others := by
  constructor
  · intro edit member
    exact tidy.ordered.inside (List.mem_map_of_mem (perm.subset member))
  · refine (perm.pairwise_iff ?_).mpr ?_
    · exact fun apart => apart.symm
    · exact (List.pairwise_map.mp tidy.ordered.pairwise).imp .inl

/-- The edits of a body stay apart from each other. -/
theorem FunctionNode.Sound.separate {function : FunctionNode} (sound : function.Sound source)
    {returns : List Edit} (expanded : returnEdits source function.body = .ok returns) :
    Edit.Separate function.inside (keywordEdits source function.body ++ returns) :=
  Edit.Tidy.separate sound.tidy (sound.edits_perm expanded)

/-! ## Patches -/

/-- Keywords are deleted from any node without a fault. -/
theorem Node.Sound.spliceIn_keywordEdits (sound : node.Sound source) :
    ∃ text, source.spliceIn (keywordEdits source node) node.span = .ok text ∧
      Utf8.encode text =
        source.woven node.span.stop node.span.start (keywordEdits source node) := by
  have tidy := sound.tidy_keywordEdits
  obtain ⟨text, written⟩ :=
    (Bytes.exists_encode_woven_iff sound.starts sound.stops.le_length tidy).mpr sound.stops
  refine ⟨text, ?_, written⟩
  change source.spliceIn _ ⟨node.span.start, node.span.stop⟩ = _
  rw [Bytes.spliceIn_eq_decode (.refl _) sound.starts.nonneg sound.stops.le_length tidy]
  exact Bytes.decode_eq_ok_iff.mpr written

/-- The first line of a well-laid node can be read. -/
theorem Node.Sound.firstLine (sound : node.Sound source) :
    ∃ line, node.firstLine source = .ok line := by
  obtain ⟨text, read⟩ := sound.text
  exact ⟨_, by unfold Node.firstLine; rw [read]; rfl⟩

/-- A declarator is written as a line, or refused as not supported. -/
theorem fails_declaratorLine (sound : node.Sound source) :
    FailsOnly (·.isUnsupported) (declaratorLine source node) := by
  obtain ⟨line, first⟩ := sound.firstLine
  have refused : FailsOnly (·.isUnsupported) (node.firstLine source >>= fun line =>
      (.error (.unsupported (.destructuringDeclaration line) node.location) :
        Except Fault String)) :=
    .bind (.of_ok first) fun _ _ => .error rfl
  unfold declaratorLine
  split
  next name found =>
    obtain ⟨text, read⟩ := (sound.child? found).text
    split
    · have written : ∀ value, FailsOnly (·.isUnsupported) (name.text source >>= fun text =>
          (.ok (text ++ " = " ++ value ++ ";") : Except Fault String)) :=
        fun value => .bind (.of_ok read) fun _ _ => .ok _
      split
      next value found =>
        obtain ⟨initial, readInitial⟩ := (sound.child? found).text
        exact .bind (.of_ok readInitial) fun _ _ => written _
      next => exact written "0"
    · exact refused
  next => exact refused

namespace Synthesizer

variable {synthesizer : Synthesizer} {statement : Node}

/-- The text of a statement is written, or refused as not supported. -/
theorem fails_statementText (sound : statement.Sound synthesizer.source) :
    FailsOnly (·.isUnsupported) (synthesizer.statementText statement) := by
  unfold statementText
  split
  next node rest found =>
    have member : node ∈ returnsOf statement := by
      rw [found]
      exact List.mem_cons_self
    obtain ⟨line, first⟩ := (sound.walk (List.mem_filter.mp member).1).firstLine
    exact .bind (.of_ok first) fun _ _ => .error rfl
  next =>
    obtain ⟨text, spliced, -⟩ := sound.spliceIn_keywordEdits
    exact .of_ok spliced

/-- A declaration is emitted, or refused as not supported. -/
theorem fails_emitDeclaration (sound : statement.Sound synthesizer.source) :
    FailsOnly (·.isUnsupported) (synthesizer.emitDeclaration statement).outcome := by
  unfold emitDeclaration
  rw [Run.outcome_forM]
  refine .forM fun declarator member => ?_
  rw [Run.outcome_bind, Run.outcome_lift]
  exact .bind (fails_declaratorLine (sound.namedChild (List.mem_filter.mp member).1))
    fun _ _ => .ok _

/-- A statement is emitted, or refused as not supported. -/
theorem fails_emit (sound : statement.Sound synthesizer.source) :
    FailsOnly (·.isUnsupported) (synthesizer.emit statement).outcome := by
  obtain ⟨text, read⟩ := sound.text
  unfold emit
  split
  · exact fails_emitDeclaration sound
  · exact fails_emitDeclaration sound
  · rw [Run.outcome_bind, Run.outcome_lift]
    exact .bind (.of_ok read) fun _ _ => .ok _
  · rw [Run.outcome_bind, Run.outcome_lift]
    exact .bind (.of_ok read) fun _ _ => .ok _
  · exact .ok _
  · rw [Run.outcome_bind, Run.outcome_lift]
    exact .bind (fails_statementText sound) fun _ _ => .ok _

/-- The outputs of a return are written, or refused as not supported. -/
theorem fails_outputs (sound : node.Sound synthesizer.source) :
    FailsOnly (·.isUnsupported) (synthesizer.outputs node) := by
  unfold outputs
  split
  next => exact .ok _
  next argument first =>
    have soundArgument := sound.part (List.mem_of_mem_head? first)
    obtain ⟨text, read⟩ := soundArgument.text
    unfold arrayElements
    split
    · split
      · exact .error rfl
      · rw [Outcome.bind_ok]
        refine .bind (.mapM fun element member => ?_) fun _ _ => .ok _
        obtain ⟨text, read⟩ := (soundArgument.part member).text
        exact .of_ok read
    · rw [Outcome.bind_ok]
      exact .bind (.of_ok read) fun _ _ => .ok _

/-- Noting the dropped statements never fails. -/
theorem noteDropped_outcome (synthesizer : Synthesizer) (count : Nat) :
    (synthesizer.noteDropped count).outcome = .ok () := by
  unfold noteDropped
  split <;> rfl

/-- How a patch is made: the header, the statements before the return and the return
are read in this order, and the first of them that fails decides. -/
theorem synthesize_outcome (synthesizer : Synthesizer) :
    synthesizer.synthesize.2.outcome = synthesizer.header >>= fun header =>
      (synthesizer.before.forM synthesizer.emit).outcome >>= fun _ =>
        synthesizer.returnLines synthesizer.firstReturn? >>= fun outputs => .ok (Patch.text
          ⟨header, (synthesizer.before.forM synthesizer.emit).written, outputs⟩) := by
  have noted := synthesizer.noteDropped_outcome synthesizer.unreachable.length
  cases headed : synthesizer.header with
  | error fault =>
      rw [synthesize_of_header_error headed]
      rfl
  | ok header =>
      cases emitted : synthesizer.before.forM synthesizer.emit with
      | mk body outcome =>
          cases outcome with
          | error fault =>
              rw [synthesize_of_emit_error headed emitted]
              rfl
          | ok =>
              cases returned : synthesizer.returnLines synthesizer.firstReturn? with
              | error fault =>
                  rw [synthesize_of_return_error headed emitted returned]
                  simp only [Run.outcome_bind, noted, Outcome.bind_ok]
                  rfl
              | ok outputs =>
                  rw [synthesize_of_ok headed emitted returned]
                  simp only [Run.outcome_bind, noted, Outcome.bind_ok]
                  rfl

/-- Making a patch fails only where the function says what a codebox cannot. -/
theorem fails_synthesize (sound : synthesizer.function.Sound synthesizer.source) :
    FailsOnly (·.isUnsupported) synthesizer.synthesize.2.outcome := by
  have soundStatement : ∀ statement ∈ synthesizer.statements, statement.Sound synthesizer.source :=
    fun statement member => sound.body.namedChild member
  rw [synthesize_outcome]
  refine .bind (.bind (fails_readParameters sound) fun _ _ => .ok _) fun _ _ => ?_
  refine .bind ?_ fun _ _ => .bind ?_ fun _ _ => .ok _
  · rw [Run.outcome_forM]
    refine .forM fun statement member => fails_emit (soundStatement statement ?_)
    exact (List.takeWhile_sublist _).subset member
  · cases first : synthesizer.firstReturn? with
    | some node => exact fails_outputs (soundStatement node (mem_of_firstReturn? first))
    | none => exact .ok _

end Synthesizer

/-! ## Documents -/

namespace Document

variable {document : Document}

/-- All functions before one are rendered, its parameters are read and its
returned arrays expanded, but its body is severed. -/
def Stuck (document : Document) (options : Options) : Prop :=
  ∃ before function after,
    FunctionNode.topLevel document.root = before ++ function :: after ∧
    (∀ earlier ∈ before, ∃ text, (earlier.render document.source options).outcome = .ok text) ∧
    (∃ parameters, function.readParameters document.source options = .ok parameters) ∧
    (∃ returns, returnEdits document.source function.body = .ok returns) ∧
    function.Severed document.source

/-- Collecting ends inside a character exactly if the document is stuck there. -/
theorem collect_eq_undecodable_iff (sound : document.Sound) :
    (document.collect options).outcome = .error .undecodable ↔ document.Stuck options := by
  have paired : ∀ function : FunctionNode,
      (∃ pair, ((function.declaration document.source options).outcome >>= fun declaration =>
        (.ok (function, declaration) : Except Fault (FunctionNode × Declaration))) = .ok pair) ↔
      ∃ text, (function.render document.source options).outcome = .ok text := by
    intro function
    rw [FunctionNode.exists_render_iff]
    simp [Outcome.bind_eq_ok_iff]
  rw [collect_outcome sound, Outcome.mapM_eq_error_iff]
  simp only [paired, Outcome.bind_eq_error_iff, reduceCtorEq, and_false, exists_false, or_false]
  refine exists_congr fun before => exists_congr fun function => exists_congr fun after =>
    and_congr_right fun split => and_congr_right fun _ => ?_
  refine (FunctionNode.sound_topLevel sound ?_).declaration_eq_undecodable_iff
  rw [split]
  exact List.mem_append_right before List.mem_cons_self

/-- Functions are collected, or one is not supported, or one ends inside a character. -/
theorem fails_collect (sound : document.Sound) :
    FailsOnly (fun fault => fault.isUnsupported ∨ fault = .undecodable)
      (document.collect options).outcome := by
  rw [collect_outcome sound]
  refine .mapM fun function member => ?_
  exact .bind (FunctionNode.sound_topLevel sound member).fails_declaration fun _ _ => .ok _

/-- What is collected is a function at the top level with its own declaration. -/
theorem mem_topLevel_of_collect (sound : document.Sound)
    {functions : List (FunctionNode × Declaration)} {pair : FunctionNode × Declaration}
    (collected : (document.collect options).outcome = .ok functions) (member : pair ∈ functions) :
    pair.1 ∈ FunctionNode.topLevel document.root ∧
      (pair.1.declaration document.source options).outcome = .ok pair.2 := by
  rw [collect_outcome sound] at collected
  obtain ⟨function, among, found⟩ := Outcome.exists_source_of_mapM collected member
  obtain ⟨declaration, declared, same⟩ := Outcome.bind_eq_ok_iff.mp found
  cases same
  exact ⟨among, declared⟩

/-- Once its functions are collected, a document is converted. -/
theorem convert_eq_error_iff (sound : document.Sound) {fault : Fault} :
    (document.convert options).outcome = .error fault ↔
      (document.collect options).outcome = .error fault := by
  cases collected : (document.collect options).outcome with
  | error other =>
      unfold convert
      rw [Run.outcome_bind, collected, Outcome.bind_error, Except.error.injEq, Except.error.injEq]
  | ok functions =>
      have rendered : ∀ function ∈ FunctionNode.topLevel document.root,
          ∃ text, (function.render document.source options).outcome = .ok text := by
        intro function member
        rw [collect_outcome sound] at collected
        obtain ⟨pair, -, found⟩ := Outcome.exists_of_mapM collected member
        obtain ⟨declaration, declared, -⟩ := Outcome.bind_eq_ok_iff.mp found
        exact FunctionNode.exists_render_iff.mpr ⟨declaration, declared⟩
      obtain ⟨output, converted⟩ := (exists_convert_iff sound).mpr rendered
      rw [converted]
      simp

/-- Noting functions of the same name never fails. -/
theorem noteDuplicates_outcome (mains : List (FunctionNode × Declaration)) :
    (noteDuplicates mains).outcome = .ok () := by
  unfold noteDuplicates
  rw [Run.outcome_forM]
  exact Outcome.forM_eq_ok fun _ _ => rfl

/-- Once its functions are collected, a patch fails only with what is reported. -/
theorem convertToPatch_eq_error (sound : document.Sound) {fault : Fault}
    (failed : (document.convertToPatch options).outcome = .error fault) :
    (document.collect options).outcome = .error fault ∨ fault.isUnsupported := by
  unfold convertToPatch at failed
  rw [Run.outcome_bind] at failed
  rcases Outcome.bind_eq_error_iff.mp failed with failed | ⟨functions, collected, failed⟩
  · exact .inl failed
  · right
    have patched : FailsOnly (·.isUnsupported)
        (patchSection document.source options (functions.filter (·.2.isMain))).outcome := by
      unfold patchSection
      split
      next => exact .ok _
      next function declaration rest mains =>
        have member : (function, declaration) ∈ functions.filter (·.2.isMain) := by
          rw [mains]
          exact List.mem_cons_self
        have topLevel := (mem_topLevel_of_collect sound collected (List.mem_filter.mp member).1).1
        rw [Run.outcome_bind]
        refine .bind (Synthesizer.fails_synthesize ?_) fun _ _ => .ok _
        exact FunctionNode.sound_topLevel sound topLevel
    simp only [Run.outcome_bind, noteDuplicates_outcome, Outcome.bind_ok] at failed
    exact FailsOnly.bind patched (fun _ _ => .ok _) fault failed

/-- Where collecting fails, so does the patch, with the same fault. -/
theorem convertToPatch_of_error {fault : Fault}
    (failed : (document.collect options).outcome = .error fault) :
    (document.convertToPatch options).outcome = .error fault := by
  unfold convertToPatch
  rw [Run.outcome_bind, failed]
  rfl

/-- Conversion ends well, or with something that is not supported, or inside a character. -/
theorem fails_convert (sound : document.Sound) :
    FailsOnly (fun fault => fault.isUnsupported ∨ fault = .undecodable)
      (document.convert options).outcome :=
  fun fault failed => fails_collect sound fault ((convert_eq_error_iff sound).mp failed)

/-- Conversion ends inside a character exactly if the document is stuck there. -/
theorem convert_eq_undecodable_iff (sound : document.Sound) :
    (document.convert options).outcome = .error .undecodable ↔ document.Stuck options :=
  (convert_eq_error_iff sound).trans (collect_eq_undecodable_iff sound)

/-- A patch is made, or something is not supported, or a function ends inside a character. -/
theorem fails_convertToPatch (sound : document.Sound) :
    FailsOnly (fun fault => fault.isUnsupported ∨ fault = .undecodable)
      (document.convertToPatch options).outcome := by
  intro fault failed
  rcases convertToPatch_eq_error sound failed with failed | known
  · exact fails_collect sound fault failed
  · exact .inl known

/-- A patch ends inside a character exactly if the document is stuck there. -/
theorem convertToPatch_eq_undecodable_iff (sound : document.Sound) :
    (document.convertToPatch options).outcome = .error .undecodable ↔ document.Stuck options := by
  rw [← collect_eq_undecodable_iff sound]
  constructor
  · intro failed
    exact (convertToPatch_eq_error sound failed).resolve_right (by decide)
  · exact convertToPatch_of_error

/-- The edits of the arrays that a script returns are tidy. -/
theorem tidy_returnEdits (sound : document.Sound) {returns : List Edit}
    (expanded : returnEdits document.source document.root = .ok returns) :
    Edit.Tidy document.source 0 document.source.length returns := by
  rw [returnEdits_eq expanded]
  refine ((sound.tidy_walk.sublist ?_).widen sound.starts.nonneg).extend sound.stops.le_length
  exact List.filter_sublist.filterMap _

/-- Returned arrays of a whole script are expanded unless one has a hole. -/
theorem fails_splice_returnEdits (sound : document.Sound) :
    FailsOnly (·.isUnsupported) (returnEdits document.source document.root >>= fun returns =>
      document.source.splice returns) := by
  refine .bind (fails_returnEdits sound) fun returns expanded => ?_
  obtain ⟨text, spliced, -⟩ :=
    Bytes.exists_splice (tidy_returnEdits sound expanded) sound.starts.ends
  exact .of_ok spliced

end Document

/-! ## Scripts -/

variable {script : String}

/-- What runs on well-laid documents fails as they do, or because a script cannot be read. -/
theorem fails_of_parsed {run : Document → Except Fault String}
    (each : ∀ document, document.Sound →
      FailsOnly (fun fault => fault.isUnsupported ∨ fault = .undecodable) (run document)) :
    FailsOnly (fun fault => fault.isReported ∨ fault = .undecodable)
      (Document.parse script >>= run) := by
  refine .bind (fun fault failed => .inl ?_) fun document parsed fault failed => ?_
  · rw [fault.isReported_eq, Document.fails_parse fault failed, Bool.true_or]
  · refine (each document (Document.sound_of_parse parsed) fault failed).imp_left fun known => ?_
    rw [fault.isReported_eq, known, Bool.or_true]

/-- Only a script that can be read can end inside a character. -/
theorem undecodable_iff_of_parsed {run : Document → Except Fault String} {stuck : Document → Prop}
    (each : ∀ document, document.Sound → (run document = .error .undecodable ↔ stuck document)) :
    (Document.parse script >>= run) = .error .undecodable ↔
      ∃ document, Document.parse script = .ok document ∧ stuck document := by
  rw [Outcome.bind_eq_error_iff]
  constructor
  · rintro (failed | ⟨document, parsed, failed⟩)
    · exact absurd (Document.fails_parse _ failed) (by decide)
    · exact ⟨document, parsed, (each document (Document.sound_of_parse parsed)).mp failed⟩
  · rintro ⟨document, parsed, holds⟩
    exact .inr ⟨document, parsed, (each document (Document.sound_of_parse parsed)).mpr holds⟩

/-- Expansion fails only where an array is not supported. A text that is no script is no fault. -/
theorem fails_expandReturns : FailsOnly (·.isUnsupported) (expandReturns script).outcome := by
  unfold expandReturns
  split
  next => exact .ok _
  next document parsed => exact Document.fails_splice_returnEdits (Document.sound_of_parse parsed)

/-- **Faults that are not reported.** A conversion ends with a text or with a fault
that is told to its user, unless it reaches a function whose body is severed, and the
edits of a body or of a statement never collide. -/
theorem faults_reported_unless_severed (source : String) (options : Options) :
    let stuck := ∃ document, Document.parse source = .ok document ∧
      document.Stuck (options.resolve source)
    (∀ fault, (convert source options).outcome = .error fault →
      fault.isReported ∨ fault = .undecodable) ∧
    (∀ fault, (convertToPatch source options).outcome = .error fault →
      fault.isReported ∨ fault = .undecodable) ∧
    ((convert source options).outcome = .error .undecodable ↔ stuck) ∧
    ((convertToPatch source options).outcome = .error .undecodable ↔ stuck) ∧
    (∀ fault, (expandReturns source).outcome = .error fault → fault.isUnsupported) ∧
    ∀ document, Document.parse source = .ok document →
      ∀ function ∈ FunctionNode.topLevel document.root,
        (∀ returns, returnEdits document.source function.body = .ok returns →
          Edit.Separate function.inside
            (keywordEdits document.source function.body ++ returns)) ∧
        (∀ statement ∈ function.body.namedChildren,
          Edit.Separate statement.span (keywordEdits document.source statement)) ∧
        ∃ parts, Braces.Enclose parts function.body ∧
          (function.Severed document.source ↔ ∃ comment,
            parts.comments.getLast? = some comment ∧
              ¬ document.source.Boundary (comment.span.stop - 1)) := by
  have converted : (convert source options).outcome = Document.parse source >>= fun document =>
      (document.convert (options.resolve source)).outcome := Run.outcome_bind _ _
  have patched : (convertToPatch source options).outcome = Document.parse source >>= fun document =>
      (document.convertToPatch (options.resolve source)).outcome := Run.outcome_bind _ _
  intro stuck
  rw [converted, patched]
  refine ⟨fails_of_parsed fun _ sound => Document.fails_convert sound,
    fails_of_parsed fun _ sound => Document.fails_convertToPatch sound,
    undecodable_iff_of_parsed fun _ sound => Document.convert_eq_undecodable_iff sound,
    undecodable_iff_of_parsed fun _ sound => Document.convertToPatch_eq_undecodable_iff sound,
    fails_expandReturns, ?_⟩
  intro document parsed function member
  have sound := FunctionNode.sound_topLevel (Document.sound_of_parse parsed) member
  refine ⟨fun returns expanded => sound.separate expanded, fun statement among => ?_, ?_⟩
  · exact Edit.Tidy.separate (sound.body.namedChild among).tidy_keywordEdits (.refl _)
  · obtain ⟨parts, enclosed⟩ := sound.braces
    exact ⟨parts, enclosed, sound.severed_iff enclosed⟩

/-- A keyword and a returned array of one body, and a body that is severed. -/
theorem faults_reported_unless_severed_inputs :
    (∃ document function returns,
      Document.parse "function f(a) \x7b let b = a; return [a, b]; \x7d" = .ok document ∧
      function ∈ FunctionNode.topLevel document.root ∧
      returnEdits document.source function.body = .ok returns ∧
      (keywordEdits document.source function.body ++ returns).length = 2 ∧
      Edit.Separate function.inside (keywordEdits document.source function.body ++ returns)) ∧
    ∃ document, Document.parse "function f() \x7b\x7d // \u00e9\nx" = .ok document ∧
      document.Stuck (({} : Options).resolve "function f() \x7b\x7d // \u00e9\nx") := by
  constructor
  · obtain ⟨document, parsed, found⟩ := Outcome.exists_ok_of_any (show
      ((Document.parse "function f(a) \x7b let b = a; return [a, b]; \x7d").toOption.any
        fun document => (FunctionNode.topLevel document.root).any fun function =>
          (returnEdits document.source function.body).toOption.any fun returns =>
            (keywordEdits document.source function.body ++ returns).length = 2) = true by
        decide +kernel)
    obtain ⟨function, member, two⟩ := List.any_eq_true.mp found
    obtain ⟨returns, expanded, two⟩ := Outcome.exists_ok_of_any two
    have all := (faults_reported_unless_severed _ {}).2.2.2.2.2 document parsed function member
    exact ⟨document, function, returns, parsed, member, expanded, of_decide_eq_true two,
      all.1 returns expanded⟩
  · refine (faults_reported_unless_severed _ {}).2.2.1.mp ?_
    decide +kernel

/-- A comment of two bytes per character after the closing brace severs the body. -/
theorem convert_severed :
    (convert "function f() \x7b\x7d // \u00e9\nx" {}).outcome = .error .undecodable := by
  decide +kernel

end Codebox
