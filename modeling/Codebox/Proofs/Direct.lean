import Codebox.Proofs.Parsing.Program
import Codebox.Proofs.Rendering

/-! # Direct mode

Direct mode treats every function of a script on its own and copies what lies
around them.
-/

namespace Codebox

/-- Every function with the text that takes its place. -/
def replacements (functions : List FunctionNode) (texts : List String) : List Edit :=
  List.zipWith (fun function text => ⟨function.node.span, text⟩) functions texts

namespace Document

variable {document : Document} {options : Options} {texts : List String}

/-- Exported functions are noted without a fault if their names can be read. -/
theorem noteExports_of_named (named : ∀ function ∈ FunctionNode.exported document.root,
    ∃ name, function.nameText document.source = .ok name) :
    document.noteExports.outcome = .ok () := by
  unfold noteExports
  rw [Run.outcome_forM]
  refine Outcome.forM_eq_ok fun function member => ?_
  obtain ⟨name, named⟩ := named function member
  rw [Run.outcome_bind, Run.outcome_lift, named]
  rfl

/-- In a well-laid document exported functions are noted without a fault. -/
theorem noteExports_outcome (sound : document.Sound) : document.noteExports.outcome = .ok () :=
  noteExports_of_named fun _ member => (FunctionNode.sound_exported sound member).nameText

/-- Collecting makes the declaration of each function, in order, and stops at the first fault. -/
theorem collect_of_noted (noted : document.noteExports.outcome = .ok ()) :
    (document.collect options).outcome =
      (FunctionNode.topLevel document.root).mapM fun function =>
        (function.declaration document.source options).outcome >>= fun declaration =>
          .ok (function, declaration) := by
  unfold collect
  simp only [Run.outcome_bind, noted, Run.outcome_mapM, Outcome.bind_ok, Run.outcome_write]
  exact bind_pure _

/-- The exported functions have no say in whether the others are rendered. -/
theorem collect_outcome (sound : document.Sound) :
    (document.collect options).outcome =
      (FunctionNode.topLevel document.root).mapM fun function =>
        (function.declaration document.source options).outcome >>= fun declaration =>
          .ok (function, declaration) :=
  collect_of_noted (noteExports_outcome sound)

/-- If every function is rendered, the collected declarations have the rendered
texts. -/
theorem exists_collected {functions : List FunctionNode}
    (rendered : List.Forall₂ (fun function text =>
      (function.render document.source options).outcome = .ok text) functions texts) :
    ∃ collected : List (FunctionNode × Declaration),
      (functions.mapM fun function =>
        (function.declaration document.source options).outcome >>= fun declaration =>
          .ok (function, declaration)) = .ok collected ∧
      (collected.map fun (function, declaration) => ⟨function.node.span, declaration.text⟩) =
        replacements functions texts := by
  induction rendered with
  | nil => exact ⟨[], rfl, rfl⟩
  | @cons function text functions texts first rest ih =>
      obtain ⟨collected, found, same⟩ := ih
      rw [FunctionNode.render_outcome] at first
      obtain ⟨declaration, declared, written⟩ := Outcome.bind_eq_ok_iff.mp first
      refine ⟨(function, declaration) :: collected, ?_, ?_⟩
      · rw [List.mapM_cons, declared, Outcome.bind_ok, Outcome.bind_ok, found]
        rfl
      · rw [List.map_cons, same]
        cases written
        rfl

/-- Replacing functions in a row by texts is tidy. -/
theorem tidy_replacements {source : Bytes} {low high : Int} {functions : List FunctionNode}
    {related : FunctionNode → String → Prop} (rendered : List.Forall₂ related functions texts)
    (row : Node.InRow low high (functions.map FunctionNode.node))
    (each : ∀ function ∈ functions, function.Sound source) :
    Edit.Tidy source low high (replacements functions texts) := by
  induction rendered generalizing low with
  | nil => exact .nil row
  | cons _ _ ih =>
      obtain ⟨starts, -, row⟩ := row
      obtain ⟨first, each⟩ := List.forall_mem_cons.mp each
      exact .cons starts first.wide first.node.starts first.node.stops (ih row each)

/-- Once every function is rendered, the output is the text with each function
replaced. -/
theorem convert_of_rendered (sound : document.Sound)
    (rendered : List.Forall₂ (fun function text =>
      (function.render document.source options).outcome = .ok text)
      (FunctionNode.topLevel document.root) texts) :
    ∃ output, (document.convert options).outcome = .ok output ∧
      Utf8.encode output = document.source.woven document.source.length 0
        (replacements (FunctionNode.topLevel document.root) texts) := by
  obtain ⟨collected, found, same⟩ := exists_collected rendered
  have tidy : Edit.Tidy document.source 0 document.source.length
      (replacements (FunctionNode.topLevel document.root) texts) := by
    refine ((tidy_replacements rendered (FunctionNode.topLevel_row sound) ?_).widen
      sound.starts.nonneg).extend sound.stops.le_length
    exact fun function member => FunctionNode.sound_topLevel sound member
  obtain ⟨output, spliced, written⟩ := Bytes.exists_splice tidy sound.starts.ends
  refine ⟨output, ?_, written⟩
  unfold convert
  rw [Run.outcome_bind, collect_outcome sound, found, Outcome.bind_ok, same, Run.outcome_lift,
    spliced]

/-- The first function that fails decides how the document fails. -/
theorem convert_of_error (sound : document.Sound) {before after : List FunctionNode}
    {function : FunctionNode} {fault : Fault}
    (split : FunctionNode.topLevel document.root = before ++ function :: after)
    (rendered : ∀ earlier ∈ before,
      ∃ text, (earlier.render document.source options).outcome = .ok text)
    (failed : (function.render document.source options).outcome = .error fault) :
    (document.convert options).outcome = .error fault := by
  unfold convert
  rw [Run.outcome_bind, collect_outcome sound, Outcome.bind_eq_error_iff]
  refine .inl (Outcome.mapM_eq_error_iff.mpr ⟨before, function, after, split, ?_, ?_⟩)
  · intro earlier member
    obtain ⟨declaration, declared⟩ := FunctionNode.exists_render_iff.mp (rendered earlier member)
    exact ⟨(earlier, declaration), by rw [declared]; rfl⟩
  · rw [FunctionNode.render_outcome] at failed
    rcases Outcome.bind_eq_error_iff.mp failed with failed | ⟨declaration, -, failed⟩
    · rw [failed]
      rfl
    · cases failed

/-- A document is converted exactly if each of its functions is rendered. -/
theorem exists_convert_iff (sound : document.Sound) :
    (∃ output, (document.convert options).outcome = .ok output) ↔
      ∀ function ∈ FunctionNode.topLevel document.root,
        ∃ text, (function.render document.source options).outcome = .ok text := by
  rw [← Outcome.exists_mapM_iff]
  constructor
  · rintro ⟨output, converted⟩
    cases ended : (FunctionNode.topLevel document.root).mapM fun function =>
        (function.render document.source options).outcome with
    | ok texts => exact ⟨texts, rfl⟩
    | error fault =>
        obtain ⟨before, function, after, split, rendered, failed⟩ :=
          Outcome.mapM_eq_error_iff.mp ended
        rw [convert_of_error sound split rendered failed] at converted
        cases converted
  · rintro ⟨texts, rendered⟩
    obtain ⟨output, converted, -⟩ := convert_of_rendered sound (Outcome.mapM_eq_ok_iff.mp rendered)
    exact ⟨output, converted⟩

/-- Without functions nothing changes. -/
theorem convert_of_no_functions (sound : document.Sound)
    (none : FunctionNode.topLevel document.root = []) {text : String}
    (bytes : document.source = Utf8.encode text) :
    (document.convert options).outcome = .ok text := by
  have rendered : List.Forall₂ (fun function text =>
      (function.render document.source options).outcome = .ok text)
      (FunctionNode.topLevel document.root) [] := by
    rw [none]
    exact .nil
  obtain ⟨output, converted, written⟩ := convert_of_rendered sound rendered
  have kept : Utf8.encode output = document.source := by
    rw [written, none]
    exact Bytes.cut_whole _
  rw [converted, Utf8.encode_injective (kept.trans bytes)]

/-- **A well-laid document is converted function by function.** It is converted exactly if
each of its functions is rendered, and the output is then its text with each function replaced
by what it renders to. Otherwise the first function that is not rendered gives the fault. -/
theorem convert_by_functions (sound : document.Sound) (options : Options) :
    let functions := FunctionNode.topLevel document.root
    let rendered := fun function : FunctionNode =>
      (function.render document.source options).outcome
    let converted := (document.convert options).outcome
    functions.map FunctionNode.node =
      document.root.namedChildren.filter (·.kind = .functionDeclaration) ∧
    ((∃ output, converted = .ok output) ↔
      ∀ function ∈ functions, ∃ text, rendered function = .ok text) ∧
    (∀ texts, List.Forall₂ (fun function text => rendered function = .ok text) functions texts →
      ∃ output, converted = .ok output ∧ Utf8.encode output =
        document.source.woven document.source.length 0 (replacements functions texts)) ∧
    (∀ before function after fault, functions = before ++ function :: after →
      (∀ earlier ∈ before, ∃ text, rendered earlier = .ok text) →
        rendered function = .error fault → converted = .error fault) ∧
    (functions = [] → ∀ text, document.source = Utf8.encode text → converted = .ok text) := by
  refine ⟨FunctionNode.map_node_topLevel sound, exists_convert_iff sound, ?_, ?_, ?_⟩
  · exact fun texts all => convert_of_rendered sound all
  · exact fun before function after fault split earlier failed =>
      convert_of_error sound split earlier failed
  · exact fun none text bytes => convert_of_no_functions sound none bytes

end Document

/-- Converting a script converts its document, with the options that its pragmas choose. -/
theorem convert_outcome {source : String} {document : Document} (options : Options)
    (parsed : Document.parse source = .ok document) :
    (convert source options).outcome = (document.convert (options.resolve source)).outcome := by
  unfold convert
  rw [Run.outcome_bind, Run.outcome_lift, parsed, Outcome.bind_ok]

/-- **Direct mode treats every function on its own.** A script is converted exactly
if each of its functions is rendered, and the output is then the script with each
function replaced by what it renders to. Otherwise the first function that is not
rendered gives the fault. -/
theorem convert_compositional {source : String} {document : Document} (options : Options)
    (parsed : Document.parse source = .ok document) :
    let functions := FunctionNode.topLevel document.root
    let rendered := fun function : FunctionNode =>
      (function.render document.source (options.resolve source)).outcome
    let converted := (convert source options).outcome
    document.source = Utf8.encode source ∧
    functions.map FunctionNode.node =
      document.root.namedChildren.filter (·.kind = .functionDeclaration) ∧
    ((∃ output, converted = .ok output) ↔
      ∀ function ∈ functions, ∃ text, rendered function = .ok text) ∧
    (∀ texts, List.Forall₂ (fun function text => rendered function = .ok text) functions texts →
      ∃ output, converted = .ok output ∧ Utf8.encode output =
        document.source.woven document.source.length 0 (replacements functions texts)) ∧
    (∀ before function after fault, functions = before ++ function :: after →
      (∀ earlier ∈ before, ∃ text, rendered earlier = .ok text) →
        rendered function = .error fault → converted = .error fault) ∧
    (functions = [] → converted = .ok source) := by
  have bytes := (Document.parse_eq_ok parsed).1
  obtain ⟨nodes, whole, texts, first, none⟩ :=
    Document.convert_by_functions (Document.sound_of_parse parsed) (options.resolve source)
  rw [← convert_outcome options parsed] at whole texts first none
  exact ⟨bytes, nodes, whole, texts, first, fun empty => none empty source bytes⟩

/-- Two functions after a character of two bytes. -/
def twoFunctions : String :=
  "\u00e9; function f(a) \x7b return [a, 1]; \x7d function g() \x7b let x = 2; \x7d"

/-- Two functions after a character of two bytes are both rendered. -/
theorem convert_compositional_two_functions :
    ∃ document, Document.parse twoFunctions = .ok document ∧
      (FunctionNode.topLevel document.root).length = 2 ∧
      ∀ function ∈ FunctionNode.topLevel document.root, ∃ text,
        (function.render document.source (({} : Options).resolve twoFunctions)).outcome =
          .ok text := by
  obtain ⟨document, parsed, two⟩ := Outcome.exists_ok_of_any (show
    ((Document.parse twoFunctions).toOption.any fun document =>
      (FunctionNode.topLevel document.root).length = 2) = true by decide +kernel)
  refine ⟨document, parsed, of_decide_eq_true two, ?_⟩
  refine (convert_compositional {} parsed).2.2.1.mp
    ⟨"\u00e9; f(a) \x7b return a, 1; \x7d g() \x7b x = 2; \x7d", ?_⟩
  decide +kernel

end Codebox
