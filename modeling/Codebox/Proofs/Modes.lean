import Codebox.Proofs.Faults

/-! # The two modes agree

Patch mode renders the functions of a script as direct mode does, and then makes the
patch of the main function. It fails as direct mode fails. Otherwise only the patch
can fail, and what patch mode gives are the texts that direct mode puts in the places
of the other functions, with the patch after them.
-/

namespace Codebox

/-- Whether a function has this name. -/
def FunctionNode.isNamed (source : Bytes) (name : String) (function : FunctionNode) : Bool :=
  function.nameText source = .ok name

/-- The patch that a function makes. -/
def FunctionNode.patch (source : Bytes) (options : Options) (function : FunctionNode) :
    Except Fault String :=
  (Synthesizer.synthesize { source, function, options }).2.outcome

/-- The texts of the functions that have another name. -/
def otherTexts (source : Bytes) (name : String) (functions : List FunctionNode)
    (texts : List String) : List String :=
  ((functions.zip texts).filter (!·.1.isNamed source name)).map (·.2)

/-- A patch as a section of its own, unless it is empty. -/
def patchSections (patch : String) : List String :=
  if patch = "" then [] else [patch]

namespace Document

variable {document : Document} {options : Options}
  {collected : List (FunctionNode × Declaration)}

/-- A function is the main one if it has the name that the options give. -/
theorem isMain_eq_isNamed {source : Bytes} {function : FunctionNode} {declaration : Declaration}
    (readable : ∃ name, function.nameText source = .ok name)
    (declared : (function.declaration source options).outcome = .ok declaration) :
    declaration.isMain = function.isNamed source options.mainName := by
  obtain ⟨name, named⟩ := readable
  rw [function.declaration_outcome options named] at declared
  obtain ⟨parameters, -, declared⟩ := Outcome.bind_eq_ok_iff.mp declared
  obtain ⟨body, -, declared⟩ := Outcome.bind_eq_ok_iff.mp declared
  cases declared
  simp [FunctionNode.isNamed, named]

/-- Every function is collected with its declaration, in order. -/
theorem forall₂_of_collect (sound : document.Sound)
    (found : (document.collect options).outcome = .ok collected) :
    List.Forall₂ (fun function pair => pair.1 = function ∧
        (function.declaration document.source options).outcome = .ok pair.2)
      (FunctionNode.topLevel document.root) collected := by
  rw [collect_outcome sound] at found
  apply (Outcome.mapM_eq_ok_iff.mp found).imp
  intro function pair paired
  obtain ⟨declaration, declared, same⟩ := Outcome.bind_eq_ok_iff.mp paired
  cases same
  exact ⟨rfl, declared⟩

/-- What is collected are the functions at the top level. -/
theorem map_fst_of_collect (sound : document.Sound)
    (found : (document.collect options).outcome = .ok collected) :
    collected.map Prod.fst = FunctionNode.topLevel document.root := by
  have paired := forall₂_of_collect sound found
  clear found
  generalize FunctionNode.topLevel document.root = functions at paired
  induction paired with
  | nil => rfl
  | cons first _ ih => rw [List.map_cons, first.1, ih]

/-- What is collected is what the functions render to, one by one. -/
theorem rendered_of_collect (sound : document.Sound)
    (found : (document.collect options).outcome = .ok collected) :
    List.Forall₂ (fun function text =>
        (function.render document.source options).outcome = .ok text)
      (FunctionNode.topLevel document.root) (collected.map (·.2.text)) := by
  rw [List.forall₂_map_right_iff]
  apply (forall₂_of_collect sound found).imp
  intro function pair paired
  rw [FunctionNode.render_outcome, paired.2]
  rfl

/-- What is collected is marked as main by its name alone. -/
theorem isMain_of_collect (sound : document.Sound)
    (found : (document.collect options).outcome = .ok collected) :
    ∀ pair ∈ collected, pair.2.isMain = pair.1.isNamed document.source options.mainName := by
  intro pair member
  obtain ⟨topLevel, declared⟩ := mem_topLevel_of_collect sound found member
  exact isMain_eq_isNamed (FunctionNode.sound_topLevel sound topLevel).nameText declared

/-- The first main function is the first one with the name. -/
theorem head?_mains (sound : document.Sound)
    (found : (document.collect options).outcome = .ok collected) :
    (collected.filter (·.2.isMain)).head?.map Prod.fst =
      (FunctionNode.topLevel document.root).find?
        (·.isNamed document.source options.mainName) := by
  rw [← map_fst_of_collect sound found, List.find?_map, List.head?_filter]
  congr 1
  have same := isMain_of_collect sound found
  generalize collected = pairs at same
  induction pairs with
  | nil => rfl
  | cons pair rest ih =>
      obtain ⟨first, others⟩ := List.forall_mem_cons.mp same
      simp only [List.find?_cons, first, ih others, Function.comp_apply]

/-- The other sections are the texts of the functions with another name. -/
theorem texts_of_others (sound : document.Sound)
    (found : (document.collect options).outcome = .ok collected) :
    (collected.filter (!·.2.isMain)).map (·.2.text) =
      otherTexts document.source options.mainName (FunctionNode.topLevel document.root)
        (collected.map (·.2.text)) := by
  have zipped : (FunctionNode.topLevel document.root).zip (collected.map (·.2.text)) =
      collected.map fun pair => (pair.1, pair.2.text) := by
    rw [← map_fst_of_collect sound found, List.zip_map']
  have same : collected.filter (!·.2.isMain) =
      collected.filter (!·.1.isNamed document.source options.mainName) := by
    apply List.filter_congr
    intro pair member
    rw [isMain_of_collect sound found pair member]
  unfold otherTexts
  rw [zipped, same, List.filter_map, List.map_map]
  rfl

/-- Once the functions are collected, only the patch is left to be made. -/
theorem convertToPatch_of_collect (sound : document.Sound)
    (found : (document.collect options).outcome = .ok collected) :
    (document.convertToPatch options).outcome =
      (patchSection document.source options (collected.filter (·.2.isMain))).outcome >>=
        fun patch => .ok (Text.joined "\n\n"
          (otherTexts document.source options.mainName (FunctionNode.topLevel document.root)
            (collected.map (·.2.text)) ++ patch)) := by
  rw [← texts_of_others sound found]
  unfold convertToPatch
  simp only [Run.outcome_bind, found, Outcome.bind_ok, noteDuplicates_outcome]
  rfl

/-- Without a main function the patch has no section. -/
theorem patchSection_of_none {mains : List (FunctionNode × Declaration)} {source : Bytes}
    (absent : mains.head?.map Prod.fst = none) :
    (patchSection source options mains).outcome = .ok [] := by
  cases mains with
  | nil => rfl
  | cons => simp at absent

/-- The section of a patch is that of its first main function. -/
theorem patchSection_of_some {mains : List (FunctionNode × Declaration)} {source : Bytes}
    {main : FunctionNode} (first : mains.head?.map Prod.fst = some main) :
    (patchSection source options mains).outcome =
      main.patch source options >>= fun patch => .ok (patchSections patch) := by
  cases mains with
  | nil => simp at first
  | cons pair rest =>
      simp only [List.head?_cons, Option.map_some, Option.some.injEq] at first
      subst first
      unfold patchSection
      rw [Run.outcome_bind]
      rfl

/-- Without a main function there are only the other texts. -/
theorem convertToPatch_of_none (sound : document.Sound)
    (found : (document.collect options).outcome = .ok collected)
    (absent : (FunctionNode.topLevel document.root).find?
      (·.isNamed document.source options.mainName) = none) :
    (document.convertToPatch options).outcome = .ok (Text.joined "\n\n"
      (otherTexts document.source options.mainName (FunctionNode.topLevel document.root)
        (collected.map (·.2.text)))) := by
  rw [← head?_mains sound found] at absent
  rw [convertToPatch_of_collect sound found, patchSection_of_none absent, Outcome.bind_ok,
    List.append_nil]

/-- The patch of the first main function comes after the other texts. -/
theorem convertToPatch_of_some (sound : document.Sound)
    (found : (document.collect options).outcome = .ok collected) {main : FunctionNode}
    (first : (FunctionNode.topLevel document.root).find?
      (·.isNamed document.source options.mainName) = some main) :
    (document.convertToPatch options).outcome = main.patch document.source options >>=
      fun patch => .ok (Text.joined "\n\n"
        (otherTexts document.source options.mainName (FunctionNode.topLevel document.root)
          (collected.map (·.2.text)) ++ patchSections patch)) := by
  rw [← head?_mains sound found] at first
  rw [convertToPatch_of_collect sound found, patchSection_of_some first]
  cases main.patch document.source options with
  | error fault => rfl
  | ok patch => rfl

/-- A document that is converted has all its functions collected. -/
theorem exists_collect_of_convert (sound : document.Sound) {output : String}
    (converted : (document.convert options).outcome = .ok output) :
    ∃ collected, (document.collect options).outcome = .ok collected ∧
      Utf8.encode output = document.source.woven document.source.length 0
        (replacements (FunctionNode.topLevel document.root) (collected.map (·.2.text))) := by
  cases found : (document.collect options).outcome with
  | error fault =>
      rw [(convert_eq_error_iff sound).mpr found] at converted
      cases converted
  | ok collected =>
      obtain ⟨again, convertedAgain, written⟩ :=
        convert_of_rendered sound (rendered_of_collect sound found)
      rw [converted] at convertedAgain
      cases convertedAgain
      exact ⟨collected, rfl, written⟩

end Document

/-- The patch of a script is that of its document. -/
theorem convertToPatch_outcome {source : String} {document : Document} (options : Options)
    (parsed : Document.parse source = .ok document) :
    (convertToPatch source options).outcome =
      (document.convertToPatch (options.resolve source)).outcome := by
  unfold convertToPatch
  rw [Run.outcome_bind, Run.outcome_lift, parsed, Outcome.bind_ok]

/-- **Patch mode follows direct mode.** It fails with the fault of direct mode.
Otherwise the patch of the first function with the main name decides: patch mode fails
if that patch cannot be made, and else gives the texts that direct mode puts in for the
functions with another name, and the patch if there is one that is not empty. -/
theorem convertToPatch_follows_convert (source : String) (options : Options) :
    let chosen := options.resolve source
    let patched := (convertToPatch source options).outcome
    (∀ fault, (convert source options).outcome = .error fault → patched = .error fault) ∧
    ∀ output, (convert source options).outcome = .ok output →
      ∃ document texts, Document.parse source = .ok document ∧
        let functions := FunctionNode.topLevel document.root
        let others := otherTexts document.source chosen.mainName functions texts
        let main? := functions.find? (·.isNamed document.source chosen.mainName)
        List.Forall₂ (fun function text =>
          (function.render document.source chosen).outcome = .ok text) functions texts ∧
        Utf8.encode output = document.source.woven document.source.length 0
          (replacements functions texts) ∧
        (main? = none → patched = .ok (Text.joined "\n\n" others)) ∧
        ∀ main, main? = some main →
          (∀ fault, main.patch document.source chosen = .error fault →
            fault.isUnsupported ∧ patched = .error fault) ∧
          ∀ patch, main.patch document.source chosen = .ok patch →
            patched = .ok (Text.joined "\n\n" (others ++ patchSections patch)) := by
  have converted : (convert source options).outcome = Document.parse source >>= fun document =>
      (document.convert (options.resolve source)).outcome := Run.outcome_bind _ _
  have followed : (convertToPatch source options).outcome = Document.parse source >>=
      fun document => (document.convertToPatch (options.resolve source)).outcome :=
    Run.outcome_bind _ _
  intro chosen patched
  change (∀ fault, _ → (convertToPatch source options).outcome = .error fault) ∧ _
  rw [converted, followed]
  constructor
  · intro fault failed
    rcases Outcome.bind_eq_error_iff.mp failed with failed | ⟨document, parsed, failed⟩
    · rw [failed]
      rfl
    · have sound := Document.sound_of_parse parsed
      rw [parsed, Outcome.bind_ok]
      exact Document.convertToPatch_of_error ((Document.convert_eq_error_iff sound).mp failed)
  · intro output ended
    obtain ⟨document, parsed, ended⟩ := Outcome.bind_eq_ok_iff.mp ended
    have sound := Document.sound_of_parse parsed
    have same : patched = (document.convertToPatch chosen).outcome := by
      change (convertToPatch source options).outcome = _
      rw [followed, parsed, Outcome.bind_ok]
    obtain ⟨collected, found, written⟩ := Document.exists_collect_of_convert sound ended
    refine ⟨document, collected.map (·.2.text), parsed,
      Document.rendered_of_collect sound found, written, ?_, ?_⟩
    · intro absent
      exact same.trans (Document.convertToPatch_of_none sound found absent)
    · intro main first
      rw [Document.convertToPatch_of_some sound found first] at same
      constructor
      · intro fault failed
        have member := FunctionNode.sound_topLevel sound (List.mem_of_find?_eq_some first)
        rw [failed] at same
        exact ⟨Synthesizer.fails_synthesize member fault failed, same⟩
      · intro patch made
        rw [made] at same
        exact same

/-- A script that neither mode takes, and one with a main function and another one. -/
theorem convertToPatch_follows_convert_inputs :
    (convert "function f(...a) \x7b\x7d" {}).outcome =
      .error (.unsupported (.restParameter "...a") ⟨1, 12⟩) ∧
    (convertToPatch "function f(...a) \x7b\x7d" {}).outcome =
      .error (.unsupported (.restParameter "...a") ⟨1, 12⟩) ∧
    ∃ document texts main,
      Document.parse "function main(a, b=2) \x7b return [a, b]; \x7d function g() \x7b\x7d" =
        .ok document ∧
      (FunctionNode.topLevel document.root).find? (·.isNamed document.source "main") = some main ∧
      main.patch document.source {} = .ok "Param b(2);\na = in1;\n\nout1 = a;\nout2 = b;" ∧
      (convertToPatch "function main(a, b=2) \x7b return [a, b]; \x7d function g() \x7b\x7d"
        {}).outcome = .ok (Text.joined "\n\n"
          (otherTexts document.source "main" (FunctionNode.topLevel document.root) texts ++
            patchSections "Param b(2);\na = in1;\n\nout1 = a;\nout2 = b;")) := by
  have failed : (convert "function f(...a) \x7b\x7d" {}).outcome =
      .error (.unsupported (.restParameter "...a") ⟨1, 12⟩) := by decide +kernel
  refine ⟨failed, (convertToPatch_follows_convert _ {}).1 _ failed, ?_⟩
  have ended : (convert "function main(a, b=2) \x7b return [a, b]; \x7d function g() \x7b\x7d"
      {}).outcome = .ok "main(a, b=2) \x7b return a, b; \x7d g() \x7b\x7d" := by decide +kernel
  obtain ⟨document, texts, parsed, -, -, -, all⟩ := (convertToPatch_follows_convert _ {}).2 _ ended
  obtain ⟨again, parsedAgain, found⟩ := Outcome.exists_ok_of_any (show
    ((Document.parse
      "function main(a, b=2) \x7b return [a, b]; \x7d function g() \x7b\x7d").toOption.any
        fun document => ((FunctionNode.topLevel document.root).find?
          (·.isNamed document.source "main")).any fun main =>
            main.patch document.source {} =
              .ok "Param b(2);\na = in1;\n\nout1 = a;\nout2 = b;") = true by decide +kernel)
  rw [parsed] at parsedAgain
  cases parsedAgain
  cases first : (FunctionNode.topLevel document.root).find?
      (·.isNamed document.source "main") with
  | none =>
      rw [first] at found
      cases found
  | some main =>
      rw [first] at found
      have made := of_decide_eq_true found
      exact ⟨document, texts, main, parsed, first, made, (all main first).2 _ made⟩

end Codebox
