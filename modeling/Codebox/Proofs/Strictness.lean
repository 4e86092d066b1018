import Codebox.Proofs.Modes

/-! # Strictness only rejects

A strict conversion refuses default values that are no literals. It is a lax conversion in
all else: what it gives, the lax one gives too, and where only the lax one gives a text,
the strict one stops at the first such value of the script. A pragma may make both runs
strict, and then they are the same.
-/

namespace Codebox

/-! ## A strict outcome beside a lax one -/

/-- The strict outcome gives only what the lax one gives. Where the lax one gives a value,
the strict one gives it too unless something was found to refuse, and then it fails
because of that. -/
structure Tightens {ι α : Type} (because : ι → Fault → Prop) (found : Option ι)
    (strict lax : Except Fault α) : Prop where
  kept : ∀ value, strict = .ok value → lax = .ok value
  clear : ∀ value, lax = .ok value → found = none → strict = .ok value
  refused : ∀ value item, lax = .ok value → found = some item →
    ∃ fault, strict = .error fault ∧ because item fault

namespace Tightens

variable {ι α β : Type} {because : ι → Fault → Prop} {found other : Option ι}
  {strict lax : Except Fault α}

theorem refl (outcome : Except Fault α) : Tightens because none outcome outcome where
  kept := fun _ ended => ended
  clear := fun _ ended _ => ended
  refused := fun _ _ _ impossible => by cases impossible

/-- Where the lax outcome is a fault, whatever was found does not matter. -/
theorem of_ne_ok (outcome : Except Fault α) (fails : ∀ value, outcome ≠ .ok value) :
    Tightens because found outcome outcome where
  kept := fun _ ended => ended
  clear := fun _ ended _ => ended
  refused := fun value _ ended _ => (fails value ended).elim

/-- What the first of two computations refuses comes before what the second refuses. -/
theorem bind {next again : α → Except Fault β} (head : Tightens because found strict lax)
    (tail : ∀ value, strict = .ok value → Tightens because other (next value) (again value)) :
    Tightens because (found.or other) (strict >>= next) (lax >>= again) where
  kept := by
    intro result ended
    obtain ⟨value, first, second⟩ := Outcome.bind_eq_ok_iff.mp ended
    exact Outcome.bind_eq_ok_iff.mpr
      ⟨value, head.kept value first, (tail value first).kept result second⟩
  clear := by
    intro result ended none
    obtain ⟨nothing, further⟩ := Option.or_eq_none_iff.mp none
    obtain ⟨value, first, second⟩ := Outcome.bind_eq_ok_iff.mp ended
    have same := head.clear value first nothing
    exact Outcome.bind_eq_ok_iff.mpr
      ⟨value, same, (tail value same).clear result second further⟩
  refused := by
    intro result item ended some
    obtain ⟨value, first, second⟩ := Outcome.bind_eq_ok_iff.mp ended
    rcases Option.or_eq_some_iff.mp some with here | ⟨nothing, there⟩
    · obtain ⟨fault, failed, reason⟩ := head.refused value item first here
      exact ⟨fault, Outcome.bind_eq_error_iff.mpr (.inl failed), reason⟩
    · have same := head.clear value first nothing
      obtain ⟨fault, failed, reason⟩ := (tail value same).refused result item second there
      exact ⟨fault, Outcome.bind_eq_error_iff.mpr (.inr ⟨value, same, failed⟩), reason⟩

/-- What follows may be the same in both. -/
theorem bind_same {next again : α → Except Fault β} (head : Tightens because found strict lax)
    (tail : ∀ value, strict = .ok value → next value = again value) :
    Tightens because found (strict >>= next) (lax >>= again) := by
  rw [← Option.or_none (o := found)]
  refine head.bind fun value ended => ?_
  rw [tail value ended]
  exact refl _

/-- Of several computations in sequence the first that refuses something decides. -/
theorem mapM {refuses : α → Option ι} {f g : α → Except Fault β} {items : List α}
    (each : ∀ item ∈ items, Tightens because (refuses item) (f item) (g item)) :
    Tightens because (items.findSome? refuses) (items.mapM f) (items.mapM g) := by
  induction items with
  | nil => exact refl _
  | cons item rest ih =>
      obtain ⟨here, each⟩ := List.forall_mem_cons.mp each
      have first : (item :: rest).findSome? refuses =
          (refuses item).or (rest.findSome? refuses) := by
        rw [List.findSome?_cons]
        cases refuses item <;> rfl
      rw [first, List.mapM_cons, List.mapM_cons]
      exact here.bind fun _ _ => (ih each).bind_same fun _ _ => rfl

end Tightens

/-! ## Parameters -/

/-- Whether a parameter has a default value that is no literal. -/
def Node.hasComputedDefault (parameter : Node) : Bool :=
  parameter.kind = .assignmentPattern && (parameter.child? .right).any (!·.isLiteral)

/-- The fault that refuses the default value of a parameter. It stands where the value
starts. -/
def Node.RefusesDefault (source : Bytes) (parameter : Node) (fault : Fault) : Prop :=
  ∃ left right name initial, parameter.child? .left = some left ∧
    parameter.child? .right = some right ∧ left.text source = .ok name ∧
    right.text source = .ok initial ∧
    fault = .unsupported (.computedDefault name initial) right.location

variable {source : Bytes} {main : String}

/-- A parameter that is refused gives no value. -/
theorem refuseDestructuring_ne_ok {α : Type} (node : Node) (value : α) :
    refuseDestructuring source node ≠ .ok value := by
  unfold refuseDestructuring
  cases node.text source with
  | error fault => exact nofun
  | ok text => exact nofun

/-- Strict reading of a parameter refuses it for a computed default, and else changes nothing. -/
theorem tightens_readParameter (source : Bytes) (main : String) (node : Node) :
    Tightens (Node.RefusesDefault source) (Option.guard Node.hasComputedDefault node)
      (readParameter source ⟨true, main⟩ node) (readParameter source ⟨false, main⟩ node) := by
  by_cases pattern : node.kind = .assignmentPattern
  · simp only [readParameter, pattern]
    split
    next left right foundLeft foundRight =>
      split
      · cases readName : left.text source with
        | error fault => exact .of_ne_ok _ nofun
        | ok name =>
            cases readInitial : right.text source with
            | error fault => exact .of_ne_ok _ nofun
            | ok initial =>
                -- The value is known to be readable, so only the strict run can still stop.
                simp only [Outcome.bind_ok, Bool.true_and, Bool.false_and]
                cases literal : right.isLiteral with
                | true =>
                    have kept : Option.guard Node.hasComputedDefault node = none := by
                      simp [Node.hasComputedDefault, foundRight, literal]
                    rw [kept]
                    exact .refl _
                | false =>
                    have found : Option.guard Node.hasComputedDefault node = some node := by
                      simp [Node.hasComputedDefault, pattern, foundRight, literal]
                    rw [found]
                    refine ⟨nofun, nofun, ?_⟩
                    rintro - _ - ⟨⟩
                    exact ⟨_, rfl, left, right, name, initial, foundLeft, foundRight, readName,
                      readInitial, rfl⟩
      · exact .of_ne_ok _ (refuseDestructuring_ne_ok node)
    next => exact .of_ne_ok _ (refuseDestructuring_ne_ok node)
  · have plain : Option.guard Node.hasComputedDefault node = none := by
      simp [Node.hasComputedDefault, pattern]
    have same : readParameter source ⟨true, main⟩ node =
        readParameter source ⟨false, main⟩ node := by
      unfold readParameter
      split
      · rfl
      · exact (pattern ‹_›).elim
      · rfl
      · rfl
    rw [plain, same]
    exact .refl _

/-! ## Functions -/

namespace FunctionNode

/-- Strict reading of parameters refuses the first with a computed default. -/
theorem tightens_readParameters (source : Bytes) (main : String) (function : FunctionNode) :
    Tightens (Node.RefusesDefault source)
      (function.parameters.parts.find? Node.hasComputedDefault)
      (function.readParameters source ⟨true, main⟩)
      (function.readParameters source ⟨false, main⟩) := by
  rw [← List.findSome?_guard]
  exact .mapM fun parameter _ => tightens_readParameter source main parameter

/-- Strict declaring refuses the first parameter with a computed default. -/
theorem tightens_declaration (source : Bytes) (main : String) (function : FunctionNode) :
    Tightens (Node.RefusesDefault source)
      (function.parameters.parts.find? Node.hasComputedDefault)
      (function.declaration source ⟨true, main⟩).outcome
      (function.declaration source ⟨false, main⟩).outcome := by
  unfold declaration
  rw [Run.outcome_bind, Run.outcome_bind]
  exact (tightens_readParameters source main function).bind_same fun _ _ => rfl

/-- A function that is strictly rendered makes the same patch either way. -/
theorem patch_eq_of_declared {function : FunctionNode} {declaration : Declaration}
    (declared : (function.declaration source ⟨true, main⟩).outcome = .ok declaration) :
    function.patch source ⟨true, main⟩ = function.patch source ⟨false, main⟩ := by
  unfold FunctionNode.declaration at declared
  rw [Run.outcome_bind] at declared
  obtain ⟨parameters, read, -⟩ := Outcome.bind_eq_ok_iff.mp declared
  have strict : function.readParameters source ⟨true, main⟩ = .ok parameters := read
  have lax := (tightens_readParameters source main function).kept parameters strict
  unfold patch
  rw [Synthesizer.synthesize_outcome, Synthesizer.synthesize_outcome]
  unfold Synthesizer.header
  rw [strict, lax]
  rfl

end FunctionNode

/-! ## Documents -/

namespace Document

/-- The parameters of all functions of a script, in the order of the text. -/
def parameters (document : Document) : List Node :=
  (FunctionNode.topLevel document.root).flatMap (·.parameters.parts)

variable {document : Document}

/-- Strict collecting refuses the first parameter of the document with a computed default. -/
theorem tightens_collect (sound : document.Sound) (main : String) :
    Tightens (Node.RefusesDefault document.source)
      (document.parameters.find? Node.hasComputedDefault)
      (document.collect ⟨true, main⟩).outcome (document.collect ⟨false, main⟩).outcome := by
  unfold parameters
  rw [collect_outcome sound, collect_outcome sound, List.find?_flatMap]
  refine .mapM fun function _ => ?_
  exact (function.tightens_declaration document.source main).bind_same fun _ _ => rfl

/-- Strict conversion refuses the first parameter of the document with a computed default. -/
theorem tightens_convert (sound : document.Sound) (main : String) :
    Tightens (Node.RefusesDefault document.source)
      (document.parameters.find? Node.hasComputedDefault)
      (document.convert ⟨true, main⟩).outcome (document.convert ⟨false, main⟩).outcome := by
  unfold convert
  rw [Run.outcome_bind, Run.outcome_bind]
  exact (tightens_collect sound main).bind_same fun _ _ => rfl

/-- The parameters of the main function are read once more for its patch. By then they
have been read strictly, so the patch does not tell the two runs apart. -/
theorem patchSection_eq_of_collect (sound : document.Sound)
    {collected : List (FunctionNode × Declaration)}
    (found : (document.collect ⟨true, main⟩).outcome = .ok collected) :
    (patchSection document.source ⟨true, main⟩ (collected.filter (·.2.isMain))).outcome =
      (patchSection document.source ⟨false, main⟩ (collected.filter (·.2.isMain))).outcome := by
  cases mains : collected.filter (·.2.isMain) with
  | nil => rfl
  | cons pair rest =>
      have member : pair ∈ collected := by
        apply List.mem_of_mem_filter (p := (·.2.isMain))
        rw [mains]
        exact List.mem_cons_self
      have declared := (mem_topLevel_of_collect sound found member).2
      rw [patchSection_of_some rfl, patchSection_of_some rfl,
        FunctionNode.patch_eq_of_declared declared]

/-- A strict patch refuses the first parameter of the document with a computed default. -/
theorem tightens_convertToPatch (sound : document.Sound) (main : String) :
    Tightens (Node.RefusesDefault document.source)
      (document.parameters.find? Node.hasComputedDefault)
      (document.convertToPatch ⟨true, main⟩).outcome
      (document.convertToPatch ⟨false, main⟩).outcome := by
  unfold convertToPatch
  rw [Run.outcome_bind, Run.outcome_bind]
  refine (tightens_collect sound main).bind_same fun collected found => ?_
  simp only [Run.outcome_bind, noteDuplicates_outcome, Outcome.bind_ok,
    patchSection_eq_of_collect sound found]

/-- The parameters of a script stand in a row. -/
theorem row_parameters (sound : document.Sound) :
    Node.InRow document.root.span.start document.root.span.stop document.parameters := by
  have row := FunctionNode.topLevel_row sound
  rw [Node.InRow, List.map_map] at row
  rw [Node.InRow, parameters, List.map_flatMap]
  refine row.flatMap fun function member => ?_
  have soundFunction := FunctionNode.sound_topLevel sound member
  have inside := soundFunction.node.row.inside (List.mem_map_of_mem soundFunction.listed)
  exact (soundFunction.parameters.row_parts.widen inside.1).extend inside.2.2

/-- What is found first among the parameters is what starts first in the text. -/
theorem start_le_of_find?_parameters (sound : document.Sound) {test : Node → Bool}
    {parameter other : Node} (found : document.parameters.find? test = some parameter)
    (member : other ∈ document.parameters) (holds : test other) :
    parameter.span.start ≤ other.span.start := by
  obtain ⟨-, before, after, split, failed⟩ := List.find?_eq_some_iff_append.mp found
  have row := row_parameters sound
  rw [split, Node.InRow, List.map_append, List.map_cons] at row
  obtain ⟨-, order, row⟩ := Span.row_append_cons.mp row
  rw [split] at member
  rcases List.mem_append.mp member with earlier | member
  · have refuted := failed other earlier
    simp [holds] at refuted
  · rcases List.mem_cons.mp member with rfl | later
    · exact Int.le_refl _
    · exact Int.le_trans order (row.inside (List.mem_map_of_mem later)).1

end Document

/-! ## Scripts -/

/-- A strict outcome beside a lax one, as a user sees them: strictness changes no value and
mends no failure, and where it alone makes the difference there is a reason. -/
structure OnlyRejects {α : Type} (reason : Fault → Prop) (strict lax : Except Fault α) :
    Prop where
  same : ∀ value, strict = .ok value → lax = .ok value
  fails : ∀ fault, lax = .error fault → ∃ other, strict = .error other
  because : ∀ value fault, lax = .ok value → strict = .error fault → reason fault

theorem OnlyRejects.refl {α : Type} (reason : Fault → Prop) (outcome : Except Fault α) :
    OnlyRejects reason outcome outcome where
  same := fun _ ended => ended
  fails := fun fault failed => ⟨fault, failed⟩
  because := by
    intro value fault ended failed
    rw [ended] at failed
    cases failed

/-- What is tightened only rejects more, and for what was found. -/
theorem Tightens.onlyRejects {ι α : Type} {because : ι → Fault → Prop} {found : Option ι}
    {strict lax : Except Fault α} (tightened : Tightens because found strict lax) :
    OnlyRejects (fun fault => ∃ item, found = some item ∧ because item fault) strict lax where
  same := tightened.kept
  fails := by
    intro fault failed
    cases ended : strict with
    | error other => exact ⟨other, rfl⟩
    | ok value =>
        rw [tightened.kept value ended] at failed
        cases failed
  because := by
    intro value fault ended failed
    cases something : found with
    | none =>
        rw [tightened.clear value ended something] at failed
        cases failed
    | some item =>
        obtain ⟨other, refused, reason⟩ := tightened.refused value item ended something
        rw [failed] at refused
        cases refused
        exact ⟨item, rfl, reason⟩

/-- The fault that refuses the first default value of a script that is no literal, where
the parameters of all functions are taken in the order of the text. -/
def RefusesFirstDefault (script : String) (fault : Fault) : Prop :=
  ∃ document parameter, Document.parse script = .ok document ∧
    document.parameters.find? Node.hasComputedDefault = some parameter ∧
    (∀ other ∈ document.parameters, other.hasComputedDefault →
      parameter.span.start ≤ other.span.start) ∧
    parameter.RefusesDefault document.source fault

/-- Pragmas leave a strict run strict and may make a lax one strict. They name the main
function alike in both. -/
theorem exists_resolve (script main : String) : ∃ pragma chosen,
    (⟨true, main⟩ : Options).resolve script = ⟨true, chosen⟩ ∧
      (⟨false, main⟩ : Options).resolve script = ⟨pragma, chosen⟩ :=
  ⟨_, _, rfl, rfl⟩

/-- A mode that only rejects on every document only rejects on every script. -/
theorem onlyRejects_of_tightens (run : Document → Options → Except Fault String)
    (each : ∀ document, document.Sound → ∀ chosen,
      Tightens (Node.RefusesDefault document.source)
        (document.parameters.find? Node.hasComputedDefault)
        (run document ⟨true, chosen⟩) (run document ⟨false, chosen⟩)) (script main : String) :
    OnlyRejects (RefusesFirstDefault script)
      (Document.parse script >>= fun document =>
        run document ((⟨true, main⟩ : Options).resolve script))
      (Document.parse script >>= fun document =>
        run document ((⟨false, main⟩ : Options).resolve script)) := by
  obtain ⟨pragma, chosen, strict, lax⟩ := exists_resolve script main
  rw [strict, lax]
  cases pragma with
  -- With the pragma both runs are strict, and they are one run.
  | true => exact .refl _ _
  | false =>
      cases parsed : Document.parse script with
      | error fault => exact .refl _ _
      | ok document =>
          have sound := Document.sound_of_parse parsed
          obtain ⟨same, fails, because⟩ := (each document sound chosen).onlyRejects
          refine ⟨same, fails, fun value fault ended failed => ?_⟩
          obtain ⟨parameter, found, refused⟩ := because value fault ended failed
          refine ⟨document, parameter, parsed, found, ?_, refused⟩
          intro other member holds
          exact Document.start_le_of_find?_parameters sound found member holds

/-- **Strictness only rejects.** In either mode a strict run that gives a text gives the
text of the lax run, and it fails where the lax run fails. Where the lax run alone gives a
text, the strict run refuses the first default value of the script that is no literal. -/
theorem strictness_only_rejects (script main : String) :
    OnlyRejects (RefusesFirstDefault script)
      (convert script ⟨true, main⟩).outcome (convert script ⟨false, main⟩).outcome ∧
    OnlyRejects (RefusesFirstDefault script)
      (convertToPatch script ⟨true, main⟩).outcome
      (convertToPatch script ⟨false, main⟩).outcome := by
  unfold convert convertToPatch
  simp only [Run.outcome_bind, Run.outcome_lift]
  constructor
  · exact onlyRejects_of_tightens (fun document options => (document.convert options).outcome)
      (fun _ sound chosen => Document.tightens_convert sound chosen) script main
  · exact onlyRejects_of_tightens
      (fun document options => (document.convertToPatch options).outcome)
      (fun _ sound chosen => Document.tightens_convertToPatch sound chosen) script main

/-- A literal default value before two computed ones, in both modes. -/
theorem strictness_only_rejects_second_function :
    let script := "function f(a = 1) \x7b\x7d function main(b = a, c = b) \x7b\x7d"
    let refusal : Fault := .unsupported (.computedDefault "b" "a") ⟨1, 40⟩
    (convert script ⟨false, "main"⟩).outcome = .ok "f(a=1) \x7b\x7d main(b=a, c=b) \x7b\x7d" ∧
      (convert script ⟨true, "main"⟩).outcome = .error refusal ∧
      (convertToPatch script ⟨true, "main"⟩).outcome = .error refusal ∧
      RefusesFirstDefault script refusal := by
  intro script refusal
  have lax : (convert script ⟨false, "main"⟩).outcome =
      .ok "f(a=1) \x7b\x7d main(b=a, c=b) \x7b\x7d" := by decide +kernel
  have strict : (convert script ⟨true, "main"⟩).outcome = .error refusal := by decide +kernel
  have patched : (convertToPatch script ⟨true, "main"⟩).outcome = .error refusal := by
    decide +kernel
  obtain ⟨direct, -⟩ := strictness_only_rejects script "main"
  exact ⟨lax, strict, patched, direct.because _ _ lax strict⟩

end Codebox
