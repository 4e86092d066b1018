import Codebox.Proofs.Synthesis

/-! # A synthesizer forgets its history

A synthesizer may be asked for the parts of its patch, for the whole patch and to take
other options, in any order and whether or not it fails. All that remains of this is
the options and the lines that it holds, and a patch is made without looking at the
lines. What a failure leaves behind is described here too.
-/

namespace Codebox.Synthesizer

variable {synthesizer : Synthesizer} {header body outputs : List String} {fault : Fault}

/-! ## Lines at hand -/

/-- Making a patch changes the lines alone, and the lines at hand have no say in what it
gives. -/
theorem synthesize_of_patch (synthesizer : Synthesizer) (patch : Patch) :
    (∃ made, synthesizer.synthesize.1 = { synthesizer with patch := made }) ∧
      ({ synthesizer with patch := patch } : Synthesizer).synthesize.2 =
        synthesizer.synthesize.2 := by
  let other : Synthesizer := { synthesizer with patch := patch }
  change _ ∧ other.synthesize.2 = _
  cases headed : synthesizer.header with
  | error fault =>
      have same : other.header = .error fault := headed
      rw [synthesize_of_header_error headed, synthesize_of_header_error same]
      exact ⟨⟨synthesizer.patch, rfl⟩, rfl⟩
  | ok header =>
      have same : other.header = .ok header := headed
      cases emitted : synthesizer.before.forM synthesizer.emit with
      | mk body outcome =>
          have sameBody : other.before.forM other.emit = ⟨body, outcome⟩ := emitted
          cases outcome with
          | error fault =>
              rw [synthesize_of_emit_error headed emitted, synthesize_of_emit_error same sameBody]
              exact ⟨⟨_, rfl⟩, rfl⟩
          | ok =>
              cases returned : synthesizer.returnLines synthesizer.firstReturn? with
              | error fault =>
                  have sameReturn : other.returnLines other.firstReturn? = .error fault := returned
                  rw [synthesize_of_return_error headed emitted returned,
                    synthesize_of_return_error same sameBody sameReturn]
                  exact ⟨⟨_, rfl⟩, rfl⟩
              | ok outputs =>
                  have sameReturn : other.returnLines other.firstReturn? = .ok outputs := returned
                  rw [synthesize_of_ok headed emitted returned,
                    synthesize_of_ok same sameBody sameReturn]
                  exact ⟨⟨_, rfl⟩, rfl⟩

/-! ## What a failure leaves -/

/-- How making a patch fails once the header stands, and the body that this leaves: the
lines of the statements before the one that fails, and what that one has written. A
return that fails has written nothing. -/
inductive Halts (synthesizer : Synthesizer) (fault : Fault) : List String → Prop
  | statement {done later : List Node} {statement : Node} {chunks : List (List String)}
      {lines : List String}
      (split : synthesizer.function.body.namedChildren = done ++ statement :: later)
      (earlier : ∀ other ∈ done ++ [statement], other.kind ≠ .returnStatement)
      (each : List.Forall₂ (Node.Writes synthesizer.source) done chunks)
      (breaks : synthesizer.Breaks statement fault lines) :
      Halts synthesizer fault (chunks.flatten ++ lines)
  | outputs {done later : List Node} {node : Node} {chunks : List (List String)}
      (split : synthesizer.function.body.namedChildren = done ++ node :: later)
      (earlier : ∀ other ∈ done, other.kind ≠ .returnStatement)
      (kind : node.kind = .returnStatement)
      (each : List.Forall₂ (Node.Writes synthesizer.source) done chunks)
      (failed : FailsToReturn synthesizer.source node fault) :
      Halts synthesizer fault chunks.flatten

/-- A statement that cannot be emitted halts the synthesis there. -/
theorem halts_of_emit_error
    (emitted : synthesizer.before.forM synthesizer.emit = ⟨body, .error fault⟩) :
    synthesizer.Halts fault body := by
  obtain ⟨done, statement, later, chunks, lines, split, each, breaks, rfl⟩ :=
    forM_emit_eq_error_iff.mp emitted
  have whole := synthesizer.before_append_fromReturn
  rw [split, List.append_assoc, List.cons_append] at whole
  refine .statement whole.symm ?_ each breaks
  intro other member
  apply ne_return_of_mem_before
  rw [split]
  rcases List.mem_append.mp member with member | member
  · exact List.mem_append_left _ member
  · rw [List.mem_singleton.mp member]
    exact List.mem_append_right _ List.mem_cons_self

/-- A return that cannot be written halts the synthesis after the statements before it. -/
theorem halts_of_return_error
    (emitted : synthesizer.before.forM synthesizer.emit = ⟨body, .ok ()⟩)
    (returned : synthesizer.returnLines synthesizer.firstReturn? = .error fault) :
    synthesizer.Halts fault body := by
  obtain ⟨chunks, each, rfl⟩ := forM_emit_eq_ok_iff.mp emitted
  obtain ⟨node, first, failed⟩ := returnLines_eq_error_iff.mp returned
  obtain ⟨rest, found⟩ := List.head?_eq_some_iff.mp first
  have whole := synthesizer.before_append_fromReturn
  rw [found] at whole
  exact .outputs whole.symm (fun other => ne_return_of_mem_before) (kind_of_firstReturn? first)
    each failed

/-- A failure after the header leaves the new header, a body up to where it failed, and
no outputs. -/
theorem patch_of_error (headed : synthesizer.header = .ok header)
    (failed : synthesizer.synthesize.2.outcome = .error fault) :
    ∃ body, synthesizer.Halts fault body ∧
      synthesizer.synthesize.1.patch = ⟨header, body, []⟩ := by
  rcases synthesize_eq_error_iff.mp failed with failed | ⟨-, ⟨body, emitted⟩ |
    ⟨⟨body, emitted⟩, returned⟩⟩
  · rw [headed] at failed
    cases failed
  · exact ⟨body, halts_of_emit_error emitted, by rw [synthesize_of_emit_error headed emitted]⟩
  · exact ⟨body, halts_of_return_error emitted returned,
      by rw [synthesize_of_return_error headed emitted returned]⟩

/-! ## Steps -/

/-- The options after a step. -/
def Step.chosen (options : Options) : Step → Options
  | configure other => other
  | _ => options

/-- A synthesizer after steps, whether they failed or not. -/
def after (synthesizer : Synthesizer) (steps : List Step) : Synthesizer :=
  steps.foldl (fun current step => (current.perform step).1) synthesizer

/-- A step changes nothing but the options, as it says, and the lines. -/
theorem exists_patch_perform (synthesizer : Synthesizer) (step : Step) :
    ∃ patch, (synthesizer.perform step).1 =
      { synthesizer with options := step.chosen synthesizer.options, patch := patch } := by
  cases step with
  | synthesize => exact (synthesizer.synthesize_of_patch {}).1
  | header => exact ⟨synthesizer.patch, rfl⟩
  | outputs node => exact ⟨synthesizer.patch, rfl⟩
  | emit statement => exact ⟨_, rfl⟩
  | configure options => exact ⟨synthesizer.patch, rfl⟩

/-- Steps change nothing but the options, as the last of them says, and the lines. -/
theorem exists_patch_after (synthesizer : Synthesizer) (steps : List Step) :
    ∃ patch, synthesizer.after steps = { synthesizer with
      options := steps.foldl Step.chosen synthesizer.options, patch := patch } := by
  unfold after
  induction steps generalizing synthesizer with
  | nil => exact ⟨synthesizer.patch, rfl⟩
  | cons step rest ih =>
      obtain ⟨patch, performed⟩ := synthesizer.exists_patch_perform step
      obtain ⟨last, done⟩ := ih (synthesizer.perform step).1
      refine ⟨last, ?_⟩
      rw [List.foldl_cons, done, performed]
      rfl

/-- If it does not fail, a patch that is made leaves the lines that the function and the
options give. -/
theorem patch_of_ok {text : String} (patch : Patch)
    (ended : synthesizer.synthesize.2.outcome = .ok text) :
    ({ synthesizer with patch := patch } : Synthesizer).synthesize.1.patch =
      synthesizer.synthesize.1.patch := by
  obtain ⟨header, body, outputs, headed, emitted, returned, -⟩ := synthesize_eq_ok_iff.mp ended
  rw [synthesize_of_ok headed emitted returned]
  let other : Synthesizer := { synthesizer with patch := patch }
  have same : other.synthesize.1.patch = ⟨header, body, outputs⟩ := by
    rw [synthesize_of_ok (show other.header = .ok header from headed)
      (show other.before.forM other.emit = ⟨body, .ok ()⟩ from emitted)
      (show other.returnLines other.firstReturn? = .ok outputs from returned)]
  exact same

/-- **A synthesizer forgets its history.** After any steps, making the patch gives what a
fresh synthesizer with the options chosen last gives, and leaves the same lines if it does
not fail. Asking for the header or for outputs changes nothing. A failure in the header
changes nothing either, and a later one leaves the new header and the body up to where it
failed. Writing a statement only adds to the body, whether it fails or not. -/
theorem synthesize_forgets (synthesizer : Synthesizer) (steps : List Step) :
    let used := synthesizer.after steps
    let fresh : Synthesizer := {
      source := synthesizer.source
      function := synthesizer.function
      options := steps.foldl Step.chosen synthesizer.options }
    used.synthesize.2 = fresh.synthesize.2 ∧
    (∀ text, used.synthesize.2.outcome = .ok text →
      used.synthesize.1.patch = fresh.synthesize.1.patch) ∧
    (used.perform .header).1 = used ∧
    (∀ node, (used.perform (.outputs node)).1 = used) ∧
    (∀ fault, used.header = .error fault → used.synthesize = (used, Run.lift (.error fault))) ∧
    (∀ header fault, used.header = .ok header → used.synthesize.2.outcome = .error fault →
      ∃ body, used.Halts fault body ∧ used.synthesize.1.patch = ⟨header, body, []⟩) ∧
    ∀ statement, ∃ lines, (used.perform (.emit statement)).1.patch =
      { used.patch with body := used.patch.body ++ lines } := by
  intro used fresh
  obtain ⟨patch, done⟩ := synthesizer.exists_patch_after steps
  have same : used = { fresh with patch := patch } := done
  have given : used.synthesize.2 = fresh.synthesize.2 := by
    rw [same]
    exact (fresh.synthesize_of_patch patch).2
  refine ⟨given, ?_, rfl, fun _ => rfl, fun fault => synthesize_of_header_error,
    fun header fault => patch_of_error, fun statement => ⟨_, rfl⟩⟩
  intro text ended
  rw [given] at ended
  rw [same]
  exact patch_of_ok patch ended

/-- After a step that fails and another choice of options: a patch that is made, one that
fails in the header only under these options, and one that fails at the second declarator
of a declaration. -/
theorem synthesize_forgets_functions :
    ∃ (source : Bytes) (made refused broken : FunctionNode),
      let used := fun function : FunctionNode => Synthesizer.after ⟨source, function, {}, {}⟩
        [.emit function.body, .synthesize, .configure { strictDefaults := true }]
      let fresh := fun function : FunctionNode =>
        ({ source, function, options := { strictDefaults := true } } : Synthesizer)
      (used made).synthesize.2.outcome = .ok "a = in1;\n\nout1 = a;" ∧
      (used made).synthesize.1.patch = (fresh made).synthesize.1.patch ∧
      (used refused).synthesize = (used refused,
        Run.lift (.error (.unsupported (.computedDefault "a" "b") ⟨1, 46⟩))) ∧
      ∃ body, (used broken).Halts
          (.unsupported (.destructuringDeclaration "[y] = x") ⟨1, 78⟩) body ∧
        (used broken).synthesize.1.patch = ⟨[], body, []⟩ := by
  obtain ⟨document, -, found⟩ := Outcome.exists_ok_of_any (show
    ((Document.parse ("function f(a) \x7b return [a]; \x7d function g(a = b) \x7b\x7d " ++
      "function h() \x7b let x = 1, [y] = x; \x7d")).toOption.any fun document =>
        let used := fun function : FunctionNode =>
          Synthesizer.after ⟨document.source, function, {}, {}⟩
            [.emit function.body, .synthesize, .configure { strictDefaults := true }]
        let functions := FunctionNode.topLevel document.root
        functions.any (fun function => (used function).synthesize.2.outcome =
          .ok "a = in1;\n\nout1 = a;") &&
        (functions.any (fun function => (used function).header =
          .error (.unsupported (.computedDefault "a" "b") ⟨1, 46⟩)) &&
        functions.any (fun function => (used function).header = .ok [] ∧
          (used function).synthesize.2.outcome =
            .error (.unsupported (.destructuringDeclaration "[y] = x") ⟨1, 78⟩)))) = true by
      decide +kernel)
  simp only [Bool.and_eq_true, List.any_eq_true, decide_eq_true_eq] at found
  obtain ⟨⟨made, -, ended⟩, ⟨refused, -, failed⟩, broken, -, headed, broke⟩ := found
  refine ⟨document.source, made, refused, broken, ended, ?_, ?_, ?_⟩
  · exact (synthesize_forgets _ _).2.1 _ ended
  · exact (synthesize_forgets _ _).2.2.2.2.1 _ failed
  · exact (synthesize_forgets _ _).2.2.2.2.2.1 _ _ headed broke

end Codebox.Synthesizer
