import Codebox.Patch
import Codebox.Proofs.Earliest

/-! # Returns and outputs

Direct mode expands a returned array into a list, and patch mode binds what is returned to
outputs. Both read the same argument and the same elements off a return statement. So they
refuse the same statements at the same place, and the list of the one and the outputs of the
other are made from the same texts in the same order.
-/

namespace Codebox

variable {source : Bytes} {statement : Node}

/-- The texts that are read off a return statement can be read: its own, that of what it
returns and those of the elements of that. -/
structure Node.Readable (source : Bytes) (statement : Node) : Prop where
  whole : ∃ text, statement.text source = .ok text
  argument : ∀ argument ∈ statement.parts, ∃ text, argument.text source = .ok text
  elements : ∀ argument ∈ statement.parts, ∀ element ∈ argument.parts,
    ∃ text, element.text source = .ok text

/-- What a well-laid statement returns can be read. -/
theorem Node.Sound.readable (sound : statement.Sound source) : statement.Readable source where
  whole := sound.text
  argument := fun _ member => (sound.part member).text
  elements := fun _ member _ among => ((sound.part member).part among).text

/-- What the two modes make of a return statement: of one without a value, of one that returns
anything but an array, of one that returns an array, and of one that returns an array with a
hole. -/
inductive Node.Returns (source : Bytes) (statement : Node) :
    Except Fault (Option Edit) → Except Fault (List String) → Prop
  | bare (absent : statement.parts.head? = none) : Returns source statement (.ok none) (.ok [])
  | value {argument : Node} {text : String} (returned : statement.parts.head? = some argument)
      (other : argument.kind ≠ .array) (read : argument.text source = .ok text) :
      Returns source statement (.ok none) (.ok ["out1 = " ++ text ++ ";"])
  | array {array : Node} {texts : List String} {whole : String}
      (returned : statement.parts.head? = some array) (kind : array.kind = .array)
      (full : firstHole? .openBracket array.children = none)
      (read : array.parts.mapM (·.text source) = .ok texts)
      (readWhole : statement.text source = .ok whole) :
      Returns source statement
        (.ok (some ⟨statement.span, "return " ++ Text.joined ", " texts ++
          if endsWithSemicolon whole then ";" else ""⟩))
        (.ok (texts.mapIdx fun index text =>
          "out" ++ toString (index + 1) ++ " = " ++ text ++ ";"))
  | holed {array comma : Node} (returned : statement.parts.head? = some array)
      (kind : array.kind = .array) (hole : firstHole? .openBracket array.children = some comma) :
      Returns source statement (.error (.unsupported .arrayHole comma.location))
        (.error (.unsupported .arrayHole comma.location))

/-- Only an array has elements. -/
theorem arrayElements_of_kind_ne {argument : Node} (other : argument.kind ≠ .array) :
    arrayElements argument = .ok none := by
  unfold arrayElements
  rw [if_neg other]

/-- The elements of an array without holes are its parts. -/
theorem arrayElements_of_full {array : Node} (kind : array.kind = .array)
    (full : firstHole? .openBracket array.children = none) :
    arrayElements array = .ok (some array.parts) := by
  unfold arrayElements
  rw [if_pos kind, full]

/-- An array with a hole is refused at the comma of the first one. -/
theorem arrayElements_of_hole {array comma : Node} (kind : array.kind = .array)
    (hole : firstHole? .openBracket array.children = some comma) :
    arrayElements array = .error (.unsupported .arrayHole comma.location) := by
  unfold arrayElements
  rw [if_pos kind, hole]

/-- Both modes follow one reading of a return statement. -/
theorem Node.Readable.returns (synthesizer : Synthesizer)
    (readable : statement.Readable synthesizer.source) :
    statement.Returns synthesizer.source (returnEdit synthesizer.source statement)
      (synthesizer.outputs statement) := by
  unfold returnEdit returnedElements Synthesizer.outputs returnArgument?
  cases returned : statement.parts.head? with
  | none => exact .bare returned
  | some argument =>
      have member : argument ∈ statement.parts := List.mem_of_mem_head? returned
      dsimp only
      by_cases kind : argument.kind = .array
      · cases hole : firstHole? .openBracket argument.children with
        | some comma =>
            rw [arrayElements_of_hole kind hole]
            exact .holed returned kind hole
        | none =>
            obtain ⟨texts, read⟩ := Outcome.exists_mapM_iff.mpr (readable.elements argument member)
            obtain ⟨whole, readWhole⟩ := readable.whole
            rw [arrayElements_of_full kind hole]
            simp only [Outcome.bind_ok, read, readWhole]
            exact .array returned kind hole read readWhole
      · obtain ⟨text, read⟩ := readable.argument argument member
        rw [arrayElements_of_kind_ne kind]
        simp only [Outcome.bind_ok, read]
        exact .value returned kind read

/-- **Expanded returns and outputs agree.** For every return statement of a script, both modes
stop at the same hole or neither stops. If the statement is expanded, it returns an array; it
becomes the list of the texts of its elements, and the outputs, counted from one on, are bound to
the same texts in the same order. If it is left as it is, it has no value and no outputs, or its
value is no array and the text of that is bound to the one output. -/
theorem outputs_follow_expansion {script : String} {document : Document}
    (parsed : Document.parse script = .ok document) {statement : Node}
    (held : document.root.Holds statement) (function : FunctionNode) (options : Options)
    (patch : Patch) :
    let expansion := returnEdit document.source statement
    let outputs := (Synthesizer.mk document.source function options patch).outputs statement
    (∀ fault, expansion = .error fault ↔ outputs = .error fault) ∧
    (∀ fault, expansion = .error fault → ∃ location, fault = .unsupported .arrayHole location) ∧
    (∀ edit, expansion = .ok (some edit) → ∃ array texts closing,
      statement.parts.head? = some array ∧ array.kind = .array ∧
      List.Forall₂ (fun element text => element.text document.source = .ok text)
        array.parts texts ∧
      (closing = "" ∨ closing = ";") ∧
      edit = ⟨statement.span, "return " ++ Text.joined ", " texts ++ closing⟩ ∧
      outputs = .ok (texts.mapIdx fun index text =>
        "out" ++ toString (index + 1) ++ " = " ++ text ++ ";")) ∧
    (expansion = .ok none →
      statement.parts.head? = none ∧ outputs = .ok [] ∨
      ∃ argument text, statement.parts.head? = some argument ∧ argument.kind ≠ .array ∧
        argument.text document.source = .ok text ∧ outputs = .ok ["out1 = " ++ text ++ ";"]) := by
  intro expansion outputs
  have sound := (Document.sound_of_parse parsed).ofHolds held
  have returns : statement.Returns document.source expansion outputs :=
    Node.Readable.returns ⟨document.source, function, options, patch⟩ sound.readable
  clear_value expansion outputs
  cases returns with
  | bare absent =>
      exact ⟨by simp, by simp, by simp, fun _ => .inl ⟨absent, rfl⟩⟩
  | value returned other read =>
      exact ⟨by simp, by simp, by simp, fun _ => .inr ⟨_, _, returned, other, read, rfl⟩⟩
  | @array array texts whole returned kind full read readWhole =>
      refine ⟨by simp, by simp, ?_, by simp⟩
      rintro _ ⟨⟩
      refine ⟨array, texts, _, returned, kind, Outcome.mapM_eq_ok_iff.mp read, ?_, rfl, rfl⟩
      split
      · exact .inr rfl
      · exact .inl rfl
  | holed returned kind hole =>
      refine ⟨by simp, ?_, by simp, by simp⟩
      rintro _ ⟨⟩
      exact ⟨_, rfl⟩

/-- A return in the body of a function, with a comment and a last comma in its array. -/
theorem outputs_follow_expansion_comment :
    ∃ document statement,
      Document.parse "function f(a) \x7b return [a, /* b */ c + 1,]; \x7d" = .ok document ∧
      document.root.Holds statement ∧
      returnEdit document.source statement = .ok (some ⟨⟨16, 43⟩, "return a, c + 1;"⟩) ∧
      ∀ function options patch,
        (Synthesizer.mk document.source function options patch).outputs statement =
          .ok ["out1 = a;", "out2 = c + 1;"] := by
  obtain ⟨document, parsed, found⟩ := Outcome.exists_ok_of_any (show
    ((Document.parse "function f(a) \x7b return [a, /* b */ c + 1,]; \x7d").toOption.any
      fun document => document.root.children.any fun function => function.children.any fun body =>
        body.children.any fun statement =>
          decide (returnEdit document.source statement =
            .ok (some ⟨⟨16, 43⟩, "return a, c + 1;"⟩)) &&
          statement.parts.head?.any fun array =>
            decide (array.parts.mapM (·.text document.source) = .ok ["a", "c + 1"])) = true
      by decide +kernel)
  obtain ⟨node, memberNode, found⟩ := List.any_eq_true.mp found
  obtain ⟨body, memberBody, found⟩ := List.any_eq_true.mp found
  obtain ⟨statement, member, found⟩ := List.any_eq_true.mp found
  obtain ⟨expanded, found⟩ := Bool.and_eq_true_iff.mp found
  obtain ⟨array, returned, read⟩ := (Option.any_eq_true _ _).mp found
  have held : document.root.Holds statement :=
    .through memberNode (.through memberBody (.through member (.self statement)))
  have expanded := of_decide_eq_true expanded
  refine ⟨document, statement, parsed, held, expanded, fun function options patch => ?_⟩
  obtain ⟨-, -, listed, -⟩ := outputs_follow_expansion parsed held function options patch
  obtain ⟨other, texts, closing, same, -, each, -, -, bound⟩ := listed _ expanded
  cases returned.symm.trans same
  cases (Outcome.mapM_eq_ok_iff.mpr each).symm.trans (of_decide_eq_true read)
  exact bound

end Codebox
