import Codebox.Patch
import Codebox.Proofs.Rendering

/-! # Signatures

A declaration keeps the names of its parameters in order and their default values by name. A
signature joins the two again, so every parameter is shown with the default value that is
given last for its name. This is its own one unless two parameters of one name differ in their
default values. The header of a patch is made from the parameters themselves.
-/

namespace Codebox

/-- A parameter as a signature writes it. -/
def parameterShown (name : String) : Option String → String
  | some initial => name ++ "=" ++ initial
  | none => name

/-- The default value that is given last for a name, if one is given. -/
def lastInitial (parameters : List Parameter) (name : String) : Option String :=
  ((parameters.filter (·.name = name)).filterMap (·.initial)).getLast?

/-- Parameters of one name have one default value, or none. -/
def AgreeOnInitials (parameters : List Parameter) : Prop :=
  ∀ first ∈ parameters, ∀ second ∈ parameters, first.name = second.name →
    first.initial = second.initial

/-- What is shown of a parameter tells its initial value. -/
theorem parameterShown_inj {name : String} {first second : Option String} :
    parameterShown name first = parameterShown name second ↔ first = second := by
  have longer : ∀ initial, name ++ "=" ++ initial ≠ name := by
    intro initial same
    have lengths := congrArg String.length same
    have mark : "=".length = 1 := rfl
    rw [String.length_append, String.length_append] at lengths
    omega
  cases first with
  | none =>
      cases second with
      | none => simp
      | some initial => simp [parameterShown, (longer initial).symm]
  | some initial =>
      cases second with
      | none => simp [parameterShown, longer initial]
      | some other => simp [parameterShown]

/-! ## Tables -/

/-- What counts for a name is the text that is given last for it. -/
theorem Table.get?_eq_getLast? (table : Table) (name : String) :
    table.get? name = ((table.filter (·.1 = name)).map (·.2)).getLast? := by
  have folded : ∀ found, table.foldl
      (fun found entry => if entry.1 = name then some entry.2 else found) found =
        ((table.filter (·.1 = name)).map (·.2)).getLast?.or found := by
    induction table with
    | nil => simp
    | cons entry rest ih =>
        intro found
        rw [List.foldl_cons, ih]
        by_cases here : entry.1 = name
        · simp [here, List.getLast?_cons]
        · simp [here]
  unfold get?
  rw [folded, Option.or_none]

/-- The defaults of parameters hold the last initial value of each name. -/
theorem get?_defaultsOf (parameters : List Parameter) (name : String) :
    (defaultsOf parameters).get? name = lastInitial parameters name := by
  rw [Table.get?_eq_getLast?]
  unfold lastInitial defaultsOf
  congr 1
  induction parameters with
  | nil => rfl
  | cons parameter rest ih =>
      by_cases here : parameter.name = name
      · cases given : parameter.initial <;> simp [here, given, ih]
      · cases given : parameter.initial <;> simp [here, given, ih]

/-! ## Parameters -/

/-- The last initial value of a name is that of a parameter with the name. -/
theorem lastInitial_eq_some {parameters : List Parameter} {name initial : String}
    (found : lastInitial parameters name = some initial) :
    ∃ parameter ∈ parameters, parameter.name = name ∧ parameter.initial = some initial := by
  obtain ⟨parameter, member, given⟩ := List.mem_filterMap.mp (List.mem_of_getLast? found)
  obtain ⟨among, named⟩ := List.mem_filter.mp member
  exact ⟨parameter, among, of_decide_eq_true named, given⟩

/-- Where a name has no initial value, no parameter with the name has one. -/
theorem lastInitial_eq_none {parameters : List Parameter} {name : String}
    (absent : lastInitial parameters name = none) {parameter : Parameter}
    (member : parameter ∈ parameters) (named : parameter.name = name) :
    parameter.initial = none := by
  have nothing := List.getLast?_eq_none_iff.mp absent
  apply List.filterMap_eq_nil_iff.mp nothing
  exact List.mem_filter.mpr ⟨member, by simpa using named⟩

/-- Every parameter has the default value that is given last for its name exactly if those of
one name do not differ. -/
theorem lastInitial_eq_initial_iff {parameters : List Parameter} :
    (∀ parameter ∈ parameters, lastInitial parameters parameter.name = parameter.initial) ↔
      AgreeOnInitials parameters := by
  constructor
  · intro own first member second among same
    rw [← own first member, ← own second among, same]
  · intro agree parameter member
    cases found : lastInitial parameters parameter.name with
    | none => exact (lastInitial_eq_none found member rfl).symm
    | some initial =>
        obtain ⟨other, among, named, given⟩ := lastInitial_eq_some found
        rw [← given]
        exact agree other among parameter member named

/-- Parameters with different names agree on their initial values. -/
theorem agreeOnInitials_of_nodup {parameters : List Parameter}
    (distinct : (parameters.map (·.name)).Nodup) : AgreeOnInitials parameters := by
  intro first member second among same
  rw [List.inj_on_of_nodup_map distinct member among same]

/-! ## Signatures -/

/-- A declaration shows a parameter with the default of its name. -/
theorem Declaration.parameterText_eq (declaration : Declaration) (name : String) :
    declaration.parameterText name = parameterShown name (declaration.defaults.get? name) := by
  unfold parameterText parameterShown
  cases declaration.defaults.get? name <;> rfl

/-- The parameters of a signature, each with the default value given last for its name. -/
def shownParameters (parameters : List Parameter) : List String :=
  parameters.map fun parameter =>
    parameterShown parameter.name (lastInitial parameters parameter.name)

/-- The parameters, each with its own default value. -/
def ownParameters (parameters : List Parameter) : List String :=
  parameters.map fun parameter => parameterShown parameter.name parameter.initial

/-- Parameters are shown as they are written exactly if they agree on initial values. -/
theorem shownParameters_eq_iff {parameters : List Parameter} :
    shownParameters parameters = ownParameters parameters ↔ AgreeOnInitials parameters := by
  unfold shownParameters ownParameters
  rw [← lastInitial_eq_initial_iff, List.map_inj_left]
  simp only [parameterShown_inj]

namespace FunctionNode

variable {source : Bytes} {options : Options} {function : FunctionNode}
  {parameters : List Parameter}

/-- A function whose body can be rendered has a name that can be read. -/
theorem exists_nameText_of_renderBody {body : String}
    (rendered : (function.renderBody source).outcome = .ok body) :
    ∃ name, function.nameText source = .ok name := by
  unfold renderBody at rendered
  rw [Run.outcome_bind] at rendered
  obtain ⟨returns, -, rendered⟩ := Outcome.bind_eq_ok_iff.mp rendered
  rw [Run.outcome_bind] at rendered
  obtain ⟨name, named, -⟩ := Outcome.bind_eq_ok_iff.mp rendered
  exact ⟨name, named⟩

/-- Once its parameters are read, a function has a declaration exactly if its body is
rendered. -/
theorem exists_declaration_iff
    (accepted : function.readParameters source options = .ok parameters) :
    (∃ declaration, (function.declaration source options).outcome = .ok declaration) ↔
      ∃ body, (function.renderBody source).outcome = .ok body := by
  constructor
  · rintro ⟨declaration, declared⟩
    unfold FunctionNode.declaration at declared
    simp only [Run.outcome_bind, Run.outcome_lift, accepted, Outcome.bind_ok] at declared
    obtain ⟨name, -, declared⟩ := Outcome.bind_eq_ok_iff.mp declared
    obtain ⟨body, rendered, -⟩ := Outcome.bind_eq_ok_iff.mp declared
    exact ⟨body, rendered⟩
  · rintro ⟨body, rendered⟩
    obtain ⟨name, named⟩ := exists_nameText_of_renderBody rendered
    rw [declaration_outcome function options named, accepted, Outcome.bind_ok, rendered]
    exact ⟨_, rfl⟩

/-- The signature of a declaration is its name and its parameters as they are shown. -/
theorem signature_of_declaration {declaration : Declaration}
    (accepted : function.readParameters source options = .ok parameters)
    (declared : (function.declaration source options).outcome = .ok declaration) :
    ∃ name, function.nameText source = .ok name ∧
      declaration.signature =
        name ++ "(" ++ Text.joined ", " (shownParameters parameters) ++ ")" := by
  obtain ⟨body, rendered⟩ := (exists_declaration_iff accepted).mp ⟨declaration, declared⟩
  obtain ⟨name, named⟩ := exists_nameText_of_renderBody rendered
  rw [declaration_outcome function options named, accepted, Outcome.bind_ok, rendered] at declared
  cases declared
  refine ⟨name, named, ?_⟩
  unfold Declaration.signature shownParameters
  simp only [List.map_map, Function.comp_def, Declaration.parameterText_eq, get?_defaultsOf]

end FunctionNode

/-- **A signature shows the default values given last.** Once the parameters of a function are
read, it has a signature exactly if its body is rendered. The signature shows the parameters in
order, each with the default value that is given last for its name. These are their own default
values exactly if no two parameters of one name differ in them, so in particular if no name is
repeated. The header of a patch is always made from the parameters with their own. -/
theorem signature_shows_last_initials (source : Bytes) (options : Options)
    (function : FunctionNode) {parameters : List Parameter}
    (accepted : function.readParameters source options = .ok parameters) :
    let declared := (function.declaration source options).outcome
    ((∃ declaration, declared = .ok declaration) ↔
      ∃ body, (function.renderBody source).outcome = .ok body) ∧
    (∀ declaration, declared = .ok declaration → ∃ name, function.nameText source = .ok name ∧
      declaration.signature =
        name ++ "(" ++ Text.joined ", " (shownParameters parameters) ++ ")") ∧
    (shownParameters parameters = ownParameters parameters ↔ AgreeOnInitials parameters) ∧
    ((parameters.map (·.name)).Nodup → AgreeOnInitials parameters) ∧
    ∀ patch, (Synthesizer.mk source function options patch).header =
      .ok (headerLines parameters) := by
  intro declared
  refine ⟨FunctionNode.exists_declaration_iff accepted, ?_, shownParameters_eq_iff,
    agreeOnInitials_of_nodup, ?_⟩
  · intro declaration ended
    exact FunctionNode.signature_of_declaration accepted ended
  · intro patch
    unfold Synthesizer.header
    rw [accepted]
    rfl

/-- Two parameters of one name around another one; the default value that the first has is
not shown. -/
theorem signature_shows_last_initials_repeated :
    ∃ document function declaration,
      Document.parse "function f(a = 1, b = 2, a = 3) \x7b\x7d" = .ok document ∧
      function ∈ FunctionNode.topLevel document.root ∧
      function.readParameters document.source {} =
        .ok [⟨"a", some "1"⟩, ⟨"b", some "2"⟩, ⟨"a", some "3"⟩] ∧
      (function.declaration document.source {}).outcome = .ok declaration ∧
      declaration.signature = "f(a=3, b=2, a=3)" := by
  obtain ⟨document, parsed, found⟩ := Outcome.exists_ok_of_any (show
    ((Document.parse "function f(a = 1, b = 2, a = 3) \x7b\x7d").toOption.any fun document =>
      (FunctionNode.topLevel document.root).any fun function =>
        decide (function.readParameters document.source {} =
          .ok [⟨"a", some "1"⟩, ⟨"b", some "2"⟩, ⟨"a", some "3"⟩]) &&
        decide (function.nameText document.source = .ok "f") &&
        decide ((function.renderBody document.source).outcome = .ok "")) = true
      by decide +kernel)
  obtain ⟨function, member, found⟩ := List.any_eq_true.mp found
  simp only [Bool.and_eq_true, decide_eq_true_eq] at found
  obtain ⟨⟨accepted, named⟩, rendered⟩ := found
  obtain ⟨made, shown, -⟩ := signature_shows_last_initials document.source {} function accepted
  obtain ⟨declaration, declared⟩ := made.mpr ⟨"", rendered⟩
  obtain ⟨name, read, written⟩ := shown declaration declared
  cases named.symm.trans read
  exact ⟨document, function, declaration, parsed, member, accepted, declared, written⟩

/-- A parameter without a default value is shown with that of a later one of its name. -/
theorem signature_lends_initial :
    ∃ document function declaration,
      Document.parse "function f(a, a = 1) \x7b\x7d" = .ok document ∧
      function ∈ FunctionNode.topLevel document.root ∧
      function.readParameters document.source {} = .ok [⟨"a", none⟩, ⟨"a", some "1"⟩] ∧
      (function.declaration document.source {}).outcome = .ok declaration ∧
      declaration.signature = "f(a=1, a=1)" ∧
      declaration.signature ≠
        "f" ++ "(" ++ Text.joined ", " (ownParameters [⟨"a", none⟩, ⟨"a", some "1"⟩]) ++ ")" := by
  obtain ⟨document, parsed, found⟩ := Outcome.exists_ok_of_any (show
    ((Document.parse "function f(a, a = 1) \x7b\x7d").toOption.any fun document =>
      (FunctionNode.topLevel document.root).any fun function =>
        decide (function.readParameters document.source {} =
          .ok [⟨"a", none⟩, ⟨"a", some "1"⟩]) &&
        (function.declaration document.source {}).outcome.toOption.any fun declaration =>
          declaration.signature = "f(a=1, a=1)") = true
      by decide +kernel)
  obtain ⟨function, member, found⟩ := List.any_eq_true.mp found
  obtain ⟨accepted, found⟩ := Bool.and_eq_true_iff.mp found
  obtain ⟨declaration, declared, written⟩ := Outcome.exists_ok_of_any found
  have written := of_decide_eq_true written
  refine ⟨document, function, declaration, parsed, member, of_decide_eq_true accepted, declared,
    written, ?_⟩
  rw [written]
  decide

end Codebox
