import Codebox.Proofs.Holes
import Codebox.Proofs.Nested

/-! # The earliest fault

Direct mode reads the parameters of a function, then its returns, then the text of
its body, and so one function after the other, and stops at the first fault. This is
the order of the text, so what is reported is what stands first in the text. A severed
body counts as a fault that stands where its function ends.
-/

namespace Codebox

variable {source : Bytes} {node : Node} {options : Options}

/-! ## What is refused -/

/-- A parameter that a codebox can have: a plain name, with or without a default
value. -/
def Node.IsPlain (parameter : Node) : Prop :=
  parameter.kind = .identifier ∨ parameter.kind = .assignmentPattern ∧
    ∃ name initial, parameter.child? .left = some name ∧
      parameter.child? .right = some initial ∧ name.kind = .identifier

/-- Where a parameter is refused: at its start if it is no plain name, and at its
default value if that has to be a literal and is none. -/
inductive Node.RefusedAt (options : Options) (parameter : Node) : Int → Prop
  | shape (odd : ¬ parameter.IsPlain) : RefusedAt options parameter parameter.span.start
  | initial {value : Node} (given : parameter.kind = .assignmentPattern)
      (found : parameter.child? .right = some value) (strict : options.strictDefaults)
      (computed : value.isLiteral = false) : RefusedAt options parameter value.span.start

/-- Where an array is refused: at every comma that has, comments apart, no element
before it. -/
def Node.HoleAt (array : Node) (offset : Int) : Prop :=
  array.kind = .array ∧ ∃ before comma, array.HoleAfter before comma ∧ offset = comma.span.start

/-- Where a return statement is refused: where it returns an array that is. -/
def Node.ReturnsHoleAt (statement : Node) (offset : Int) : Prop :=
  ∃ argument, statement.parts.head? = some argument ∧ argument.HoleAt offset

/-- Where a function is refused: for a parameter, or for a return of its own. -/
def FunctionNode.RefusedAt (options : Options) (function : FunctionNode) (offset : Int) : Prop :=
  (∃ parameter ∈ function.parameters.parts, parameter.RefusedAt options offset) ∨
    ∃ statement, function.body.Own statement ∧ statement.kind = .returnStatement ∧
      statement.ReturnsHoleAt offset

/-- Where a script is refused. -/
def Document.RefusedAt (options : Options) (document : Document) (offset : Int) : Prop :=
  ∃ function ∈ FunctionNode.topLevel document.root, function.RefusedAt options offset

/-- The least offset with a property. -/
def Least (property : Int → Prop) (offset : Int) : Prop :=
  property offset ∧ ∀ other, property other → offset ≤ other

/-! ## Surveys -/

/-- What stands in a part of a text: the offsets at which it is refused, and those at
which a severed body ends. -/
structure Survey where
  refuses : Int → Prop
  severs : Int → Prop := fun _ => False

namespace Survey

variable {α β : Type} {first second : Survey} {low middle high : Int}

/-- What stands in two parts of a text. -/
def join (first second : Survey) : Survey :=
  ⟨fun offset => first.refuses offset ∨ second.refuses offset,
    fun offset => first.severs offset ∨ second.severs offset⟩

/-- What stands in several parts of a text. -/
def all (survey : α → Survey) (items : List α) : Survey :=
  ⟨fun offset => ∃ item ∈ items, (survey item).refuses offset,
    fun offset => ∃ item ∈ items, (survey item).severs offset⟩

/-- A survey of items joins that of the first with that of the others. -/
theorem all_cons (survey : α → Survey) (item : α) (rest : List α) :
    all survey (item :: rest) = (survey item).join (all survey rest) := by
  simp [all, join]

/-- All of it stands between two offsets. -/
structure Within (low high : Int) (survey : Survey) : Prop where
  refuses : ∀ offset, survey.refuses offset → low ≤ offset ∧ offset ≤ high
  severs : ∀ offset, survey.severs offset → low < offset ∧ offset ≤ high

/-- A survey of a stretch is one of any wider stretch. -/
theorem Within.widen {survey : Survey} {lower higher : Int} (within : survey.Within low high)
    (below : lower ≤ low) (above : high ≤ higher) : survey.Within lower higher := by
  constructor
  · intro offset refused
    have bounds := within.refuses offset refused
    omega
  · intro stop severed
    have bounds := within.severs stop severed
    omega

/-- Two surveys of a stretch, joined. -/
theorem Within.join (left : first.Within low high) (right : second.Within low high) :
    (first.join second).Within low high := by
  constructor
  · rintro offset (here | there)
    · exact left.refuses offset here
    · exact right.refuses offset there
  · rintro stop (here | there)
    · exact left.severs stop here
    · exact right.severs stop there

/-- Surveys of items in a row make a survey of the row. -/
theorem Within.all {survey : α → Survey} {place : α → Span} {items : List α}
    (row : Span.Row low high (items.map place))
    (each : ∀ item ∈ items, (survey item).Within (place item).start (place item).stop) :
    (all survey items).Within low high := by
  constructor
  · rintro offset ⟨item, member, refused⟩
    have bounds := row.inside (List.mem_map_of_mem member)
    have inside := (each item member).refuses offset refused
    omega
  · rintro offset ⟨item, member, severed⟩
    have bounds := row.inside (List.mem_map_of_mem member)
    have inside := (each item member).severs offset severed
    omega

/-- An outcome is decided by what stands first in the text. -/
inductive Decides (source : Bytes) (survey : Survey) : Except Fault α → Prop
  | clear (value : α) (none : ∀ offset, ¬ survey.refuses offset)
      (whole : ∀ stop, ¬ survey.severs stop) : Decides source survey (.ok value)
  | refused (cause : Unsupported) {offset : Int} (least : Least survey.refuses offset)
      (ahead : ∀ stop, survey.severs stop → offset < stop) :
      Decides source survey (.error (.unsupported cause (source.pointAt offset).location))
  | severed {stop : Int} (severs : survey.severs stop)
      (ahead : ∀ offset, survey.refuses offset → stop ≤ offset) :
      Decides source survey (.error .undecodable)

namespace Decides

variable {survey : Survey} {outcome : Except Fault α}

/-- What stands first decides before what stands after it. -/
theorem bind {next : α → Except Fault β} (left : first.Within low middle)
    (right : second.Within middle high) (head : first.Decides source outcome)
    (tail : ∀ value, outcome = .ok value → second.Decides source (next value)) :
    (first.join second).Decides source (outcome >>= next) := by
  cases head with
  | clear value none whole =>
      have after := tail value rfl
      rw [Outcome.bind_ok]
      generalize next value = result at after
      cases after with
      | clear _ noneAfter wholeAfter =>
          apply clear
          · rintro offset (here | there)
            · exact none offset here
            · exact noneAfter offset there
          · rintro stop (here | there)
            · exact whole stop here
            · exact wholeAfter stop there
      | refused cause least ahead =>
          apply refused cause
          · refine ⟨.inr least.1, ?_⟩
            rintro other (here | there)
            · exact (none other here).elim
            · exact least.2 other there
          · rintro stop (here | there)
            · exact (whole stop here).elim
            · exact ahead stop there
      | severed severs ahead =>
          refine severed (.inr severs) ?_
          rintro offset (here | there)
          · exact (none offset here).elim
          · exact ahead offset there
  | refused cause least ahead =>
      rw [Outcome.bind_error]
      have bound := left.refuses _ least.1
      apply refused cause
      · refine ⟨.inl least.1, ?_⟩
        rintro other (here | there)
        · exact least.2 other here
        · have beyond := right.refuses other there
          omega
      · rintro stop (here | there)
        · exact ahead stop here
        · have beyond := right.severs stop there
          omega
  | severed severs ahead =>
      rw [Outcome.bind_error]
      have bound := left.severs _ severs
      refine severed (.inl severs) ?_
      rintro offset (here | there)
      · exact ahead offset here
      · have beyond := right.refuses offset there
        omega

/-- A survey decides what is made of an outcome. -/
theorem map (head : survey.Decides source outcome) (change : α → β) :
    survey.Decides source (outcome >>= fun value => .ok (change value)) := by
  cases head with
  | clear value none whole => exact clear (change value) none whole
  | refused cause least ahead => exact refused cause least ahead
  | severed severs ahead => exact severed severs ahead

/-- Of several parts in the order of the text, the first that is refused or severed
decides. -/
theorem mapM {parts : α → Survey} {place : α → Span} {f : α → Except Fault β} {items : List α}
    (row : Span.Row low high (items.map place))
    (within : ∀ item ∈ items, (parts item).Within (place item).start (place item).stop)
    (each : ∀ item ∈ items, (parts item).Decides source (f item)) :
    (all parts items).Decides source (items.mapM f) := by
  induction items generalizing low with
  | nil =>
      rw [List.mapM_nil]
      apply clear <;> simp [all]
  | cons item rest ih =>
      obtain ⟨-, -, row⟩ := row
      obtain ⟨inside, within⟩ := List.forall_mem_cons.mp within
      obtain ⟨here, each⟩ := List.forall_mem_cons.mp each
      rw [all_cons, List.mapM_cons]
      apply bind inside (.all row within) here
      intro value _
      exact (ih row within each).map (value :: ·)

/-- Outcomes that fail alike are decided alike. -/
theorem of_failsAs {other : Except Fault β} (head : survey.Decides source outcome)
    (same : Outcome.FailsAs other outcome) : survey.Decides source other := by
  cases head with
  | clear value none whole =>
      cases other with
      | ok result => exact clear result none whole
      | error fault => cases (same fault).mp rfl
  | refused cause least ahead =>
      rw [(same _).mpr rfl]
      exact refused cause least ahead
  | severed severs ahead =>
      rw [(same _).mpr rfl]
      exact severed severs ahead

/-- A text is refused exactly if something in it is and no severed body ends before. -/
theorem refuses_iff (head : survey.Decides source outcome) :
    (∃ cause location, outcome = .error (.unsupported cause location)) ↔
      (∃ offset, survey.refuses offset) ∧
        ∀ stop, survey.severs stop → ∃ offset, survey.refuses offset ∧ offset < stop := by
  cases head with
  | clear value none whole => simp [none]
  | @refused cause offset least ahead =>
      constructor
      · rintro -
        exact ⟨⟨offset, least.1⟩, fun stop severs => ⟨offset, least.1, ahead stop severs⟩⟩
      · rintro -
        exact ⟨cause, _, rfl⟩
  | @severed stop severs ahead =>
      constructor
      · rintro ⟨cause, location, impossible⟩
        cases impossible
      · rintro ⟨-, before⟩
        obtain ⟨offset, refused, less⟩ := before stop severs
        have more := ahead offset refused
        omega

/-- What is reported is the place that stands first in the text. -/
theorem least_of_refused (head : survey.Decides source outcome) {cause : Unsupported}
    {location : Location} (failed : outcome = .error (.unsupported cause location)) :
    ∃ offset, Least survey.refuses offset ∧ location = (source.pointAt offset).location := by
  cases head with
  | clear => cases failed
  | refused _ least _ =>
      cases failed
      exact ⟨_, least, rfl⟩
  | severed => cases failed

end Decides

end Survey

/-! ## Parameters -/

/-- What stands in a parameter. -/
def Node.parameterSurvey (options : Options) (parameter : Node) : Survey where
  refuses := parameter.RefusedAt options

/-- What is said of a parameter lies in it. -/
theorem Node.Sound.within_parameter (sound : node.Sound source) :
    (node.parameterSurvey options).Within node.span.start node.span.stop := by
  constructor
  · intro offset refused
    cases refused with
    | shape => exact ⟨Int.le_refl _, sound.order⟩
    | initial given found strict computed =>
        have bounds := sound.child?_inside found
        omega
  · intro offset impossible
    cases impossible

/-- The first refusal of a parameter that is no plain name is at its start. -/
theorem Node.Sound.least_of_odd (sound : node.Sound source) (odd : ¬ node.IsPlain) :
    Least (node.RefusedAt options) node.span.start :=
  ⟨.shape odd, fun offset refused => (sound.within_parameter.refuses offset refused).1⟩

/-- A parameter that is no plain one is refused as its survey says. -/
theorem decides_refuseDestructuring {α : Type} (sound : node.Sound source)
    (odd : ¬ node.IsPlain) :
    (node.parameterSurvey options).Decides source
      (refuseDestructuring source node : Except Fault α) := by
  obtain ⟨text, read⟩ := sound.text
  unfold refuseDestructuring Node.location
  rw [read, Outcome.bind_ok, sound.point]
  exact .refused (.destructuringParameter text) (sound.least_of_odd odd) fun _ => False.elim

/-- Reading a parameter fails exactly as its survey says. -/
theorem decides_readParameter (sound : node.Sound source) :
    (node.parameterSurvey options).Decides source (readParameter source options node) := by
  obtain ⟨text, read⟩ := sound.text
  unfold readParameter
  split
  next kind =>
    have plain : node.IsPlain := .inl kind
    rw [read, Outcome.bind_ok]
    apply Survey.Decides.clear _ _ fun _ => False.elim
    intro offset refused
    cases refused with
    | shape odd => exact odd plain
    | initial given => cases kind.symm.trans given
  next kind =>
    split
    next left right foundLeft foundRight =>
      obtain ⟨name, readName⟩ := (sound.child? foundLeft).text
      obtain ⟨initial, readInitial⟩ := (sound.child? foundRight).text
      by_cases named : left.kind = .identifier
      · have plain : node.IsPlain := .inr ⟨kind, left, right, foundLeft, foundRight, named⟩
        rw [if_pos named, readName, Outcome.bind_ok, readInitial, Outcome.bind_ok]
        split
        next refused =>
          obtain ⟨strict, computed⟩ : options.strictDefaults ∧ right.isLiteral = false := by
            simpa using refused
          unfold Node.location
          rw [(sound.child? foundRight).point]
          apply Survey.Decides.refused _ _ fun _ => False.elim
          refine ⟨.initial kind foundRight strict computed, ?_⟩
          intro other refused
          cases refused with
          | shape odd => exact (odd plain).elim
          | initial _ found =>
              rw [foundRight] at found
              cases found
              exact Int.le_refl _
        next kept =>
          apply Survey.Decides.clear _ _ fun _ => False.elim
          intro offset refused
          cases refused with
          | shape odd => exact odd plain
          | initial _ found strict computed =>
              rw [foundRight] at found
              cases found
              simp [strict, computed] at kept
      · rw [if_neg named]
        apply decides_refuseDestructuring sound
        rintro (plain | ⟨-, first, second, found, -, plain⟩)
        · cases kind.symm.trans plain
        · rw [foundLeft] at found
          cases found
          exact named plain
    next lacking =>
      apply decides_refuseDestructuring sound
      rintro (plain | ⟨-, left, right, foundLeft, foundRight, -⟩)
      · cases kind.symm.trans plain
      · exact lacking left right foundLeft foundRight
  next kind =>
    have odd : ¬ node.IsPlain := by
      rintro (plain | ⟨plain, -⟩)
      · cases kind.symm.trans plain
      · cases kind.symm.trans plain
    unfold Node.location
    rw [read, Outcome.bind_ok, sound.point]
    exact .refused (.restParameter text) (sound.least_of_odd odd) fun _ => False.elim
  next notName notPattern notRest =>
    apply decides_refuseDestructuring sound
    rintro (plain | ⟨plain, -⟩)
    · exact notName plain
    · exact notPattern plain

/-! ## Returns -/

/-- Of two holes, the one after fewer tokens comes first in the text. -/
theorem Node.Sound.holes_in_order (sound : node.Sound source) {before other : List Node}
    {comma later : Node} (hole : node.HoleAfter before comma) (there : node.HoleAfter other later)
    (least : before.length ≤ other.length) : comma.span.start ≤ later.span.start := by
  obtain ⟨after, split⟩ := hole.split
  obtain ⟨rest, split'⟩ := there.split
  have row : Node.InRow node.span.start node.span.stop
      (node.children.filter (·.kind ≠ .comment)) :=
    sound.row.sublist (List.filter_sublist.map Node.span)
  rw [split, Node.InRow, List.map_append, List.map_cons] at row
  obtain ⟨-, order, row⟩ := Span.row_append_cons.mp row
  have tail : comma :: after = other.drop before.length ++ later :: rest := by
    rw [← List.drop_append_of_le_length least, ← split', split, List.drop_left]
  have member : later ∈ comma :: after := by
    rw [tail]
    exact List.mem_append_right _ List.mem_cons_self
  rcases List.mem_cons.mp member with rfl | behind
  · exact Int.le_refl _
  · have bounds := row.inside (List.mem_map_of_mem behind)
    omega

/-- An array is refused at its first hole. -/
theorem Node.Sound.decides_arrayElements (sound : node.Sound source) :
    (Survey.mk node.HoleAt fun _ => False).Decides source (arrayElements node) := by
  unfold arrayElements
  by_cases array : node.kind = .array
  · rw [if_pos array]
    cases found : firstHole? .openBracket node.children with
    | none =>
        apply Survey.Decides.clear _ _ fun _ => False.elim
        rintro offset ⟨-, before, comma, hole, -⟩
        exact firstHole?_eq_none_iff.mp found before comma hole
    | some comma =>
        obtain ⟨before, hole, least⟩ := firstHole?_eq_some_iff.mp found
        simp only [Node.location, (sound.ofChild hole.mem).point]
        apply Survey.Decides.refused _ _ fun _ => False.elim
        refine ⟨⟨array, before, comma, hole, rfl⟩, ?_⟩
        rintro _ ⟨-, other, later, there, rfl⟩
        exact sound.holes_in_order hole there (least other later there)
  · rw [if_neg array]
    exact .clear _ (fun offset refused => array refused.1) fun _ => False.elim

/-- What stands in a return statement. -/
def Node.returnSurvey (statement : Node) : Survey where
  refuses := statement.ReturnsHoleAt

/-- What is said of a return statement lies in it. -/
theorem Node.Sound.within_return (sound : node.Sound source) :
    node.returnSurvey.Within node.span.start node.span.stop := by
  constructor
  · rintro offset ⟨array, returned, -, before, comma, hole, rfl⟩
    have member := List.mem_of_mem_head? returned
    have outer := sound.part_inside member
    have inner := (sound.part member).row.inside (List.mem_map_of_mem hole.mem)
    omega
  · intro offset impossible
    cases impossible

/-- A return fails to expand only where the array is refused. -/
theorem Node.Sound.returnEdit_failsAs (sound : node.Sound source) :
    Outcome.FailsAs (returnEdit source node) (returnedElements node) := by
  intro fault
  cases found : returnedElements node with
  | ok elements =>
      obtain ⟨edit, expanded⟩ := sound.exists_returnEdit found
      rw [expanded]
      simp
  | error refusal =>
      unfold returnEdit
      rw [found, Outcome.bind_error, Except.error.injEq, Except.error.injEq]

/-- Expanding a return statement fails exactly as its survey says. -/
theorem Node.Sound.decides_returnEdit (sound : node.Sound source) :
    node.returnSurvey.Decides source (returnEdit source node) := by
  refine Survey.Decides.of_failsAs ?_ sound.returnEdit_failsAs
  unfold returnedElements returnArgument?
  cases returned : node.parts.head? with
  | none =>
      apply Survey.Decides.clear _ _ fun _ => False.elim
      rintro offset ⟨argument, found, -⟩
      rw [returned] at found
      cases found
  | some argument =>
      have same : node.ReturnsHoleAt = argument.HoleAt := by
        funext offset
        simp [ReturnsHoleAt, returned]
      rw [returnSurvey, same]
      exact (sound.part (List.mem_of_mem_head? returned)).decides_arrayElements

/-! ### Their order -/

/-- Nodes below nodes in a row stand in a row, if those below each node do. -/
theorem row_flatMap {low high : Int} {nodes : List Node} {below : Node → List Node}
    (row : Node.InRow low high nodes)
    (each : ∀ node ∈ nodes, Node.InRow node.span.start node.span.stop (below node)) :
    Node.InRow low high (nodes.flatMap below) := by
  rw [Node.InRow, List.map_flatMap]
  exact Span.Row.flatMap row each

/-- Calm nodes return nothing. -/
theorem flatMap_returnsWithin_of_calm {nodes : List Node} (calm : ∀ node ∈ nodes, node.Calm) :
    nodes.flatMap Node.returnsWithin = [] :=
  List.flatMap_eq_nil_iff.mpr fun node member => (calm node member).returnsWithin

/-- The returns of a well-laid node stand in a row inside it. -/
theorem Node.Sound.row_returnsWithin (sound : node.Sound source) :
    Node.InRow node.span.start node.span.stop node.returnsWithin := by
  induction sound with
  | @mk head children starts stops order point row shaped below ih =>
      rw [returnsWithin, listing_eq]
      by_cases returns : (Node.mk head children).kind = .returnStatement
      · have none : returnsOf (.mk head children) = [] := by
          rw [returnsOf_eq_flatMap]
          exact flatMap_returnsWithin_of_calm (shaped.returns returns).2
        rw [List.filter_cons_of_pos (by simpa using returns)]
        split
        · exact ⟨Int.le_refl _, order, Int.le_refl _⟩
        · change Node.InRow _ _ (_ :: returnsOf (.mk head children))
          rw [none]
          exact ⟨Int.le_refl _, order, Int.le_refl _⟩
      · rw [List.filter_cons_of_neg (by simpa using returns)]
        split
        · exact order
        · change Node.InRow _ _ (returnsOf (.mk head children))
          rw [returnsOf_eq_flatMap]
          exact row_flatMap row ih

/-- The return statements of a scope stand in a row inside it. -/
theorem Node.Sound.row_returnsOf (sound : node.Sound source) :
    Node.InRow node.span.start node.span.stop (returnsOf node) := by
  rw [returnsOf_eq_flatMap]
  exact row_flatMap sound.row fun child member => (sound.ofChild member).row_returnsWithin

/-- The returns of a block stand in a row between its braces. -/
theorem Braces.Enclose.row_returnsOf {parts : Braces} {block : Node}
    (enclosed : parts.Enclose block) (sound : block.Sound source) :
    Node.InRow (block.span.start + 1) parts.closing.span.start (returnsOf block) := by
  have calm : ∀ comment ∈ parts.comments, comment.Calm := fun comment member =>
    (enclosed.sound_comment sound member).calm_of_trivia (enclosed.comments_trivia comment member)
  rw [returnsOf_eq_flatMap, enclosed.children, List.flatMap_cons, List.flatMap_append,
    List.flatMap_cons, enclosed.opening_calm.returnsWithin, enclosed.closing_calm.returnsWithin,
    flatMap_returnsWithin_of_calm calm, List.nil_append, List.nil_append, List.append_nil]
  refine row_flatMap (enclosed.rows sound).1 fun child member => ?_
  exact (sound.ofChild (by simp [enclosed.children, member])).row_returnsWithin

/-! ## Functions -/

namespace FunctionNode

/-- What stands in a function. -/
def survey (source : Bytes) (options : Options) (function : FunctionNode) : Survey where
  refuses := function.RefusedAt options
  severs := fun stop => function.Severed source ∧ stop = function.node.span.stop

/-- What stands at the end of a function. -/
def endSurvey (source : Bytes) (function : FunctionNode) : Survey where
  refuses := fun _ => False
  severs := fun stop => function.Severed source ∧ stop = function.node.span.stop

namespace Sound

variable {function : FunctionNode}

/-- What is said of the parameters lies in their list. -/
theorem within_parameters (sound : function.Sound source) :
    (Survey.all (Node.parameterSurvey options) function.parameters.parts).Within
      function.parameters.span.start function.parameters.span.stop :=
  .all sound.parameters.row_parts fun _ member =>
    (sound.parameters.part member).within_parameter

/-- Reading the parameters fails at the first fault in their list. -/
theorem decides_readParameters (sound : function.Sound source) :
    (Survey.all (Node.parameterSurvey options) function.parameters.parts).Decides source
      (function.readParameters source options) := by
  apply Survey.Decides.mapM sound.parameters.row_parts
  · intro parameter member
    exact (sound.parameters.part member).within_parameter
  · intro parameter member
    exact decides_readParameter (sound.parameters.part member)

/-- What is said of the returns lies between the braces. -/
theorem within_returns (sound : function.Sound source) {parts : Braces}
    (enclosed : parts.Enclose function.body) :
    (Survey.all Node.returnSurvey (returnsOf function.body)).Within
      (function.body.span.start + 1) parts.closing.span.start :=
  .all (enclosed.row_returnsOf sound.body) fun _ member =>
    (sound.body.mem_returnsOf member).1.within_return

/-- Expanding the returns fails at the first fault in the body. -/
theorem decides_returnEdits (sound : function.Sound source) :
    (Survey.all Node.returnSurvey (returnsOf function.body)).Decides source
      (returnEdits source function.body) := by
  obtain ⟨parts, enclosed⟩ := sound.braces
  refine Survey.Decides.map ?_ (List.filterMap id)
  apply Survey.Decides.mapM (enclosed.row_returnsOf sound.body)
  · intro statement member
    exact (sound.body.mem_returnsOf member).1.within_return
  · intro statement member
    exact (sound.body.mem_returnsOf member).1.decides_returnEdit

/-- What is said of the end of a body lies after its closing brace. -/
theorem within_end (sound : function.Sound source) {parts : Braces}
    (enclosed : parts.Enclose function.body) :
    (function.endSurvey source).Within parts.closing.span.start function.node.span.stop := by
  have closing := enclosed.closing_lt sound.body
  have stop := sound.stop
  constructor
  · intro offset impossible
    cases impossible
  · rintro _ ⟨-, rfl⟩
    omega

/-- The woven body can be read exactly if its end is at a boundary. -/
theorem decides_decode (sound : function.Sound source) :
    (function.endSurvey source).Decides source
      (source.woven function.inside.stop function.inside.start
        (editsOf source function.body.walk)).decode := by
  cases read : (source.woven function.inside.stop function.inside.start
      (editsOf source function.body.walk)).decode with
  | ok text =>
      apply Survey.Decides.clear text fun _ => False.elim
      rintro stop ⟨severed, -⟩
      rw [sound.orderly.decode_eq_error_iff.mpr ⟨rfl, severed⟩] at read
      cases read
  | error fault =>
      obtain ⟨rfl, severed⟩ := sound.orderly.decode_eq_error_iff.mp read
      exact .severed ⟨severed, rfl⟩ fun _ => False.elim

/-- A function holds its parameters, its returns and the end of its body. -/
theorem survey_eq (sound : function.Sound source) :
    function.survey source options =
      (Survey.all (Node.parameterSurvey options) function.parameters.parts).join
        ((Survey.all Node.returnSurvey (returnsOf function.body)).join
          (function.endSurvey source)) := by
  obtain ⟨parts, enclosed⟩ := sound.braces
  have own := sound.body.own_return_iff (by simp [enclosed.kind])
    (by simp [enclosed.kind, Kind.opensScope])
  unfold survey RefusedAt
  simp only [← and_assoc, own]
  simp [Survey.join, Survey.all, endSurvey, Node.parameterSurvey, Node.returnSurvey]

/-- What is said of a body lies after the parameters. -/
theorem within_body (sound : function.Sound source) :
    ((Survey.all Node.returnSurvey (returnsOf function.body)).join
      (function.endSurvey source)).Within function.parameters.span.stop
        function.node.span.stop := by
  obtain ⟨parts, enclosed⟩ := sound.braces
  have inner := (enclosed.rows sound.body).1.le
  have closing := enclosed.closing_lt sound.body
  have stop := sound.stop
  have ordered := sound.ordered
  apply Survey.Within.join
  · exact (sound.within_returns enclosed).widen (by omega) (by omega)
  · exact (sound.within_end enclosed).widen (by omega) (Int.le_refl _)

/-- What is said of a function lies in it. -/
theorem within_survey (sound : function.Sound source) :
    (function.survey source options).Within function.node.span.start function.node.span.stop := by
  have inside := sound.node.row.inside (List.mem_map_of_mem sound.listed)
  rw [sound.survey_eq]
  apply Survey.Within.join
  · exact sound.within_parameters.widen inside.1 inside.2.2
  · exact sound.within_body.widen (by omega) (Int.le_refl _)

/-- How a function is rendered is decided by what stands first in it. -/
theorem decides_declaration (sound : function.Sound source) :
    (function.survey source options).Decides source
      (function.declaration source options).outcome := by
  obtain ⟨parts, enclosed⟩ := sound.braces
  obtain ⟨name, named⟩ := sound.nameText
  rw [function.declaration_outcome options named, sound.orderly.renderBody_outcome, sound.survey_eq]
  apply Survey.Decides.bind sound.within_parameters sound.within_body sound.decides_readParameters
  intro parameters _
  refine Survey.Decides.map ?_ _
  apply Survey.Decides.bind (sound.within_returns enclosed) (sound.within_end enclosed)
    sound.decides_returnEdits
  intro _ _
  exact sound.decides_decode

end Sound

end FunctionNode

/-! ## Scripts -/

/-- How a document is converted is decided by what stands first in its functions. -/
theorem Document.decides_convert {document : Document} (options : Options)
    (sound : document.Sound) :
    (Survey.all (FunctionNode.survey document.source options)
      (FunctionNode.topLevel document.root)).Decides document.source
        (document.convert options).outcome := by
  have row := FunctionNode.topLevel_row sound
  rw [Node.InRow, List.map_map] at row
  refine Survey.Decides.of_failsAs ?_ fun fault => convert_eq_error_iff sound
  rw [collect_outcome sound]
  apply Survey.Decides.mapM row
  · intro function member
    exact (FunctionNode.sound_topLevel sound member).within_survey
  · intro function member
    exact (FunctionNode.sound_topLevel sound member).decides_declaration.map (function, ·)

/-- **The earliest fault of a well-laid document is reported.** The document is refused exactly
if one of its functions has a parameter or a returned array that is, unless a severed body ends
before all of these, and the place that is reported is the first of them in the text. -/
theorem Document.convert_tells_first {document : Document} (sound : document.Sound)
    (options : Options) :
    let refused := document.RefusedAt options
    ((∃ cause location,
        (document.convert options).outcome = .error (.unsupported cause location)) ↔
      (∃ offset, refused offset) ∧
        ∀ function ∈ FunctionNode.topLevel document.root, function.Severed document.source →
          ∃ offset, refused offset ∧ offset < function.node.span.stop) ∧
    ∀ cause location, (document.convert options).outcome = .error (.unsupported cause location) →
      ∃ offset, Least refused offset ∧
        location = (document.source.pointAt offset).location := by
  intro refused
  have decided := decides_convert options sound
  refine ⟨decided.refuses_iff.trans ?_, fun cause location => decided.least_of_refused⟩
  refine and_congr_right fun _ => ⟨fun before function member severed => ?_, ?_⟩
  · exact before _ ⟨function, member, severed, rfl⟩
  · rintro before _ ⟨function, member, severed, rfl⟩
    exact before function member severed

/-- **The earliest fault is reported.** A script is refused exactly if one of its
functions has a parameter or a returned array that is, unless a severed body ends before
all of these, and the place that is reported is the first of them in the text. -/
theorem convert_reports_earliest {script : String} {document : Document}
    (parsed : Document.parse script = .ok document) (options : Options) :
    let refused := document.RefusedAt (options.resolve script)
    document.source = Utf8.encode script ∧
    ((∃ cause location,
        (convert script options).outcome = .error (.unsupported cause location)) ↔
      (∃ offset, refused offset) ∧
        ∀ function ∈ FunctionNode.topLevel document.root, function.Severed document.source →
          ∃ offset, refused offset ∧ offset < function.node.span.stop) ∧
    ∀ cause location, (convert script options).outcome = .error (.unsupported cause location) →
      ∃ offset, Least refused offset ∧
        location = (document.source.pointAt offset).location := by
  rw [convert_outcome options parsed]
  exact ⟨(Document.parse_eq_ok parsed).1,
    Document.convert_tells_first (Document.sound_of_parse parsed) (options.resolve script)⟩

/-- A function with a default value and a hole, and a function with a rest parameter. -/
def threeRefusals : String :=
  "// pragma strict-defaults\nfunction f(a, b = a) \x7b return [, b]; \x7d " ++
    "function g(...c) \x7b\x7d"

/-- A default value comes before a hole in the same function and before a parameter of
the next one. -/
theorem convert_reports_earliest_default :
    ∃ document offset, Document.parse threeRefusals = .ok document ∧
      Least (document.RefusedAt (({} : Options).resolve threeRefusals)) offset ∧
      (document.source.pointAt offset).location = ⟨2, 19⟩ ∧
      ∀ function ∈ FunctionNode.topLevel document.root, function.Severed document.source →
        ∃ earlier, document.RefusedAt (({} : Options).resolve threeRefusals) earlier ∧
          earlier < function.node.span.stop := by
  obtain ⟨document, parsed, -⟩ := Outcome.exists_ok_of_any (show
    ((Document.parse threeRefusals).toOption.any fun _ => true) = true by decide +kernel)
  have failed : (convert threeRefusals {}).outcome =
      .error (.unsupported (.computedDefault "b" "a") ⟨2, 19⟩) := by
    decide +kernel
  obtain ⟨-, refused, reported⟩ := convert_reports_earliest parsed {}
  obtain ⟨offset, least, place⟩ := reported _ _ failed
  exact ⟨document, offset, parsed, least, place.symm, (refused.mp ⟨_, _, failed⟩).2⟩

/-- A severed body is met before a parameter that is refused. -/
theorem convert_severed_before_refusal :
    ∃ document, Document.parse "function f() \x7b\x7d // \u00e9\nx; function g(...a) \x7b\x7d" =
        .ok document ∧
      (∃ offset, document.RefusedAt (({} : Options).resolve
        "function f() \x7b\x7d // \u00e9\nx; function g(...a) \x7b\x7d") offset) ∧
      (convert "function f() \x7b\x7d // \u00e9\nx; function g(...a) \x7b\x7d" {}).outcome =
        .error .undecodable := by
  obtain ⟨document, parsed, found⟩ := Outcome.exists_ok_of_any (show
    ((Document.parse "function f() \x7b\x7d // \u00e9\nx; function g(...a) \x7b\x7d").toOption.any
      fun document => (FunctionNode.topLevel document.root).any fun function =>
        function.parameters.parts.any (·.kind = .restPattern)) = true by decide +kernel)
  obtain ⟨function, member, found⟩ := List.any_eq_true.mp found
  obtain ⟨parameter, among, rest⟩ := List.any_eq_true.mp found
  have odd : ¬ parameter.IsPlain := by
    unfold Node.IsPlain
    simp [of_decide_eq_true rest]
  refine ⟨document, parsed, ?_, by decide +kernel⟩
  exact ⟨parameter.span.start, function, member, .inl ⟨parameter, among, .shape odd⟩⟩

end Codebox
