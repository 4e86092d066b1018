import Codebox.Proofs.Faults

/-! # Nested functions in patch mode

Direct mode walks the body of a function, and patch mode walks each of its
statements. The two walks see the same nodes of a statement unless the statement
is itself a function: the walk of the body stops there, and the walk of the
statement does not.
-/

namespace Codebox

variable {source : Bytes}

/-! ## Belonging to a function -/

/-- Whether a node is reached from another one without passing through a scope,
the other one included. -/
inductive Node.Own : Node → Node → Prop
  | self (node : Node) : Own node node
  | through {node child inner : Node} (flat : ¬ node.kind.opensScope)
      (member : child ∈ node.children) (own : Own child inner) : Own node inner

/-- What a node owns is listed with it. -/
theorem Node.Own.mem_listing {node inner : Node} (own : node.Own inner) :
    inner ∈ node.listing := by
  induction own with
  | self node => exact node.self_mem_listing
  | through flat member _ ih =>
      rw [listing_eq, if_neg flat]
      exact List.mem_cons_of_mem _ (mem_walk_iff.mpr ⟨_, member, ih⟩)

/-- What a well-laid node lists is what it owns. -/
theorem Node.Sound.own_of_mem_listing {node : Node} (sound : node.Sound source) :
    ∀ inner ∈ node.listing, node.Own inner := by
  induction sound with
  | @mk head children _ _ _ _ _ _ _ ih =>
      intro inner member
      rw [listing_eq] at member
      rcases List.mem_cons.mp member with rfl | member
      · exact .self _
      · split at member
        · cases member
        next flat =>
          obtain ⟨child, memberChild, among⟩ := mem_walk_iff.mp member
          exact .through flat memberChild (ih child memberChild inner among)

/-- Whether a statement holds a return that belongs to the function around it. -/
def Node.OwnsReturn (statement : Node) : Prop :=
  ∃ inner, statement.Own inner ∧ inner.kind = .returnStatement

variable {statement : Node}

/-- A statement has no returns exactly if its walk meets none. -/
theorem returnsOf_eq_nil_iff :
    returnsOf statement = [] ↔ ∀ inner ∈ statement.walk, inner.kind ≠ .returnStatement := by
  unfold returnsOf
  rw [List.filter_eq_nil_iff]
  simp

/-- A nested function owns its returns. -/
theorem not_ownsReturn_of_opensScope (other : statement.kind ≠ .returnStatement)
    (scope : statement.kind.opensScope) : ¬ statement.OwnsReturn := by
  rintro ⟨inner, own, returns⟩
  cases own with
  | self => exact other returns
  | through flat => exact flat scope

/-- The returns that belong to a scope are those that its walk meets. -/
theorem Node.Sound.own_return_iff {scope : Node} (sound : scope.Sound source)
    (other : scope.kind ≠ .returnStatement) (flat : ¬ scope.kind.opensScope) (inner : Node) :
    scope.Own inner ∧ inner.kind = .returnStatement ↔ inner ∈ returnsOf scope := by
  rw [returnsOf, List.mem_filter, decide_eq_true_eq]
  refine and_congr_left fun returns => ⟨fun own => ?_, fun member => ?_⟩
  · have member := own.mem_listing
    rw [listing_eq, if_neg flat] at member
    rcases List.mem_cons.mp member with rfl | member
    · exact (other returns).elim
    · exact member
  · apply sound.own_of_mem_listing
    rw [listing_eq, if_neg flat]
    exact List.mem_cons_of_mem _ member

/-- A statement owns a return exactly if it has one of its scope. -/
theorem Node.Sound.ownsReturn_iff (sound : statement.Sound source)
    (other : statement.kind ≠ .returnStatement) (flat : ¬ statement.kind.opensScope) :
    statement.OwnsReturn ↔ returnsOf statement ≠ [] := by
  unfold OwnsReturn
  simp only [sound.own_return_iff other flat]
  constructor
  · rintro ⟨inner, member⟩
    exact List.ne_nil_of_mem member
  · exact List.exists_mem_of_ne_nil _

/-! ## The text of a statement in direct mode -/

/-- Whether an edit lies in a window. -/
def Edit.within (window : Span) (edit : Edit) : Bool :=
  window.start ≤ edit.span.start && edit.span.stop ≤ window.stop

/-- The text that direct mode gives to a statement of a function: the edits of the
function's body that lie in it are made. -/
def FunctionNode.directText (source : Bytes) (function : FunctionNode) (returns : List Edit)
    (statement : Node) : Except Fault String :=
  source.spliceIn ((keywordEdits source function.body ++ returns).filter
    (Edit.within statement.span)) statement.span

/-- Of tidy edits before, in and after a window, those within it are the ones in it. -/
theorem Edit.filter_within {low high : Int} {window : Span} {before edits after : List Edit}
    (first : Tidy source low window.start before)
    (inside : Tidy source window.start window.stop edits)
    (last : Tidy source window.stop high after) :
    (before ++ (edits ++ after)).filter (within window) = edits := by
  have outsideBefore : before.filter (within window) = [] := by
    refine List.filter_eq_nil_iff.mpr fun edit member => ?_
    have wide := first.wide edit member
    have bounds := first.ordered.inside (List.mem_map_of_mem member)
    simp only [within, Bool.and_eq_true, decide_eq_true_eq]
    omega
  have outsideAfter : after.filter (within window) = [] := by
    refine List.filter_eq_nil_iff.mpr fun edit member => ?_
    have wide := last.wide edit member
    have bounds := last.ordered.inside (List.mem_map_of_mem member)
    simp only [within, Bool.and_eq_true, decide_eq_true_eq]
    omega
  have insideAll : edits.filter (within window) = edits := by
    refine List.filter_eq_self.mpr fun edit member => ?_
    have bounds := inside.ordered.inside (List.mem_map_of_mem member)
    simp only [within, Bool.and_eq_true, decide_eq_true_eq]
    omega
  rw [List.filter_append, List.filter_append, outsideBefore, outsideAfter, insideAll,
    List.nil_append, List.append_nil]

/-- Direct mode makes the edits of the statement's own scope in it. -/
theorem FunctionNode.Sound.directText_eq {function : FunctionNode} {returns : List Edit}
    (sound : function.Sound source) (member : statement ∈ function.body.children)
    (expanded : returnEdits source function.body = .ok returns) :
    function.directText source returns statement =
      (source.woven statement.span.stop statement.span.start
        (editsOf source statement.listing)).decode := by
  have soundStatement := sound.body.ofChild member
  obtain ⟨before, after, split⟩ := List.append_of_mem member
  have row := sound.body.row
  rw [split, Node.InRow, List.map_append, List.map_cons] at row
  obtain ⟨rowBefore, -, rowAfter⟩ := Span.row_append_cons.mp row
  have tidyBefore := tidy_listings rowBefore fun child among =>
    (sound.body.ofChild (by simp [split, among])).tidy_listing
  have tidyAfter := tidy_listings rowAfter fun child among =>
    (sound.body.ofChild (by simp [split, among])).tidy_listing
  have whole : editsOf source function.body.walk = editsOf source (Node.listings before) ++
      (editsOf source statement.listing ++ editsOf source (Node.listings after)) := by
    rw [Node.walk_eq_listings, split, Node.listings_append, Node.listings, editsOf_append,
      editsOf_append]
  have same := (sound.edits_perm expanded).filter (Edit.within statement.span)
  rw [whole, Edit.filter_within tidyBefore soundStatement.tidy_listing tidyAfter] at same
  exact Bytes.spliceIn_eq_decode same soundStatement.starts.nonneg
    soundStatement.stops.le_length soundStatement.tidy_listing

/-- Direct mode copies a nested function. -/
theorem FunctionNode.Sound.directText_of_opensScope {function : FunctionNode} {returns : List Edit}
    (sound : function.Sound source) (member : statement ∈ function.body.children)
    (expanded : returnEdits source function.body = .ok returns)
    (scope : statement.kind.opensScope) :
    function.directText source returns statement = statement.text source := by
  have kept : statement.kind.isRewritten = false := by
    cases kind : statement.kind <;> simp_all [Kind.opensScope, Kind.isRewritten]
  rw [sound.directText_eq member expanded, editsOf_listing, nodeEdit?_eq_none kept, if_pos scope]
  rfl

/-! ## The text of a statement in patch mode -/

/-- Deletions leave less than there was. -/
theorem Bytes.length_woven_of_deletions {low high : Int} {edits : List Edit}
    (tidy : Edit.Tidy source low high edits) (least : 0 ≤ low) (most : high ≤ source.length)
    (deletes : ∀ edit ∈ edits, edit.text = "") :
    ((source.woven high low edits).length : Int) ≤ high - low ∧
      (edits ≠ [] → ((source.woven high low edits).length : Int) < high - low) := by
  obtain ⟨ordered, wide, -⟩ := tidy
  induction edits generalizing low with
  | nil =>
      refine ⟨Int.le_of_eq (length_cut source least ordered most), fun some => (some rfl).elim⟩
  | cons edit rest ih =>
      obtain ⟨starts, order, ordered⟩ := ordered
      obtain ⟨wideEdit, wide⟩ := List.forall_mem_cons.mp wide
      obtain ⟨empty, deletes⟩ := List.forall_mem_cons.mp deletes
      have tail := (ih (by omega) deletes ordered wide).1
      have bound := ordered.le
      have kept := length_cut source least starts (by omega)
      have nothing : Utf8.encode "" = [] := rfl
      simp only [woven, empty, nothing, List.nil_append, List.length_append]
      omega

/-- Deleting a keyword writes nothing in its place. -/
theorem text_of_keywordEdits {edit : Edit} (member : edit ∈ keywordEdits source statement) :
    edit.text = "" := by
  obtain ⟨node, -, found⟩ := List.mem_filterMap.mp member
  obtain ⟨keyword, binding, -, -, rfl⟩ := keywordEdit?_eq_some found
  rfl

/-- Without returns, the edits of a statement that opens no scope are the
deletions of its keywords. -/
theorem keywordEdits_eq_editsOf (flat : ¬ statement.kind.opensScope)
    (other : statement.kind ≠ .returnStatement) (absent : returnsOf statement = []) :
    keywordEdits source statement = editsOf source statement.listing := by
  rw [keywordEdits, keywords_eq, Node.listing_eq, if_neg flat]
  congr 1
  refine List.filter_eq_self.mpr fun inner member => ?_
  rcases List.mem_cons.mp member with rfl | member
  · simpa using other
  · simpa using returnsOf_eq_nil_iff.mp absent inner member

/-- The kinds of statements that patch mode copies. -/
def Kind.isCopied : Kind → Bool
  | .lexicalDeclaration | .variableDeclaration | .expressionStatement | .comment
  | .emptyStatement | .returnStatement => false
  | _ => true

namespace Synthesizer

variable {synthesizer : Synthesizer}

/-- Whether a statement is refused for a return that it holds. -/
def Refuses (synthesizer : Synthesizer) (statement : Node) : Prop :=
  ∃ line location, (synthesizer.emit statement).outcome =
    .error (.unsupported (.nestedReturn synthesizer.options.mainName line) location)

/-- A statement that is copied is no return. -/
theorem ne_return_of_copied (copied : statement.kind.isCopied) :
    statement.kind ≠ .returnStatement := by
  intro returns
  rw [returns] at copied
  cases copied

/-- A statement that is copied is emitted as its text. -/
theorem emit_of_copied (copied : statement.kind.isCopied) :
    synthesizer.emit statement =
      Run.lift (synthesizer.statementText statement) >>= Run.write := by
  unfold emit
  cases kind : statement.kind <;> simp_all [Kind.isCopied]

/-- A statement that is copied is emitted as one line. -/
theorem emit_of_text {line : String} (copied : statement.kind.isCopied)
    (written : synthesizer.statementText statement = .ok line) :
    synthesizer.emit statement = ⟨[line], .ok ()⟩ := by
  rw [emit_of_copied copied, written]
  rfl

/-- Without returns a statement is copied without its keywords. -/
theorem exists_statementText (synthesizer : Synthesizer)
    (sound : statement.Sound synthesizer.source) (absent : returnsOf statement = []) :
    ∃ line, synthesizer.statementText statement = .ok line ∧
      Utf8.encode line = synthesizer.source.woven statement.span.stop statement.span.start
        (keywordEdits synthesizer.source statement) := by
  unfold statementText
  rw [absent]
  exact sound.spliceIn_keywordEdits

/-- A statement is refused exactly if its walk meets a return. -/
theorem refuses_iff (sound : statement.Sound synthesizer.source)
    (copied : statement.kind.isCopied) :
    synthesizer.Refuses statement ↔ returnsOf statement ≠ [] := by
  constructor
  · rintro ⟨line, location, refused⟩ absent
    obtain ⟨text, written, -⟩ := synthesizer.exists_statementText sound absent
    rw [emit_of_text copied written] at refused
    cases refused
  · intro present
    obtain ⟨node, rest, found⟩ := List.exists_cons_of_ne_nil present
    have member : node ∈ returnsOf statement := by
      rw [found]
      exact List.mem_cons_self
    obtain ⟨line, first⟩ := (sound.walk (List.mem_filter.mp member).1).firstLine
    refine ⟨line, node.location, ?_⟩
    rw [emit_of_copied copied, Run.outcome_bind, Run.outcome_lift, statementText, found]
    simp only [first, Outcome.bind_ok]
    rfl

/-- Where patch mode refuses no return, it writes what direct mode writes unless it
deletes a keyword of a nested function. -/
theorem copies_iff (sound : synthesizer.function.Sound synthesizer.source)
    (member : statement ∈ synthesizer.function.body.children) (copied : statement.kind.isCopied)
    {returns : List Edit}
    (expanded : returnEdits synthesizer.source synthesizer.function.body = .ok returns)
    (absent : returnsOf statement = []) :
    (∃ line, synthesizer.function.directText synthesizer.source returns statement = .ok line ∧
        synthesizer.emit statement = ⟨[line], .ok ()⟩) ↔
      (statement.kind.opensScope → keywordEdits synthesizer.source statement = []) := by
  have soundStatement := sound.body.ofChild member
  have other := ne_return_of_copied copied
  obtain ⟨line, copies, written⟩ := synthesizer.exists_statementText soundStatement absent
  rw [emit_of_text copied copies]
  by_cases scope : statement.kind.opensScope
  · rw [sound.directText_of_opensScope member expanded scope]
    constructor
    · rintro ⟨_, read, same⟩ -
      cases same
      have covered := Bytes.decode_eq_ok_iff.mp read
      have width := Bytes.length_cut synthesizer.source soundStatement.starts.nonneg
        soundStatement.order soundStatement.stops.le_length
      have shorter := (Bytes.length_woven_of_deletions soundStatement.tidy_keywordEdits
        soundStatement.starts.nonneg soundStatement.stops.le_length
        fun edit => text_of_keywordEdits).2
      by_contra some
      have less := shorter some
      rw [← written, covered] at less
      change ((synthesizer.source.cut statement.span).length : Int) = _ at width
      omega
    · intro none
      refine ⟨line, Bytes.decode_eq_ok_iff.mpr ?_, rfl⟩
      rw [written, none scope]
      rfl
  · refine ⟨fun _ opens => (scope opens).elim, fun _ => ⟨line, ?_, rfl⟩⟩
    rw [sound.directText_eq member expanded, ← keywordEdits_eq_editsOf scope other absent]
    exact Bytes.decode_eq_ok_iff.mpr written

/-- Patch mode refuses the returns of the function and no others, unless the
statement is a nested function with returns of its own. -/
theorem refuses_iff_ownsReturn_iff (synthesizer : Synthesizer)
    (sound : statement.Sound synthesizer.source) (copied : statement.kind.isCopied) :
    (synthesizer.Refuses statement ↔ statement.OwnsReturn) ↔
      (statement.kind.opensScope → returnsOf statement = []) := by
  have other := ne_return_of_copied copied
  rw [refuses_iff sound copied]
  by_cases scope : statement.kind.opensScope
  · have foreign := not_ownsReturn_of_opensScope other scope
    simp [scope, foreign]
  · simp [scope, sound.ownsReturn_iff other scope]

/-- Patch mode writes what it does not refuse as direct mode does, unless the
statement is a nested function with returns or declarations of its own. -/
theorem agrees_iff (synthesizer : Synthesizer)
    (sound : synthesizer.function.Sound synthesizer.source)
    (member : statement ∈ synthesizer.function.body.children) (copied : statement.kind.isCopied)
    {returns : List Edit}
    (expanded : returnEdits synthesizer.source synthesizer.function.body = .ok returns) :
    (synthesizer.Refuses statement ↔ statement.OwnsReturn) ∧
        (¬ statement.OwnsReturn → ∃ line,
          synthesizer.function.directText synthesizer.source returns statement = .ok line ∧
            synthesizer.emit statement = ⟨[line], .ok ()⟩) ↔
      (statement.kind.opensScope →
        returnsOf statement = [] ∧ keywordEdits synthesizer.source statement = []) := by
  have soundStatement := sound.body.ofChild member
  have other := ne_return_of_copied copied
  rw [synthesizer.refuses_iff_ownsReturn_iff soundStatement copied]
  by_cases scope : statement.kind.opensScope
  · have foreign := not_ownsReturn_of_opensScope other scope
    constructor
    · rintro ⟨absent, copies⟩ -
      have none := absent scope
      exact ⟨none, (copies_iff sound member copied expanded none).mp (copies foreign) scope⟩
    · intro none
      refine ⟨fun _ => (none scope).1, fun _ => ?_⟩
      exact (copies_iff sound member copied expanded (none scope).1).mpr fun _ => (none scope).2
  · refine ⟨fun _ opens => (scope opens).elim, fun _ => ⟨fun opens => (scope opens).elim, ?_⟩⟩
    intro foreign
    rw [soundStatement.ownsReturn_iff other scope, not_not] at foreign
    exact (copies_iff sound member copied expanded foreign).mpr fun opens => (scope opens).elim

/-- **The two modes agree on the statements of a well-laid function, with one exception.** A
statement is refused exactly for a return of the function itself, and else written as
direct mode writes it, unless the statement is itself a function that has returns or
declarations. Direct mode copies every such function. -/
theorem follows_direct (synthesizer : Synthesizer)
    (sound : synthesizer.function.Sound synthesizer.source)
    (among : statement ∈ synthesizer.function.body.namedChildren)
    (copied : statement.kind.isCopied) :
    ((synthesizer.Refuses statement ↔ statement.OwnsReturn) ↔
      (statement.kind.opensScope → returnsOf statement = [])) ∧
    ∀ returns, returnEdits synthesizer.source synthesizer.function.body = .ok returns →
      ((synthesizer.Refuses statement ↔ statement.OwnsReturn) ∧
          (¬ statement.OwnsReturn → ∃ line,
            synthesizer.function.directText synthesizer.source returns statement = .ok line ∧
              synthesizer.emit statement = ⟨[line], .ok ()⟩) ↔
        (statement.kind.opensScope →
          returnsOf statement = [] ∧ keywordEdits synthesizer.source statement = [])) ∧
      (statement.kind.opensScope →
        synthesizer.function.directText synthesizer.source returns statement =
          statement.text synthesizer.source) := by
  have child : statement ∈ synthesizer.function.body.children := (List.mem_filter.mp among).1
  refine ⟨synthesizer.refuses_iff_ownsReturn_iff (sound.body.ofChild child) copied, ?_⟩
  intro returns expanded
  refine ⟨synthesizer.agrees_iff sound child copied expanded, ?_⟩
  exact sound.directText_of_opensScope child expanded

end Synthesizer

/-- **Patch mode treats nested functions as direct mode does, with one exception.** A
statement is refused exactly for a return of the function itself, and else written as
direct mode writes it, unless the statement is itself a function that has returns or
declarations. Direct mode copies every such function. -/
theorem emit_agrees_iff {script : String} {document : Document}
    (parsed : Document.parse script = .ok document) {function : FunctionNode}
    (member : function ∈ FunctionNode.topLevel document.root) {statement : Node}
    (among : statement ∈ function.body.namedChildren) (copied : statement.kind.isCopied)
    (options : Options) (patch : Patch) :
    let synthesizer : Synthesizer := ⟨document.source, function, options, patch⟩
    ((synthesizer.Refuses statement ↔ statement.OwnsReturn) ↔
      (statement.kind.opensScope → returnsOf statement = [])) ∧
    ∀ returns, returnEdits document.source function.body = .ok returns →
      ((synthesizer.Refuses statement ↔ statement.OwnsReturn) ∧
          (¬ statement.OwnsReturn → ∃ line,
            function.directText document.source returns statement = .ok line ∧
              synthesizer.emit statement = ⟨[line], .ok ()⟩) ↔
        (statement.kind.opensScope →
          returnsOf statement = [] ∧ keywordEdits document.source statement = [])) ∧
      (statement.kind.opensScope →
        function.directText document.source returns statement =
          statement.text document.source) :=
  Synthesizer.follows_direct ⟨document.source, function, options, patch⟩
    (FunctionNode.sound_topLevel (Document.sound_of_parse parsed) member) among copied

/-- A branch that declares is written as in direct mode. -/
theorem emit_agrees_iff_branch :
    ∃ document function statement returns,
      Document.parse "function main(a) \x7b if (a) \x7b let b = 1; \x7d return [a]; \x7d" =
        .ok document ∧
      function ∈ FunctionNode.topLevel document.root ∧
      statement ∈ function.body.namedChildren ∧ statement.kind.isCopied ∧
      returnEdits document.source function.body = .ok returns ∧
      ∃ line, function.directText document.source returns statement = .ok line ∧
        Synthesizer.emit ⟨document.source, function, {}, {}⟩ statement = ⟨[line], .ok ()⟩ := by
  obtain ⟨document, parsed, found⟩ := Outcome.exists_ok_of_any (show
    ((Document.parse
      "function main(a) \x7b if (a) \x7b let b = 1; \x7d return [a]; \x7d").toOption.any
        fun document => (FunctionNode.topLevel document.root).any fun function =>
          (returnEdits document.source function.body).toOption.any fun _ =>
            function.body.namedChildren.any fun statement =>
              statement.kind.isCopied && !statement.kind.opensScope &&
                (returnsOf statement).isEmpty) = true by decide +kernel)
  obtain ⟨function, member, found⟩ := List.any_eq_true.mp found
  obtain ⟨returns, expanded, found⟩ := Outcome.exists_ok_of_any found
  obtain ⟨statement, among, holds⟩ := List.any_eq_true.mp found
  simp only [Bool.and_eq_true, Bool.not_eq_true', List.isEmpty_iff] at holds
  obtain ⟨⟨copied, flat⟩, absent⟩ := holds
  have agreed := (emit_agrees_iff parsed member among copied {} {}).2 returns expanded
  obtain ⟨refusal, copies⟩ := agreed.1.mpr fun opens => by simp [flat] at opens
  have sound := FunctionNode.sound_topLevel (Document.sound_of_parse parsed) member
  have foreign : ¬ statement.OwnsReturn := by
    rw [← refusal, Synthesizer.refuses_iff (sound.body.namedChild among) copied, not_not]
    exact absent
  exact ⟨document, function, statement, returns, parsed, member, among, copied, expanded,
    copies foreign⟩

/-- The return of a nested function is taken for one of the main function. -/
theorem nested_return_refused :
    (convertToPatch
      "function main(a) \x7b function g() \x7b return 1; \x7d return g(a); \x7d" {}).outcome =
        .error (.unsupported (.nestedReturn "main" "return 1;") ⟨1, 35⟩) := by
  decide +kernel

end Codebox
