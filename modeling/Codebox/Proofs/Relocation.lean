import Codebox.Return
import Codebox.Proofs.Layout
import Codebox.Proofs.Sequence

/-! # Trees in another place

Bytes before and after a text move it to another place in a longer text. A tree that lies
in the text moves with it: all its offsets grow by the number of bytes before, and its
points go wherever these bytes put them. What is read off the tree does not depend on the
place. Every node has the text that it had, and the edits of a scope move with it. An
array that is refused is refused in the new place, with the same message.
-/

namespace Codebox

/-- Another place for a tree: how far its offsets move, and where its points go. -/
structure Move where
  offset : Nat
  place : Point → Point

/-- A span in its new place. -/
def Span.moved (move : Move) (span : Span) : Span :=
  ⟨span.start + move.offset, span.stop + move.offset⟩

/-- An edit in its new place. -/
def Edit.moved (move : Move) (edit : Edit) : Edit :=
  ⟨edit.span.moved move, edit.text⟩

/-- The location of the new place of a point. -/
def Location.moved (move : Move) (location : Location) : Location :=
  (move.place ⟨(location.line - 1).toNat, (location.column - 1).toNat⟩).location

/-- The same fault in its new place. -/
def Fault.moved (move : Move) : Fault → Fault
  | .malformed cause location => .malformed cause (location.moved move)
  | .unsupported cause location => .unsupported cause (location.moved move)
  | .overlapping => .overlapping
  | .outside => .outside
  | .undecodable => .undecodable

/-- The head of a node in its new place. -/
def Head.moved (move : Move) (head : Head) : Head :=
  { head with span := head.span.moved move, point := move.place head.point }

namespace Node

mutual

/-- A tree in its new place. -/
def moved (move : Move) : Node → Node
  | mk head children => mk (head.moved move) (movedAll move children)

/-- Trees in their new places. -/
def movedAll (move : Move) : List Node → List Node
  | [] => []
  | node :: rest => moved move node :: movedAll move rest

end

end Node

/-- How a computation ends in the new place: with the new form of its value, or with the
same fault there. -/
def Outcome.moved {α β : Type} (move : Move) (change : α → β) : Except Fault α → Except Fault β
  | .ok value => .ok (change value)
  | .error fault => .error (fault.moved move)

/-- A run in the new place, which writes the same. -/
def Run.moved {ω α β : Type} (move : Move) (change : α → β) (run : Run ω α) : Run ω β :=
  ⟨run.written, Outcome.moved move change run.outcome⟩

/-- The span lies in a text. -/
structure Span.LiesIn (source : Bytes) (span : Span) : Prop where
  least : 0 ≤ span.start
  order : span.start ≤ span.stop
  most : span.stop ≤ source.length

theorem Span.LiesIn.stop_nonneg {source : Bytes} {span : Span} (lies : span.LiesIn source) :
    0 ≤ span.stop :=
  Int.le_trans lies.least lies.order

/-- The spans of a whole tree lie in a text. -/
inductive Node.LiesIn (source : Bytes) : Node → Prop
  | mk {head : Head} {children : List Node} (span : head.span.LiesIn source)
      (below : ∀ child ∈ children, LiesIn source child) : LiesIn source (.mk head children)

/-- The longer text has, at the new place of a span, what the text has there. -/
def Move.Carries (move : Move) (source whole : Bytes) : Prop :=
  ∀ span : Span, 0 ≤ span.start → 0 ≤ span.stop → span.stop ≤ source.length →
    whole.cut (span.moved move) = source.cut span

variable {move : Move} {source whole : Bytes} {node child : Node}

/-- Bytes around a text move it by the number of those before it. -/
theorem Move.carries_append (place : Point → Point) (before source after : Bytes) :
    Move.Carries ⟨before.length, place⟩ source (before ++ source ++ after) := by
  rintro ⟨start, stop⟩ least nonneg most
  simp only at least nonneg most
  change Bytes.cut _ ⟨start + before.length, stop + before.length⟩ = _
  rw [Bytes.cut_of_nonneg _ (by omega) (by omega), Bytes.cut_of_nonneg _ least nonneg,
    show (start + before.length).toNat = before.length + start.toNat by omega,
    show (stop + before.length).toNat - (before.length + start.toNat) =
      stop.toNat - start.toNat by omega,
    List.append_assoc, List.drop_length_add_append]
  -- a span that ends before it starts covers nothing, however far beyond the text it starts
  by_cases inside : start < stop
  · rw [List.drop_append_of_le_length (by omega),
      List.take_append_of_le_length (by rw [List.length_drop]; omega)]
  · rw [show stop.toNat - start.toNat = 0 by omega, List.take_zero, List.take_zero]

/-! ## Computations in another place -/

namespace Outcome

variable {α β γ δ : Type} {change : α → β} {onward : γ → δ}

/-- Computations in sequence move if each of them does. -/
theorem moved_bind {first : Except Fault α} {next : α → Except Fault γ}
    {there : β → Except Fault δ}
    (each : ∀ value, first = .ok value → there (change value) = moved move onward (next value)) :
    moved move change first >>= there = moved move onward (first >>= next) := by
  cases first with
  | error fault => rfl
  | ok value => exact each value rfl

/-- Steps that agree on moved items agree on rows of them. -/
theorem moved_mapM {items : List γ} {f : γ → Except Fault α} {there : δ → Except Fault β}
    (each : ∀ item ∈ items, there (onward item) = moved move change (f item)) :
    (items.map onward).mapM there = moved move (List.map change) (items.mapM f) := by
  induction items with
  | nil => rfl
  | cons item rest ih =>
      obtain ⟨here, each⟩ := List.forall_mem_cons.mp each
      rw [List.map_cons, List.mapM_cons, List.mapM_cons, here, ih each]
      refine moved_bind fun value _ => ?_
      exact moved_bind fun values _ => rfl

/-- Steps that give the same of moved items give the same of rows of them. -/
theorem moved_mapM_id {items : List γ} {f : γ → Except Fault α} {there : δ → Except Fault α}
    (each : ∀ item ∈ items, there (onward item) = moved move id (f item)) :
    (items.map onward).mapM there = moved move id (items.mapM f) := by
  rw [moved_mapM each, List.map_id_fun]

end Outcome

namespace Run

variable {ω α β γ δ : Type} {change : α → β} {onward : γ → δ}

theorem moved_lift (outcome : Except Fault α) :
    (lift (Outcome.moved move change outcome) : Run ω β) = (lift outcome).moved move change := rfl

/-- Runs one after the other move if each of them does. -/
theorem moved_bind {first : Run ω α} {next : α → Run ω γ} {there : β → Run ω δ}
    (each : ∀ value, there (change value) = (next value).moved move onward) :
    first.moved move change >>= there = (first >>= next).moved move onward := by
  obtain ⟨written, outcome⟩ := first
  cases outcome with
  | error fault => rfl
  | ok value =>
      change Run.mk (written ++ (there (change value)).written) (there (change value)).outcome = _
      rw [each value]
      rfl

/-- Runs that agree on moved items agree on rows of them. -/
theorem moved_forM {items : List γ} {f : γ → Run ω Unit} {there : δ → Run ω Unit}
    (each : ∀ item ∈ items, there (onward item) = (f item).moved move id) :
    (items.map onward).forM there = (items.forM f).moved move id := by
  induction items with
  | nil => rfl
  | cons item rest ih =>
      obtain ⟨here, each⟩ := List.forall_mem_cons.mp each
      change there (onward item) >>= (fun _ => (rest.map onward).forM there) =
        (f item >>= fun _ => rest.forM f).moved move id
      rw [here]
      exact moved_bind fun _ => ih each

end Run

/-- Bytes that are no text are no text anywhere. -/
theorem Bytes.decode_moved (move : Move) (bytes : Bytes) :
    bytes.decode = Outcome.moved move id bytes.decode := by
  unfold decode
  split <;> rfl

/-! ## Trees in another place -/

/-- The location of a placed point is the moved location. -/
theorem Point.location_place (move : Move) (point : Point) :
    (move.place point).location = point.location.moved move := by
  simp [location, Location.moved]

namespace Node

/-- Nodes in a row move one by one. -/
theorem movedAll_eq_map (move : Move) (nodes : List Node) :
    movedAll move nodes = nodes.map (moved move) := by
  induction nodes with
  | nil => rfl
  | cons node rest ih => rw [movedAll, ih, List.map_cons]

@[simp] theorem head_moved (move : Move) (node : Node) :
    (node.moved move).head = node.head.moved move := by
  cases node
  rfl

@[simp] theorem children_moved (move : Move) (node : Node) :
    (node.moved move).children = node.children.map (moved move) := by
  cases node
  rw [moved, children, children, movedAll_eq_map]

@[simp] theorem kind_moved (move : Move) (node : Node) : (node.moved move).kind = node.kind := by
  cases node
  rfl

@[simp] theorem span_moved (move : Move) (node : Node) :
    (node.moved move).span = node.span.moved move := by
  cases node
  rfl

@[simp] theorem location_moved (move : Move) (node : Node) :
    (node.moved move).location = node.location.moved move := by
  cases node
  exact Point.location_place move _

@[simp] theorem namedChildren_moved (move : Move) (node : Node) :
    (node.moved move).namedChildren = node.namedChildren.map (moved move) := by
  unfold namedChildren
  rw [children_moved, List.filter_map]
  simp [Function.comp_def, Head.moved]

@[simp] theorem parts_moved (move : Move) (node : Node) :
    (node.moved move).parts = node.parts.map (moved move) := by
  unfold parts
  rw [namedChildren_moved, List.filter_map]
  simp [Function.comp_def]

@[simp] theorem child?_moved (move : Move) (node : Node) (role : Role) :
    (node.moved move).child? role = (node.child? role).map (moved move) := by
  unfold child?
  rw [children_moved, List.find?_map]
  simp only [Function.comp_def, head_moved, Head.moved]

mutual

/-- By recursion along the tree: a moved node lists the moved nodes. -/
theorem listing_moved (move : Move) :
    (node : Node) → (node.moved move).listing = node.listing.map (moved move)
  | mk head children => by
    rw [moved, listing, listing, movedAll_eq_map]
    by_cases opens : head.kind.opensScope
    · simp [Head.moved, opens, moved, movedAll_eq_map]
    · simp [Head.moved, opens, moved, movedAll_eq_map, listings_moved move children]

/-- Moved nodes list the moved nodes, one after the other. -/
theorem listings_moved (move : Move) :
    (nodes : List Node) → listings (nodes.map (moved move)) = (listings nodes).map (moved move)
  | [] => rfl
  | node :: rest => by
    rw [List.map_cons, listings, listings, List.map_append, listing_moved move node,
      listings_moved move rest]

end

@[simp] theorem walk_moved (move : Move) (node : Node) :
    (node.moved move).walk = node.walk.map (moved move) := by
  rw [walk_eq_listings, walk_eq_listings, children_moved, listings_moved]

@[simp] theorem isLiteral_moved (move : Move) (node : Node) :
    (node.moved move).isLiteral = node.isLiteral := by
  unfold isLiteral
  simp only [kind_moved, namedChildren_moved, child?_moved, List.all_map, Function.comp_def]
  cases node.child? .operator <;> cases node.child? .argument <;> simp

namespace LiesIn

theorem span (lies : node.LiesIn source) : node.span.LiesIn source := by
  cases lies with
  | mk span => exact span

theorem ofChild (lies : node.LiesIn source) (member : child ∈ node.children) :
    child.LiesIn source := by
  cases lies with
  | mk _ below => exact below child member

theorem child? (lies : node.LiesIn source) {role : Role} (found : node.child? role = some child) :
    child.LiesIn source :=
  lies.ofChild (List.mem_of_find?_eq_some found)

theorem namedChild (lies : node.LiesIn source) (member : child ∈ node.namedChildren) :
    child.LiesIn source :=
  lies.ofChild (List.mem_filter.mp member).1

theorem part (lies : node.LiesIn source) (member : child ∈ node.parts) : child.LiesIn source :=
  lies.namedChild (List.mem_filter.mp member).1

theorem walk (lies : node.LiesIn source) {inner : Node} (member : inner ∈ node.walk) :
    inner.LiesIn source := by
  rw [walk_eq_listings] at member
  exact forall_listings (fun _ lies _ => lies.ofChild) node.children (fun _ => lies.ofChild)
    inner member

end LiesIn

/-- A well-laid tree lies in its text. -/
theorem Sound.liesIn (sound : node.Sound source) : node.LiesIn source := by
  induction sound with
  | mk starts stops order _ _ _ _ ih => exact .mk ⟨starts.nonneg, order, stops.le_length⟩ ih

/-- The text of a node is the same in the new place. -/
theorem text_moved (carries : move.Carries source whole) (lies : node.LiesIn source) :
    (node.moved move).text whole = Outcome.moved move id (node.text source) := by
  have inside := lies.span
  unfold text Bytes.extract
  rw [span_moved, carries _ inside.least inside.stop_nonneg inside.most]
  exact Bytes.decode_moved move _

end Node

/-! ## Edits in another place -/

/-- Moving edits keeps the place where one is inserted. -/
theorem Edit.insert_moved (move : Move) (edit : Edit) (edits : List Edit) :
    (edit.moved move).insert (edits.map (Edit.moved move)) =
      (edit.insert edits).map (Edit.moved move) := by
  induction edits with
  | nil => rfl
  | cons next rest ih =>
      have same : (next.moved move).span.start ≤ (edit.moved move).span.start ↔
          next.span.start ≤ edit.span.start := Int.add_le_add_iff_right _
      rw [List.map_cons, Edit.insert, Edit.insert, ih]
      simp only [same]
      split <;> rfl

/-- Moving edits keeps their order. -/
theorem Edit.sort_moved (move : Move) (edits : List Edit) :
    Edit.sort (edits.map (Edit.moved move)) = (Edit.sort edits).map (Edit.moved move) := by
  induction edits with
  | nil => rfl
  | cons edit rest ih => rw [List.map_cons, Edit.sort, Edit.sort, ih, Edit.insert_moved]

/-- Edits that move together with the place of the first byte do the same. -/
theorem Bytes.make_moved (move : Move) (base limit : Int) (out : Bytes) (edits : List Edit) :
    make (base + move.offset) (limit + move.offset) out (edits.map (Edit.moved move)) =
      Outcome.moved move id (make base limit out edits) := by
  induction edits generalizing limit out with
  | nil => rfl
  | cons edit rest ih =>
      simp only [List.map_cons, make, Edit.moved, Span.moved, Int.add_lt_add_iff_right,
        Int.add_sub_add_right]
      split
      · rfl
      · split
        · rfl
        · exact ih edit.span.start _

/-- A window is edited in its new place as it was. -/
theorem Bytes.spliceIn_moved (carries : move.Carries source whole) {window : Span}
    (least : 0 ≤ window.start) (nonneg : 0 ≤ window.stop) (most : window.stop ≤ source.length)
    (edits : List Edit) :
    whole.spliceIn (edits.map (Edit.moved move)) (window.moved move) =
      Outcome.moved move id (source.spliceIn edits window) := by
  unfold spliceIn editedIn
  rw [Edit.sort_moved, carries window least nonneg most]
  change make (window.start + move.offset) (window.stop + move.offset) _ _ >>= _ = _
  rw [make_moved]
  exact Outcome.moved_bind fun bytes _ => bytes.decode_moved move

/-- A moved node declares by the moved keyword. -/
theorem declaring?_moved (move : Move) (node : Node) :
    declaring? (node.moved move) =
      (declaring? node).map (Prod.map (Node.moved move) (Node.moved move)) := by
  unfold declaring?
  simp only [Node.kind_moved, Node.children_moved, Node.namedChildren_moved, Node.child?_moved,
    List.head?_map, List.find?_map, Function.comp_def]
  split
  · cases node.children.head? <;>
      cases node.namedChildren.find? (·.kind = .variableDeclarator) <;> rfl
  · split
    · cases node.child? .keyword <;> cases node.child? .left <;> rfl
    · rfl

/-- The keyword and the binding of a node in the text lie in the text. -/
theorem declaring?_liesIn (lies : node.LiesIn source) {keyword binding : Node}
    (found : declaring? node = some (keyword, binding)) :
    keyword.LiesIn source ∧ binding.LiesIn source := by
  unfold declaring? at found
  split at found
  · split at found
    next first named =>
      cases found
      exact ⟨lies.ofChild (List.mem_of_mem_head? first),
        lies.namedChild (List.mem_of_find?_eq_some named)⟩
    next => cases found
  · split at found
    · split at found
      next first second =>
        cases found
        exact ⟨lies.child? first, lies.child? second⟩
      next => cases found
    · cases found

/-- The gap after a keyword is as long wherever it stands. -/
theorem gapLength_moved (carries : move.Carries source whole) {keyword binding : Node}
    (lies : keyword.LiesIn source) (bound : binding.LiesIn source) :
    gapLength whole (keyword.moved move) (binding.moved move) =
      gapLength source keyword binding := by
  have lower := lies.span
  have upper := bound.span
  unfold gapLength
  rw [Node.span_moved, Node.span_moved]
  congr 2
  exact carries ⟨keyword.span.stop, binding.span.start⟩ lower.stop_nonneg upper.least
    (Int.le_trans upper.order upper.most)

/-- The keyword of a moved node is deleted by the moved edit. -/
theorem keywordEdit?_moved (carries : move.Carries source whole) (lies : node.LiesIn source) :
    keywordEdit? whole (node.moved move) = (keywordEdit? source node).map (Edit.moved move) := by
  unfold keywordEdit?
  rw [declaring?_moved]
  cases found : declaring? node with
  | none => rfl
  | some heading =>
      obtain ⟨keyword, binding⟩ := heading
      obtain ⟨first, second⟩ := declaring?_liesIn lies found
      simp only [Option.map_some, Prod.map, Node.kind_moved, Node.span_moved,
        gapLength_moved carries first second]
      split
      · simp [Edit.moved, Span.moved, Int.add_right_comm]
      · rfl

/-- The keywords of a scope are deleted in its new place. -/
theorem keywordEdits_moved (carries : move.Carries source whole) (lies : node.LiesIn source) :
    keywordEdits whole (node.moved move) = (keywordEdits source node).map (Edit.moved move) := by
  have each : ∀ inner ∈ node :: node.walk,
      keywordEdit? whole (inner.moved move) =
        (keywordEdit? source inner).map (Edit.moved move) := by
    intro inner member
    rcases List.mem_cons.mp member with rfl | member
    · exact keywordEdit?_moved carries lies
    · exact keywordEdit?_moved carries (lies.walk member)
  unfold keywordEdits
  rw [Node.walk_moved, ← List.map_cons, List.filterMap_map, List.map_filterMap]
  exact List.filterMap_congr each

/-- The first hole moves with its row. -/
theorem firstHole?_moved (move : Move) (previous : Kind) (nodes : List Node) :
    firstHole? previous (nodes.map (Node.moved move)) =
      (firstHole? previous nodes).map (Node.moved move) := by
  induction nodes generalizing previous with
  | nil => rfl
  | cons node rest ih =>
      rw [List.map_cons, firstHole?, firstHole?, Node.kind_moved, ih, ih]
      split
      · rfl
      · split <;> rfl

/-- The elements of an array move with it. -/
theorem arrayElements_moved (move : Move) (node : Node) :
    arrayElements (node.moved move) =
      Outcome.moved move (Option.map (List.map (Node.moved move))) (arrayElements node) := by
  unfold arrayElements
  rw [Node.kind_moved, Node.children_moved, Node.parts_moved, firstHole?_moved]
  split
  · cases firstHole? .openBracket node.children with
    | none => rfl
    | some comma =>
        simp only [Option.map_some, Node.location_moved]
        rfl
  · rfl

/-- What a statement returns moves with it. -/
theorem returnArgument?_moved (move : Move) (node : Node) :
    returnArgument? (node.moved move) = (returnArgument? node).map (Node.moved move) := by
  unfold returnArgument?
  rw [Node.parts_moved, List.head?_map]

/-- The returned elements move with their statement. -/
theorem returnedElements_moved (move : Move) (node : Node) :
    returnedElements (node.moved move) =
      Outcome.moved move (Option.map (List.map (Node.moved move))) (returnedElements node) := by
  unfold returnedElements
  rw [returnArgument?_moved]
  cases returnArgument? node with
  | none => rfl
  | some argument => exact arrayElements_moved move argument

/-- The returns of a scope move with it. -/
theorem returnsOf_moved (move : Move) (scope : Node) :
    returnsOf (scope.moved move) = (returnsOf scope).map (Node.moved move) := by
  unfold returnsOf
  rw [Node.walk_moved, List.filter_map]
  simp [Function.comp_def]

/-- The elements of an array lie where it does. -/
theorem arrayElements_liesIn (lies : node.LiesIn source) {elements : List Node}
    (found : arrayElements node = .ok (some elements)) :
    ∀ element ∈ elements, element.LiesIn source := by
  unfold arrayElements at found
  split at found
  · split at found
    · cases found
    · cases found
      exact fun element member => lies.part member
  · cases found

/-- The returned elements lie in the text. -/
theorem returnedElements_liesIn (lies : node.LiesIn source) {elements : List Node}
    (found : returnedElements node = .ok (some elements)) :
    ∀ element ∈ elements, element.LiesIn source := by
  unfold returnedElements at found
  split at found
  next argument first =>
    exact arrayElements_liesIn (lies.part (List.mem_of_mem_head? first)) found
  next => cases found

/-- Nodes have the same texts wherever they stand. -/
theorem mapM_text_moved (carries : move.Carries source whole) {nodes : List Node}
    (lies : ∀ node ∈ nodes, node.LiesIn source) :
    (nodes.map (Node.moved move)).mapM (·.text whole) =
      Outcome.moved move id (nodes.mapM (·.text source)) :=
  Outcome.moved_mapM_id fun node member => Node.text_moved carries (lies node member)

/-- A moved statement is expanded by the moved edit. -/
theorem returnEdit_moved (carries : move.Carries source whole) (lies : node.LiesIn source) :
    returnEdit whole (node.moved move) =
      Outcome.moved move (Option.map (Edit.moved move)) (returnEdit source node) := by
  unfold returnEdit
  rw [returnedElements_moved]
  refine Outcome.moved_bind fun found ended => ?_
  cases found with
  | none => rfl
  | some elements =>
      have inside := returnedElements_liesIn lies ended
      simp only [Option.map_some, mapM_text_moved carries inside, Node.text_moved carries lies]
      refine Outcome.moved_bind fun texts _ => ?_
      refine Outcome.moved_bind fun text _ => ?_
      simp [Outcome.moved, Edit.moved, pure, Except.pure]

/-- The returned arrays of a scope are expanded in its new place. -/
theorem returnEdits_moved (carries : move.Carries source whole) (lies : node.LiesIn source) :
    returnEdits whole (node.moved move) =
      Outcome.moved move (List.map (Edit.moved move)) (returnEdits source node) := by
  have moves : ((returnsOf node).map (Node.moved move)).mapM (returnEdit whole) =
      Outcome.moved move (List.map (Option.map (Edit.moved move)))
        ((returnsOf node).mapM (returnEdit source)) := by
    apply Outcome.moved_mapM
    intro inner member
    exact returnEdit_moved carries (lies.walk (List.mem_filter.mp member).1)
  unfold returnEdits
  rw [returnsOf_moved, moves]
  refine Outcome.moved_bind fun edits _ => ?_
  change Except.ok _ = Except.ok _
  rw [List.filterMap_map, List.map_filterMap]
  rfl

end Codebox
