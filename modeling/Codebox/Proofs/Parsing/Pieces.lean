import Codebox.Script.Grammar
import Codebox.Proofs.Parsing.Cursor
import Mathlib.Data.List.TakeWhile

/-! # Pieces

Pieces that lie in a row keep doing so when they are joined, wrapped into a node or
given a role. Wrapping leaves the comments before the first token outside, so a
wrapped construct is one node with comments before it.
-/

namespace Codebox

/-! ## Roles -/

namespace Node

variable {source : Bytes} {node : Node}

/-- A role changes nothing in the shape of a node. -/
theorem Shaped.inRole (shaped : node.Shaped source) (role : Role) :
    (node.inRole role).Shaped source := by
  have leads : ∀ parts : Heading, parts.Leads node → parts.Leads (node.inRole role) := by
    obtain ⟨head, children⟩ := node
    exact fun parts leads => ⟨leads.toDeclares, leads.children, leads.declaring, leads.bound⟩
  obtain ⟨head, children⟩ := node
  constructor
  · exact shaped.returns
  · exact shaped.keyword
  · exact shaped.returned
  · intro declares
    obtain ⟨parts, found⟩ := shaped.declaration declares
    exact ⟨parts, leads parts found⟩
  · intro loop
    refine (shaped.loop loop).imp_left ?_
    rintro ⟨parts, found⟩
    exact ⟨parts, leads parts found⟩
  · exact shaped.function
  · exact shaped.trivia
  · exact shaped.array
  · exact shaped.declarator
  · exact shaped.assignment

/-- A role leaves a node well laid. -/
theorem Sound.inRole (sound : node.Sound source) (role : Role) :
    (node.inRole role).Sound source := by
  cases sound with
  | mk starts stops order point row shaped below =>
      exact .mk starts stops order point row (shaped.inRole role) below

/-- A role leaves a node calm. -/
theorem Calm.inRole (calm : node.Calm) (role : Role) : (node.inRole role).Calm := by
  have kept := calm node node.self_mem_listing
  have child : ¬ node.kind.opensScope → ∀ child ∈ node.children, child.Calm :=
    fun flat _ => calm.ofChild flat
  obtain ⟨head, children⟩ := node
  exact calm_of_children kept child

end Node

namespace Script

variable {text : List Char} {calm : Bool} {low middle high : Int} {pieces others : Pieces}

/-! ## Pieces in a row -/

/-- Well-laid nodes in a row. Where `calm` holds, nothing in them is rewritten. -/
structure Laid (text : List Char) (calm : Bool) (low high : Int) (pieces : Pieces) : Prop where
  row : Node.InRow low high pieces
  sound : ∀ piece ∈ pieces, piece.Sound (Utf8.encodeChars text)
  calm : calm → ∀ piece ∈ pieces, piece.Calm

namespace Laid

/-- Nothing lies in a row anywhere. -/
theorem nil (order : low ≤ high) : Laid text calm low high [] where
  row := order
  sound := fun _ member => (List.not_mem_nil member).elim
  calm := fun _ _ member => (List.not_mem_nil member).elim

/-- Pieces that start where others end lie in a row with them. -/
theorem append (first : Laid text calm low middle pieces)
    (second : Laid text calm middle high others) : Laid text calm low high (pieces ++ others) where
  row := by
    rw [Node.InRow, List.map_append]
    exact first.row.append second.row
  sound := List.forall_mem_append.mpr ⟨first.sound, second.sound⟩
  calm := fun holds => List.forall_mem_append.mpr ⟨first.calm holds, second.calm holds⟩

/-- Pieces in a row lie in any stretch that ends later. -/
theorem extend (laid : Laid text calm low middle pieces) (above : middle ≤ high) :
    Laid text calm low high pieces :=
  { laid with row := laid.row.extend above }

/-- Calm pieces are pieces. -/
theorem loosen (laid : Laid text calm low high pieces) : Laid text false low high pieces where
  row := laid.row
  sound := laid.sound
  calm := fun absurd => nomatch absurd

/-- A node before pieces that start where it ends. -/
theorem cons {node : Node} (below : low ≤ node.span.start)
    (sound : node.Sound (Utf8.encodeChars text)) (quiet : calm → node.Calm)
    (laid : Laid text calm node.span.stop high others) :
    Laid text calm low high (node :: others) where
  row := ⟨below, sound.order, laid.row⟩
  sound := List.forall_mem_cons.mpr ⟨sound, laid.sound⟩
  calm := fun holds => List.forall_mem_cons.mpr ⟨quiet holds, laid.calm holds⟩

/-- Pieces lie in a row if those before one of them end where it starts and those
after it start where it ends. -/
theorem append_cons {node : Node} : Laid text calm low high (pieces ++ node :: others) ↔
    Laid text calm low node.span.start pieces ∧ node.Sound (Utf8.encodeChars text) ∧
      (calm → node.Calm) ∧ Laid text calm node.span.stop high others := by
  constructor
  · rintro ⟨row, sound, calm⟩
    rw [Node.InRow, List.map_append, List.map_cons] at row
    obtain ⟨front, -, back⟩ := Span.row_append_cons.mp row
    obtain ⟨soundFront, soundBack⟩ := List.forall_mem_append.mp sound
    obtain ⟨soundNode, soundBack⟩ := List.forall_mem_cons.mp soundBack
    refine ⟨⟨front, soundFront, ?_⟩, soundNode, ?_, back, soundBack, ?_⟩
    · exact fun holds piece member => calm holds piece (List.mem_append_left _ member)
    · exact fun holds => calm holds node (List.mem_append_right _ List.mem_cons_self)
    · exact fun holds piece member =>
        calm holds piece (List.mem_append_right _ (List.mem_cons_of_mem _ member))
  · rintro ⟨front, soundNode, calmNode, back⟩
    exact front.append (.cons (Int.le_refl _) soundNode calmNode back)

/-- Pieces in a row lie in any stretch that starts sooner. -/
theorem widen (laid : Laid text calm middle high pieces) (below : low ≤ middle) :
    Laid text calm low high pieces :=
  { laid with row := laid.row.widen below }

end Laid

/-- Comments in a row are calm pieces in a row. -/
theorem Comments.laid {nodes : List Node} (comments : Comments text low high nodes) :
    Laid text calm low high nodes where
  row := comments.row
  sound := comments.sound
  calm := fun _ node member =>
    (comments.sound node member).calm_of_trivia (comments.trivia node member)

/-- Comments, and then a construct that they stand before. -/
structure Body (text : List Char) (calm : Bool) (low high : Int) (pieces : Pieces) : Prop extends
    Laid text calm low high pieces where
  headed : ∃ comments first rest, pieces = comments ++ first :: rest ∧
    (∀ comment ∈ comments, comment.kind.isTrivia ∧ comment.head.role = none) ∧
    first.kind.isTrivia = false

/-- Comments, and then one construct. -/
structure Term (text : List Char) (calm : Bool) (low high : Int) (pieces : Pieces) : Prop extends
    Laid text calm low high pieces where
  bare : ∀ piece ∈ pieces, piece.head.role = none
  single : ∃ comments node, pieces = comments ++ [node] ∧
    (∀ comment ∈ comments, comment.kind.isTrivia) ∧ node.kind.isTrivia = false

/-- A construct with comments before it, and more pieces after it. -/
theorem Body.and (body : Body text calm low middle pieces)
    (laid : Laid text calm middle high others) : Body text calm low high (pieces ++ others) := by
  obtain ⟨comments, first, rest, rfl, trivia, solid⟩ := body.headed
  refine ⟨body.toLaid.append laid, comments, first, rest ++ others, ?_, trivia, solid⟩
  rw [List.append_assoc]
  rfl

/-- A calm construct with comments before it is one without that promise. -/
theorem Body.loosen (body : Body text calm low high pieces) : Body text false low high pieces :=
  ⟨body.toLaid.loosen, body.headed⟩

/-- A construct with comments before it lies in any stretch that ends later. -/
theorem Body.extend (body : Body text calm low middle pieces) (above : middle ≤ high) :
    Body text calm low high pieces :=
  ⟨body.toLaid.extend above, body.headed⟩

namespace Term

/-- One construct lies in any stretch that ends later. -/
theorem extend (term : Term text calm low middle pieces) (above : middle ≤ high) :
    Term text calm low high pieces :=
  ⟨term.toLaid.extend above, term.bare, term.single⟩

/-- A calm construct is a construct. -/
theorem loosen (term : Term text calm low high pieces) : Term text false low high pieces :=
  ⟨term.toLaid.loosen, term.bare, term.single⟩

/-- One construct lies in any stretch that starts sooner. -/
theorem widen (term : Term text calm middle high pieces) (below : low ≤ middle) :
    Term text calm low high pieces :=
  ⟨term.toLaid.widen below, term.bare, term.single⟩

/-- One construct is a construct with comments before it and nothing after it. -/
theorem body (term : Term text calm low high pieces) : Body text calm low high pieces := by
  obtain ⟨comments, node, rfl, trivia, solid⟩ := term.single
  refine ⟨term.toLaid, comments, node, [], rfl, fun comment member => ?_, solid⟩
  exact ⟨trivia comment member, term.bare comment (List.mem_append_left _ member)⟩

/-- One construct, and more pieces after it. -/
theorem and (term : Term text calm low middle pieces) (laid : Laid text calm middle high others) :
    Body text calm low high (pieces ++ others) :=
  term.body.and laid

end Term

/-- A role is given to the last piece. -/
theorem inRole_concat (role : Role) (comments : Pieces) (node : Node) :
    inRole role (comments ++ [node]) = comments ++ [node.inRole role] := by
  unfold inRole
  rw [List.getLast?_concat]
  simp

/-- Pieces stay in a row when the last one is given a role. -/
theorem Laid.inRole (laid : Laid text calm low high pieces) (role : Role) :
    Laid text calm low high (inRole role pieces) := by
  rcases List.eq_nil_or_concat pieces with rfl | ⟨comments, node, rfl⟩
  · exact laid
  · rw [List.concat_eq_append] at laid ⊢
    obtain ⟨front, sound, quiet, back⟩ := append_cons.mp laid
    have span : (node.inRole role).span = node.span := by
      cases node
      rfl
    rw [inRole_concat]
    refine append_cons.mpr ⟨?_, sound.inRole role, fun holds => (quiet holds).inRole role, ?_⟩
    · rwa [span]
    · rwa [span]

/-- One construct stays one, in its role, with the comments before it. -/
theorem Term.inRole (term : Term text calm low high pieces) (role : Role) :
    Body text calm low high (inRole role pieces) := by
  have laid := term.toLaid.inRole role
  have bare := term.bare
  obtain ⟨comments, node, rfl, trivia, solid⟩ := term.single
  rw [inRole_concat] at laid ⊢
  refine ⟨laid, comments, node.inRole role, [], rfl, fun comment member => ?_, ?_⟩
  · exact ⟨trivia comment member, bare comment (List.mem_append_left _ member)⟩
  · cases node
    exact solid

/-! ## Wrapping -/

/-- The node that pieces from a first one on are wrapped into. -/
def built (kind : Kind) (first : Node) (rest : Pieces) : Node :=
  .mk { kind := kind, span := ⟨first.span.start, (rest.getLastD first).span.stop⟩,
        point := first.point } (first :: rest)

variable {kind : Kind} {comments rest : Pieces} {first : Node}

/-- Wrapping leaves the comments in front outside and builds a node of the rest. -/
theorem wrap_eq (trivia : ∀ comment ∈ comments, comment.kind.isTrivia)
    (solid : first.kind.isTrivia = false) :
    wrap kind (comments ++ first :: rest) = comments ++ [built kind first rest] := by
  have front : (comments ++ first :: rest).takeWhile (·.kind.isTrivia) = comments := by
    rw [List.takeWhile_append_of_pos trivia, List.takeWhile_cons_of_neg (by simp [solid]),
      List.append_nil]
  have inner : (comments ++ first :: rest).dropWhile (·.kind.isTrivia) = first :: rest := by
    rw [List.dropWhile_append_of_pos trivia, List.dropWhile_cons_of_neg (by simp [solid])]
  unfold wrap
  dsimp only
  rw [front, inner, List.head?_cons, List.getLast?_cons]
  unfold built
  rw [List.getLastD_eq_getLast?]

/-- A row is as long as from its first to its last node. -/
theorem row_trim (row : Node.InRow low high (first :: rest)) :
    low ≤ first.span.start ∧
      Node.InRow first.span.start (rest.getLastD first).span.stop (first :: rest) ∧
      (rest.getLastD first).span.stop ≤ high := by
  induction rest generalizing low first with
  | nil =>
      obtain ⟨starts, order, stops⟩ := row
      exact ⟨starts, ⟨Int.le_refl _, order, Int.le_refl _⟩, stops⟩
  | cons next rest ih =>
      obtain ⟨starts, order, row⟩ := row
      obtain ⟨after, inner, stops⟩ := ih row
      rw [List.getLastD_cons]
      exact ⟨starts, ⟨Int.le_refl _, order, inner.widen after⟩, stops⟩

/-- A node built of pieces in a row is well laid if it has the shape of its kind. -/
theorem Laid.sound_built (laid : Laid text calm low high (first :: rest))
    (shaped : (built kind first rest).Shaped (Utf8.encodeChars text)) :
    (built kind first rest).Sound (Utf8.encodeChars text) := by
  obtain ⟨-, inner, -⟩ := row_trim laid.row
  have soundFirst := laid.sound first List.mem_cons_self
  have last : rest.getLastD first ∈ first :: rest := by
    rw [List.getLastD_eq_getLast?]
    cases found : rest.getLast? with
    | none => exact List.mem_cons_self
    | some node => exact List.mem_cons_of_mem _ (List.mem_of_getLast? found)
  exact .mk soundFirst.starts (laid.sound _ last).stops inner.le soundFirst.point inner shaped
    laid.sound

/-- Comments and the node built of the pieces after them lie in a row. -/
theorem Laid.laid_built {inner : Bool}
    (laid : Laid text inner low high (comments ++ first :: rest))
    (trivia : ∀ comment ∈ comments, comment.kind.isTrivia)
    (shaped : (built kind first rest).Shaped (Utf8.encodeChars text))
    (quiet : calm → (built kind first rest).Calm) :
    Laid text calm low high (comments ++ [built kind first rest]) := by
  obtain ⟨front, soundFirst, calmFirst, back⟩ := Laid.append_cons.mp laid
  have tail : Laid text inner first.span.start high (first :: rest) :=
    .cons (Int.le_refl _) soundFirst calmFirst back
  obtain ⟨-, -, stops⟩ := row_trim tail.row
  refine Laid.append_cons.mpr ⟨⟨front.row, front.sound, ?_⟩, tail.sound_built shaped, quiet,
    .nil stops⟩
  exact fun _ comment member =>
    (front.sound comment member).calm_of_trivia (trivia comment member)

/-- Wrapped pieces are one construct if their node has the shape of its kind. -/
theorem Laid.term_built {inner : Bool} (laid : Laid text inner low high (comments ++ first :: rest))
    (trivia : ∀ comment ∈ comments, comment.kind.isTrivia ∧ comment.head.role = none)
    (solid : kind.isTrivia = false)
    (shaped : (built kind first rest).Shaped (Utf8.encodeChars text))
    (quiet : calm → (built kind first rest).Calm) :
    Term text calm low high (comments ++ [built kind first rest]) := by
  refine ⟨laid.laid_built (fun comment member => (trivia comment member).1) shaped quiet, ?_, ?_⟩
  · refine List.forall_mem_append.mpr ⟨fun comment member => (trivia comment member).2, ?_⟩
    exact List.forall_mem_singleton.mpr rfl
  · exact ⟨comments, _, rfl, fun comment member => (trivia comment member).1, solid⟩

/-- A node of a plain kind that is built of calm pieces is calm. -/
theorem calm_built (laid : Laid text calm low high (comments ++ first :: rest))
    (plain : kind.isPlain) (holds : calm) : (built kind first rest).Calm := by
  refine Node.calm_of_children (Kind.isRewritten_of_isPlain plain) fun _ child member => ?_
  exact laid.calm holds child (List.mem_append_right _ member)

/-- A left side that is followed by a right one makes an assignment. -/
theorem shaped_assignment {source : Bytes} {right : Node}
    (assigns : kind = .assignmentExpression ∨ kind = .assignmentPattern)
    (left : first.head.role = some .left) (solid : first.kind.isTrivia = false)
    (member : right ∈ rest) (given : right.head.role = some .right) :
    (built kind first rest).Shaped source := by
  rcases assigns with rfl | rfl
  all_goals
    constructor
    case assignment => exact fun _ => ⟨first, rest, rfl, left, solid, right, member, given⟩
    all_goals exact nofun

/-- What binds something makes a declarator. -/
theorem shaped_declarator {source : Bytes} {name : Node} (member : name ∈ first :: rest)
    (given : name.head.role = some .name) :
    (built .variableDeclarator first rest).Shaped source where
  declarator := fun _ => List.find?_isSome.mpr ⟨name, member, by simp [given]⟩
  returns := nofun
  keyword := nofun
  returned := nofun
  declaration := nofun
  loop := nofun
  function := nofun
  trivia := nofun
  array := nofun
  assignment := fun assigns => assigns.elim nofun nofun

/-- Wrapping keeps pieces in a row. -/
theorem Laid.wrap (laid : Laid text calm low high pieces) (plain : kind.isPlain) :
    Laid text calm low high (wrap kind pieces) := by
  have parts := List.takeWhile_append_dropWhile (p := fun piece : Node => piece.kind.isTrivia)
    (l := pieces)
  cases inner : pieces.dropWhile (·.kind.isTrivia) with
  | nil =>
      unfold Script.wrap
      dsimp only
      rw [inner]
      exact laid
  | cons first rest =>
      have trivia : ∀ comment ∈ pieces.takeWhile (·.kind.isTrivia), comment.kind.isTrivia :=
        fun comment member =>
          List.mem_takeWhile_imp (p := fun piece : Node => piece.kind.isTrivia) member
      have solid : first.kind.isTrivia = false := by
        have found := List.head?_dropWhile_not (p := fun piece : Node => piece.kind.isTrivia) pieces
        rw [inner] at found
        simpa using found
      rw [inner] at parts
      rw [← parts] at laid ⊢
      rw [wrap_eq trivia solid]
      exact laid.laid_built trivia (Node.shaped_of_isPlain plain) (calm_built laid plain)

/-- Wrapping makes one construct of pieces. -/
theorem Body.wrap (body : Body text calm low high pieces) (plain : kind.isPlain) :
    Term text calm low high (Script.wrap kind pieces) := by
  obtain ⟨comments, first, rest, rfl, trivia, solid⟩ := body.headed
  rw [wrap_eq (fun comment member => (trivia comment member).1) solid]
  exact body.toLaid.term_built trivia (Kind.isTrivia_of_isPlain plain)
    (Node.shaped_of_isPlain plain) (calm_built body.toLaid plain)

/-- The kind of pieces is that of the last one. -/
theorem kindOf_concat (comments : Pieces) (node : Node) :
    kindOf (comments ++ [node]) = some node.kind := by
  unfold kindOf
  rw [List.getLast?_concat]
  rfl

/-- Wrapped pieces have the kind that they are wrapped in. -/
theorem Body.kindOf_wrap (body : Body text calm low high pieces) (kind : Kind) :
    kindOf (Script.wrap kind pieces) = some kind := by
  obtain ⟨comments, first, rest, rfl, trivia, solid⟩ := body.headed
  rw [wrap_eq (fun comment member => (trivia comment member).1) solid, kindOf_concat]
  rfl

/-- A construct that opens a scope is calm whatever it holds. -/
theorem Body.wrapScope (body : Body text false low high pieces) (plain : kind.isPlain)
    (scope : kind.opensScope) : Term text calm low high (Script.wrap kind pieces) := by
  obtain ⟨comments, first, rest, rfl, trivia, solid⟩ := body.headed
  rw [wrap_eq (fun comment member => (trivia comment member).1) solid]
  refine body.toLaid.term_built trivia (Kind.isTrivia_of_isPlain plain)
    (Node.shaped_of_isPlain plain) fun _ => ?_
  exact Node.calm_of_children (Kind.isRewritten_of_isPlain plain) fun flat => (flat scope).elim

/-- A token after a gap. -/
theorem Gap.At.term {gap : Gap} {last : Cursor} {named : Bool} (stands : gap.At text low)
    (stops : last.At text) (order : gap.next.offset ≤ last.offset) (plain : kind.isPlain) :
    Term text calm low last.offset (gap.comments ++ [gap.next.leaf last kind named]) := by
  have solid := Kind.isTrivia_of_isPlain plain
  have sound : (gap.next.leaf last kind named).Sound (Utf8.encodeChars text) :=
    Cursor.sound_leaf stands.next stops order (Node.shaped_of_isPlain plain)
  have quiet : (gap.next.leaf last kind named).Calm :=
    Node.calm_of_children (Kind.isRewritten_of_isPlain plain) fun _ _ member =>
      (List.not_mem_nil member).elim
  constructor
  · exact Laid.append_cons.mpr ⟨stands.comments.laid, sound, fun _ => quiet, .nil (Int.le_refl _)⟩
  · exact List.forall_mem_append.mpr ⟨stands.comments.bare, List.forall_mem_singleton.mpr rfl⟩
  · exact ⟨gap.comments, _, rfl, stands.comments.trivia, solid⟩

end Script

end Codebox
