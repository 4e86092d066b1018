import Codebox.Proofs.Parsing.Member

/-! # Shapes of the nodes that are rewritten

A return statement, a declaration of variables, a loop over a range and a function
declaration are wrapped from pieces that give them the shape of their kind.
-/

namespace Codebox.Heading

/-- The parts with more nodes before and after them. -/
def around (parts : Heading) (ahead behind : List Node) : Heading :=
  { parts with before := ahead ++ parts.before, after := parts.after ++ behind }

/-- The parts keep their order between the nodes around them. -/
theorem nodes_around (parts : Heading) (ahead behind : List Node) :
    (parts.around ahead behind).nodes = ahead ++ (parts.nodes ++ behind) := by
  simp [around, nodes]

/-- Nodes that are no keyword leave a declaration one, and calm ones may come before it. -/
theorem Declares.around {parts : Heading} {ahead behind : List Node} (leads : parts.Declares)
    (calm : ∀ piece ∈ ahead, piece.Calm)
    (keepsAhead : ∀ piece ∈ ahead, piece.isDeclaringKeyword = false)
    (keepsBehind : ∀ piece ∈ behind, piece.isDeclaringKeyword = false) :
    (parts.around ahead behind).Declares := by
  obtain ⟨keepsBefore, keepsAfter⟩ := List.forall_mem_append.mp leads.single
  refine { leads with before_calm := ?_, single := ?_ }
  · exact List.forall_mem_append.mpr ⟨calm, leads.before_calm⟩
  · refine List.forall_mem_append.mpr ⟨List.forall_mem_append.mpr ⟨keepsAhead, keepsBefore⟩, ?_⟩
    exact List.forall_mem_append.mpr ⟨keepsAfter, keepsBehind⟩

end Codebox.Heading

namespace Codebox.Script

variable {text : List Char} {source : Bytes} {low middle high : Int} {node first : Node}
  {pieces others comments rest : Pieces} {role sought : Role}

/-! ## Roles of pieces -/

/-- Among pieces without roles none is found by a role. -/
theorem find?_of_bare (bare : ∀ piece ∈ pieces, piece.head.role = none) :
    pieces.find? (·.head.role = some sought) = none := by
  rw [List.find?_eq_none]
  intro piece member
  simp [bare piece member]

/-- In pieces of which the last has a role, only that role is found. -/
theorem find?_inRole (bare : ∀ piece ∈ comments, piece.head.role = none) :
    (inRole role (comments ++ [node])).find? (·.head.role = some sought) =
      if role = sought then some (node.inRole role) else none := by
  obtain ⟨head, children⟩ := node
  have single : ([(Node.mk head children).inRole role] : Pieces).find?
      (·.head.role = some sought) =
        if role = sought then some ((Node.mk head children).inRole role) else none := by
    by_cases same : role = sought <;> simp [Node.inRole, Node.head, same]
  rw [inRole_concat, List.find?_append, find?_of_bare bare, single]
  rfl

/-- Pieces without roles declare nothing. -/
theorem isDeclaringKeyword_of_bare (bare : ∀ piece ∈ pieces, piece.head.role = none) :
    ∀ piece ∈ pieces, piece.isDeclaringKeyword = false := by
  intro piece member
  simp [Node.isDeclaringKeyword, bare piece member]

/-- A piece in another role than the keyword's declares nothing. -/
theorem isDeclaringKeyword_inRole (bare : ∀ piece ∈ pieces, piece.head.role = none)
    (other : role ≠ .keyword) : ∀ piece ∈ inRole role pieces, piece.isDeclaringKeyword = false := by
  rcases List.eq_nil_or_concat pieces with rfl | ⟨comments, node, rfl⟩
  · exact isDeclaringKeyword_of_bare bare
  · rw [List.concat_eq_append] at bare ⊢
    obtain ⟨bareFront, -⟩ := List.forall_mem_append.mp bare
    rw [inRole_concat]
    refine List.forall_mem_append.mpr ⟨isDeclaringKeyword_of_bare bareFront, ?_⟩
    refine List.forall_mem_singleton.mpr ?_
    obtain ⟨head, children⟩ := node
    simp [Node.isDeclaringKeyword, Node.inRole, Node.head, other]

/-- In the role of a keyword, a piece declares if its kind is that of a keyword. -/
theorem isDeclaringKeyword_keyword (node : Node) :
    (node.inRole .keyword).isDeclaringKeyword = node.kind.isKeyword := by
  cases node
  rfl

/-! ## Return statements -/

/-- If there is an array among pieces, only blanks come before it or a comment before it. -/
def Returnable (text : List Char) (low : Int) (pieces : Pieces) : Prop :=
  (∃ piece ∈ pieces, piece.kind = .array) →
    ∃ next ∈ pieces, (next.kind = .array ∨ next.kind.isTrivia) ∧ low ≤ next.span.start ∧
      ∀ byte ∈ Bytes.cut (Utf8.encodeChars text) ⟨low, next.span.start⟩, isBlankByte byte

/-- Pieces without an array. -/
theorem Returnable.of_ne (other : ∀ piece ∈ pieces, piece.kind ≠ .array) :
    Returnable text low pieces := by
  rintro ⟨piece, member, kind⟩
  exact absurd kind (other piece member)

/-- Pieces after an array or comments. -/
theorem Returnable.append (returnable : Returnable text low pieces)
    (other : ∀ piece ∈ others, piece.kind ≠ .array) : Returnable text low (pieces ++ others) := by
  rintro ⟨piece, member, kind⟩
  rcases List.mem_append.mp member with member | member
  · obtain ⟨next, among, found⟩ := returnable ⟨piece, member, kind⟩
    exact ⟨next, List.mem_append_left _ among, found⟩
  · exact absurd kind (other piece member)

/-- A keyword with calm pieces after it has the shape of a return statement. -/
theorem shaped_return (wide : first.span.start < first.span.stop) (solid : first.kind ≠ .array)
    (written : Bytes.cut (Utf8.encodeChars text) first.span = Utf8.encode "return")
    (laid : Laid text true low high (first :: rest))
    (returnable : Returnable text first.span.stop rest) :
    (built .returnStatement first rest).Shaped (Utf8.encodeChars text) where
  returns := by
    intro _
    obtain ⟨-, ⟨-, -, row⟩, -⟩ := row_trim laid.row
    exact ⟨Int.lt_of_lt_of_le wide row.le, laid.calm rfl⟩
  keyword := by
    intro _
    obtain ⟨-, ⟨-, order, row⟩, -⟩ := row_trim laid.row
    have least := (laid.sound first List.mem_cons_self).starts.nonneg
    have joined := Bytes.cut_append_cut (Utf8.encodeChars text) least order row.le
    change Utf8.encode "return" <+: Bytes.cut (Utf8.encodeChars text)
      ⟨first.span.start, (rest.getLastD first).span.stop⟩
    rw [← joined, ← written]
    exact List.prefix_append _ _
  returned := by
    rintro - ⟨child, member, kind⟩
    have among : child ∈ rest := by
      rcases List.mem_cons.mp member with rfl | member
      · exact absurd kind solid
      · exact member
    obtain ⟨next, nextAmong, sort, order, blank⟩ := returnable ⟨child, among, kind⟩
    have least := (laid.sound first List.mem_cons_self).starts.nonneg
    have joined := Bytes.cut_append_cut (Utf8.encodeChars text) least (Int.le_of_lt wide) order
    refine ⟨next, List.mem_cons_of_mem _ nextAmong, sort, _, blank, ?_⟩
    rw [← written]
    exact joined.symm
  declaration := fun declares => nomatch declares
  loop := fun loop => nomatch loop
  function := fun function => nomatch function
  trivia := fun trivia => nomatch trivia
  array := fun array => nomatch array
  declarator := fun declarator => nomatch declarator
  assignment := fun assigns => assigns.elim nofun nofun

/-- The leaf of a token that is not empty, after the comments before it. -/
theorem Token.exists_leaf {symbol : String} (token : Token text symbol low high pieces)
    (visible : 0 < (Utf8.encode symbol).length) :
    ∃ comments leaf, pieces = comments ++ [leaf] ∧
      (∀ comment ∈ comments, comment.kind.isTrivia ∧ comment.head.role = none) ∧
      leaf.kind = .ofToken symbol ∧ leaf.span.start < leaf.span.stop ∧ leaf.Calm ∧
      Bytes.cut (Utf8.encodeChars text) leaf.span = Utf8.encode symbol ∧
      leaf.span.stop = high := by
  have bare := token.bare
  have calm := token.calm rfl
  obtain ⟨comments, leaf, rfl, trivia, kind, -, -, width, written, reached⟩ := token.leaf
  refine ⟨comments, leaf, rfl, ?_, kind, ?_, calm leaf (by simp), written, reached⟩
  · exact fun comment member =>
      ⟨trivia comment member, bare comment (List.mem_append_left _ member)⟩
  · omega

/-- The keyword of a return statement and what follows it make the statement. -/
theorem Token.returns (token : Token text "return" low middle pieces)
    (laid : Laid text true middle high others) (returnable : Returnable text middle others) :
    Term text false low high (wrap .returnStatement (pieces ++ others)) := by
  have whole := (token.toTerm.and laid).toLaid
  obtain ⟨comments, leaf, rfl, trivia, kind, wide, -, written, rfl⟩ :=
    token.exists_leaf (by decide)
  have solid : leaf.kind.isTrivia = false := by
    rw [kind]
    exact Kind.isTrivia_of_isPlain (ofToken_isPlain "return")
  rw [List.append_assoc, List.singleton_append] at whole ⊢
  rw [wrap_eq (fun comment member => (trivia comment member).1) solid]
  obtain ⟨-, sound, calm, after⟩ := Laid.append_cons.mp whole
  have tail : Laid text true leaf.span.start high (leaf :: others) :=
    .cons (Int.le_refl _) sound calm after
  have other : leaf.kind ≠ .array := by
    rw [kind]
    decide
  exact whole.term_built trivia rfl (shaped_return wide other written tail returnable)
    fun absurd => nomatch absurd

/-! ## Declarations of variables -/

/-- Declarators with commas between them. -/
structure Declarators (text : List Char) (low high : Int) (pieces : Pieces) : Prop extends
    Laid text true low high pieces where
  bare : ∀ piece ∈ pieces, piece.head.role = none
  headed : ∃ comments first rest, pieces = comments ++ first :: rest ∧
    (∀ comment ∈ comments, comment.kind.isTrivia) ∧ first.kind = .variableDeclarator ∧
    first.head.named

variable {parts : Heading} {kind : Kind}

/-- A declaration is found to declare by its keyword what it binds first. -/
theorem declaring?_of_declares (declares : node.kind.declares) (leads : parts.Declares)
    (children : node.children = parts.nodes) (before : parts.before = [])
    (declarator : parts.binding.kind = .variableDeclarator) (named : parts.binding.head.named) :
    declaring? node = some (parts.keyword, parts.binding) := by
  have keyword : parts.keyword.kind ≠ .variableDeclarator := by
    have word := (Bool.and_eq_true_iff.mp leads.is_keyword).2
    intro same
    rw [same] at word
    cases word
  have between : parts.between.find?
      (fun child => child.head.named ∧ decide (child.kind = .variableDeclarator)) = none := by
    rw [List.find?_eq_none]
    intro child member
    have trivia := (leads.trivia child member).1
    have other : child.kind ≠ .variableDeclarator := by
      intro same
      rw [same] at trivia
      cases trivia
    simp [other]
  have found : node.namedChildren.find? (·.kind = .variableDeclarator) = some parts.binding := by
    unfold Node.namedChildren
    rw [List.find?_filter, children, Heading.nodes, before, List.nil_append,
      List.find?_cons_of_neg (by simp [keyword]), List.find?_append, between,
      List.find?_cons_of_pos (by simp [declarator, named])]
    rfl
  unfold declaring?
  rw [if_pos declares, found, children, Heading.nodes, before]
  rfl

/-- No comment declares. -/
theorem isTrivia_of_declares (declares : kind.declares) : kind.isTrivia = false := by
  cases kind <;> simp_all [Kind.declares, Kind.isTrivia]

/-- A node whose children are a keyword and what it binds has the shape of a declaration. -/
theorem shaped_declaration (declares : kind.declares) (leads : parts.Declares)
    (children : first :: rest = parts.nodes) (before : parts.before = [])
    (declarator : parts.binding.kind = .variableDeclarator) (named : parts.binding.head.named) :
    (built kind first rest).Shaped source := by
  have bound : kind.binds parts.binding := by
    cases kind <;> simp_all [Kind.declares, Kind.binds]
  have other : ∀ other : Kind, other.declares = false → kind ≠ other := by
    rintro other keeps rfl
    rw [keeps] at declares
    cases declares
  constructor
  · exact fun returns => (other _ rfl returns).elim
  · exact fun returns => (other _ rfl returns).elim
  · exact fun returns => (other _ rfl returns).elim
  · intro _
    exact ⟨parts, leads, children,
      declaring?_of_declares declares leads children before declarator named, bound⟩
  · exact fun loop => (other _ rfl loop).elim
  · exact fun function => (other _ rfl function).elim
  · intro trivia
    exact absurd trivia (by simp [built, Node.kind, Node.head, isTrivia_of_declares declares])
  · exact fun array => (other _ rfl array).elim
  · exact fun declarator => (other _ rfl declarator).elim
  · exact fun assigns => assigns.elim (fun assigns => (other _ rfl assigns).elim)
      fun assigns => (other _ rfl assigns).elim

/-- A keyword, comments and what is bound make a declaration. -/
theorem declares_of_leaf {leaf binding : Node} {between after : Pieces} (calm : leaf.Calm)
    (wide : leaf.span.start < leaf.span.stop) (keyword : leaf.kind.isKeyword)
    (trivia : ∀ child ∈ between, child.kind.isTrivia ∧ child.head.role = none)
    (keeps : ∀ child ∈ binding :: after, child.isDeclaringKeyword = false) :
    Heading.Declares ⟨[], leaf.inRole .keyword, between, binding, after⟩ where
  before_calm := fun _ member => (List.not_mem_nil member).elim
  keyword_calm := calm.inRole .keyword
  keyword_wide := by
    cases leaf
    exact wide
  is_keyword := by rw [isDeclaringKeyword_keyword, keyword]
  trivia := trivia
  single := keeps

/-- A keyword with declarators after it is a declaration. -/
theorem Token.declares {symbol : String} {declarators closing : Pieces} {last : Int}
    (token : Token text symbol low middle pieces) (visible : 0 < (Utf8.encode symbol).length)
    (keyword : (Kind.ofToken symbol).isKeyword) (declares : kind.declares)
    (bound : Declarators text middle last declarators) (laid : Laid text true last high closing)
    (bare : ∀ piece ∈ closing, piece.head.role = none) :
    Term text false low high (wrap kind (inRole .keyword pieces ++ declarators ++ closing)) := by
  have whole := (((token.toTerm.inRole .keyword).and bound.toLaid).and laid).loosen.toLaid
  have bareBound := bound.bare
  obtain ⟨comments, leaf, rfl, trivia, kindLeaf, wide, calm, -⟩ := token.exists_leaf visible
  obtain ⟨between, binding, after, rfl, triviaBetween, declarator, named⟩ := bound.headed
  have shape : inRole .keyword (comments ++ [leaf]) ++ (between ++ binding :: after) ++ closing =
      comments ++ leaf.inRole .keyword :: (between ++ binding :: (after ++ closing)) := by
    rw [inRole_concat]
    simp
  have sameKind : (leaf.inRole .keyword).kind = .ofToken symbol := by
    cases leaf
    exact kindLeaf
  rw [shape] at whole ⊢
  rw [wrap_eq (fun comment member => (trivia comment member).1)
    (by rw [sameKind]; exact Kind.isTrivia_of_isPlain (ofToken_isPlain symbol))]
  obtain ⟨bareBetween, bareAfter⟩ := List.forall_mem_append.mp bareBound
  have bareTail : ∀ piece ∈ binding :: after ++ closing, piece.head.role = none :=
    List.forall_mem_append.mpr ⟨bareAfter, bare⟩
  have leads : Heading.Declares ⟨[], leaf.inRole .keyword, between, binding, after ++ closing⟩ :=
    declares_of_leaf calm wide (by rw [kindLeaf, keyword])
      (fun comment member => ⟨triviaBetween comment member, bareBetween comment member⟩)
      (isDeclaringKeyword_of_bare bareTail)
  exact whole.term_built trivia (isTrivia_of_declares declares)
    (shaped_declaration declares leads rfl rfl declarator named) fun absurd => nomatch absurd

/-! ## Loops over a range -/

/-- The head of a loop over a range: what a keyword binds, or nothing that a keyword
declares. -/
structure RangeHead (text : List Char) (low high : Int) (pieces : Pieces) : Prop extends
    Laid text true low high pieces where
  keyed : (∃ parts : Heading, pieces = parts.nodes ∧ parts.Declares ∧
      (∀ child ∈ parts.before, child.head.role = none) ∧ parts.binding.head.role = some .left) ∨
    ∀ piece ∈ pieces, piece.isDeclaringKeyword = false

/-- A loop head is found to declare by its keyword what it binds. -/
theorem declaring?_of_loop (loop : node.kind = .forInStatement) (leads : parts.Declares)
    (children : node.children = parts.nodes)
    (bare : ∀ child ∈ parts.before, child.head.role = none)
    (left : parts.binding.head.role = some .left) :
    declaring? node = some (parts.keyword, parts.binding) := by
  have role : parts.keyword.head.role = some .keyword := by
    have word := (Bool.and_eq_true_iff.mp leads.is_keyword).1
    exact of_decide_eq_true word
  have between : ∀ child ∈ parts.between, child.head.role = none :=
    fun child member => (leads.trivia child member).2
  have keyword : node.child? .keyword = some parts.keyword := by
    unfold Node.child?
    rw [children, Heading.nodes, List.find?_append, find?_of_bare bare,
      List.find?_cons_of_pos (by simp [role])]
    rfl
  have binding : node.child? .left = some parts.binding := by
    unfold Node.child?
    rw [children, Heading.nodes, List.find?_append, find?_of_bare bare,
      List.find?_cons_of_neg (by simp [role]), List.find?_append, find?_of_bare between,
      List.find?_cons_of_pos (by simp [left])]
    rfl
  unfold declaring?
  rw [if_neg (by simp [loop, Kind.declares]), if_pos loop, keyword, binding]

/-- The head of a loop, with pieces after it that declare nothing. -/
theorem RangeHead.append (head : RangeHead text low middle pieces)
    (laid : Laid text true middle high others)
    (keeps : ∀ piece ∈ others, piece.isDeclaringKeyword = false) :
    RangeHead text low high (pieces ++ others) := by
  refine ⟨head.toLaid.append laid, ?_⟩
  rcases head.keyed with ⟨parts, rfl, leads, bare, left⟩ | keepsHead
  · refine .inl ⟨parts.around [] others, (parts.nodes_around [] others).symm, ?_, bare, left⟩
    exact leads.around (fun _ member => (List.not_mem_nil member).elim)
      (fun _ member => (List.not_mem_nil member).elim) keeps
  · exact .inr (List.forall_mem_append.mpr ⟨keepsHead, keeps⟩)

/-- A keyword and what it binds in the head of a loop. Not every keyword there
declares. -/
theorem Token.rangeHead {symbol : String} {left : Pieces}
    (token : Token text symbol low middle pieces) (visible : 0 < (Utf8.encode symbol).length)
    (target : Term text true middle high left) :
    RangeHead text low high (inRole .keyword pieces ++ inRole .left left) := by
  refine ⟨((token.toTerm.inRole .keyword).and (target.toLaid.inRole .left)).toLaid, ?_⟩
  obtain ⟨comments, leaf, rfl, trivia, kindLeaf, wide, calm, -⟩ := token.exists_leaf visible
  have keepsLeft := isDeclaringKeyword_inRole target.bare (show Role.left ≠ .keyword by decide)
  have bareComments : ∀ comment ∈ comments, comment.head.role = none :=
    fun comment member => (trivia comment member).2
  by_cases keyword : (Kind.ofToken symbol).isKeyword
  · have bareLeft := target.bare
    obtain ⟨between, node, rfl, triviaBetween, -⟩ := target.single
    rw [inRole_concat] at keepsLeft ⊢
    rw [inRole_concat]
    obtain ⟨bareBetween, -⟩ := List.forall_mem_append.mp bareLeft
    obtain ⟨-, keepsNode⟩ := List.forall_mem_append.mp keepsLeft
    have leads : Heading.Declares ⟨[], leaf.inRole .keyword, between, node.inRole .left, []⟩ :=
      declares_of_leaf calm wide (by rw [kindLeaf, keyword])
        (fun comment member => ⟨triviaBetween comment member, bareBetween comment member⟩) keepsNode
    have calmComments : ∀ comment ∈ comments, comment.Calm :=
      fun comment member => token.calm rfl comment (List.mem_append_left _ member)
    refine .inl ⟨_, ?_, leads.around calmComments (isDeclaringKeyword_of_bare bareComments)
      (fun _ member => (List.not_mem_nil member).elim), ?_, ?_⟩
    · simp [Heading.nodes, Heading.around]
    · simpa [Heading.around] using bareComments
    · cases node
      rfl
  · rw [inRole_concat]
    refine .inr (List.forall_mem_append.mpr ⟨List.forall_mem_append.mpr ⟨?_, ?_⟩, keepsLeft⟩)
    · exact isDeclaringKeyword_of_bare bareComments
    · refine List.forall_mem_singleton.mpr ?_
      rw [isDeclaringKeyword_keyword, kindLeaf]
      exact Bool.eq_false_iff.mpr keyword

/-- A loop over a range from its keyword on. -/
theorem RangeHead.term {ahead body : Pieces} {last : Int} (head : RangeHead text middle last pieces)
    (front : Body text true low middle ahead)
    (bare : ∀ piece ∈ ahead, piece.head.role = none) (laid : Laid text false last high body)
    (keeps : ∀ piece ∈ body, piece.isDeclaringKeyword = false) :
    Term text false low high (wrap .forInStatement (ahead ++ pieces ++ body)) := by
  have whole := ((front.and head.toLaid).loosen.and laid).toLaid
  obtain ⟨comments, first, rest, rfl, trivia, solid⟩ := front.headed
  rw [List.append_assoc, List.append_assoc, List.cons_append] at whole ⊢
  rw [wrap_eq (fun comment member => (trivia comment member).1) solid]
  refine whole.term_built trivia rfl ?_ fun absurd => nomatch absurd
  obtain ⟨-, bareFront⟩ := List.forall_mem_append.mp bare
  obtain ⟨-, calmFront⟩ := List.forall_mem_append.mp (front.calm rfl)
  have keepsFront := isDeclaringKeyword_of_bare bareFront
  constructor
  case loop =>
    intro _
    rcases head.keyed with ⟨parts, rfl, leads, bareBefore, left⟩ | keepsHead
    · have wider := leads.around calmFront keepsFront keeps
      have bareWider : ∀ child ∈ first :: rest ++ parts.before, child.head.role = none :=
        List.forall_mem_append.mpr ⟨bareFront, bareBefore⟩
      have children : first :: (rest ++ (parts.nodes ++ body)) =
          (parts.around (first :: rest) body).nodes :=
        (parts.nodes_around (first :: rest) body).symm
      have bound : Kind.forInStatement.binds parts.binding := by simp [Kind.binds, left]
      refine .inl ⟨parts.around (first :: rest) body, wider, children, ?_, bound⟩
      exact declaring?_of_loop rfl wider children bareWider left
    · refine .inr ?_
      have all : ∀ child ∈ first :: rest ++ (pieces ++ body), child.isDeclaringKeyword = false :=
        List.forall_mem_append.mpr ⟨keepsFront, List.forall_mem_append.mpr ⟨keepsHead, keeps⟩⟩
      exact all
  case returns => exact fun returns => nomatch returns
  case keyword => exact fun returns => nomatch returns
  case returned => exact fun returns => nomatch returns
  case declaration => exact fun declares => nomatch declares
  case function => exact fun function => nomatch function
  case trivia => exact fun trivia => nomatch trivia
  case array => exact fun array => nomatch array
  case declarator => exact fun declarator => nomatch declarator
  case assignment => exact fun assigns => assigns.elim nofun nofun

/-! ## Functions -/

/-- A block has the same parts in every role. -/
theorem enclose_inRole {parts : Braces} (encloses : parts.Enclose node) (role : Role) :
    parts.Enclose (node.inRole role) := by
  obtain ⟨head, children⟩ := node
  exact { encloses with }

/-- The name, the parameters and the body of a function are found among its parts. -/
theorem shaped_function {ahead name parameters body : Pieces} {last stop final : Int}
    (bare : ∀ piece ∈ ahead, piece.head.role = none) (named : Term text true middle last name)
    (listed : Term text true last stop parameters) (block : Block text stop final body)
    (bareComments : ∀ comment ∈ comments, comment.head.role = none)
    (whole : comments ++ first :: rest =
      ahead ++ inRole .name name ++ inRole .parameters parameters ++ inRole .body body) :
    (built .functionDeclaration first rest).Shaped (Utf8.encodeChars text) := by
  have bareName := named.bare
  have bareParameters := listed.bare
  have bareBody := block.bare
  -- The last piece of each of the three lists has the role that the list is given.
  obtain ⟨commentsName, nodeName, rfl, -, -⟩ := named.single
  obtain ⟨commentsParameters, nodeParameters, rfl, -, -⟩ := listed.single
  obtain ⟨commentsBody, nodeBody, parts, rfl, encloses, closed⟩ := block.enclosed
  have found : ∀ sought, (built .functionDeclaration first rest).child? sought =
      (((if .name = sought then some (nodeName.inRole .name) else none).or
        (if .parameters = sought then some (nodeParameters.inRole .parameters) else none)).or
          (if .body = sought then some (nodeBody.inRole .body) else none)) := by
    intro sought
    have skip : (first :: rest).find? (·.head.role = some sought) =
        (comments ++ first :: rest).find? (·.head.role = some sought) := by
      rw [List.find?_append, find?_of_bare bareComments]
      rfl
    change (first :: rest).find? (·.head.role = some sought) = _
    rw [skip, whole, List.find?_append, List.find?_append, List.find?_append, find?_of_bare bare,
      find?_inRole (List.forall_mem_append.mp bareName).1,
      find?_inRole (List.forall_mem_append.mp bareParameters).1,
      find?_inRole (List.forall_mem_append.mp bareBody).1]
    rfl
  have ends : (nodeParameters.inRole .parameters).span.stop ≤ stop := by
    have row := (listed.toLaid.inRole .parameters).row
    rw [inRole_concat] at row
    exact (row.inside (List.mem_map_of_mem (List.mem_append_right _ List.mem_cons_self))).2.2
  have starts : stop ≤ (nodeBody.inRole .body).span.start := by
    have row := (block.toLaid.inRole .body).row
    rw [inRole_concat] at row
    exact (row.inside (List.mem_map_of_mem (List.mem_append_right _ List.mem_cons_self))).1
  have last : rest.getLastD first = nodeBody.inRole .body := by
    have ends := congrArg List.getLast? whole
    rw [inRole_concat .body, ← List.append_assoc, List.getLast?_concat, List.getLast?_append,
      List.getLast?_cons] at ends
    simpa [List.getLastD_eq_getLast?] using ends
  constructor
  case function =>
    intro _
    refine ⟨_, _, _, parts, found .name, found .parameters, found .body,
      enclose_inRole encloses .body, closed, ?_, ?_⟩
    · change (rest.getLastD first).span.stop = _
      rw [last]
    · exact Int.le_trans ends starts
  case returns => exact fun returns => nomatch returns
  case keyword => exact fun returns => nomatch returns
  case returned => exact fun returns => nomatch returns
  case declaration => exact fun declares => nomatch declares
  case loop => exact fun loop => nomatch loop
  case trivia => exact fun trivia => nomatch trivia
  case array => exact fun array => nomatch array
  case declarator => exact fun declarator => nomatch declarator
  case assignment => exact fun assigns => assigns.elim nofun nofun

end Codebox.Script
