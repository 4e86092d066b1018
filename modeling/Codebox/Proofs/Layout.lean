import Codebox.Document
import Codebox.Function
import Codebox.Keyword
import Codebox.Proofs.Boundary
import Codebox.Proofs.Row

/-! # Well-laid trees

The children of a node lie in a row inside it, every node starts and ends at a
boundary between characters, and the nodes that are rewritten have the children
that the grammar gives them. A statement stands below an expression only where a
function or a class lies between them, so nothing below a return statement is
rewritten.
-/

namespace Codebox

/-- The kinds of the nodes that the rewriting of a body looks for. -/
def Kind.isRewritten : Kind → Bool
  | .lexicalDeclaration | .variableDeclaration | .forInStatement | .returnStatement => true
  | _ => false

/-- The place after one byte. -/
def stepByte (point : Point) (byte : UInt8) : Point :=
  if byte = 0x0A then ⟨point.row + 1, 0⟩ else ⟨point.row, point.column + 1⟩

/-- The place of an offset: the line feeds before it, and the bytes since the last
one. -/
def Bytes.pointAt (bytes : Bytes) (offset : Int) : Point :=
  (bytes.take offset.toNat).foldl stepByte ⟨0, 0⟩

/-- The marks that comments start with. -/
def commentMarks : List String :=
  ["//", "/*", "<!--", "-->"]

/-- No comment is an array. -/
theorem Kind.ne_array_of_isTrivia {kind : Kind} (trivia : kind.isTrivia) : kind ≠ .array := by
  rintro rfl
  cases trivia

/-- Whether a byte can be one of a blank: controls, the space, and whatever lies beyond ASCII. -/
def isBlankByte (byte : UInt8) : Bool :=
  byte ≤ 0x20 || 0x80 ≤ byte

/-- The parts of a block: its braces, what lies between them, and the comments
that the block takes in after the closing brace. -/
structure Braces where
  opening : Node
  inner : List Node
  closing : Node
  comments : List Node

namespace Node

/-- The spans of nodes stand in a row. -/
abbrev InRow (low high : Int) (nodes : List Node) : Prop :=
  Span.Row low high (nodes.map Node.span)

/-- Nothing in the node's own scope is rewritten. -/
def Calm (node : Node) : Prop :=
  ∀ inner ∈ node.listing, inner.kind.isRewritten = false

/-- Whether a child is the keyword of a declaration or of a loop head. -/
def isDeclaringKeyword (child : Node) : Bool :=
  child.head.role = some .keyword && child.kind.isKeyword

end Node

/-- Whether a child is what the keyword of its parent binds. -/
def Kind.binds (parent : Kind) (child : Node) : Bool :=
  match parent with
  | .lexicalDeclaration | .variableDeclaration => child.kind = .variableDeclarator
  | .forInStatement => child.head.role = some .left
  | _ => false

/-- The parts of a node that declares: its keyword and what it binds first, with
what lies around them. -/
structure Heading where
  before : List Node
  keyword : Node
  between : List Node
  binding : Node
  after : List Node

/-- The parts are as in a declaration: only calm nodes come before the keyword, only
comments lie between it and what it binds, and no other keyword declares. -/
structure Heading.Declares (parts : Heading) : Prop where
  before_calm : ∀ child ∈ parts.before, child.Calm
  keyword_calm : parts.keyword.Calm
  keyword_wide : parts.keyword.span.start < parts.keyword.span.stop
  is_keyword : parts.keyword.isDeclaringKeyword
  trivia : ∀ child ∈ parts.between, child.kind.isTrivia ∧ child.head.role = none
  single : ∀ child ∈ parts.before ++ parts.binding :: parts.after,
    child.isDeclaringKeyword = false

/-- All of the parts, in order. -/
def Heading.nodes (parts : Heading) : List Node :=
  parts.before ++ parts.keyword :: (parts.between ++ parts.binding :: parts.after)

/-- A node has these parts and declares by them. -/
structure Heading.Leads (parts : Heading) (node : Node) : Prop extends parts.Declares where
  children : node.children = parts.nodes
  declaring : declaring? node = some (parts.keyword, parts.binding)
  bound : node.kind.binds parts.binding

/-- A block has these parts. -/
structure Braces.Enclose (parts : Braces) (block : Node) : Prop where
  kind : block.kind = .statementBlock
  children : block.children = parts.opening :: (parts.inner ++ parts.closing :: parts.comments)
  opening_kind : parts.opening.kind = .token "\x7b"
  opening_span : parts.opening.span = ⟨block.span.start, block.span.start + 1⟩
  opening_calm : parts.opening.Calm
  closing_kind : parts.closing.kind = .token "\x7d"
  closing_span : parts.closing.span.stop = parts.closing.span.start + 1
  closing_calm : parts.closing.Calm
  comments_trivia : ∀ comment ∈ parts.comments, comment.kind.isTrivia
  stop : block.span.stop = (parts.comments.getLastD parts.closing).span.stop

namespace Node

/-- What the grammar says of the children of a node by its kind. -/
structure Shaped (source : Bytes) (node : Node) : Prop where
  /-- A return statement covers its keyword, and nothing below it is rewritten. -/
  returns : node.kind = .returnStatement →
    node.span.start < node.span.stop ∧ ∀ child ∈ node.children, child.Calm
  /-- A return statement starts with its keyword. -/
  keyword : node.kind = .returnStatement → Utf8.encode "return" <+: source.cut node.span
  /-- Only blanks come between the keyword of a return statement and an array that it returns,
  or the first comment before that. -/
  returned : node.kind = .returnStatement → (∃ child ∈ node.children, child.kind = .array) →
    ∃ next ∈ node.children, (next.kind = .array ∨ next.kind.isTrivia) ∧
      ∃ blanks : Bytes, (∀ byte ∈ blanks, isBlankByte byte) ∧
        source.cut ⟨node.span.start, next.span.start⟩ = Utf8.encode "return" ++ blanks
  /-- A declaration has a keyword. -/
  declaration : node.kind.declares → ∃ parts : Heading, parts.Leads node
  /-- A loop head has a keyword or declares nothing. -/
  loop : node.kind = .forInStatement → (∃ parts : Heading, parts.Leads node) ∨
    ∀ child ∈ node.children, child.isDeclaringKeyword = false
  /-- A function declaration has a name, parameters and after them a body in braces, with
  which it ends. -/
  function : node.kind = .functionDeclaration →
    ∃ (name parameters body : Node) (parts : Braces), node.child? .name = some name ∧
      node.child? .parameters = some parameters ∧ node.child? .body = some body ∧
      parts.Enclose body ∧ source.cut parts.closing.span = Utf8.encode "\x7d" ∧
      node.span.stop = body.span.stop ∧ parameters.span.stop ≤ body.span.start
  /-- A comment has no children and starts with a mark of comments. -/
  trivia : node.kind.isTrivia → node.children = [] ∧
    ∃ mark ∈ commentMarks, Utf8.encode mark <+: source.cut node.span
  /-- An array starts with a bracket, which is none of its elements. -/
  array : node.kind = .array → ∃ opening rest, node.children = opening :: rest ∧
    opening.kind = .openBracket ∧ opening.head.named = false ∧
    opening.span.start = node.span.start ∧ source.cut opening.span = Utf8.encode "["
  /-- A declarator has something that it binds. -/
  declarator : node.kind = .variableDeclarator → (node.child? .name).isSome
  /-- An assignment, or what it becomes as a default, has a left side first and then a right
  one. -/
  assignment : node.kind = .assignmentExpression ∨ node.kind = .assignmentPattern →
    ∃ left rest, node.children = left :: rest ∧ left.head.role = some .left ∧
      left.kind.isTrivia = false ∧ ∃ right ∈ rest, right.head.role = some .right

/-- A comment starts with a visible byte. -/
theorem Shaped.visible_of_trivia {source : Bytes} {node : Node} (shaped : node.Shaped source)
    (trivia : node.kind.isTrivia) :
    ∃ byte rest, source.cut node.span = byte :: rest ∧ isGapByte byte = false := by
  have heads : ∀ mark ∈ commentMarks, (Utf8.encode mark).head?.any (!isGapByte ·) := by decide
  obtain ⟨-, mark, member, more, written⟩ := shaped.trivia trivia
  obtain ⟨byte, head, visible⟩ := (Option.any_eq_true _ _).mp (heads mark member)
  obtain ⟨rest, parts⟩ := List.head?_eq_some_iff.mp head
  refine ⟨byte, rest ++ more, ?_, by simpa using visible⟩
  rw [← written, parts, List.cons_append]

/-- A well-laid tree of a text. -/
inductive Sound (source : Bytes) : Node → Prop
  | mk {head : Head} {children : List Node}
      (starts : source.Boundary head.span.start) (stops : source.Boundary head.span.stop)
      (order : head.span.start ≤ head.span.stop)
      (point : head.point = source.pointAt head.span.start)
      (row : InRow head.span.start head.span.stop children)
      (shaped : Shaped source (.mk head children))
      (below : ∀ child ∈ children, Sound source child) : Sound source (.mk head children)

namespace Sound

variable {source : Bytes} {node child : Node}

/-- A well-laid node starts at a boundary. -/
theorem starts (sound : node.Sound source) : source.Boundary node.span.start := by
  cases sound with
  | mk starts => exact starts

/-- A well-laid node stops at a boundary. -/
theorem stops (sound : node.Sound source) : source.Boundary node.span.stop := by
  cases sound with
  | mk _ stops => exact stops

/-- A well-laid node starts before it stops. -/
theorem order (sound : node.Sound source) : node.span.start ≤ node.span.stop := by
  cases sound with
  | mk _ _ order => exact order

/-- The place of a well-laid node is that of its start. -/
theorem point (sound : node.Sound source) : node.point = source.pointAt node.span.start := by
  cases sound with
  | mk _ _ _ point => exact point

/-- The children of a well-laid node lie in a row inside it. -/
theorem row (sound : node.Sound source) : InRow node.span.start node.span.stop node.children := by
  cases sound with
  | mk _ _ _ _ row => exact row

/-- A well-laid node has the shape of its kind. -/
theorem shaped (sound : node.Sound source) : node.Shaped source := by
  cases sound with
  | mk _ _ _ _ _ shaped => exact shaped

/-- The children of a well-laid node are well laid. -/
theorem ofChild (sound : node.Sound source) (member : child ∈ node.children) :
    child.Sound source := by
  cases sound with
  | mk _ _ _ _ _ _ below => exact below child member

/-- The text of a well-laid node can be read. -/
theorem text (sound : node.Sound source) : ∃ text, node.text source = .ok text :=
  sound.starts.extract sound.stops sound.order

/-- A child in a role is well laid. -/
theorem child? (sound : node.Sound source) {role : Role} (found : node.child? role = some child) :
    child.Sound source :=
  sound.ofChild (List.mem_of_find?_eq_some found)

/-- A named child is well laid. -/
theorem namedChild (sound : node.Sound source) (member : child ∈ node.namedChildren) :
    child.Sound source :=
  sound.ofChild (List.mem_filter.mp member).1

/-- A part is well laid. -/
theorem part (sound : node.Sound source) (member : child ∈ node.parts) : child.Sound source :=
  sound.namedChild (List.mem_filter.mp member).1

/-- A child in a role lies inside its parent. -/
theorem child?_inside (sound : node.Sound source) {role : Role}
    (found : node.child? role = some child) :
    node.span.start ≤ child.span.start ∧ child.span.start ≤ child.span.stop ∧
      child.span.stop ≤ node.span.stop :=
  sound.row.inside (List.mem_map_of_mem (List.mem_of_find?_eq_some found))

/-- The parts of a node lie in a row inside it. -/
theorem row_parts (sound : node.Sound source) :
    InRow node.span.start node.span.stop node.parts :=
  sound.row.sublist ((List.filter_sublist.trans List.filter_sublist).map Node.span)

/-- A part lies inside its parent. -/
theorem part_inside (sound : node.Sound source) (member : child ∈ node.parts) :
    node.span.start ≤ child.span.start ∧ child.span.start ≤ child.span.stop ∧
      child.span.stop ≤ node.span.stop :=
  sound.row_parts.inside (List.mem_map_of_mem member)

end Sound

/-! ## Listings -/

/-- The listing of nodes is that of each, one after the other. -/
theorem listings_eq_flatMap (nodes : List Node) : listings nodes = nodes.flatMap listing := by
  induction nodes with
  | nil => rfl
  | cons node rest ih =>
      rw [listings, ih]
      rfl

/-- A listing has the node first, and the walk through it unless it opens a scope. -/
theorem listing_eq (node : Node) :
    node.listing = node :: if node.kind.opensScope then [] else node.walk := by
  rw [listing_eq_cons, walk_eq_listings]

/-- A node is in its own listing. -/
theorem self_mem_listing (node : Node) : node ∈ node.listing := by
  rw [listing_eq]
  exact List.mem_cons_self

/-- A walk finds what the listing of a child has. -/
theorem mem_walk_iff {node inner : Node} :
    inner ∈ node.walk ↔ ∃ child ∈ node.children, inner ∈ child.listing := by
  rw [walk_eq_listings, listings_eq_flatMap, List.mem_flatMap]

mutual

/-- What passes from a node to its children holds all over its scope. -/
theorem forall_listing {holds : Node → Prop}
    (passes : ∀ node, holds node → ∀ child ∈ node.children, holds child) :
    (node : Node) → holds node → ∀ inner ∈ node.listing, holds inner
  | mk head children, here, inner, member => by
    rw [listing] at member
    rcases List.mem_cons.mp member with rfl | member
    · exact here
    · split at member
      · cases member
      · exact forall_listings passes children (passes _ here) inner member

/-- What passes from nodes to their children holds all over their scopes. -/
theorem forall_listings {holds : Node → Prop}
    (passes : ∀ node, holds node → ∀ child ∈ node.children, holds child) :
    (nodes : List Node) → (∀ node ∈ nodes, holds node) → ∀ inner ∈ listings nodes, holds inner
  | [], _, _, member => by cases member
  | node :: rest, each, inner, member => by
    obtain ⟨first, each⟩ := List.forall_mem_cons.mp each
    rw [listings] at member
    rcases List.mem_append.mp member with member | member
    · exact forall_listing passes node first inner member
    · exact forall_listings passes rest each inner member

end

/-- What a walk finds is well laid. -/
theorem Sound.walk {source : Bytes} {node inner : Node} (sound : node.Sound source)
    (member : inner ∈ node.walk) : inner.Sound source := by
  rw [walk_eq_listings] at member
  exact forall_listings (fun _ sound _ => sound.ofChild) node.children (fun _ => sound.ofChild)
    inner member

/-- A node is calm if it is not rewritten itself and opens a scope or has calm
children. -/
theorem calm_of_children {node : Node} (kept : node.kind.isRewritten = false)
    (children : ¬ node.kind.opensScope → ∀ child ∈ node.children, child.Calm) : node.Calm := by
  intro inner member
  rw [listing_eq] at member
  rcases List.mem_cons.mp member with rfl | member
  · exact kept
  · split at member
    · cases member
    next flat =>
      obtain ⟨child, memberChild, among⟩ := mem_walk_iff.mp member
      exact children flat child memberChild inner among

/-- The children of a calm node are calm, unless it opens a scope. -/
theorem Calm.ofChild {node child : Node} (calm : node.Calm) (flat : ¬ node.kind.opensScope)
    (member : child ∈ node.children) : child.Calm := by
  intro inner among
  refine calm inner ?_
  rw [listing_eq, if_neg flat]
  exact List.mem_cons_of_mem _ (mem_walk_iff.mpr ⟨child, member, among⟩)

/-- Comments are calm. -/
theorem Sound.calm_of_trivia {source : Bytes} {node : Node} (sound : node.Sound source)
    (trivia : node.kind.isTrivia) : node.Calm := by
  have leaf := (sound.shaped.trivia trivia).1
  refine calm_of_children ?_ fun _ child member => ?_
  · cases kind : node.kind <;> simp_all [Kind.isTrivia, Kind.isRewritten]
  · rw [leaf] at member
    cases member

/-- A comment covers at least one byte. -/
theorem Sound.wide_of_trivia {source : Bytes} {node : Node} (sound : node.Sound source)
    (trivia : node.kind.isTrivia) : node.span.start < node.span.stop := by
  obtain ⟨byte, rest, written, -⟩ := sound.shaped.visible_of_trivia trivia
  refine Int.lt_iff_le_and_ne.mpr ⟨sound.order, fun same => ?_⟩
  have empty : source.cut ⟨node.span.start, node.span.stop⟩ = [] := by
    rw [← same]
    exact source.cut_self sound.starts.nonneg
  rw [written] at empty
  cases empty

/-! ## Trees -/

/-- A node is the root of a tree or lies somewhere below it, whatever scopes lie between. -/
inductive Holds : Node → Node → Prop
  | self (node : Node) : Holds node node
  | through {node child inner : Node} (member : child ∈ node.children) (held : Holds child inner) :
      Holds node inner

/-- Everything in a well-laid tree is well laid. -/
theorem Sound.ofHolds {source : Bytes} {node inner : Node} (sound : node.Sound source)
    (held : node.Holds inner) : inner.Sound source := by
  induction held with
  | self => exact sound
  | through member _ ih => exact ih (sound.ofChild member)

/-- Everything in a well-laid tree lies inside it. -/
theorem Sound.holds_inside {source : Bytes} {node inner : Node} (sound : node.Sound source)
    (held : node.Holds inner) :
    node.span.start ≤ inner.span.start ∧ inner.span.stop ≤ node.span.stop := by
  induction held with
  | self => exact ⟨Int.le_refl _, Int.le_refl _⟩
  | through member _ ih =>
      have outer := sound.row.inside (List.mem_map_of_mem member)
      have inner := ih (sound.ofChild member)
      omega

end Node

/-- A document whose tree is well-laid. -/
def Document.Sound (document : Document) : Prop :=
  document.root.Sound document.source

end Codebox
