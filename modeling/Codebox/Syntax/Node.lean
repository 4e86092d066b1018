import Codebox.Span
import Codebox.Syntax.Kind

/-! # Syntax trees

A node covers the bytes from its first token to its last. Comments are nodes
too; they lie in the innermost node that has tokens on either side of them.
-/

namespace Codebox

/-- A place in a text, both numbers from zero; columns count bytes. -/
structure Point where
  row : Nat
  column : Nat
  deriving DecidableEq, Repr

/-- The place for a reader, who counts from one. -/
def Point.location (point : Point) : Location :=
  ⟨point.row + 1, point.column + 1⟩

/-- What a child is to its parent, for the children that are asked for so. -/
inductive Role where
  | name | parameters | body | declaration | keyword | left | right | value | operator | argument
  deriving DecidableEq, Repr

/-- All of a node but its children. -/
structure Head where
  kind : Kind
  span : Span
  point : Point
  role : Option Role := none
  /-- Whether the node stands for a construct and not for a mere token. -/
  named : Bool := true
  /-- Whether the node stands for a token that is not in the text. -/
  missing : Bool := false
  /-- Whether the tree below the node is marked as holding an error. -/
  flawed : Bool := false
  deriving DecidableEq, Repr

/-- A syntax tree. -/
inductive Node where
  | mk (head : Head) (children : List Node)

namespace Node

/-- All of a node but its children. -/
def head : Node → Head
  | mk head _ => head

/-- The children of a node, in source order. -/
def children : Node → List Node
  | mk _ children => children

/-- The kind of a node. -/
def kind (node : Node) : Kind := node.head.kind

/-- The bytes that a node covers. -/
def span (node : Node) : Span := node.head.span

/-- Where a node starts. -/
def point (node : Node) : Point := node.head.point

/-- Where a node starts, for a reader. -/
def location (node : Node) : Location := node.point.location

/-- The children that stand for constructs, comments included. -/
def namedChildren (node : Node) : List Node :=
  node.children.filter (·.head.named)

/-- The children that stand for constructs, without those of kind `comment`. -/
def parts (node : Node) : List Node :=
  node.namedChildren.filter (·.kind ≠ .comment)

/-- The first child with a role. -/
def child? (node : Node) (role : Role) : Option Node :=
  node.children.find? (·.head.role = some role)

/-- The text that a node covers. -/
def text (source : Bytes) (node : Node) : Except Fault String :=
  source.extract node.span

/-- A node in a role. -/
def inRole (role : Role) : Node → Node
  | mk head children => mk { head with role := some role } children

/-- A node of another kind with other children. -/
def recast (kind : Kind) (children : List Node) : Node → Node
  | mk head _ => mk { head with kind := kind } children

end Node

end Codebox
