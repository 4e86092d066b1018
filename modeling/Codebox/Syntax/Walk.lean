import Codebox.Syntax.Node

/-! # Walking one scope

The walk of a node lists what lies below it in document order. A node that
opens a function scope is listed, and nothing below it is. The nodes still to be
visited lie on a stack, with the next one on top.
-/

namespace Codebox

namespace Node

mutual

/-- How many nodes a tree has. -/
def size : Node → Nat
  | mk _ children => sizes children + 1

/-- How many nodes some trees have together. -/
def sizes : List Node → Nat
  | [] => 0
  | node :: rest => size node + sizes rest

end

/-- The sizes of nodes add up. -/
theorem sizes_append (first second : List Node) :
    sizes (first ++ second) = sizes first + sizes second := by
  induction first with
  | nil => exact (Nat.zero_add _).symm
  | cons node rest ih =>
      rw [List.cons_append, sizes, sizes, ih]
      omega

/-- A stack with nodes put on it, one on top of the other. -/
def push (stack nodes : List Node) : List Node :=
  nodes.foldl (fun stack node => node :: stack) stack

@[simp] theorem push_reverse (stack nodes : List Node) :
    push stack nodes.reverse = nodes ++ stack := by
  simp [push]

/-- The stack after a visit to the node that lay on top of it. The children of the
node take its place, the first of them on top, unless the node opens a scope. -/
def stackAfter (node : Node) (stack : List Node) : List Node :=
  if node.kind.opensScope then stack else push stack node.children.reverse

/-- A visit leaves fewer nodes to be visited. -/
theorem sizes_stackAfter (node : Node) (stack : List Node) :
    sizes (node.stackAfter stack) < sizes (node :: stack) := by
  obtain ⟨head, children⟩ := node
  rw [sizes, size]
  unfold stackAfter
  split
  · omega
  · rw [push_reverse, sizes_append, Node.children]
    omega

/-- The nodes in the order in which they are visited from a stack. -/
def visits : List Node → List Node
  | [] => []
  | node :: stack => node :: visits (node.stackAfter stack)
termination_by stack => sizes stack
decreasing_by exact sizes_stackAfter node stack

/-- The nodes below a node, in document order, without entering nested scopes.
Whether the node itself opens a scope does not matter. -/
def walk (node : Node) : List Node :=
  visits (push [] node.children.reverse)

/-! ## The walk by recursion -/

mutual

/-- A node and what lies below it within one scope. -/
def listing : Node → List Node
  | mk head children =>
    mk head children :: if head.kind.opensScope then [] else listings children

/-- The listings of some nodes, one after the other. -/
def listings : List Node → List Node
  | [] => []
  | node :: rest => listing node ++ listings rest

end

/-- A listing has the node first, and its children unless it opens a scope. -/
theorem listing_eq_cons (node : Node) :
    node.listing = node :: if node.kind.opensScope then [] else listings node.children := by
  obtain ⟨head, children⟩ := node
  rw [listing]
  rfl

/-- The listings of nodes follow each other. -/
theorem listings_append (first second : List Node) :
    listings (first ++ second) = listings first ++ listings second := by
  induction first with
  | nil => rfl
  | cons node rest ih => rw [List.cons_append, listings, listings, ih, List.append_assoc]

/-- The nodes on a stack are visited one after the other, each with what lies below
it. -/
theorem visits_eq_listings (stack : List Node) : visits stack = listings stack := by
  induction stack using visits.induct with
  | case1 => rw [visits, listings]
  | case2 node stack ih =>
      rw [visits, ih, listings, listing_eq_cons, List.cons_append]
      unfold stackAfter
      split
      · rw [List.nil_append]
      · rw [push_reverse, listings_append]

/-- A walk lists the children, each with what lies below it. -/
theorem walk_eq_listings (node : Node) : node.walk = listings node.children := by
  rw [walk, push_reverse, List.append_nil, visits_eq_listings]

end Node

end Codebox
