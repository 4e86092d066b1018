import Codebox.Proofs.Places
import Mathlib.Logic.Function.Iterate

/-! # The walk of a scope

The walk keeps the nodes still to be visited on a stack. It ends, it visits the
nodes in document order, and it visits exactly those that no scope separates from
its root.
-/

namespace Codebox

namespace Node

/-! ## Turn by turn -/

/-- One turn of the walk: the stack after a visit to the node on top of it. -/
def turn : List Node → List Node
  | [] => []
  | node :: stack => node.stackAfter stack

/-- In each turn the node on top of the stack is visited. -/
theorem head?_turns (turns : Nat) (stack : List Node) :
    (turn^[turns] stack).head? = (visits stack)[turns]? := by
  induction turns generalizing stack with
  | zero =>
      cases stack with
      | nil => rw [visits]; rfl
      | cons node stack => rw [visits]; rfl
  | succ turns ih =>
      rw [Function.iterate_succ_apply, ih]
      cases stack with
      | nil => rw [turn, visits, List.getElem?_nil, List.getElem?_nil]
      | cons node stack => rw [turn, visits, List.getElem?_cons_succ]

/-- The walk ends after as many turns as it visits nodes. -/
theorem turns_eq_nil_iff {turns : Nat} {stack : List Node} :
    turn^[turns] stack = [] ↔ (visits stack).length ≤ turns := by
  rw [← List.head?_eq_none_iff, head?_turns, List.getElem?_eq_none_iff]

/-! ## Node by node -/

mutual

/-- Without their places, the nodes found in the scope of a node are its listing. -/
theorem map_placed_opensScope : (node : Node) →
    (node.placed Kind.opensScope).map (·.2) = node.listing
  | mk head children => by
    rw [placed, listing, List.map_cons]
    split
    · rfl
    · rw [map_placedFrom_opensScope 0 children]

/-- Without their places, the nodes found in a row are its listings. -/
theorem map_placedFrom_opensScope : (first : Nat) → (nodes : List Node) →
    (placedFrom Kind.opensScope first nodes).map (·.2) = listings nodes
  | _, [] => rfl
  | first, node :: rest => by
    rw [placedFrom, listings, List.map_append, List.map_map, ← map_placed_opensScope node,
      map_placedFrom_opensScope (first + 1) rest]
    rfl

end

/-- A place below the root that no scope separates from it. Whether the root itself
opens a scope does not matter, nor whether the node at the place does. -/
def InScope (root : Node) (place : List Nat) : Prop :=
  place ≠ [] ∧ ∀ above below between, above ≠ [] → below ≠ [] → place = above ++ below →
    root.at? above = some between → between.kind.opensScope = false

variable {root node : Node} {place : List Nat}

/-- A place under a child is in scope if nothing on the way from the child opens one. -/
theorem inScope_cons {index : Nat} {child : Node} (found : root.children[index]? = some child) :
    root.InScope (index :: place) ↔ child.OpenTo Kind.opensScope place := by
  constructor
  · rintro ⟨-, apart⟩ above below between nonempty split reached
    refine apart (index :: above) below between (by simp) nonempty ?_ ?_
    · rw [split, List.cons_append]
    · exact at?_cons_eq_some_iff.mpr ⟨child, found, reached⟩
  · intro opened
    refine ⟨by simp, ?_⟩
    intro above below between proper nonempty split reached
    obtain ⟨first, above, rfl⟩ := List.exists_cons_of_ne_nil proper
    obtain ⟨rfl, rest⟩ := List.cons.inj split
    obtain ⟨other, same, reached⟩ := at?_cons_eq_some_iff.mp reached
    rw [found] at same
    cases same
    exact opened above below between nonempty rest reached

/-- What is listed below a node lies in its scope, and all that lies there is
listed. -/
theorem mem_placedFrom_children_iff :
    (place, node) ∈ placedFrom Kind.opensScope 0 root.children ↔
      root.at? place = some node ∧ root.InScope place := by
  rw [mem_placedFrom_iff]
  constructor
  · rintro ⟨offset, rest, child, rfl, found, member⟩
    obtain ⟨reached, opened⟩ := mem_placed_iff.mp member
    rw [Nat.zero_add]
    exact ⟨at?_cons_eq_some_iff.mpr ⟨child, found, reached⟩, (inScope_cons found).mpr opened⟩
  · rintro ⟨reached, inScope⟩
    obtain ⟨index, rest, rfl⟩ := List.exists_cons_of_ne_nil inScope.1
    obtain ⟨child, found, reached⟩ := at?_cons_eq_some_iff.mp reached
    refine ⟨index, rest, child, by rw [Nat.zero_add], found, mem_placed_iff.mpr ⟨reached, ?_⟩⟩
    exact (inScope_cons found).mp inScope

/-- Nothing below a node that opens a scope lies in the scope around it. -/
theorem not_inScope_append {scope : Node} {below : List Nat} (proper : place ≠ [])
    (reached : root.at? place = some scope) (opens : scope.kind.opensScope) (inside : below ≠ []) :
    ¬ root.InScope (place ++ below) := by
  rintro ⟨-, apart⟩
  have flat := apart place below scope proper inside rfl reached
  rw [opens] at flat
  cases flat

/-- **The walk lists the scope of a node, in document order.** It is the recursive one. Its stack
is empty after as many turns as it lists nodes, and in each turn before it lists the node on top.
Every place of the scope is listed once: a node that opens a scope is among them, and nothing below
it is. -/
theorem walk_lists_scope (root : Node) :
    root.walk = listings root.children ∧
      (∀ turns, turn^[turns] (push [] root.children.reverse) = [] ↔ root.walk.length ≤ turns) ∧
      (∀ turns, (turn^[turns] (push [] root.children.reverse)).head? = root.walk[turns]?) ∧
      ∃ listed : List (List Nat × Node),
        listed.map (·.2) = root.walk ∧
        (∀ place node, (place, node) ∈ listed ↔ root.at? place = some node ∧ root.InScope place) ∧
        (listed.map (·.1)).Nodup ∧
        (listed.Pairwise fun earlier later => DocumentOrder earlier.1 later.1) ∧
        ∀ place scope, (place, scope) ∈ listed → scope.kind.opensScope →
          ∀ below node, below ≠ [] → (place ++ below, node) ∉ listed := by
  have ordered := pairwise_placedFrom Kind.opensScope 0 root.children
  refine ⟨root.walk_eq_listings, fun turns => turns_eq_nil_iff, fun turns => head?_turns turns _,
    placedFrom Kind.opensScope 0 root.children, ?_, fun place node => mem_placedFrom_children_iff,
    nodup_of_pairwise ordered, ordered, ?_⟩
  · rw [map_placedFrom_opensScope, root.walk_eq_listings]
  · intro place scope member opens below node inside among
    obtain ⟨reached, here⟩ := mem_placedFrom_children_iff.mp member
    exact not_inScope_append here.1 reached opens inside (mem_placedFrom_children_iff.mp among).2

end Node

end Codebox
