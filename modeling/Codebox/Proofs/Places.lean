import Codebox.Proofs.Layout

/-! # Places in a tree

A node may occur in a tree more than once, so what is said of nodes in document
order is said of their places. A place tells which child to take, again and again
from the root on. Document order is the lexicographic order of places: a node comes
before what lies below it, and what lies in one child before what lies in a later
one.
-/

namespace Codebox

namespace Node

/-- The node at a place. -/
def at? : Node → List Nat → Option Node
  | node, [] => some node
  | node, index :: rest => node.children[index]?.bind (·.at? rest)

/-- The order in which a document is read. -/
abbrev DocumentOrder : List Nat → List Nat → Prop :=
  List.Lex (· < ·)

/-- No node above a place is closed, from the root on. -/
def OpenTo (closed : Kind → Bool) (root : Node) (place : List Nat) : Prop :=
  ∀ above below node, below ≠ [] → place = above ++ below → root.at? above = some node →
    closed node.kind = false

mutual

/-- A node and what lies below it in document order, each with its place, without
what lies below a node of a closed kind. -/
def placed (closed : Kind → Bool) : Node → List (List Nat × Node)
  | mk head children =>
    ([], mk head children) :: if closed head.kind then [] else placedFrom closed 0 children

/-- Nodes with what lies below them, as the children from an index on. -/
def placedFrom (closed : Kind → Bool) : Nat → List Node → List (List Nat × Node)
  | _, [] => []
  | index, node :: rest =>
    (placed closed node).map (Prod.map (index :: ·) id) ++ placedFrom closed (index + 1) rest

end

variable {closed : Kind → Bool} {root node child : Node} {place : List Nat} {index : Nat}
  {nodes : List Node}

/-- A node stands at the empty place, and its children below it unless they are shut off. -/
theorem placed_eq (closed : Kind → Bool) (node : Node) :
    node.placed closed =
      ([], node) :: if closed node.kind then [] else placedFrom closed 0 node.children := by
  obtain ⟨head, children⟩ := node
  rw [placed]
  rfl

/-- A place leads through the child that its first index names. -/
theorem at?_cons_eq_some_iff : root.at? (index :: place) = some node ↔
    ∃ child, root.children[index]? = some child ∧ child.at? place = some node := by
  rw [at?, Option.bind_eq_some_iff]

/-! ## What is listed -/

/-- The way to the root is open. -/
theorem openTo_nil : root.OpenTo closed [] := by
  intro above below node nonempty split
  exact absurd (List.append_eq_nil_iff.mp split.symm).2 nonempty

/-- The way to a place in a child leads through the node and on through the child. -/
theorem openTo_cons (found : root.children[index]? = some child) :
    root.OpenTo closed (index :: place) ↔
      closed root.kind = false ∧ child.OpenTo closed place := by
  constructor
  · intro opened
    refine ⟨opened [] (index :: place) root (by simp) rfl rfl, ?_⟩
    intro above below node nonempty split reached
    refine opened (index :: above) below node nonempty ?_ ?_
    · rw [split, List.cons_append]
    · exact at?_cons_eq_some_iff.mpr ⟨child, found, reached⟩
  · rintro ⟨here, opened⟩ above below node nonempty split reached
    cases above with
    | nil =>
        cases reached
        exact here
    | cons first above =>
        obtain ⟨rfl, rest⟩ := List.cons.inj split
        obtain ⟨other, same, reached⟩ := at?_cons_eq_some_iff.mp reached
        rw [found] at same
        cases same
        exact opened above below node nonempty rest reached

/-- What is listed of nodes in a row is listed of one of them. -/
theorem mem_placedFrom_iff {first : Nat} :
    (place, node) ∈ placedFrom closed first nodes ↔
      ∃ offset rest child, place = (first + offset) :: rest ∧ nodes[offset]? = some child ∧
        (rest, node) ∈ child.placed closed := by
  induction nodes generalizing first with
  | nil => simp [placedFrom]
  | cons head tail ih =>
      rw [placedFrom, List.mem_append, ih]
      constructor
      · rintro (member | ⟨offset, rest, child, rfl, found, member⟩)
        · obtain ⟨⟨rest, inner⟩, among, same⟩ := List.mem_map.mp member
          cases same
          exact ⟨0, rest, head, rfl, rfl, among⟩
        · refine ⟨offset + 1, rest, child, ?_, found, member⟩
          rw [Nat.add_assoc, Nat.add_comm 1]
      · rintro ⟨offset, rest, child, rfl, found, member⟩
        cases offset with
        | zero =>
            cases found
            exact .inl (List.mem_map.mpr ⟨(rest, node), member, rfl⟩)
        | succ offset =>
            refine .inr ⟨offset, rest, child, ?_, found, member⟩
            rw [Nat.add_assoc, Nat.add_comm 1]

/-- A node is listed with each of its places that are not below a closed node, and
with nothing else. -/
theorem mem_placed_iff :
    (place, node) ∈ root.placed closed ↔ root.at? place = some node ∧ root.OpenTo closed place := by
  -- By induction on the place: the node is the same all the way, the root moves down to it.
  induction place generalizing root with
  | nil =>
      have below : ([], node) ∉ placedFrom closed 0 root.children := by
        rw [mem_placedFrom_iff]
        rintro ⟨offset, rest, child, same, -⟩
        cases same
      rw [placed_eq, List.mem_cons, at?]
      constructor
      · rintro (same | member)
        · cases same
          exact ⟨rfl, openTo_nil⟩
        · split at member
          · cases member
          · exact absurd member below
      · rintro ⟨same, -⟩
        cases same
        exact .inl rfl
  | cons index place ih =>
      rw [placed_eq, List.mem_cons, at?_cons_eq_some_iff]
      constructor
      · rintro (same | member)
        · cases same
        · split at member
          · cases member
          next opened =>
            obtain ⟨offset, rest, child, same, found, member⟩ := mem_placedFrom_iff.mp member
            rw [Nat.zero_add] at same
            cases same
            obtain ⟨reached, through⟩ := ih.mp member
            refine ⟨⟨child, found, reached⟩, (openTo_cons found).mpr ⟨?_, through⟩⟩
            simpa using opened
      · rintro ⟨⟨child, found, reached⟩, through⟩
        obtain ⟨opened, through⟩ := (openTo_cons found).mp through
        rw [if_neg (by simp [opened])]
        have member := ih.mpr ⟨reached, through⟩
        refine .inr (mem_placedFrom_iff.mpr ⟨index, place, child, ?_, found, member⟩)
        rw [Nat.zero_add]

/-! ## In which order -/

mutual

/-- Nodes are listed in document order. -/
theorem pairwise_placed (closed : Kind → Bool) : (node : Node) →
    (node.placed closed).Pairwise fun earlier later => DocumentOrder earlier.1 later.1
  | mk head children => by
    rw [placed]
    refine List.pairwise_cons.mpr ⟨?_, ?_⟩
    · rintro ⟨place, inner⟩ member
      split at member
      · cases member
      · obtain ⟨offset, rest, child, rfl, -⟩ := mem_placedFrom_iff.mp member
        exact .nil
    · split
      · exact .nil
      · exact pairwise_placedFrom closed 0 children

/-- By recursion along the tree: places are listed in the order of the document. -/
theorem pairwise_placedFrom (closed : Kind → Bool) : (first : Nat) → (nodes : List Node) →
    (placedFrom closed first nodes).Pairwise fun earlier later => DocumentOrder earlier.1 later.1
  | _, [] => .nil
  | first, node :: rest => by
    rw [placedFrom, List.pairwise_append, List.pairwise_map]
    refine ⟨(pairwise_placed closed node).imp .cons,
      pairwise_placedFrom closed (first + 1) rest, ?_⟩
    rintro earlier among ⟨place, inner⟩ member
    obtain ⟨placed, -, rfl⟩ := List.mem_map.mp among
    obtain ⟨offset, tail, child, rfl, -⟩ := mem_placedFrom_iff.mp member
    exact .rel (by omega)

end

/-- No place is listed twice. -/
theorem nodup_of_pairwise {listed : List (List Nat × Node)}
    (ordered : listed.Pairwise fun earlier later => DocumentOrder earlier.1 later.1) :
    (listed.map (·.1)).Nodup := by
  refine List.pairwise_map.mpr (ordered.imp ?_)
  intro earlier later before same
  rw [same] at before
  exact List.lex_irrefl Nat.lt_irrefl _ before

end Node

end Codebox
