import Codebox.Proofs.Places

/-! # The first flaw

The search for a flaw enters a child only if the child is marked. Where every node
with a flaw in its tree is marked, nothing is missed: the search finds what a search
of all nodes in document order finds. Where only such nodes are marked, a tree that is
refused is refused for one of its flaws.
-/

namespace Codebox

namespace Node

/-! ## All nodes of a tree -/

/-- All nodes of a tree, in document order. -/
def preorder (root : Node) : List Node :=
  (root.placed fun _ => false).map (·.2)

variable {root node inner : Node} {place : List Nat}

/-- Without their places, the nodes of a row are listed one subtree after the other. -/
theorem map_placedFrom (closed : Kind → Bool) (first : Nat) (nodes : List Node) :
    (placedFrom closed first nodes).map (·.2) =
      nodes.flatMap fun node => (node.placed closed).map (·.2) := by
  induction nodes generalizing first with
  | nil => rfl
  | cons node rest ih =>
      rw [placedFrom, List.map_append, List.map_map, ih, List.flatMap_cons]
      rfl

/-- A tree lists its root and then its subtrees. -/
theorem preorder_eq (root : Node) : root.preorder = root :: root.children.flatMap preorder := by
  rw [preorder, placed_eq, List.map_cons]
  exact congrArg _ (map_placedFrom _ 0 root.children)

/-- A tree holds a node exactly if a place leads to it. -/
theorem holds_iff_exists_at? : root.Holds inner ↔ ∃ place, root.at? place = some inner := by
  constructor
  · intro held
    induction held with
    | self node => exact ⟨[], rfl⟩
    | through member _ ih =>
        obtain ⟨index, found⟩ := List.getElem?_of_mem member
        obtain ⟨place, reached⟩ := ih
        exact ⟨index :: place, at?_cons_eq_some_iff.mpr ⟨_, found, reached⟩⟩
  · rintro ⟨place, reached⟩
    induction place generalizing root with
    | nil =>
        cases reached
        exact .self _
    | cons index place ih =>
        obtain ⟨child, found, reached⟩ := at?_cons_eq_some_iff.mp reached
        exact .through (List.mem_of_getElem? found) (ih reached)

/-- With nothing shut off, a tree lists what its places lead to. -/
theorem mem_placed_all_iff :
    (place, node) ∈ (root.placed fun _ => false) ↔ root.at? place = some node :=
  mem_placed_iff.trans (and_iff_left fun _ _ _ _ _ _ => rfl)

/-- A tree lists the nodes that it holds. -/
theorem mem_preorder_iff : inner ∈ root.preorder ↔ root.Holds inner := by
  rw [preorder, List.mem_map, holds_iff_exists_at?]
  constructor
  · rintro ⟨⟨place, node⟩, member, rfl⟩
    exact ⟨place, mem_placed_all_iff.mp member⟩
  · rintro ⟨place, reached⟩
    exact ⟨(place, inner), mem_placed_all_iff.mpr reached, rfl⟩

/-- A search of all nodes finds the one at the first place at which there is one to be
found. -/
theorem find?_preorder_eq_some_iff {wanted : Node → Bool} :
    root.preorder.find? wanted = some node ↔
      ∃ place, root.at? place = some node ∧ wanted node ∧
        ∀ earlier other, DocumentOrder earlier place → root.at? earlier = some other →
          wanted other = false := by
  have ordered := pairwise_placed (fun _ => false) root
  rw [preorder, List.find?_map, Option.map_eq_some_iff]
  constructor
  · rintro ⟨⟨place, node⟩, found, rfl⟩
    obtain ⟨here, before, after, split, passed⟩ := List.find?_eq_some_iff_append.mp found
    refine ⟨place, mem_placed_all_iff.mp (List.mem_of_find?_eq_some found), here, ?_⟩
    intro earlier other comes reached
    -- An earlier place is listed before, for nothing that is listed after comes earlier.
    have member := mem_placed_all_iff.mpr reached
    rw [split] at member ordered
    rcases List.mem_append.mp member with among | among
    · simpa using passed _ among
    · obtain ⟨-, later, -⟩ := List.pairwise_append.mp ordered
      rcases List.mem_cons.mp among with same | among
      · cases same
        exact absurd comes (List.lex_irrefl Nat.lt_irrefl _)
      · have behind := (List.pairwise_cons.mp later).1 _ among
        exact absurd comes (List.lex_asymm Nat.lt_asymm behind)
  · rintro ⟨place, reached, here, passed⟩
    have member := mem_placed_all_iff.mpr reached
    obtain ⟨before, after, split⟩ := List.append_of_mem member
    refine ⟨(place, node), ?_, rfl⟩
    refine List.find?_eq_some_iff_append.mpr ⟨here, before, after, split, ?_⟩
    rintro ⟨earlier, other⟩ among
    have reached := mem_placed_all_iff.mp (split ▸ List.mem_append_left _ among)
    rw [split] at ordered
    have comes := (List.pairwise_append.mp ordered).2.2 _ among _ List.mem_cons_self
    simpa using passed earlier other comes reached

/-! ## Marks -/

/-- The node is a flaw, or one lies below it. -/
def HoldsFlaw (node : Node) : Prop :=
  ∃ flaw, node.Holds flaw ∧ flaw.isFlaw

/-- Every node that holds a flaw is marked. -/
def MarksFlaws (root : Node) : Prop :=
  ∀ node, root.Holds node → node.HoldsFlaw → node.head.flawed ∨ node.head.missing

/-- No node is marked as holding a flaw that holds none. -/
def MarksOnlyFlaws (root : Node) : Prop :=
  ∀ node, root.Holds node → node.head.flawed → node.HoldsFlaw

/-- Marks that are right for a tree are right for its subtrees. -/
theorem MarksFlaws.ofChild {child : Node} (marked : root.MarksFlaws)
    (member : child ∈ root.children) : child.MarksFlaws :=
  fun node held => marked node (.through member held)

/-- A tree holds a flaw exactly if it lists one. -/
theorem holdsFlaw_iff_any : node.HoldsFlaw ↔ node.preorder.any isFlaw = true := by
  rw [List.any_eq_true]
  constructor
  · rintro ⟨flaw, held, here⟩
    exact ⟨flaw, mem_preorder_iff.mpr held, here⟩
  · rintro ⟨flaw, member, here⟩
    exact ⟨flaw, mem_preorder_iff.mp member, here⟩

instance (node : Node) : Decidable node.HoldsFlaw :=
  decidable_of_iff (node.preorder.any isFlaw = true) holdsFlaw_iff_any.symm

/-- The search of a tree ends without a flaw exactly if there is none. -/
theorem find?_preorder_eq_none_iff : node.preorder.find? isFlaw = none ↔ ¬ node.HoldsFlaw := by
  rw [holdsFlaw_iff_any, List.find?_eq_none, List.any_eq_true]
  constructor
  · rintro clean ⟨flaw, member, here⟩
    exact clean flaw member here
  · intro clean flaw member here
    exact clean ⟨flaw, member, here⟩

/-- What holds of all nodes of a tree is seen on their list. -/
theorem forall_holds_iff_all {test : Node → Bool} :
    (∀ node, root.Holds node → test node = true) ↔ root.preorder.all test = true := by
  rw [List.all_eq_true]
  simp only [mem_preorder_iff]

instance (root : Node) : Decidable root.MarksFlaws :=
  decidable_of_iff
    (root.preorder.all (fun node =>
      decide (node.HoldsFlaw → node.head.flawed ∨ node.head.missing)) = true)
    (forall_holds_iff_all.symm.trans (by simp only [decide_eq_true_eq, MarksFlaws]))

instance (root : Node) : Decidable root.MarksOnlyFlaws :=
  decidable_of_iff
    (root.preorder.all (fun node => decide (node.head.flawed → node.HoldsFlaw)) = true)
    (forall_holds_iff_all.symm.trans (by simp only [decide_eq_true_eq, MarksOnlyFlaws]))

/-- The search takes the root if it is a flaw, and goes through the children otherwise. -/
theorem firstFlaw_eq (node : Node) :
    node.firstFlaw = if node.isFlaw then some node else firstFlawAmong node.children := by
  obtain ⟨head, children⟩ := node
  rw [firstFlaw]
  rfl

mutual

/-- No flaw is missed by passing over what is not marked. -/
theorem firstFlaw_eq_find? : (node : Node) → node.MarksFlaws →
    node.firstFlaw = node.preorder.find? isFlaw
  | mk head children, marked => by
    rw [firstFlaw_eq, preorder_eq]
    by_cases here : (mk head children).isFlaw
    · rw [if_pos here, List.find?_cons_of_pos here]
    · rw [if_neg here, List.find?_cons_of_neg here]
      exact firstFlawAmong_eq_find? children fun _ member => marked.ofChild member

/-- By recursion along the tree: the search through children finds what their listing has first. -/
theorem firstFlawAmong_eq_find? : (nodes : List Node) → (∀ node ∈ nodes, node.MarksFlaws) →
    firstFlawAmong nodes = (nodes.flatMap preorder).find? isFlaw
  | [], _ => rfl
  | node :: rest, marked => by
    obtain ⟨first, marked⟩ := List.forall_mem_cons.mp marked
    rw [firstFlawAmong, List.flatMap_cons, List.find?_append, firstFlawAmong_eq_find? rest marked]
    by_cases mark : node.head.flawed || node.head.missing
    · rw [if_pos mark, firstFlaw_eq_find? node first]
      cases node.preorder.find? isFlaw <;> rfl
    · -- A node without a mark holds no flaw.
      have clean : ¬ node.HoldsFlaw := fun held =>
        mark (by simpa using first node (.self node) held)
      rw [if_neg mark, find?_preorder_eq_none_iff.mpr clean]
      rfl

end

/-! ## Faults -/

/-- The fault of a flaw is known, and it is where the flaw is. -/
theorem flawFault_some (source : Bytes) (flaw : Node) :
    ∃ cause, flawFault source (some flaw) = (cause, flaw.location) ∧
      cause.message ≠ SyntaxFault.unknown.message := by
  rw [flawFault]
  split
  · refine ⟨_, rfl, ?_⟩
    intro same
    have first := congrArg (·.toList.head?) same
    simp [SyntaxFault.message] at first
  · refine ⟨_, rfl, ?_⟩
    split
    · decide
    · intro same
      have first := congrArg (·.toList.head?) same
      simp [SyntaxFault.message] at first

/-- A tree that marks only flaws and is refused is refused at its first flaw. -/
theorem MarksOnlyFlaws.ofTree_cases (only : root.MarksOnlyFlaws) (marked : root.MarksFlaws)
    (source : Bytes) :
    root.head.flawed = false ∧ Document.ofTree source root = .ok ⟨source, root⟩ ∨
      root.head.flawed = true ∧ ∃ flaw cause, root.firstFlaw = some flaw ∧
        Document.ofTree source root = .error (.malformed cause flaw.location) ∧
        cause.message ≠ SyntaxFault.unknown.message := by
  unfold Document.ofTree
  cases mark : root.head.flawed with
  | false => exact .inl ⟨rfl, rfl⟩
  | true =>
      refine .inr ⟨rfl, ?_⟩
      cases found : root.firstFlaw with
      | none =>
          rw [firstFlaw_eq_find? root marked, find?_preorder_eq_none_iff] at found
          exact absurd (only root (.self root) mark) found
      | some flaw =>
          obtain ⟨cause, same, known⟩ := flawFault_some source flaw
          refine ⟨flaw, cause, rfl, ?_, known⟩
          rw [if_pos rfl, same]

/-- **The first flaw is the first in document order.** Where every node that holds a flaw is
marked, the first flaw is the one that a search of all nodes in document order finds: the flaw at
the first place of one. There is none only if the tree holds none. Where only such nodes are marked
as well, a tree that is refused is refused at its first flaw, never for an unknown cause. -/
theorem firstFlaw_is_first {root : Node} (marked : root.MarksFlaws) :
    root.firstFlaw = root.preorder.find? isFlaw ∧
      (root.firstFlaw = none ↔ ¬ root.HoldsFlaw) ∧
      (∀ flaw, root.firstFlaw = some flaw ↔
        ∃ place, root.at? place = some flaw ∧ flaw.isFlaw ∧
          ∀ earlier other, DocumentOrder earlier place → root.at? earlier = some other →
            other.isFlaw = false) ∧
      (root.MarksOnlyFlaws → ∀ source,
        root.head.flawed = false ∧ Document.ofTree source root = .ok ⟨source, root⟩ ∨
          root.head.flawed = true ∧ ∃ flaw cause, root.firstFlaw = some flaw ∧
            Document.ofTree source root = .error (.malformed cause flaw.location) ∧
            cause.message ≠ SyntaxFault.unknown.message) := by
  have searched := firstFlaw_eq_find? root marked
  refine ⟨searched, ?_, fun flaw => ?_, fun only => only.ofTree_cases marked⟩
  · rw [searched, find?_preorder_eq_none_iff]
  · rw [searched, find?_preorder_eq_some_iff]

/-- A script whose second statement lacks its semicolon, with a bracket too many after
it. -/
def unclosedStatement : Node :=
  .mk { kind := .program, span := ⟨0, 6⟩, point := ⟨0, 0⟩, flawed := true }
    [.mk { kind := .expressionStatement, span := ⟨0, 2⟩, point := ⟨0, 0⟩ }
      [.mk { kind := .identifier, span := ⟨0, 1⟩, point := ⟨0, 0⟩ } [],
        .mk { kind := .token ";", span := ⟨1, 2⟩, point := ⟨0, 1⟩, named := false } []],
    .mk { kind := .expressionStatement, span := ⟨3, 4⟩, point := ⟨1, 0⟩, flawed := true }
      [.mk { kind := .identifier, span := ⟨3, 4⟩, point := ⟨1, 0⟩ } [],
        .mk { kind := .token ";", span := ⟨4, 4⟩, point := ⟨1, 1⟩, named := false, missing := true }
          []],
    .mk { kind := .error, span := ⟨5, 6⟩, point := ⟨1, 2⟩, flawed := true } []]

/-- The missing semicolon is found before the bracket, and the script is refused for it. -/
theorem firstFlaw_is_first_missing :
    unclosedStatement.MarksFlaws ∧ unclosedStatement.MarksOnlyFlaws ∧
      ∃ flaw, unclosedStatement.firstFlaw = some flaw ∧
        unclosedStatement.preorder.find? isFlaw = some flaw ∧
        unclosedStatement.at? [1, 1] = some flaw ∧
        Document.ofTree (Utf8.encode "a;\nb )") unclosedStatement =
          .error (.malformed (.missing ";") flaw.location) ∧
        SyntaxFault.message (.missing ";") ≠ SyntaxFault.unknown.message := by
  have marked : unclosedStatement.MarksFlaws := by decide +kernel
  have only : unclosedStatement.MarksOnlyFlaws := by decide +kernel
  obtain ⟨searched, -, -, refused⟩ := firstFlaw_is_first marked
  rcases refused only (Utf8.encode "a;\nb )") with ⟨mark, -⟩ | ⟨-, flaw, cause, found, ended, known⟩
  · cases mark
  · have shown : Document.ofTree (Utf8.encode "a;\nb )") unclosedStatement =
        .error (.malformed (.missing ";") ⟨2, 2⟩) := rfl
    obtain ⟨rfl, -⟩ := Fault.malformed.inj (Except.error.inj (shown.symm.trans ended))
    refine ⟨marked, only, flaw, found, searched.symm.trans found, ?_, ended, known⟩
    rw [← found]
    rfl

end Node

end Codebox
