import Codebox.Return

/-! # The holes of an array

An array may leave out elements. Comments apart, a comma that comes first in the array, or
right after a bracket or another comma, closes a hole. The search for a hole goes over the
children and finds the first one.
-/

namespace Codebox

/-- A comma that closes a hole of an array, after these tokens of it: comments apart, the
comma comes first, or right after a bracket or another comma. -/
structure Node.HoleAfter (array : Node) (before : List Node) (comma : Node) : Prop where
  split : ∃ after, array.children.filter (·.kind ≠ .comment) = before ++ comma :: after
  kind : comma.kind = .comma
  opens : ∀ previous ∈ before.getLast?, previous.kind ∈ [.openBracket, .comma]

/-- The comma of a hole is a child of the array. -/
theorem Node.HoleAfter.mem {array comma : Node} {before : List Node}
    (hole : array.HoleAfter before comma) : comma ∈ array.children := by
  obtain ⟨after, split⟩ := hole.split
  have among : comma ∈ array.children.filter (·.kind ≠ .comment) := by
    rw [split]
    exact List.mem_append_right before List.mem_cons_self
  exact (List.mem_filter.mp among).1

/-- The same among children that follow a child of kind `previous`. -/
structure HoleFrom (previous : Kind) (nodes before : List Node) (comma : Node) : Prop where
  split : ∃ after, nodes.filter (·.kind ≠ .comment) = before ++ comma :: after
  kind : comma.kind = .comma
  opens : (before.getLast?.map Node.kind).getD previous ∈ [.openBracket, .comma]

/-- A hole of an array is one in the row of its children, from its bracket on. -/
theorem holeAfter_iff {array comma : Node} {before : List Node} :
    array.HoleAfter before comma ↔ HoleFrom .openBracket array.children before comma := by
  have opens : (∀ previous ∈ before.getLast?, previous.kind ∈ [Kind.openBracket, .comma]) ↔
      (before.getLast?.map Node.kind).getD .openBracket ∈ [.openBracket, .comma] := by
    cases before.getLast? with
    | none => simp
    | some previous => simp
  exact ⟨fun hole => ⟨hole.split, hole.kind, opens.mp hole.opens⟩,
    fun hole => ⟨hole.split, hole.kind, opens.mpr hole.opens⟩⟩

/-- A hole among children is closed by the first of them, or lies among the others. -/
theorem holeFrom_cons_iff {previous : Kind} {child comma : Node} {rest before : List Node}
    (solid : child.kind ≠ .comment) :
    HoleFrom previous (child :: rest) before comma ↔
      (before = [] ∧ comma = child ∧ child.kind = .comma ∧ previous ∈ [.openBracket, .comma]) ∨
        ∃ more, before = child :: more ∧ HoleFrom child.kind rest more comma := by
  have kept : (child :: rest).filter (·.kind ≠ .comment) =
      child :: rest.filter (·.kind ≠ .comment) := List.filter_cons_of_pos (by simpa using solid)
  have last : ∀ more : List Node, ((child :: more).getLast?.map Node.kind).getD previous =
      (more.getLast?.map Node.kind).getD child.kind := by
    intro more
    rw [List.getLast?_cons]
    cases more.getLast? <;> rfl
  constructor
  · rintro ⟨⟨after, split⟩, kind, opens⟩
    rw [kept] at split
    cases before with
    | nil =>
        cases split
        exact .inl ⟨rfl, rfl, kind, opens⟩
    | cons first more =>
        obtain ⟨rfl, others⟩ := List.cons.inj split
        rw [last] at opens
        exact .inr ⟨more, rfl, ⟨after, others⟩, kind, opens⟩
  · rintro (⟨rfl, rfl, kind, opens⟩ | ⟨more, rfl, ⟨after, split⟩, kind, opens⟩)
    · exact ⟨⟨_, kept⟩, kind, opens⟩
    · rw [← last] at opens
      exact ⟨⟨after, by rw [kept, split]; rfl⟩, kind, opens⟩

/-- The search for a hole finds the first one, by induction on the children. -/
theorem firstHole?_finds (nodes : List Node) (previous : Kind) :
    (firstHole? previous nodes = none ∧ ∀ before comma, ¬ HoleFrom previous nodes before comma) ∨
      ∃ before comma, firstHole? previous nodes = some comma ∧
        HoleFrom previous nodes before comma ∧
        ∀ other later, HoleFrom previous nodes other later → before.length ≤ other.length := by
  induction nodes generalizing previous with
  | nil =>
      refine .inl ⟨rfl, ?_⟩
      rintro before comma ⟨⟨after, split⟩, -⟩
      simp at split
  | cons child rest ih =>
      by_cases comment : child.kind = .comment
      · have same : ∀ before comma, HoleFrom previous (child :: rest) before comma ↔
            HoleFrom previous rest before comma := by
          have gone : (child :: rest).filter (·.kind ≠ .comment) =
              rest.filter (·.kind ≠ .comment) := List.filter_cons_of_neg (by simpa using comment)
          intro before comma
          constructor
          · exact fun hole => ⟨gone ▸ hole.split, hole.kind, hole.opens⟩
          · exact fun hole => ⟨gone.symm ▸ hole.split, hole.kind, hole.opens⟩
        simp only [firstHole?, if_pos comment, same]
        exact ih previous
      · simp only [firstHole?, if_neg comment, holeFrom_cons_iff comment]
        by_cases hole : child.kind = .comma ∧ (previous = .openBracket ∨ previous = .comma)
        · exact .inr ⟨[], child, if_pos hole, .inl ⟨rfl, rfl, hole.1, by simpa using hole.2⟩,
            fun _ _ _ => Nat.zero_le _⟩
        · rw [if_neg hole]
          -- The child closes no hole, so all holes lie among the others.
          have apart : ¬ (child.kind = .comma ∧ previous ∈ [Kind.openBracket, .comma]) := by
            simpa using hole
          rcases ih child.kind with ⟨absent, none⟩ | ⟨before, comma, found, first, least⟩
          · refine .inl ⟨absent, ?_⟩
            rintro before comma (⟨-, -, kind, opens⟩ | ⟨more, -, hole⟩)
            · exact apart ⟨kind, opens⟩
            · exact none more comma hole
          · refine .inr ⟨child :: before, comma, found, .inr ⟨before, rfl, first⟩, ?_⟩
            rintro other later (⟨-, -, kind, opens⟩ | ⟨more, rfl, hole⟩)
            · exact (apart ⟨kind, opens⟩).elim
            · exact Nat.succ_le_succ (least more later hole)

/-- An array has no hole exactly if the search finds none. -/
theorem firstHole?_eq_none_iff {array : Node} : firstHole? .openBracket array.children = none ↔
    ∀ before comma, ¬ array.HoleAfter before comma := by
  simp only [holeAfter_iff]
  rcases firstHole?_finds array.children .openBracket with ⟨absent, none⟩ |
    ⟨before, comma, found, hole, -⟩
  · exact ⟨fun _ => none, fun _ => absent⟩
  · rw [found]
    constructor
    · rintro ⟨⟩
    · exact fun none => (none before comma hole).elim

/-- The search finds the comma of the first hole. -/
theorem firstHole?_eq_some_iff {array comma : Node} :
    firstHole? .openBracket array.children = some comma ↔
      ∃ before, array.HoleAfter before comma ∧
        ∀ other later, array.HoleAfter other later → before.length ≤ other.length := by
  simp only [holeAfter_iff]
  rcases firstHole?_finds array.children .openBracket with ⟨absent, none⟩ |
    ⟨before, first, found, hole, least⟩
  · rw [absent]
    constructor
    · rintro ⟨⟩
    · rintro ⟨before, hole, -⟩
      exact (none before comma hole).elim
  · rw [found]
    constructor
    · rintro ⟨⟩
      exact ⟨before, hole, least⟩
    · rintro ⟨other, hole', least'⟩
      -- Two first holes come after equally many tokens.
      have length := Nat.le_antisymm (least other comma hole') (least' before first hole)
      obtain ⟨after, split⟩ := hole.split
      obtain ⟨after', split'⟩ := hole'.split
      obtain ⟨-, same⟩ := List.append_inj (split.symm.trans split') length
      rw [(List.cons.inj same).1]

/-- Comments make no difference to the search. -/
theorem firstHole?_filter (previous : Kind) (nodes : List Node) :
    firstHole? previous (nodes.filter (·.kind ≠ .comment)) = firstHole? previous nodes := by
  induction nodes generalizing previous with
  | nil => rfl
  | cons node rest ih =>
      by_cases comment : node.kind = .comment
      · rw [List.filter_cons_of_neg (by simpa using comment), ih, firstHole?, if_pos comment]
      · rw [List.filter_cons_of_pos (by simpa using comment), firstHole?, firstHole?,
          if_neg comment, if_neg comment, ih]

end Codebox
