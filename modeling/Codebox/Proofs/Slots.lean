import Codebox.Proofs.Earliest

/-! # The slots of an array

Between its brackets an array is a sequence of slots. A comma closes every slot but the last,
which it may close, too. A slot holds an element, or nothing but the comma that closes it, and
then it is a hole. Comments may stand anywhere between the tokens. The elements of an array are
those of its slots, and an array with a hole is refused at the comma of the first one.
-/

namespace Codebox

namespace Node

/-- An expression that can be an element of an array: a construct that is no comment. -/
structure IsElement (node : Node) : Prop where
  named : node.head.named = true
  solid : node.kind ≠ .comment
  not_comma : node.kind ≠ .comma
  not_bracket : node.kind ≠ .openBracket

/-- A mere token of a kind. -/
structure IsToken (kind : Kind) (node : Node) : Prop where
  kind : node.kind = kind
  unnamed : node.head.named = false

end Node

/-- A slot that a comma closes. Without an element it is a hole. -/
structure Slot where
  element? : Option Node
  comma : Node
  solid : ∀ element ∈ element?, element.IsElement
  closes : comma.IsToken .comma

/-- The tokens of a slot. -/
def Slot.tokens (slot : Slot) : List Node :=
  slot.element?.toList ++ [slot.comma]

/-- A sequence of slots. The last element stands alone if no comma closes its slot. -/
structure Slots where
  closed : List Slot
  last? : Option Node
  solid : ∀ element ∈ last?, element.IsElement

namespace Slots

variable {slots : Slots} {array : Node}

/-- How many slots there are. -/
def count (slots : Slots) : Nat :=
  slots.closed.length + slots.last?.toList.length

/-- The elements of the slots that are no holes. -/
def elements (slots : Slots) : List Node :=
  slots.closed.filterMap Slot.element? ++ slots.last?.toList

/-- The tokens of the slots, without comments. -/
def tokens (slots : Slots) : List Node :=
  slots.closed.flatMap Slot.tokens ++ slots.last?.toList

/-- No slot is a hole. -/
def Full (slots : Slots) : Prop :=
  ∀ slot ∈ slots.closed, slot.element?.isSome

/-- An array is written with these slots: comments apart, its children are their tokens
between brackets. -/
structure Fill (slots : Slots) (array : Node) : Prop where
  kind : array.kind = .array
  children : ∃ opening closing : Node, opening.IsToken .openBracket ∧
    closing.IsToken (.token "]") ∧
    array.children.filter (·.kind ≠ .comment) = opening :: (slots.tokens ++ [closing])

/-! ## Elements -/

/-- Of the tokens and elements of slots, the elements are the named ones. -/
theorem filter_named_tokens (slots : Slots) :
    slots.tokens.filter (·.head.named) = slots.elements := by
  obtain ⟨closed, last?, solid⟩ := slots
  have lone : last?.toList.filter (·.head.named) = last?.toList := by
    apply List.filter_eq_self.mpr
    intro element member
    exact (solid element (by simpa using member)).named
  unfold tokens elements
  rw [List.filter_append, lone]
  congr 1
  induction closed with
  | nil => rfl
  | cons slot rest ih =>
      have comma : slot.comma.head.named = false := slot.closes.unnamed
      rw [List.flatMap_cons, List.filter_append, ih, Slot.tokens, List.filter_append]
      cases found : slot.element? with
      | none => simp [comma, found]
      | some element =>
          have named : element.head.named = true := (slot.solid element found).named
          simp [comma, named, found]

/-- The parts of an array are the elements of its slots. -/
theorem Fill.parts (filled : slots.Fill array) : array.parts = slots.elements := by
  obtain ⟨opening, closing, opens, closes, children⟩ := filled.children
  unfold Node.parts Node.namedChildren
  rw [List.filter_filter]
  simp only [Bool.and_comm]
  rw [← List.filter_filter, children, List.filter_cons_of_neg (by simp [opens.unnamed]),
    List.filter_append, filter_named_tokens, List.filter_cons_of_neg (by simp [closes.unnamed])]
  simp

/-- Without holes there are as many elements as slots. -/
theorem Full.length_elements (full : slots.Full) : slots.elements.length = slots.count := by
  unfold elements count
  rw [List.length_append, List.length_filterMap_eq_countP, List.countP_eq_length.mpr full]

/-! ## Holes -/

/-- A comma after a token of this kind closes a hole. -/
def Opens (previous : Kind) : Prop :=
  previous = .openBracket ∨ previous = .comma

/-- A comma right after an opening mark or another comma marks a hole. -/
theorem firstHole?_comma {previous : Kind} {comma : Node} (opens : Opens previous)
    (closes : comma.IsToken .comma) (rest : List Node) :
    firstHole? previous (comma :: rest) = some comma := by
  rw [firstHole?, if_neg (by simp [closes.kind]), if_pos ⟨closes.kind, opens⟩]

/-- After an element neither a comma nor anything else closes a hole. -/
theorem firstHole?_element {previous : Kind} {element next : Node} (solid : element.IsElement)
    (follows : next.kind ≠ .comment) (rest : List Node) :
    firstHole? previous (element :: next :: rest) = firstHole? next.kind rest := by
  have apart : ¬ Opens element.kind := by
    simp [Opens, solid.not_comma, solid.not_bracket]
  rw [firstHole?, if_neg solid.solid, if_neg fun hole => solid.not_comma hole.1, firstHole?,
    if_neg follows, if_neg fun hole => apart hole.2]

/-- Slots with elements are passed over, and the next slot starts after a comma. -/
theorem exists_firstHole?_closed {closed : List Slot} {previous : Kind} (opens : Opens previous)
    (full : ∀ slot ∈ closed, slot.element?.isSome) (rest : List Node) :
    ∃ next, Opens next ∧
      firstHole? previous (closed.flatMap Slot.tokens ++ rest) = firstHole? next rest := by
  induction closed generalizing previous with
  | nil => exact ⟨previous, opens, rfl⟩
  | cons slot others ih =>
      obtain ⟨here, full⟩ := List.forall_mem_cons.mp full
      obtain ⟨element, found⟩ := Option.isSome_iff_exists.mp here
      obtain ⟨next, opensNext, passed⟩ := ih (.inr slot.closes.kind) full
      refine ⟨next, opensNext, ?_⟩
      rw [← passed, List.flatMap_cons, Slot.tokens, found]
      exact firstHole?_element (slot.solid element found) (by simp [slot.closes.kind]) _

/-- The search for a hole starts after the opening bracket and passes over comments. -/
theorem Fill.firstHole? (filled : slots.Fill array) :
    ∃ closing : Node, closing.IsToken (.token "]") ∧
      Codebox.firstHole? .openBracket array.children =
        Codebox.firstHole? .openBracket (slots.tokens ++ [closing]) := by
  obtain ⟨opening, closing, opens, closes, children⟩ := filled.children
  refine ⟨closing, closes, ?_⟩
  rw [← firstHole?_filter, children, Codebox.firstHole?, if_neg (by simp [opens.kind]),
    if_neg (by simp [opens.kind]), opens.kind]

/-- An array whose slots are all filled has no hole. -/
theorem Fill.firstHole?_of_full (filled : slots.Fill array) (full : slots.Full) :
    Codebox.firstHole? .openBracket array.children = none := by
  obtain ⟨closing, closes, search⟩ := filled.firstHole?
  obtain ⟨next, -, passed⟩ :=
    exists_firstHole?_closed (.inl rfl) full (slots.last?.toList ++ [closing])
  rw [search, tokens, List.append_assoc, passed]
  cases found : slots.last? with
  | none =>
      simp [Codebox.firstHole?, closes.kind]
  | some element =>
      exact firstHole?_element (slots.solid element found) (by simp [closes.kind]) []

/-- The first hole is at the comma of the first empty slot. -/
theorem Fill.firstHole?_of_hole (filled : slots.Fill array) {before after : List Slot} {hole : Slot}
    (split : slots.closed = before ++ hole :: after)
    (full : ∀ slot ∈ before, slot.element?.isSome) (empty : hole.element? = none) :
    Codebox.firstHole? .openBracket array.children = some hole.comma := by
  obtain ⟨closing, -, search⟩ := filled.firstHole?
  obtain ⟨next, opens, passed⟩ := exists_firstHole?_closed (.inl rfl) full
    (hole.comma :: (after.flatMap Slot.tokens ++ (slots.last?.toList ++ [closing])))
  have tokens : slots.tokens ++ [closing] = before.flatMap Slot.tokens ++
      hole.comma :: (after.flatMap Slot.tokens ++ (slots.last?.toList ++ [closing])) := by
    unfold Slots.tokens
    rw [split, List.flatMap_append, List.flatMap_cons, Slot.tokens, empty]
    simp
  rw [search, tokens, passed, firstHole?_comma opens hole.closes]

/-! ## Arrays -/

/-- The elements of an array without empty slots are those of the slots. -/
theorem Fill.arrayElements_of_full (filled : slots.Fill array) (full : slots.Full) :
    arrayElements array = .ok (some slots.elements) := by
  unfold arrayElements
  rw [if_pos filled.kind, filled.firstHole?_of_full full, filled.parts]

/-- An array with an empty slot is refused at its comma. -/
theorem Fill.arrayElements_of_hole (filled : slots.Fill array) {before after : List Slot}
    {hole : Slot} (split : slots.closed = before ++ hole :: after)
    (full : ∀ slot ∈ before, slot.element?.isSome) (empty : hole.element? = none) :
    arrayElements array = .error (.unsupported .arrayHole hole.comma.location) := by
  unfold arrayElements
  rw [if_pos filled.kind, filled.firstHole?_of_hole split full empty]

/-- A statement that returns an array returns its elements. -/
theorem returnedElements_of_argument {statement : Node}
    (returned : statement.parts.head? = some array) :
    returnedElements statement = arrayElements array := by
  unfold returnedElements returnArgument?
  rw [returned]

/-- A returned array is written as the texts of its elements. -/
theorem returnEdit_of_elements {source : Bytes} {statement : Node} {elements : List Node}
    {texts : List String} {whole : String}
    (found : returnedElements statement = .ok (some elements))
    (read : elements.mapM (·.text source) = .ok texts)
    (readWhole : statement.text source = .ok whole) :
    returnEdit source statement = .ok (some ⟨statement.span, "return " ++ Text.joined ", " texts ++
      if endsWithSemicolon whole then ";" else ""⟩) := by
  unfold returnEdit
  rw [found, Outcome.bind_ok]
  simp only [read, readWhole, Outcome.bind_ok]
  rfl

end Slots

/-- **Slots decide what an array returns.** If no slot of an array is a hole, its elements are
those of its slots, one for each, and a return of the array is expanded to their texts, joined
by commas. Otherwise the array is refused at the comma that closes the first hole, and so is
every return of it. -/
theorem arrayElements_decides_holes (slots : Slots) (array : Node) (filled : slots.Fill array) :
    (slots.Full → arrayElements array = .ok (some slots.elements) ∧
      slots.elements.length = slots.count ∧
      ∀ source statement whole, statement.parts.head? = some array →
        (∀ element ∈ slots.elements, ∃ text, element.text source = .ok text) →
        statement.text source = .ok whole →
        ∃ texts, List.Forall₂ (fun element text => element.text source = .ok text)
            slots.elements texts ∧ texts.length = slots.count ∧
          returnEdit source statement = .ok (some ⟨statement.span,
            "return " ++ Text.joined ", " texts ++
              if endsWithSemicolon whole then ";" else ""⟩)) ∧
    ∀ before hole after, slots.closed = before ++ hole :: after →
      (∀ slot ∈ before, slot.element?.isSome) → hole.element? = none →
      arrayElements array = .error (.unsupported .arrayHole hole.comma.location) ∧
        ∀ source statement, statement.parts.head? = some array →
          returnEdit source statement = .error (.unsupported .arrayHole hole.comma.location) := by
  constructor
  · intro full
    have elements := filled.arrayElements_of_full full
    refine ⟨elements, full.length_elements, ?_⟩
    intro source statement whole returned readable readWhole
    obtain ⟨texts, read⟩ := Outcome.exists_mapM_iff.mpr readable
    have each := Outcome.mapM_eq_ok_iff.mp read
    refine ⟨texts, each, ?_, ?_⟩
    · rw [← each.length_eq, full.length_elements]
    · rw [← Slots.returnedElements_of_argument returned] at elements
      exact Slots.returnEdit_of_elements elements read readWhole
  · intro before hole after split full empty
    have refused := filled.arrayElements_of_hole split full empty
    refine ⟨refused, ?_⟩
    intro source statement returned
    unfold returnEdit
    rw [Slots.returnedElements_of_argument returned, refused, Outcome.bind_error]

/-- Two slots, both closed, with a comment before the first comma, and the same with a hole
between them. -/
theorem arrayElements_decides_holes_comment :
    let token := fun (kind : Kind) (start : Nat) =>
      Node.mk { kind, span := ⟨start, start + 1⟩, point := ⟨0, start⟩, named := false } []
    let name := fun start : Nat =>
      Node.mk { kind := .identifier, span := ⟨start, start + 1⟩, point := ⟨0, start⟩ } []
    let comment := Node.mk { kind := .comment, span := ⟨9, 13⟩, point := ⟨0, 9⟩ } []
    let array := fun children : List Node =>
      Node.mk { kind := .array, span := ⟨7, 17⟩, point := ⟨0, 7⟩ } children
    let full := array [token .openBracket 7, name 8, comment, token .comma 13, name 14,
      token .comma 15, token (.token "]") 16]
    let holed := array [token .openBracket 7, name 8, comment, token .comma 13, token .comma 14,
      name 15, token (.token "]") 16]
    let statement := Node.mk { kind := .returnStatement, span := ⟨0, 18⟩, point := ⟨0, 0⟩ }
      [full, token (.token ";") 17]
    arrayElements full = .ok (some [name 8, name 14]) ∧
      returnEdit (Utf8.encode "return [a/**/,b,];") statement =
        .ok (some ⟨⟨0, 18⟩, "return a, b;"⟩) ∧
      arrayElements holed = .error (.unsupported .arrayHole ⟨1, 15⟩) := by
  intro token name comment array full holed statement
  have element : ∀ start, (name start).IsElement := fun start =>
    ⟨rfl, nofun, nofun, nofun⟩
  have filled : ∀ start, ∀ found ∈ some (name start), Node.IsElement found := by
    rintro start _ ⟨⟩
    exact element start
  have comma : ∀ start, (token .comma start).IsToken .comma := fun start => ⟨rfl, rfl⟩
  let first : Slot := ⟨some (name 8), token .comma 13, filled 8, comma 13⟩
  let second : Slot := ⟨some (name 14), token .comma 15, filled 14, comma 15⟩
  let hole : Slot := ⟨none, token .comma 14, nofun, comma 14⟩
  obtain ⟨decided, -⟩ := arrayElements_decides_holes ⟨[first, second], none, nofun⟩ full
    ⟨rfl, token .openBracket 7, token (.token "]") 16, ⟨rfl, rfl⟩, ⟨rfl, rfl⟩, rfl⟩
  obtain ⟨elements, -, expanded⟩ := decided (by simp [Slots.Full, first, second])
  obtain ⟨-, refused⟩ :=
    arrayElements_decides_holes ⟨[first, hole], some (name 15), filled 15⟩ holed
    ⟨rfl, token .openBracket 7, token (.token "]") 16, ⟨rfl, rfl⟩, ⟨rfl, rfl⟩, rfl⟩
  have read : [name 8, name 14].mapM (·.text (Utf8.encode "return [a/**/,b,];")) =
      .ok ["a", "b"] := by decide +kernel
  obtain ⟨texts, each, -, edit⟩ := expanded (Utf8.encode "return [a/**/,b,];") statement
    "return [a/**/,b,];" rfl (Outcome.exists_mapM_iff.mp ⟨_, read⟩) (by decide +kernel)
  cases (Outcome.mapM_eq_ok_iff.mpr each).symm.trans read
  exact ⟨elements, edit, (refused [first] hole [] rfl (by simp [first]) rfl).1⟩

end Codebox
