import Codebox.Proofs.Printer

/-! # Places of returns in a text

Where a script returns an array, its text has the word `return`, and after blanks a bracket or a
comment. Such places can be counted without reading the script. The word does not overlap with
itself, so the count of a text that is cut before a `return` is that of its parts.
-/

namespace Codebox

/-! ## The first place of a word -/

/-- The bytes of a text from the first place on where a word stands. -/
def Bytes.fromFirst (word : Bytes) : Bytes → Bytes
  | [] => []
  | byte :: rest =>
    if word.isPrefixOf (byte :: rest) then byte :: rest else fromFirst word rest

/-- What comes before the first place of a word is as short as can be. -/
theorem Bytes.exists_fromFirst (word bytes : Bytes) :
    ∃ front, bytes = front ++ fromFirst word bytes ∧
      (∀ count, word <+: bytes.drop count → front.length ≤ count) ∧
      (fromFirst word bytes = [] ∨ word <+: fromFirst word bytes) := by
  induction bytes with
  | nil => exact ⟨[], rfl, fun _ _ => Nat.zero_le _, .inl rfl⟩
  | cons byte rest ih =>
      unfold fromFirst
      split
      next stands =>
        exact ⟨[], rfl, fun _ _ => Nat.zero_le _, .inr (List.isPrefixOf_iff_prefix.mp stands)⟩
      next absent =>
        obtain ⟨front, split, least, stands⟩ := ih
        refine ⟨byte :: front, congrArg (byte :: ·) split, fun count starts => ?_, stands⟩
        cases count with
        | zero => exact absurd (List.isPrefixOf_iff_prefix.mpr starts) absent
        | succ count => exact Nat.succ_le_succ (least count starts)

/-- A word that stands at no place before is found where it stands. -/
theorem Bytes.fromFirst_append {word front back : Bytes} (stands : word <+: back)
    (absent : ∀ count < front.length, ¬ word <+: (front ++ back).drop count) :
    fromFirst word (front ++ back) = back := by
  induction front with
  | nil =>
      cases back with
      | nil => rfl
      | cons byte rest => exact if_pos (List.isPrefixOf_iff_prefix.mpr stands)
  | cons byte rest ih =>
      have here := absent 0 (Nat.zero_lt_succ _)
      rw [List.cons_append, fromFirst, if_neg]
      · exact ih fun count less => absent (count + 1) (Nat.succ_lt_succ less)
      · exact fun found => here (List.isPrefixOf_iff_prefix.mp found)

/-- A word that is found after a front is found there in every text with that front and the word
after it. -/
theorem Bytes.fromFirst_of_front {word front first second : Bytes}
    (least : ∀ count, word <+: (front ++ first).drop count → front.length ≤ count)
    (stands : word <+: first) (kept : word <+: second) :
    fromFirst word (front ++ second) = second := by
  refine fromFirst_append kept fun count less found => ?_
  obtain ⟨before, rfl⟩ := stands
  obtain ⟨after, rfl⟩ := kept
  rw [List.drop_append_of_le_length (Nat.le_of_lt less), ← List.append_assoc] at found
  -- Up to the end of the word the two texts are the same.
  have common : word <+: front.drop count ++ word :=
    List.prefix_of_prefix_length_le found (List.prefix_append _ _) (by simp)
  have earlier : word <+: (front ++ (word ++ before)).drop count := by
    rw [List.drop_append_of_le_length (Nat.le_of_lt less), ← List.append_assoc]
    exact common.trans (List.prefix_append _ _)
  exact absurd (least count earlier) (Nat.not_le.mpr less)

/-- The two parts of a text, as cut from it. -/
theorem Bytes.cut_of_append {bytes front back : Bytes} (split : bytes = front ++ back) :
    bytes.cut ⟨0, front.length⟩ = front ∧ bytes.cut ⟨front.length, bytes.length⟩ = back := by
  subst split
  constructor
  · rw [cut_eq _ (Int.le_refl 0) (Int.natCast_nonneg _)]
    simp
  · have stops : (front ++ back).length - front.length = back.length := by
      rw [List.length_append, Nat.add_sub_cancel_left]
    rw [cut_eq _ (Int.natCast_nonneg _) (by rw [List.length_append]; omega), Int.toNat_natCast,
      Int.toNat_natCast, List.drop_left, stops, List.take_length]

/-! ## The keyword -/

/-- The bytes of the keyword of a return statement. -/
def returnWord : Bytes :=
  Utf8.encode "return"

/-- The keyword does not overlap with itself. -/
theorem length_returnWord_le {bytes : Bytes} {count : Nat} (first : returnWord <+: bytes)
    (second : returnWord <+: bytes.drop count) (later : 0 < count) :
    returnWord.length ≤ count := by
  have letters : returnWord = [0x72, 0x65, 0x74, 0x75, 0x72, 0x6E] := by decide
  rw [letters] at first second ⊢
  obtain ⟨rest, rfl⟩ := first
  by_contra short
  simp only [List.length_cons, List.length_nil, Nat.not_le] at short
  obtain rfl | rfl | rfl | rfl | rfl :
      count = 1 ∨ count = 2 ∨ count = 3 ∨ count = 4 ∨ count = 5 := by
    omega
  all_goals simp [List.cons_prefix_cons] at second

/-! ## Places where an array may be returned -/

/-- What may come between the keyword and an array: the bracket of the array, or a comment. -/
def arrayMarks : List String :=
  "[" :: commentMarks

/-- Whether a text starts with `return`, blanks, and a bracket or a comment. -/
def startsArrayReturn (bytes : Bytes) : Bool :=
  returnWord.isPrefixOf bytes && arrayMarks.any fun mark =>
    (Utf8.encode mark).isPrefixOf ((bytes.drop returnWord.length).dropWhile isBlankByte)

/-- How many places in a part of a text start so, where `after` is the text after it. -/
def arrayReturnsBefore (after : Bytes) : Bytes → Nat
  | [] => 0
  | byte :: rest =>
    (if startsArrayReturn (byte :: rest ++ after) then 1 else 0) + arrayReturnsBefore after rest

/-- How many places of a text start with `return`, blanks, and a bracket or a comment. -/
def arrayReturns (bytes : Bytes) : Nat :=
  arrayReturnsBefore [] bytes

variable {front middle back : Bytes}

/-- A return of an array is the keyword, blanks, and a mark an array may open with. -/
theorem startsArrayReturn_iff {bytes : Bytes} :
    startsArrayReturn bytes ↔ ∃ rest, bytes = returnWord ++ rest ∧
      ∃ mark ∈ arrayMarks, (Utf8.encode mark).isPrefixOf (rest.dropWhile isBlankByte) := by
  unfold startsArrayReturn
  rw [Bool.and_eq_true, List.any_eq_true]
  constructor
  · rintro ⟨word, mark⟩
    obtain ⟨rest, rfl⟩ := List.isPrefixOf_iff_prefix.mp word
    rw [List.drop_left] at mark
    exact ⟨rest, rfl, mark⟩
  · rintro ⟨rest, rfl, mark⟩
    rw [List.drop_left]
    exact ⟨List.isPrefixOf_iff_prefix.mpr (List.prefix_append _ _), mark⟩

/-- Blanks end at the latest where something visible follows. -/
theorem dropWhile_isBlankByte_append {byte : UInt8} {rest : Bytes}
    (visible : isBlankByte byte = false) :
    (front ++ byte :: rest).dropWhile isBlankByte =
      front.dropWhile isBlankByte ++ byte :: rest := by
  rw [List.dropWhile_append]
  split
  next empty =>
    rw [List.isEmpty_iff.mp empty, List.nil_append, List.dropWhile_cons_of_neg (by simp [visible])]
  next => rfl

/-- What a text starts with is found in a longer one. -/
theorem startsArrayReturn_append (starts : startsArrayReturn front) :
    startsArrayReturn (front ++ back) := by
  have filled : ∀ mark ∈ arrayMarks, Utf8.encode mark ≠ [] := by decide
  obtain ⟨rest, rfl, mark, member, found⟩ := startsArrayReturn_iff.mp starts
  have ahead := List.isPrefixOf_iff_prefix.mp found
  have visible : rest.dropWhile isBlankByte ≠ [] := by
    intro empty
    rw [empty] at ahead
    exact filled mark member (List.prefix_nil.mp ahead)
  refine startsArrayReturn_iff.mpr ⟨rest ++ back, List.append_assoc _ _ _, mark, member, ?_⟩
  rw [List.dropWhile_append, if_neg (by simpa using visible), List.isPrefixOf_iff_prefix]
  exact ahead.trans (List.prefix_append _ _)

/-- A word without a byte is found before that byte or not at all. -/
theorem isPrefixOf_append_cons {word rest : Bytes} {byte : UInt8} (absent : byte ∉ word) :
    word.isPrefixOf (front ++ byte :: rest) = word.isPrefixOf front := by
  induction front generalizing word with
  | nil =>
      cases word with
      | nil => rfl
      | cons first word =>
          have other : first ≠ byte := fun same => absent (same ▸ List.mem_cons_self)
          simp [List.isPrefixOf, other]
  | cons next front ih =>
      cases word with
      | nil => rfl
      | cons first word =>
          have others : byte ∉ word := fun member => absent (List.mem_cons_of_mem _ member)
          simp [List.isPrefixOf, ih others]

/-- What starts with the keyword makes no difference to what comes before it. -/
theorem startsArrayReturn_append_word (some : front ≠ []) (word : returnWord <+: back) :
    startsArrayReturn (front ++ back) = startsArrayReturn front := by
  have letters : returnWord = 0x72 :: [0x65, 0x74, 0x75, 0x72, 0x6E] := by decide
  have absent : ∀ mark ∈ arrayMarks, 0x72 ∉ Utf8.encode mark := by decide
  rw [Bool.eq_iff_iff]
  refine ⟨fun starts => ?_, startsArrayReturn_append⟩
  obtain ⟨rest, parts, mark, member, found⟩ := startsArrayReturn_iff.mp starts
  -- The keyword does not reach into the one that follows, so it lies before that.
  have first : returnWord <+: front ++ back := parts ▸ List.prefix_append _ _
  have second : returnWord <+: (front ++ back).drop front.length := by
    rwa [List.drop_left]
  have apart := length_returnWord_le first second (List.length_pos_iff.mpr some)
  obtain ⟨inner, rfl⟩ := List.prefix_of_prefix_length_le first (List.prefix_append _ _) apart
  rw [List.append_assoc] at parts
  obtain rfl : inner ++ back = rest := List.append_cancel_left parts
  obtain ⟨more, rfl⟩ := word
  rw [letters, List.cons_append, dropWhile_isBlankByte_append (by decide),
    isPrefixOf_append_cons (absent mark member)] at found
  exact startsArrayReturn_iff.mpr ⟨inner, rfl, mark, member, found⟩

/-- The places of two texts in a row are those of the first, before the second, and of the second.
-/
theorem arrayReturnsBefore_append (after first second : Bytes) :
    arrayReturnsBefore after (first ++ second) =
      arrayReturnsBefore (second ++ after) first + arrayReturnsBefore after second := by
  induction first with
  | nil => exact (Nat.zero_add _).symm
  | cons byte rest ih =>
      rw [List.cons_append, arrayReturnsBefore, arrayReturnsBefore, ih, Nat.add_assoc,
        List.cons_append, List.cons_append, List.append_assoc]

/-- The places of a text are those of its parts, each read with what follows it. -/
theorem arrayReturns_append (first second : Bytes) :
    arrayReturns (first ++ second) = arrayReturnsBefore second first + arrayReturns second := by
  unfold arrayReturns
  rw [arrayReturnsBefore_append, List.append_nil]

/-- What starts with the keyword makes no difference to what comes before it. -/
theorem arrayReturnsBefore_append_word (word : returnWord <+: back) :
    arrayReturnsBefore (middle ++ back) front = arrayReturnsBefore middle front := by
  induction front with
  | nil => rfl
  | cons byte rest ih =>
      have here : startsArrayReturn (byte :: rest ++ (middle ++ back)) =
          startsArrayReturn (byte :: rest ++ middle) := by
        rw [← List.append_assoc]
        exact startsArrayReturn_append_word (List.cons_ne_nil _ _) word
      rw [arrayReturnsBefore, arrayReturnsBefore, here, ih]

/-- What comes before the keyword counts on its own. -/
theorem arrayReturnsBefore_of_word (word : returnWord <+: back) :
    arrayReturnsBefore back front = arrayReturns front :=
  @arrayReturnsBefore_append_word front [] back word

/-- A text counts itself if it starts so. -/
theorem arrayReturnsBefore_pos (starts : startsArrayReturn front) (after : Bytes) :
    0 < arrayReturnsBefore after front := by
  cases front with
  | nil => cases starts
  | cons byte rest =>
      rw [arrayReturnsBefore, if_pos (startsArrayReturn_append starts), Nat.add_comm]
      exact Nat.succ_pos _

/-- A place where an array may be returned counts in the text around it. -/
theorem arrayReturns_pos {source : Bytes} {span : Span} (nonneg : 0 ≤ span.start)
    (order : span.start ≤ span.stop) (most : span.stop ≤ source.length)
    (starts : startsArrayReturn (source.cut span)) : 0 < arrayReturns source := by
  have whole := source.cut_append_cut (Int.le_refl 0) nonneg (Int.le_trans order most)
  rw [← source.cut_append_cut nonneg order most, source.cut_whole] at whole
  have here : 0 < arrayReturnsBefore (source.cut ⟨span.stop, source.length⟩)
      (source.cut ⟨span.start, span.stop⟩) := arrayReturnsBefore_pos starts _
  rw [← whole, arrayReturns_append, arrayReturns_append]
  omega

/-! ## Statements -/

variable {source : Bytes} {node : Node}

/-- A returned array is a part of its statement. -/
theorem Node.returnedArray?_eq_some {elements : List Node}
    (returned : node.returnedArray? = some elements) :
    ∃ array ∈ node.parts, array.kind = .array ∧ array.parts = elements := by
  unfold Node.returnedArray? at returned
  split at returned
  · obtain ⟨array, found, same⟩ := Option.map_eq_some_iff.mp returned
    obtain ⟨first, kind⟩ := Option.filter_eq_some_iff.mp found
    exact ⟨array, List.mem_of_mem_head? first, by simpa using kind, same⟩
  · cases returned

/-- The text of an array or a comment starts with its mark. -/
theorem Node.Sound.exists_mark (sound : node.Sound source)
    (sort : node.kind = .array ∨ node.kind.isTrivia) :
    ∃ mark ∈ arrayMarks, Utf8.encode mark <+: source.cut node.span := by
  rcases sort with array | trivia
  · obtain ⟨opening, rest, children, -, -, starts, written⟩ := sound.shaped.array array
    refine ⟨"[", List.mem_cons_self, ?_⟩
    have row := sound.row
    rw [children] at row
    obtain ⟨-, order, row⟩ := row
    have covered : source.cut ⟨node.span.start, opening.span.stop⟩ = Utf8.encode "[" := by
      rw [← starts]
      exact written
    have joined := source.cut_append_cut sound.starts.nonneg (starts ▸ order) row.le
    change _ <+: source.cut ⟨node.span.start, node.span.stop⟩
    rw [← joined, covered]
    exact List.prefix_append _ _
  · obtain ⟨-, mark, member, written⟩ := sound.shaped.trivia trivia
    exact ⟨mark, List.mem_cons_of_mem _ member, written⟩

/-- A statement that returns an array starts with the keyword, blanks, and a bracket or a
comment. -/
theorem Node.Sound.startsArrayReturn (sound : node.Sound source) {elements : List Node}
    (returned : node.returnedArray? = some elements) :
    Codebox.startsArrayReturn (source.cut node.span) := by
  have visible : ∀ mark ∈ arrayMarks, (Utf8.encode mark).head?.any (!isBlankByte ·) := by decide
  have kind : node.kind = .returnStatement := by
    unfold Node.returnedArray? at returned
    split at returned
    next kind => exact kind
    next => cases returned
  obtain ⟨array, member, sort, -⟩ := Node.returnedArray?_eq_some returned
  have child : array ∈ node.children := (List.mem_filter.mp (List.mem_filter.mp member).1).1
  obtain ⟨next, among, sort, blanks, blank, covered⟩ :=
    sound.shaped.returned kind ⟨array, child, sort⟩
  obtain ⟨mark, marked, rest, written⟩ := (sound.ofChild among).exists_mark sort
  obtain ⟨byte, head, solid⟩ := (Option.any_eq_true _ _).mp (visible mark marked)
  obtain ⟨tail, parts⟩ := List.head?_eq_some_iff.mp head
  obtain ⟨lower, order, upper⟩ := sound.row.inside (List.mem_map_of_mem among)
  have split : source.cut node.span = returnWord ++ (blanks ++ (byte :: (tail ++ rest) ++
      source.cut ⟨next.span.stop, node.span.stop⟩)) := by
    have front := source.cut_append_cut sound.starts.nonneg lower (Int.le_trans order upper)
    have inner := source.cut_append_cut (Int.le_trans sound.starts.nonneg lower) order upper
    rw [← inner, covered, List.append_assoc] at front
    rw [← List.cons_append, ← parts, written]
    exact front.symm
  have skipped : blanks.dropWhile isBlankByte = [] := List.dropWhile_eq_nil_iff.mpr blank
  rw [split]
  refine startsArrayReturn_iff.mpr ⟨_, rfl, mark, marked, ?_⟩
  rw [List.cons_append, dropWhile_isBlankByte_append (by simpa using solid), skipped,
    List.nil_append, List.isPrefixOf_iff_prefix, parts, List.append_assoc, ← List.cons_append]
  exact List.prefix_append _ _

end Codebox
