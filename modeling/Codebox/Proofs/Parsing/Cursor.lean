import Codebox.Script.Cursor
import Codebox.Proofs.Layout

/-! # Cursors in a text

A cursor that stands in a text stays in it as it advances. Its offset is a boundary
between characters, and its place is the one of its offset. The comments of a gap
are well-laid nodes in a row.
-/

namespace Codebox

/-! ## Bytes of characters -/

/-- A character takes as many bytes as its width says. -/
theorem Utf8.length_encodeChar (c : Char) : (encodeChar c).length = c.utf8Size := by
  have value : c.val.toNat = c.toNat := rfl
  unfold Char.utf8Size
  simp only [UInt32.le_iff_toNat_le, value, UInt32.toNat_ofNatLT]
  rw [encodeChar_eq]
  by_cases one : c.toNat < 0x80
  · simp [one, show c.toNat ≤ 127 by omega]
  · by_cases two : c.toNat < 0x800
    · simp [one, two, show ¬ c.toNat ≤ 127 by omega, show c.toNat ≤ 2047 by omega]
    · by_cases three : c.toNat < 0x10000
      · simp [one, two, three, show ¬ c.toNat ≤ 127 by omega, show ¬ c.toNat ≤ 2047 by omega,
          show c.toNat ≤ 65535 by omega]
      · simp [one, two, three, show ¬ c.toNat ≤ 127 by omega, show ¬ c.toNat ≤ 2047 by omega,
          show ¬ c.toNat ≤ 65535 by omega]

/-- A text with a character has a byte. -/
theorem Utf8.length_encodeChars_pos {text : List Char} (filled : text ≠ []) :
    0 < (encodeChars text).length := by
  cases text with
  | nil => exact absurd rfl filled
  | cons c rest =>
      have split : encodeChars (c :: rest) = encodeChar c ++ encodeChars rest := rfl
      have wide := c.utf8Size_pos
      rw [split, List.length_append, length_encodeChar]
      omega

/-- A byte that is no line feed moves one column on. -/
theorem stepByte_of_ne (point : Point) {byte : UInt8} (other : byte.toNat ≠ 0x0A) :
    stepByte point byte = ⟨point.row, point.column + 1⟩ := by
  unfold stepByte
  rw [if_neg]
  rintro rfl
  exact other rfl

/-- Bytes without a line feed move on by as many columns. -/
theorem foldl_stepByte {bytes : Bytes} (point : Point)
    (others : ∀ byte ∈ bytes, byte.toNat ≠ 0x0A) :
    bytes.foldl stepByte point = ⟨point.row, point.column + bytes.length⟩ := by
  induction bytes generalizing point with
  | nil => rfl
  | cons byte rest ih =>
      obtain ⟨other, others⟩ := List.forall_mem_cons.mp others
      rw [List.foldl_cons, stepByte_of_ne point other, ih _ others, List.length_cons]
      simp only [Point.mk.injEq, true_and]
      omega

/-- Only a line feed is written with the byte of a line feed. -/
theorem Utf8.ne_of_mem_encodeChar {c : Char} (other : c ≠ '\n') :
    ∀ byte ∈ encodeChar c, byte.toNat ≠ 0x0A := by
  have code : c.toNat ≠ 0x0A := by
    intro same
    exact other (Char.ext (UInt32.toNat_inj.mp same))
  have bound : c.toNat < 0x110000 := by
    have valid := c.valid
    change c.toNat.isValidChar at valid
    rcases valid with low | ⟨-, high⟩ <;> omega
  rw [encodeChar_eq]
  by_cases one : c.toNat < 0x80
  · rw [if_pos one]
    simpa [toNat_byte (show c.toNat < 256 by omega)] using code
  · rw [if_neg one]
    by_cases two : c.toNat < 0x800
    · rw [if_pos two]
      simp only [List.forall_mem_cons, List.not_mem_nil, false_implies, implies_true, and_true]
      rw [toNat_byte (by omega), toNat_byte (by omega)]
      omega
    · rw [if_neg two]
      by_cases three : c.toNat < 0x10000
      · rw [if_pos three]
        simp only [List.forall_mem_cons, List.not_mem_nil, false_implies, implies_true, and_true]
        rw [toNat_byte (by omega), toNat_byte (by omega), toNat_byte (by omega)]
        omega
      · rw [if_neg three]
        simp only [List.forall_mem_cons, List.not_mem_nil, false_implies, implies_true, and_true]
        rw [toNat_byte (by omega), toNat_byte (by omega), toNat_byte (by omega),
          toNat_byte (by omega)]
        omega

namespace Script.Cursor

/-- The step over a character is the steps over its bytes. -/
theorem stepPoint_eq (point : Point) (c : Char) :
    stepPoint point c = (Utf8.encodeChar c).foldl stepByte point := by
  unfold stepPoint
  by_cases feed : c = '\n'
  · subst feed
    rw [if_pos rfl]
    rfl
  · rw [if_neg feed, foldl_stepByte point (Utf8.ne_of_mem_encodeChar feed),
      Utf8.length_encodeChar]

/-! ## Cursors -/

/-- A cursor stands in a text. -/
def At (text : List Char) (cursor : Cursor) : Prop :=
  cursor.size = text.length ∧ ∃ before, text = before ++ cursor.rest ∧
    cursor.offset = (Utf8.encodeChars before).length ∧
    cursor.point = (Utf8.encodeChars before).foldl stepByte ⟨0, 0⟩

variable {text : List Char} {cursor : Cursor}

/-- The start of a text stands in it. -/
theorem at_start (text : List Char) : At text (start text) :=
  ⟨rfl, [], rfl, rfl, rfl⟩

/-- A cursor in a text still stands in it after one character. -/
theorem At.step {c : Char} {rest : List Char} {offset size : Nat} {point : Point}
    (stands : At text ⟨c :: rest, offset, point, size⟩) :
    At text ⟨rest, offset + c.utf8Size, stepPoint point c, size⟩ := by
  obtain ⟨whole, before, rfl, offsetEq, pointEq⟩ := stands
  dsimp only at offsetEq pointEq
  refine ⟨whole, before ++ [c], ?_, ?_, ?_⟩
  · rw [List.append_assoc]
    rfl
  · have single : Utf8.encodeChars [c] = Utf8.encodeChar c := List.append_nil _
    rw [Utf8.encodeChars_append, single, List.length_append, Utf8.length_encodeChar, ← offsetEq]
  · have single : Utf8.encodeChars [c] = Utf8.encodeChar c := List.append_nil _
    rw [Utf8.encodeChars_append, single, List.foldl_append, ← pointEq, ← stepPoint_eq]

/-- A cursor in a text still stands in it some characters further on. -/
theorem At.advance (stands : cursor.At text) (count : Nat) : (cursor.advance count).At text := by
  fun_induction Cursor.advance count cursor with
  | case1 cursor => exact stands
  | case2 count offset point size => exact stands
  | case3 count c rest offset point size ih => exact ih stands.step

/-- The offset grows by the bytes of the characters that are passed. -/
theorem offset_advance (cursor : Cursor) (count : Nat) :
    (cursor.advance count).offset =
      cursor.offset + (Utf8.encodeChars (cursor.rest.take count)).length := by
  fun_induction Cursor.advance count cursor with
  | case1 cursor => rfl
  | case2 count offset point size => rfl
  | case3 count c rest offset point size ih =>
      have split : Utf8.encodeChars (c :: rest.take count) =
          Utf8.encodeChar c ++ Utf8.encodeChars (rest.take count) := rfl
      rw [ih, List.take_succ_cons, split, List.length_append, Utf8.length_encodeChar]
      exact Nat.add_assoc _ _ _

/-- A cursor never moves back. -/
theorem offset_le_advance (cursor : Cursor) (count : Nat) :
    cursor.offset ≤ (cursor.advance count).offset := by
  rw [offset_advance]
  omega

/-- A cursor stands at a boundary. -/
theorem At.boundary (stands : cursor.At text) :
    Bytes.Boundary (Utf8.encodeChars text) cursor.offset := by
  obtain ⟨-, before, rfl, offsetEq, -⟩ := stands
  refine ⟨before, cursor.rest, Utf8.encodeChars_append before cursor.rest, ?_⟩
  rw [offsetEq]

/-- The place that a cursor keeps is that of its offset. -/
theorem At.point (stands : cursor.At text) :
    cursor.point = Bytes.pointAt (Utf8.encodeChars text) cursor.offset := by
  obtain ⟨-, before, rfl, offsetEq, pointEq⟩ := stands
  unfold Bytes.pointAt
  rw [Utf8.encodeChars_append, Int.toNat_natCast, offsetEq, List.take_left, pointEq]

/-- The bytes between a cursor and where it advances to. -/
theorem At.cut (stands : cursor.At text) (count : Nat) :
    Bytes.cut (Utf8.encodeChars text) ⟨cursor.offset, (cursor.advance count).offset⟩ =
      Utf8.encodeChars (cursor.rest.take count) := by
  have order := cursor.offset_le_advance count
  have width := cursor.offset_advance count
  obtain ⟨-, before, rfl, offsetEq, -⟩ := stands
  rw [Bytes.cut_eq _ (by omega) (by omega), Int.toNat_natCast, Int.toNat_natCast, width,
    Nat.add_sub_cancel_left, offsetEq, Utf8.encodeChars_append, List.drop_left]
  have parts : Utf8.encodeChars cursor.rest = Utf8.encodeChars (cursor.rest.take count) ++
      Utf8.encodeChars (cursor.rest.drop count) := by
    rw [← Utf8.encodeChars_append, List.take_append_drop]
  rw [parts, List.take_left]

/-- One cursor stands at an offset. -/
theorem At.unique {other : Cursor} (stands : cursor.At text) (standsOther : other.At text)
    (offset : cursor.offset = other.offset) : cursor = other := by
  obtain ⟨size, before, parts, offsetEq, pointEq⟩ := stands
  obtain ⟨sizeOther, front, partsOther, offsetOther, pointOther⟩ := standsOther
  have bytes : Utf8.encodeChars before ++ Utf8.encodeChars cursor.rest =
      Utf8.encodeChars front ++ Utf8.encodeChars other.rest := by
    rw [← Utf8.encodeChars_append, ← Utf8.encodeChars_append, ← parts, ← partsOther]
  have width : (Utf8.encodeChars before).length = (Utf8.encodeChars front).length := by
    rw [← offsetEq, ← offsetOther, offset]
  have same : before = front := Utf8.encodeChars_injective (List.append_inj_left bytes width)
  subst same
  rw [parts] at partsOther
  have rest := List.append_cancel_left partsOther
  have point := pointEq.trans pointOther.symm
  have whole := size.trans sizeOther.symm
  cases cursor
  cases other
  cases rest
  cases offset
  cases point
  cases whole
  rfl

end Script.Cursor

/-! ## Leaves -/

/-- The kinds of which a tree has to have no particular shape. -/
def Kind.isPlain (kind : Kind) : Bool :=
  !kind.isRewritten && !kind.isTrivia &&
    !(List.contains [.functionDeclaration, .array, .variableDeclarator, .assignmentExpression,
      .assignmentPattern] kind)

/-- Nothing of a plain kind is rewritten. -/
theorem Kind.isRewritten_of_isPlain {kind : Kind} (plain : kind.isPlain) :
    kind.isRewritten = false := by
  simp only [isPlain, Bool.and_eq_true, Bool.not_eq_true'] at plain
  exact plain.1.1

/-- Nothing of a plain kind is a comment. -/
theorem Kind.isTrivia_of_isPlain {kind : Kind} (plain : kind.isPlain) : kind.isTrivia = false := by
  simp only [isPlain, Bool.and_eq_true, Bool.not_eq_true'] at plain
  exact plain.1.2

/-- Whatever children it has, a node of a plain kind has the shape of its kind. -/
theorem Node.shaped_of_isPlain {source : Bytes} {node : Node} (plain : node.kind.isPlain) :
    node.Shaped source := by
  have kept := Kind.isRewritten_of_isPlain plain
  have solid := Kind.isTrivia_of_isPlain plain
  constructor
  · intro returns
    rw [returns] at kept
    cases kept
  · intro returns
    rw [returns] at kept
    cases kept
  · intro returns
    rw [returns] at kept
    cases kept
  · intro declares
    cases kind : node.kind <;> simp_all [Kind.declares, Kind.isRewritten]
  · intro loop
    rw [loop] at kept
    cases kept
  · intro function
    rw [function] at plain
    cases plain
  · intro trivia
    rw [solid] at trivia
    cases trivia
  · intro array
    rw [array] at plain
    cases plain
  · intro declarator
    rw [declarator] at plain
    cases plain
  · rintro (assigns | assigns)
    all_goals
      rw [assigns] at plain
      cases plain

namespace Script

variable {text : List Char} {first last : Cursor} {kind : Kind} {named : Bool}

/-- A leaf between two cursors of a text is well laid if it has the shape of its kind. -/
theorem Cursor.sound_leaf (starts : first.At text) (stops : last.At text)
    (order : first.offset ≤ last.offset)
    (shaped : (first.leaf last kind named).Shaped (Utf8.encodeChars text)) :
    (first.leaf last kind named).Sound (Utf8.encodeChars text) := by
  refine .mk starts.boundary stops.boundary ?_ starts.point ?_ shaped ?_
  · exact Int.ofNat_le.mpr order
  · exact Int.ofNat_le.mpr order
  · exact fun child member => (List.not_mem_nil member).elim

/-! ## Gaps -/

/-- Comments in a row, as they stand between tokens. -/
structure Comments (text : List Char) (low high : Int) (nodes : List Node) : Prop where
  row : Node.InRow low high nodes
  sound : ∀ node ∈ nodes, node.Sound (Utf8.encodeChars text)
  trivia : ∀ node ∈ nodes, node.kind.isTrivia
  bare : ∀ node ∈ nodes, node.head.role = none

/-- No comments stand in a row anywhere. -/
theorem Comments.nil {low high : Int} (order : low ≤ high) : Comments text low high [] where
  row := order
  sound := fun _ member => (List.not_mem_nil member).elim
  trivia := fun _ member => (List.not_mem_nil member).elim
  bare := fun _ member => (List.not_mem_nil member).elim

/-- A comment after comments that end where it starts. -/
theorem Comments.concat {low high : Int} {nodes : List Node} {node : Node}
    (comments : Comments text low node.span.start nodes)
    (sound : node.Sound (Utf8.encodeChars text)) (trivia : node.kind.isTrivia)
    (bare : node.head.role = none) (above : node.span.stop ≤ high) :
    Comments text low high (nodes ++ [node]) where
  row := by
    rw [Node.InRow, List.map_append]
    exact Span.row_append_cons.mpr ⟨comments.row, sound.order, above⟩
  sound := List.forall_mem_append.mpr ⟨comments.sound, List.forall_mem_singleton.mpr sound⟩
  trivia := List.forall_mem_append.mpr ⟨comments.trivia, List.forall_mem_singleton.mpr trivia⟩
  bare := List.forall_mem_append.mpr ⟨comments.bare, List.forall_mem_singleton.mpr bare⟩

/-- Comments in a row lie in any longer stretch of the text. -/
theorem Comments.extend {low middle high : Int} {nodes : List Node}
    (comments : Comments text low middle nodes) (above : middle ≤ high) :
    Comments text low high nodes :=
  { comments with row := comments.row.extend above }

/-- A gap at an offset of a text. -/
structure Gap.At (text : List Char) (low : Int) (gap : Gap) : Prop where
  comments : Comments text low gap.next.offset gap.comments
  next : gap.next.At text

/-- A text starts with a comment of this length. -/
def OpensComment (text : List Char) (length : Nat) : Prop :=
  ∃ mark ∈ commentMarks, mark.toList <+: text.take length

/-- A comment has a mark and more. -/
theorem OpensComment.exists_cons {rest : List Char} {length : Nat}
    (opens : OpensComment rest length) :
    0 < length ∧ ∃ c tail, rest = c :: tail ∧ 0x20 < c.toNat := by
  have heads : ∀ mark ∈ commentMarks, mark.toList.head?.any (0x20 < ·.toNat) := by decide
  obtain ⟨mark, member, starts⟩ := opens
  obtain ⟨c, head, visible⟩ := (Option.any_eq_true _ _).mp (heads mark member)
  obtain ⟨more, parts⟩ := List.head?_eq_some_iff.mp head
  rw [parts] at starts
  cases length with
  | zero => simp at starts
  | succ length =>
      obtain ⟨tail, rfl⟩ := starts.trans (List.take_prefix _ _)
      exact ⟨Nat.succ_pos _, c, more ++ tail, rfl, of_decide_eq_true visible⟩

/-- What is read as a comment starts with a mark of comments. -/
theorem commentLength?_eq_some {rest : List Char} {length : Nat}
    (found : commentLength? rest = some length) : OpensComment rest length := by
  unfold commentLength? at found
  split at found
  next =>
    cases found
    exact ⟨"//", by decide, _, by rw [Nat.add_comm]; rfl⟩
  next =>
    obtain ⟨inner, -, rfl⟩ := Option.map_eq_some_iff.mp found
    exact ⟨"/*", by decide, _, rfl⟩
  next => cases found

/-- What is read as a comment of an embedded page starts with a mark of comments. -/
theorem htmlCommentLength?_eq_some {rest : List Char} {length : Nat}
    (found : htmlCommentLength? rest = some length) : OpensComment rest length := by
  unfold htmlCommentLength? at found
  split at found
  next opens =>
    cases found
    rw [OpensComment, ← List.prefix_iff_eq_take.mp (List.takeWhile_prefix _)]
    unfold opensHtmlComment at opens
    split at opens
    next => exact ⟨"<!--", by decide, _, rfl⟩
    next => exact ⟨"-->", by decide, _, rfl⟩
    next => cases opens
  next => cases found

/-- What a gap takes in as a comment is one by its kind and by its mark. -/
theorem comment?_eq_some {html : Bool} {rest : List Char} {length : Nat}
    (found : comment? html rest = some (kind, length)) :
    kind.isTrivia ∧ OpensComment rest length := by
  unfold comment? at found
  split at found
  next plain =>
    cases found
    exact ⟨rfl, commentLength?_eq_some plain⟩
  next =>
    split at found
    · obtain ⟨other, embedded, same⟩ := Option.map_eq_some_iff.mp found
      cases same
      exact ⟨rfl, htmlCommentLength?_eq_some embedded⟩
    · cases found

/-- A comment is a well-laid leaf. -/
theorem Cursor.sound_comment {length : Nat} (starts : first.At text) (trivia : kind.isTrivia)
    (opens : OpensComment first.rest length) :
    (first.leaf (first.advance length) kind true).Sound (Utf8.encodeChars text) := by
  have other : ∀ other : Kind, other.isTrivia = false → kind ≠ other := by
    rintro other solid rfl
    rw [solid] at trivia
    cases trivia
  refine sound_leaf starts (starts.advance length) (first.offset_le_advance length) ?_
  constructor
  · exact fun returns => (other _ rfl returns).elim
  · exact fun returns => (other _ rfl returns).elim
  · exact fun returns => (other _ rfl returns).elim
  · intro declares
    change kind.declares at declares
    cases kind <;> simp_all [Kind.declares, Kind.isTrivia]
  · exact fun loop => (other _ rfl loop).elim
  · exact fun function => (other _ rfl function).elim
  · intro _
    obtain ⟨mark, member, more, ahead⟩ := opens
    refine ⟨rfl, mark, member, Utf8.encodeChars more, ?_⟩
    change _ = Bytes.cut _ ⟨first.offset, (first.advance length).offset⟩
    rw [starts.cut, ← ahead, Utf8.encodeChars_append]
    rfl
  · exact fun array => (other _ rfl array).elim
  · exact fun declarator => (other _ rfl declarator).elim
  · exact fun assigns => assigns.elim (fun assigns => (other _ rfl assigns).elim)
      fun assigns => (other _ rfl assigns).elim

variable {low : Int} {edge : Cursor} {found : List Node}

/-- One more comment. -/
theorem Comments.more {length : Nat}
    (comments : Comments text low edge.offset found.reverse) (stands : edge.At text)
    (trivia : kind.isTrivia) (opens : OpensComment edge.skipSpace.rest length) :
    Comments text low (edge.skipSpace.advance length).offset
      (edge.skipSpace.leaf (edge.skipSpace.advance length) kind true :: found).reverse := by
  have next : edge.skipSpace.At text := stands.advance _
  have order : edge.offset ≤ edge.skipSpace.offset := edge.offset_le_advance _
  rw [List.reverse_cons]
  refine Comments.concat (comments.extend (Int.ofNat_le.mpr order)) ?_ trivia rfl (Int.le_refl _)
  exact Cursor.sound_comment next trivia opens

/-- A gap that is searched from a cursor of a text stands in the text. -/
theorem gapFrom_at {html : Bool} (fuel : Nat)
    (comments : Comments text low edge.offset found.reverse) (stands : edge.At text) :
    (gapFrom html fuel found edge).At text low := by
  have order : edge.offset ≤ edge.skipSpace.offset := edge.offset_le_advance _
  induction fuel generalizing found edge with
  | zero => exact ⟨comments.extend (Int.ofNat_le.mpr order), stands.advance _⟩
  | succ fuel ih =>
      unfold gapFrom
      dsimp only
      split
      next kind length ahead =>
        obtain ⟨trivia, opens⟩ := comment?_eq_some ahead
        refine ih (comments.more stands trivia opens) ?_ ?_
        · exact (stands.advance _).advance _
        · exact Cursor.offset_le_advance _ _
      next => exact ⟨comments.extend (Int.ofNat_le.mpr order), stands.advance _⟩

/-- The gap at a cursor of a text stands in the text. -/
theorem Cursor.At.gap {cursor : Cursor} (stands : cursor.At text) :
    cursor.gap.At text cursor.offset :=
  gapFrom_at _ (.nil (Int.le_refl _)) stands

/-- What follows at an offset of a text. -/
def Sequel.At (text : List Char) (low : Int) : Sequel → Prop
  | .ends comments edge => Comments text low edge.offset comments ∧ edge.At text
  | .continues gap => gap.At text low

/-- What is found to follow at a cursor of a text stands in the text. -/
theorem sequelFrom_at {operators : Bool} (fuel : Nat)
    (comments : Comments text low edge.offset found.reverse) (stands : edge.At text) :
    (sequelFrom operators fuel found edge).At text low := by
  have order : edge.offset ≤ edge.skipSpace.offset := edge.offset_le_advance _
  induction fuel generalizing found edge with
  | zero => exact ⟨comments.extend (Int.ofNat_le.mpr order), stands.advance _⟩
  | succ fuel ih =>
      unfold sequelFrom
      split
      · exact ⟨comments, stands⟩
      · dsimp only
        split
        next length ahead =>
          have opens := commentLength?_eq_some ahead
          refine ih (comments.more stands rfl opens) ?_ ?_
          · exact (stands.advance _).advance _
          · exact Cursor.offset_le_advance _ _
        next => exact ⟨comments.extend (Int.ofNat_le.mpr order), stands.advance _⟩

/-- What follows at a cursor of a text stands in the text. -/
theorem Cursor.At.sequel {cursor : Cursor} (stands : cursor.At text) (operators ends : Bool) :
    (cursor.sequel operators ends).At text cursor.offset := by
  unfold Cursor.sequel
  split
  · exact sequelFrom_at _ (.nil (Int.le_refl _)) stands
  · exact gapFrom_at _ (.nil (Int.le_refl _)) stands

end Script

end Codebox
