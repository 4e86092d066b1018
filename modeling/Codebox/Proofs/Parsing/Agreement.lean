import Codebox.Proofs.Parsing.Program

/-! # Parsers that agree on short texts

The rules of the grammar call on goals through a function that they are given. Two such functions
may differ: what a rule does with them is the same wherever few enough characters are ahead, if
the functions agree on every text that is shorter. A rule takes a token before it calls on a goal,
or calls on one that comes later in the order of the goals.
-/

namespace Codebox.Script

variable {α β : Type} {text : List Char} {room : Nat}

/-! ## Characters ahead -/

/-- Of two cursors of a text, the one further on has fewer characters ahead. -/
theorem Cursor.At.length_rest_lt {cursor next : Cursor} (stands : cursor.At text)
    (reached : next.At text) (order : cursor.offset < next.offset) :
    next.rest.length < cursor.rest.length := by
  obtain ⟨-, before, parts, offset, -⟩ := stands
  obtain ⟨-, front, partsNext, offsetNext, -⟩ := reached
  by_contra longer
  have total := congrArg List.length (parts.symm.trans partsNext)
  simp only [List.length_append] at total
  have starts : front <+: before := by
    refine List.prefix_of_prefix_length_le ⟨next.rest, ?_⟩ ⟨cursor.rest, rfl⟩ (by omega)
    exact partsNext.symm.trans parts
  obtain ⟨between, rfl⟩ := starts
  rw [Utf8.encodeChars_append, List.length_append] at offset
  omega

/-- A cursor of a text with at most so many characters ahead. -/
structure Cursor.Within (text : List Char) (room : Nat) (cursor : Cursor) : Prop where
  stands : cursor.At text
  left : cursor.rest.length ≤ room

namespace Cursor.Within

variable {cursor next : Cursor}

/-- A cursor that is not further back has no more ahead. -/
theorem onward (inside : cursor.Within text room) (reached : next.At text)
    (order : cursor.offset ≤ next.offset) : next.Within text room := by
  refine ⟨reached, ?_⟩
  rcases Nat.lt_or_eq_of_le order with further | same
  · exact Nat.le_trans (inside.stands.length_rest_lt reached further).le inside.left
  · rw [← inside.stands.unique reached same]
    exact inside.left

/-- A cursor that is further on has fewer ahead. -/
theorem further (inside : cursor.Within text room) (reached : next.At text)
    (order : cursor.offset < next.offset) : ∃ less < room, next.Within text less :=
  ⟨next.rest.length, Nat.lt_of_lt_of_le (inside.stands.length_rest_lt reached order) inside.left,
    reached, Nat.le_refl _⟩

/-- There may be room for more. -/
theorem mono {less : Nat} (inside : cursor.Within text less) (order : less ≤ room) :
    cursor.Within text room :=
  ⟨inside.stands, Nat.le_trans inside.left order⟩

/-- A cursor that has moved on has no more ahead. -/
theorem advance (inside : cursor.Within text room) (count : Nat) :
    (cursor.advance count).Within text room :=
  inside.onward (inside.stands.advance count) (cursor.offset_le_advance count)

/-- A cursor that has moved over a text has fewer ahead. -/
theorem advance_over {symbol : String} (inside : cursor.Within text room)
    (found : symbol.toList <+: cursor.rest) (filled : symbol ≠ "") :
    ∃ less < room, (cursor.advance symbol.length).Within text less := by
  have width : 0 < symbol.toList.length :=
    List.length_pos_iff.mpr fun empty => filled (String.toList_eq_nil_iff.mp empty)
  have taken := found.length_le
  refine ⟨_, ?_, inside.stands.advance _, Nat.le_refl _⟩
  rw [rest_advance, List.length_drop, ← String.length_toList]
  have left := inside.left
  omega

/-- The next token starts no further back. -/
theorem gap (inside : cursor.Within text room) : cursor.gap.next.Within text room := by
  have stands := inside.stands.gap
  exact inside.onward stands.next (Int.ofNat_le.mp stands.comments.row.le)

end Cursor.Within

/-- What follows is no further back. -/
def Sequel.Within (text : List Char) (room : Nat) : Sequel → Prop
  | .ends _ edge => edge.Within text room
  | .continues gap => gap.next.Within text room

/-- What follows at a cursor is no further back. -/
theorem Cursor.Within.sequel {cursor : Cursor} (inside : cursor.Within text room)
    (operators ends : Bool) : (cursor.sequel operators ends).Within text room := by
  have stands := inside.stands.sequel operators ends
  cases following : cursor.sequel operators ends with
  | ends comments edge =>
      rw [following] at stands
      exact inside.onward stands.2 (Int.ofNat_le.mp stands.1.row.le)
  | continues gap =>
      rw [following] at stands
      exact inside.onward stands.next (Int.ofNat_le.mp stands.comments.row.le)

/-! ## Agreement -/

/-- Where at most so many characters of a text are ahead, two parsers do the same, and they do
not move back. -/
structure Agree (text : List Char) (room : Nat) (first second : Parser α) : Prop where
  same : ∀ cursor : Cursor, cursor.Within text room → first cursor = second cursor
  ends : ∀ (cursor : Cursor) value next, cursor.Within text room →
    first cursor = .ok (value, next) → next.Within text room

/-- A parser that moves over a character at least. -/
def Takes (text : List Char) (parser : Parser α) : Prop :=
  ∀ low, Meets text low parser fun high _ => low < high

namespace Agree

variable {first second : Parser α} {next other : α → Parser β}

/-- A parser that moves nowhere but on agrees with itself. -/
theorem of_meets {post : Int → Int → α → Prop} (met : ∀ low, Meets text low first (post low)) :
    Agree text room first first where
  same := fun _ _ => rfl
  ends := by
    intro cursor value next inside ended
    obtain ⟨reached, order, -⟩ := (met cursor.offset).ends cursor value next inside.stands rfl ended
    exact inside.onward reached (Int.ofNat_le.mp order)

/-- A parser that gives a value agrees with itself. -/
theorem pure (value : α) : Agree text room (Pure.pure value) (Pure.pure value) :=
  of_meets fun low => (.pure trivial : Meets text low (Pure.pure value) fun _ _ => True)

/-- A parser that stops agrees with itself. -/
theorem stop (cause : SyntaxFault) (place : Cursor) :
    Agree text room (Script.stop cause place : Parser α) (Script.stop cause place) :=
  of_meets fun low => (.stop cause place : Meets text low _ fun _ _ => True)

/-- A parser that refuses what lies ahead agrees with itself. -/
theorem refuse (place : Cursor) :
    Agree text room (Script.refuse place : Parser α) (Script.refuse place) :=
  of_meets fun low => (.refuse place : Meets text low _ fun _ _ => True)

/-- Parsers agree if what they do first and what they do then agrees. -/
theorem bind (begins : Agree text room first second)
    (later : ∀ value, Agree text room (next value) (other value)) :
    Agree text room (first >>= next) (second >>= other) where
  same := by
    intro cursor inside
    change (first cursor >>= fun pair => next pair.1 pair.2) =
      (second cursor >>= fun pair => other pair.1 pair.2)
    rw [← begins.same cursor inside]
    cases started : first cursor with
    | error fault => rfl
    | ok pair => exact (later pair.1).same pair.2 (begins.ends cursor pair.1 pair.2 inside started)
  ends := by
    intro cursor value last inside ended
    change (first cursor >>= fun pair => next pair.1 pair.2) = _ at ended
    obtain ⟨⟨given, between⟩, started, ended⟩ := Outcome.bind_eq_ok_iff.mp ended
    exact (later given).ends between value last (begins.ends cursor given between inside started)
      ended

/-- After something has been taken, fewer characters are ahead. -/
theorem take (takes : Takes text first)
    (later : ∀ value less, less < room → Agree text less (next value) (other value)) :
    Agree text room (first >>= next) (first >>= other) where
  same := by
    intro cursor inside
    change (first cursor >>= fun pair => next pair.1 pair.2) =
      (first cursor >>= fun pair => other pair.1 pair.2)
    cases started : first cursor with
    | error fault => rfl
    | ok pair =>
        obtain ⟨reached, -, order⟩ :=
          (takes cursor.offset).ends cursor pair.1 pair.2 inside.stands rfl started
        obtain ⟨less, shrinks, near⟩ := inside.further reached (Int.ofNat_lt.mp order)
        exact (later pair.1 less shrinks).same pair.2 near
  ends := by
    intro cursor value last inside ended
    change (first cursor >>= fun pair => next pair.1 pair.2) = _ at ended
    obtain ⟨⟨given, between⟩, started, ended⟩ := Outcome.bind_eq_ok_iff.mp ended
    obtain ⟨reached, -, order⟩ :=
      (takes cursor.offset).ends cursor given between inside.stands rfl started
    obtain ⟨less, shrinks, near⟩ := inside.further reached (Int.ofNat_lt.mp order)
    exact ((later given less shrinks).ends between value last near ended).mono shrinks.le

/-- Parsers that look at the cursor first. -/
theorem get {next other : Cursor → Parser β}
    (later : ∀ cursor : Cursor, cursor.Within text room →
      Agree text room (next cursor) (other cursor)) :
    Agree text room (MonadState.get >>= next) (MonadState.get >>= other) where
  same := fun cursor inside => (later cursor inside).same cursor inside
  ends := fun cursor value last inside ended =>
    (later cursor inside).ends cursor value last inside ended

/-- Parsers that look at the gap first. -/
theorem ahead {next other : Gap → Parser β}
    (later : ∀ gap : Gap, gap.next.Within text room → Agree text room (next gap) (other gap)) :
    Agree text room (Script.ahead >>= next) (Script.ahead >>= other) :=
  get fun cursor inside => later cursor.gap inside.gap

/-- Parsers that look at what follows first. -/
theorem sequel {operators ends : Bool} {next other : Sequel → Parser β}
    (later : ∀ following : Sequel, following.Within text room →
      Agree text room (next following) (other following)) :
    Agree text room (Script.sequel operators ends >>= next)
      (Script.sequel operators ends >>= other) :=
  get fun cursor inside => later (cursor.sequel operators ends) (inside.sequel operators ends)

/-- Parsers that move to a cursor first. -/
theorem set {cursor : Cursor} {next other : PUnit → Parser β} {less : Nat}
    (near : cursor.Within text less) (order : less ≤ room)
    (later : Agree text less (next ⟨⟩) (other ⟨⟩)) :
    Agree text room (MonadStateOf.set cursor >>= next) (MonadStateOf.set cursor >>= other) where
  same := fun _ _ => later.same cursor near
  ends := fun _ value last _ ended => (later.ends cursor value last near ended).mono order

/-- Parsers with alternatives that agree. -/
theorem orElse {otherFirst otherSecond : Parser α} (either : Agree text room first otherFirst)
    (otherwise : Agree text room second otherSecond) :
    Agree text room (Script.orElse first second) (Script.orElse otherFirst otherSecond) where
  same := by
    intro cursor inside
    unfold Script.orElse
    rw [either.same cursor inside, otherwise.same cursor inside]
  ends := by
    intro cursor value last inside ended
    unfold Script.orElse at ended
    split at ended
    next result started =>
      cases ended
      exact either.ends cursor value last inside started
    next => exact otherwise.ends cursor value last inside ended

/-- Parsers that take one of two ways, and then go on. -/
theorem branch {choice : Prop} [Decidable choice] {otherFirst otherSecond : Parser α}
    (yes : choice → Agree text room first otherFirst)
    (no : ¬ choice → Agree text room second otherSecond)
    (later : ∀ value, Agree text room (next value) (other value)) :
    Agree text room (if choice then first >>= next else second >>= next)
      (if choice then otherFirst >>= other else otherSecond >>= other) := by
  split
  next holds => exact (yes holds).bind later
  next holds => exact (no holds).bind later

end Agree

/-! ## Tokens and loops -/

variable {symbol : String} {gap : Gap} {kind : Kind}

/-- The gap and the text after it are taken in the same way. -/
theorem agree_takeAfter {named : Bool} {length : Nat} (near : gap.next.Within text room) :
    Agree text room (takeAfter gap kind named length) (takeAfter gap kind named length) :=
  .set (near.advance length) (Nat.le_refl _) (.pure _)

/-- A token is taken in the same way. -/
theorem agree_takeToken (near : gap.next.Within text room) :
    Agree text room (takeToken gap symbol) (takeToken gap symbol) :=
  agree_takeAfter near

/-- After a token has been taken, fewer characters are ahead. -/
theorem Agree.token {next other : Pieces → Parser β} (near : gap.next.Within text room)
    (found : symbol.toList <+: gap.next.rest) (filled : symbol ≠ "")
    (later : ∀ pieces less, less < room → Agree text less (next pieces) (other pieces)) :
    Agree text room (takeToken gap symbol >>= next) (takeToken gap symbol >>= other) := by
  obtain ⟨less, shrinks, reached⟩ := near.advance_over found filled
  exact ⟨fun _ _ => (later _ less shrinks).same _ reached, fun _ value last _ ended =>
    ((later _ less shrinks).ends _ value last reached ended).mono shrinks.le⟩

/-- A token with a text moves over a character. -/
theorem Token.low_lt {low high : Int} {pieces : Pieces} (token : Token text symbol low high pieces)
    (filled : symbol ≠ "") : low < high := by
  obtain ⟨comments, leaf, rfl, -, -, -, -, stop, -, reached⟩ := token.leaf
  obtain ⟨row, -⟩ := Laid.append_cons.mp token.toLaid
  have width : 0 < (Utf8.encode symbol).length :=
    Utf8.length_encodeChars_pos fun empty => filled (String.toList_eq_nil_iff.mp empty)
  have starts := row.row.le
  omega

/-- A mark that has to follow moves over a character. -/
theorem takes_mark (filled : symbol ≠ "") : Takes text (mark symbol) :=
  fun _ => meets_mark.mono fun _ _ _ token => token.low_lt filled

/-- A word that has to follow moves over a character. -/
theorem takes_word (filled : symbol ≠ "") : Takes text (word symbol) :=
  fun _ => meets_word.mono fun _ _ _ token => token.low_lt filled

/-- A mark that has to follow is taken in the same way. -/
theorem agree_mark : Agree text room (mark symbol) (mark symbol) :=
  .of_meets fun _ => meets_mark

/-- A word that has to follow is taken in the same way. -/
theorem agree_word : Agree text room (word symbol) (word symbol) :=
  .of_meets fun _ => meets_word

/-- A free name is taken in the same way. -/
theorem agree_freeName (plain : kind.isPlain) : Agree text room (freeName kind) (freeName kind) :=
  .of_meets fun _ => meets_freeName plain

/-- A statement ends in the same way. -/
theorem agree_semicolon {operators : Bool} :
    Agree text room (semicolon operators) (semicolon operators) :=
  .of_meets fun _ => meets_semicolon

/-- Steps that agree are repeated in the same way. -/
theorem agree_repeated {step other : Parser (Option Pieces)} (each : Agree text room step other) :
    Agree text room (repeated step) (repeated other) := by
  have loop : ∀ fuel done,
      Agree text room (repeatedFrom step fuel done) (repeatedFrom other fuel done) := by
    intro fuel
    induction fuel with
    | zero => exact fun done => .pure _
    | succ fuel ih =>
        intro done
        unfold repeatedFrom
        refine each.bind fun result => ?_
        cases result with
        | none => exact .pure _
        | some pieces => exact ih _
  exact .get fun cursor _ => loop _ _

/-- Steps that agree make pieces larger in the same way. -/
theorem agree_extended {step other : Pieces → Parser (Option Pieces)} (first : Pieces)
    (each : ∀ pieces, Agree text room (step pieces) (other pieces)) :
    Agree text room (extended first step) (extended first other) := by
  have loop : ∀ fuel pieces,
      Agree text room (extendedFrom step fuel pieces) (extendedFrom other fuel pieces) := by
    intro fuel
    induction fuel with
    | zero => exact fun pieces => .pure _
    | succ fuel ih =>
        intro pieces
        unfold extendedFrom
        refine (each pieces).bind fun result => ?_
        cases result with
        | none => exact .pure _
        | some larger => exact ih larger
  exact .get fun cursor _ => loop _ _

/-- Parsers that agree do so on pieces that have to be an expression. -/
theorem agree_valued {first second : Parser Pieces} (same : Agree text room first second) :
    Agree text room (valued first) (valued second) := by
  refine .ahead fun gap _ => same.bind fun pieces => ?_
  split
  · exact .refuse _
  · exact .pure _

/-! ## Goals -/

/-- Two functions that rules are given agree on every goal wherever fewer characters are ahead. -/
def Agreed (text : List Char) (room : Nat) (self other : Goal → Parser Pieces) : Prop :=
  ∀ goal less, less < room → Agree text less (self goal) (other goal)

variable {self other : Goal → Parser Pieces}

/-- What is agreed on is agreed on where less is ahead. -/
theorem Agreed.mono {less : Nat} (agreed : Agreed text room self other) (order : less ≤ room) :
    Agreed text less self other :=
  fun goal fewer shrinks => agreed goal fewer (Nat.lt_of_lt_of_le shrinks order)

/-- What is agreed on before a token is agreed on after it. -/
theorem Agreed.after {less : Nat} (agreed : Agreed text room self other) (shrinks : less < room) :
    Agreed text (less + 1) self other :=
  agreed.mono shrinks

/-- What is agreed on up to here is agreed on here. -/
theorem Agreed.here (agreed : Agreed text (room + 1) self other) (goal : Goal) :
    Agree text room (self goal) (other goal) :=
  agreed goal room (Nat.lt_succ_self room)

/-- What is agreed on up to here is agreed on further on. -/
theorem Agreed.below (agreed : Agreed text (room + 1) self other) : Agreed text room self other :=
  agreed.mono (Nat.le_succ room)

end Codebox.Script
