import Codebox.Proofs.Sequence
import Codebox.Proofs.Parsing.Pieces

/-! # What parsers give

A parser is described by what holds of its value and of the offset that it moves
to, from any cursor that stands at a given offset of a text. Where it stops, it does
so at a syntax fault.
-/

namespace Codebox

/-- Whether a fault says that a text is no script. -/
def Fault.isMalformed : Fault → Bool
  | .malformed .. => true
  | _ => false

end Codebox

namespace Codebox.Script

variable {α β : Type} {text : List Char} {low middle high : Int}

/-- The gap at an offset of a text. -/
def Gap.Ahead (text : List Char) (low : Int) (gap : Gap) : Prop :=
  ∃ cursor : Cursor, cursor.At text ∧ (cursor.offset : Int) = low ∧ cursor.gap = gap

/-- The gap at an offset of a text stands there. -/
theorem Gap.Ahead.stands {gap : Gap} (seen : gap.Ahead text low) : gap.At text low := by
  obtain ⟨cursor, stands, rfl, rfl⟩ := seen
  exact stands.gap

/-- There is one gap at an offset. -/
theorem Gap.Ahead.unique {gap other : Gap} (seen : gap.Ahead text low)
    (seenOther : other.Ahead text low) : gap = other := by
  obtain ⟨cursor, stands, offset, rfl⟩ := seen
  obtain ⟨cursorOther, standsOther, offsetOther, rfl⟩ := seenOther
  rw [stands.unique standsOther (by omega)]

/-- From an offset of a text, a parser stops at a syntax fault, or moves to a later
one and `post` holds. -/
structure Meets (text : List Char) (low : Int) (parser : Parser α) (post : Int → α → Prop) :
    Prop where
  ends : ∀ cursor value next, cursor.At text → (cursor.offset : Int) = low →
    parser cursor = .ok (value, next) → next.At text ∧ low ≤ next.offset ∧ post next.offset value
  stops : ∀ cursor fault, cursor.At text → (cursor.offset : Int) = low →
    parser cursor = .error fault → fault.isMalformed

namespace Meets

variable {parser : Parser α} {next : α → Parser β} {post other : Int → α → Prop}
  {last : Int → β → Prop}

/-- A parser that gives a value moves nowhere. -/
theorem pure {value : α} (holds : post low value) : Meets text low (Pure.pure value) post where
  ends := by
    intro cursor result after stands offset ended
    cases ended
    rw [offset]
    exact ⟨stands, Int.le_refl _, holds⟩
  stops := fun _ _ _ _ failed => nomatch failed

/-- Parsers one after the other: what the first gives is what the second may assume. -/
theorem bind (first : Meets text low parser post)
    (second : ∀ value middle, low ≤ middle → post middle value →
      Meets text middle (next value) last) :
    Meets text low (parser >>= next) last where
  ends := by
    intro cursor result after stands offset ended
    change (parser cursor >>= fun pair => next pair.1 pair.2) = _ at ended
    obtain ⟨⟨value, between⟩, started, ended⟩ := Outcome.bind_eq_ok_iff.mp ended
    obtain ⟨reached, order, holds⟩ := first.ends cursor value between stands offset started
    obtain ⟨final, further, result⟩ :=
      (second value between.offset order holds).ends between result after reached rfl ended
    exact ⟨final, Int.le_trans order further, result⟩
  stops := by
    intro cursor fault stands offset failed
    change (parser cursor >>= fun pair => next pair.1 pair.2) = _ at failed
    rcases Outcome.bind_eq_error_iff.mp failed with failed | ⟨⟨value, between⟩, started, failed⟩
    · exact first.stops cursor fault stands offset failed
    · obtain ⟨reached, order, holds⟩ := first.ends cursor value between stands offset started
      exact (second value between.offset order holds).stops between fault reached rfl failed

/-- A parser that meets a condition meets every weaker one. -/
theorem mono (met : Meets text low parser post)
    (weaker : ∀ value high, low ≤ high → post high value → other high value) :
    Meets text low parser other where
  ends := by
    intro cursor value after stands offset ended
    obtain ⟨reached, order, holds⟩ := met.ends cursor value after stands offset ended
    exact ⟨reached, order, weaker value _ order holds⟩
  stops := met.stops

/-- A parser that stops at a syntax fault meets every condition. -/
theorem stop (cause : SyntaxFault) (place : Cursor) :
    Meets text low (Script.stop cause place : Parser α) post where
  ends := fun _ _ _ _ _ ended => nomatch ended
  stops := by
    intro cursor fault stands offset failed
    cases failed
    rfl

/-- A parser that refuses what lies ahead meets every condition. -/
theorem refuse (place : Cursor) : Meets text low (Script.refuse place : Parser α) post := by
  unfold Script.refuse
  split
  · exact stop _ _
  · split
    · exact stop _ _
    · exact stop _ _

/-- The cursor is looked at without moving. -/
theorem get {next : Cursor → Parser β}
    (second : ∀ cursor : Cursor, cursor.At text → (cursor.offset : Int) = low →
      Meets text low (next cursor) last) :
    Meets text low (MonadState.get >>= next) last := by
  constructor
  · intro cursor value after stands offset ended
    exact (second cursor stands offset).ends cursor value after stands offset ended
  · intro cursor fault stands offset failed
    exact (second cursor stands offset).stops cursor fault stands offset failed

/-- Moves to a later cursor. -/
theorem set {cursor : Cursor} {next : PUnit → Parser β} (stands : cursor.At text)
    (order : low ≤ cursor.offset) (second : Meets text cursor.offset (next ⟨⟩) last) :
    Meets text low (MonadStateOf.set cursor >>= next) last := by
  have moved : Meets text low (MonadStateOf.set cursor : Parser PUnit)
      fun high _ => high = cursor.offset := by
    refine ⟨?_, fun _ _ _ _ failed => nomatch failed⟩
    intro before value after _ _ ended
    cases ended
    exact ⟨stands, order, rfl⟩
  refine moved.bind ?_
  rintro - middle - rfl
  exact second

/-- Two parsers that meet a condition meet it as alternatives. -/
theorem orElse {first second : Parser α} (either : Meets text low first post)
    (otherwise : Meets text low second post) :
    Meets text low (Script.orElse first second) post where
  ends := by
    intro cursor value after stands offset ended
    unfold Script.orElse at ended
    split at ended
    next result started =>
      cases ended
      exact either.ends cursor value after stands offset started
    next => exact otherwise.ends cursor value after stands offset ended
  stops := by
    intro cursor fault stands offset failed
    unfold Script.orElse at failed
    split at failed
    next => cases failed
    next => exact otherwise.stops cursor fault stands offset failed

/-- One of two parsers, and then the rest. -/
theorem branch {choice : Prop} [Decidable choice] {first second : Parser α} {next : α → Parser β}
    (yes : choice → Meets text low first post) (no : ¬ choice → Meets text low second post)
    (rest : ∀ value middle, low ≤ middle → post middle value →
      Meets text middle (next value) last) :
    Meets text low (if choice then first >>= next else second >>= next) last := by
  split
  next holds => exact (yes holds).bind rest
  next holds => exact (no holds).bind rest

/-- The gap ahead is looked at without moving. -/
theorem look {next : Gap → Parser β}
    (second : ∀ gap : Gap, gap.Ahead text low → Meets text low (next gap) last) :
    Meets text low (Script.ahead >>= next) last :=
  get fun cursor stands offset => second cursor.gap ⟨cursor, stands, offset, rfl⟩

/-- The gap ahead stands in the text, and looking at it moves nowhere. -/
theorem ahead {next : Gap → Parser β}
    (second : ∀ gap : Gap, gap.At text low → Meets text low (next gap) last) :
    Meets text low (Script.ahead >>= next) last :=
  look fun gap seen => second gap seen.stands

/-- What follows is looked at without moving. -/
theorem sequel {operators ends : Bool} {next : Sequel → Parser β}
    (second : ∀ following : Sequel, following.At text low → Meets text low (next following) last) :
    Meets text low (Script.sequel operators ends >>= next) last := by
  refine get fun cursor stands offset => second (cursor.sequel operators ends) ?_
  rw [← offset]
  exact stands.sequel operators ends

end Meets

/-! ## Tokens -/

variable {symbol : String} {gap : Gap} {kind : Kind}

/-- A token with this text that ends at `high`, and the comments before it. -/
structure Token (text : List Char) (symbol : String) (low high : Int) (pieces : Pieces) : Prop
    extends Term text true low high pieces where
  leaf : ∃ (comments : Pieces) (leaf : Node), pieces = comments ++ [leaf] ∧
    (∀ comment ∈ comments, comment.kind.isTrivia) ∧ leaf.kind = .ofToken symbol ∧
    leaf.head.named = false ∧ leaf.children = [] ∧
    leaf.span.stop = leaf.span.start + (Utf8.encode symbol).length ∧
    Bytes.cut (Utf8.encodeChars text) leaf.span = Utf8.encode symbol ∧ leaf.span.stop = high

/-- The kind of a token is plain, whatever its text. -/
theorem ofToken_isPlain (symbol : String) : (Kind.ofToken symbol).isPlain := by
  unfold Kind.ofToken
  split <;> rfl

/-- What holds of the pieces of a token, where it ends. -/
theorem meets_token_of {named : Bool} {length : Nat} {post : Int → Pieces → Prop}
    (stands : gap.At text low)
    (holds : post (gap.next.advance length).offset
      (gap.comments ++ [gap.next.leaf (gap.next.advance length) kind named])) :
    Meets text low (takeAfter gap kind named length) post := by
  have order : (gap.next.offset : Int) ≤ (gap.next.advance length).offset :=
    Int.ofNat_le.mpr (gap.next.offset_le_advance length)
  have reached := stands.next.advance length
  exact .set reached (Int.le_trans stands.comments.row.le order) (.pure holds)

/-- A token of a plain kind is one construct of that kind, and the parser moves over it. -/
theorem meets_leaf {named : Bool} {length : Nat} (stands : gap.At text low)
    (plain : kind.isPlain) :
    Meets text low (takeAfter gap kind named length) fun high pieces =>
      Term text true low high pieces ∧ kindOf pieces = some kind ∧ gap.next.offset ≤ high := by
  have order := gap.next.offset_le_advance length
  refine meets_token_of stands ⟨?_, kindOf_concat _ _, Int.ofNat_le.mpr order⟩
  exact stands.term (stands.next.advance length) order plain

/-- Comments and a construct that is no array. -/
theorem Term.ne_array {calm : Bool} {pieces : Pieces} (term : Term text calm low high pieces)
    (single : kindOf pieces = some kind) (other : kind ≠ .array) :
    ∀ piece ∈ pieces, piece.kind ≠ .array := by
  obtain ⟨comments, node, rfl, trivia, -⟩ := term.single
  rw [kindOf_concat] at single
  cases single
  refine List.forall_mem_append.mpr ⟨fun comment member => ?_, List.forall_mem_singleton.mpr other⟩
  exact Kind.ne_array_of_isTrivia (trivia comment member)

/-- A token of a plain kind is one construct. -/
theorem meets_takeAfter {named : Bool} {length : Nat} (stands : gap.At text low)
    (plain : kind.isPlain) :
    Meets text low (takeAfter gap kind named length) (Term text true low) :=
  (meets_leaf stands plain).mono fun _ _ _ held => held.1

/-- A token is one construct, whatever its text. -/
theorem meets_takeToken (stands : gap.At text low) :
    Meets text low (takeToken gap symbol) (Term text true low) :=
  meets_takeAfter stands (ofToken_isPlain symbol)

/-- A token that stands in the text covers its text. -/
theorem meets_token (stands : gap.At text low) (found : symbol.toList <+: gap.next.rest) :
    Meets text low (takeToken gap symbol) (Token text symbol low) := by
  have order := gap.next.offset_le_advance symbol.length
  have ahead : gap.next.rest.take symbol.length = symbol.toList := by
    rw [← String.length_toList]
    exact (List.prefix_iff_eq_take.mp found).symm
  refine meets_token_of stands ⟨stands.term (stands.next.advance _) order (ofToken_isPlain symbol),
    gap.comments, _, rfl, stands.comments.trivia, rfl, rfl, rfl, ?_, ?_, rfl⟩
  · change ((gap.next.advance symbol.length).offset : Int) = gap.next.offset + _
    rw [Cursor.offset_advance, ahead]
    exact Int.natCast_add _ _
  · change Bytes.cut _ ⟨gap.next.offset, (gap.next.advance symbol.length).offset⟩ = _
    rw [stands.next.cut, ahead]
    rfl

/-- A name that is read stands at the front of the text. -/
theorem prefix_of_name? {rest : List Char} (found : name? rest = some symbol) :
    symbol.toList <+: rest := by
  unfold name? at found
  split at found
  next => cases found
  next =>
    cases found
    rw [String.toList_ofList]
    exact List.take_prefix _ _

/-- A mark that is read stands at the front of the text. -/
theorem prefix_of_markAt {rest : List Char} (found : markAt rest = symbol) :
    symbol.toList <+: rest := by
  subst found
  unfold markAt
  split
  next c tail =>
    split
    · exact ⟨_, rfl⟩
    · exact ⟨_, rfl⟩
  next =>
    cases longest : marks.find? fun mark => mark.toList.isPrefixOf rest with
    | none => exact List.nil_prefix
    | some mark =>
        have starts := List.find?_some longest
        exact List.isPrefixOf_iff_prefix.mp starts

/-- A mark that has to follow gives a token with its text. -/
theorem meets_mark : Meets text low (mark symbol) (Token text symbol low) := by
  refine .ahead fun gap stands => ?_
  split
  next found => exact meets_token stands (prefix_of_markAt found)
  next => exact .stop _ _

/-- A word that has to follow gives a token with its text. -/
theorem meets_word : Meets text low (word symbol) (Token text symbol low) := by
  refine .ahead fun gap stands => ?_
  split
  next found => exact meets_token stands (prefix_of_name? found)
  next => exact .stop _ _

/-- Nothing, or comments and then a construct. -/
def Lead (text : List Char) (calm : Bool) (low high : Int) (pieces : Pieces) : Prop :=
  pieces = [] ∧ low ≤ high ∨ Body text calm low high pieces

namespace Lead

variable {calm : Bool} {pieces others : Pieces}

/-- Nothing at all is a lead. -/
theorem nil (order : low ≤ high) : Lead text calm low high [] :=
  .inl ⟨rfl, order⟩

/-- A lead lies in a row. -/
theorem laid (lead : Lead text calm low high pieces) : Laid text calm low high pieces := by
  rcases lead with ⟨rfl, order⟩ | body
  · exact .nil order
  · exact body.toLaid

/-- A construct after a lead is a construct with comments before it. -/
theorem and (lead : Lead text calm low middle pieces) (body : Body text calm middle high others) :
    Body text calm low high (pieces ++ others) := by
  rcases lead with ⟨rfl, order⟩ | first
  · exact ⟨{ body with row := body.row.widen order }, body.headed⟩
  · exact first.and body.toLaid

/-- A lead lies in any stretch that ends later. -/
theorem extend (lead : Lead text calm low middle pieces) (above : middle ≤ high) :
    Lead text calm low high pieces := by
  rcases lead with ⟨rfl, order⟩ | body
  · exact .nil (Int.le_trans order above)
  · exact .inr (body.extend above)

end Lead

/-- Nothing, or one construct. -/
def Maybe (text : List Char) (calm : Bool) (low high : Int) (pieces : Pieces) : Prop :=
  pieces = [] ∧ low ≤ high ∨ Term text calm low high pieces

namespace Maybe

variable {calm : Bool} {pieces : Pieces}

/-- Nothing at all is perhaps a construct. -/
theorem nil (order : low ≤ high) : Maybe text calm low high [] :=
  .inl ⟨rfl, order⟩

/-- Perhaps a construct is a lead. -/
theorem lead (maybe : Maybe text calm low high pieces) : Lead text calm low high pieces :=
  maybe.imp id Term.body

/-- Perhaps a construct lies in a row. -/
theorem laid (maybe : Maybe text calm low high pieces) : Laid text calm low high pieces :=
  maybe.lead.laid

/-- A construct that may be missing has no role. -/
theorem bare (maybe : Maybe text calm low high pieces) :
    ∀ piece ∈ pieces, piece.head.role = none := by
  rcases maybe with ⟨rfl, -⟩ | term
  · exact fun _ member => (List.not_mem_nil member).elim
  · exact term.bare

end Maybe

/-- A mark that may follow gives a token or nothing. -/
theorem meets_mark? : Meets text low (mark? symbol) (Maybe text true low) := by
  refine .ahead fun gap stands => ?_
  split
  next => exact (meets_takeToken stands).mono fun _ _ _ => .inr
  next => exact .pure (.nil (Int.le_refl _))

/-- A word that may follow gives a token or nothing. -/
theorem meets_word? : Meets text low (word? symbol) (Maybe text true low) := by
  refine .ahead fun gap stands => ?_
  split
  next => exact (meets_takeToken stands).mono fun _ _ _ => .inr
  next => exact .pure (.nil (Int.le_refl _))

/-- A name that is free to be chosen is one construct. -/
theorem meets_freeName (plain : kind.isPlain) :
    Meets text low (freeName kind) (Term text true low) := by
  refine .ahead fun gap stands => ?_
  split
  next => exact meets_takeAfter stands plain
  next => exact .refuse _

/-- The end of a statement gives comments, or a semicolon with the comments before it. -/
theorem meets_semicolon {operators : Bool} :
    Meets text low (semicolon operators) fun high pieces =>
      Laid text true low high pieces ∧ (∀ piece ∈ pieces, piece.head.role = none) ∧
        ∀ piece ∈ pieces, piece.kind ≠ .array := by
  refine .sequel fun following stands => ?_
  cases following with
  | ends comments edge =>
      obtain ⟨laid, reached⟩ := stands
      refine .set reached laid.row.le (.pure ⟨laid.laid, laid.bare, fun comment member => ?_⟩)
      exact Kind.ne_array_of_isTrivia (laid.trivia comment member)
  | continues gap =>
      dsimp only
      split
      · refine (meets_leaf stands (ofToken_isPlain ";")).mono ?_
        rintro pieces high - ⟨term, kind, -⟩
        exact ⟨term.toLaid, term.bare, term.ne_array kind (by decide)⟩
      · exact .stop _ _

/-! ## Loops -/

variable {calm : Bool} {done : Pieces}

/-- What a step of a loop gives if it does not decline. -/
def Stepped (holds : Int → Pieces → Prop) (high : Int) (result : Option Pieces) : Prop :=
  ∀ pieces, result = some pieces → holds high pieces

/-- A step that declines promises nothing. -/
theorem Stepped.none {holds : Int → Pieces → Prop} : Stepped holds high none :=
  fun _ absurd => nomatch absurd

/-- A step that gives pieces keeps the promise made of them. -/
theorem Stepped.some {holds : Int → Pieces → Prop} {pieces : Pieces} (held : holds high pieces) :
    Stepped holds high (some pieces) := by
  intro other same
  cases same
  exact held

/-- The invariant is that the pieces so far lie in a row up to the cursor. -/
theorem meets_repeatedFrom {step : Parser (Option Pieces)} (fuel : Nat)
    (each : ∀ middle, Meets text middle step (Stepped (Body text calm middle)))
    (lead : Lead text calm low middle done.reverse) :
    Meets text middle (repeatedFrom step fuel done) (Lead text calm low) := by
  induction fuel generalizing middle done with
  | zero => exact .pure lead
  | succ fuel ih =>
      unfold repeatedFrom
      refine (each middle).bind fun result high order stepped => ?_
      cases result with
      | none => exact .pure (lead.extend order)
      | some pieces =>
          refine ih ?_
          rw [List.reverse_append, List.reverse_reverse]
          exact .inr (lead.and (stepped pieces rfl))

/-- A loop gives a lead if each of its steps gives a construct or declines. -/
theorem meets_repeated {step : Parser (Option Pieces)}
    (each : ∀ middle, Meets text middle step (Stepped (Body text calm middle))) :
    Meets text low (repeated step) (Lead text calm low) := by
  refine .get fun cursor _ _ => ?_
  exact meets_repeatedFrom _ each (.nil (Int.le_refl _))

/-- What holds of pieces and still holds further on is kept by a loop if each step
keeps it. -/
theorem meets_extended {step : Pieces → Parser (Option Pieces)} {holds : Int → Pieces → Prop}
    {first : Pieces}
    (further : ∀ {middle high pieces}, middle ≤ high → holds middle pieces → holds high pieces)
    (each : ∀ middle pieces, holds middle pieces →
      Meets text middle (step pieces) (Stepped holds))
    (held : holds low first) : Meets text low (extended first step) holds := by
  have loop : ∀ fuel middle pieces, holds middle pieces →
      Meets text middle (extendedFrom step fuel pieces) holds := by
    intro fuel
    induction fuel with
    | zero => exact fun middle pieces held => .pure held
    | succ fuel ih =>
        intro middle pieces held
        unfold extendedFrom
        refine (each middle pieces held).bind fun result high order stepped => ?_
        cases result with
        | none => exact .pure (further order held)
        | some larger => exact ih high larger (stepped larger rfl)
  exact .get fun cursor _ _ => loop _ _ _ held

/-! ## Goals -/

/-- Whether nothing in what a goal asks for is rewritten. -/
def Goal.isCalm : Goal → Bool
  | .statement => false
  | _ => true

/-- The parser that rules call on gives one construct for every goal. -/
def Obeys (text : List Char) (self : Goal → Parser Pieces) : Prop :=
  ∀ goal low, Meets text low (self goal) (Term text goal.isCalm low)

end Codebox.Script
