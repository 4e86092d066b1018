import Codebox.Script.Program
import Codebox.Proofs.Parsing.Member

/-! # What stands before a token

Comments before the first token of a construct come out in front of it. So the pieces that a
parser gives start with the comments of the gap that it finds, then comes a node that is no
comment, and the text of that starts with a visible character. This is so if the first thing that
a parser does is to take a token after the gap, or to call on a parser of which it is so.
-/

namespace Codebox.Script

variable {α β : Type}

/-! ## Visible text -/

/-- A text starts with a character that is neither a control nor a space of ASCII. -/
def Visible (text : List Char) : Prop :=
  ∃ c rest, text = c :: rest ∧ 0x20 < c.toNat

/-- A text is visible if something visible stands at its front. -/
theorem visible_of_start {symbol text : List Char} (visible : Visible symbol)
    (found : symbol <+: text) : Visible text := by
  obtain ⟨c, rest, rfl, high⟩ := visible
  obtain ⟨more, rfl⟩ := found
  exact ⟨c, rest ++ more, rfl, high⟩

/-- All marks are visible. -/
theorem visible_marks : ∀ symbol ∈ marks, Visible symbol.toList := by
  have heads : ∀ symbol ∈ marks, symbol.toList.head?.any (0x20 < ·.toNat) := by decide
  intro symbol member
  obtain ⟨c, head, high⟩ := (Option.any_eq_true _ _).mp (heads symbol member)
  obtain ⟨rest, parts⟩ := List.head?_eq_some_iff.mp head
  exact ⟨c, rest, parts, of_decide_eq_true high⟩

/-- A text that starts with a mark is visible. -/
theorem visible_of_markAt {text : List Char} (found : markAt text ≠ "") : Visible text := by
  unfold markAt at found
  split at found
  · exact ⟨_, _, rfl, by decide⟩
  · cases first : marks.find? fun mark => mark.toList.isPrefixOf text with
    | none => simp [first] at found
    | some symbol =>
        have starts : symbol.toList.isPrefixOf text := by simpa using List.find?_some first
        exact visible_of_start (visible_marks symbol (List.mem_of_find?_eq_some first))
          (List.isPrefixOf_iff_prefix.mp starts)

/-- The characters of names lie above the controls and the space. -/
theorem visible_of_isNamePart {c : Char} (part : isNamePart c) : 0x20 < c.toNat := by
  simp only [isNamePart, isSpace, Bool.and_eq_true, decide_eq_true_eq] at part
  obtain ⟨⟨low, space⟩, -⟩ := part
  refine Nat.lt_of_le_of_ne low fun same => ?_
  simp [← same] at space

/-- An escape in a name starts with a backslash, which is visible. -/
theorem visible_of_nameEscape? {c : Char} {rest : List Char} {width : Nat}
    (found : nameEscape? (c :: rest) = some width) : 0x20 < c.toNat := by
  unfold nameEscape? at found
  split at found
  next same =>
    cases same
    decide
  next same =>
    cases same
    decide
  next => cases found

/-- A text that starts with a name of some length is visible. -/
theorem visible_of_nameLength {text : List Char} (long : nameLength text ≠ 0) : Visible text := by
  cases text with
  | nil => exact absurd rfl long
  | cons c rest =>
      refine ⟨c, rest, rfl, ?_⟩
      rw [nameLength] at long
      split at long
      · exact absurd rfl long
      · rw [nameRest] at long
        split at long
        next part => exact visible_of_isNamePart part
        next =>
          split at long
          next escape => exact visible_of_nameEscape? escape
          next => exact absurd rfl long

/-- A text that starts with a name is visible. -/
theorem visible_of_name? {text : List Char} {name : String} (found : name? text = some name) :
    Visible text := by
  unfold name? at found
  split at found
  next => cases found
  next long => exact visible_of_nameLength long

/-- A text that starts with a name that is free to be chosen is visible. -/
theorem visible_of_freeName? {text : List Char} {name : String}
    (found : freeName? text = some name) : Visible text :=
  visible_of_name? (Option.filter_eq_some_iff.mp found).1

/-- A text that starts with a string is visible, since strings start with a quote. -/
theorem visible_of_stringLength? {text : List Char} {length : Nat}
    (found : stringLength? text = some length) : Visible text := by
  unfold stringLength? at found
  split at found
  next => cases found
  next quote rest =>
    split at found
    next quoted =>
      refine ⟨quote, rest, rfl, ?_⟩
      simp only [Bool.or_eq_true, decide_eq_true_eq] at quoted
      obtain rfl | rfl := quoted
      · decide
      · decide
    next => cases found

/-- No number starts with a control or a space. -/
theorem numberLength_of_low {c : Char} {rest : List Char} (low : c.toNat ≤ 0x20) :
    numberLength (c :: rest) = 0 := by
  have zero : c ≠ '0' := by
    rintro rfl
    exact absurd low (by decide)
  have point : c ≠ '.' := by
    rintro rfl
    exact absurd low (by decide)
  have digit : isDigit c = false := by
    have least : ¬ '0' ≤ c := fun least => by
      have code : '0'.toNat ≤ c.toNat := least
      exact absurd (Nat.le_trans code low) (by decide)
    simp [isDigit, least]
  have digits : digitsLength isDigit (c :: rest) = 0 := by simp [digitsLength, digit]
  have whole : wholeLength (c :: rest) = 0 := by
    unfold wholeLength
    split
    next same =>
      cases same
      exact absurd rfl zero
    next => exact digits
  have based : basedLength (c :: rest) = 0 := by
    unfold basedLength
    split
    next same =>
      cases same
      exact absurd rfl zero
    next => rfl
  have dotted : pointLength (c :: rest) = 0 := by
    unfold pointLength
    simp only [whole, List.drop_zero]
    split
    next same =>
      cases same
      exact absurd rfl point
    next => rfl
  simp [numberLength, digits, dotted, scientificLength, whole, based, bigLength]

/-- A text that starts with a number is visible. -/
theorem visible_of_numberLength {text : List Char} (long : numberLength text ≠ 0) :
    Visible text := by
  cases text with
  | nil => exact absurd rfl long
  | cons c rest =>
      refine ⟨c, rest, rfl, Nat.lt_of_not_le fun low => ?_⟩
      exact long (numberLength_of_low low)

/-! ## Pieces that start with a gap -/

/-- Pieces that start with the comments of a gap and then go on with a node that is no
comment and starts where the gap ends. -/
structure Gap.Opens (gap : Gap) (pieces : Pieces) : Prop where
  trivia : ∀ comment ∈ gap.comments, comment.kind.isTrivia
  visible : Visible gap.next.rest
  leads : ∃ (first : Node) (rest : Pieces), pieces = gap.comments ++ first :: rest ∧
    first.kind.isTrivia = false ∧ first.span.start = gap.next.offset

namespace Gap.Opens

variable {gap : Gap} {pieces : Pieces}

/-- More pieces at the end leave the start as it is. -/
theorem append (opens : gap.Opens pieces) (others : Pieces) : gap.Opens (pieces ++ others) := by
  obtain ⟨first, rest, rfl, solid⟩ := opens.leads
  exact ⟨opens.trivia, opens.visible, first, rest ++ others, by simp, solid⟩

/-- Wrapping leaves the comments in front and builds a node that starts where the first did. -/
theorem wrap (opens : gap.Opens pieces) {kind : Kind} (solid : kind.isTrivia = false) :
    gap.Opens (Script.wrap kind pieces) := by
  obtain ⟨first, rest, rfl, solidFirst, starts⟩ := opens.leads
  rw [wrap_eq opens.trivia solidFirst]
  exact ⟨opens.trivia, opens.visible, _, [], rfl, solid, starts⟩

/-- Another node in the place of the last one. -/
theorem last {front : Pieces} {node other : Node} (opens : gap.Opens (front ++ [node]))
    (span : other.span = node.span)
    (kept : node.kind.isTrivia = false → other.kind.isTrivia = false) :
    gap.Opens (front ++ [other]) := by
  obtain ⟨first, rest, parts, solid⟩ := opens.leads
  refine ⟨opens.trivia, opens.visible, ?_⟩
  obtain rfl | ⟨inner, final, rfl⟩ := List.eq_nil_or_concat' rest
  · obtain ⟨rfl, same⟩ := List.append_inj' parts rfl
    cases same
    exact ⟨other, [], rfl, kept solid.1, span ▸ solid.2⟩
  · rw [← List.cons_append, ← List.append_assoc] at parts
    obtain ⟨rfl, -⟩ := List.append_inj' parts rfl
    exact ⟨first, inner ++ [other], by simp, solid⟩

/-- A role for the last piece leaves the start as it is. -/
theorem inRole {front : Pieces} (opens : gap.Opens (front ++ pieces)) (role : Role) :
    gap.Opens (front ++ Script.inRole role pieces) := by
  obtain rfl | ⟨inner, node, rfl⟩ := List.eq_nil_or_concat' pieces
  · exact opens
  · rw [inRole_concat, ← List.append_assoc]
    rw [← List.append_assoc] at opens
    obtain ⟨head, children⟩ := node
    exact opens.last rfl fun solid => solid

/-- A role leaves the start as it is. -/
theorem role (opens : gap.Opens pieces) (role : Role) : gap.Opens (Script.inRole role pieces) := by
  have whole : gap.Opens ([] ++ Script.inRole role pieces) := inRole opens role
  exact whole

/-- An assignment target starts as what it is read from. -/
theorem target? {target : Pieces} (opens : gap.Opens pieces)
    (found : Script.target? pieces = some target) : gap.Opens target := by
  unfold Script.target? at found
  split at found
  next node last =>
    split at found
    · cases found
      exact opens
    · obtain ⟨pattern, foundPattern, rfl⟩ := Option.map_eq_some_iff.mp found
      rw [← List.dropLast_append_getLast? node last] at opens
      obtain ⟨-, span, kept⟩ := pattern?_target foundPattern
      exact opens.last span kept
  next => cases found

end Gap.Opens

/-! ## Parsers -/

/-- What a parser gives has a property. -/
def Yields (parser : Parser α) (post : α → Prop) : Prop :=
  ∀ cursor value next, parser cursor = .ok (value, next) → post value

namespace Yields

variable {post : β → Prop}

/-- A value with the property. -/
theorem pure {value : β} (holds : post value) : Yields (Pure.pure value) post := by
  intro cursor result next ended
  cases ended
  exact holds

/-- A parser that stops gives nothing to speak of. -/
theorem stop (cause : SyntaxFault) (place : Cursor) : Yields (Script.stop cause place) post :=
  fun _ _ _ ended => nomatch ended

/-- A parser that refuses what lies ahead gives nothing to speak of. -/
theorem refuse (place : Cursor) : Yields (Script.refuse place) post := by
  unfold Script.refuse
  split
  · exact stop _ _
  · split
    · exact stop _ _
    · exact stop _ _

/-- What the first parser gives is what the second may assume. -/
theorem bind {held : α → Prop} {first : Parser α} {next : α → Parser β} (head : Yields first held)
    (later : ∀ value, held value → Yields (next value) post) : Yields (first >>= next) post := by
  intro cursor result after ended
  change (first cursor >>= fun pair => next pair.1 pair.2) = _ at ended
  obtain ⟨⟨value, between⟩, started, ended⟩ := Outcome.bind_eq_ok_iff.mp ended
  exact later value (head cursor value between started) between result after ended

/-- What comes first does not matter. -/
theorem skip {first : Parser α} {next : α → Parser β} (later : ∀ value, Yields (next value) post) :
    Yields (first >>= next) post := by
  have any : Yields first fun _ => True := fun _ _ _ _ => trivial
  exact any.bind fun value _ => later value

/-- Two alternatives with a property. -/
theorem orElse {first second : Parser β} (either : Yields first post)
    (otherwise : Yields second post) : Yields (Script.orElse first second) post := by
  intro cursor result after ended
  unfold Script.orElse at ended
  split at ended
  next started =>
    cases ended
    exact either cursor result after started
  next => exact otherwise cursor result after ended

/-- One of two parsers, and then the rest. -/
theorem branch {choice : Prop} [Decidable choice] {first second : Parser α}
    {next : α → Parser β} (later : ∀ value, Yields (next value) post) :
    Yields (if choice then first >>= next else second >>= next) post := by
  split
  · exact .skip later
  · exact .skip later

end Yields

/-- The pieces that a parser gives start with the gap that it finds. -/
def Leads (gap : Gap) (parser : Parser Pieces) : Prop :=
  ∀ cursor pieces next, cursor.gap = gap → parser cursor = .ok (pieces, next) → gap.Opens pieces

namespace Leads

variable {gap : Gap} {first : Parser Pieces} {next : Pieces → Parser Pieces}

/-- A parser leads if its pieces start with the gap wherever it is run. -/
theorem of_yields {parser : Parser Pieces} (yields : Yields parser gap.Opens) : Leads gap parser :=
  fun cursor pieces next _ ended => yields cursor pieces next ended

/-- A parser leads if its first part does and the rest keeps the start. -/
theorem bind (head : Leads gap first)
    (later : ∀ pieces, gap.Opens pieces → Yields (next pieces) gap.Opens) :
    Leads gap (first >>= next) := by
  intro cursor result after here ended
  change (first cursor >>= fun pair => next pair.1 pair.2) = _ at ended
  obtain ⟨⟨pieces, between⟩, started, ended⟩ := Outcome.bind_eq_ok_iff.mp ended
  exact later pieces (head cursor pieces between here started) between result after ended

/-- Looking at the gap ahead finds this gap. -/
theorem ahead {next : Gap → Parser Pieces} (later : Leads gap (next gap)) :
    Leads gap (Script.ahead >>= next) := by
  intro cursor result after here ended
  subst here
  exact later cursor result after rfl ended

/-- Two alternatives that lead. -/
theorem orElse {second : Parser Pieces} (either : Leads gap first) (otherwise : Leads gap second) :
    Leads gap (Script.orElse first second) := by
  intro cursor result after here ended
  unfold Script.orElse at ended
  split at ended
  next started =>
    cases ended
    exact either cursor result after here started
  next => exact otherwise cursor result after here ended

end Leads

/-- What a parser gives starts with the gap at the offset that it starts from. -/
theorem Meets.leading {text : List Char} {low : Int} {parser : Parser Pieces}
    {post : Int → Pieces → Prop} (met : Meets text low parser post)
    (leads : ∀ gap, Leads gap parser) :
    Meets text low parser fun high pieces =>
      post high pieces ∧ ∃ gap : Gap, gap.Ahead text low ∧ gap.Opens pieces where
  ends := by
    intro cursor pieces next stands offset ended
    obtain ⟨reached, order, holds⟩ := met.ends cursor pieces next stands offset ended
    refine ⟨reached, order, holds, cursor.gap, ⟨cursor, stands, offset, rfl⟩, ?_⟩
    exact leads cursor.gap cursor pieces next rfl ended
  stops := met.stops

/-- A parser that may decline: it gives nothing, does not move, and `idle` holds, or its pieces
start with the gap that it finds. -/
def MayLead (gap : Gap) (idle : Prop) (parser : Parser Pieces) : Prop :=
  ∀ cursor pieces next, cursor.gap = gap → parser cursor = .ok (pieces, next) →
    (pieces = [] ∧ next = cursor ∧ idle) ∨ gap.Opens pieces

namespace MayLead

variable {gap : Gap} {idle : Prop}

/-- Nothing is given without moving. -/
theorem nothing (holds : idle) : MayLead gap idle (pure []) := by
  intro cursor pieces next _ ended
  cases ended
  exact .inl ⟨rfl, rfl, holds⟩

/-- A parser that leads never declines. -/
theorem of_leads {parser : Parser Pieces} (leads : Leads gap parser) : MayLead gap idle parser :=
  fun cursor pieces next here ended => .inr (leads cursor pieces next here ended)

/-- Looking at the gap ahead finds this gap. -/
theorem ahead {next : Gap → Parser Pieces} (later : MayLead gap idle (next gap)) :
    MayLead gap idle (Script.ahead >>= next) := by
  intro cursor pieces after here ended
  subst here
  exact later cursor pieces after rfl ended

end MayLead

/-- A parser that goes on after pieces: its own pieces start with the gap if those did, or if
there were none. -/
structure Onward (gap : Gap) (before : Pieces) (parser : Parser Pieces) : Prop where
  fresh : before = [] → Leads gap parser
  begun : gap.Opens before → Yields parser gap.Opens

/-- After a parser that may decline, one that goes on from its pieces leads. -/
theorem MayLead.onward {gap : Gap} {idle : Prop} {first : Parser Pieces}
    {next : Pieces → Parser Pieces} (head : MayLead gap idle first)
    (later : ∀ pieces, Onward gap pieces (next pieces)) : Leads gap (first >>= next) := by
  intro cursor result after here ended
  change (first cursor >>= fun pair => next pair.1 pair.2) = _ at ended
  obtain ⟨⟨pieces, between⟩, started, finished⟩ := Outcome.bind_eq_ok_iff.mp ended
  obtain ⟨rfl, rfl, -⟩ | opens := head cursor pieces between here started
  · exact (later []).fresh rfl _ result after here finished
  · exact (later pieces).begun opens between result after finished

/-- A parser that starts with one that leads goes on after any pieces. -/
theorem Leads.onward {gap : Gap} {before : Pieces} {first : Parser Pieces}
    {next : Pieces → Parser Pieces} (head : Leads gap first)
    (later : ∀ pieces, gap.Opens (before ++ pieces) → Yields (next pieces) gap.Opens) :
    Onward gap before (first >>= next) where
  fresh := by
    rintro rfl
    exact head.bind later
  begun := fun opens => .skip fun pieces => later pieces (opens.append pieces)

/-! ## Tokens -/

/-- A gap has only comments besides those that were found before it. -/
theorem trivia_gapFrom {html : Bool} (fuel : Nat) {found : List Node} {edge : Cursor}
    (trivia : ∀ comment ∈ found, comment.kind.isTrivia) :
    ∀ comment ∈ (gapFrom html fuel found edge).comments, comment.kind.isTrivia := by
  induction fuel generalizing found edge with
  | zero => simpa [gapFrom] using trivia
  | succ fuel ih =>
      unfold gapFrom
      dsimp only
      split
      next kind length ahead =>
        refine ih (List.forall_mem_cons.mpr ⟨?_, trivia⟩)
        exact (comment?_eq_some ahead).1
      next => simpa using trivia

/-- The gap at a cursor has only comments. -/
theorem trivia_gap (cursor : Cursor) : ∀ comment ∈ cursor.gap.comments, comment.kind.isTrivia :=
  trivia_gapFrom _ fun _ member => (List.not_mem_nil member).elim

variable {gap : Gap} {symbol : String}

/-- A visible token after the gap starts the pieces. -/
theorem leads_takeAfter {kind : Kind} {named : Bool} {length : Nat}
    (visible : Visible gap.next.rest) (solid : kind.isTrivia = false) :
    Leads gap (takeAfter gap kind named length) := by
  intro cursor pieces next here ended
  cases ended
  refine ⟨?_, visible, _, [], rfl, solid, rfl⟩
  rw [← here]
  exact trivia_gap cursor

/-- A visible token with its text starts the pieces. -/
theorem leads_takeToken (visible : Visible gap.next.rest) : Leads gap (takeToken gap symbol) :=
  leads_takeAfter visible (Kind.isTrivia_of_isPlain (ofToken_isPlain symbol))

/-- A word that has to follow starts the pieces. -/
theorem leads_word : Leads gap (word symbol) := by
  refine .ahead ?_
  split
  next found => exact leads_takeToken (visible_of_name? found)
  next => exact .of_yields (.stop _ _)

/-- A mark that has to follow starts the pieces. -/
theorem leads_mark (filled : symbol ≠ "") : Leads gap (mark symbol) := by
  refine .ahead ?_
  split
  next found => exact leads_takeToken (visible_of_markAt (found ▸ filled))
  next => exact .of_yields (.stop _ _)

/-- A name starts the pieces. -/
theorem leads_freeName {kind : Kind} (solid : kind.isTrivia = false) :
    Leads gap (freeName kind) := by
  refine .ahead ?_
  split
  next found => exact leads_takeAfter (visible_of_freeName? found) solid
  next => exact .of_yields (.refuse _)

/-- A word that may follow starts the pieces, or there are none. -/
theorem mayLead_word? : MayLead gap True (word? symbol) := by
  refine .ahead ?_
  split
  next found => exact .of_leads (leads_takeToken (visible_of_name? found))
  next => exact .nothing trivial

/-! ## Loops -/

/-- A step of a loop that declines without moving, where `idle` holds, or gives pieces that start
with the gap that it finds. -/
def StepLeads (gap : Gap) (idle : Prop) (step : Parser (Option Pieces)) : Prop :=
  ∀ cursor result next, cursor.gap = gap → step cursor = .ok (result, next) →
    (result = none ∧ next = cursor ∧ idle) ∨ ∃ pieces, result = some pieces ∧ gap.Opens pieces

namespace StepLeads

variable {idle : Prop}

/-- A step declines without moving. -/
theorem none (holds : idle) : StepLeads gap idle (return none) := by
  intro cursor result next _ ended
  cases ended
  exact .inl ⟨rfl, rfl, holds⟩

/-- Looking at the gap ahead finds this gap. -/
theorem ahead {next : Gap → Parser (Option Pieces)} (later : StepLeads gap idle (next gap)) :
    StepLeads gap idle (Script.ahead >>= next) := by
  intro cursor result after here ended
  subst here
  exact later cursor result after rfl ended

/-- A step that starts with a parser that leads gives pieces that start with the gap. -/
theorem bind {first : Parser Pieces} {next : Pieces → Parser (Option Pieces)}
    (head : Leads gap first)
    (later : ∀ pieces, gap.Opens pieces →
      Yields (next pieces) fun result => ∃ larger, result = some larger ∧ gap.Opens larger) :
    StepLeads gap idle (first >>= next) := by
  intro cursor result after here ended
  obtain ⟨⟨pieces, between⟩, started, finished⟩ := Outcome.bind_eq_ok_iff.mp ended
  exact .inr (later pieces (head cursor pieces between here started) between result after finished)

end StepLeads

/-- A loop keeps the pieces that it has. -/
theorem yields_repeatedFrom {step : Parser (Option Pieces)} (fuel : Nat) {done : Pieces} :
    Yields (repeatedFrom step fuel done) fun result => ∃ more, result = done.reverse ++ more := by
  induction fuel generalizing done with
  | zero => exact .pure ⟨[], (List.append_nil _).symm⟩
  | succ fuel ih =>
      refine .skip fun result => ?_
      cases result with
      | none => exact .pure ⟨[], (List.append_nil _).symm⟩
      | some pieces =>
          intro cursor result next ended
          obtain ⟨more, rfl⟩ := ih cursor result next ended
          exact ⟨pieces ++ more, by simp⟩

/-- A loop starts as its first step does. -/
theorem mayLead_repeated {idle : Prop} {step : Parser (Option Pieces)}
    (leads : StepLeads gap idle step) : MayLead gap idle (repeated step) := by
  intro cursor pieces next here ended
  change repeatedFrom step (cursor.size + 1) [] cursor = _ at ended
  rw [repeatedFrom] at ended
  obtain ⟨⟨result, between⟩, started, finished⟩ := Outcome.bind_eq_ok_iff.mp ended
  obtain ⟨rfl, rfl, idle⟩ | ⟨first, rfl, opens⟩ := leads cursor result between here started
  · cases finished
    exact .inl ⟨rfl, rfl, idle⟩
  · obtain ⟨more, rfl⟩ := yields_repeatedFrom _ _ _ _ finished
    right
    simpa using opens.append more

/-- A step declines, or gives pieces that start with a gap. -/
def Gap.MayOpen (gap : Gap) (result : Option Pieces) : Prop :=
  ∀ larger ∈ result, gap.Opens larger

/-- A step that declines gives no pieces to speak of. -/
theorem Gap.MayOpen.none : gap.MayOpen none :=
  fun _ member => nomatch member

/-- A step gives pieces that start with the gap. -/
theorem Gap.MayOpen.some {pieces : Pieces} (opens : gap.Opens pieces) :
    gap.MayOpen (some pieces) := by
  intro larger member
  cases member
  exact opens

/-- What a step makes of pieces that start with a gap does so too. -/
def Grows (gap : Gap) (step : Pieces → Parser (Option Pieces)) : Prop :=
  ∀ pieces, gap.Opens pieces → Yields (step pieces) gap.MayOpen

/-- By induction on the rounds: every round keeps the start. -/
theorem yields_extendedFrom {step : Pieces → Parser (Option Pieces)} (grows : Grows gap step)
    (fuel : Nat) {pieces : Pieces} (opens : gap.Opens pieces) :
    Yields (extendedFrom step fuel pieces) gap.Opens := by
  induction fuel generalizing pieces with
  | zero => exact .pure opens
  | succ fuel ih =>
      refine (grows pieces opens).bind fun result larger => ?_
      cases result with
      | none => exact .pure opens
      | some pieces => exact ih (larger pieces rfl)

/-- A loop over pieces that start with the gap keeps the start. -/
theorem yields_extended {step : Pieces → Parser (Option Pieces)} {pieces : Pieces}
    (grows : Grows gap step) (opens : gap.Opens pieces) :
    Yields (extended pieces step) gap.Opens :=
  .skip fun _ => yields_extendedFrom grows _ opens

end Codebox.Script
