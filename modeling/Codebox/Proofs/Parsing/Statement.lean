import Codebox.Script.Control
import Codebox.Script.Exchange
import Codebox.Proofs.Parsing.Gaps
import Codebox.Proofs.Parsing.Leading
import Codebox.Proofs.Parsing.Shapes

/-! # Statements

Every rule for a statement gives one construct of the shape of its kind.
-/

namespace Codebox.Script

variable {text : List Char} {low middle high : Int} {self : Goal → Parser Pieces}
  {pieces before : Pieces} {gap : Gap} {place : BlockPlace}

/-! ## Simple statements -/

/-- An expression statement is one calm construct. -/
theorem meets_expressionStatement (obeys : Obeys text self) :
    Meets text low (expressionStatement self) (Term text true low) := by
  refine (obeys (.sequence true) low).bind fun inner _ _ first => ?_
  refine meets_semicolon.bind fun closing _ _ second => ?_
  exact .pure ((first.and second.1).wrap rfl)

/-- An empty statement is one calm construct. -/
theorem meets_emptyStatement : Meets text low emptyStatement (Term text true low) :=
  meets_mark.bind fun _ _ _ token => .pure (token.body.wrap rfl)

/-- What a declarator or a handler binds is one construct. -/
theorem meets_binding (obeys : Obeys text self) :
    Meets text low (binding self) (Term text true low) := by
  refine .ahead fun gap _ => ?_
  split
  · exact meets_freeName rfl
  · split
    · refine (obeys (.primary false) low).bind fun target _ _ term => ?_
      split
      next found => exact .pure (term.target? found)
      next => exact .refuse _
    · exact .refuse _

/-- Blanks are written in bytes of blanks. -/
theorem isBlankByte_of_isSpace {blanks : List Char} (spaces : ∀ c ∈ blanks, isSpace c) :
    ∀ byte ∈ Utf8.encodeChars blanks, isBlankByte byte := by
  induction blanks with
  | nil => exact fun _ member => (List.not_mem_nil member).elim
  | cons c rest ih =>
      obtain ⟨space, spaces⟩ := List.forall_mem_cons.mp spaces
      refine List.forall_mem_append.mpr ⟨fun byte member => ?_, ih spaces⟩
      have code : c.toNat ≤ 0x20 ∨ 0x80 ≤ c.toNat := by
        simp only [isSpace, Bool.or_eq_true, Bool.and_eq_true, decide_eq_true_eq, beq_iff_eq]
          at space
        omega
      have wide : byte.toNat ≤ 0x20 ∨ 0x80 ≤ byte.toNat := by
        have found := Utf8.toNat_of_mem_encodeChar member
        omega
      simpa [isBlankByte, UInt8.le_iff_toNat_le] using wide

/-- Only blanks come before an array that starts after a gap, or before the first comment of the
gap. -/
theorem Gap.Opens.returnable {calm : Bool} (opens : gap.Opens pieces) (seen : gap.Ahead text low)
    (term : Term text calm low high pieces) : Returnable text low pieces := by
  obtain ⟨cursor, stands, rfl, rfl⟩ := seen
  rintro ⟨array, member, kind⟩
  have order : (cursor.offset : Int) ≤ cursor.skipSpace.offset :=
    Int.ofNat_le.mpr (cursor.offset_le_advance _)
  have blank : ∀ byte ∈ Bytes.cut (Utf8.encodeChars text)
      ⟨cursor.offset, cursor.skipSpace.offset⟩, isBlankByte byte := by
    unfold Cursor.skipSpace
    rw [stands.cut, ← List.prefix_iff_eq_take.mp (List.takeWhile_prefix _)]
    exact isBlankByte_of_isSpace fun c => List.mem_takeWhile_imp
  obtain ⟨first, rest, rfl, solid, starts⟩ := opens.leads
  rcases gap_start cursor with ⟨bare, next⟩ | ⟨comment, others, comments, begins⟩
  · rw [bare, List.nil_append] at term member
    rw [next] at starts
    -- No comment comes before the construct, so the array is the construct.
    obtain ⟨front, node, parts, trivia, -⟩ := term.single
    obtain rfl : front = [] := by
      cases front with
      | nil => rfl
      | cons comment front =>
          obtain ⟨rfl, -⟩ := List.cons.inj parts
          rw [trivia first List.mem_cons_self] at solid
          cases solid
    obtain ⟨rfl, rfl⟩ := List.cons.inj parts
    obtain rfl := List.mem_singleton.mp member
    exact ⟨array, by simp, .inl kind, starts ▸ order, starts ▸ blank⟩
  · have among : comment ∈ cursor.gap.comments := by
      rw [comments]
      exact List.mem_cons_self
    refine ⟨comment, List.mem_append_left _ among, .inr (opens.trivia comment among), ?_⟩
    rw [begins]
    exact ⟨order, blank⟩

/-- A return statement has the shape of one. After its keyword comes nothing, a semicolon, or a
value, which is the only place for an array. -/
theorem meets_returnStatement (obeys : Obeys text self) (leading : Leading self) :
    Meets text low (returnStatement self) (Term text false low) := by
  refine meets_word.bind fun keyword _ _ first => .sequel fun following stands => ?_
  cases following with
  | ends comments edge =>
      obtain ⟨trailing, reached⟩ := stands
      have other : ∀ comment ∈ comments, comment.kind ≠ .array := fun comment member =>
        Kind.ne_array_of_isTrivia (trailing.trivia comment member)
      exact .set reached trailing.row.le (.pure (first.returns trailing.laid (.of_ne other)))
  | continues gap =>
      dsimp only
      split
      · refine (meets_leaf stands (ofToken_isPlain ";")).bind ?_
        rintro sign _ - ⟨second, kind, -⟩
        exact .pure (first.returns second.toLaid (.of_ne (second.ne_array kind (by decide))))
      · split
        · exact .refuse _
        · refine ((obeys (.sequence true) _).leading (leading _)).bind ?_
          rintro value _ - ⟨second, gap, seen, opens⟩
          refine meets_semicolon.bind fun closing _ _ third => ?_
          rw [List.append_assoc]
          refine .pure (first.returns (second.toLaid.append third.1) ?_)
          exact (opens.returnable seen second).append third.2.2

/-- A statement that throws is one calm construct. -/
theorem meets_throwStatement (obeys : Obeys text self) :
    Meets text low (throwStatement self) (Term text true low) := by
  refine meets_word.bind fun keyword _ _ first => ?_
  refine (obeys (.sequence true) _).bind fun value _ _ second => ?_
  refine meets_semicolon.bind fun closing _ _ third => ?_
  exact .pure (((first.toTerm.and second.toLaid).and third.1).wrap rfl)

/-- A statement that leaves or restarts a loop is one calm construct. -/
theorem meets_jumpStatement {kind : Kind} {symbol : String} (plain : kind.isPlain) :
    Meets text low (jumpStatement kind symbol) (Term text true low) := by
  refine meets_word.bind fun keyword middle _ first => ?_
  have rest : ∀ label high, Laid text true middle high label →
      Meets text high (do
        let closing ← semicolon false
        return wrap kind (keyword ++ label ++ closing)) (Term text true low) := by
    intro label high second
    refine meets_semicolon.bind fun closing _ _ third => ?_
    exact .pure (((first.toTerm.and second).and third.1).wrap plain)
  refine .sequel fun following _ => ?_
  cases following with
  | ends => exact rest [] middle (.nil (Int.le_refl _))
  | continues gap =>
      dsimp only
      split
      · exact (meets_freeName rfl).bind fun label _ _ second => rest label _ second.toLaid
      · exact rest [] middle (.nil (Int.le_refl _))

/-- A statement that stops for a debugger is one calm construct. -/
theorem meets_debuggerStatement : Meets text low debuggerStatement (Term text true low) := by
  refine meets_word.bind fun keyword _ _ first => ?_
  refine meets_semicolon.bind fun closing _ _ second => ?_
  exact .pure ((first.toTerm.and second.1).wrap rfl)

/-- A statement with a label is one construct, as calm as the statement may be. -/
theorem meets_labeledStatement (obeys : Obeys text self) :
    Meets text low (labeledStatement self) (Term text false low) := by
  refine (meets_freeName rfl).bind fun label _ _ first => ?_
  refine meets_mark.bind fun colon _ _ second => ?_
  refine (obeys .statement _).bind fun body _ _ third => ?_
  exact .pure (((first.and second.toLaid).loosen.and (third.toLaid.inRole .body)).wrap rfl)

/-! ## Declarations of variables -/

/-- Declarators lie in any stretch that ends later. -/
theorem Declarators.extend (bound : Declarators text low middle pieces) (above : middle ≤ high) :
    Declarators text low high pieces :=
  ⟨bound.toLaid.extend above, bound.bare, bound.headed⟩

/-- What is bound makes a declarator, with its initial value or without one. -/
theorem Term.declarators (bound : Term text true low middle pieces)
    (laid : Laid text true middle high others) :
    Declarators text low high
      (Script.wrap .variableDeclarator (Script.inRole .name pieces ++ others)) := by
  have whole := ((bound.inRole .name).and laid).toLaid
  have bare := bound.bare
  obtain ⟨comments, node, rfl, trivia, solid⟩ := bound.single
  have solidName : (node.inRole .name).kind.isTrivia = false := by
    cases node
    exact solid
  rw [inRole_concat, List.append_assoc, List.singleton_append] at whole ⊢
  rw [wrap_eq trivia solidName]
  have shaped : (built .variableDeclarator (node.inRole .name) others).Shaped
      (Utf8.encodeChars text) :=
    shaped_declarator List.mem_cons_self (by cases node; rfl)
  refine ⟨whole.laid_built trivia shaped fun _ => ?_, ?_, ?_⟩
  · refine Node.calm_of_children rfl fun _ child member => ?_
    exact whole.calm rfl child (List.mem_append_right _ member)
  · refine List.forall_mem_append.mpr ⟨(List.forall_mem_append.mp bare).1, ?_⟩
    exact List.forall_mem_singleton.mpr rfl
  · exact ⟨comments, _, [], rfl, trivia, rfl, rfl⟩

/-- A declarator binds something, and may give it a value. -/
theorem meets_declarator (obeys : Obeys text self) :
    Meets text low (declarator self) (Declarators text low) := by
  refine (meets_binding obeys).bind fun name middle _ first => ?_
  have rest : ∀ value high, Laid text true middle high value →
      Meets text high (pure (wrap .variableDeclarator (inRole .name name ++ value)))
        (Declarators text low) :=
    fun value high second => .pure (first.declarators second)
  refine .sequel fun following stands => ?_
  cases following with
  | ends => exact rest [] middle (.nil (Int.le_refl _))
  | continues gap =>
      dsimp only
      split
      · refine (meets_takeToken stands).bind fun equals _ _ second => ?_
        refine (obeys (.expression true) _).bind fun value _ _ third => ?_
        exact rest _ _ (second.toLaid.append (third.toLaid.inRole .value))
      · exact rest [] middle (.nil (Int.le_refl _))

/-- A step over declarators adds one after a comma, or declines. -/
theorem meets_moreDeclarators (obeys : Obeys text self)
    (bound : Declarators text low middle pieces) :
    Meets text middle (moreDeclarators self pieces) (Stepped (Declarators text low)) := by
  refine .sequel fun following stands => ?_
  cases following with
  | ends => exact .pure .none
  | continues gap =>
      dsimp only
      split
      · refine (meets_takeToken stands).bind fun comma _ _ second => ?_
        refine (meets_declarator obeys).bind fun other _ _ third => ?_
        refine .pure (.some ⟨(bound.toLaid.append second.toLaid).append third.toLaid, ?_, ?_⟩)
        · refine List.forall_mem_append.mpr ⟨?_, third.bare⟩
          exact List.forall_mem_append.mpr ⟨bound.bare, second.bare⟩
        · obtain ⟨comments, first, rest, rfl, trivia, declarator, named⟩ := bound.headed
          refine ⟨comments, first, rest ++ comma ++ other, by simp, trivia, declarator, named⟩
      · exact .pure .none

/-- Declarators and the end of the statement make of a keyword what is made of such parts. -/
theorem meets_variablesAfter {kind : Kind} {keyword : Pieces} (obeys : Obeys text self)
    (made : ∀ declarators closing last high, Declarators text middle last declarators →
      Laid text true last high closing → (∀ piece ∈ closing, piece.head.role = none) →
        Term text false low high (wrap kind (keyword ++ declarators ++ closing))) :
    Meets text middle (variablesAfter self kind keyword) (Term text false low) := by
  refine (meets_declarator obeys).bind fun first _ _ bound => ?_
  refine Meets.bind (meets_extended (fun above held => held.extend above)
    (fun _ _ held => meets_moreDeclarators obeys held) bound) fun declarators _ _ second => ?_
  refine meets_semicolon.bind fun closing _ _ third => ?_
  exact .pure (made declarators closing _ _ second third.1 third.2.1)

/-- Where variables are declared, a word stands that is a keyword. -/
theorem name?_of_startsVariables {start : Cursor} (starts : startsVariables start) :
    ∃ symbol, name? start.rest = some symbol ∧ (Kind.ofToken symbol).isKeyword ∧
      0 < (Utf8.encode symbol).length := by
  unfold startsVariables at starts
  split at starts
  next found => exact ⟨_, found, by decide, by decide⟩
  next found => exact ⟨_, found, by decide, by decide⟩
  next found => exact ⟨_, found, by decide, by decide⟩
  next => cases starts

/-- A declaration of variables has the shape of one. -/
theorem meets_variableStatement (obeys : Obeys text self) (seen : gap.Ahead text low)
    (starts : startsVariables gap.next) :
    Meets text low (variableStatement self) (Term text false low) := by
  refine .look fun other seenOther => ?_
  obtain rfl := seen.unique seenOther
  obtain ⟨symbol, found, keyword, visible⟩ := name?_of_startsVariables starts
  dsimp only
  rw [found, Option.getD_some]
  refine (meets_token seen.stands (prefix_of_name? found)).bind fun pieces _ _ token => ?_
  refine meets_variablesAfter obeys fun declarators closing last high bound laid bare => ?_
  refine token.declares visible keyword ?_ bound laid bare
  split <;> rfl

/-- A declaration of resources has the shape of one. -/
theorem meets_resources (obeys : Obeys text self) :
    Meets text low (resources self) (Term text false low) := by
  refine meets_word?.bind fun awaiting _ _ first => meets_word.bind fun keyword _ _ second => ?_
  refine meets_variablesAfter obeys fun declarators closing last high bound laid _ => ?_
  have parts := ((first.lead.and (second.toTerm.inRole .keyword)).and bound.toLaid).and laid
  exact (parts.wrap rfl).loosen

/-! ## Functions and classes -/

/-- What follows the word before a function makes a function declaration of its shape. -/
theorem meets_functionAfter (obeys : Obeys text self) (maybe : Maybe text true low middle before) :
    Meets text middle (functionAfter self place before) (Term text false low) := by
  refine meets_word.bind fun keyword _ _ first => meets_mark?.bind fun star _ _ second => ?_
  refine (meets_freeName rfl).bind fun name _ _ named => ?_
  refine (meets_formalParameters obeys).bind fun parameters _ _ listed => ?_
  refine (meets_block obeys).bind fun body _ _ block => ?_
  have front := (maybe.lead.and first.body).and second.laid
  have parts := ((front.and (named.toLaid.inRole .name)).and
    (listed.toLaid.inRole .parameters)).loosen.and (block.toLaid.inRole .body)
  have bare : ∀ piece ∈ before ++ keyword ++ star, piece.head.role = none := by
    refine List.forall_mem_append.mpr ⟨List.forall_mem_append.mpr ⟨maybe.bare, first.bare⟩, ?_⟩
    exact second.bare
  refine .pure ?_
  split
  · obtain ⟨comments, node, rest, shape, trivia, solid⟩ := parts.headed
    have laid := parts.toLaid
    rw [shape] at laid ⊢
    rw [wrap_eq (fun comment member => (trivia comment member).1) solid]
    refine laid.term_built trivia rfl ?_ fun absurd => nomatch absurd
    exact shaped_function bare named listed block (fun comment member => (trivia comment member).2)
      shape.symm
  · exact parts.wrapScope rfl rfl

/-- A declared function has the shape of one. -/
theorem meets_declaredFunction (obeys : Obeys text self) :
    Meets text low (declaredFunction self place) (Term text false low) :=
  meets_word?.bind fun _ _ _ maybe => meets_functionAfter obeys maybe

/-- A declared class is one calm construct, since a class opens a scope. -/
theorem meets_classAfter (obeys : Obeys text self) (lead : Lead text true low middle before) :
    Meets text middle (classAfter self place before) (Term text true low) := by
  refine (meets_classParts obeys).bind fun parts _ _ body => ?_
  refine meets_closingComments.bind fun comments _ _ trailing => ?_
  exact .pure (((lead.and body).and trailing.laid).wrap rfl)

/-- Whatever declaration is found to start here, it is one construct. -/
theorem meets_declared? {start : Cursor} {parser : Parser Pieces} (obeys : Obeys text self)
    (found : declared? self place start = some parser) :
    Meets text low parser (Term text false low) := by
  unfold declared? at found
  split at found
  · cases found
    exact meets_declaredFunction obeys
  · split at found
    · cases found
      exact (meets_classAfter obeys (.nil (Int.le_refl _))).mono fun _ _ _ term => term.loosen
    · cases found

/-! ## Branches and loops -/

/-- The body of a branch or a loop is one construct. -/
theorem meets_controlled (obeys : Obeys text self) :
    Meets text low (controlled self) (Term text false low) := by
  refine .ahead fun gap _ => ?_
  split
  · exact .stop _ _
  · exact obeys .statement low

/-- A branching statement is one construct, with its branches. -/
theorem meets_ifStatement (obeys : Obeys text self) :
    Meets text low (ifStatement self) (Term text false low) := by
  refine meets_word.bind fun keyword _ _ first => ?_
  refine (meets_condition obeys).bind fun test _ _ second => ?_
  refine (meets_controlled obeys).bind fun yes middle _ third => .ahead fun _ _ => ?_
  have rest : ∀ no high, Laid text false middle high no →
      Meets text high (pure (wrap .ifStatement (keyword ++ test ++ yes ++ no)))
        (Term text false low) :=
    fun no high fourth =>
      .pure ((((first.toTerm.and second.toLaid).loosen.and third.toLaid).and fourth).wrap rfl)
  dsimp only
  split
  · refine meets_word.bind fun otherwise _ _ fourth => ?_
    refine (meets_controlled obeys).bind fun no _ _ fifth => ?_
    exact rest _ _ ((fourth.toTerm.loosen.and fifth.toLaid).wrap rfl).toLaid
  · exact rest [] middle (.nil (Int.le_refl _))

/-- A keyword, a condition and the statement that it controls. -/
theorem meets_guarded {kind : Kind} {symbol : String} (obeys : Obeys text self)
    (plain : kind.isPlain) :
    Meets text low (do
      let keyword ← word symbol
      let test ← condition self
      let body ← controlled self
      return wrap kind (keyword ++ test ++ inRole .body body)) (Term text false low) := by
  refine meets_word.bind fun keyword _ _ first => ?_
  refine (meets_condition obeys).bind fun test _ _ second => ?_
  refine (meets_controlled obeys).bind fun body _ _ third => ?_
  exact .pure (((first.toTerm.and second.toLaid).loosen.and (third.toLaid.inRole .body)).wrap plain)

/-- A loop with a condition is one construct. -/
theorem meets_whileStatement (obeys : Obeys text self) :
    Meets text low (whileStatement self) (Term text false low) :=
  meets_guarded obeys rfl

/-- A statement that opens an object is one construct. -/
theorem meets_withStatement (obeys : Obeys text self) :
    Meets text low (withStatement self) (Term text false low) :=
  meets_guarded obeys rfl

/-- A loop with its condition at the end is one construct. -/
theorem meets_doStatement (obeys : Obeys text self) :
    Meets text low (doStatement self) (Term text false low) := by
  refine meets_word.bind fun keyword _ _ first => ?_
  refine (meets_controlled obeys).bind fun body _ _ second => ?_
  refine meets_word.bind fun again _ _ third => ?_
  refine (meets_condition obeys).bind fun test middle _ fourth => ?_
  have rest : ∀ closing high, Laid text true middle high closing →
      Meets text high (pure (wrap .doStatement
        (keyword ++ inRole .body body ++ again ++ test ++ closing))) (Term text false low) := by
    intro closing high fifth
    have front := first.toTerm.loosen.and (second.toLaid.inRole .body)
    exact .pure ((((front.and third.toLaid.loosen).and fourth.toLaid.loosen).and
      fifth.loosen).wrap rfl)
  refine .sequel fun following stands => ?_
  cases following with
  | ends comments edge =>
      obtain ⟨trailing, reached⟩ := stands
      exact .set reached trailing.row.le (rest comments _ trailing.laid)
  | continues gap =>
      dsimp only
      split
      · exact (meets_takeToken stands).bind fun sign _ _ term => rest sign _ term.toLaid
      · split
        · exact .bind (.refuse _) fun closing _ _ laid => rest closing _ laid
        · exact rest [] middle (.nil (Int.le_refl _))

/-- The word between what a loop binds and what it goes over is one construct. -/
theorem meets_rangeWord : Meets text low rangeWord (Term text true low) := by
  refine .ahead fun gap stands => ?_
  split
  · exact meets_takeToken stands
  · exact meets_takeToken stands
  · exact .refuse _

/-- Where a loop binds by keyword, a word stands. -/
theorem name?_of_startsBoundRange {start : Cursor} (starts : startsBoundRange start) :
    ∃ symbol, name? start.rest = some symbol ∧ 0 < (Utf8.encode symbol).length := by
  unfold startsBoundRange at starts
  split at starts
  next found => exact ⟨_, found, by decide⟩
  next found => exact ⟨_, found, by decide⟩
  next found => exact ⟨_, found, by decide⟩
  next found => exact ⟨_, found, by decide⟩
  next => cases starts

/-- A first value in the head of a loop declares nothing. -/
theorem meets_rangeInitial (obeys : Obeys text self) :
    Meets text low (rangeInitial self) fun high pieces => Laid text true low high pieces ∧
      ∀ piece ∈ pieces, piece.isDeclaringKeyword = false := by
  refine meets_mark?.bind fun equals _ order first => ?_
  split
  · exact .pure ⟨.nil order, fun _ member => (List.not_mem_nil member).elim⟩
  · refine (meets_valued (obeys (.binary false aboveRange) _)).bind fun value _ _ second => ?_
    refine .pure ⟨first.laid.append (second.toLaid.inRole .value), ?_⟩
    exact List.forall_mem_append.mpr ⟨isDeclaringKeyword_of_bare first.bare,
      isDeclaringKeyword_inRole second.bare (by decide)⟩

/-- The head of a loop over a range has a keyword that declares, or declares nothing. -/
theorem meets_rangeHead (obeys : Obeys text self) :
    Meets text low (rangeHead self) (RangeHead text low) := by
  refine .ahead fun gap stands => ?_
  have rest : ∀ left middle, RangeHead text low middle left →
      Meets text middle (do
        let operator ← rangeWord
        let range ← self (.sequence false)
        let closing ← mark ")"
        return left ++ inRole .operator operator ++ inRole .right range ++ closing)
        (RangeHead text low) := by
    intro left middle head
    refine meets_rangeWord.bind fun operator _ _ first => ?_
    refine (obeys (.sequence false) _).bind fun range _ _ second => ?_
    refine meets_mark.bind fun closing _ _ third => ?_
    have between := head.append (first.toLaid.inRole .operator)
      (isDeclaringKeyword_inRole first.bare (by decide))
    have right := between.append (second.toLaid.inRole .right)
      (isDeclaringKeyword_inRole second.bare (by decide))
    exact .pure (right.append third.toLaid (isDeclaringKeyword_of_bare third.bare))
  dsimp only
  split
  next starts =>
    obtain ⟨symbol, found, visible⟩ := name?_of_startsBoundRange starts
    rw [found, Option.getD_some]
    refine (meets_token stands (prefix_of_name? found)).bind fun keyword _ _ token => ?_
    refine (meets_binding obeys).bind fun left _ _ target => ?_
    have head := token.rangeHead visible target
    split
    · refine (meets_rangeInitial obeys).bind fun initial _ _ second => ?_
      exact rest _ _ (head.append second.1 second.2)
    · refine rest _ _ (head.append (.nil (Int.le_refl _)) ?_)
      exact fun _ member => (List.not_mem_nil member).elim
  next =>
    refine (obeys (.operand false) low).bind fun operand _ _ term => ?_
    split
    next found =>
      have target := term.target? found
      refine rest _ _ ⟨target.toLaid.inRole .left, .inr ?_⟩
      exact isDeclaringKeyword_inRole target.bare (by decide)
    next => exact .bind (.refuse _) fun left _ _ head => rest left _ head

/-- A part of the head of a counting loop lies in a row. -/
theorem meets_headPart (obeys : Obeys text self) :
    Meets text low (headPart self) (Laid text true low) := by
  refine .ahead fun gap _ => ?_
  split
  · exact meets_emptyStatement.mono fun _ _ _ term => term.toLaid
  · refine (obeys (.sequence false) low).bind fun inner _ _ first => ?_
    refine meets_mark.bind fun closing _ _ second => ?_
    exact .pure (first.toLaid.append second.toLaid)

/-- The head of a counting loop lies in a row. What it declares need not be calm. -/
theorem meets_countingHead (obeys : Obeys text self) :
    Meets text low (countingHead self) (Laid text false low) := by
  have rest : ∀ start middle, Laid text false low middle start →
      Meets text middle (do
        let test ← headPart self
        let step ← if markAt (← ahead).next.rest = ")" then pure [] else self (.sequence false)
        let closing ← mark ")"
        return start ++ test ++ step ++ closing) (Laid text false low) := by
    intro start middle first
    refine (meets_headPart obeys).bind fun test _ _ second => .ahead fun _ _ => ?_
    refine .branch (fun _ => .pure (.nil (Int.le_refl _)))
      (fun _ => (obeys (.sequence false) _).mono fun _ _ _ term => term.toLaid)
      fun step _ _ third => ?_
    refine meets_mark.bind fun closing _ _ fourth => ?_
    exact .pure (((first.append second.loosen).append third.loosen).append fourth.toLaid.loosen)
  refine .look fun gap seen => ?_
  dsimp only
  split
  next starts =>
    exact (meets_variableStatement obeys seen starts).bind fun start _ _ term =>
      rest start _ term.toLaid
  next => exact (meets_headPart obeys).bind fun start _ _ laid => rest start _ laid.loosen

/-- A loop with a head has the shape of one, whichever head it has. -/
theorem meets_forStatement (obeys : Obeys text self) :
    Meets text low (forStatement self) (Term text false low) := by
  refine meets_word.bind fun keyword _ _ first => meets_word?.bind fun awaiting _ _ second => ?_
  refine meets_mark.bind fun opening middle _ third => ?_
  have front := (first.toTerm.and second.laid).and third.toLaid
  have bare : ∀ piece ∈ keyword ++ awaiting ++ opening, piece.head.role = none := by
    refine List.forall_mem_append.mpr ⟨List.forall_mem_append.mpr ⟨first.bare, second.bare⟩, ?_⟩
    exact third.bare
  have heads : Meets text middle (orElse (do return (Kind.forInStatement, ← rangeHead self))
      (do return (Kind.forStatement, ← countingHead self))) fun high found =>
        found.1 = .forInStatement ∧ RangeHead text middle high found.2 ∨
          found.1 = .forStatement ∧ Laid text false middle high found.2 := by
    refine .orElse ?_ ?_
    · exact (meets_rangeHead obeys).bind fun head _ _ range => .pure (.inl ⟨rfl, range⟩)
    · exact (meets_countingHead obeys).bind fun head _ _ laid => .pure (.inr ⟨rfl, laid⟩)
  refine heads.bind ?_
  rintro ⟨kind, head⟩ last - held
  refine (meets_controlled obeys).bind fun body _ _ fifth => ?_
  refine .pure ?_
  rcases held with ⟨rfl, range⟩ | ⟨rfl, laid⟩
  · exact range.term front bare (fifth.toLaid.inRole .body)
      (isDeclaringKeyword_inRole fifth.bare (by decide))
  · exact ((front.loosen.and laid).and (fifth.toLaid.inRole .body)).wrap rfl

/-- A step over cases gives a case with its statements, or declines. -/
theorem meets_switchClause (obeys : Obeys text self) :
    Meets text low (switchClause self) (Stepped (Body text false low)) := by
  refine .ahead fun gap stands => ?_
  split
  · refine (meets_takeToken stands).bind fun keyword _ _ first => ?_
    refine (obeys (.sequence false) _).bind fun value _ _ second => ?_
    refine meets_mark.bind fun colon _ _ third => ?_
    refine (meets_statements obeys).bind fun body _ _ fourth => ?_
    have front := (first.and (second.toLaid.inRole .value)).and third.toLaid
    exact .pure (.some ((front.loosen.and fourth.laid).wrap rfl).body)
  · refine (meets_takeToken stands).bind fun keyword _ _ first => ?_
    refine meets_mark.bind fun colon _ _ second => ?_
    refine (meets_statements obeys).bind fun body _ _ third => ?_
    exact .pure (.some (((first.and second.toLaid).loosen.and third.laid).wrap rfl).body)
  · exact .pure .none

/-- A statement with cases is one construct. -/
theorem meets_switchStatement (obeys : Obeys text self) :
    Meets text low (switchStatement self) (Term text false low) := by
  refine meets_word.bind fun keyword _ _ first => ?_
  refine (meets_condition obeys).bind fun value _ _ second => ?_
  refine meets_mark.bind fun opening _ _ opens => ?_
  refine (meets_repeated fun _ => meets_switchClause obeys).bind fun clauses _ _ inner => ?_
  refine meets_mark.bind fun closing _ _ closes => ?_
  have body := ((opens.toTerm.loosen.and inner.laid).and closes.toLaid.loosen).wrap
    (show Kind.switchBody.isPlain from rfl)
  exact .pure (((first.toTerm.and (second.toLaid.inRole .value)).loosen.and
    (body.toLaid.inRole .body)).wrap rfl)

/-- A handler is one construct, with what it binds. -/
theorem meets_catchClause (obeys : Obeys text self) :
    Meets text low (catchClause self) (Term text false low) := by
  refine meets_word.bind fun keyword middle _ first => .ahead fun _ _ => ?_
  have rest : ∀ parameter high, Laid text true middle high parameter →
      Meets text high (do
        let body ← block self .clause
        return wrap .catchClause (keyword ++ parameter ++ inRole .body body))
        (Term text false low) := by
    intro parameter high second
    refine (meets_block obeys).bind fun body _ _ third => ?_
    exact .pure (((first.toTerm.and second).loosen.and (third.toLaid.inRole .body)).wrap rfl)
  dsimp only
  split
  · refine meets_mark.bind fun opening _ _ opens => ?_
    refine (meets_binding obeys).bind fun name _ _ named => ?_
    refine meets_mark.bind fun closing _ _ closes => ?_
    exact rest _ _ ((opens.toLaid.append named.toLaid).append closes.toLaid)
  · exact rest [] middle (.nil (Int.le_refl _))

/-- A statement with a handler is one construct. -/
theorem meets_tryStatement (obeys : Obeys text self) :
    Meets text low (tryStatement self) (Term text false low) := by
  refine meets_word.bind fun keyword _ _ first => ?_
  refine (meets_block obeys).bind fun body _ _ second => .ahead fun _ _ => ?_
  refine .branch (fun _ => (meets_catchClause obeys).mono fun _ _ _ term => term.toLaid)
    (fun _ => .pure (.nil (Int.le_refl _))) fun handler middle _ third => .ahead fun _ _ => ?_
  have rest : ∀ finalizer high, Laid text false middle high finalizer →
      Meets text high (pure (wrap .tryStatement
        (keyword ++ inRole .body body ++ handler ++ finalizer))) (Term text false low) :=
    fun finalizer high fourth =>
      .pure ((((first.toTerm.loosen.and (second.toLaid.inRole .body)).and third).and
        fourth).wrap rfl)
  dsimp only
  split
  · refine meets_word.bind fun last _ _ fourth => ?_
    refine (meets_block obeys).bind fun body _ _ fifth => ?_
    exact rest _ _ ((fourth.toTerm.loosen.and (fifth.toLaid.inRole .body)).wrap rfl).toLaid
  · exact rest [] middle (.nil (Int.le_refl _))

end Codebox.Script
