import Codebox.Patch
import Codebox.Proofs.Sequence
import Mathlib.Data.List.TakeWhile

/-! # The first return

The statements of a function are gone over one by one, with two things in mind: the return
that was met, and how many statements were dropped since. This divides the statements at the
first return. Those before it write their lines in order. Of those after it nothing but their
number remains, comments not counted.
-/

namespace Codebox.Synthesizer

variable {synthesizer : Synthesizer} {statement node : Node} {dropped : Nat}
  {header body outputs : List String} {fault : Fault}

/-- The statements before the first return. -/
def before (synthesizer : Synthesizer) : List Node :=
  synthesizer.statements.takeWhile (·.kind ≠ .returnStatement)

/-- The first return statement, if there is one, and the statements after it. -/
def fromReturn (synthesizer : Synthesizer) : List Node :=
  synthesizer.statements.dropWhile (·.kind ≠ .returnStatement)

/-- The first return statement, if there is one. -/
def firstReturn? (synthesizer : Synthesizer) : Option Node :=
  synthesizer.fromReturn.head?

/-- The statements after the first return, without comments. -/
def unreachable (synthesizer : Synthesizer) : List Node :=
  synthesizer.fromReturn.tail.filter (·.kind ≠ .comment)

/-! ## One statement -/

/-- Before a return, any other statement writes its lines and changes nothing. -/
theorem visit_before (other : statement.kind ≠ .returnStatement) :
    synthesizer.visit ⟨none, dropped⟩ statement =
      synthesizer.emit statement >>= fun _ => pure ⟨none, dropped⟩ := by
  unfold visit
  simp only [if_neg other]

/-- The first return is kept in mind and writes nothing. -/
theorem visit_return (returns : statement.kind = .returnStatement) :
    synthesizer.visit ⟨none, dropped⟩ statement = pure ⟨some statement, dropped⟩ := by
  unfold visit
  simp only [if_pos returns]

/-- After a return, a statement counts unless it is a comment. -/
theorem visit_after : synthesizer.visit ⟨some node, dropped⟩ statement =
    pure ⟨some node, dropped + ([statement].filter (·.kind ≠ .comment)).length⟩ := by
  unfold visit
  by_cases comment : statement.kind = .comment <;> simp [comment]

/-! ## All statements -/

/-- After a return, statements are counted and nothing is written. -/
theorem foldlM_visit_after (statements : List Node) :
    statements.foldlM synthesizer.visit ⟨some node, dropped⟩ =
      pure ⟨some node, dropped + (statements.filter (·.kind ≠ .comment)).length⟩ := by
  induction statements generalizing dropped with
  | nil => rfl
  | cons statement rest ih =>
      have count : statement :: rest = [statement] ++ rest := rfl
      rw [List.foldlM_cons, visit_after, pure_bind, ih, count, List.filter_append,
        List.length_append, Nat.add_assoc]

/-- By induction on the statements: up to the first return each writes its lines, and from
there on they are counted. -/
theorem foldlM_visit (statements : List Node) :
    statements.foldlM synthesizer.visit {} =
      (statements.takeWhile (·.kind ≠ .returnStatement)).forM synthesizer.emit >>= fun _ =>
        let later := statements.dropWhile (·.kind ≠ .returnStatement)
        pure ⟨later.head?, (later.tail.filter (·.kind ≠ .comment)).length⟩ := by
  induction statements with
  | nil => rfl
  | cons statement rest ih =>
      rw [List.foldlM_cons]
      by_cases returns : statement.kind = .returnStatement
      · rw [visit_return returns, pure_bind, foldlM_visit_after,
          List.takeWhile_cons_of_neg (by simpa using returns),
          List.dropWhile_cons_of_neg (by simpa using returns), Nat.zero_add]
        rfl
      · have unrolled : (statement ::
              rest.takeWhile (·.kind ≠ .returnStatement)).forM synthesizer.emit =
            synthesizer.emit statement >>= fun _ =>
              (rest.takeWhile (·.kind ≠ .returnStatement)).forM synthesizer.emit := rfl
        rw [visit_before returns, List.takeWhile_cons_of_pos (by simpa using returns),
          List.dropWhile_cons_of_pos (by simpa using returns), unrolled, bind_assoc, bind_assoc]
        simp only [pure_bind]
        rw [ih]

/-- Going over the statements divides them at the first return. -/
theorem visitAll_eq (synthesizer : Synthesizer) :
    synthesizer.visitAll = synthesizer.before.forM synthesizer.emit >>= fun _ =>
      pure ⟨synthesizer.firstReturn?, synthesizer.unreachable.length⟩ :=
  foldlM_visit synthesizer.statements

/-- The division leaves out no statement. -/
theorem before_append_fromReturn (synthesizer : Synthesizer) :
    synthesizer.before ++ synthesizer.fromReturn = synthesizer.function.body.namedChildren :=
  List.takeWhile_append_dropWhile

/-- No return comes before the first one. -/
theorem ne_return_of_mem_before (member : statement ∈ synthesizer.before) :
    statement.kind ≠ .returnStatement := by
  simpa using List.mem_takeWhile_imp member

/-- The first return is one. -/
theorem kind_of_firstReturn? (first : synthesizer.firstReturn? = some node) :
    node.kind = .returnStatement := by
  have stops := List.head?_dropWhile_not (fun other : Node => decide
    (other.kind ≠ .returnStatement)) synthesizer.statements
  unfold firstReturn? fromReturn at first
  rw [first] at stops
  simpa using stops

/-- The first return is one of the statements. -/
theorem mem_of_firstReturn? (first : synthesizer.firstReturn? = some node) :
    node ∈ synthesizer.statements :=
  (List.dropWhile_sublist _).subset (List.mem_of_mem_head? first)

/-! ## The courses that making a patch can take -/

/-- A header that cannot be made ends the synthesis before it has changed anything. -/
theorem synthesize_of_header_error (failed : synthesizer.header = .error fault) :
    synthesizer.synthesize = (synthesizer, Run.lift (.error fault)) := by
  unfold synthesize
  rw [failed]

/-- A statement that fails leaves the lines that were written before it failed. -/
theorem synthesize_of_emit_error (headed : synthesizer.header = .ok header)
    (emitted : synthesizer.before.forM synthesizer.emit = ⟨body, .error fault⟩) :
    synthesizer.synthesize =
      ({ synthesizer with patch := ⟨header, body, []⟩ }, Run.lift (.error fault)) := by
  have visited : synthesizer.visitAll = ⟨body, .error fault⟩ := by
    rw [visitAll_eq, emitted, Run.bind_of_error rfl]
  unfold synthesize
  rw [headed]
  simp only [visited]

/-- Statements that do not fail hand the first return on, and the number of those after it. -/
theorem visitAll_of_ok (emitted : synthesizer.before.forM synthesizer.emit = ⟨body, .ok ()⟩) :
    synthesizer.visitAll =
      ⟨body, .ok ⟨synthesizer.firstReturn?, synthesizer.unreachable.length⟩⟩ := by
  rw [visitAll_eq, emitted, Run.bind_of_ok rfl, Run.written_pure, List.append_nil,
    Run.outcome_pure]

/-- A return that fails leaves the header and the body, and the dropped statements are
noted. -/
theorem synthesize_of_return_error (headed : synthesizer.header = .ok header)
    (emitted : synthesizer.before.forM synthesizer.emit = ⟨body, .ok ()⟩)
    (returned : synthesizer.returnLines synthesizer.firstReturn? = .error fault) :
    synthesizer.synthesize = ({ synthesizer with patch := ⟨header, body, []⟩ }, do
      synthesizer.noteDropped synthesizer.unreachable.length
      Run.lift (.error fault)) := by
  unfold synthesize
  rw [headed]
  simp only [visitAll_of_ok emitted, returned]

/-- If no part fails, the patch has all three, and the dropped statements are noted. -/
theorem synthesize_of_ok (headed : synthesizer.header = .ok header)
    (emitted : synthesizer.before.forM synthesizer.emit = ⟨body, .ok ()⟩)
    (returned : synthesizer.returnLines synthesizer.firstReturn? = .ok outputs) :
    synthesizer.synthesize = ({ synthesizer with patch := ⟨header, body, outputs⟩ }, do
      synthesizer.noteDropped synthesizer.unreachable.length
      return Patch.text ⟨header, body, outputs⟩) := by
  unfold synthesize
  rw [headed]
  simp only [visitAll_of_ok emitted, returned]

end Codebox.Synthesizer
