import Mathlib.Data.List.Basic
import Codebox.Pragma
import Codebox.Proofs.Signature

/-! # Pragmas of texts put together

The scan for pragmas runs over the lines of a text and ends at the first one that is neither
blank nor a comment. So the pragmas of two texts, one above the other, are those of both if the
scan gets through the upper one, and those of the upper one if it does not.
-/

namespace Codebox

open Text

/-! ## Lines -/

namespace Text

/-- Every text has a line. -/
theorem lines_ne_nil (text : List Char) : lines text ≠ [] := by
  cases text with
  | nil => exact List.cons_ne_nil _ _
  | cons c rest =>
      rw [lines]
      split
      · exact List.cons_ne_nil _ _
      · split
        · exact List.cons_ne_nil _ _
        · exact List.cons_ne_nil _ _

/-- A line feed ends a line and nothing else. -/
theorem lines_append (first second : List Char) :
    lines (first ++ '\n' :: second) = lines first ++ lines second := by
  induction first with
  | nil => rfl
  | cons c rest ih =>
      rw [List.cons_append, lines, lines, ih]
      by_cases feed : c = '\n'
      · rw [if_pos feed, if_pos feed, List.cons_append]
      · rw [if_neg feed, if_neg feed]
        cases above : lines rest with
        | nil => exact absurd above (lines_ne_nil rest)
        | cons line others => rfl

end Text

/-! ## The scan -/

/-- A line that does not end the scan for pragmas: a blank one or a comment. -/
def TopLine.Passes (line : List Char) : Prop :=
  trim line = [] ∨ "//".toList <+: trim line

namespace TopLine

variable {line : List Char}

/-- A line is passed over or read exactly if it is no code. -/
theorem passes_iff : Passes line ↔ ofLine line ≠ .code := by
  unfold Passes ofLine
  generalize trim line = text
  split
  · simp
  · simp
  next blank comment =>
    refine iff_of_false ?_ (not_not_intro rfl)
    rintro (same | ⟨rest, same⟩)
    · exact blank same
    · exact comment rest same.symm

end TopLine

variable {above below : List (List Char)}

/-- Below lines without code, the pragmas go on. -/
theorem pragmasOfLines_append (passes : ∀ line ∈ above, TopLine.Passes line) :
    pragmasOfLines (above ++ below) = pragmasOfLines above ++ pragmasOfLines below := by
  induction above with
  | nil => rfl
  | cons line rest ih =>
      obtain ⟨here, passes⟩ := List.forall_mem_cons.mp passes
      rw [List.cons_append, pragmasOfLines, pragmasOfLines, ih passes]
      cases kind : TopLine.ofLine line with
      | blank => rfl
      | comment text => exact (List.append_assoc _ _ _).symm
      | code => exact absurd kind (TopLine.passes_iff.mp here)

/-- Nothing is read below a line that ends the scan. -/
theorem pragmasOfLines_append_of_code (code : ¬ ∀ line ∈ above, TopLine.Passes line) :
    pragmasOfLines (above ++ below) = pragmasOfLines above := by
  induction above with
  | nil => simp at code
  | cons line rest ih =>
      rw [List.cons_append, pragmasOfLines, pragmasOfLines]
      cases kind : TopLine.ofLine line with
      | code => rfl
      | blank =>
          have here := TopLine.passes_iff.mpr (by rw [kind]; exact TopLine.noConfusion)
          exact ih fun passes => code (List.forall_mem_cons.mpr ⟨here, passes⟩)
      | comment text =>
          have here := TopLine.passes_iff.mpr (by rw [kind]; exact TopLine.noConfusion)
          have rest := ih fun passes => code (List.forall_mem_cons.mpr ⟨here, passes⟩)
          exact congrArg ((pragmaOf? text).toList ++ ·) rest

/-! ## Tables -/

/-- Of two tables, one after the other, the second counts. -/
theorem Table.get?_append (first second : Table) (name : String) :
    (first ++ second).get? name = (second.get? name).or (first.get? name) := by
  rw [get?_eq_getLast?, get?_eq_getLast?, get?_eq_getLast?, List.filter_append, List.map_append,
    List.getLast?_append]

/-! ## Texts -/

/-- **Pragmas of two texts.** If every line of a text is blank or, trimmed, starts with two
slashes, then the pragmas of the text with another one below it are those of both, and where both
name the same option the lower one counts. Otherwise they are those of the upper text. -/
theorem pragmas_append (first second : String) :
    (pragmas (first ++ "\n" ++ second) =
      if ∀ line ∈ lines first.toList, trim line = [] ∨ "//".toList <+: trim line then
        pragmas first ++ pragmas second
      else pragmas first) ∧
    ∀ name, (pragmas first ++ pragmas second).get? name =
      ((pragmas second).get? name).or ((pragmas first).get? name) := by
  refine ⟨?_, Table.get?_append _ _⟩
  have split : lines (first ++ "\n" ++ second).toList =
      lines first.toList ++ lines second.toList := by
    rw [String.toList_append, String.toList_append, List.append_assoc]
    exact lines_append _ _
  unfold pragmas
  rw [split]
  split
  next passes => exact pragmasOfLines_append passes
  next code => exact pragmasOfLines_append_of_code code

end Codebox
