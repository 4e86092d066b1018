import Codebox.Script.Control
import Codebox.Script.Exchange
import Codebox.Script.Markup

/-! # Scripts

The rule for statements, the knot of the grammar, and the tree of a whole
script.
-/

namespace Codebox.Script

/-- A statement that starts with a word. -/
def wordStatement (self : Goal → Parser Pieces) (start : Cursor) (name : String) :
    Parser Pieces :=
  match name with
  | "if" => ifStatement self
  | "for" => forStatement self
  | "while" => whileStatement self
  | "do" => doStatement self
  | "switch" => switchStatement self
  | "try" => tryStatement self
  | "with" => withStatement self
  | "return" => returnStatement self
  | "throw" => throwStatement self
  | "break" => jumpStatement .breakStatement name
  | "continue" => jumpStatement .continueStatement name
  | "debugger" => debuggerStatement
  | "export" => exportAfter self []
  | "import" => if startsImport start then importStatement self else expressionStatement self
  | _ =>
    match declared? self .declaration start with
    | some declaration => declaration
    | none =>
      if startsVariables start then variableStatement self
      else if startsUsing start || startsAwaitUsing start then resources self
      else if startsLabel start then labeledStatement self
      else expressionStatement self

/-- Whether the brace at a cursor is followed by a name, a text or a number and
a colon. -/
def startsPair (start : Cursor) : Bool :=
  let first := (start.advance 1).gap.next
  let length :=
    max (nameLength first.rest) (max ((stringLength? first.rest).getD 0) (numberLength first.rest))
  length ≠ 0 && markAt (first.advance length).gap.next.rest = ":"

/-- Statements in braces. Where the braces also read as an object with pairs,
and a statement ends after them, they are an object. -/
def braced (self : Goal → Parser Pieces) (start : Cursor) : Parser Pieces :=
  if startsPair start then orElse (expressionStatement self) (block self .statement)
  else block self .statement

/-- A statement. -/
def statement (self : Goal → Parser Pieces) : Parser Pieces := do
  let gap ← ahead
  match name? gap.next.rest with
  | some name => wordStatement self gap.next name
  | none =>
    match gap.next.rest with
    | '\x7b' :: _ => braced self gap.next
    | ';' :: _ => emptyStatement
    | '@' :: _ => decorated self
    | ')' :: _ => refuse gap.next
    | ']' :: _ => refuse gap.next
    | '\x7d' :: _ => refuse gap.next
    | _ => expressionStatement self

/-- The rule for a goal. -/
def rule (self : Goal → Parser Pieces) : Goal → Parser Pieces
  | .statement => statement self
  | .sequence ends => sequence self ends
  | .expression ends => expression self ends
  | .element ends => element self ends
  | .binary ends level => binary self ends level
  | .operand ends => operand self ends
  | .primary ends => primary self ends
  | .callee ends => callee self ends
  | .markup => markup self

/-- Parses a goal, with goals nested at most this deep. -/
def parseGoal : Nat → Goal → Parser Pieces
  | 0, _ => do refuse (← get)
  | depth + 1, goal => rule (parseGoal depth) goal

/-- How deep goals can nest in a text of this length: no more than eight goals
start at one place. No text is refused for want of depth, see
`script_parseGoal`. -/
def depthBound (length : Nat) : Nat :=
  8 * (length + 2)

/-- The line at the start of a script that names its interpreter. -/
def hashBangLine : Parser Pieces := do
  let gap ← ahead
  match gap.next.rest with
  | '#' :: '!' :: _ =>
    takeAfter gap .hashBangLine true (gap.next.rest.takeWhile (· ≠ '\n')).length
  | _ => return []

/-- A whole script, its goals parsed by `self`. -/
def script (self : Goal → Parser Pieces) : Parser Pieces := do
  let first ← hashBangLine
  let inner ← statements self (·.isEmpty)
  let gap ← ahead
  set gap.next
  return first ++ inner ++ gap.comments

/-- A whole script. -/
def program : Parser Pieces := do
  script (parseGoal (depthBound (← get).size))

/-- The tree of a script with these children, up to a cursor at its end. -/
def root (children : Pieces) (last : Cursor) : Node :=
  let span : Span :=
    match children.head? with
    | some first => ⟨first.span.start, last.offset⟩
    | none => ⟨last.offset, last.offset⟩
  let point := ((children.head?).map (·.point)).getD last.point
  .mk { kind := .program, span := span, point := point } children

/-- The syntax tree of a text. -/
def tree (text : List Char) : Except Fault Node := do
  let (children, last) ← program.run (.start text)
  return root children last

end Codebox.Script
