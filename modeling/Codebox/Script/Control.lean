import Codebox.Script.Declare

/-! # Branches and loops -/

namespace Codebox.Script

/-- The statement that a branch or a loop controls. -/
def controlled (self : Goal → Parser Pieces) : Parser Pieces := do
  let gap ← ahead
  if endsBlock gap.next.rest then stop (.missing ";") gap.edge else self .statement

/-- A branch. -/
def ifStatement (self : Goal → Parser Pieces) : Parser Pieces := do
  let keyword ← word "if"
  let test ← condition self
  let first ← controlled self
  let second ←
    if name? (← ahead).next.rest = some "else" then do
      let keyword ← word "else"
      let body ← controlled self
      pure (wrap .elseClause (keyword ++ body))
    else pure []
  return wrap .ifStatement (keyword ++ test ++ first ++ second)

/-- A loop with the test before its body. -/
def whileStatement (self : Goal → Parser Pieces) : Parser Pieces := do
  let keyword ← word "while"
  let test ← condition self
  let body ← controlled self
  return wrap .whileStatement (keyword ++ test ++ inRole .body body)

/-- A statement with an object's members in scope. -/
def withStatement (self : Goal → Parser Pieces) : Parser Pieces := do
  let keyword ← word "with"
  let object ← condition self
  let body ← controlled self
  return wrap .withStatement (keyword ++ object ++ inRole .body body)

/-- A loop with the test after its body. It may go without a semicolon. -/
def doStatement (self : Goal → Parser Pieces) : Parser Pieces := do
  let keyword ← word "do"
  let body ← controlled self
  let again ← word "while"
  let test ← condition self
  let closing ←
    match ← sequel false true with
    | .ends comments edge => do
      set edge
      pure comments
    | .continues gap =>
      if markAt gap.next.rest = ";" then takeToken gap ";"
      else if opensHtmlComment gap.next.rest then refuse gap.next
      else pure []
  return wrap .doStatement (keyword ++ inRole .body body ++ again ++ test ++ closing)

/-- The word between the variable and the range of a loop over a range. -/
def rangeWord : Parser Pieces := do
  let gap ← ahead
  match name? gap.next.rest with
  | some "of" => takeToken gap "of"
  | some "in" => takeToken gap "in"
  | _ => refuse gap.next

/-- Whether the head of a loop starts with a keyword that binds. -/
def startsBoundRange (start : Cursor) : Bool :=
  match name? start.rest with
  | some "var" | some "const" => true
  | some "let" => bindsAfter 3
  | some "using" => bindsAfter 5
  | _ => false
where
  bindsAfter (length : Nat) : Bool :=
    let text := (start.advance length).gap.next.rest
    startsBinding text && name? text ≠ some "of"

/-- The level of the operators that bind more tightly than the word `in`. -/
def aboveRange : Nat := 9

/-- The initial value of a loop variable, if it has one. It ends before the word
that leads to the range. -/
def rangeInitial (self : Goal → Parser Pieces) : Parser Pieces := do
  let equals ← mark? "="
  if equals.isEmpty then return []
  else return equals ++ inRole .value (← valued (self (.binary false aboveRange)))

/-- The head of a loop over a range, up to its closing parenthesis. -/
def rangeHead (self : Goal → Parser Pieces) : Parser Pieces := do
  let gap ← ahead
  let left ←
    if startsBoundRange gap.next then do
      let name := (name? gap.next.rest).getD ""
      let keyword ← takeToken gap name
      let left ← binding self
      let initial ← if name = "var" then rangeInitial self else pure []
      pure (inRole .keyword keyword ++ inRole .left left ++ initial)
    else do
      match target? (← self (.operand false)) with
      | some left => pure (inRole .left left)
      | none => refuse gap.next
  let operator ← rangeWord
  let range ← self (.sequence false)
  let closing ← mark ")"
  return left ++ inRole .operator operator ++ inRole .right range ++ closing

/-- A part of a loop's head that ends with a semicolon and may be empty. -/
def headPart (self : Goal → Parser Pieces) : Parser Pieces := do
  if markAt (← ahead).next.rest = ";" then emptyStatement
  else
    let inner ← self (.sequence false)
    let closing ← mark ";"
    return inner ++ closing

/-- The head of a loop with a start, a test and a step, up to its closing
parenthesis. -/
def countingHead (self : Goal → Parser Pieces) : Parser Pieces := do
  let start ← if startsVariables (← ahead).next then variableStatement self else headPart self
  let test ← headPart self
  let step ← if markAt (← ahead).next.rest = ")" then pure [] else self (.sequence false)
  let closing ← mark ")"
  return start ++ test ++ step ++ closing

/-- A loop with a head in parentheses. -/
def forStatement (self : Goal → Parser Pieces) : Parser Pieces := do
  let keyword ← word "for"
  let awaiting ← word? "await"
  let opening ← mark "("
  let (kind, head) ←
    orElse (return (Kind.forInStatement, ← rangeHead self))
      (return (Kind.forStatement, ← countingHead self))
  let body ← controlled self
  return wrap kind (keyword ++ awaiting ++ opening ++ head ++ inRole .body body)

/-- Whether the statements of a case end here. -/
def endsCase (text : List Char) : Bool :=
  endsBlock text || name? text = some "case" || name? text = some "default"

/-- One case of a switch. -/
def switchClause (self : Goal → Parser Pieces) : Parser (Option Pieces) := do
  let gap ← ahead
  match name? gap.next.rest with
  | some "case" =>
    let keyword ← takeToken gap "case"
    let value ← self (.sequence false)
    let colon ← mark ":"
    let body ← statements self endsCase
    return some (wrap .switchCase (keyword ++ inRole .value value ++ colon ++ body))
  | some "default" =>
    let keyword ← takeToken gap "default"
    let colon ← mark ":"
    let body ← statements self endsCase
    return some (wrap .switchDefault (keyword ++ colon ++ body))
  | _ => return none

/-- A choice among cases. -/
def switchStatement (self : Goal → Parser Pieces) : Parser Pieces := do
  let keyword ← word "switch"
  let value ← condition self
  let opening ← mark "\x7b"
  let clauses ← repeated (switchClause self)
  let closing ← mark "\x7d"
  let body := wrap .switchBody (opening ++ clauses ++ closing)
  return wrap .switchStatement (keyword ++ inRole .value value ++ inRole .body body)

/-- What catches. -/
def catchClause (self : Goal → Parser Pieces) : Parser Pieces := do
  let keyword ← word "catch"
  let parameter ←
    if markAt (← ahead).next.rest = "(" then do
      let opening ← mark "("
      let name ← binding self
      let closing ← mark ")"
      pure (opening ++ name ++ closing)
    else pure []
  let body ← block self .clause
  return wrap .catchClause (keyword ++ parameter ++ inRole .body body)

/-- A block with what catches and what comes last; both may be left out. -/
def tryStatement (self : Goal → Parser Pieces) : Parser Pieces := do
  let keyword ← word "try"
  let body ← block self .clause
  let handler ←
    if name? (← ahead).next.rest = some "catch" then catchClause self else pure []
  let finalizer ←
    if name? (← ahead).next.rest = some "finally" then do
      let keyword ← word "finally"
      let body ← block self .clause
      pure (wrap .finallyClause (keyword ++ inRole .body body))
    else pure []
  return wrap .tryStatement (keyword ++ inRole .body body ++ handler ++ finalizer)

end Codebox.Script
