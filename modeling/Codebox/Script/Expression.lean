import Codebox.Script.Primary

/-! # Expressions

An operand is a primary expression with its accesses and calls, or a word or
mark applied to an operand. An assignment counts as an operand, too: its right
side reaches as far as it can.
-/

namespace Codebox.Script

/-- The name after a point. -/
def memberName : Parser Pieces := do
  let gap ← ahead
  match name? gap.next.rest with
  | some name => takeAfter gap .propertyIdentifier true name.length
  | none =>
    match gap.next.rest with
    | '#' :: rest =>
      match nameLength rest with
      | 0 => refuse gap.next
      | length => takeAfter gap .privatePropertyIdentifier true (length + 1)
    | _ => refuse gap.next

/-- The index of an access, in brackets. -/
def subscript (self : Goal → Parser Pieces) : Parser Pieces := do
  let opening ← mark "["
  let index ← self (.sequence false)
  let closing ← mark "]"
  return opening ++ index ++ closing

/-- One access, call or step after an expression. Calls and steps are left to
others unless `calls` holds. -/
def access (self : Goal → Parser Pieces) (ends calls : Bool) (left : Pieces) :
    Parser (Option Pieces) := do
  match ← sequel true ends with
  | .ends .. => return none
  | .continues gap =>
    match markAt gap.next.rest with
    | "." =>
      let dot ← takeToken gap "."
      return some (wrap .memberExpression (left ++ dot ++ (← memberName)))
    | "?." =>
      let chain ← takeAfter gap .optionalChain true 2
      match markAt (← ahead).next.rest with
      | "(" => return some (wrap .callExpression (left ++ chain ++ (← callArguments self)))
      | "[" => return some (wrap .subscriptExpression (left ++ chain ++ (← subscript self)))
      | _ => return some (wrap .memberExpression (left ++ chain ++ (← memberName)))
    | "[" => return some (wrap .subscriptExpression (left ++ (← subscript self)))
    | "\x60" => return some (wrap .callExpression (left ++ (← template self)))
    | "(" =>
      if calls then return some (wrap .callExpression (left ++ (← callArguments self)))
      else return none
    | "++" =>
      if calls then return some (wrap .updateExpression (left ++ (← takeToken gap "++")))
      else return none
    | "--" =>
      if calls then return some (wrap .updateExpression (left ++ (← takeToken gap "--")))
      else return none
    | _ => return none

/-- Whether pieces are a pattern and no expression. -/
def isPattern (pieces : Pieces) : Bool :=
  pieces.getLast?.any isBarePattern

/-- A primary expression with its accesses. -/
def accessed (self : Goal → Parser Pieces) (ends calls : Bool) : Parser Pieces := do
  let first ← self (.primary ends)
  if isPattern first then return first else extended first (access self ends calls)

/-- What `new` takes. -/
def callee (self : Goal → Parser Pieces) (ends : Bool) : Parser Pieces :=
  accessed self ends false

/-- The operators that assign, except the plain one. -/
def assigningMarks : List String :=
  ["+=", "-=", "*=", "/=", "%=", "^=", "&=", "|=", ">>=", ">>>=", "<<=", "**=", "&&=", "||=", "??="]

/-- An accessed expression, or an assignment to it. -/
def assignment (self : Goal → Parser Pieces) (ends : Bool) : Parser Pieces := do
  let left ← accessed self ends true
  match ← sequel true ends with
  | .ends .. => return left
  | .continues gap =>
    let next := markAt gap.next.rest
    if next = "=" then
      match target? left with
      | some target =>
        let equals ← takeToken gap "="
        let right ← self (.expression ends)
        return wrap .assignmentExpression (inRole .left target ++ equals ++ inRole .right right)
      | none => return left
    else if assigningMarks.contains next && isSimpleTarget left then
      let operator ← takeToken gap next
      let right ← self (.expression ends)
      return wrap .augmentedAssignmentExpression
        (inRole .left left ++ inRole .operator operator ++ inRole .right right)
    else return left

/-- Whether an operand can start with this text. The marks are those that start
one and, where they could also be operators, are read as starting one. -/
def startsOperand (marks : List String) (text : List Char) : Bool :=
  match name? text with
  | some name => name ≠ "in" && name ≠ "instanceof"
  | none =>
    (stringLength? text).isSome || numberLength text ≠ 0 || marks.contains (markAt text)

/-- The marks that start an operand of `await`. -/
def awaitedMarks : List String :=
  ["(", "[", "\x7b", "\x60", "+", "-", "!", "~", "++", "--", "@", "#"]

/-- The marks that start an operand of `yield`. -/
def yieldedMarks : List String :=
  "/" :: "/=" :: "<" :: awaitedMarks

/-- A word or mark with the operand that it is applied to. -/
def applied (self : Goal → Parser Pieces) (ends : Bool) (kind : Kind) (operator : Pieces) :
    Parser Pieces := do
  let argument ← valued (self (.operand ends))
  return wrap kind (inRole .operator operator ++ inRole .argument argument)

/-- The word `await` with its operand, or as a name. -/
def awaited (self : Goal → Parser Pieces) (ends : Bool) (gap : Gap) : Parser Pieces := do
  match (gap.next.advance 5).sequel true ends with
  | .ends .. => assignment self ends
  | .continues following =>
    if startsOperand awaitedMarks following.next.rest then
      applied self ends .awaitExpression (← takeToken gap "await")
    else assignment self ends

/-- The word `yield` with what it yields, if anything. -/
def yielded (self : Goal → Parser Pieces) (ends : Bool) (gap : Gap) : Parser Pieces := do
  let keyword ← takeToken gap "yield"
  match ← sequel true ends with
  | .ends .. => return wrap .yieldExpression keyword
  | .continues following =>
    if markAt following.next.rest = "*" then
      let star ← takeToken following "*"
      return wrap .yieldExpression (keyword ++ star ++ (← self (.expression ends)))
    else if startsOperand yieldedMarks following.next.rest then
      return wrap .yieldExpression (keyword ++ (← self (.expression ends)))
    else return wrap .yieldExpression keyword

/-- What a binary operator takes. -/
def operand (self : Goal → Parser Pieces) (ends : Bool) : Parser Pieces := do
  let gap ← ahead
  match name? gap.next.rest with
  | some name =>
    if name = "typeof" || name = "void" || name = "delete" then
      applied self ends .unaryExpression (← takeToken gap name)
    else if name = "await" then awaited self ends gap
    else if name = "yield" then yielded self ends gap
    else assignment self ends
  | none =>
    let next := markAt gap.next.rest
    if next = "!" || next = "~" || next = "+" || next = "-" then
      applied self ends .unaryExpression (← takeToken gap next)
    else if next = "++" || next = "--" then
      applied self ends .updateExpression (← takeToken gap next)
    else assignment self ends

/-- A binary operator: how tightly it binds, and whether it groups to the
right. -/
structure Operator where
  text : String
  level : Nat
  groupsRight : Bool

/-- The level of a binary operator, if the text is one. -/
def operatorLevel? : String → Option Nat
  | "??" => some 1
  | "||" => some 2
  | "&&" => some 3
  | "|" => some 4
  | "^" => some 5
  | "&" => some 6
  | "==" | "!=" | "===" | "!==" => some 7
  | "<" | ">" | "<=" | ">=" | "in" | "instanceof" => some 8
  | "<<" | ">>" | ">>>" => some 9
  | "+" | "-" => some 10
  | "*" | "/" | "%" => some 11
  | "**" => some 12
  | _ => none

/-- The binary operator at the front of a text. -/
def operatorAt? (text : List Char) : Option Operator :=
  let symbol := (name? text).getD (markAt text)
  (operatorLevel? symbol).map fun level => ⟨symbol, level, symbol = "**"⟩

/-- One binary operator of at least a level, with its right side, after an
expression. -/
def operation (self : Goal → Parser Pieces) (ends : Bool) (level : Nat) (left : Pieces) :
    Parser (Option Pieces) := do
  match ← sequel true ends with
  | .ends .. => return none
  | .continues gap =>
    match operatorAt? gap.next.rest with
    | some operator =>
      if level ≤ operator.level then
        let symbol ← takeToken gap operator.text
        let above := if operator.groupsRight then operator.level else operator.level + 1
        let right ← valued (self (.binary ends above))
        return some
          (wrap .binaryExpression
            (inRole .left left ++ inRole .operator symbol ++ inRole .right right))
      else return none
    | none => return none

/-- An expression whose outermost binary operator has at least a level. -/
def binary (self : Goal → Parser Pieces) (ends : Bool) (level : Nat) : Parser Pieces := do
  let left ← self (.operand ends)
  if isPattern left then return left else extended left (operation self ends level)

/-- One expression, or what can only be a pattern. -/
def element (self : Goal → Parser Pieces) (ends : Bool) : Parser Pieces := do
  let left ← self (.binary ends 0)
  if isPattern left then return left
  else
    match ← sequel true ends with
    | .ends .. => return left
    | .continues gap =>
      if markAt gap.next.rest = "?" then
        let question ← takeToken gap "?"
        let first ← self (.expression false)
        let colon ← mark ":"
        let second ← self (.expression ends)
        return wrap .ternaryExpression (left ++ question ++ first ++ colon ++ second)
      else return left

/-- One expression. -/
def expression (self : Goal → Parser Pieces) (ends : Bool) : Parser Pieces :=
  valued (element self ends)

/-- One expression or several with commas between them. -/
def sequence (self : Goal → Parser Pieces) (ends : Bool) : Parser Pieces := do
  let first ← self (.expression ends)
  let others ← repeated do
    match ← sequel true ends with
    | .ends .. => return none
    | .continues gap =>
      if markAt gap.next.rest = "," then
        let comma ← takeToken gap ","
        return some (comma ++ (← self (.expression ends)))
      else return none
  return if others.isEmpty then first else wrap .sequenceExpression (first ++ others)

end Codebox.Script
