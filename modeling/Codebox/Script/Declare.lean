import Codebox.Script.Expression

/-! # Declarations and simple statements -/

namespace Codebox.Script

/-- A statement that is an expression. -/
def expressionStatement (self : Goal → Parser Pieces) : Parser Pieces := do
  let inner ← self (.sequence true)
  let closing ← semicolon true
  return wrap .expressionStatement (inner ++ closing)

/-- A statement that is no more than a semicolon. -/
def emptyStatement : Parser Pieces :=
  return wrap .emptyStatement (← mark ";")

/-- Whether a name or a pattern to be bound starts here. -/
def startsBinding (text : List Char) : Bool :=
  (freeName? text).isSome || text.head? = some '[' || text.head? = some '\x7b'

/-- A name or a pattern to be bound. -/
def binding (self : Goal → Parser Pieces) : Parser Pieces := do
  let gap ← ahead
  if (freeName? gap.next.rest).isSome then freeName .identifier
  else if startsBinding gap.next.rest then
    match target? (← self (.primary false)) with
    | some pieces => return pieces
    | none => refuse gap.next
  else refuse gap.next

/-- Whether the last piece, a declarator, has an initial value. After one that
has, an operator may follow. -/
def isInitialized (pieces : Pieces) : Bool :=
  pieces.getLast?.any fun node => (node.child? .value).isSome

/-- One bound name or pattern with its initial value, if it has one. -/
def declarator (self : Goal → Parser Pieces) : Parser Pieces := do
  let name ← binding self
  let value ←
    match ← sequel false true with
    | .ends .. => pure []
    | .continues gap =>
      if markAt gap.next.rest = "=" then do
        let equals ← takeToken gap "="
        let value ← self (.expression true)
        pure (equals ++ inRole .value value)
      else pure []
  return wrap .variableDeclarator (inRole .name name ++ value)

/-- The declarators after a first one. -/
def moreDeclarators (self : Goal → Parser Pieces) (pieces : Pieces) :
    Parser (Option Pieces) := do
  match ← sequel (isInitialized pieces) true with
  | .ends .. => return none
  | .continues gap =>
    if markAt gap.next.rest = "," then
      let comma ← takeToken gap ","
      return some (pieces ++ comma ++ (← declarator self))
    else return none

/-- A declaration of variables, after its keyword. -/
def variablesAfter (self : Goal → Parser Pieces) (kind : Kind) (keyword : Pieces) :
    Parser Pieces := do
  let first ← declarator self
  let declarators ← extended first (moreDeclarators self)
  let closing ← semicolon (isInitialized declarators)
  return wrap kind (keyword ++ declarators ++ closing)

/-- Whether a declaration of variables starts at a word. The word `let` starts
one only before what can be bound, unless a statement ends with it. -/
def startsVariables (start : Cursor) : Bool :=
  match name? start.rest with
  | some "var" | some "const" => true
  | some "let" =>
    match (start.advance 3).sequel true true with
    | .ends .. => false
    | .continues gap => startsBinding gap.next.rest
  | _ => false

/-- A declaration of variables by keyword. -/
def variableStatement (self : Goal → Parser Pieces) : Parser Pieces := do
  let gap ← ahead
  let keyword := (name? gap.next.rest).getD ""
  let kind := if keyword = "var" then Kind.variableDeclaration else .lexicalDeclaration
  variablesAfter self kind (inRole .keyword (← takeToken gap keyword))

/-- Whether a declaration of resources starts at the word `using`. -/
def startsUsing (start : Cursor) : Bool :=
  name? start.rest = some "using" &&
    match (start.advance 5).sequel true true with
    | .ends .. => false
    | .continues gap => (freeName? gap.next.rest).isSome

/-- Whether a declaration of awaited resources starts here. -/
def startsAwaitUsing (start : Cursor) : Bool :=
  name? start.rest = some "await" &&
    match (start.advance 5).sequel true true with
    | .ends .. => false
    | .continues gap => startsUsing gap.next

/-- A declaration of resources. -/
def resources (self : Goal → Parser Pieces) : Parser Pieces := do
  let awaiting ← word? "await"
  let keyword ← word "using"
  variablesAfter self .usingDeclaration (awaiting ++ inRole .keyword keyword)

/-- Whether a function with a name starts at the word `function`. -/
def startsNamedFunction (start : Cursor) : Bool :=
  name? start.rest = some "function" &&
    let after := (start.advance 8).gap.next
    if markAt after.rest = "*" then (freeName? (after.advance 1).gap.next.rest).isSome
    else (freeName? after.rest).isSome

/-- Whether an asynchronous function with a name starts at the word `async`. -/
def startsNamedAsync (start : Cursor) : Bool :=
  name? start.rest = some "async" &&
    match (start.advance 5).sequel true true with
    | .ends .. => false
    | .continues gap => startsNamedFunction gap.next

/-- A declared function; the words before it, if any, come first. -/
def functionAfter (self : Goal → Parser Pieces) (place : BlockPlace) (before : Pieces) :
    Parser Pieces := do
  let keyword ← word "function"
  let star ← mark? "*"
  let name ← freeName .identifier
  let parameters ← formalParameters self
  let body ← block self place
  let kind := if star.isEmpty then Kind.functionDeclaration else .generatorFunctionDeclaration
  return wrap kind
    (before ++ keyword ++ star ++ inRole .name name ++ inRole .parameters parameters ++
      inRole .body body)

/-- A declared function, asynchronous or not. -/
def declaredFunction (self : Goal → Parser Pieces) (place : BlockPlace) : Parser Pieces := do
  functionAfter self place (← word? "async")

/-- Whether a class with a name starts at the word `class`. -/
def startsNamedClass (start : Cursor) : Bool :=
  name? start.rest = some "class" && (freeName? (start.advance 5).gap.next.rest).isSome

/-- A declared class, after its decorators. -/
def classAfter (self : Goal → Parser Pieces) (place : BlockPlace) (before : Pieces) :
    Parser Pieces := do
  let parts ← classParts self
  let comments ← closingComments (place.operators false) false
  return wrap .classDeclaration (before ++ parts ++ comments)

/-- A declaration of a function or a class with a name, if one starts here. -/
def declared? (self : Goal → Parser Pieces) (place : BlockPlace) (start : Cursor) :
    Option (Parser Pieces) :=
  if startsNamedFunction start || startsNamedAsync start then some (declaredFunction self place)
  else if startsNamedClass start then some (classAfter self place [])
  else none

/-- A statement that returns. -/
def returnStatement (self : Goal → Parser Pieces) : Parser Pieces := do
  let keyword ← word "return"
  match ← sequel false true with
  | .ends comments edge =>
    set edge
    return wrap .returnStatement (keyword ++ comments)
  | .continues gap =>
    if markAt gap.next.rest = ";" then
      return wrap .returnStatement (keyword ++ (← takeToken gap ";"))
    else if opensHtmlComment gap.next.rest then refuse gap.next
    else
      let value ← self (.sequence true)
      let closing ← semicolon true
      return wrap .returnStatement (keyword ++ value ++ closing)

/-- A statement that throws. -/
def throwStatement (self : Goal → Parser Pieces) : Parser Pieces := do
  let keyword ← word "throw"
  let value ← self (.sequence true)
  let closing ← semicolon true
  return wrap .throwStatement (keyword ++ value ++ closing)

/-- A statement that leaves or restarts a loop, with a label if one follows. -/
def jumpStatement (kind : Kind) (text : String) : Parser Pieces := do
  let keyword ← word text
  let label ←
    match ← sequel false true with
    | .ends .. => pure []
    | .continues gap =>
      if (freeName? gap.next.rest).isSome then freeName .statementIdentifier else pure []
  let closing ← semicolon false
  return wrap kind (keyword ++ label ++ closing)

/-- A statement that stops for a debugger. -/
def debuggerStatement : Parser Pieces := do
  let keyword ← word "debugger"
  let closing ← semicolon false
  return wrap .debuggerStatement (keyword ++ closing)

/-- Whether a label starts at a word. -/
def startsLabel (start : Cursor) : Bool :=
  match freeName? start.rest with
  | some name =>
    match (start.advance name.length).sequel true true with
    | .ends .. => false
    | .continues gap => markAt gap.next.rest = ":"
  | none => false

/-- A statement with a label. -/
def labeledStatement (self : Goal → Parser Pieces) : Parser Pieces := do
  let label ← freeName .statementIdentifier
  let colon ← mark ":"
  let body ← self .statement
  return wrap .labeledStatement (label ++ colon ++ inRole .body body)

end Codebox.Script
