import Codebox.Script.Declare

/-! # Imports and exports -/

namespace Codebox.Script

/-- A text in quotes. -/
def quoted : Parser Pieces := do
  let gap ← ahead
  match stringLength? gap.next.rest with
  | some length => takeAfter gap .stringLiteral true length
  | none => refuse gap.next

/-- A name as another script sees it: any word, or a text in quotes. -/
def outsideName : Parser Pieces := do
  let gap ← ahead
  match name? gap.next.rest with
  | some name => takeAfter gap .identifier true name.length
  | none => quoted

/-- A name with another one for it, if one is given. -/
def specifier (kind : Kind) : Parser Pieces := do
  let name ← outsideName
  let renamed ←
    if name? (← ahead).next.rest = some "as" then do
      let keyword ← word "as"
      pure (keyword ++ (← outsideName))
    else pure []
  return wrap kind (name ++ renamed)

/-- Specifiers in braces. -/
def specifiers (kind each : Kind) : Parser Pieces := do
  let place ← ahead
  let opening ← mark "\x7b"
  let inner ← listed "\x7d" (specifier each)
  let closing ← mark "\x7d"
  if wellSeparated true true inner then return wrap kind (opening ++ inner ++ closing)
  else refuse place.next

/-- The script that names come from. -/
def origin : Parser Pieces := do
  let keyword ← word "from"
  return keyword ++ (← quoted)

/-- All names of a script under one name. -/
def namespaceImport : Parser Pieces := do
  let star ← mark "*"
  let keyword ← word "as"
  let name ← freeName .identifier
  return wrap .namespaceImport (star ++ keyword ++ name)

/-- Imported names: all, or those in braces. -/
def importedNames : Parser Pieces := do
  if markAt (← ahead).next.rest = "*" then namespaceImport
  else specifiers .namedImports .importSpecifier

/-- What an import binds. -/
def importClause : Parser Pieces := do
  if (freeName? (← ahead).next.rest).isSome then
    let name ← freeName .identifier
    let comma ← mark? ","
    let others ← if comma.isEmpty then pure [] else importedNames
    return wrap .importClause (name ++ comma ++ others)
  else return wrap .importClause (← importedNames)

/-- An import. -/
def importStatement (self : Goal → Parser Pieces) : Parser Pieces := do
  let keyword ← word "import"
  let source ←
    if (stringLength? (← ahead).next.rest).isSome then quoted
    else do
      let clause ← importClause
      pure (clause ++ (← origin))
  let terms ←
    match ← sequel false true with
    | .ends .. => pure []
    | .continues gap =>
      if name? gap.next.rest = some "with" then do
        let keyword ← takeToken gap "with"
        pure (wrap .importAttribute (keyword ++ (← valued (self (.primary false)))))
      else pure []
  let closing ← semicolon false
  return wrap .importStatement (keyword ++ source ++ terms ++ closing)

/-- Whether the word `import` starts an import and not an expression. -/
def startsImport (start : Cursor) : Bool :=
  let next := markAt (start.advance 6).gap.next.rest
  next ≠ "(" && next ≠ "."

/-- What comes after `export default`. -/
def defaultExport (self : Goal → Parser Pieces) (before : Pieces) : Parser Pieces := do
  let start := (← ahead).next
  match declared? self .declaration start with
  | some declaration => return before ++ inRole .declaration (← declaration)
  | none =>
    let value ← self (.expression true)
    let closing ← semicolon true
    return before ++ inRole .value value ++ closing

/-- All names of a script, under one name if one is given. -/
def wholeExport : Parser Pieces := do
  let star ← mark "*"
  if name? (← ahead).next.rest = some "as" then
    let keyword ← word "as"
    return wrap .namespaceExport (star ++ keyword ++ (← outsideName))
  else return star

/-- A declaration that is exported. -/
def exportedDeclaration (self : Goal → Parser Pieces) : Parser Pieces := do
  let start := (← ahead).next
  match declared? self .clause start with
  | some declaration => declaration
  | none =>
    if startsVariables start then variableStatement self
    else if startsUsing start || startsAwaitUsing start then resources self
    else if markAt start.rest = "@" then
      let marks ← decorators self
      classAfter self .clause marks
    else refuse start

/-- An export, after its decorators. -/
def exportAfter (self : Goal → Parser Pieces) (before : Pieces) : Parser Pieces := do
  let keyword ← word "export"
  let before := before ++ keyword
  let gap ← ahead
  if markAt gap.next.rest = "*" then
    let names ← wholeExport
    let source ← origin
    let closing ← semicolon false
    return wrap .exportStatement (before ++ names ++ source ++ closing)
  else if markAt gap.next.rest = "\x7b" then
    let names ← specifiers .exportClause .exportSpecifier
    let source ←
      match ← sequel false true with
      | .ends .. => pure []
      | .continues gap => if name? gap.next.rest = some "from" then origin else pure []
    let closing ← semicolon false
    return wrap .exportStatement (before ++ names ++ source ++ closing)
  else if name? gap.next.rest = some "default" then
    let keyword ← takeToken gap "default"
    return wrap .exportStatement (← defaultExport self (before ++ keyword))
  else
    return wrap .exportStatement (before ++ inRole .declaration (← exportedDeclaration self))

/-- A statement that starts with decorators. -/
def decorated (self : Goal → Parser Pieces) : Parser Pieces := do
  let marks ← decorators self
  if name? (← ahead).next.rest = some "export" then exportAfter self marks
  else classAfter self .declaration marks

end Codebox.Script
