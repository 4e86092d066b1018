import Codebox.Script.Block

/-! # Members of objects and classes -/

namespace Codebox.Script

/-- The name of a property: a word of any kind, a private name, a text, a number
or an expression in brackets. -/
def propertyName (self : Goal → Parser Pieces) : Parser Pieces := do
  let gap ← ahead
  let text := gap.next.rest
  match name? text with
  | some name => takeAfter gap .propertyIdentifier true name.length
  | none =>
    match markAt text, nameLength text.tail, stringLength? text, numberLength text with
    | "#", length + 1, _, _ => takeAfter gap .privatePropertyIdentifier true (length + 2)
    | "[", _, _, _ =>
      let opening ← takeToken gap "["
      let inner ← self (.expression false)
      let closing ← mark "]"
      return wrap .computedPropertyName (opening ++ inner ++ closing)
    | _, _, some length, _ => takeAfter gap .stringLiteral true length
    | _, _, none, length + 1 => takeAfter gap .numberLiteral true (length + 1)
    | _, _, none, 0 => refuse gap.next

/-- The words that may stand before the name of a method. -/
def modifierWords : List String := ["static", "async", "get", "set"]

/-- The words and stars before a member's name. A word is itself the name if the
member ends with it or one of `after` follows. -/
def modifiers (after : List String) (ends : Bool) : Parser Pieces :=
  repeated do
    let gap ← ahead
    let text := gap.next.rest
    if markAt text = "*" then return some (← takeToken gap "*")
    else
      match name? text with
      | some name =>
        if modifierWords.contains name then
          match (gap.next.advance name.length).sequel false ends with
          | .ends .. => return none
          | .continues following =>
            if after.contains (markAt following.next.rest) || following.next.rest.isEmpty then
              return none
            else return some (← takeToken gap name)
        else return none
      | none => return none

/-- A method, after its name. -/
def methodAfter (self : Goal → Parser Pieces) (before : Pieces) : Parser Pieces := do
  let parameters ← formalParameters self
  let body ← block self .clause
  return wrap .methodDefinition
    (before ++ inRole .parameters parameters ++ inRole .body body)

/-- The last piece with another kind. -/
def recastLast (kind : Kind) (pieces : Pieces) : Pieces :=
  match pieces.getLast? with
  | some node => pieces.dropLast ++ [node.recast kind node.children]
  | none => pieces

/-- The marks after a word that make it the name of an object's member. -/
def objectNameMarks : List String := ["(", ":", ",", "\x7d", "="]

/-- A member of an object. -/
def objectMember (self : Goal → Parser Pieces) : Parser Pieces := do
  if markAt (← ahead).next.rest = "..." then item self
  else
    let before ← modifiers objectNameMarks false
    let start ← ahead
    let name ← propertyName self
    let shorthand := before.isEmpty && (freeName? start.next.rest).isSome
    let gap ← ahead
    match markAt gap.next.rest with
    | "(" => methodAfter self (before ++ inRole .name name)
    | ":" =>
      if before.isEmpty then
        let colon ← takeToken gap ":"
        let value ← self (.element false)
        return wrap .pair (name ++ colon ++ inRole .value value)
      else refuse gap.next
    | "=" =>
      if shorthand then
        let equals ← takeToken gap "="
        let value ← self (.expression false)
        return wrap .objectAssignmentPattern
          (recastLast .shorthandPropertyIdentifierPattern name ++ equals ++ value)
      else refuse gap.next
    | _ =>
      if shorthand then return recastLast .shorthandPropertyIdentifier name
      else refuse gap.next

/-- An object, or what can only be an object pattern. -/
def object (self : Goal → Parser Pieces) : Parser Pieces := do
  let opening ← mark "\x7b"
  let members ← listed "\x7d" (objectMember self)
  let closing ← mark "\x7d"
  if members.any makesPattern then
    match patterns? .member members with
    | some members => return wrap .objectPattern (opening ++ members ++ closing)
    | none => refuse (← get)
  else return wrap .object (opening ++ members ++ closing)

/-- An array, or what can only be an array pattern. -/
def array (self : Goal → Parser Pieces) : Parser Pieces := do
  let opening ← mark "["
  let items ← listed "]" (item self)
  let closing ← mark "]"
  if items.any makesPattern then
    match patterns? .item items with
    | some items => return wrap .arrayPattern (opening ++ items ++ closing)
    | none => refuse (← get)
  else return wrap .array (opening ++ items ++ closing)

/-- The names after a decorator's first one. -/
def decoratorPath : Parser Pieces :=
  repeated do
    let gap ← ahead
    if markAt gap.next.rest = "." then
      let dot ← takeToken gap "."
      let name ← freeName .propertyIdentifier
      return some (dot ++ name)
    else return none

/-- Decorators. -/
def decorators (self : Goal → Parser Pieces) : Parser Pieces :=
  repeated do
    let gap ← ahead
    if markAt gap.next.rest = "@" then
      let sign ← takeToken gap "@"
      if markAt (← ahead).next.rest = "(" then
        return some (wrap .decorator (sign ++ (← condition self)))
      else
        let name ← freeName .identifier
        let path ← decoratorPath
        let call ← if markAt (← ahead).next.rest = "(" then callArguments self else pure []
        return some (wrap .decorator (sign ++ name ++ path ++ call))
    else return none

/-- The marks after a word that make it the name of a class's member. -/
def classNameMarks : List String := ["(", "=", ";", "\x7d"]

/-- A field of a class, after its name. -/
def fieldAfter (self : Goal → Parser Pieces) (before : Pieces) : Parser Pieces := do
  let value ←
    match ← sequel false true with
    | .ends .. => pure []
    | .continues gap =>
      if markAt gap.next.rest = "=" then do
        let equals ← takeToken gap "="
        let value ← self (.expression true)
        pure (equals ++ inRole .value value)
      else pure []
  let closing ← semicolon (!value.isEmpty)
  return wrap .fieldDefinition (before ++ value) ++ closing

/-- Whether a block of statements that belongs to the class comes next. -/
def startsStaticBlock (start : Cursor) : Bool :=
  name? start.rest = some "static" && markAt (start.advance 6).gap.next.rest = "\x7b"

/-- A member of a class. -/
def classMember (self : Goal → Parser Pieces) : Parser (Option Pieces) := do
  let gap ← ahead
  let next := markAt gap.next.rest
  if next = "\x7d" || gap.next.rest.isEmpty then return none
  else if next = ";" then return some (← takeToken gap ";")
  else if startsStaticBlock gap.next then
    let keyword ← word "static"
    let body ← block self .clause
    return some (wrap .classStaticBlock (keyword ++ inRole .body body))
  else
    let marks ← decorators self
    let before ← modifiers classNameMarks true
    let name ← propertyName self
    let before := marks ++ before ++ inRole .name name
    if markAt (← ahead).next.rest = "(" then return some (← methodAfter self before)
    else return some (← fieldAfter self before)

/-- The members of a class in braces. -/
def classBody (self : Goal → Parser Pieces) : Parser Pieces := do
  let opening ← mark "\x7b"
  let members ← repeated (classMember self)
  let closing ← mark "\x7d"
  return wrap .classBody (opening ++ members ++ closing)

/-- A class from its keyword on, as pieces. -/
def classParts (self : Goal → Parser Pieces) : Parser Pieces := do
  let keyword ← word "class"
  let name ←
    if (freeName? (← ahead).next.rest).isSome then freeName .identifier else pure []
  let heritage ←
    if name? (← ahead).next.rest = some "extends" then do
      let keyword ← word "extends"
      let parent ← self (.expression false)
      pure (wrap .classHeritage (keyword ++ parent))
    else pure []
  let body ← classBody self
  return keyword ++ inRole .name name ++ heritage ++ inRole .body body

end Codebox.Script
