import Codebox.Script.Member

/-! # Primary expressions

Names, literals, brackets, functions and classes: what stands before any access,
call or operator.
-/

namespace Codebox.Script

/-- The parts of a template after its opening quote. -/
def templateParts (self : Goal → Parser Pieces) : Parser Pieces :=
  repeated do
    let start ← get
    let here : Gap := ⟨[], start, start⟩
    match start.rest with
    | [] => stop .endOfInput start
    | '\x60' :: _ => return none
    | '$' :: '\x7b' :: _ =>
      let opening ← takeToken here "$\x7b"
      let inner ← self (.sequence false)
      let closing ← mark "\x7d"
      return some (wrap .templateSubstitution (opening ++ inner ++ closing))
    | '\\' :: _ =>
      match escapeLength? start.rest with
      | some length => return some (← takeAfter here .escapeSequence true length)
      | none => refuse start
    | _ => return some (← takeAfter here .templateText true (templateTextLength start.rest))

/-- A template. -/
def template (self : Goal → Parser Pieces) : Parser Pieces := do
  let opening ← mark "\x60"
  let parts ← templateParts self
  let closing ← mark "\x60"
  return wrap .templateString (opening ++ parts ++ closing)

/-- A function that is an expression, after the pieces of a word before it. -/
def functionExpression (self : Goal → Parser Pieces) (before : Pieces) : Parser Pieces := do
  let keyword ← word "function"
  let star ← mark? "*"
  let name ← if (freeName? (← ahead).next.rest).isSome then freeName .identifier else pure []
  let parameters ← formalParameters self
  let body ← block self .value
  let kind := if star.isEmpty then Kind.functionExpression else .generatorFunction
  return wrap kind
    (before ++ keyword ++ star ++ inRole .name name ++ inRole .parameters parameters ++
      inRole .body body)

/-- Whether an arrow follows here. -/
def arrowFollows (ends : Bool) : Parser Bool := do
  match ← sequel true ends with
  | .ends .. => return false
  | .continues gap => return markAt gap.next.rest = "=>"

/-- An arrow function, after its parameters. -/
def arrowAfter (self : Goal → Parser Pieces) (ends : Bool) (parameters : Pieces) :
    Parser Pieces := do
  let arrow ← mark "=>"
  let body ←
    if markAt (← ahead).next.rest = "\x7b" then block self .value else self (.expression ends)
  return wrap .arrowFunction (parameters ++ arrow ++ inRole .body body)

/-- Items in parentheses as an expression. -/
def Parenthesized.expression (list : Parenthesized) : Pieces :=
  let inner :=
    if list.items.any (·.kind = .comma) then wrap .sequenceExpression list.items else list.items
  wrap .parenthesizedExpression (list.opening ++ inner ++ list.closing)

/-- A list in parentheses: the parameters of an arrow function if an arrow
follows, and else an expression. -/
def parenthesizedOrArrow (self : Goal → Parser Pieces) (ends : Bool) : Parser Pieces := do
  let place ← ahead
  let list ← parenthesized self
  if ← arrowFollows ends then
    match list.parameters? with
    | some parameters => arrowAfter self ends (inRole .parameters parameters)
    | none => refuse place.next
  else if areExpressions list.items then return list.expression
  else refuse place.next

/-- The word `async` with what it belongs to: a function, an arrow function, or
nothing, when it is a name like any other. -/
def asyncPrimary (self : Goal → Parser Pieces) (ends : Bool) : Parser Pieces := do
  let gap ← ahead
  let asName ← takeAfter gap .identifier true 5
  let asKeyword := gap.comments ++ [gap.next.leaf (← get) (.token "async") false]
  match ← sequel true ends with
  | .ends .. => return asName
  | .continues following =>
    match name? following.next.rest with
    | some name =>
      if name = "function" then functionExpression self asKeyword
      else if isFree name &&
          markAt (following.next.advance name.length).gap.next.rest = "=>" then
        let parameter ← freeName .identifier
        arrowAfter self ends (asKeyword ++ parameter)
      else return asName
    | none =>
      match markAt following.next.rest with
      | "=>" => arrowAfter self ends asName
      | "(" =>
        let list ← parenthesized self
        if ← arrowFollows ends then
          match list.parameters? with
          | some parameters => arrowAfter self ends (asKeyword ++ inRole .parameters parameters)
          | none => refuse following.next
        else if list.items.any makesPattern then refuse following.next
        else
          return wrap .callExpression
            (asName ++ wrap .arguments (list.opening ++ list.items ++ list.closing))
      | _ => return asName

/-- The word `import` as part of an expression. -/
def importPrimary : Parser Pieces := do
  let gap ← ahead
  let keyword ← takeAfter gap .importExpression true 6
  let gap ← ahead
  match markAt gap.next.rest with
  | "(" => return keyword
  | "." =>
    let dot ← takeToken gap "."
    let property ← word "meta"
    return wrap .metaProperty (keyword ++ dot ++ property)
  | _ => refuse gap.next

/-- The word `new` with what it creates. -/
def newExpression (self : Goal → Parser Pieces) (ends : Bool) : Parser Pieces := do
  let keyword ← word "new"
  let gap ← ahead
  if markAt gap.next.rest = "." then
    let dot ← takeToken gap "."
    let property ← word "target"
    return wrap .metaProperty (keyword ++ dot ++ property)
  else
    let callee ← valued (self (.callee ends))
    let arguments ←
      match ← sequel true ends with
      | .ends .. => pure []
      | .continues gap =>
        if markAt gap.next.rest = "(" then callArguments self else pure []
    return wrap .newExpression (keyword ++ callee ++ arguments)

/-- The kinds of the words that are expressions by themselves. -/
def wordKind? : String → Option Kind
  | "this" => some .thisExpression
  | "super" => some .superExpression
  | "null" => some .nullLiteral
  | "true" => some .trueLiteral
  | "false" => some .falseLiteral
  | "undefined" => some .undefinedLiteral
  | _ => none

/-- A primary expression that starts with a word. -/
def wordPrimary (self : Goal → Parser Pieces) (ends : Bool) (gap : Gap) (name : String) :
    Parser Pieces :=
  match name with
  | "function" => functionExpression self []
  | "class" => return wrap .classExpression (← classParts self)
  | "new" => newExpression self ends
  | "import" => importPrimary
  | "async" => asyncPrimary self ends
  | _ =>
    match wordKind? name with
    | some kind => takeAfter gap kind true name.length
    | none => do
      if isFree name then
        let pieces ← takeAfter gap .identifier true name.length
        if ← arrowFollows ends then arrowAfter self ends pieces else return pieces
      else refuse gap.next

/-- A primary expression that starts with a mark. -/
def markPrimary (self : Goal → Parser Pieces) (ends : Bool) (gap : Gap) : Parser Pieces :=
  match gap.next.rest with
  | '(' :: _ => parenthesizedOrArrow self ends
  | '[' :: _ => array self
  | '\x7b' :: _ => object self
  | '\x60' :: _ => template self
  | '<' :: _ => self .markup
  | '@' :: _ => do
    let marks ← decorators self
    return wrap .classExpression (marks ++ (← classParts self))
  | '#' :: rest =>
    match nameLength rest with
    | 0 => refuse gap.next
    | length => takeAfter gap .privatePropertyIdentifier true (length + 1)
  | '/' :: _ =>
    match regexLength? gap.next.rest with
    | some length => takeAfter gap .regexLiteral true length
    | none => refuse gap.next
  | _ => refuse gap.next

/-- An expression before any access, call or operator. -/
def primary (self : Goal → Parser Pieces) (ends : Bool) : Parser Pieces := do
  let gap ← ahead
  let text := gap.next.rest
  match name? text with
  | some name => wordPrimary self ends gap name
  | none =>
    match stringLength? text, numberLength text with
    | some length, _ => takeAfter gap .stringLiteral true length
    | none, length + 1 => takeAfter gap .numberLiteral true (length + 1)
    | none, 0 => markPrimary self ends gap

end Codebox.Script
