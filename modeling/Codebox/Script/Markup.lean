import Codebox.Script.Block

/-! # Embedded markup -/

namespace Codebox.Script

/-- The length of a name in markup, where a name may hold hyphens. -/
def markupNameLength : List Char → Nat
  | [] => 0
  | c :: rest =>
    if isNameStart c then 1 + (rest.takeWhile fun c => isNamePart c || c = '-').length else 0

/-- A name in markup; points and colons may join several. -/
def markupName : Parser Pieces := do
  let gap ← ahead
  match markupNameLength gap.next.rest with
  | 0 => refuse gap.next
  | length =>
    let first ← takeAfter gap .markupName true length
    let others ← repeated do
      let gap ← ahead
      let joint := markAt gap.next.rest
      if joint = "." || joint = ":" then
        let joint ← takeToken gap joint
        let gap ← ahead
        match markupNameLength gap.next.rest with
        | 0 => refuse gap.next
        | length => return some (joint ++ (← takeAfter gap .markupName true length))
      else return none
    return first ++ others

/-- An expression in braces, which may be left out. -/
def markupExpression (self : Goal → Parser Pieces) : Parser Pieces := do
  let opening ← mark "\x7b"
  let gap ← ahead
  let inner ←
    match markAt gap.next.rest with
    | "\x7d" => pure []
    | "..." => item self
    | _ => self (.sequence false)
  let closing ← mark "\x7d"
  return wrap .markupExpression (opening ++ inner ++ closing)

/-- The length of a quoted attribute value. -/
def markupStringLength? : List Char → Option Nat
  | [] => none
  | quote :: rest =>
    if quote = '\x22' || quote = '\x27' then
      let length := (rest.takeWhile (· ≠ quote)).length
      if (rest.drop length).isEmpty then none else some (length + 2)
    else none

/-- The value of an attribute. -/
def markupValue (self : Goal → Parser Pieces) : Parser Pieces := do
  let gap ← ahead
  match markupStringLength? gap.next.rest with
  | some length => takeAfter gap .stringLiteral true length
  | none =>
    match markAt gap.next.rest with
    | "\x7b" => markupExpression self
    | "<" => self .markup
    | _ => refuse gap.next

/-- The attributes of an element. -/
def markupAttributes (self : Goal → Parser Pieces) : Parser Pieces :=
  repeated do
    let gap ← ahead
    if markAt gap.next.rest = "\x7b" then return some (← markupExpression self)
    else if markupNameLength gap.next.rest = 0 then return none
    else
      let name ← markupName
      let gap ← ahead
      if gap.next.rest.head? = some '=' then
        let equals ← takeToken gap "="
        let value ← markupValue self
        return some (wrap .markupAttribute (name ++ equals ++ value))
      else return some (wrap .markupAttribute name)

/-- One character that ends or closes a tag. -/
def tagMark (text : String) : Parser Pieces := do
  let gap ← ahead
  if text.toList.isPrefixOf gap.next.rest then takeToken gap text
  else stop (.missing text) gap.edge

/-- The length of a reference to a character. -/
def referenceLength? : List Char → Option Nat
  | '&' :: rest =>
    let length := (rest.takeWhile fun c => isNamePart c || c = '#').length
    if 0 < length && (rest.drop length).head? = some ';' then some (length + 2) else none
  | _ => none

/-- The length of text in markup. -/
def markupTextLength (text : List Char) : Nat :=
  (text.takeWhile fun c => !"<>\x7b\x7d&".toList.contains c).length

/-- Whether a closing tag comes next. -/
def startsClosingTag (start : Cursor) : Bool :=
  match start.rest with
  | '<' :: _ => (start.advance 1).gap.next.rest.head? = some '/'
  | _ => false

/-- What an element holds. -/
def markupChildren (self : Goal → Parser Pieces) : Parser Pieces :=
  repeated do
    let start ← get
    match start.rest with
    | [] => stop .endOfInput start
    | '<' :: _ => if startsClosingTag start then return none else return some (← self .markup)
    | '\x7b' :: _ => return some (← markupExpression self)
    | '&' :: _ =>
      match referenceLength? start.rest with
      | some length =>
        return some (← takeAfter ⟨[], start, start⟩ .characterReference true length)
      | none => refuse start
    | _ =>
      match markupTextLength start.rest with
      | 0 => refuse start
      | length => return some (← takeAfter ⟨[], start, start⟩ .markupText true length)

/-- The name in a tag, if there is one. -/
def tagName : Parser Pieces := do
  if markupNameLength (← ahead).next.rest = 0 then return [] else markupName

/-- An element of embedded markup. -/
def markup (self : Goal → Parser Pieces) : Parser Pieces := do
  let opening ← tagMark "<"
  let name ← tagName
  let attributes ← if name.isEmpty then pure [] else markupAttributes self
  let gap ← ahead
  if !name.isEmpty && gap.next.rest.head? = some '/' then
    let slash ← takeToken gap "/"
    let closing ← tagMark ">"
    return wrap .markupEmpty (opening ++ name ++ attributes ++ slash ++ closing)
  else
    let closing ← tagMark ">"
    let start := wrap .markupOpening (opening ++ name ++ attributes ++ closing)
    let children ← markupChildren self
    let opening ← tagMark "<"
    let slash ← tagMark "/"
    let name ← tagName
    let closing ← tagMark ">"
    return wrap .markupElement
      (start ++ children ++ wrap .markupClosing (opening ++ slash ++ name ++ closing))

end Codebox.Script
