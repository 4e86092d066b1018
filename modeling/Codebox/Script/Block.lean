import Codebox.Script.Pattern

/-! # Lists, parameters and blocks -/

namespace Codebox.Script

/-- The items of a list up to its closing mark, commas between them. Items may
be left out, which rules that need all of them check afterwards. -/
def listed (close : String) (item : Parser Pieces) : Parser Pieces :=
  repeated do
    let gap ← ahead
    let next := markAt gap.next.rest
    if next = close || gap.next.rest.isEmpty then return none
    else if next = "," then return some (← takeToken gap ",")
    else
      let pieces ← item
      let after ← ahead
      let next := markAt after.next.rest
      if next = "," || next = close then return some pieces
      else stop (.missing close) after.edge

/-- An item of a list: an expression or a spread one. -/
def item (self : Goal → Parser Pieces) : Parser Pieces := do
  let gap ← ahead
  if markAt gap.next.rest = "..." then
    let dots ← takeToken gap "..."
    return wrap .spreadElement (dots ++ (← self (.element false)))
  else self (.element false)

/-- The pieces of a list in parentheses. -/
structure Parenthesized where
  opening : Pieces
  items : Pieces
  closing : Pieces

/-- A list in parentheses. -/
def parenthesized (self : Goal → Parser Pieces) : Parser Parenthesized := do
  let opening ← mark "("
  let items ← listed ")" (item self)
  let closing ← mark ")"
  return ⟨opening, items, closing⟩

/-- Items as the parameters of a function, if they can be. -/
def Parenthesized.parameters? (list : Parenthesized) : Option Pieces :=
  if areParameters list.items then
    (patterns? .item list.items).map fun items =>
      wrap .formalParameters (list.opening ++ items ++ list.closing)
  else none

/-- The parameters of a function. -/
def formalParameters (self : Goal → Parser Pieces) : Parser Pieces := do
  let place ← ahead
  let list ← parenthesized self
  match list.parameters? with
  | some pieces => return pieces
  | none => refuse place.next

/-- The arguments of a call. -/
def callArguments (self : Goal → Parser Pieces) : Parser Pieces := do
  let place ← ahead
  let list ← parenthesized self
  if list.items.any makesPattern then refuse place.next
  else return wrap .arguments (list.opening ++ list.items ++ list.closing)

/-- An expression in parentheses. -/
def condition (self : Goal → Parser Pieces) : Parser Pieces := do
  let opening ← mark "("
  let inner ← self (.sequence false)
  let closing ← mark ")"
  return wrap .parenthesizedExpression (opening ++ inner ++ closing)

/-- What a block is part of. -/
inductive BlockPlace where
  /-- The block is a statement. -/
  | statement
  /-- It is the body of a function that stands as a statement. Until it ends, the
  function may still turn out to be an expression. -/
  | declaration
  /-- It is part of a construct that no operator can carry on. -/
  | clause
  /-- It is the body of a function that is an expression. -/
  | value
  deriving DecidableEq

/-- Whether an operator may follow a block. An empty block that is a statement
may still turn out to be an object. -/
def BlockPlace.operators (place : BlockPlace) (empty : Bool) : Bool :=
  match place with
  | .statement => empty
  | .declaration | .value => true
  | .clause => false

/-- The comments that a closed construct takes in because the statement ends
after them. Where it does not end there, no embedded-page comment can follow,
unless an operator of an expression can. -/
def closingComments (operators value : Bool) : Parser Pieces := do
  match ← sequel operators true with
  | .ends comments edge =>
    set edge
    return comments
  | .continues gap =>
    if !value && opensHtmlComment gap.next.rest then refuse gap.next else return []

/-- Whether a list of statements in braces ends here. -/
def endsBlock (text : List Char) : Bool :=
  text.isEmpty || markAt text = "\x7d"

/-- Statements up to a place that `ends` tells. -/
def statements (self : Goal → Parser Pieces) (ends : List Char → Bool) : Parser Pieces :=
  repeated do
    if ends (← ahead).next.rest then return none else return some (← self .statement)

/-- Statements in braces. -/
def block (self : Goal → Parser Pieces) (place : BlockPlace) : Parser Pieces := do
  let opening ← mark "\x7b"
  let inner ← statements self endsBlock
  let closing ← mark "\x7d"
  let comments ← closingComments (place.operators inner.isEmpty) (place = .value)
  return wrap .statementBlock (opening ++ inner ++ closing ++ comments)

end Codebox.Script
