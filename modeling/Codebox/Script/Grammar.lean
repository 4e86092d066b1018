import Codebox.Script.Cursor

/-! # Building trees

A parser moves a cursor and gives pieces: the comments before a construct, and
the construct. Wrapping pieces into a node leaves the comments before its first
token outside, so that every comment comes to lie in the innermost node with
tokens on either side of it.

The grammar is recursive through goals. A rule for a goal calls on other goals
through a function that it is given, and the knot is tied once, with a bound on
how deep goals may nest.
-/

namespace Codebox.Script

/-- Comments, and the nodes that they stand before. -/
abbrev Pieces := List Node

/-- A computation that moves a cursor, or stops at a syntax fault. -/
abbrev Parser (α : Type) := StateT Cursor (Except Fault) α

/-- What a rule of the grammar is asked for. Where `ends` holds, the statement
around the construct may end with it. -/
inductive Goal where
  /-- A statement. -/
  | statement
  /-- One expression or several with commas between them. -/
  | sequence (ends : Bool)
  /-- One expression. -/
  | expression (ends : Bool)
  /-- One expression, or what can only be a pattern. -/
  | element (ends : Bool)
  /-- An expression whose outermost binary operator has at least this level. -/
  | binary (ends : Bool) (level : Nat)
  /-- What a binary operator takes. -/
  | operand (ends : Bool)
  /-- An expression before any access, call or operator. -/
  | primary (ends : Bool)
  /-- What `new` takes: an expression with accesses and without calls. -/
  | callee (ends : Bool)
  /-- An element of embedded markup. -/
  | markup

/-- Stops at a place. -/
def stop {α : Type} (cause : SyntaxFault) (place : Cursor) : Parser α :=
  throw (.malformed cause place.location)

/-- Stops at the text ahead of a place, which cannot stand there. -/
def refuse {α : Type} (place : Cursor) : Parser α :=
  match place.rest with
  | [] => stop .endOfInput place
  | c :: rest =>
    match name? (c :: rest) with
    | some name => stop (.unexpected name) place
    | none => stop (.unexpected (String.ofList [c])) place

/-- The gap ahead. -/
def ahead : Parser Gap := do
  return (← get).gap

/-- What follows here, where a statement may end if `ends` holds. -/
def sequel (operators ends : Bool) : Parser Sequel := do
  return (← get).sequel operators ends

/-- Takes the gap and the text after it, up to a length, as one token. -/
def takeAfter (gap : Gap) (kind : Kind) (named : Bool) (length : Nat) : Parser Pieces := do
  let last := gap.next.advance length
  set last
  return gap.comments ++ [gap.next.leaf last kind named]

/-- Takes a token with this text. -/
def takeToken (gap : Gap) (text : String) : Parser Pieces :=
  takeAfter gap (.ofToken text) false text.length

/-- The mark ahead has to be this one. -/
def mark (text : String) : Parser Pieces := do
  let gap ← ahead
  if markAt gap.next.rest = text then takeToken gap text
  else stop (.missing text) gap.edge

/-- The word ahead has to be this one. -/
def word (text : String) : Parser Pieces := do
  let gap ← ahead
  if name? gap.next.rest = some text then takeToken gap text
  else stop (.missing text) gap.edge

/-- Takes the mark ahead if it is this one. -/
def mark? (text : String) : Parser Pieces := do
  let gap ← ahead
  if markAt gap.next.rest = text then takeToken gap text else return []

/-- Takes the word ahead if it is this one. -/
def word? (text : String) : Parser Pieces := do
  let gap ← ahead
  if name? gap.next.rest = some text then takeToken gap text else return []

/-- A name that is no reserved word. -/
def freeName (kind : Kind) : Parser Pieces := do
  let gap ← ahead
  match freeName? gap.next.rest with
  | some name => takeAfter gap kind true name.length
  | none => refuse gap.next

/-- Gives the last piece a role. -/
def inRole (role : Role) (pieces : Pieces) : Pieces :=
  match pieces.getLast? with
  | some node => pieces.dropLast ++ [node.inRole role]
  | none => pieces

/-- Makes one node of pieces; the comments before its first token stay
outside. -/
def wrap (kind : Kind) (pieces : Pieces) : Pieces :=
  let comments := pieces.takeWhile (·.kind.isTrivia)
  let inner := pieces.dropWhile (·.kind.isTrivia)
  match inner.head?, inner.getLast? with
  | some first, some last =>
    comments ++
      [.mk { kind := kind, span := ⟨first.span.start, last.span.stop⟩, point := first.point } inner]
  | _, _ => pieces

/-- The kind of the construct that pieces end with. -/
def kindOf (pieces : Pieces) : Option Kind :=
  pieces.getLast?.map (·.kind)

/-- The loop of `repeated`, with the pieces so far, last one first. -/
def repeatedFrom (step : Parser (Option Pieces)) : Nat → Pieces → Parser Pieces
  | 0, done => return done.reverse
  | fuel + 1, done => do
    match ← step with
    | some pieces => repeatedFrom step fuel (pieces.reverse ++ done)
    | none => return done.reverse

/-- The pieces of a step that is taken until it declines. -/
def repeated (step : Parser (Option Pieces)) : Parser Pieces := do
  repeatedFrom step ((← get).size + 1) []

/-- The loop of `extended`. -/
def extendedFrom (step : Pieces → Parser (Option Pieces)) : Nat → Pieces → Parser Pieces
  | 0, pieces => return pieces
  | fuel + 1, pieces => do
    match ← step pieces with
    | some larger => extendedFrom step fuel larger
    | none => return pieces

/-- Pieces that a step makes larger until it declines. -/
def extended (first : Pieces) (step : Pieces → Parser (Option Pieces)) : Parser Pieces := do
  extendedFrom step ((← get).size + 1) first

/-- The result of a parser, or of another one from the same place if it
stops. -/
def orElse {α : Type} (first second : Parser α) : Parser α := fun cursor =>
  match first cursor with
  | .ok result => .ok result
  | .error _ => second cursor

/-- The end of a statement: a semicolon, or none where the statement ends by
itself. -/
def semicolon (operators : Bool) : Parser Pieces := do
  match ← sequel operators true with
  | .ends comments edge =>
    set edge
    return comments
  | .continues gap =>
    if markAt gap.next.rest = ";" then takeToken gap ";"
    else stop (.missing ";") gap.edge

end Codebox.Script
