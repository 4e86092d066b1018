import Codebox.Script.Lexeme
import Codebox.Script.Semicolon
import Codebox.Syntax.Node

/-! # Cursors

A cursor stands in a script and knows the text ahead, its offset in bytes and
its place. What lies between two tokens is a gap: white space, and comments,
which become nodes.
-/

namespace Codebox.Script

/-- A place in a script with the text ahead. -/
structure Cursor where
  rest : List Char
  offset : Nat
  point : Point
  /-- The number of characters of the whole script, which bounds every loop over
  the text ahead. -/
  size : Nat

namespace Cursor

/-- The start of a text. -/
def start (text : List Char) : Cursor :=
  ⟨text, 0, ⟨0, 0⟩, text.length⟩

/-- The place after one character. -/
def stepPoint (point : Point) (c : Char) : Point :=
  if c = '\n' then ⟨point.row + 1, 0⟩ else ⟨point.row, point.column + c.utf8Size⟩

/-- A cursor some characters further on. -/
def advance : Nat → Cursor → Cursor
  | 0, cursor => cursor
  | _ + 1, ⟨[], offset, point, size⟩ => ⟨[], offset, point, size⟩
  | count + 1, ⟨c :: rest, offset, point, size⟩ =>
    advance count ⟨rest, offset + c.utf8Size, stepPoint point c, size⟩

/-- A cursor after the white space ahead. -/
def skipSpace (cursor : Cursor) : Cursor :=
  cursor.advance (cursor.rest.takeWhile isSpace).length

/-- The place of a cursor for a reader. -/
def location (cursor : Cursor) : Location :=
  cursor.point.location

/-- The node for the text from one cursor to another. -/
def leaf (first last : Cursor) (kind : Kind) (named : Bool) : Node :=
  .mk { kind := kind, span := ⟨first.offset, last.offset⟩, point := first.point, named := named } []

end Cursor

/-- What lies between two tokens. -/
structure Gap where
  /-- The comments, as nodes. -/
  comments : List Node
  /-- The end of the last token or comment. -/
  edge : Cursor
  /-- The start of the next token. -/
  next : Cursor

/-- The length and kind of a comment at the front of a text. Embedded-page
comments count only where `html` holds. -/
def comment? (html : Bool) (text : List Char) : Option (Kind × Nat) :=
  match commentLength? text with
  | some length => some (.comment, length)
  | none =>
    if html then (htmlCommentLength? text).map fun length => (.htmlComment, length) else none

/-- The gap at a cursor, after the comments in `found`, last one first. -/
def gapFrom (html : Bool) : Nat → List Node → Cursor → Gap
  | 0, found, edge => ⟨found.reverse, edge, edge.skipSpace⟩
  | fuel + 1, found, edge =>
    let next := edge.skipSpace
    match comment? html next.rest with
    | some (kind, length) =>
      let edge := next.advance length
      gapFrom html fuel (next.leaf edge kind true :: found) edge
    | none => ⟨found.reverse, edge, next⟩

/-- The gap at a cursor where a new construct or a fixed token has to follow. -/
def Cursor.gap (cursor : Cursor) : Gap :=
  gapFrom true cursor.size [] cursor

/-- What follows an expression or the end of a construct. -/
inductive Sequel where
  /-- The statement ends at `edge`, with these comments taken in. -/
  | ends (comments : List Node) (edge : Cursor)
  /-- The next token follows this gap. -/
  | continues (gap : Gap)

/-- What follows at a cursor where a statement may end, after the comments in
`found`, last one first. Where the statement does not end, a comment ahead is
taken in and the question is asked again after it. -/
def sequelFrom (operators : Bool) : Nat → List Node → Cursor → Sequel
  | 0, found, edge => .continues ⟨found.reverse, edge, edge.skipSpace⟩
  | fuel + 1, found, edge =>
    if statementEnds operators edge.size edge.rest then .ends found.reverse edge
    else
      let next := edge.skipSpace
      match commentLength? next.rest with
      | some length =>
        let edge := next.advance length
        sequelFrom operators fuel (next.leaf edge .comment true :: found) edge
      | none => .continues ⟨found.reverse, edge, next⟩

/-- What follows at a cursor where an operator may stand. The statement may end
there if `ends` holds. -/
def Cursor.sequel (cursor : Cursor) (operators ends : Bool) : Sequel :=
  if ends then sequelFrom operators (cursor.size + 1) [] cursor
  else .continues (gapFrom false cursor.size [] cursor)

end Codebox.Script
