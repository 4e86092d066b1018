import Codebox.Edit
import Codebox.Syntax.Walk

/-! # Declaration keywords

A binding of a codebox has no keyword. The keyword of every declaration in a
scope, and of every loop head that declares, is deleted together with the blanks
up to what it binds.
-/

namespace Codebox

/-- The blanks that go with a deleted keyword: space, tab, line feed and
return. -/
def isGapByte (byte : UInt8) : Bool :=
  byte = 0x20 || byte = 0x09 || byte = 0x0D || byte = 0x0A

/-- The first token of a declaration and what it binds first, or those of a loop
head. A declaration of a script has both; a loop head need not have a keyword. -/
def declaring? (node : Node) : Option (Node × Node) :=
  if node.kind.declares then
    match node.children.head?, node.namedChildren.find? (·.kind = .variableDeclarator) with
    | some keyword, some binding => some (keyword, binding)
    | _, _ => none
  else if node.kind = .forInStatement then
    match node.child? .keyword, node.child? .left with
    | some keyword, some binding => some (keyword, binding)
    | _, _ => none
  else none

/-- How many of the bytes after a keyword are deleted with it. -/
def gapLength (source : Bytes) (keyword binding : Node) : Nat :=
  ((source.cut ⟨keyword.span.stop, binding.span.start⟩).takeWhile isGapByte).length

/-- The deletion of a node's keyword, if it declares by one. -/
def keywordEdit? (source : Bytes) (node : Node) : Option Edit :=
  match declaring? node with
  | some (keyword, binding) =>
    if keyword.kind.isKeyword then
      some ⟨⟨keyword.span.start, keyword.span.stop + gapLength source keyword binding⟩, ""⟩
    else none
  | none => none

/-- The deletions of all keywords of a scope, the scope's own node included. -/
def keywordEdits (source : Bytes) (scope : Node) : List Edit :=
  (scope :: scope.walk).filterMap (keywordEdit? source)

end Codebox
