import Codebox.Script.Program
import Codebox.Syntax.Flaw

/-! # Documents -/

namespace Codebox

/-- A script as bytes, with its syntax tree. -/
structure Document where
  source : Bytes
  root : Node

/-- The document of a text and the tree that a parser has built for it. A tree that
is marked at its root is refused at its first flaw. A parser may build such a tree; the
one of this library stops at what is wrong instead, and marks no node. -/
def Document.ofTree (source : Bytes) (root : Node) : Except Fault Document :=
  if root.head.flawed then
    let (cause, location) := flawFault source root.firstFlaw
    .error (.malformed cause location)
  else .ok ⟨source, root⟩

/-- Reads a script. The tree is never refused here, since its root is not marked: a text
that is no script has no tree. -/
def Document.parse (text : String) : Except Fault Document := do
  Document.ofTree (Utf8.encode text) (← Script.tree text.toList)

end Codebox
