import Codebox.Syntax.Node
import Codebox.Text.Blank

/-! # Flaws of a tree

A flaw is an error node or a node for a token that is not there. Nodes carry
marks that tell whether to look for flaws below them.
-/

namespace Codebox

namespace Node

/-- Whether a node is itself a flaw. -/
def isFlaw (node : Node) : Bool :=
  node.kind = .error || node.head.missing

mutual

/-- The first flaw of a tree in document order, as the marks tell. -/
def firstFlaw : Node → Option Node
  | mk head children =>
    if (mk head children).isFlaw then some (mk head children) else firstFlawAmong children

/-- The first flaw of some trees; a tree without a mark is passed over. -/
def firstFlawAmong : List Node → Option Node
  | [] => none
  | node :: rest =>
    if node.head.flawed || node.head.missing then
      match firstFlaw node with
      | some flaw => some flaw
      | none => firstFlawAmong rest
    else firstFlawAmong rest

end

end Node

/-- How many characters of an offending text a message shows. -/
def shownLength : Nat := 20

/-- The part of an offending text that a message shows: the first line, trimmed
and cut. -/
def shownText (text : List Char) : String :=
  let line := Text.trim (Text.firstLine text)
  if shownLength < line.length then String.ofList (line.take shownLength) ++ "..."
  else String.ofList line

/-- The fault that a flaw stands for; without a flaw, all that is known is that
there is one. -/
def flawFault (source : Bytes) : Option Node → SyntaxFault × Location
  | none => (.unknown, ⟨1, 1⟩)
  | some flaw =>
    if flaw.head.missing then (.missing flaw.kind.label, flaw.location)
    else
      let text := shownText (Utf8.decodeLenient (source.cut flaw.span))
      (if text = "" then .endOfInput else .unexpected text, flaw.location)

end Codebox
