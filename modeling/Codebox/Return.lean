import Codebox.Document
import Codebox.Edit
import Codebox.Journal
import Codebox.Syntax.Walk
import Codebox.Text.Blank

/-! # Returned arrays

A codebox returns several values as a plain list: `return [a, b];` becomes
`return a, b;`. Only returns whose argument is an array are changed, and returns
of nested functions are not.
-/

namespace Codebox

/-- What a return statement returns. -/
def returnArgument? (node : Node) : Option Node :=
  node.parts.head?

/-- The comma of the first hole among an array's children, after a child of kind
`previous`: a comma right after the opening bracket or another comma. -/
def firstHole? (previous : Kind) : List Node → Option Node
  | [] => none
  | child :: rest =>
    if child.kind = .comment then firstHole? previous rest
    else if child.kind = .comma ∧ (previous = .openBracket ∨ previous = .comma) then some child
    else firstHole? child.kind rest

/-- The elements of an array, or nothing for any other node. An array with a
hole is refused. -/
def arrayElements (node : Node) : Except Fault (Option (List Node)) :=
  if node.kind = .array then
    match firstHole? .openBracket node.children with
    | some comma => .error (.unsupported .arrayHole comma.location)
    | none => .ok (some node.parts)
  else .ok none

/-- The elements that a return statement returns, if it returns an array. -/
def returnedElements (node : Node) : Except Fault (Option (List Node)) :=
  match returnArgument? node with
  | some argument => arrayElements argument
  | none => .ok none

/-- Whether a text ends with a semicolon. -/
def endsWithSemicolon (text : String) : Bool :=
  text.toList.getLast? = some ';'

/-- The expansion of a return statement, if it returns an array. -/
def returnEdit (source : Bytes) (node : Node) : Except Fault (Option Edit) := do
  match ← returnedElements node with
  | none => return none
  | some elements =>
    let texts ← elements.mapM (·.text source)
    let closing := if endsWithSemicolon (← node.text source) then ";" else ""
    return some ⟨node.span, "return " ++ Text.joined ", " texts ++ closing⟩

/-- The return statements of a scope. -/
def returnsOf (scope : Node) : List Node :=
  scope.walk.filter (·.kind = .returnStatement)

/-- The expansions of all returned arrays of a scope, at any depth of blocks. -/
def returnEdits (source : Bytes) (scope : Node) : Except Fault (List Edit) := do
  return (← (returnsOf scope).mapM (returnEdit source)).filterMap id

/-- A function body, given as text, with its returned arrays expanded. A text
that is no script is left as it is. -/
def expandReturns (body : String) : Journaled String :=
  match Document.parse body with
  | .error fault => do
    Run.write (.unparsed fault)
    return body
  | .ok document => Run.lift do
    document.source.splice (← returnEdits document.source document.root)

end Codebox
