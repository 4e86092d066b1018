import Codebox.Options
import Codebox.Span
import Codebox.Syntax.Node

/-! # Functions of a script and their parameters -/

namespace Codebox

/-- A function declaration with its parts. -/
structure FunctionNode where
  node : Node
  name : Node
  parameters : Node
  body : Node

namespace FunctionNode

/-- A node as a function declaration, if it is one. -/
def of? (node : Node) : Option FunctionNode :=
  if node.kind = .functionDeclaration then
    match node.child? .name, node.child? .parameters, node.child? .body with
    | some name, some parameters, some body => some ⟨node, name, parameters, body⟩
    | _, _, _ => none
  else none

/-- The functions that a program declares at its top level. -/
def topLevel (root : Node) : List FunctionNode :=
  root.namedChildren.filterMap of?

/-- The function that a statement exports, if it exports one. -/
def exported? (statement : Node) : Option FunctionNode :=
  if statement.kind = .exportStatement then (statement.child? .declaration).bind of? else none

/-- The functions that a program exports at its top level. -/
def exported (root : Node) : List FunctionNode :=
  root.namedChildren.filterMap exported?

/-- The text of a function's name. -/
def nameText (source : Bytes) (function : FunctionNode) : Except Fault String :=
  function.name.text source

/-- What lies strictly between the braces of a function's body. -/
def inside (function : FunctionNode) : Span :=
  ⟨function.body.span.start + 1, function.body.span.stop - 1⟩

end FunctionNode

/-- A parameter, with the text of its default value if it has one. -/
structure Parameter where
  name : String
  initial : Option String
  deriving DecidableEq, Repr

/-- The kinds of literals. -/
def Kind.isLiteral : Kind → Bool
  | .falseLiteral | .trueLiteral | .nullLiteral | .undefinedLiteral | .numberLiteral
  | .stringLiteral => true
  | _ => false

/-- Whether a node is a literal: a literal token, a template that substitutes
nothing, or a number with a sign. -/
def Node.isLiteral (node : Node) : Bool :=
  node.kind.isLiteral ||
    match node.kind with
    | .templateString => node.namedChildren.all (·.kind ≠ .templateSubstitution)
    | .unaryExpression =>
      match node.child? .operator, node.child? .argument with
      | some operator, some argument =>
        (operator.kind = .minus || operator.kind = .plus) && argument.kind = .numberLiteral
      | _, _ => false
    | _ => false

/-- Refuses a parameter that is no plain name. -/
def refuseDestructuring {α : Type} (source : Bytes) (node : Node) : Except Fault α := do
  throw (.unsupported (.destructuringParameter (← node.text source)) node.location)

/-- Reads one parameter. A default of a script always has its two sides. -/
def readParameter (source : Bytes) (options : Options) (node : Node) : Except Fault Parameter :=
  match node.kind with
  | .identifier => return ⟨← node.text source, none⟩
  | .assignmentPattern =>
    match node.child? .left, node.child? .right with
    | some left, some right => do
      if left.kind = .identifier then
        let name ← left.text source
        let initial ← right.text source
        if options.strictDefaults && !right.isLiteral then
          throw (.unsupported (.computedDefault name initial) right.location)
        else return ⟨name, some initial⟩
      else refuseDestructuring source node
    | _, _ => refuseDestructuring source node
  | .restPattern => do
    throw (.unsupported (.restParameter (← node.text source)) node.location)
  | _ => refuseDestructuring source node

/-- Whether a parameter has a default value and that value is a literal. -/
def Node.hasLiteralDefault (parameter : Node) : Bool :=
  parameter.kind = .assignmentPattern && (parameter.child? .right).any (·.isLiteral)

/-- Reads the parameters of a function in order. -/
def FunctionNode.readParameters (source : Bytes) (options : Options) (function : FunctionNode) :
    Except Fault (List Parameter) :=
  function.parameters.parts.mapM (readParameter source options)

end Codebox
