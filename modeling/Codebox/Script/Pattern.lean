import Codebox.Script.Grammar

/-! # Patterns

A bracketed list reads as an expression until what follows it shows that it is a
pattern: the target of an assignment or the parameters of a function. It is then
recast. Some lists can only be patterns from the start, because they hold a
shorthand property with a default.
-/

namespace Codebox.Script

/-- Where a pattern stands. -/
inductive Place where
  /-- As a whole target. -/
  | target
  /-- As an item of an array pattern or of a parameter list. -/
  | item
  /-- As a member of an object pattern. -/
  | member
  /-- As the value of a member of an object pattern. -/
  | value
  deriving DecidableEq

/-- The nodes that are no constructs of their own in a list: tokens and
comments. -/
def isSeparator (node : Node) : Bool :=
  !node.head.named || node.kind.isTrivia

/-- A rest pattern with a default, from the parts of a spread of an
assignment. -/
def restWithDefault? (dots : Pieces) (assignment : Node) : Option Node :=
  match assignment.children with
  | left :: others =>
    if left.kind = .parenthesizedExpression then none
    else
      (wrap .assignmentPattern
        ((wrap .restPattern (dots ++ [left]) |> inRole .left) ++ others)).getLast?
  | [] => none

mutual

/-- A node as a pattern, if it can be one. -/
def pattern? (place : Place) : Node → Option Node
  | .mk head children =>
    if isSeparator (.mk head children) then some (.mk head children)
    else
      match head.kind with
      | .identifier | .undefinedLiteral | .memberExpression | .subscriptExpression
      | .arrayPattern | .objectPattern =>
        if place = .member then none else some (.mk head children)
      | .array =>
        if place = .member then none
        else (patterns? .item children).map (Node.mk { head with kind := .arrayPattern })
      | .object =>
        if place = .member then none
        else (patterns? .member children).map (Node.mk { head with kind := .objectPattern })
      | .assignmentExpression =>
        if (place = .item || place = .value) &&
            children.head?.any (·.kind ≠ .parenthesizedExpression) then
          some (.mk { head with kind := .assignmentPattern } children)
        else none
      | .spreadElement =>
        if place = .item || place = .member then
          match children.getLast? with
          | some last =>
            if last.kind = .assignmentExpression then restWithDefault? children.dropLast last
            else (patterns? .target children).map (Node.mk { head with kind := .restPattern })
          | none => none
        else none
      | .pair =>
        if place = .member then
          (patterns? .value children).map (Node.mk { head with kind := .pairPattern })
        else none
      | .shorthandPropertyIdentifier =>
        if place = .member then
          some (.mk { head with kind := .shorthandPropertyIdentifierPattern } children)
        else none
      | .objectAssignmentPattern =>
        if place = .member then some (.mk head children) else none
      | _ => none

/-- Nodes as patterns, if all can be. Of the parts of a member only the value
has to be one. -/
def patterns? (place : Place) : List Node → Option (List Node)
  | [] => some []
  | node :: rest =>
    if place = .value && node.head.role ≠ some .value then
      (patterns? place rest).map (node :: ·)
    else
      match pattern? place node with
      | some pattern => (patterns? place rest).map (pattern :: ·)
      | none => none

end

/-- Whether a node is a pattern and cannot be an expression. -/
def isBarePattern (node : Node) : Bool :=
  match node.kind with
  | .arrayPattern | .objectPattern => true
  | _ => false

/-- Whether an item makes the list around it a pattern. -/
def makesPattern (node : Node) : Bool :=
  isBarePattern node ||
    match node.kind with
    | .objectAssignmentPattern => true
    | .spreadElement | .pair => node.children.getLast?.any isBarePattern
    | _ => false

/-- Pieces that have to be an expression. -/
def valued (parser : Parser Pieces) : Parser Pieces := do
  let place ← ahead
  let pieces ← parser
  if pieces.getLast?.any isBarePattern then refuse place.next else return pieces

/-- The last piece as an assignment target, if it can be one. -/
def target? (pieces : Pieces) : Option Pieces :=
  match pieces.getLast? with
  | some node =>
    if node.kind = .parenthesizedExpression then some pieces
    else (pattern? .target node).map fun pattern => pieces.dropLast ++ [pattern]
  | none => none

/-- Whether the last piece can be the target of an operator that assigns. -/
def isSimpleTarget (pieces : Pieces) : Bool :=
  match kindOf pieces with
  | some .identifier | some .memberExpression | some .subscriptExpression
  | some .parenthesizedExpression => true
  | _ => false

/-- Whether commas stand only between constructs, the last one also after them
if `trailing` holds. `fresh` tells whether a construct has to come first. -/
def wellSeparated (trailing : Bool) : Bool → Pieces → Bool
  | fresh, [] => trailing || !fresh
  | fresh, node :: rest =>
    if node.kind = .comma then !fresh && wellSeparated trailing true rest
    else if isSeparator node then wellSeparated trailing fresh rest
    else wellSeparated trailing false rest

/-- Whether items in parentheses can be parameters. -/
def areParameters (items : Pieces) : Bool :=
  wellSeparated true true items

/-- Whether items in parentheses can be an expression. -/
def areExpressions (items : Pieces) : Bool :=
  wellSeparated false true items &&
    items.all fun node => !isBarePattern node && node.kind ≠ .spreadElement

end Codebox.Script
