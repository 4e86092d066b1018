import Codebox.Run

/-! # The journal of a conversion -/

namespace Codebox

/-- How much an entry matters. -/
inductive Level where
  | debug
  | warning
  deriving DecidableEq, Repr

/-- What a conversion notes as it goes. -/
inductive Entry where
  /-- An exported function was left as it is. -/
  | exported (name : String)
  /-- A function body was rendered with so many edits of either kind. -/
  | rendered (name : String) (keywords returns : Nat)
  /-- All top-level functions were rendered. -/
  | collected (count : Nat)
  /-- A later declaration of the main function was ignored. -/
  | duplicate (name : String)
  /-- Statements after the return of the main function were dropped. -/
  | unreachable (count : Nat) (main : String)
  /-- A body given as text is no script. -/
  | unparsed (fault : Fault)

/-- The level of an entry. -/
def Entry.level : Entry → Level
  | .rendered .. => .debug
  | .collected _ => .debug
  | _ => .warning

/-- The line that an entry makes; `word` words the fault of an entry about
one. -/
def Entry.text (word : Fault → String) : Entry → String
  | .exported name => "exported function '" ++ name ++ "' is not converted; remove 'export'"
  | .rendered name keywords returns =>
    name ++ ": " ++ toString keywords ++ " declaration keyword(s), " ++ toString returns ++
      " array return(s)"
  | .collected count => "collected " ++ toString count ++ " function declarations"
  | .duplicate name => "ignoring duplicate declaration of '" ++ name ++ "'"
  | .unreachable count main =>
    toString count ++ " statement(s) after the return in '" ++ main ++
      "' are unreachable and dropped"
  | .unparsed fault => "cannot parse function body, returns left unexpanded: " ++ word fault

/-- A run that notes what it does. -/
abbrev Journaled (α : Type) := Run Entry α

end Codebox
