/-! # Faults

Why an operation stops, as causes with places. The wording of every cause
stands here and nowhere else.
-/

namespace Codebox

/-- A place in a source text. Lines and columns count from one, and columns
count bytes since the last line feed. -/
structure Location where
  line : Int
  column : Int
  deriving DecidableEq, Repr

/-- A message with its place written after it. -/
def Location.mark (location : Location) (message : String) : String :=
  message ++ " at line " ++ toString location.line ++ " col " ++ toString location.column

/-- Why a text is not a script. -/
inductive SyntaxFault where
  /-- A token that has to stand here does not. -/
  | missing (token : String)
  /-- This text cannot stand here. -/
  | unexpected (text : String)
  /-- The text stops too early. -/
  | endOfInput
  /-- Nothing more is known. -/
  | unknown
  deriving DecidableEq, Repr

/-- The wording of a syntax fault. -/
def SyntaxFault.message : SyntaxFault → String
  | .missing token => "missing '" ++ token ++ "'"
  | .unexpected text => "unexpected '" ++ text ++ "'"
  | .endOfInput => "unexpected end of input"
  | .unknown => "syntax error"

/-- What a script may say and a codebox cannot. -/
inductive Unsupported where
  /-- A parameter that takes all remaining arguments. -/
  | restParameter (text : String)
  /-- A parameter that is no plain name. -/
  | destructuringParameter (text : String)
  /-- A default value that is no literal, where literals are required. -/
  | computedDefault (name value : String)
  /-- A returned array that leaves out an element. -/
  | arrayHole
  /-- A declaration that binds no plain name. -/
  | destructuringDeclaration (line : String)
  /-- A return of the main function below its top level. -/
  | nestedReturn (main line : String)
  deriving DecidableEq, Repr

/-- The wording of an unsupported construct. -/
def Unsupported.message : Unsupported → String
  | .restParameter text => "rest parameter '" ++ text ++ "' is not supported"
  | .destructuringParameter text => "destructuring parameter '" ++ text ++ "' is not supported"
  | .computedDefault name value => "default for '" ++ name ++ "' is not a literal: " ++ value
  | .arrayHole => "array with holes is not supported"
  | .destructuringDeclaration line => "destructuring declaration is not supported: " ++ line
  | .nestedReturn main line =>
    "return nested inside '" ++ main ++ "' is not supported: " ++ line

/-- Why an operation stops. -/
inductive Fault where
  /-- The text is not a script. -/
  | malformed (cause : SyntaxFault) (location : Location)
  /-- The script says what a codebox cannot. -/
  | unsupported (cause : Unsupported) (location : Location)
  /-- An edit reaches into the edit after it, or beyond the window. -/
  | overlapping
  /-- An edit starts before the window, or ends before it starts. -/
  | outside
  /-- The bytes are no text. -/
  | undecodable
  deriving DecidableEq, Repr

/-- The message of a fault, without its place. -/
def Fault.message : Fault → String
  | .malformed cause _ => cause.message
  | .unsupported cause _ => cause.message
  | .overlapping => "overlapping replacements"
  | .outside => "replacement outside span"
  | .undecodable => "invalid UTF-8"

/-- The place of a fault, for the faults that have one. -/
def Fault.location? : Fault → Option Location
  | .malformed _ location => some location
  | .unsupported _ location => some location
  | _ => none

/-- The message of a fault with its place, if it has one. -/
def Fault.text (fault : Fault) : String :=
  match fault.location? with
  | some location => location.mark fault.message
  | none => fault.message

end Codebox
