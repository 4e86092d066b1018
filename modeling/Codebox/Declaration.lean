import Codebox.Function
import Codebox.Keyword
import Codebox.Pragma
import Codebox.Return

/-! # Functions of a codebox

A codebox declares a function without a keyword: `f(a, b=2) {...}`. Direct mode
replaces every top-level function of a script by such a declaration and keeps
all other text.
-/

namespace Codebox

/-- A function ready to be written. -/
structure Declaration where
  name : String
  parameters : List String
  /-- Default values by parameter name. -/
  defaults : Table
  body : String
  isMain : Bool := false

namespace Declaration

/-- A parameter with the default value that counts for its name. -/
def parameterText (declaration : Declaration) (name : String) : String :=
  match declaration.defaults.get? name with
  | some initial => name ++ "=" ++ initial
  | none => name

/-- The name with the parameters in parentheses. -/
def signature (declaration : Declaration) : String :=
  declaration.name ++ "(" ++
    Text.joined ", " (declaration.parameters.map declaration.parameterText) ++ ")"

/-- The whole declaration. -/
def text (declaration : Declaration) : String :=
  declaration.signature ++ " \x7b" ++ declaration.body ++ "\x7d"

end Declaration

/-- The default values of parameters, by name. -/
def defaultsOf (parameters : List Parameter) : Table :=
  parameters.filterMap fun parameter =>
    parameter.initial.map fun initial => (parameter.name, initial)

namespace FunctionNode

/-- The text between the braces of a function, without keywords and with
returned arrays expanded. -/
def renderBody (source : Bytes) (function : FunctionNode) : Journaled String := do
  let keywords := keywordEdits source function.body
  let returns ← Run.lift (returnEdits source function.body)
  let name ← Run.lift (function.nameText source)
  Run.write (.rendered name keywords.length returns.length)
  Run.lift (source.spliceIn (keywords ++ returns) function.inside)

/-- A function of a script as one of a codebox. -/
def declaration (source : Bytes) (options : Options) (function : FunctionNode) :
    Journaled Declaration := do
  let parameters ← Run.lift (function.readParameters source options)
  let name ← Run.lift (function.nameText source)
  let body ← function.renderBody source
  return {
    name := name
    parameters := parameters.map (·.name)
    defaults := defaultsOf parameters
    body := body
    isMain := name = options.mainName }

/-- The text of a function in a codebox. -/
def render (source : Bytes) (options : Options) (function : FunctionNode) :
    Journaled String := do
  return (← function.declaration source options).text

end FunctionNode

namespace Document

/-- Notes every exported function, which is left as it is. -/
def noteExports (document : Document) : Journaled Unit :=
  (FunctionNode.exported document.root).forM fun function => do
    Run.write (.exported (← Run.lift (function.nameText document.source)))

/-- The top-level functions of a document, each with its declaration. -/
def collect (document : Document) (options : Options) :
    Journaled (List (FunctionNode × Declaration)) := do
  document.noteExports
  let functions ← (FunctionNode.topLevel document.root).mapM fun function => do
    return (function, ← function.declaration document.source options)
  Run.write (.collected functions.length)
  return functions

/-- The document in direct mode. -/
def convert (document : Document) (options : Options) : Journaled String := do
  let functions ← document.collect options
  Run.lift (document.source.splice
    (functions.map fun (function, declaration) => ⟨function.node.span, declaration.text⟩))

end Document

/-- Converts a script in direct mode. -/
def convert (source : String) (options : Options) : Journaled String := do
  let document ← Run.lift (Document.parse source)
  document.convert (options.resolve source)

end Codebox
