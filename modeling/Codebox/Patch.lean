import Codebox.Declaration

/-! # Patches

Patch mode turns the main function into the body of a patch: a parameter with a
default becomes a `Param`, any other one an input, the statements become
assignments, and what is returned goes to the outputs.
-/

namespace Codebox

/-- The lines of a patch body. -/
structure Patch where
  header : List String := []
  body : List String := []
  outputs : List String := []
  deriving DecidableEq, Repr

/-- Lines as one text. -/
def linesText (lines : List String) : String :=
  Text.joined "\n" lines

/-- The text of a patch: the header, and the rest after a blank line. A block
without lines is left out. -/
def Patch.text (patch : Patch) : String :=
  Text.joined "\n\n"
    (([patch.header, patch.body ++ patch.outputs].filter (!·.isEmpty)).map linesText)

/-- The lines that number texts from one on. -/
def numbered (line : Nat → String → String) (texts : List String) : List String :=
  texts.mapIdx fun index text => line (index + 1) text

/-- The declaration lines of parameters with a default. -/
def paramLines (parameters : List Parameter) : List String :=
  parameters.filterMap fun parameter =>
    parameter.initial.map fun initial => "Param " ++ parameter.name ++ "(" ++ initial ++ ");"

/-- The input lines of parameters without a default. -/
def inputLines (parameters : List Parameter) : List String :=
  numbered (fun index name => name ++ " = in" ++ toString index ++ ";")
    ((parameters.filter (·.initial.isNone)).map (·.name))

/-- The header lines for parameters. -/
def headerLines (parameters : List Parameter) : List String :=
  paramLines parameters ++ inputLines parameters

/-- The output lines for values. -/
def valueLines (values : List String) : List String :=
  numbered (fun index value => "out" ++ toString index ++ " = " ++ value ++ ";") values

/-- The first line of a node's text. -/
def Node.firstLine (source : Bytes) (node : Node) : Except Fault String := do
  return String.ofList (Text.firstLine (← node.text source).toList)

/-- A text closed by a semicolon. -/
def closed (text : String) : String :=
  if endsWithSemicolon text then text else text ++ ";"

/-- The line of one declarator; without an initial value it is zero. Every declarator
of a script has a name or a pattern that it binds. -/
def declaratorLine (source : Bytes) (declarator : Node) : Except Fault String :=
  match declarator.child? .name with
  | some name => do
    if name.kind = .identifier then
      let value ←
        match declarator.child? .value with
        | some value => value.text source
        | none => pure "0"
      return (← name.text source) ++ " = " ++ value ++ ";"
    else
      throw (.unsupported (.destructuringDeclaration (← declarator.firstLine source))
        declarator.location)
  | none => do
    throw (.unsupported (.destructuringDeclaration (← declarator.firstLine source))
      declarator.location)

/-- A patch in the making. -/
structure Synthesizer where
  source : Bytes
  function : FunctionNode
  options : Options := {}
  patch : Patch := {}

namespace Synthesizer

/-- The header lines for the function's parameters. -/
def header (synthesizer : Synthesizer) : Except Fault (List String) := do
  return headerLines (← synthesizer.function.readParameters synthesizer.source synthesizer.options)

/-- The output lines for a return statement. -/
def outputs (synthesizer : Synthesizer) (node : Node) : Except Fault (List String) :=
  match returnArgument? node with
  | none => .ok []
  | some argument => do
    match ← arrayElements argument with
    | some elements => return valueLines (← elements.mapM (·.text synthesizer.source))
    | none => return ["out1 = " ++ (← argument.text synthesizer.source) ++ ";"]

/-- The declarators of a declaration. -/
def declarators (statement : Node) : List Node :=
  statement.namedChildren.filter (·.kind = .variableDeclarator)

/-- Writes the lines of a declaration. -/
def emitDeclaration (synthesizer : Synthesizer) (statement : Node) : Run String Unit :=
  (declarators statement).forM fun declarator => do
    Run.write (← Run.lift (declaratorLine synthesizer.source declarator))

/-- The text of a statement without keywords. A statement that holds a return of
the main function is refused. -/
def statementText (synthesizer : Synthesizer) (statement : Node) : Except Fault String :=
  match returnsOf statement with
  | node :: _ => do
    throw (.unsupported
      (.nestedReturn synthesizer.options.mainName (← node.firstLine synthesizer.source))
      node.location)
  | [] =>
    synthesizer.source.spliceIn (keywordEdits synthesizer.source statement) statement.span

/-- Writes the lines of a statement. -/
def emit (synthesizer : Synthesizer) (statement : Node) : Run String Unit :=
  match statement.kind with
  | .lexicalDeclaration | .variableDeclaration => synthesizer.emitDeclaration statement
  | .expressionStatement => do
    Run.write (closed (← Run.lift (statement.text synthesizer.source)))
  | .comment => do Run.write (← Run.lift (statement.text synthesizer.source))
  | .emptyStatement => return ()
  | _ => do Run.write (← Run.lift (synthesizer.statementText statement))

/-- The statements of the function, comments included. -/
def statements (synthesizer : Synthesizer) : List Node :=
  synthesizer.function.body.namedChildren

/-- How far the statements of a function have been gone over. -/
structure Progress where
  /-- The first return, once it is met. -/
  returned : Option Node := none
  /-- How many statements have been dropped since. -/
  dropped : Nat := 0

/-- Goes over one statement. Its lines are written, unless a return has been met or it is
one. After a return it is dropped, and counts unless it is a comment. -/
def visit (synthesizer : Synthesizer) (progress : Progress) (statement : Node) :
    Run String Progress :=
  match progress.returned with
  | some _ =>
    if statement.kind = .comment then return progress
    else return { progress with dropped := progress.dropped + 1 }
  | none =>
    if statement.kind = .returnStatement then return { progress with returned := some statement }
    else do
      synthesizer.emit statement
      return progress

/-- Goes over all statements in order. -/
def visitAll (synthesizer : Synthesizer) : Run String Progress :=
  synthesizer.statements.foldlM synthesizer.visit {}

/-- Notes how many statements were dropped, if any were. -/
def noteDropped (synthesizer : Synthesizer) : Nat → Journaled Unit
  | 0 => return ()
  | count => Run.write (.unreachable count synthesizer.options.mainName)

/-- The output lines for the return that was met, if one was. -/
def returnLines (synthesizer : Synthesizer) : Option Node → Except Fault (List String)
  | some node => synthesizer.outputs node
  | none => .ok []

/-- Makes the whole patch. The lines made before a fault stay, except that a
fault in the header leaves all lines as they were. -/
def synthesize (synthesizer : Synthesizer) : Synthesizer × Journaled String :=
  match synthesizer.header with
  | .error fault => (synthesizer, Run.lift (.error fault))
  | .ok header =>
    let visited := synthesizer.visitAll
    let started : Patch := { header := header, body := visited.written }
    match visited.outcome with
    | .error fault => ({ synthesizer with patch := started }, Run.lift (.error fault))
    | .ok progress =>
      match synthesizer.returnLines progress.returned with
      | .error fault =>
        ({ synthesizer with patch := started }, do
          synthesizer.noteDropped progress.dropped
          Run.lift (.error fault))
      | .ok outputs =>
        let patch := { started with outputs := outputs }
        ({ synthesizer with patch := patch }, do
          synthesizer.noteDropped progress.dropped
          return patch.text)

/-- What a synthesizer can be asked to do. -/
inductive Step where
  /-- Make the whole patch. -/
  | synthesize
  /-- Give the header lines. -/
  | header
  /-- Give the output lines of a return statement. -/
  | outputs (node : Node)
  /-- Add the lines of a statement to the body. -/
  | emit (statement : Node)
  /-- Take other options. -/
  | configure (options : Options)

/-- What a synthesizer answers. -/
inductive Answer where
  | text (text : String)
  | lines (lines : List String)
  | done

/-- Does one step. -/
def perform (synthesizer : Synthesizer) : Step → Synthesizer × Journaled Answer
  | .synthesize =>
    let (next, run) := synthesizer.synthesize
    (next, .text <$> run)
  | .header => (synthesizer, Run.lift (.lines <$> synthesizer.header))
  | .outputs node => (synthesizer, Run.lift (.lines <$> synthesizer.outputs node))
  | .emit statement =>
    let emitted := synthesizer.emit statement
    let patch :=
      { synthesizer.patch with body := synthesizer.patch.body ++ emitted.written }
    ({ synthesizer with patch := patch }, Run.lift ((fun _ => .done) <$> emitted.outcome))
  | .configure options => ({ synthesizer with options := options }, return .done)

end Synthesizer

/-- Notes every declaration of the main function after the first. -/
def noteDuplicates (mains : List (FunctionNode × Declaration)) : Journaled Unit :=
  mains.tail.forM fun (_, declaration) => Run.write (.duplicate declaration.name)

/-- The patch of the first main function, unless it is empty. -/
def patchSection (source : Bytes) (options : Options)
    (mains : List (FunctionNode × Declaration)) : Journaled (List String) :=
  match mains with
  | [] => return []
  | (function, _) :: _ => do
    let text ← (Synthesizer.synthesize { source, function, options }).2
    return if text = "" then [] else [text]

/-- The document in patch mode: the declarations of all functions but the main
one, and the patch. -/
def Document.convertToPatch (document : Document) (options : Options) : Journaled String := do
  let functions ← document.collect options
  let mains := functions.filter (·.2.isMain)
  let others := functions.filter (!·.2.isMain)
  noteDuplicates mains
  let patch ← patchSection document.source options mains
  return Text.joined "\n\n" (others.map (·.2.text) ++ patch)

/-- Converts a script in patch mode. -/
def convertToPatch (source : String) (options : Options) : Journaled String := do
  let document ← Run.lift (Document.parse source)
  document.convertToPatch (options.resolve source)

end Codebox
