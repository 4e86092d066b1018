import Codebox.Options
import Codebox.Table
import Codebox.Text.Blank

/-! # Pragmas

Comment lines at the top of a script may set options: `// pragma name value`.
Blank lines may stand between them, and the first line of another kind ends
them.
-/

namespace Codebox

open Text

/-- What a line at the top of a script is. -/
inductive TopLine where
  /-- A line of blanks. -/
  | blank
  /-- A comment line, with the text after the slashes, trimmed. -/
  | comment (text : List Char)
  /-- Any other line. -/
  | code

/-- Tells what a line is. -/
def TopLine.ofLine (line : List Char) : TopLine :=
  match trim line with
  | [] => .blank
  | '/' :: '/' :: text => .comment (trim text)
  | _ => .code

/-- What a pragma comment starts with. -/
def pragmaMark : List Char := "pragma ".toList

/-- The entry that a comment makes: the first word after the mark names it and
the other words, joined by single spaces, are its text. -/
def pragmaOf? (text : List Char) : Option (String × String) :=
  if pragmaMark.isPrefixOf text then
    match words (text.drop pragmaMark.length) with
    | [] => none
    | name :: values => some (String.ofList name, joined " " (values.map String.ofList))
  else none

/-- The pragmas of the lines up to the first line of code. -/
def pragmasOfLines : List (List Char) → Table
  | [] => []
  | line :: rest =>
    match TopLine.ofLine line with
    | .blank => pragmasOfLines rest
    | .comment text => (pragmaOf? text).toList ++ pragmasOfLines rest
    | .code => []

/-- The pragmas at the top of a script. -/
def pragmas (source : String) : Table :=
  pragmasOfLines (lines source.toList)

/-- Options with the pragmas of a script applied. The pragma `strict-defaults`
turns strictness on, and `main` names the main function unless the options name
one other than the default. -/
def Options.resolve (options : Options) (source : String) : Options :=
  let table := pragmas source
  let strict := options.strictDefaults || (table.get? "strict-defaults").isSome
  let main := (table.get? "main").getD ""
  { strictDefaults := strict
    mainName := if main ≠ "" ∧ options.mainName = defaultMain then main else options.mainName }

end Codebox
