import Codebox.Script.Character

/-! # Where a statement ends without a semicolon

At a place where a statement may end, the text ahead decides whether it does.
The statement ends before a closing brace, at the end of the text, and at a line
break unless the next line starts with something that carries on. Comments on
the way are looked through.
-/

namespace Codebox.Script

/-- Where the look through white space and comments stands. -/
inductive Skim where
  /-- Between comments. -/
  | between
  /-- In a line comment. -/
  | line
  /-- In a block comment. -/
  | block

/-- How the look through white space and comments ended. -/
inductive Skimmed where
  /-- Before something else. -/
  | clear
  /-- Right after a block comment within one line. -/
  | sameLine
  /-- At a slash that opens no comment. -/
  | slash
  deriving DecidableEq

/-- Looks through white space and comments. Unless `through` holds, it stops
right after a block comment that no slash follows. `broken` tells whether a
block comment held a line break. -/
def skim (through : Bool) : Skim → Bool → List Char → Skimmed × List Char
  | .between, broken, '/' :: '/' :: rest => skim through .line broken rest
  | .between, broken, '/' :: '*' :: rest => skim through .block broken rest
  | .block, broken, '*' :: '/' :: rest =>
    if through || rest.head? = some '/' then skim through .between broken rest
    else (if broken then .clear else .sameLine, rest)
  | _, _, [] => (.clear, [])
  | .between, broken, c :: rest =>
    if isBreakingSpace c then skim through .between broken rest
    else if c = '/' then (.slash, rest)
    else (.clear, c :: rest)
  | .line, broken, c :: rest =>
    if isLineBreak c then skim through .between broken rest
    else if c = '\x00' then (.clear, c :: rest)
    else skim through .line broken rest
  | .block, broken, c :: rest =>
    if c = '\x00' then (.clear, c :: rest)
    else skim through .block (broken || isLineBreak c) rest

/-- Whether a text starts with a letter. -/
def startsWithLetter : List Char → Bool
  | c :: _ => isLetter c
  | [] => false

/-- Whether a line that starts with `in` carries on the line before: it does
when the word is `in` or `instanceof`. -/
def carriesOnWithIn (afterIn : List Char) : Bool :=
  if startsWithLetter afterIn then
    "stanceof".toList.isPrefixOf afterIn && !startsWithLetter (afterIn.drop 8)
  else true

/-- Whether the start of a line leaves the line before it ended. -/
def endsBefore : List Char → Bool
  | [] => true
  | '.' :: rest =>
    match rest with
    | c :: _ => isDigit c
    | [] => false
  | '+' :: rest => rest.head? = some '+'
  | '-' :: rest => rest.head? = some '-'
  | '!' :: rest => rest.head? ≠ some '='
  | 'i' :: 'n' :: rest => !carriesOnWithIn rest
  | c :: _ => !"\x60,:;*%><=[(?^|&/".toList.contains c

/-- Whether a statement ends at the line break before this text. -/
def endsAtBreak (text : List Char) : Bool :=
  match skim true .between false text with
  | (.slash, _) => false
  | (_, rest) => endsBefore rest

/-- Whether a statement ends before this text; `operators` tells whether a
binary operator could carry it on. -/
def endsWithin (operators : Bool) : Nat → List Char → Bool
  | 0, _ => false
  | _ + 1, [] => true
  | fuel + 1, c :: rest =>
    if c = '\x00' then true
    else if c = '/' then
      match skim false .between false (c :: rest) with
      | (.slash, _) => false
      | (found, ahead) =>
        if found = .clear && !operators && ahead.head? ≠ some ',' &&
            ahead.head? ≠ some '=' then true
        else
          match ahead with
          | [] => false
          | c :: rest =>
            if c = '\x7d' then true
            else if isLineBreak c then endsAtBreak rest
            else if isBreakingSpace c then endsWithin operators fuel rest
            else false
    else if c = '\x7d' then true
    else if isLineBreak c then endsAtBreak rest
    else if isBreakingSpace c then endsWithin operators fuel rest
    else false

/-- Whether a statement that may end here does end here. The text has at most
`size` characters. -/
def statementEnds (operators : Bool) (size : Nat) (text : List Char) : Bool :=
  endsWithin operators (size + 1) text

end Codebox.Script
