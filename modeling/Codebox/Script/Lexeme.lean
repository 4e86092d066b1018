import Codebox.Script.Character

/-! # Lexemes

How many characters at the front of a text belong to one lexeme. A length of
zero, or none, says that no lexeme of the kind stands there.
-/

namespace Codebox.Script

/-! ## Comments -/

/-- The length of a block comment after its opening. -/
def blockCommentRest? : List Char → Option Nat
  | [] => none
  | '*' :: '/' :: _ => some 2
  | _ :: rest => (blockCommentRest? rest).map (· + 1)

/-- The length of a comment. An unclosed block comment is none. -/
def commentLength? : List Char → Option Nat
  | '/' :: '/' :: rest => some (2 + (rest.takeWhile (!endsLineComment ·)).length)
  | '/' :: '*' :: rest => (blockCommentRest? rest).map (· + 2)
  | _ => none

/-- Whether a text starts with one of the marks of an embedded-page comment. -/
def opensHtmlComment : List Char → Bool
  | '<' :: '!' :: '-' :: '-' :: _ => true
  | '-' :: '-' :: '>' :: _ => true
  | _ => false

/-- The length of an embedded-page comment, which runs to the end of the line. -/
def htmlCommentLength? (text : List Char) : Option Nat :=
  if opensHtmlComment text then some (text.takeWhile (!isLineBreak ·)).length else none

/-! ## Names -/

/-- The length of a run of hexadecimal digits closed by a brace. -/
def bracedHex? (text : List Char) : Option Nat :=
  let digits := (text.takeWhile isHexDigit).length
  match digits, text.drop digits with
  | _ + 1, '\x7d' :: _ => some (digits + 1)
  | _, _ => none

/-- The length of an escaped character of a name. -/
def nameEscape? : List Char → Option Nat
  | '\\' :: 'u' :: '\x7b' :: rest => (bracedHex? rest).map (· + 3)
  | '\\' :: 'u' :: a :: b :: c :: d :: _ =>
    if isHexDigit a && isHexDigit b && isHexDigit c && isHexDigit d then some 6 else none
  | _ => none

/-- The length of what continues a name; `fuel` bounds the number of
characters. -/
def nameRest : Nat → List Char → Nat
  | 0, _ => 0
  | _ + 1, [] => 0
  | fuel + 1, c :: rest =>
    if isNamePart c then 1 + nameRest fuel rest
    else
      match nameEscape? (c :: rest) with
      | some width => width + nameRest fuel ((c :: rest).drop width)
      | none => 0

/-- The length of a name. -/
def nameLength : List Char → Nat
  | [] => 0
  | c :: rest =>
    if isDigit c then 0 else nameRest (rest.length + 1) (c :: rest)

/-- The name at the front of a text. -/
def name? (text : List Char) : Option String :=
  match nameLength text with
  | 0 => none
  | length => some (String.ofList (text.take length))

/-! ## Numbers -/

/-- The length of digits that follow a digit, single underscores between
them. -/
def digitsRest (isDigit : Char → Bool) : List Char → Nat
  | [] => 0
  | [c] => if isDigit c then 1 else 0
  | c :: d :: rest =>
    if isDigit c then 1 + digitsRest isDigit (d :: rest)
    else if c = '_' && isDigit d then 2 + digitsRest isDigit rest
    else 0

/-- The length of a run of digits, single underscores between them. -/
def digitsLength (isDigit : Char → Bool) : List Char → Nat
  | [] => 0
  | c :: rest => if isDigit c then 1 + digitsRest isDigit rest else 0

/-- The length of an exponent, or zero. -/
def exponentLength : List Char → Nat
  | [] => 0
  | e :: rest =>
    if e = 'e' || e = 'E' then
      let sign :=
        match rest with
        | '+' :: _ => 1
        | '-' :: _ => 1
        | _ => 0
      match digitsLength isDigit (rest.drop sign) with
      | 0 => 0
      | digits => 1 + sign + digits
    else 0

/-- The length of the whole part of a number with a point or an exponent: one
zero, or digits of which only the first may be zero. -/
def wholeLength : List Char → Nat
  | '0' :: d :: rest =>
    if isDigit d && d ≠ '0' then 1 + digitsLength isDigit (d :: rest) else 1
  | text => digitsLength isDigit text

/-- The length of a number with a point. -/
def pointLength (text : List Char) : Nat :=
  let whole := wholeLength text
  match text.drop whole with
  | '.' :: rest =>
    let digits := digitsLength isDigit rest
    if whole = 0 && digits = 0 then 0
    else whole + 1 + digits + exponentLength (rest.drop digits)
  | _ => 0

/-- The length of a number with an exponent and no point. -/
def scientificLength (text : List Char) : Nat :=
  let whole := wholeLength text
  match whole, exponentLength (text.drop whole) with
  | 0, _ => 0
  | _, 0 => 0
  | _, exponent => whole + exponent

/-- The length of a number in another base. -/
def basedLength : List Char → Nat
  | '0' :: mark :: rest =>
    let digits :=
      if mark = 'x' || mark = 'X' then digitsLength isHexDigit rest
      else if mark = 'o' || mark = 'O' then digitsLength isOctalDigit rest
      else if mark = 'b' || mark = 'B' then digitsLength isBinaryDigit rest
      else 0
    if digits = 0 then 0 else 2 + digits
  | _ => 0

/-- The length of a number with the mark of big integers after it. -/
def bigLength (text : List Char) : Nat :=
  let digits := max (basedLength text) (digitsLength isDigit text)
  match digits, text.drop digits with
  | _ + 1, 'n' :: _ => digits + 1
  | _, _ => 0

/-- The length of a number: the longest that any of its forms gives. -/
def numberLength (text : List Char) : Nat :=
  max (max (digitsLength isDigit text) (pointLength text))
    (max (scientificLength text) (max (basedLength text) (bigLength text)))

/-! ## Strings -/

/-- The length of an escape sequence in a string. A return or a question mark
takes a line break after it along. -/
def escapeLength? : List Char → Option Nat
  | '\\' :: 'x' :: a :: b :: _ => if isHexDigit a && isHexDigit b then some 4 else none
  | '\\' :: 'u' :: rest => nameEscape? ('\\' :: 'u' :: rest)
  | '\\' :: c :: rest =>
    if c = 'x' then none
    else if (c = '\r' || c = '?') && (rest.head?.any isLineBreak) then some 3
    else if isOctalDigit c then some (2 + ((rest.takeWhile isOctalDigit).take 2).length)
    else some 2
  | _ => none

/-- The length of a string after its opening quote. -/
def stringRest? (quote : Char) : Nat → List Char → Option Nat
  | 0, _ => none
  | _ + 1, [] => none
  | fuel + 1, c :: rest =>
    if c = quote then some 1
    else if c = '\n' || c = '\r' then none
    else if c = '\\' then
      match escapeLength? (c :: rest) with
      | some width => (stringRest? quote fuel ((c :: rest).drop width)).map (· + width)
      | none => none
    else (stringRest? quote fuel rest).map (· + 1)

/-- The length of a string. -/
def stringLength? : List Char → Option Nat
  | [] => none
  | quote :: rest =>
    if quote = '\x22' || quote = '\x27' then
      (stringRest? quote (rest.length + 1) rest).map (· + 1)
    else none

/-- The length of plain text in a template: up to its end, an escape or a
substitution. -/
def templateTextLength : List Char → Nat
  | [] => 0
  | '$' :: '\x7b' :: _ => 0
  | c :: rest => if c = '\x60' || c = '\\' then 0 else 1 + templateTextLength rest

/-! ## Regular expressions -/

/-- The length of a regular expression after its opening slash, without flags;
`inClass` tells whether a character class is open. -/
def regexRest? : Bool → List Char → Option Nat
  | _, [] => none
  | _, ['\\'] => none
  | inClass, '\\' :: c :: rest =>
    if c = '\n' then none else (regexRest? inClass rest).map (· + 2)
  | inClass, c :: rest =>
    if c = '\n' then none
    else if inClass then (regexRest? (c ≠ ']') rest).map (· + 1)
    else if c = '/' then some 1
    else (regexRest? (c = '[') rest).map (· + 1)

/-- The length of a regular expression with its flags. -/
def regexLength? : List Char → Option Nat
  | '/' :: '/' :: _ => none
  | '/' :: rest =>
    (regexRest? false rest).map fun length =>
      1 + length + ((rest.drop length).takeWhile fun c => 'a' ≤ c && c ≤ 'z').length
  | _ => none

/-! ## Marks -/

/-- The marks of the language, longer ones before those they start with. -/
def marks : List String :=
  [">>>=", "...", "===", "!==", "**=", "<<=", ">>=", ">>>", "&&=", "||=", "??=", "=>", "==", "!=",
    "<=", ">=", "&&", "||", "??", "?.", "++", "--", "+=", "-=", "*=", "/=", "%=", "&=", "|=", "^=",
    "<<", ">>", "**", "\x7b", "\x7d", "(", ")", "[", "]", ";", ",", "<", ">", "+", "-", "*", "/",
    "%", "&", "|", "^", "!", "~", "?", ":", "=", ".", "@", "#", "\x60"]

/-- The longest mark at the front of a text, or the empty text. A question mark
and a point before a digit are two marks. -/
def markAt (text : List Char) : String :=
  match text with
  | '?' :: '.' :: c :: _ =>
    if isDigit c then "?" else "?."
  | _ => (marks.find? fun mark => mark.toList.isPrefixOf text).getD ""

/-! ## Words -/

/-- The words that are never names. -/
def reservedWords : List String :=
  ["break", "case", "catch", "class", "const", "continue", "debugger", "default", "delete", "do",
    "else", "extends", "false", "finally", "for", "function", "if", "import", "in", "instanceof",
    "new", "null", "return", "super", "switch", "this", "throw", "true", "try", "typeof", "var",
    "void", "while", "with"]

/-- Whether a word may be a name. -/
def isFree (word : String) : Bool :=
  !reservedWords.contains word

/-- The name at the front of a text, unless it is a reserved word. -/
def freeName? (text : List Char) : Option String :=
  (name? text).filter isFree

end Codebox.Script
