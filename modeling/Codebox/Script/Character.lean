/-! # Characters of a script -/

namespace Codebox.Script

/-- The characters between tokens: white space of the wide repertoire, and the
invisible marks that are treated like it. -/
def isSpace (c : Char) : Bool :=
  let n := c.toNat
  (0x09 ≤ n && n ≤ 0x0D) || n == 0x20 || n == 0x85 || n == 0xA0 || n == 0x1680 ||
    (0x2000 ≤ n && n ≤ 0x200B) || n == 0x2028 || n == 0x2029 || n == 0x202F || n == 0x205F ||
    n == 0x2060 || n == 0x3000 || n == 0xFEFF

/-- The white space that the search for the end of a statement skips: spaces at
which a line may be broken. -/
def isBreakingSpace (c : Char) : Bool :=
  let n := c.toNat
  (0x09 ≤ n && n ≤ 0x0D) || n == 0x20 || n == 0x1680 || (0x2000 ≤ n && n ≤ 0x2006) ||
    (0x2008 ≤ n && n ≤ 0x200A) || n == 0x2028 || n == 0x2029 || n == 0x205F || n == 0x3000

/-- The characters that end a line. -/
def isLineBreak (c : Char) : Bool :=
  c = '\n' || c.toNat == 0x2028 || c.toNat == 0x2029

/-- The characters that end a line comment: those that end a line, and the
carriage return. -/
def endsLineComment (c : Char) : Bool :=
  isLineBreak c || c = '\r'

/-- The digits of decimal numbers. -/
def isDigit (c : Char) : Bool :=
  '0' ≤ c && c ≤ '9'

/-- The digits of hexadecimal numbers. -/
def isHexDigit (c : Char) : Bool :=
  isDigit c || ('a' ≤ c && c ≤ 'f') || ('A' ≤ c && c ≤ 'F')

/-- The digits of octal numbers. -/
def isOctalDigit (c : Char) : Bool :=
  '0' ≤ c && c ≤ '7'

/-- The digits of binary numbers. -/
def isBinaryDigit (c : Char) : Bool :=
  c = '0' || c = '1'

/-- The punctuation of ASCII, except the dollar sign and the underscore. -/
def isPunctuation (c : Char) : Bool :=
  let n := c.toNat
  (0x21 ≤ n && n ≤ 0x2F && n != 0x24) || (0x3A ≤ n && n ≤ 0x40) ||
    (0x5B ≤ n && n ≤ 0x60 && n != 0x5F) || (0x7B ≤ n && n ≤ 0x7E)

/-- The characters of names: all but controls, white space and punctuation. -/
def isNamePart (c : Char) : Bool :=
  0x20 ≤ c.toNat && !isSpace c && !isPunctuation c

/-- The characters that names start with. -/
def isNameStart (c : Char) : Bool :=
  isNamePart c && !isDigit c

/-- Letters; beyond ASCII every character of names counts. -/
def isLetter (c : Char) : Bool :=
  ('a' ≤ c && c ≤ 'z') || ('A' ≤ c && c ≤ 'Z') || (0x80 ≤ c.toNat && isNamePart c)

end Codebox.Script
