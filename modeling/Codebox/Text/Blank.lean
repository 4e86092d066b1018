/-! # Blank characters, lines and words

Texts are lists of characters here. Blank characters separate words and are
trimmed from the ends of a text; a line ends at a line feed and nowhere else.
-/

namespace Codebox.Text

/-- The characters that count as blank: the ASCII spacing controls, the four
information separators, and the spaces of the wider repertoire. -/
def isBlank (c : Char) : Bool :=
  let n := c.toNat
  (0x09 ≤ n && n ≤ 0x0D) || (0x1C ≤ n && n ≤ 0x20) || n == 0x85 || n == 0xA0 || n == 0x1680 ||
    (0x2000 ≤ n && n ≤ 0x200A) || n == 0x2028 || n == 0x2029 || n == 0x202F || n == 0x205F ||
    n == 0x3000

/-- A text without its blank ends. -/
def trim (text : List Char) : List Char :=
  ((text.dropWhile isBlank).reverse.dropWhile isBlank).reverse

/-- The lines of a text, split at line feeds; there is always at least one. -/
def lines : List Char → List (List Char)
  | [] => [[]]
  | c :: rest =>
    if c = '\n' then [] :: lines rest
    else
      match lines rest with
      | [] => [[c]]
      | line :: others => (c :: line) :: others

/-- The text before the first line feed. -/
def firstLine (text : List Char) : List Char :=
  text.takeWhile (· ≠ '\n')

/-- A finished word, or nothing when no character of one was read. -/
def finishWord : List Char → List (List Char)
  | [] => []
  | word => [word.reverse]

/-- The words of a text, where `word` holds the characters of the current word,
last one first. -/
def wordsFrom (word : List Char) : List Char → List (List Char)
  | [] => finishWord word
  | c :: rest =>
    if isBlank c then finishWord word ++ wordsFrom [] rest
    else wordsFrom (c :: word) rest

/-- The maximal runs of characters that are not blank. -/
def words (text : List Char) : List (List Char) :=
  wordsFrom [] text

/-- Texts joined by a separator. -/
def joined (separator : String) : List String → String
  | [] => ""
  | [text] => text
  | text :: rest => text ++ separator ++ joined separator rest

end Codebox.Text
