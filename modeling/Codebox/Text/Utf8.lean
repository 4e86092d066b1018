/-! # UTF-8

A byte text is a list of bytes. Decoding is a machine that reads one byte at a
time and stands, between bytes, either before a character or inside one that
still owes continuation bytes. Strict decoding refuses the first byte that no
character can hold; lenient decoding writes one replacement character for each
maximal ill-formed part.
-/

namespace Codebox

/-- A text as its bytes. -/
abbrev Bytes := List UInt8

namespace Utf8

/-- The bytes of one character. -/
def encodeChar (c : Char) : Bytes :=
  let n := c.toNat
  if n < 0x80 then [UInt8.ofNat n]
  else if n < 0x800 then [UInt8.ofNat (0xC0 + n / 64), UInt8.ofNat (0x80 + n % 64)]
  else if n < 0x10000 then
    [UInt8.ofNat (0xE0 + n / 4096), UInt8.ofNat (0x80 + n / 64 % 64), UInt8.ofNat (0x80 + n % 64)]
  else
    [UInt8.ofNat (0xF0 + n / 262144), UInt8.ofNat (0x80 + n / 4096 % 64),
      UInt8.ofNat (0x80 + n / 64 % 64), UInt8.ofNat (0x80 + n % 64)]

/-- The bytes of a list of characters. -/
def encodeChars (text : List Char) : Bytes :=
  text.flatMap encodeChar

/-- The bytes of a text. -/
def encode (text : String) : Bytes :=
  encodeChars text.toList

/-- A character of which some bytes have been read. -/
structure Pending where
  /-- How many continuation bytes are owed after the next one. -/
  more : Nat
  /-- The least next byte. -/
  low : Nat
  /-- The greatest next byte. -/
  high : Nat
  /-- The bits read so far. -/
  value : Nat

/-- What one more byte amounts to. -/
inductive Step where
  /-- It completes the character with this code. -/
  | complete (code : Nat)
  /-- The character goes on. -/
  | pending (state : Pending)
  /-- No character holds the byte here. -/
  | invalid

/-- The first byte of a character. -/
def lead (byte : Nat) : Step :=
  if byte ≤ 0x7F then .complete byte
  else if byte < 0xC2 then .invalid
  else if byte ≤ 0xDF then .pending ⟨0, 0x80, 0xBF, byte - 0xC0⟩
  else if byte = 0xE0 then .pending ⟨1, 0xA0, 0xBF, 0⟩
  else if byte = 0xED then .pending ⟨1, 0x80, 0x9F, 0xD⟩
  else if byte ≤ 0xEF then .pending ⟨1, 0x80, 0xBF, byte - 0xE0⟩
  else if byte = 0xF0 then .pending ⟨2, 0x90, 0xBF, 0⟩
  else if byte ≤ 0xF3 then .pending ⟨2, 0x80, 0xBF, byte - 0xF0⟩
  else if byte = 0xF4 then .pending ⟨2, 0x80, 0x8F, 4⟩
  else .invalid

/-- A later byte of a character. -/
def Pending.step (state : Pending) (byte : Nat) : Step :=
  if state.low ≤ byte ∧ byte ≤ state.high then
    let value := state.value * 64 + (byte - 0x80)
    match state.more with
    | 0 => .complete value
    | more + 1 => .pending ⟨more, 0x80, 0xBF, value⟩
  else .invalid

/-- The next byte from either state of the machine. -/
def advance (state : Option Pending) (byte : Nat) : Step :=
  match state with
  | none => lead byte
  | some pending => pending.step byte

/-- Strict decoding from a state of the machine. -/
def decodeFrom : Option Pending → Bytes → Option (List Char)
  | none, [] => some []
  | some _, [] => none
  | state, byte :: rest =>
    match advance state byte.toNat with
    | .complete code => (decodeFrom none rest).map (Char.ofNat code :: ·)
    | .pending state => decodeFrom (some state) rest
    | .invalid => none

/-- The text with these bytes, if there is one. -/
def decode? (bytes : Bytes) : Option String :=
  (decodeFrom none bytes).map String.ofList

/-- Stands for an ill-formed part of a byte text. -/
def replacement : Char := Char.ofNat 0xFFFD

/-- Lenient decoding from a state of the machine. A byte that a character under
way cannot hold ends the ill-formed part before it and is read afresh. -/
def decodeLenientFrom : Option Pending → Bytes → List Char
  | none, [] => []
  | some _, [] => [replacement]
  | none, byte :: rest =>
    match lead byte.toNat with
    | .complete code => Char.ofNat code :: decodeLenientFrom none rest
    | .pending state => decodeLenientFrom (some state) rest
    | .invalid => replacement :: decodeLenientFrom none rest
  | some state, byte :: rest =>
    match state.step byte.toNat with
    | .complete code => Char.ofNat code :: decodeLenientFrom none rest
    | .pending state => decodeLenientFrom (some state) rest
    | .invalid =>
      match lead byte.toNat with
      | .complete code => replacement :: Char.ofNat code :: decodeLenientFrom none rest
      | .pending state => replacement :: decodeLenientFrom (some state) rest
      | .invalid => replacement :: replacement :: decodeLenientFrom none rest

/-- The characters of a byte text, ill-formed parts replaced. -/
def decodeLenient (bytes : Bytes) : List Char :=
  decodeLenientFrom none bytes

end Utf8

end Codebox
