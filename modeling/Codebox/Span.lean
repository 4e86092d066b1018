import Codebox.Fault
import Codebox.Text.Utf8

/-! # Spans of a byte text

A span is half open. Its ends are integers: a negative end counts from the end
of the text, an end beyond the text stands for its end, and a span that ends
before it starts covers nothing.
-/

namespace Codebox

/-- The bytes from `start` on and before `stop`. -/
structure Span where
  start : Int
  stop : Int
  deriving DecidableEq, Repr

/-- The place that an end of a span names in a text. -/
def Bytes.position (bytes : Bytes) (offset : Int) : Nat :=
  if offset < 0 then (offset + bytes.length).toNat else offset.toNat

/-- The bytes that a span covers. -/
def Bytes.cut (bytes : Bytes) (span : Span) : Bytes :=
  let start := bytes.position span.start
  (bytes.drop start).take (bytes.position span.stop - start)

/-- The bytes as text. -/
def Bytes.decode (bytes : Bytes) : Except Fault String :=
  match Utf8.decode? bytes with
  | some text => .ok text
  | none => .error .undecodable

/-- The text that a span covers. -/
def Bytes.extract (bytes : Bytes) (span : Span) : Except Fault String :=
  (bytes.cut span).decode

end Codebox
