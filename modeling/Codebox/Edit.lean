import Codebox.Span

/-! # Edits

An edit replaces the bytes of a span by a text. Edits are made from the highest
start down, so that the spans of those still to come keep their meaning.
-/

namespace Codebox

/-- Replace the bytes that `span` covers by `text`. -/
structure Edit where
  span : Span
  text : String
  deriving DecidableEq, Repr

/-- Puts an edit before the first one that does not start later. -/
def Edit.insert (edit : Edit) : List Edit → List Edit
  | [] => [edit]
  | next :: rest =>
    if next.span.start ≤ edit.span.start then edit :: next :: rest
    else next :: edit.insert rest

/-- Edits by descending start; edits with one start keep their order. -/
def Edit.sort : List Edit → List Edit
  | [] => []
  | edit :: rest => edit.insert (Edit.sort rest)

/-- Makes edits, sorted by descending start, in `out`, whose first byte has
offset `base`. Every edit has to end at or before `limit`, which moves down to
the start of each edit made. -/
def Bytes.make (base limit : Int) (out : Bytes) : List Edit → Except Fault Bytes
  | [] => .ok out
  | edit :: rest =>
    if limit < edit.span.stop then .error .overlapping
    else if edit.span.start < base ∨ edit.span.stop < edit.span.start then .error .outside
    else
      Bytes.make base edit.span.start
        (out.take (edit.span.start - base).toNat ++
          (Utf8.encode edit.text ++ out.drop (edit.span.stop - base).toNat))
        rest

/-- The whole text with edits made, as bytes. -/
def Bytes.edited (bytes : Bytes) (edits : List Edit) : Except Fault Bytes :=
  Bytes.make 0 bytes.length bytes (Edit.sort edits)

/-- The window of a text with edits made, as bytes. -/
def Bytes.editedIn (bytes : Bytes) (edits : List Edit) (window : Span) : Except Fault Bytes :=
  Bytes.make window.start window.stop (bytes.cut window) (Edit.sort edits)

/-- The whole text with edits made. -/
def Bytes.splice (bytes : Bytes) (edits : List Edit) : Except Fault String := do
  (← bytes.edited edits).decode

/-- The window of a text with edits made; every edit has to lie in the window. -/
def Bytes.spliceIn (bytes : Bytes) (edits : List Edit) (window : Span) : Except Fault String := do
  (← bytes.editedIn edits window).decode

end Codebox
