import Codebox.Span

/-! # Spans in a row

Spans stand in a row between two offsets if each ends before the next starts.
Both the children of a node and the edits of a text are laid out so.
-/

namespace Codebox

namespace Span

/-- Spans from `low` to `high` in the order of the text, each ending before the
next starts. -/
def Row : Int → Int → List Span → Prop
  | low, high, [] => low ≤ high
  | low, high, span :: rest => low ≤ span.start ∧ span.start ≤ span.stop ∧ Row span.stop high rest

variable {low middle high : Int} {spans others : List Span}

/-- A row has a start before its end. -/
theorem Row.le (row : Row low high spans) : low ≤ high := by
  induction spans generalizing low with
  | nil => exact row
  | cons span rest ih =>
      obtain ⟨starts, ends, row⟩ := row
      have bound := ih row
      omega

/-- Spans in a row lie in a row that starts sooner. -/
theorem Row.widen (below : low ≤ middle) (row : Row middle high spans) : Row low high spans := by
  cases spans with
  | nil => exact Int.le_trans below row
  | cons span rest => exact ⟨Int.le_trans below row.1, row.2⟩

/-- Spans in a row lie in a row that ends later. -/
theorem Row.extend (row : Row low middle spans) (above : middle ≤ high) : Row low high spans := by
  induction spans generalizing low with
  | nil => exact Int.le_trans row above
  | cons span rest ih => exact ⟨row.1, row.2.1, ih row.2.2⟩

/-- A row that starts where another ends follows it. -/
theorem Row.append (first : Row low middle spans) (second : Row middle high others) :
    Row low high (spans ++ others) := by
  induction spans generalizing low with
  | nil => exact second.widen first
  | cons span rest ih => exact ⟨first.1, first.2.1, ih first.2.2⟩

/-- A row is split at any of its spans. -/
theorem row_append_cons {span : Span} : Row low high (spans ++ span :: others) ↔
    Row low span.start spans ∧ span.start ≤ span.stop ∧ Row span.stop high others := by
  induction spans generalizing low with
  | nil => exact Iff.rfl
  | cons first rest ih =>
      simp only [List.cons_append, Row]
      rw [ih, and_assoc, and_assoc]

/-- Every span of a row lies inside it, the right way round. -/
theorem Row.inside (row : Row low high spans) {span : Span} (member : span ∈ spans) :
    low ≤ span.start ∧ span.start ≤ span.stop ∧ span.stop ≤ high := by
  obtain ⟨before, after, rfl⟩ := List.append_of_mem member
  obtain ⟨first, order, last⟩ := row_append_cons.mp row
  exact ⟨first.le, order, last.le⟩

/-- No span of a row reaches into a later one. -/
theorem Row.pairwise (row : Row low high spans) :
    spans.Pairwise fun earlier later => earlier.stop ≤ later.start := by
  induction spans generalizing low with
  | nil => exact .nil
  | cons span rest ih =>
      obtain ⟨-, -, row⟩ := row
      exact List.pairwise_cons.mpr ⟨fun later member => (row.inside member).1, ih row⟩

/-- Spans between two offsets, none of which reaches into a later one, stand in a row. -/
theorem row_of_pairwise (order : low ≤ high)
    (inside : ∀ span ∈ spans, low ≤ span.start ∧ span.start ≤ span.stop ∧ span.stop ≤ high)
    (apart : spans.Pairwise fun earlier later => earlier.stop ≤ later.start) :
    Row low high spans := by
  induction spans generalizing low with
  | nil => exact order
  | cons span rest ih =>
      obtain ⟨here, inside⟩ := List.forall_mem_cons.mp inside
      obtain ⟨after, apart⟩ := List.pairwise_cons.mp apart
      refine ⟨here.1, here.2.1, ih here.2.2 ?_ apart⟩
      intro later member
      exact ⟨after later member, (inside later member).2⟩

/-- Spans below places in a row stand in a row, if those below each place do. -/
theorem Row.flatMap {α : Type} {place : α → Span} {below : α → List Span} {items : List α}
    (row : Row low high (items.map place))
    (each : ∀ item ∈ items, Row (place item).start (place item).stop (below item)) :
    Row low high (items.flatMap below) := by
  induction items generalizing low with
  | nil => exact row
  | cons item rest ih =>
      obtain ⟨starts, -, row⟩ := row
      obtain ⟨here, each⟩ := List.forall_mem_cons.mp each
      rw [List.flatMap_cons]
      exact (here.widen starts).append (ih row each)

/-- Some of the spans of a row, in their order, stand in a row. -/
theorem Row.sublist (row : Row low high spans) (kept : others.Sublist spans) :
    Row low high others := by
  induction kept generalizing low with
  | slnil => exact row
  | cons span _ ih =>
      obtain ⟨starts, ends, row⟩ := row
      exact (ih row).widen (Int.le_trans starts ends)
  | cons_cons span _ ih => exact ⟨row.1, row.2.1, ih row.2.2⟩

/-- Spans that are not empty start one after the other. -/
theorem Row.starts (row : Row low high spans) (wide : ∀ span ∈ spans, span.start < span.stop) :
    spans.Pairwise fun earlier later => earlier.start < later.start := by
  refine row.pairwise.imp_of_mem ?_
  intro earlier later member _ apart
  have nonempty := wide earlier member
  omega

end Span

end Codebox
