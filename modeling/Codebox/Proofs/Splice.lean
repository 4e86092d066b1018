import Codebox.Edit
import Codebox.Proofs.Boundary
import Codebox.Proofs.Row
import Mathlib.Data.List.Induction
import Mathlib.Data.List.Nodup

/-! # Splicing from left to right

Edits are made from the highest start down. Where they keep apart, the outcome is
the text read from left to right: what lies before the first edit, its text, what
lies between it and the next edit, and so on. The list that edits are given in
does not matter if no two of them start together.
-/

namespace Codebox

/-! ## Sorting edits -/

namespace Edit

/-- An edit is put behind all that start later and before all others. -/
theorem exists_insert_eq (edit : Edit) (edits : List Edit) :
    ∃ before after, edits = before ++ after ∧ edit.insert edits = before ++ edit :: after ∧
      ∀ other ∈ before, edit.span.start < other.span.start := by
  induction edits with
  | nil => exact ⟨[], [], rfl, rfl, fun _ member => (List.not_mem_nil member).elim⟩
  | cons next rest ih =>
      unfold insert
      split
      next =>
        exact ⟨[], next :: rest, rfl, rfl, fun _ member => (List.not_mem_nil member).elim⟩
      next starts =>
        obtain ⟨before, after, split, inserted, later⟩ := ih
        refine ⟨next :: before, after, ?_, ?_, List.forall_mem_cons.mpr ⟨by omega, later⟩⟩
        · rw [split, List.cons_append]
        · rw [inserted, List.cons_append]

/-- Inserting an edit keeps the edits that there are. -/
theorem insert_perm (edit : Edit) (edits : List Edit) :
    (edit.insert edits).Perm (edit :: edits) := by
  obtain ⟨before, after, rfl, inserted, -⟩ := exists_insert_eq edit edits
  rw [inserted]
  exact List.perm_middle

/-- Sorting keeps the edits that there are. -/
theorem sort_perm (edits : List Edit) : (sort edits).Perm edits := by
  induction edits with
  | nil => exact .refl _
  | cons edit rest ih => exact (insert_perm edit _).trans (ih.cons edit)

/-- The order in which edits are made. -/
def Descending (edits : List Edit) : Prop :=
  edits.Pairwise fun earlier later => later.span.start ≤ earlier.span.start

/-- Inserting an edit keeps the edits in falling order. -/
theorem insert_descending (edit : Edit) {edits : List Edit} (descending : Descending edits) :
    Descending (edit.insert edits) := by
  induction edits with
  | nil => exact List.pairwise_singleton _ _
  | cons next rest ih =>
      obtain ⟨below, descendingRest⟩ := List.pairwise_cons.mp descending
      unfold insert
      split
      next starts =>
        refine List.pairwise_cons.mpr ⟨?_, descending⟩
        intro other member
        rcases List.mem_cons.mp member with rfl | member
        · exact starts
        · exact Int.le_trans (below other member) starts
      next starts =>
        refine List.pairwise_cons.mpr ⟨?_, ih descendingRest⟩
        intro other member
        rcases List.mem_cons.mp ((insert_perm edit rest).mem_iff.mp member) with rfl | member
        · omega
        · exact below other member

/-- Sorting puts edits in falling order. -/
theorem sort_descending (edits : List Edit) : Descending (sort edits) := by
  induction edits with
  | nil => exact .nil
  | cons edit rest ih => exact insert_descending edit ih

/-- Edits with distinct starts descend in one list only. -/
theorem Descending.eq_of_perm {edits others : List Edit} (first : Descending edits)
    (second : Descending others) (same : edits.Perm others)
    (distinct : (edits.map (·.span.start)).Nodup) : edits = others := by
  refine same.eq_of_pairwise ?_ first second
  intro earlier later member memberLater upper lower
  exact List.inj_on_of_nodup_map distinct member (same.mem_iff.mpr memberLater)
    (Int.le_antisymm lower upper)

/-- Edits that start one after the other are sorted by reversing them, whatever
list they are given in. -/
theorem sort_eq_reverse {edits ascending : List Edit} (same : edits.Perm ascending)
    (starts : ascending.Pairwise fun earlier later => earlier.span.start < later.span.start) :
    sort edits = ascending.reverse := by
  have sorted := (sort_perm edits).trans same
  have distinct : (ascending.map (·.span.start)).Nodup :=
    List.pairwise_map.mpr (starts.imp Int.ne_of_lt)
  apply (sort_descending edits).eq_of_perm
  · exact List.pairwise_reverse.mpr (starts.imp Int.le_of_lt)
  · exact sorted.trans ascending.reverse_perm.symm
  · exact (sorted.map _).nodup_iff.mpr distinct

/-- Edits from `low` to `high` in the order of the text, each ending before the
next starts. -/
abbrev Ordered (low high : Int) (edits : List Edit) : Prop :=
  Span.Row low high (edits.map Edit.span)

/-- Edits of a text that can be made from left to right: they stand in a row
between two offsets, none is empty, and each starts and ends at a boundary. -/
structure Tidy (bytes : Bytes) (low high : Int) (edits : List Edit) : Prop where
  ordered : Ordered low high edits
  wide : ∀ edit ∈ edits, edit.span.start < edit.span.stop
  bounded : ∀ edit ∈ edits, bytes.Boundary edit.span.start ∧ bytes.Boundary edit.span.stop

variable {bytes : Bytes} {low middle high : Int} {edits others : List Edit}

/-- No edits are tidy anywhere. -/
theorem Tidy.nil (order : low ≤ high) : Tidy bytes low high [] :=
  ⟨order, fun _ member => (List.not_mem_nil member).elim,
    fun _ member => (List.not_mem_nil member).elim⟩

/-- An edit between boundaries, before tidy edits that start where it ends. -/
theorem Tidy.cons {edit : Edit} (below : low ≤ edit.span.start)
    (nonempty : edit.span.start < edit.span.stop) (starts : bytes.Boundary edit.span.start)
    (ends : bytes.Boundary edit.span.stop) (tidy : Tidy bytes edit.span.stop high edits) :
    Tidy bytes low high (edit :: edits) where
  ordered := ⟨below, Int.le_of_lt nonempty, tidy.ordered⟩
  wide := List.forall_mem_cons.mpr ⟨nonempty, tidy.wide⟩
  bounded := List.forall_mem_cons.mpr ⟨⟨starts, ends⟩, tidy.bounded⟩

/-- Tidy edits that start where others end follow them. -/
theorem Tidy.append (first : Tidy bytes low middle edits) (second : Tidy bytes middle high others) :
    Tidy bytes low high (edits ++ others) where
  ordered := by
    rw [Ordered, List.map_append]
    exact first.ordered.append second.ordered
  wide := List.forall_mem_append.mpr ⟨first.wide, second.wide⟩
  bounded := List.forall_mem_append.mpr ⟨first.bounded, second.bounded⟩

/-- Tidy edits are tidy in a stretch that starts sooner. -/
theorem Tidy.widen (below : low ≤ middle) (tidy : Tidy bytes middle high edits) :
    Tidy bytes low high edits :=
  ⟨tidy.ordered.widen below, tidy.wide, tidy.bounded⟩

/-- Tidy edits are tidy in a stretch that ends later. -/
theorem Tidy.extend (tidy : Tidy bytes low middle edits) (above : middle ≤ high) :
    Tidy bytes low high edits :=
  ⟨tidy.ordered.extend above, tidy.wide, tidy.bounded⟩

/-- Some of the tidy edits, in their order, are tidy. -/
theorem Tidy.sublist (tidy : Tidy bytes low high edits) (kept : others.Sublist edits) :
    Tidy bytes low high others where
  ordered := tidy.ordered.sublist (kept.map _)
  wide := fun edit member => tidy.wide edit (kept.subset member)
  bounded := fun edit member => tidy.bounded edit (kept.subset member)

/-- Tidy edits start one after the other. -/
theorem Tidy.starts (tidy : Tidy bytes low high edits) :
    edits.Pairwise fun earlier later => earlier.span.start < later.span.start := by
  have starts := tidy.ordered.starts (List.forall_mem_map.mpr tidy.wide)
  rwa [List.pairwise_map] at starts

end Edit

/-! ## The text from left to right -/

namespace Bytes

variable {bytes : Bytes} {low middle high : Int} {edits others : List Edit}

/-- The bytes from an offset up to `stop` with edits, given in the order of the
text, made. -/
def woven (bytes : Bytes) (stop : Int) : Int → List Edit → Bytes
  | offset, [] => bytes.cut ⟨offset, stop⟩
  | offset, edit :: rest =>
    bytes.cut ⟨offset, edit.span.start⟩ ++
      (Utf8.encode edit.text ++ bytes.woven stop edit.span.stop rest)

/-- A last edit is made in what lies after the others. -/
theorem woven_concat (edit : Edit) :
    bytes.woven high low (edits ++ [edit]) =
      bytes.woven edit.span.start low edits ++
        (Utf8.encode edit.text ++ bytes.cut ⟨edit.span.stop, high⟩) := by
  induction edits generalizing low with
  | nil => rfl
  | cons first rest ih =>
      simp only [List.cons_append, woven]
      rw [ih, List.append_assoc, List.append_assoc]

/-- What is kept before the first edit may be split off. -/
theorem cut_append_woven (least : 0 ≤ low) (below : low ≤ middle)
    (ordered : Edit.Ordered middle high edits) :
    bytes.cut ⟨low, middle⟩ ++ bytes.woven high middle edits = bytes.woven high low edits := by
  cases edits with
  | nil => exact cut_append_cut bytes least below ordered
  | cons edit rest =>
      simp only [woven]
      rw [← List.append_assoc, cut_append_cut bytes least below ordered.1]

/-- Edits on either side of an offset are made apart. -/
theorem woven_append (least : 0 ≤ low) (first : Edit.Ordered low middle edits)
    (second : Edit.Ordered middle high others) :
    bytes.woven high low (edits ++ others) =
      bytes.woven middle low edits ++ bytes.woven high middle others := by
  induction edits generalizing low with
  | nil => exact (cut_append_woven least first second).symm
  | cons edit rest ih =>
      obtain ⟨starts, ends, ordered⟩ := first
      simp only [List.cons_append, woven]
      rw [ih (by omega) ordered, List.append_assoc, List.append_assoc]

/-- Making edits from the highest start down leaves what the text reads from left
to right. The invariant is that the text up to the limit is still untouched. -/
theorem make_reverse (least : 0 ≤ low) (most : high ≤ bytes.length)
    (ordered : Edit.Ordered low high edits) (after : Bytes) :
    make low high (bytes.cut ⟨low, high⟩ ++ after) edits.reverse =
      .ok (bytes.woven high low edits ++ after) := by
  induction edits using List.reverseRecOn generalizing high after with
  | nil => rfl
  | append_singleton edits edit ih =>
      rw [Edit.Ordered, List.map_append] at ordered
      obtain ⟨before, ends, stops⟩ := Span.row_append_cons.mp ordered
      have starts := before.le
      have stops : edit.span.stop ≤ high := stops
      rw [List.reverse_append, List.reverse_singleton, List.singleton_append, make,
        if_neg (by omega), if_neg (by omega),
        take_cut_append least starts (by omega) most,
        drop_cut_append least (by omega) stops most, ih (by omega) before, woven_concat]
      simp only [List.append_assoc]

/-- A window with edits made, in whatever list they are given. -/
theorem editedIn_eq_woven {given : List Edit} (same : given.Perm edits) (least : 0 ≤ low)
    (most : high ≤ bytes.length) (tidy : Edit.Tidy bytes low high edits) :
    bytes.editedIn given ⟨low, high⟩ = .ok (bytes.woven high low edits) := by
  unfold editedIn
  rw [Edit.sort_eq_reverse same tidy.starts]
  simpa using make_reverse least most tidy.ordered []

/-- Tidy edits, given in any order, make the woven text, if it can be read. -/
theorem spliceIn_eq_decode {given : List Edit} (same : given.Perm edits) (least : 0 ≤ low)
    (most : high ≤ bytes.length) (tidy : Edit.Tidy bytes low high edits) :
    bytes.spliceIn given ⟨low, high⟩ = (bytes.woven high low edits).decode := by
  unfold spliceIn
  rw [editedIn_eq_woven same least most tidy]
  rfl

/-- Splicing a text is splicing in the window of all of it. -/
theorem splice_eq_spliceIn (edits : List Edit) :
    bytes.splice edits = bytes.spliceIn edits ⟨0, bytes.length⟩ := by
  unfold splice spliceIn edited editedIn
  rw [cut_whole]

/-- Between boundaries, the text with edits made can be read exactly if it stops
at a boundary. -/
theorem exists_encode_woven_iff_of_ordered (starts : bytes.Boundary low)
    (most : high ≤ bytes.length) (ordered : Edit.Ordered low high edits)
    (bounded : ∀ edit ∈ edits, bytes.Boundary edit.span.start ∧ bytes.Boundary edit.span.stop) :
    (∃ text, Utf8.encode text = bytes.woven high low edits) ↔ bytes.Boundary high := by
  induction edits generalizing low with
  | nil => exact (starts.iff_cut ordered most).symm
  | cons edit rest ih =>
      obtain ⟨before, ends, ordered⟩ := ordered
      obtain ⟨lower, upper⟩ := bounded edit List.mem_cons_self
      rw [← ih upper ordered fun other member => bounded other (List.mem_cons_of_mem _ member)]
      obtain ⟨gap, same⟩ := starts.exists_text lower before
      simp only [woven]
      rw [← same, ← List.append_assoc, exists_encode_iff, exists_encode_iff]
      unfold Utf8.encode
      rw [← Utf8.encodeChars_append]
      exact Utf8.exists_encodeChars_append_iff _ _

/-- The woven text can be read exactly if the window ends at a boundary. -/
theorem exists_encode_woven_iff (starts : bytes.Boundary low) (most : high ≤ bytes.length)
    (tidy : Edit.Tidy bytes low high edits) :
    (∃ text, Utf8.encode text = bytes.woven high low edits) ↔ bytes.Boundary high :=
  exists_encode_woven_iff_of_ordered starts most tidy.ordered tidy.bounded

/-- A whole text with edits made can be read. -/
theorem exists_splice_of_perm {given : List Edit} (same : given.Perm edits)
    (tidy : Edit.Tidy bytes 0 bytes.length edits)
    (ends : bytes.Boundary 0 ∧ bytes.Boundary bytes.length) :
    ∃ text, bytes.splice given = .ok text ∧
      Utf8.encode text = bytes.woven bytes.length 0 edits := by
  obtain ⟨text, written⟩ :=
    (exists_encode_woven_iff ends.1 (Int.le_refl _) tidy).mpr ends.2
  refine ⟨text, ?_, written⟩
  rw [splice_eq_spliceIn, spliceIn_eq_decode same (Int.le_refl _) (Int.le_refl _) tidy]
  exact decode_eq_ok_iff.mpr written

/-- Tidy edits of a whole text can be made and make the woven text. -/
theorem exists_splice (tidy : Edit.Tidy bytes 0 bytes.length edits)
    (ends : bytes.Boundary 0 ∧ bytes.Boundary bytes.length) :
    ∃ text, bytes.splice edits = .ok text ∧
      Utf8.encode text = bytes.woven bytes.length 0 edits :=
  exists_splice_of_perm (.refl _) tidy ends

end Bytes

end Codebox
