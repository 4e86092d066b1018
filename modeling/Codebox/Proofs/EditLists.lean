import Codebox.Proofs.Sequence
import Codebox.Proofs.Splice

/-! # Edits in any list

Edits are made from the highest start down, in whatever list they are given. Which lists
can be made is said pair by pair on the list as it is given, and what such a list makes
is the text read from left to right. Only edits with one start depend on the list: the
one given last comes first in the text.
-/

namespace Codebox

/-- Whether a fault says that an edit collides with another one or with the window. -/
def Fault.isCollision : Fault → Bool
  | .overlapping | .outside => true
  | _ => false

/-! ## Sorting is stable -/

namespace Edit

variable {edits : List Edit}

/-- The edits with one start keep their order when another edit is put among them. -/
theorem filter_insert (edit : Edit) (edits : List Edit) (start : Int) :
    (edit.insert edits).filter (·.span.start = start) =
      (edit :: edits).filter (·.span.start = start) := by
  obtain ⟨before, after, rfl, inserted, later⟩ := exists_insert_eq edit edits
  rw [inserted, List.filter_append]
  by_cases here : edit.span.start = start
  · have passed : before.filter (·.span.start = start) = [] := by
      apply List.filter_eq_nil_iff.mpr
      intro other member
      have beyond := later other member
      simp only [decide_eq_true_eq]
      omega
    rw [passed, List.nil_append, List.filter_cons_of_pos (by simpa using here),
      List.filter_cons_of_pos (by simpa using here), List.filter_append, passed, List.nil_append]
  · rw [List.filter_cons_of_neg (by simpa using here),
      List.filter_cons_of_neg (by simpa using here), List.filter_append]

/-- Sorting leaves edits that start at one offset in their order. -/
theorem filter_sort (edits : List Edit) (start : Int) :
    (sort edits).filter (·.span.start = start) = edits.filter (·.span.start = start) := by
  induction edits with
  | nil => rfl
  | cons edit rest ih =>
      rw [sort, filter_insert, List.filter_cons, List.filter_cons, ih]

/-- A relation between earlier and later edits of a list survives an insertion if it
does not tell the order of edits that start apart. -/
theorem pairwise_insert_iff {related : Edit → Edit → Prop}
    (flips : ∀ first second, first.span.start ≠ second.span.start →
      related first second → related second first) (edit : Edit) (edits : List Edit) :
    (edit.insert edits).Pairwise related ↔ (edit :: edits).Pairwise related := by
  obtain ⟨before, after, rfl, inserted, later⟩ := exists_insert_eq edit edits
  have passed : (∀ other ∈ before, related other edit) ↔ ∀ other ∈ before, related edit other := by
    refine forall₂_congr fun other member => ?_
    have beyond := later other member
    exact ⟨flips other edit (by omega), flips edit other (by omega)⟩
  rw [inserted]
  simp only [List.pairwise_append, List.pairwise_cons, List.forall_mem_cons,
    List.forall_mem_append, forall_and, passed]
  constructor
  · rintro ⟨first, ⟨behind, second⟩, ahead, across⟩
    exact ⟨⟨ahead, behind⟩, first, second, across⟩
  · rintro ⟨⟨ahead, behind⟩, first, second, across⟩
    exact ⟨first, ⟨behind, second⟩, ahead, across⟩

/-- Sorting keeps a relation between all pairs that may be turned around where starts differ. -/
theorem pairwise_sort_iff {related : Edit → Edit → Prop}
    (flips : ∀ first second, first.span.start ≠ second.span.start →
      related first second → related second first) :
    (sort edits).Pairwise related ↔ edits.Pairwise related := by
  induction edits with
  | nil => exact Iff.rfl
  | cons edit rest ih =>
      rw [sort, pairwise_insert_iff flips, List.pairwise_cons, List.pairwise_cons, ih]
      simp only [(sort_perm rest).mem_iff]

/-- Edits in the order of the text: by ascending start, and those with one start in the
reverse of the order in which they are given. -/
structure Arranges (edits ascending : List Edit) : Prop where
  same : ascending.Perm edits
  starts : ascending.Pairwise fun earlier later => earlier.span.start ≤ later.span.start
  ties : ∀ start, ascending.filter (·.span.start = start) =
    (edits.filter (·.span.start = start)).reverse

/-- Edits by descending start, read backwards, are in the order of the text. -/
theorem arranges_sort (edits : List Edit) : Arranges edits (sort edits).reverse where
  same := (sort edits).reverse_perm.trans (sort_perm edits)
  starts := List.pairwise_reverse.mpr (sort_descending edits)
  ties := by
    intro start
    rw [List.filter_reverse, filter_sort]

/-- Two edits of a list, the first given before the second, do not meet: the one that
starts first ends before the other starts, and of two that start together the one given
second is empty. -/
structure InOrder (first second : Edit) : Prop where
  before : first.span.start < second.span.start → first.span.stop ≤ second.span.start
  after : second.span.start < first.span.start → second.span.stop ≤ first.span.start
  tied : first.span.start = second.span.start → second.span.start = second.span.stop

/-- Of two edits that start apart it does not matter which is given first. -/
theorem InOrder.flip {first second : Edit} (apart : first.span.start ≠ second.span.start)
    (ordered : InOrder first second) : InOrder second first :=
  ⟨ordered.after, ordered.before, fun same => (apart same.symm).elim⟩

/-- Where the second edit does not start later, it has to end before the first starts. -/
theorem inOrder_iff_of_le {first second : Edit} (descends : second.span.start ≤ first.span.start)
    (order : second.span.start ≤ second.span.stop) :
    InOrder first second ↔ second.span.stop ≤ first.span.start := by
  constructor
  · intro ordered
    rcases Int.lt_or_eq_of_le descends with less | same
    · exact ordered.after less
    · have empty := ordered.tied same.symm
      omega
  · intro ends
    exact ⟨fun less => by omega, fun _ => ends, fun same => by omega⟩

/-- All edits lie between two offsets. -/
def Within (low high : Int) (edits : List Edit) : Prop :=
  ∀ edit ∈ edits, low ≤ edit.span.start ∧ edit.span.start ≤ edit.span.stop ∧
    edit.span.stop ≤ high

/-- Sorting leaves edits inside a window. -/
theorem within_sort_iff {low high : Int} :
    Within low high (sort edits) ↔ Within low high edits := by
  unfold Within
  simp only [(sort_perm edits).mem_iff]

/-- On the sorted list it is enough to look from each edit to those made after it. -/
theorem pairwise_inOrder_iff {low high : Int} (within : Within low high edits) :
    edits.Pairwise InOrder ↔
      (sort edits).Pairwise fun earlier later => later.span.stop ≤ earlier.span.start := by
  rw [← pairwise_sort_iff fun _ _ => InOrder.flip]
  have within := within_sort_iff.mpr within
  have descending := sort_descending edits
  constructor
  · intro ordered
    refine (ordered.and descending).imp_of_mem ?_
    intro earlier later _ member pair
    exact (inOrder_iff_of_le pair.2 (within later member).2.1).mp pair.1
  · intro ends
    refine (ends.and descending).imp_of_mem ?_
    intro earlier later _ member pair
    exact (inOrder_iff_of_le pair.2 (within later member).2.1).mpr pair.1

/-- Edits that lie between two offsets and are in order stand in a row once they are
sorted. -/
theorem ordered_sort {low high : Int} (order : low ≤ high) (within : Within low high edits)
    (apart : edits.Pairwise InOrder) : Ordered low high (sort edits).reverse := by
  apply Span.row_of_pairwise order
  · rw [List.forall_mem_map]
    intro edit member
    exact within_sort_iff.mpr within edit (List.mem_reverse.mp member)
  · rw [List.pairwise_map, List.pairwise_reverse]
    exact (pairwise_inOrder_iff within).mp apart

/-- Edits with distinct starts are sorted in one way, whatever list they are given in. -/
theorem sort_eq_of_perm {others : List Edit} (distinct : (edits.map (·.span.start)).Nodup)
    (same : edits.Perm others) : sort edits = sort others := by
  apply (sort_descending edits).eq_of_perm (sort_descending others)
  · exact (sort_perm edits).trans (same.trans (sort_perm others).symm)
  · exact ((sort_perm edits).map _).nodup_iff.mpr distinct

end Edit

/-! ## Which lists can be made -/

namespace Bytes

variable {bytes : Bytes} {edits : List Edit} {window : Option Span}

/-- The text over a window, or the whole text if no window is given, with edits made. -/
def spliceOver (bytes : Bytes) (edits : List Edit) : Option Span → Except Fault String
  | none => bytes.splice edits
  | some window => bytes.spliceIn edits window

/-- The part of a text that a window shows; all of it if there is none. -/
def extent (bytes : Bytes) (window : Option Span) : Span :=
  window.getD ⟨0, bytes.length⟩

/-- Splicing over the whole text is splicing in the window that it makes. -/
theorem spliceOver_eq_spliceIn :
    bytes.spliceOver edits window = bytes.spliceIn edits (bytes.extent window) := by
  cases window with
  | none => exact splice_eq_spliceIn edits
  | some window => rfl

/-- Edits can be made one after the other exactly if each lies within the window and ends
before those made before it start. -/
theorem exists_make_iff {base limit : Int} {out : Bytes} :
    (∃ made, make base limit out edits = .ok made) ↔ Edit.Within base limit edits ∧
      edits.Pairwise fun earlier later => later.span.stop ≤ earlier.span.start := by
  -- Each edit made lowers the limit to its start, so the bound on the others is tighter.
  induction edits generalizing limit out with
  | nil => simp [make, Edit.Within]
  | cons edit rest ih =>
      unfold Edit.Within at ih ⊢
      rw [make, List.forall_mem_cons, List.pairwise_cons]
      by_cases stops : limit < edit.span.stop
      · rw [if_pos stops]
        simp only [reduceCtorEq, exists_false, false_iff]
        rintro ⟨⟨inside, -⟩, -⟩
        exact Int.not_le.mpr stops inside.2.2
      by_cases starts : edit.span.start < base ∨ edit.span.stop < edit.span.start
      · rw [if_neg stops, if_pos starts]
        simp only [reduceCtorEq, exists_false, false_iff]
        rintro ⟨⟨⟨lower, order, -⟩, -⟩, -⟩
        omega
      · rw [if_neg stops, if_neg starts, ih]
        constructor
        · rintro ⟨within, apart⟩
          refine ⟨⟨by omega, fun other member => ?_⟩, fun other member => ?_, apart⟩
          · have inside := within other member
            exact ⟨inside.1, inside.2.1, by omega⟩
          · exact (within other member).2.2
        · rintro ⟨⟨-, within⟩, below, apart⟩
          refine ⟨fun other member => ?_, apart⟩
          exact ⟨(within other member).1, (within other member).2.1, below other member⟩

/-- Making edits fails only by a collision. -/
theorem isCollision_of_make {base limit : Int} {out : Bytes} {fault : Fault}
    (failed : make base limit out edits = .error fault) : fault.isCollision := by
  induction edits generalizing limit out with
  | nil => cases failed
  | cons edit rest ih =>
      rw [make] at failed
      split at failed
      · cases failed
        rfl
      · split at failed
        · cases failed
          rfl
        · exact ih failed

/-- Making the edits meets no collision. -/
def Accepts (bytes : Bytes) (edits : List Edit) (window : Option Span) : Prop :=
  ∀ fault, bytes.spliceOver edits window = .error fault → fault.isCollision = false

/-- Edits are accepted exactly if they can be made in the window. -/
theorem accepts_iff_exists_editedIn : bytes.Accepts edits window ↔
    ∃ made, bytes.editedIn edits (bytes.extent window) = .ok made := by
  unfold Accepts
  rw [spliceOver_eq_spliceIn]
  unfold spliceIn
  cases edited : bytes.editedIn edits (bytes.extent window) with
  | error fault =>
      have collides := isCollision_of_make edited
      constructor
      · intro none
        rw [none fault rfl] at collides
        cases collides
      · rintro ⟨made, impossible⟩
        cases impossible
  | ok made =>
      refine ⟨fun _ => ⟨made, rfl⟩, fun _ fault failed => ?_⟩
      obtain ⟨rfl, -⟩ := decode_eq_error_iff.mp failed
      rfl

/-- Edits can be made in a window exactly if they lie in it and none reaches into another. -/
theorem exists_editedIn_iff {window : Span} :
    (∃ made, bytes.editedIn edits window = .ok made) ↔
      Edit.Within window.start window.stop edits ∧ edits.Pairwise Edit.InOrder := by
  rw [editedIn, exists_make_iff, Edit.within_sort_iff]
  exact and_congr_right fun within => (Edit.pairwise_inOrder_iff within).symm

/-- **Which lists of edits can be made.** No collision is met exactly if every edit lies
in the window and any two edits of the list, in the order given, are in order. -/
theorem accepts_iff_inOrder (bytes : Bytes) (edits : List Edit) (window : Option Span) :
    bytes.Accepts edits window ↔
      Edit.Within (bytes.extent window).start (bytes.extent window).stop edits ∧
        edits.Pairwise Edit.InOrder := by
  rw [accepts_iff_exists_editedIn, exists_editedIn_iff]

/-! ## What they make -/

/-- A list that can be made is made from left to right. -/
theorem editedIn_eq_woven_sort {window : Span} (least : 0 ≤ window.start)
    (order : window.start ≤ window.stop) (most : window.stop ≤ bytes.length)
    (within : Edit.Within window.start window.stop edits) (apart : edits.Pairwise Edit.InOrder) :
    bytes.editedIn edits window =
      .ok (bytes.woven window.stop window.start (Edit.sort edits).reverse) := by
  have made := make_reverse least most (Edit.ordered_sort order within apart) []
  rwa [List.reverse_reverse, List.append_nil, List.append_nil] at made

/-- **A splice reads from left to right.** A list of edits that meets no collision gives
the bytes before the first edit, its text, the bytes up to the next edit, and so on to the
end of the window. Where the window and all edits start and end at boundaries between
characters, the result can be read. -/
theorem spliceOver_from_left (bytes : Bytes) (edits : List Edit) (window : Option Span) :
    let shown := bytes.extent window
    0 ≤ shown.start → shown.start ≤ shown.stop → shown.stop ≤ bytes.length →
    bytes.Accepts edits window →
    ∃ ascending, Edit.Arranges edits ascending ∧
      bytes.spliceOver edits window = (bytes.woven shown.stop shown.start ascending).decode ∧
      (∀ text, bytes.spliceOver edits window = .ok text →
        Utf8.encode text = bytes.woven shown.stop shown.start ascending) ∧
      (bytes.Boundary shown.start → bytes.Boundary shown.stop →
        (∀ edit ∈ edits, bytes.Boundary edit.span.start ∧ bytes.Boundary edit.span.stop) →
        ∃ text, bytes.spliceOver edits window = .ok text) := by
  intro shown least order most accepted
  obtain ⟨within, apart⟩ := exists_editedIn_iff.mp (accepts_iff_exists_editedIn.mp accepted)
  have arranged := Edit.arranges_sort edits
  have spliced : bytes.spliceOver edits window =
      (bytes.woven shown.stop shown.start (Edit.sort edits).reverse).decode := by
    rw [spliceOver_eq_spliceIn, spliceIn, editedIn_eq_woven_sort least order most within apart,
      Outcome.bind_ok]
  refine ⟨(Edit.sort edits).reverse, arranged, spliced, ?_, ?_⟩
  · intro text ended
    rw [spliced] at ended
    exact decode_eq_ok_iff.mp ended
  · intro starts stops bounded
    have ordered := Edit.ordered_sort order within apart
    have spans : ∀ edit ∈ (Edit.sort edits).reverse,
        bytes.Boundary edit.span.start ∧ bytes.Boundary edit.span.stop :=
      fun edit member => bounded edit (arranged.same.mem_iff.mp member)
    obtain ⟨text, written⟩ :=
      (exists_encode_woven_iff_of_ordered starts most ordered spans).mpr stops
    exact ⟨text, spliced.trans (decode_eq_ok_iff.mpr written)⟩

/-- Of an edit and an insertion at its start the one given last comes first, after an edit
of a character of two bytes. -/
theorem spliceOver_from_left_tie :
    let bytes := Utf8.encode "\u00e9 ab"
    let edits : List Edit := [⟨⟨3, 4⟩, "x"⟩, ⟨⟨0, 2⟩, "\u03c0"⟩, ⟨⟨3, 3⟩, "y"⟩]
    bytes.Accepts edits none ∧ bytes.spliceOver edits none = .ok "\u03c0 yxb" ∧
      ∃ ascending text, Edit.Arranges edits ascending ∧
        bytes.spliceOver edits none = .ok text ∧ Utf8.encode text = bytes.woven 5 0 ascending := by
  intro bytes edits
  have made : bytes.spliceOver edits none = .ok "\u03c0 yxb" := by decide +kernel
  have accepted : bytes.Accepts edits none := by
    intro fault failed
    rw [made] at failed
    cases failed
  have boundary : ∀ offset ∈ [0, 2, 3, 4, 5], bytes.Boundary offset := by
    simp only [List.forall_mem_cons, List.not_mem_nil, false_implies, implies_true, and_true]
    exact ⟨⟨[], ['\u00e9', ' ', 'a', 'b'], by decide, by decide⟩,
      ⟨['\u00e9'], [' ', 'a', 'b'], by decide, by decide⟩,
      ⟨['\u00e9', ' '], ['a', 'b'], by decide, by decide⟩,
      ⟨['\u00e9', ' ', 'a'], ['b'], by decide, by decide⟩,
      ⟨['\u00e9', ' ', 'a', 'b'], [], by decide, by decide⟩⟩
  obtain ⟨ascending, arranged, -, written, readable⟩ :=
    spliceOver_from_left bytes edits none (by decide) (by decide) (by decide) accepted
  obtain ⟨text, ended⟩ := readable (boundary 0 (by decide)) (boundary 5 (by decide)) (by
    simp only [edits, List.forall_mem_cons, List.not_mem_nil, false_implies, implies_true, and_true]
    exact ⟨⟨boundary 3 (by decide), boundary 4 (by decide)⟩,
      ⟨boundary 0 (by decide), boundary 2 (by decide)⟩,
      boundary 3 (by decide), boundary 3 (by decide)⟩)
  exact ⟨accepted, made, ascending, text, arranged, ended, written text ended⟩

/-- **The order of the list does not matter.** Edits with distinct starts give the same
text or the same fault in whatever list they are given. -/
theorem spliceOver_perm (bytes : Bytes) (window : Option Span) {edits others : List Edit}
    (distinct : (edits.map (·.span.start)).Nodup) (same : edits.Perm others) :
    bytes.spliceOver edits window = bytes.spliceOver others window := by
  rw [spliceOver_eq_spliceIn, spliceOver_eq_spliceIn]
  unfold spliceIn editedIn
  rw [Edit.sort_eq_of_perm distinct same]

/-- Two edits that keep apart and two that overlap, each given both ways. -/
theorem spliceOver_perm_swap :
    let bytes := Utf8.encode "abc def ghi"
    bytes.spliceOver [⟨⟨8, 11⟩, "YYYY"⟩, ⟨⟨0, 3⟩, "X"⟩] none = .ok "X def YYYY" ∧
      bytes.spliceOver [⟨⟨3, 8⟩, "b"⟩, ⟨⟨0, 5⟩, "a"⟩] none = .error .overlapping := by
  intro bytes
  constructor
  · have made : bytes.spliceOver [⟨⟨0, 3⟩, "X"⟩, ⟨⟨8, 11⟩, "YYYY"⟩] none = .ok "X def YYYY" := by
      decide +kernel
    rw [← made]
    exact (spliceOver_perm bytes none (by decide) (.swap _ _ _)).symm
  · have failed : bytes.spliceOver [⟨⟨0, 5⟩, "a"⟩, ⟨⟨3, 8⟩, "b"⟩] none = .error .overlapping := by
      decide +kernel
    rw [← failed]
    exact (spliceOver_perm bytes none (by decide) (.swap _ _ _)).symm

end Bytes

end Codebox
