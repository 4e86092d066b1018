import Codebox.Proofs.Faults
import Codebox.Proofs.ReturnPlaces

/-! # Expansion again

A body that is expanded is read afresh when it is expanded again, and an array that was
an element of a returned array may then be returned itself. What is certain is that
every expanded array loses its opening bracket, and that a returned array stands after a
`return` of the text. So a text is left as it is exactly if it returns no array, only
the brackets from the first `return` on count, and repeated expansion comes to an end. It ends
at once if what is written for the returned arrays makes no place where an array may be
returned.
-/

namespace Codebox

variable {source : Bytes} {node : Node} {low high : Int}

/-- The number of opening brackets. -/
def brackets (bytes : Bytes) : Nat :=
  bytes.count 0x5B

@[simp] theorem brackets_append (first second : Bytes) :
    brackets (first ++ second) = brackets first + brackets second :=
  List.count_append

/-- A separator without brackets adds none. -/
theorem brackets_intercalate {separator : Bytes} (plain : brackets separator = 0)
    (texts : List Bytes) :
    brackets (separator.intercalate texts) = brackets texts.flatten := by
  induction texts with
  | nil => rfl
  | cons text rest ih =>
      cases rest with
      | nil => simp
      | cons next others =>
          rw [List.intercalate_cons_cons]
          simp [plain, ih]

/-- The brackets of a text are those before, in and after a part of it. -/
theorem brackets_split {span : Span} (least : 0 ≤ low) (lower : low ≤ span.start)
    (order : span.start ≤ span.stop) (upper : span.stop ≤ high) :
    brackets (source.cut ⟨low, high⟩) = brackets (source.cut ⟨low, span.start⟩) +
      (brackets (source.cut span) + brackets (source.cut ⟨span.stop, high⟩)) := by
  rw [← source.cut_append_cut least lower (Int.le_trans order upper),
    ← source.cut_append_cut (Int.le_trans least lower) order upper, brackets_append,
    brackets_append]

/-- A part has no more brackets than what it lies in. -/
theorem brackets_mono {inner outer : Span} (least : 0 ≤ outer.start)
    (lower : outer.start ≤ inner.start) (order : inner.start ≤ inner.stop)
    (upper : inner.stop ≤ outer.stop) :
    brackets (source.cut inner) ≤ brackets (source.cut outer) := by
  have split : brackets (source.cut outer) = _ := brackets_split least lower order upper
  omega

/-- Nodes in a row have no more brackets than the text that they lie in. -/
theorem brackets_row_le (source : Bytes) {nodes : List Node} (least : 0 ≤ low)
    (row : Node.InRow low high nodes) :
    brackets (nodes.map fun node => source.cut node.span).flatten ≤
      brackets (source.cut ⟨low, high⟩) := by
  induction nodes generalizing low with
  | nil => exact Nat.zero_le _
  | cons node rest ih =>
      obtain ⟨starts, order, row⟩ := row
      have after := ih (by omega) row
      rw [brackets_split least starts order row.le, List.map_cons, List.flatten_cons,
        brackets_append]
      omega

/-- The elements of an array have fewer brackets than the array. -/
theorem Node.Sound.brackets_elements (sound : node.Sound source) (array : node.kind = .array) :
    brackets (node.parts.map fun element => source.cut element.span).flatten <
      brackets (source.cut node.span) := by
  obtain ⟨opening, rest, children, -, unnamed, -, covered⟩ := sound.shaped.array array
  have elements : node.parts.Sublist rest := by
    unfold Node.parts Node.namedChildren
    rw [children, List.filter_cons_of_neg (by simp [unnamed])]
    exact List.filter_sublist.trans List.filter_sublist
  have row := sound.row
  rw [children] at row
  have all := brackets_row_le source sound.starts.nonneg
    (row.sublist ((elements.cons_cons opening).map Node.span))
  rw [List.map_cons, List.flatten_cons, covered, brackets_append] at all
  exact Nat.lt_of_lt_of_le (Nat.lt_add_of_pos_left (by decide)) all

/-- An expanded return has the brackets of its elements. -/
theorem brackets_printedReturn (source : Bytes) (span : Span) (elements : List Node) :
    brackets (printedReturn source span elements) =
      brackets (elements.map fun element => source.cut element.span).flatten := by
  have keyword : brackets (Utf8.encode "return ") = 0 := by decide
  unfold printedReturn
  rw [brackets_append, brackets_append, brackets_intercalate (by decide), keyword, Nat.zero_add]
  split <;> rfl

/-- A returned array loses a bracket where it is expanded. -/
theorem Node.Sound.brackets_printedReturn_lt (sound : node.Sound source) {elements : List Node}
    (returned : node.returnedArray? = some elements) :
    brackets (printedReturn source node.span elements) < brackets (source.cut node.span) := by
  obtain ⟨array, member, kind, rfl⟩ := Node.returnedArray?_eq_some returned
  obtain ⟨lower, order, upper⟩ := sound.part_inside member
  rw [brackets_printedReturn]
  exact Nat.lt_of_lt_of_le ((sound.part member).brackets_elements kind)
    (brackets_mono sound.starts.nonneg lower order upper)

/-- Where every edit loses a bracket, the text with the edits made has as many fewer. -/
theorem brackets_woven_add_length_le {edits : List Edit} (least : 0 ≤ low)
    (ordered : Edit.Ordered low high edits)
    (fewer : ∀ edit ∈ edits,
      brackets (Utf8.encode edit.text) < brackets (source.cut edit.span)) :
    brackets (source.woven high low edits) + edits.length ≤ brackets (source.cut ⟨low, high⟩) := by
  induction edits generalizing low with
  | nil => exact Nat.le_refl _
  | cons edit rest ih =>
      obtain ⟨starts, order, ordered⟩ := ordered
      obtain ⟨first, fewer⟩ := List.forall_mem_cons.mp fewer
      have after := ih (by omega) ordered fewer
      rw [Bytes.woven, brackets_append, brackets_append, List.length_cons,
        brackets_split least starts order ordered.le]
      omega

/-! ## Edits that start with the keyword -/

/-- Edits that start with the keyword, in places where the keyword stands, leave it at the start of
a text. -/
theorem returnWord_woven {edits : List Edit} (least : 0 ≤ low) (most : high ≤ source.length)
    (ordered : Edit.Ordered low high edits) (stands : returnWord <+: source.cut ⟨low, high⟩)
    (each : ∀ edit ∈ edits,
      returnWord <+: source.cut edit.span ∧ returnWord <+: Utf8.encode edit.text) :
    returnWord <+: source.woven high low edits := by
  cases edits with
  | nil => exact stands
  | cons edit rest =>
      obtain ⟨starts, order, ordered⟩ := ordered
      obtain ⟨⟨covered, written⟩, -⟩ := List.forall_mem_cons.mp each
      rw [Bytes.woven]
      by_cases same : low = edit.span.start
      · rw [same, source.cut_self (same ▸ least), List.nil_append]
        exact written.trans (List.prefix_append _ _)
      · have stops : edit.span.stop ≤ high := ordered.le
        have ahead : returnWord <+:
            (source.cut ⟨low, high⟩).drop (edit.span.start - low).toNat := by
          have dropped := Bytes.drop_cut_append least starts (Int.le_trans order stops) most []
          rw [List.append_nil, List.append_nil] at dropped
          rw [dropped, ← source.cut_append_cut (Int.le_trans least starts) order stops]
          exact covered.trans (List.prefix_append _ _)
        have apart := length_returnWord_le stands ahead (by omega)
        have length := source.length_cut least starts (by omega)
        have front : source.cut ⟨low, edit.span.start⟩ <+: source.cut ⟨low, high⟩ := by
          rw [← source.cut_append_cut least starts (Int.le_trans order stops)]
          exact List.prefix_append _ _
        have kept : returnWord <+: source.cut ⟨low, edit.span.start⟩ :=
          List.prefix_of_prefix_length_le stands front (by omega)
        exact kept.trans (List.prefix_append _ _)

/-! ## Returned arrays of a scope -/

/-- The arrays that a scope returns, each by its elements. -/
def returnedArrays (scope : Node) : List (List Node) :=
  (returnsOf scope).filterMap Node.returnedArray?

/-- An edit expands the array that a statement returns. -/
def Edit.Expands (source : Bytes) (node : Node) (edit : Edit) : Prop :=
  ∃ elements, node.returnedArray? = some elements ∧ edit.span = node.span ∧
    Utf8.encode edit.text = printedReturn source node.span elements

/-- The edit of a returned array: it starts with the keyword, where an array may be returned, and
loses a bracket. -/
structure Edit.Expanding (source : Bytes) (edit : Edit) : Prop where
  fewer : brackets (Utf8.encode edit.text) < brackets (source.cut edit.span)
  opens : startsArrayReturn (source.cut edit.span)
  writes : returnWord <+: Utf8.encode edit.text

/-- An expanding edit stands where the keyword does. -/
theorem Edit.Expanding.covers {edit : Edit} (expanding : edit.Expanding source) :
    returnWord <+: source.cut edit.span := by
  obtain ⟨rest, parts, -⟩ := startsArrayReturn_iff.mp expanding.opens
  exact parts ▸ List.prefix_append _ _

/-- The edit of an array that a well-laid statement returns is expanding. -/
theorem Edit.Expands.expanding {edit : Edit} (expands : edit.Expands source node)
    (sound : node.Sound source) : edit.Expanding source := by
  have word : returnWord <+: Utf8.encode "return " := by decide
  obtain ⟨elements, returned, span, written⟩ := expands
  constructor
  · rw [written, span]
    exact sound.brackets_printedReturn_lt returned
  · rw [span]
    exact sound.startsArrayReturn returned
  · rw [written]
    exact word.trans (List.prefix_append _ _)

/-- A place where the keyword stands comes no sooner than the first one. -/
theorem le_start_of_covers {span : Span} {low : Nat} (nonneg : 0 ≤ span.start)
    (order : span.start ≤ span.stop) (covers : returnWord <+: source.cut span)
    (least : ∀ count, returnWord <+: source.drop count → low ≤ count) : low ≤ span.start := by
  have covered : returnWord <+: source.cut ⟨span.start, span.stop⟩ := covers
  rw [source.cut_eq nonneg order] at covered
  have reached := least _ (covered.trans (List.take_prefix _ _))
  omega

/-- The brackets of a part of a text that starts with the keyword come after the first one. -/
theorem brackets_cut_le_fromFirst {span : Span} (nonneg : 0 ≤ span.start)
    (order : span.start ≤ span.stop) (most : span.stop ≤ source.length)
    (covers : returnWord <+: source.cut span) :
    brackets (source.cut span) ≤ brackets (Bytes.fromFirst returnWord source) := by
  obtain ⟨front, split, least, -⟩ := Bytes.exists_fromFirst returnWord source
  have lower := le_start_of_covers nonneg order covers least
  rw [← (Bytes.cut_of_append split).2]
  exact brackets_mono (Int.natCast_nonneg _) lower order most

/-- Expanding edits take as many brackets from what follows the first keyword of a text. -/
theorem brackets_fromFirst_woven {edits : List Edit}
    (ordered : Edit.Ordered 0 source.length edits)
    (expanding : ∀ edit ∈ edits, edit.Expanding source) :
    brackets (Bytes.fromFirst returnWord (source.woven source.length 0 edits)) + edits.length ≤
      brackets (Bytes.fromFirst returnWord source) := by
  cases edits with
  | nil =>
      rw [Bytes.woven, Bytes.cut_whole]
      exact Nat.le_refl _
  | cons edit rest =>
      obtain ⟨nonneg, order, ordered⟩ := ordered
      have covers := (expanding edit List.mem_cons_self).covers
      obtain ⟨front, split, least, stands⟩ := Bytes.exists_fromFirst returnWord source
      have lower := le_start_of_covers nonneg order covers least
      have stops : edit.span.stop ≤ source.length := ordered.le
      have ordered : Edit.Ordered front.length source.length (edit :: rest) :=
        ⟨lower, order, ordered⟩
      have stands : returnWord <+: Bytes.fromFirst returnWord source := by
        refine stands.resolve_left fun empty => ?_
        have covered := brackets_cut_le_fromFirst nonneg order stops covers
        have fewer := (expanding edit List.mem_cons_self).fewer
        rw [empty] at covered
        exact Nat.not_lt_zero _ (Nat.lt_of_lt_of_le fewer covered)
      obtain ⟨ahead, back⟩ := Bytes.cut_of_append split
      have kept : returnWord <+: source.woven source.length front.length (edit :: rest) :=
        returnWord_woven (Int.natCast_nonneg _) (Int.le_refl _) ordered (back ▸ stands)
          fun edit member => ⟨(expanding edit member).covers, (expanding edit member).writes⟩
      have joined := source.cut_append_woven (Int.le_refl 0) (Int.natCast_nonneg _) ordered
      rw [ahead] at joined
      have count := brackets_woven_add_length_le (Int.natCast_nonneg _) ordered
        fun edit member => (expanding edit member).fewer
      rw [back] at count
      rw [← joined, Bytes.fromFirst_of_front (fun count found => ?_) stands kept]
      · exact count
      · rw [← split] at found
        exact least count found

/-- Expanding edits make no difference to what comes before them. -/
theorem arrayReturnsBefore_woven {edits : List Edit} (least : 0 ≤ low)
    (ordered : Edit.Ordered low high edits) (expanding : ∀ edit ∈ edits, edit.Expanding source)
    (front : Bytes) :
    arrayReturnsBefore (source.woven high low edits) front =
      arrayReturnsBefore (source.cut ⟨low, high⟩) front := by
  cases edits with
  | nil => rfl
  | cons edit rest =>
      obtain ⟨starts, order, ordered⟩ := ordered
      obtain ⟨first, -⟩ := List.forall_mem_cons.mp expanding
      have written : returnWord <+: Utf8.encode edit.text ++
          source.woven high edit.span.stop rest := first.writes.trans (List.prefix_append _ _)
      have covered : returnWord <+: source.cut ⟨edit.span.start, high⟩ := by
        rw [← source.cut_append_cut (Int.le_trans least starts) order ordered.le]
        exact first.covers.trans (List.prefix_append _ _)
      rw [Bytes.woven, arrayReturnsBefore_append_word written,
        ← source.cut_append_cut least starts (Int.le_trans order ordered.le),
        arrayReturnsBefore_append_word covered]

/-- Where the text that expanding edits write makes no place where an array may be returned, there
are as many fewer such places. -/
theorem arrayReturns_woven {edits : List Edit} (least : 0 ≤ low)
    (ordered : Edit.Ordered low high edits) (expanding : ∀ edit ∈ edits, edit.Expanding source)
    (settled : ∀ edit ∈ edits,
      arrayReturnsBefore (source.cut ⟨edit.span.stop, high⟩) (Utf8.encode edit.text) = 0) :
    arrayReturns (source.woven high low edits) + edits.length ≤
      arrayReturns (source.cut ⟨low, high⟩) := by
  induction edits generalizing low with
  | nil => exact Nat.le_refl _
  | cons edit rest ih =>
      obtain ⟨starts, order, ordered⟩ := ordered
      obtain ⟨first, expanding⟩ := List.forall_mem_cons.mp expanding
      obtain ⟨here, settled⟩ := List.forall_mem_cons.mp settled
      have after := ih (by omega) ordered expanding settled
      have stops : edit.span.stop ≤ high := ordered.le
      have quiet := (arrayReturnsBefore_woven (by omega) ordered expanding _).trans here
      have lost : 0 < arrayReturnsBefore (source.cut ⟨edit.span.stop, high⟩)
          (source.cut ⟨edit.span.start, edit.span.stop⟩) := arrayReturnsBefore_pos first.opens _
      have written : returnWord <+: Utf8.encode edit.text ++
          source.woven high edit.span.stop rest := first.writes.trans (List.prefix_append _ _)
      have covered : returnWord <+: source.cut ⟨edit.span.start, edit.span.stop⟩ ++
          source.cut ⟨edit.span.stop, high⟩ := first.covers.trans (List.prefix_append _ _)
      rw [Bytes.woven, arrayReturns_append, arrayReturns_append, quiet,
        arrayReturnsBefore_of_word written, List.length_cons,
        ← source.cut_append_cut least starts (Int.le_trans order stops),
        ← source.cut_append_cut (Int.le_trans least starts) order stops, arrayReturns_append,
        arrayReturns_append, arrayReturnsBefore_of_word covered]
      omega

/-- Every returned array makes one edit. -/
theorem returnEdits_expands {returns : List Edit}
    (expanded : returnEdits source node = .ok returns) :
    returns.length = (returnedArrays node).length ∧
      ∀ edit ∈ returns, ∃ inner ∈ returnsOf node, edit.Expands source inner := by
  obtain ⟨found, each, same⟩ := Outcome.bind_eq_ok_iff.mp expanded
  cases same
  have members : ∀ inner ∈ returnsOf node, inner.kind = .returnStatement :=
    fun inner member => of_decide_eq_true (List.mem_filter.mp member).2
  have edits := Outcome.mapM_eq_ok_iff.mp each
  clear expanded each
  unfold returnedArrays
  generalize returnsOf node = nodes at members edits
  induction edits with
  | nil => simp
  | @cons inner edit rest others ended _ ih =>
      obtain ⟨kind, members⟩ := List.forall_mem_cons.mp members
      obtain ⟨length, expands⟩ := ih members
      have later : ∀ edit ∈ others.filterMap id, ∃ other ∈ inner :: rest,
          edit.Expands source other := by
        intro edit member
        obtain ⟨other, among, found⟩ := expands edit member
        exact ⟨other, List.mem_cons_of_mem _ among, found⟩
      have result := returnEdit_eq kind ended
      cases returned : inner.returnedArray? with
      | none =>
          rw [returned] at result
          subst result
          rw [List.filterMap_cons_none returned]
          exact ⟨length, later⟩
      | some elements =>
          rw [returned] at result
          obtain ⟨text, rfl, written⟩ := result
          rw [List.filterMap_cons_some returned]
          refine ⟨congrArg Nat.succ length, List.forall_mem_cons.mpr ⟨?_, later⟩⟩
          exact ⟨inner, List.mem_cons_self, elements, returned, rfl, written⟩

/-- A statement that returns no array is left alone. -/
theorem returnEdit_of_none (returns : node.kind = .returnStatement)
    (absent : node.returnedArray? = none) : returnEdit source node = .ok none := by
  have elements : returnedElements node = .ok none := by
    unfold Node.returnedArray? at absent
    rw [if_pos returns] at absent
    unfold returnedElements returnArgument? arrayElements
    cases first : node.parts.head? with
    | none => rfl
    | some argument =>
        have other : argument.kind ≠ .array := by simpa [first] using absent
        exact if_neg other
  unfold returnEdit
  rw [elements]
  rfl

/-- A scope that returns no array is left alone. -/
theorem returnEdits_of_nil (settled : returnedArrays node = []) :
    returnEdits source node = .ok [] := by
  have each : (returnsOf node).mapM (returnEdit source) =
      .ok ((returnsOf node).map fun _ => none) := by
    apply Outcome.mapM_eq_ok_iff.mpr
    rw [List.forall₂_map_right_iff]
    apply List.forall₂_same.mpr
    intro inner member
    have kind := (List.mem_filter.mp member).2
    apply returnEdit_of_none
    · simpa using kind
    · exact List.filterMap_eq_nil_iff.mp settled inner member
  unfold returnEdits
  rw [each, Outcome.bind_ok, List.filterMap_map]
  exact congrArg Except.ok (List.filterMap_eq_nil_iff.mpr fun _ _ => rfl)

/-! ## Texts -/

/-- The statements of a text whose expansion makes a place where an array may be returned. -/
def returnsAgain (text : String) : List Node :=
  match Document.parse text with
  | .ok document =>
    (returnsOf document.root).filter fun node =>
      (node.returnedArray?.map fun elements =>
        arrayReturnsBefore (document.source.cut ⟨node.span.stop, document.source.length⟩)
          (printedReturn document.source node.span elements)).any (0 < ·)
  | .error _ => []

/-- The arrays that a text returns. A text that is no script returns none. -/
def arraysIn (text : String) : List (List Node) :=
  match Document.parse text with
  | .ok document => returnedArrays document.root
  | .error _ => []

/-- How many opening brackets a text has from its first `return` on. -/
def returnBrackets (text : String) : Nat :=
  brackets (Bytes.fromFirst returnWord (Utf8.encode text))

/-- Not more brackets come after the first `return` than there are. -/
theorem returnBrackets_le (text : String) :
    returnBrackets text ≤ brackets (Utf8.encode text) := by
  obtain ⟨front, split, -⟩ := Bytes.exists_fromFirst returnWord (Utf8.encode text)
  have joined := congrArg brackets split
  rw [brackets_append] at joined
  exact joined ▸ Nat.le_add_left _ _

variable {body expanded : String}

/-- A text that is no script is left as it is. -/
theorem expandReturns_of_error {fault : Fault} (failed : Document.parse body = .error fault) :
    (expandReturns body).outcome = .ok body := by
  unfold expandReturns
  rw [failed]
  rfl

/-- A script is expanded by the edits of its own returns. -/
theorem expandReturns_of_parse {document : Document} (parsed : Document.parse body = .ok document) :
    (expandReturns body).outcome =
      returnEdits document.source document.root >>= document.source.splice := by
  unfold expandReturns
  rw [parsed]
  rfl

/-- The edits that make one text of another by expanding its returned arrays. -/
structure Expansion (body expanded : String) (edits : List Edit) : Prop where
  ordered : Edit.Ordered 0 (Utf8.encode body).length edits
  length : edits.length = (arraysIn body).length
  expanding : ∀ edit ∈ edits, edit.Expanding (Utf8.encode body)
  settled : returnsAgain body = [] → ∀ edit ∈ edits,
    arrayReturnsBefore ((Utf8.encode body).cut ⟨edit.span.stop, (Utf8.encode body).length⟩)
      (Utf8.encode edit.text) = 0
  woven : Utf8.encode expanded = (Utf8.encode body).woven (Utf8.encode body).length 0 edits

/-- What expansion makes of a text is made by the edits of its returned arrays. -/
theorem exists_expansion (ended : (expandReturns body).outcome = .ok expanded) :
    ∃ edits, Expansion body expanded edits := by
  cases parsed : Document.parse body with
  | error fault =>
      rw [expandReturns_of_error parsed] at ended
      cases ended
      have none : arraysIn body = [] := by
        unfold arraysIn
        rw [parsed]
      refine ⟨[], Int.natCast_nonneg _, by rw [none]; rfl, by simp, by simp, ?_⟩
      rw [Bytes.woven, Bytes.cut_whole]
  | ok document =>
      have sound := Document.sound_of_parse parsed
      have same := (Document.parse_eq_ok parsed).1
      rw [expandReturns_of_parse parsed] at ended
      obtain ⟨returns, found, spliced⟩ := Outcome.bind_eq_ok_iff.mp ended
      have tidy := Document.tidy_returnEdits sound found
      obtain ⟨length, expands⟩ := returnEdits_expands found
      obtain ⟨text, splicedAgain, written⟩ := Bytes.exists_splice tidy sound.starts.ends
      rw [spliced] at splicedAgain
      cases splicedAgain
      have inside : document.root.Sound (Utf8.encode body) := same ▸ sound
      rw [same] at tidy expands written
      refine ⟨returns, tidy.ordered, ?_, ?_, ?_, written⟩
      · rw [length, arraysIn, parsed]
      · intro edit member
        obtain ⟨inner, among, found⟩ := expands edit member
        exact found.expanding (inside.mem_returnsOf among).1
      · intro settled edit member
        obtain ⟨inner, among, elements, returned, span, found⟩ := expands edit member
        rw [returnsAgain, parsed] at settled
        have quiet := List.filter_eq_nil_iff.mp settled inner among
        rw [span, found]
        simpa [returned, same] using quiet

/-- Every array that a text returns costs a bracket. -/
theorem brackets_expanded (ended : (expandReturns body).outcome = .ok expanded) :
    brackets (Utf8.encode expanded) + (arraysIn body).length ≤ brackets (Utf8.encode body) := by
  obtain ⟨edits, made⟩ := exists_expansion ended
  have count := brackets_woven_add_length_le (Int.le_refl 0) made.ordered
    fun edit member => (made.expanding edit member).fewer
  rw [← made.woven, made.length, Bytes.cut_whole] at count
  exact count

/-- A text that returns no array is left as it is. -/
theorem expandReturns_of_nil (settled : arraysIn body = []) :
    (expandReturns body).outcome = .ok body := by
  unfold arraysIn at settled
  cases parsed : Document.parse body with
  | error fault => exact expandReturns_of_error parsed
  | ok document =>
      have sound := Document.sound_of_parse parsed
      rw [parsed] at settled
      obtain ⟨text, spliced, written⟩ :=
        Bytes.exists_splice (.nil (Int.natCast_nonneg _)) sound.starts.ends
      rw [Bytes.woven, Bytes.cut_whole, (Document.parse_eq_ok parsed).1] at written
      rw [expandReturns_of_parse parsed, returnEdits_of_nil settled, Outcome.bind_ok, spliced,
        Utf8.encode_injective written]

/-- A text is left as it is exactly if it returns no array. -/
theorem expandReturns_eq_self_iff :
    (expandReturns body).outcome = .ok body ↔ arraysIn body = [] := by
  constructor
  · intro same
    have count := brackets_expanded same
    exact List.eq_nil_of_length_eq_zero (by omega)
  · exact expandReturns_of_nil

/-- A text that is expanded time after time. -/
def expandTimes : Nat → String → Except Fault String
  | 0, body => .ok body
  | rounds + 1, body => (expandReturns body).outcome >>= expandTimes rounds

/-- A text that returns no array stays as it is, however often it is expanded. -/
theorem expandTimes_of_nil (settled : arraysIn body = []) (rounds : Nat) :
    expandTimes rounds body = .ok body := by
  induction rounds with
  | zero => rfl
  | succ rounds ih => rw [expandTimes, expandReturns_of_nil settled, Outcome.bind_ok, ih]

/-- Every array that a text returns costs a bracket that comes after its first `return`. -/
theorem returnBrackets_expanded (ended : (expandReturns body).outcome = .ok expanded) :
    returnBrackets expanded + (arraysIn body).length ≤ returnBrackets body := by
  obtain ⟨edits, made⟩ := exists_expansion ended
  have count := brackets_fromFirst_woven made.ordered made.expanding
  rw [← made.woven, made.length] at count
  exact count

/-- Every array that a text returns costs a place where one may be returned, if no new place is
made. -/
theorem arrayReturns_expanded (ended : (expandReturns body).outcome = .ok expanded)
    (settled : returnsAgain body = []) :
    arrayReturns (Utf8.encode expanded) + (arraysIn body).length ≤
      arrayReturns (Utf8.encode body) := by
  obtain ⟨edits, made⟩ := exists_expansion ended
  have count := arrayReturns_woven (Int.le_refl 0) made.ordered made.expanding
    (made.settled settled)
  rw [← made.woven, made.length, Bytes.cut_whole] at count
  exact count

/-- A text returns no array if none of its statements does. -/
theorem arraysIn_eq_nil (absent : ∀ node : Node, node.Sound (Utf8.encode body) →
    node.kind = .returnStatement → node.returnedArray? = none) : arraysIn body = [] := by
  unfold arraysIn
  cases parsed : Document.parse body with
  | error fault => rfl
  | ok document =>
      have sound : document.root.Sound (Utf8.encode body) :=
        (Document.parse_eq_ok parsed).1 ▸ Document.sound_of_parse parsed
      apply List.filterMap_eq_nil_iff.mpr
      intro inner member
      obtain ⟨soundInner, kind⟩ := sound.mem_returnsOf member
      exact absent inner soundInner kind

/-- A text that returns an array has a bracket after its first `return`. -/
theorem arraysIn_eq_nil_of_returnBrackets (few : returnBrackets body = 0) :
    arraysIn body = [] := by
  refine arraysIn_eq_nil fun node sound kind => ?_
  have covered := brackets_cut_le_fromFirst sound.starts.nonneg sound.order
    sound.stops.le_length (sound.shaped.keyword kind)
  change _ ≤ returnBrackets body at covered
  cases returned : node.returnedArray? with
  | none => rfl
  | some elements =>
      have fewer := sound.brackets_printedReturn_lt returned
      omega

/-- A text that returns an array has a place where one may be returned. -/
theorem arraysIn_eq_nil_of_arrayReturns (none : arrayReturns (Utf8.encode body) = 0) :
    arraysIn body = [] := by
  refine arraysIn_eq_nil fun node sound _ => ?_
  cases returned : node.returnedArray? with
  | none => rfl
  | some elements =>
      have place := arrayReturns_pos sound.starts.nonneg sound.order sound.stops.le_length
        (sound.startsArrayReturn returned)
      omega

/-- Nothing changes after as many rounds as there are brackets from the first `return` on. -/
theorem expandTimes_succ {rounds : Nat} (enough : returnBrackets body ≤ rounds) :
    expandTimes (rounds + 1) body = expandTimes rounds body := by
  induction rounds generalizing body with
  | zero =>
      have settled : arraysIn body = [] := arraysIn_eq_nil_of_returnBrackets (by omega)
      rw [expandTimes_of_nil settled, expandTimes_of_nil settled]
  | succ rounds ih =>
      rw [expandTimes, expandTimes]
      cases ended : (expandReturns body).outcome with
      | error fault => rfl
      | ok expanded =>
          have count := returnBrackets_expanded ended
          rw [Outcome.bind_ok, Outcome.bind_ok]
          by_cases settled : arraysIn body = []
          · rw [expandReturns_of_nil settled] at ended
            cases ended
            rw [expandTimes_of_nil settled, expandTimes_of_nil settled]
          · apply ih
            have some := List.length_pos_iff.mpr settled
            omega

/-- **A second expansion changes nothing exactly if no array is returned after the
first.** The first one takes a bracket for every array that it expands, and takes it from
what follows the first `return` of the body. So nothing is left to a second one if all
brackets from there on are those of returned arrays. Nor is anything left if, whatever
brackets there are, every place where an array may be returned is that of a returned array,
and what is written for the arrays makes no such place: no returned array has an element
with one, and none has a first element that starts with a bracket or a comment. In any case
there is nothing left after as many rounds as there are brackets from the first `return` on. -/
theorem expandReturns_idempotent_iff (ended : (expandReturns body).outcome = .ok expanded) :
    ((expandReturns expanded).outcome = .ok expanded ↔ arraysIn expanded = []) ∧
    brackets (Utf8.encode expanded) + (arraysIn body).length ≤ brackets (Utf8.encode body) ∧
    returnBrackets expanded + (arraysIn body).length ≤ returnBrackets body ∧
    returnBrackets body ≤ brackets (Utf8.encode body) ∧
    (returnBrackets body = (arraysIn body).length →
      (expandReturns expanded).outcome = .ok expanded) ∧
    (arrayReturns (Utf8.encode body) = (arraysIn body).length → returnsAgain body = [] →
      (expandReturns expanded).outcome = .ok expanded) ∧
    ∀ rounds, returnBrackets body ≤ rounds →
      expandTimes (rounds + 1) body = expandTimes rounds body := by
  have count := returnBrackets_expanded ended
  refine ⟨expandReturns_eq_self_iff, brackets_expanded ended, count, returnBrackets_le body, ?_, ?_,
    fun rounds enough => expandTimes_succ enough⟩
  · intro all
    exact expandReturns_of_nil (arraysIn_eq_nil_of_returnBrackets (by omega))
  · intro all settled
    have places := arrayReturns_expanded ended settled
    exact expandReturns_of_nil (arraysIn_eq_nil_of_arrayReturns (by omega))

/-- Three arrays inside each other, of which the first round takes one, after a subscript that
counts for nothing; and a returned array with a subscript and a string in it. -/
theorem expandReturns_idempotent_iff_nested :
    (expandReturns "x[0]; return [[[a]]];").outcome = .ok "x[0]; return [[a]];" ∧
    ((expandReturns "x[0]; return [[a]];").outcome = .ok "x[0]; return [[a]];" ↔
      arraysIn "x[0]; return [[a]];" = []) ∧
    expandTimes 4 "x[0]; return [[[a]]];" = expandTimes 3 "x[0]; return [[[a]]];" ∧
    (expandReturns "return [x[0], '[']; // [").outcome = .ok "return x[0], '['; // [" ∧
    (expandReturns "return x[0], '['; // [").outcome = .ok "return x[0], '['; // [" := by
  have ended : (expandReturns "x[0]; return [[[a]]];").outcome = .ok "x[0]; return [[a]];" := by
    decide +kernel
  have endedPlain : (expandReturns "return [x[0], '[']; // [").outcome =
      .ok "return x[0], '['; // [" := by decide +kernel
  obtain ⟨same, -, -, -, -, -, rounds⟩ := expandReturns_idempotent_iff ended
  obtain ⟨-, -, -, -, -, once, -⟩ := expandReturns_idempotent_iff endedPlain
  exact ⟨ended, same, rounds 3 (by decide), endedPlain,
    once (by decide +kernel) (by decide +kernel)⟩

/-- An array in a returned array is returned in its turn, and may then be refused. -/
theorem expandReturns_twice_differs :
    (expandReturns "return [[a]];").outcome = .ok "return [a];" ∧
    (expandReturns "return [a];").outcome = .ok "return a;" ∧
    (expandReturns "return [[, a]];").outcome = .ok "return [, a];" ∧
    (expandReturns "return [, a];").outcome = .error (.unsupported .arrayHole ⟨1, 9⟩) := by
  decide +kernel

end Codebox
