import Codebox.Proofs.Earliest
import Codebox.Proofs.Expansion

/-! # Expansion in place and on its own

The returned arrays of a function can be expanded in the script, in the window of its
body, or in the text between its braces, which is then read as a script of its own. Both
ways do the same with the returns that they find. An outline says where these stand and
where their elements stand, and the outlines and the text decide what comes out. Where
the two readings give the same outlines and no array is refused, the two ways differ
exactly if the block takes in a comment after its closing brace. The outlines themselves
may differ in the last return: at the end of a text it takes in a comment that it leaves
alone before a closing brace. Where the text has no place at which an array may be returned,
there are no outlines in either reading.
-/

namespace Codebox

variable {source : Bytes} {node : Node} {origin low high : Int}

/-- A span as seen from an origin. -/
def Span.seenFrom (origin : Int) (span : Span) : Span :=
  ⟨span.start - origin, span.stop - origin⟩

/-- Where a return of an array and the elements of the array stand, and whether the
array has a hole. -/
structure Outline where
  span : Span
  elements : List Span
  holed : Bool
  deriving DecidableEq

namespace Outline

/-- The outline of a return of this array, as seen from an origin. -/
def ofArray (origin : Int) (node array : Node) : Outline where
  span := node.span.seenFrom origin
  elements := array.parts.map (·.span.seenFrom origin)
  holed := (firstHole? .openBracket array.children).isSome

/-- The outline of a return statement, if it returns an array. -/
def of? (origin : Int) (node : Node) : Option Outline :=
  (node.parts.head?.filter (·.kind = .array)).map (ofArray origin node)

/-- The outlines of the arrays that a scope returns, as seen from an origin. -/
def all (origin : Int) (scope : Node) : List Outline :=
  (returnsOf scope).filterMap (of? origin)

/-- A return of several values in the place of an outline. -/
def printed (text : Bytes) (outline : Outline) : Bytes :=
  Utf8.encode "return " ++
    ((Utf8.encode ", ").intercalate (outline.elements.map text.cut) ++
      if (text.cut outline.span).getLast? = some 0x3B then [0x3B] else [])

/-- A text from an offset on, with the arrays in outline expanded. -/
def expandedFrom (text : Bytes) : Int → List Outline → Bytes
  | offset, [] => text.cut ⟨offset, text.length⟩
  | offset, outline :: rest =>
    text.cut ⟨offset, outline.span.start⟩ ++
      (outline.printed text ++ expandedFrom text outline.span.stop rest)

/-- The result is a text with the arrays in outline expanded, and these bytes after it,
or a refusal if one of the arrays has a hole. -/
def Expands (text after : Bytes) (outlines : List Outline) (result : Except Fault String) : Prop :=
  if outlines.any (·.holed) then ∃ location, result = .error (.unsupported .arrayHole location)
  else result = (expandedFrom text 0 outlines ++ after).decode

end Outline

/-! ## Windows -/

/-- A part of a window is that part of the text. -/
theorem Bytes.cut_window {span : Span} (least : 0 ≤ low) (lower : low ≤ span.start)
    (order : span.start ≤ span.stop) (upper : span.stop ≤ high) (most : high ≤ source.length) :
    (source.cut ⟨low, high⟩).cut (span.seenFrom low) = source.cut span := by
  have head := drop_cut_append least lower (Int.le_trans order upper) most []
  have inner := take_cut_append (Int.le_trans least lower) order upper most []
  rw [List.append_nil, List.append_nil] at head
  rw [List.append_nil] at inner
  change (source.cut ⟨low, high⟩).cut ⟨span.start - low, span.stop - low⟩ = _
  rw [cut_eq _ (by omega) (by omega), head]
  change _ = source.cut ⟨span.start, span.stop⟩
  rw [← inner]
  congr 1
  omega

namespace Outline

variable {outline : Outline}

/-- The outline of a statement is that of the array it returns. -/
theorem of?_eq_some (found : of? origin node = some outline) :
    ∃ array, node.parts.head? = some array ∧ array.kind = .array ∧
      outline = ofArray origin node array := by
  obtain ⟨array, argument, same⟩ := Option.map_eq_some_iff.mp found
  obtain ⟨argument, kind⟩ := Option.filter_eq_some_iff.mp argument
  exact ⟨array, argument, by simpa using kind, same.symm⟩

/-- A statement without an outline returns no array. -/
theorem returnedArray?_of_none (absent : of? origin node = none) : node.returnedArray? = none := by
  unfold Node.returnedArray?
  split
  · rw [Option.map_eq_none_iff]
    exact Option.map_eq_none_iff.mp absent
  · rfl

/-- A statement that returns no array has no outline. -/
theorem of?_of_none (returns : node.kind = .returnStatement)
    (absent : node.returnedArray? = none) : of? origin node = none := by
  unfold Node.returnedArray? at absent
  rw [if_pos returns, Option.map_eq_none_iff] at absent
  exact Option.map_eq_none_iff.mpr absent

/-- Nothing is outlined in a window without a place where an array may be returned. -/
theorem all_eq_nil {scope : Node} (sound : scope.Sound source)
    (row : Node.InRow low high (returnsOf scope)) (least : 0 ≤ low) (most : high ≤ source.length)
    (none : arrayReturns (source.cut ⟨low, high⟩) = 0) : all origin scope = [] := by
  apply List.filterMap_eq_nil_iff.mpr
  intro inner member
  obtain ⟨soundInner, kind⟩ := sound.mem_returnsOf member
  obtain ⟨lower, order, upper⟩ := row.inside (List.mem_map_of_mem member)
  cases returned : inner.returnedArray? with
  | none => exact of?_of_none kind returned
  | some elements =>
      have starts := soundInner.startsArrayReturn returned
      have length := source.length_cut least (Int.le_trans lower (Int.le_trans order upper)) most
      rw [← Bytes.cut_window least lower order upper most] at starts
      have place := arrayReturns_pos (Int.sub_nonneg_of_le lower) (Int.sub_le_sub_right order low)
        (by rw [length]; exact Int.sub_le_sub_right upper low) starts
      omega

/-- An array with a hole is refused. -/
theorem returnEdit_of_holed (source : Bytes) (found : of? origin node = some outline)
    (holed : outline.holed) :
    ∃ location, returnEdit source node = .error (.unsupported .arrayHole location) := by
  obtain ⟨array, argument, kind, rfl⟩ := of?_eq_some found
  obtain ⟨comma, hole⟩ := Option.isSome_iff_exists.mp holed
  have refused : returnedElements node = .error (.unsupported .arrayHole comma.location) := by
    unfold returnedElements returnArgument? arrayElements
    simp only [argument, kind, hole, if_true]
  refine ⟨comma.location, ?_⟩
  unfold returnEdit
  rw [refused, Outcome.bind_error]

/-- In a window, an outline prints as the return does in the text. -/
theorem printed_ofArray {array : Node} (sound : node.Sound source) (member : array ∈ node.parts)
    (least : 0 ≤ low) (lower : low ≤ node.span.start) (upper : node.span.stop ≤ high)
    (most : high ≤ source.length) :
    (ofArray low node array).printed (source.cut ⟨low, high⟩) =
      printedReturn source node.span array.parts := by
  have inside := sound.part_inside member
  have elements : (array.parts.map (·.span.seenFrom low)).map (source.cut ⟨low, high⟩).cut =
      array.parts.map fun element => source.cut element.span := by
    rw [List.map_map]
    apply List.map_congr_left
    intro element among
    have within := (sound.part member).part_inside among
    exact Bytes.cut_window least (by omega) within.2.1 (by omega) most
  unfold printed printedReturn ofArray
  rw [elements, Bytes.cut_window least lower sound.order upper most]

/-- An array without a hole is expanded as its outline says. -/
theorem returnEdit_of_whole (sound : node.Sound source) (returns : node.kind = .returnStatement)
    (found : of? low node = some outline) (whole : ¬ outline.holed) :
    ∃ text, returnEdit source node = .ok (some ⟨node.span, text⟩) ∧
      ∀ high, 0 ≤ low → low ≤ node.span.start → node.span.stop ≤ high → high ≤ source.length →
        Utf8.encode text = outline.printed (source.cut ⟨low, high⟩) := by
  obtain ⟨array, argument, kind, rfl⟩ := of?_eq_some found
  have full : firstHole? .openBracket array.children = none := by
    simpa [ofArray] using whole
  have elements : returnedElements node = .ok (some array.parts) := by
    unfold returnedElements returnArgument? arrayElements
    simp only [argument, kind, full, if_true]
  obtain ⟨edit, expanded⟩ := sound.exists_returnEdit elements
  have result := returnEdit_eq returns expanded
  rw [returnedArray?_eq returns elements] at result
  obtain ⟨text, rfl, written⟩ := result
  refine ⟨text, expanded, ?_⟩
  intro high least lower upper most
  rw [written, printed_ofArray sound (List.mem_of_mem_head? argument) least lower upper most]

/-- The edits of returns give what their outlines give in the window. -/
theorem woven_eq_expandedFrom {nodes : List Node} {found : List (Option Edit)} {offset : Int}
    (members : ∀ inner ∈ nodes, inner.Sound source ∧ inner.kind = .returnStatement)
    (each : List.Forall₂ (fun inner edit => returnEdit source inner = .ok edit) nodes found)
    (least : 0 ≤ low) (lower : low ≤ offset) (most : high ≤ source.length)
    (ordered : Edit.Ordered offset high (found.filterMap id)) :
    source.woven high offset (found.filterMap id) =
      expandedFrom (source.cut ⟨low, high⟩) (offset - low) (nodes.filterMap (of? low)) := by
  induction each generalizing offset with
  | nil =>
      have order : offset ≤ high := ordered
      have length := source.length_cut least (Int.le_trans lower order) most
      change source.cut ⟨offset, high⟩ =
        (source.cut ⟨low, high⟩).cut ⟨offset - low, (source.cut ⟨low, high⟩).length⟩
      rw [length]
      exact (Bytes.cut_window least lower order (Int.le_refl _) most).symm
  | @cons inner edit rest others ended _ ih =>
      obtain ⟨⟨sound, kind⟩, members⟩ := List.forall_mem_cons.mp members
      cases outlined : of? low inner with
      | none =>
          rw [returnEdit_of_none kind (returnedArray?_of_none outlined)] at ended
          cases ended
          rw [List.filterMap_cons_none outlined]
          exact ih members lower ordered
      | some outline =>
          by_cases holed : outline.holed
          · obtain ⟨location, refused⟩ := returnEdit_of_holed source outlined holed
            rw [refused] at ended
            cases ended
          · obtain ⟨text, expanded, written⟩ := returnEdit_of_whole sound kind outlined holed
            rw [expanded] at ended
            cases ended
            obtain ⟨starts, order, ordered⟩ := ordered
            have start : low ≤ inner.span.start := Int.le_trans lower starts
            have stop : inner.span.stop ≤ high := ordered.le
            have before :
                (source.cut ⟨low, high⟩).cut (Span.seenFrom low ⟨offset, inner.span.start⟩) =
                  source.cut ⟨offset, inner.span.start⟩ :=
              Bytes.cut_window least lower starts (Int.le_trans order stop) most
            have after := ih members (Int.le_trans start order) ordered
            rw [List.filterMap_cons_some outlined, expandedFrom,
              ← written high least start stop most]
            obtain ⟨array, -, -, rfl⟩ := of?_eq_some outlined
            change source.cut ⟨offset, inner.span.start⟩ ++ (Utf8.encode text ++
              source.woven high inner.span.stop (others.filterMap id)) = _
            rw [← before, after]
            rfl

/-- A hole in a returned array stops the expansion of its scope. -/
theorem returnEdits_of_holed {scope : Node} (sound : scope.Sound source)
    (holed : (all origin scope).any (·.holed)) :
    ∃ location, returnEdits source scope = .error (.unsupported .arrayHole location) := by
  obtain ⟨outline, member, holed⟩ := List.any_eq_true.mp holed
  obtain ⟨inner, among, outlined⟩ := List.mem_filterMap.mp member
  cases expanded : returnEdits source scope with
  | error fault =>
      obtain ⟨location, rfl⟩ := sound.returnEdits_error expanded
      exact ⟨location, rfl⟩
  | ok returns =>
      obtain ⟨edit, single⟩ := returnEdit_of_returnEdits expanded (List.mem_filter.mp among).1
        (sound.mem_returnsOf among).2
      obtain ⟨location, refused⟩ := returnEdit_of_holed source outlined holed
      rw [refused] at single
      cases single

/-- Without holes, each return of a scope can be expanded. -/
theorem exists_returnEdit_of_whole {scope inner : Node} (sound : scope.Sound source)
    (whole : ¬ (all origin scope).any (·.holed)) (among : inner ∈ returnsOf scope) :
    ∃ edit, returnEdit source inner = .ok edit := by
  obtain ⟨soundInner, kind⟩ := sound.mem_returnsOf among
  cases outlined : of? origin inner with
  | none => exact ⟨none, returnEdit_of_none kind (returnedArray?_of_none outlined)⟩
  | some outline =>
      have member : outline ∈ all origin scope := List.mem_filterMap.mpr ⟨inner, among, outlined⟩
      obtain ⟨text, expanded, -⟩ := returnEdit_of_whole soundInner kind outlined
        fun holed => whole (List.any_eq_true.mpr ⟨outline, member, holed⟩)
      exact ⟨some ⟨inner.span, text⟩, expanded⟩

/-- The returned arrays of a scope are expanded as their outlines say, in any window of
the text that holds them. -/
theorem expands_window {scope : Node} {after : Bytes} (sound : scope.Sound source)
    (least : 0 ≤ low) (most : high ≤ source.length) {splice : List Edit → Except Fault String}
    (spliced : ∀ returns, returnEdits source scope = .ok returns →
      Edit.Ordered low high returns ∧
        splice returns = (source.woven high low returns ++ after).decode) :
    Expands (source.cut ⟨low, high⟩) after (all low scope)
      (returnEdits source scope >>= splice) := by
  unfold Expands
  split
  next holed =>
    obtain ⟨location, refused⟩ := returnEdits_of_holed sound holed
    rw [refused]
    exact ⟨location, rfl⟩
  next whole =>
    obtain ⟨found, read⟩ := Outcome.exists_mapM_iff.mpr
      fun inner => exists_returnEdit_of_whole sound whole
    have expanded : returnEdits source scope = .ok (found.filterMap id) := by
      unfold returnEdits
      rw [read]
      rfl
    obtain ⟨ordered, made⟩ := spliced _ expanded
    have woven := woven_eq_expandedFrom (fun inner => sound.mem_returnsOf)
      (Outcome.mapM_eq_ok_iff.mp read) least (Int.le_refl low) most ordered
    rw [Int.sub_self] at woven
    rw [expanded, Outcome.bind_ok, made, woven]
    rfl

variable {text after : Bytes} {outlines : List Outline} {first second : Except Fault String}

/-- The same text and the same outlines give the same, up to the place of a refusal. -/
theorem Expands.agree (here : Expands text after outlines first)
    (there : Expands text [] outlines second) (bare : after = [] ∨ outlines.any (·.holed)) :
    first.mapError Fault.message = second.mapError Fault.message := by
  unfold Expands at here there
  by_cases holed : outlines.any (·.holed)
  · rw [if_pos holed] at here there
    obtain ⟨location, rfl⟩ := here
    obtain ⟨other, rfl⟩ := there
    rfl
  · rw [if_neg holed] at here there
    rw [here, there, bare.resolve_right holed]

/-- Unless an array is refused, the same text cannot come out with bytes after it. -/
theorem Expands.bare_of_agree (here : Expands text after outlines first)
    (there : Expands text [] outlines second) (readable : second ≠ .error .undecodable)
    (agree : first.mapError Fault.message = second.mapError Fault.message) :
    after = [] ∨ outlines.any (·.holed) := by
  unfold Expands at here there
  by_cases holed : outlines.any (·.holed)
  · exact .inr holed
  · rw [if_neg holed] at here there
    rw [List.append_nil] at there
    left
    cases first with
    | error fault =>
        cases second with
        | error other =>
            obtain ⟨rfl, -⟩ := Bytes.decode_eq_error_iff.mp there.symm
            exact absurd rfl readable
        | ok output => cases agree
    | ok output =>
        cases second with
        | error other => cases agree
        | ok same =>
            cases agree
            have whole := Bytes.decode_eq_ok_iff.mp here.symm
            rw [Bytes.decode_eq_ok_iff.mp there.symm] at whole
            exact List.append_right_eq_self.mp whole.symm

end Outline

/-! ## Bodies -/

/-- A body with its returned arrays expanded in its place. -/
def FunctionNode.expandedInPlace (source : Bytes) (function : FunctionNode) :
    Except Fault String := do
  source.spliceIn (← returnEdits source function.body) function.inside

/-- A body is expanded in place as the outlines of its returns say. -/
theorem FunctionNode.Sound.expands_inPlace {function : FunctionNode} {parts : Braces}
    (sound : function.Sound source) (enclosed : parts.Enclose function.body) :
    Outline.Expands (source.cut ⟨function.inside.start, parts.closing.span.start⟩)
      (source.cut ⟨parts.closing.span.start, function.inside.stop⟩)
      (Outline.all function.inside.start function.body) (function.expandedInPlace source) := by
  have least := sound.inside_starts.nonneg
  have closing := enclosed.closing_lt sound.body
  have rest : Edit.Ordered parts.closing.span.start function.inside.stop [] :=
    Int.le_sub_one_of_lt closing
  apply Outline.expands_window sound.body least (Int.le_trans rest sound.inside_most)
  intro returns expanded
  have tidy : Edit.Tidy source function.inside.start parts.closing.span.start returns := by
    rw [returnEdits_eq expanded]
    exact (enclosed.tidy sound.body).sublist (List.filter_sublist.filterMap _)
  have parted : source.woven function.inside.stop function.inside.start (returns ++ []) = _ :=
    Bytes.woven_append least tidy.ordered rest
  rw [List.append_nil] at parted
  refine ⟨tidy.ordered, ?_⟩
  rw [show function.inside = ⟨function.inside.start, function.inside.stop⟩ from rfl,
    Bytes.spliceIn_eq_decode (.refl _) least sound.inside_most (tidy.extend rest), parted]
  rfl

/-- A script is expanded as the outlines of its returns say. -/
theorem expands_expandReturns {body : String} {document : Document}
    (parsed : Document.parse body = .ok document) :
    Outline.Expands (Utf8.encode body) [] (Outline.all 0 document.root)
      (expandReturns body).outcome := by
  have sound := Document.sound_of_parse parsed
  have expands : Outline.Expands (document.source.cut ⟨0, document.source.length⟩) []
      (Outline.all 0 document.root)
      (returnEdits document.source document.root >>= document.source.splice) := by
    apply Outline.expands_window sound (Int.le_refl 0) (Int.le_refl _)
    intro returns expanded
    have tidy := Document.tidy_returnEdits sound expanded
    refine ⟨tidy.ordered, ?_⟩
    rw [Bytes.splice_eq_spliceIn,
      Bytes.spliceIn_eq_decode (.refl _) (Int.le_refl 0) (Int.le_refl _) tidy, List.append_nil]
  rw [Bytes.cut_whole, (Document.parse_eq_ok parsed).1] at expands
  rw [expandReturns_of_parse parsed, (Document.parse_eq_ok parsed).1]
  exact expands

/-- **Expanding a body in its place and the text between its braces on its own.** Each way
gives what its outlines give in that text, and a refusal if one of the arrays has a hole.
In its place the body also keeps what lies between its closing brace and its last byte.
So where the outlines are the same, the two ways give the same text or the same message
exactly if the block takes in no comment or an array is refused. The outlines are the same,
namely none, if the text has no place where an array may be returned. -/
theorem expandedInPlace_agrees_iff {script : String} {document : Document}
    (parsed : Document.parse script = .ok document) {function : FunctionNode}
    (member : function ∈ FunctionNode.topLevel document.root) :
    ∃ parts text, Braces.Enclose parts function.body ∧
      Utf8.encode text =
        document.source.cut ⟨function.inside.start, parts.closing.span.start⟩ ∧
      ∀ own, Document.parse text = .ok own →
        let here := Outline.all function.inside.start function.body
        let there := Outline.all 0 own.root
        let inPlace := function.expandedInPlace document.source
        let alone := (expandReturns text).outcome
        Outline.Expands (Utf8.encode text)
          (document.source.cut ⟨parts.closing.span.start, function.inside.stop⟩) here inPlace ∧
        Outline.Expands (Utf8.encode text) [] there alone ∧
        (arrayReturns (Utf8.encode text) = 0 → here = [] ∧ there = []) ∧
        (here = there → (inPlace.mapError Fault.message = alone.mapError Fault.message ↔
          parts.comments = [] ∨ here.any (·.holed))) := by
  have sound := FunctionNode.sound_topLevel (Document.sound_of_parse parsed) member
  obtain ⟨parts, enclosed⟩ := sound.braces
  have closing := enclosed.sound_closing sound.body
  obtain ⟨text, between⟩ := sound.inside_starts.exists_text closing.starts
    (enclosed.rows sound.body).1.le
  refine ⟨parts, text, enclosed, between, ?_⟩
  intro own parsedOwn here there inPlace alone
  have expandsHere := sound.expands_inPlace enclosed
  have expandsThere := expands_expandReturns parsedOwn
  have settled : arrayReturns (Utf8.encode text) = 0 → here = [] ∧ there = [] := by
    intro none
    constructor
    · rw [between] at none
      exact Outline.all_eq_nil sound.body (enclosed.row_returnsOf sound.body)
        sound.inside_starts.nonneg closing.starts.le_length none
    · have soundOwn := Document.sound_of_parse parsedOwn
      have row := (soundOwn.row_returnsOf.widen soundOwn.starts.nonneg).extend
        soundOwn.stops.le_length
      refine Outline.all_eq_nil soundOwn row (Int.le_refl 0) (Int.le_refl _) ?_
      rw [Bytes.cut_whole, (Document.parse_eq_ok parsedOwn).1]
      exact none
  rw [← between] at expandsHere
  refine ⟨expandsHere, expandsThere, settled, ?_⟩
  intro same
  rw [← sound.cut_closing_eq_nil_iff enclosed]
  change Outline.Expands _ _ there alone at expandsThere
  rw [← same] at expandsThere
  constructor
  · apply expandsHere.bare_of_agree expandsThere
    intro undecodable
    cases fails_expandReturns _ undecodable
  · exact expandsHere.agree expandsThere

/-- A return in a branch, and one of an array in an array that no semicolon ends. -/
theorem expandedInPlace_agrees_iff_branch :
    ∃ document function parts own,
      Document.parse "function f() \x7bif (a) \x7breturn [a]\x7d return [[a], 2]\x7d" =
        .ok document ∧
      function ∈ FunctionNode.topLevel document.root ∧ Braces.Enclose parts function.body ∧
      Document.parse "if (a) \x7breturn [a]\x7d return [[a], 2]" = .ok own ∧
      Outline.all function.inside.start function.body = Outline.all 0 own.root ∧
      ((function.expandedInPlace document.source).mapError Fault.message =
          (expandReturns "if (a) \x7breturn [a]\x7d return [[a], 2]").outcome.mapError
            Fault.message ↔
        parts.comments = [] ∨
          (Outline.all function.inside.start function.body).any (·.holed)) := by
  obtain ⟨own, parsedOwn, there⟩ := Outcome.exists_ok_of_any (show
    ((Document.parse "if (a) \x7breturn [a]\x7d return [[a], 2]").toOption.any fun own =>
      Outline.all 0 own.root =
        [⟨⟨8, 18⟩, [⟨16, 17⟩], false⟩, ⟨⟨20, 35⟩, [⟨28, 31⟩, ⟨33, 34⟩], false⟩]) = true
      by decide +kernel)
  obtain ⟨document, parsed, found⟩ := Outcome.exists_ok_of_any (show
    ((Document.parse
      "function f() \x7bif (a) \x7breturn [a]\x7d return [[a], 2]\x7d").toOption.any fun document =>
        (FunctionNode.topLevel document.root).any fun function =>
          decide (Outline.all function.inside.start function.body =
            [⟨⟨8, 18⟩, [⟨16, 17⟩], false⟩, ⟨⟨20, 35⟩, [⟨28, 31⟩, ⟨33, 34⟩], false⟩]) &&
          (function.body.children.reverse.find? (!·.kind.isTrivia)).any fun closing =>
            document.source.cut ⟨function.inside.start, closing.span.start⟩ =
              Utf8.encode "if (a) \x7breturn [a]\x7d return [[a], 2]") = true
      by decide +kernel)
  obtain ⟨function, member, found⟩ := List.any_eq_true.mp found
  obtain ⟨here, cut⟩ := Bool.and_eq_true_iff.mp found
  have same := (of_decide_eq_true here).trans (of_decide_eq_true there).symm
  obtain ⟨parts, text, enclosed, between, agrees⟩ := expandedInPlace_agrees_iff parsed member
  rw [enclosed.find?_closing] at cut
  cases Utf8.encode_injective (between.trans (of_decide_eq_true cut))
  exact ⟨document, function, parts, own, parsed, member, enclosed, parsedOwn, same,
    (agrees own parsedOwn).2.2.2 same⟩

/-- A comment after the last return belongs to it only if no brace follows. -/
theorem expandedInPlace_keeps_comment :
    (Document.parse "function f(a) \x7b return [a] // c\n\x7d" >>= fun document =>
      (FunctionNode.topLevel document.root).mapM (·.expandedInPlace document.source)) =
        .ok [" return a // c\n"] ∧
    (expandReturns " return [a] // c\n").outcome = .ok " return a\n" := by
  decide +kernel

end Codebox
