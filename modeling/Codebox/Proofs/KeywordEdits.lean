import Codebox.Proofs.Parsing.Program
import Codebox.Proofs.ScopeEdits

/-! # Deleted keywords

In a tree whose spans are nested, the keywords of a scope are deleted one by one in
the order of the text, each with the blanks up to what it binds and with nothing
else. All that is asked of the tree besides is that a keyword comes before what it
binds, with tokens and comments at most before it and between the two. The tree of a
parsed script is of this form.
-/

namespace Codebox

variable {source : Bytes}

/-! ## Scanning over blanks -/

/-- The blanks: space, tab, return and line feed. -/
def blankBytes : List UInt8 :=
  [0x20, 0x09, 0x0D, 0x0A]

/-- The bytes that go with a deleted keyword are the blanks. -/
theorem isGapByte_iff {byte : UInt8} : isGapByte byte ↔ byte ∈ blankBytes := by
  simp [isGapByte, blankBytes, or_assoc]

namespace Bytes

/-- The byte at an offset, if the text has one there. -/
def byteAt? (source : Bytes) (offset : Int) : Option UInt8 :=
  if offset < 0 then none else source[offset.toNat]?

/-- Reads on over blanks from an offset, byte by byte and up to a bound, and tells
where it stops. It fails where the text has no byte to read. -/
def scanGap? (source : Bytes) (bound offset : Int) : Option Int :=
  if offset < bound then
    match source.byteAt? offset with
    | some byte => if byte ∈ blankBytes then source.scanGap? bound (offset + 1) else some offset
    | none => none
  else some offset
termination_by (bound - offset).toNat
decreasing_by omega

/-- From `offset` to `stop` there are blanks only, and `stop` is the bound or a byte
that is no blank. -/
structure GapEnds (source : Bytes) (offset bound stop : Int) : Prop where
  from_le : offset ≤ stop
  le_bound : stop ≤ bound
  blank : ∀ place, offset ≤ place → place < stop →
    ∃ byte, source.byteAt? place = some byte ∧ byte ∈ blankBytes
  ends : stop = bound ∨ ∃ byte, source.byteAt? stop = some byte ∧ byte ∉ blankBytes

variable {bound offset stop : Int}

/-- Where the scan of a gap stops, the gap ends. -/
theorem gapEnds_of_scanGap? (order : offset ≤ bound)
    (scanned : source.scanGap? bound offset = some stop) : source.GapEnds offset bound stop := by
  revert scanned
  fun_induction scanGap? source bound offset with
  | case1 offset inside byte read gap ih =>
      intro scanned
      obtain ⟨reaches, bounded, blank, ends⟩ := ih (by omega) scanned
      refine ⟨by omega, bounded, ?_, ends⟩
      intro place least most
      by_cases first : place = offset
      · rw [first]
        exact ⟨byte, read, gap⟩
      · exact blank place (by omega) most
  | case2 offset inside byte read other =>
      intro scanned
      cases scanned
      exact ⟨Int.le_refl _, order, by omega, .inr ⟨byte, read, other⟩⟩
  | case3 offset inside unread =>
      intro scanned
      cases scanned
  | case4 offset outside =>
      intro scanned
      cases scanned
      exact ⟨Int.le_refl _, order, by omega, .inl (by omega)⟩

/-- Inside the text there is a byte to read. -/
theorem exists_byteAt? (least : 0 ≤ offset) (most : offset < source.length) :
    ∃ byte, source.byteAt? offset = some byte := by
  rw [byteAt?, if_neg (by omega)]
  exact ⟨source[offset.toNat], List.getElem?_eq_getElem (by omega)⟩

theorem cut_eq_cons {byte : UInt8} (read : source.byteAt? offset = some byte)
    (inside : offset < bound) :
    source.cut ⟨offset, bound⟩ = byte :: source.cut ⟨offset + 1, bound⟩ := by
  unfold byteAt? at read
  split at read
  · cases read
  next least =>
    obtain ⟨here, same⟩ := List.getElem?_eq_some_iff.mp read
    rw [cut_eq source (by omega) (by omega), cut_eq source (by omega) (by omega),
      List.drop_eq_getElem_cons here, same,
      show bound.toNat - offset.toNat = (bound.toNat - (offset + 1).toNat) + 1 by omega,
      List.take_succ_cons, show (offset + 1).toNat = offset.toNat + 1 by omega]

/-- Inside the text every read succeeds, and the scan stops after the blanks that come
first. -/
theorem scanGap?_eq_some (least : 0 ≤ offset) (order : offset ≤ bound)
    (most : bound ≤ source.length) :
    source.scanGap? bound offset =
      some (offset + ((source.cut ⟨offset, bound⟩).takeWhile isGapByte).length) := by
  fun_induction scanGap? source bound offset with
  | case1 offset inside byte read gap ih =>
      rw [ih (by omega) (by omega), cut_eq_cons read inside,
        List.takeWhile_cons_of_pos (isGapByte_iff.mpr gap), List.length_cons]
      congr 1
      omega
  | case2 offset inside byte read other =>
      rw [cut_eq_cons read inside,
        List.takeWhile_cons_of_neg fun gap => other (isGapByte_iff.mp gap)]
      simp
  | case3 offset inside unread =>
      obtain ⟨byte, read⟩ := exists_byteAt? least (Int.lt_of_lt_of_le inside most)
      rw [read] at unread
      cases unread
  | case4 offset outside =>
      rw [show bound = offset by omega, cut_self source least]
      simp

end Bytes

/-! ## Nodes that declare -/

variable {node keyword binding : Node}

/-- Nothing in the node's own scope declares by a keyword. -/
def Node.Quiet (node : Node) : Prop :=
  ∀ inner ∈ node.listing, inner.declaresByKeyword = false

/-- Tokens and comments, below which there is nothing, declare nothing. -/
theorem Node.quiet_of_leaf (leaf : node.children = []) : node.Quiet := by
  intro inner member
  rw [Node.listing_eq_cons, leaf, Node.listings, ite_self] at member
  rw [List.mem_singleton.mp member]
  simp [Node.declaresByKeyword, Node.child?, leaf]

/-- The parts are those of a node that declares by keyword. The keyword is not empty,
and what comes before the binding declares nothing, as tokens and comments do not. -/
structure Heading.Opens (parts : Heading) (node : Node) : Prop where
  children : node.children = parts.nodes
  declares : node.DeclaresBy parts.keyword parts.binding
  is_keyword : parts.keyword.kind.isKeyword
  wide : parts.keyword.span.start < parts.keyword.span.stop
  quiet : ∀ child ∈ parts.before ++ parts.keyword :: parts.between, child.Quiet

/-- A tree with nested spans inside a text: children stand in a row inside their
parent, and a keyword stands before what it binds. -/
inductive Node.Nested (source : Bytes) : Node → Prop
  | mk {head : Head} {children : List Node} (least : 0 ≤ head.span.start)
      (order : head.span.start ≤ head.span.stop) (most : head.span.stop ≤ source.length)
      (row : InRow head.span.start head.span.stop children)
      (headed : (Node.mk head children).declaresByKeyword →
        ∃ parts : Heading, parts.Opens (.mk head children))
      (below : ∀ child ∈ children, Nested source child) : Nested source (.mk head children)

namespace Node.Nested

variable {inner : Node}

theorem least (nested : node.Nested source) : 0 ≤ node.span.start := by
  cases nested with
  | mk least => exact least

theorem most (nested : node.Nested source) : node.span.stop ≤ source.length := by
  cases nested with
  | mk _ _ most => exact most

theorem row (nested : node.Nested source) :
    InRow node.span.start node.span.stop node.children := by
  cases nested with
  | mk _ _ _ row => exact row

/-- A nested node that declares by a keyword has a heading. -/
theorem headed (nested : node.Nested source) (declares : node.declaresByKeyword) :
    ∃ parts : Heading, parts.Opens node := by
  cases nested with
  | mk _ _ _ _ headed => exact headed declares

theorem ofChild (nested : node.Nested source) (member : inner ∈ node.children) :
    inner.Nested source := by
  cases nested with
  | mk _ _ _ _ _ below => exact below inner member

theorem ofHolds (nested : node.Nested source) (held : node.Holds inner) :
    inner.Nested source := by
  induction held with
  | self => exact nested
  | through member _ ih => exact ih (nested.ofChild member)

theorem walk (nested : node.Nested source) (member : inner ∈ node.walk) : inner.Nested source := by
  rw [Node.walk_eq_listings] at member
  exact forall_listings (fun _ nested _ => nested.ofChild) node.children (fun _ => nested.ofChild)
    inner member

end Node.Nested

/-- A calm node declares nothing by a keyword. -/
theorem Node.Calm.quiet (calm : node.Calm) : node.Quiet := by
  intro inner member
  have kept := calm inner member
  cases declares : inner.declaresByKeyword with
  | false => rfl
  | true =>
      rcases inner.declaresByKeyword_cases declares with kind | ⟨kind, -⟩
      · cases same : inner.kind <;> simp_all [Kind.declares, Kind.isRewritten]
      · rw [kind] at kept
        cases kept

/-- The heading that a well-laid node is read by opens it. -/
theorem Heading.Leads.opens {parts : Heading} (leads : parts.Leads node)
    (sound : node.Sound source) : parts.Opens node := by
  have named := leads.is_keyword
  simp only [Node.isDeclaringKeyword, Bool.and_eq_true] at named
  refine ⟨leads.children, declaring?_eq_some_iff.mp leads.declaring, named.2,
    leads.keyword_wide, ?_⟩
  intro child member
  rcases List.mem_append.mp member with before | member
  · exact (leads.before_calm child before).quiet
  · rcases List.mem_cons.mp member with rfl | between
    · exact leads.keyword_calm.quiet
    · have among : child ∈ node.children := by
        rw [leads.children, Heading.nodes]
        exact List.mem_append_right _ (List.mem_cons_of_mem _ (List.mem_append_left _ between))
      exact Node.quiet_of_leaf
        ((sound.ofChild among).shaped.trivia (leads.trivia child between).1).1

/-- A well-laid node that declares by a keyword has a heading. -/
theorem Node.Sound.exists_opens (sound : node.Sound source) (declares : node.declaresByKeyword) :
    ∃ parts : Heading, parts.Opens node := by
  obtain ⟨parts, leads⟩ := sound.exists_leads declares
  exact ⟨parts, leads.opens sound⟩

/-- A well-laid tree is nested. -/
theorem Node.Sound.nested (sound : node.Sound source) : node.Nested source := by
  induction sound with
  | @mk head children starts stops order point row shaped below ih =>
      have sound := Node.Sound.mk starts stops order point row shaped below
      exact .mk starts.nonneg order stops.le_length row sound.exists_opens ih

/-! ## One keyword -/

/-- The edit deletes a keyword with the blanks up to what it binds. A scan of the bytes
after the keyword, which fails where there is none, ends where the edit does. -/
structure Edit.Deletes (source : Bytes) (keyword binding : Node) (edit : Edit) : Prop where
  text : edit.text = ""
  start : edit.span.start = keyword.span.start
  wide : keyword.span.start < keyword.span.stop
  gap : source.GapEnds keyword.span.stop binding.span.start edit.span.stop
  scanned : source.scanGap? binding.span.start keyword.span.stop = some edit.span.stop

/-- The edit deletes the keyword of a node. -/
def Node.LosesKeyword (source : Bytes) (node : Node) (edit : Edit) : Prop :=
  ∃ keyword binding, node.DeclaresBy keyword binding ∧ keyword.kind.isKeyword ∧
    edit.Deletes source keyword binding

namespace Heading.Opens

variable {parts : Heading}

/-- A headed node deletes its keyword, up to what the gap leaves. -/
theorem keywordEdit? (opens : parts.Opens node) :
    keywordEdit? source node = some ⟨⟨parts.keyword.span.start, parts.resume source⟩, ""⟩ := by
  unfold Codebox.keywordEdit?
  rw [declaring?_eq_some_iff.mpr opens.declares]
  exact if_pos opens.is_keyword

/-- Where the parts of a node lie. -/
theorem rows (opens : parts.Opens node) (nested : node.Nested source) :
    node.span.start ≤ parts.keyword.span.start ∧ 0 ≤ parts.keyword.span.stop ∧
      parts.keyword.span.stop ≤ parts.binding.span.start ∧
      parts.binding.span.start ≤ source.length ∧
      Node.InRow parts.binding.span.start node.span.stop (parts.binding :: parts.after) := by
  have row := nested.row
  rw [opens.children, Heading.nodes, Node.InRow, List.map_append, List.map_cons] at row
  obtain ⟨rowBefore, order, row⟩ := Span.row_append_cons.mp row
  rw [List.map_append, List.map_cons] at row
  obtain ⟨rowBetween, orderBinding, rowAfter⟩ := Span.row_append_cons.mp row
  have least := nested.least
  have most := nested.most
  have lower := rowBefore.le
  have upper := rowAfter.le
  exact ⟨lower, by omega, rowBetween.le, by omega, Int.le_refl _, orderBinding, rowAfter⟩

/-- The edit of a headed node deletes its keyword and nothing of the binding. -/
theorem deletes (opens : parts.Opens node) (nested : node.Nested source) :
    Edit.Deletes source parts.keyword parts.binding
      ⟨⟨parts.keyword.span.start, parts.resume source⟩, ""⟩ := by
  obtain ⟨-, least, order, most, -⟩ := opens.rows nested
  have scanned := Bytes.scanGap?_eq_some least order most
  exact ⟨rfl, rfl, opens.wide, Bytes.gapEnds_of_scanGap? order scanned, scanned⟩

end Heading.Opens

/-- A nested node has an edit just if it declares by keyword, and that edit deletes its
keyword. -/
theorem Node.Nested.keywordEdit?_cases (nested : node.Nested source) :
    node.declaresByKeyword = false ∧ keywordEdit? source node = none ∨
      node.declaresByKeyword = true ∧
        ∃ edit, keywordEdit? source node = some edit ∧ node.LosesKeyword source edit := by
  cases declares : node.declaresByKeyword with
  | false => exact .inl ⟨rfl, keywordEdit?_of_plain declares⟩
  | true =>
      obtain ⟨parts, opens⟩ := nested.headed declares
      exact .inr ⟨rfl, _, opens.keywordEdit?, parts.keyword, parts.binding, opens.declares,
        opens.is_keyword, opens.deletes nested⟩

/-- Nodes that declare by keyword and their edits correspond. -/
theorem forall₂_losesKeyword {nodes : List Node} (nested : ∀ node ∈ nodes, node.Nested source) :
    List.Forall₂ (Node.LosesKeyword source) (nodes.filter (·.declaresByKeyword))
      (nodes.filterMap (keywordEdit? source)) := by
  induction nodes with
  | nil => exact .nil
  | cons node rest ih =>
      obtain ⟨here, nested⟩ := List.forall_mem_cons.mp nested
      rcases here.keywordEdit?_cases with ⟨plain, absent⟩ | ⟨declares, edit, found, loses⟩
      · rw [List.filter_cons_of_neg (by simp [plain]), List.filterMap_cons_none absent]
        exact ih nested
      · rw [List.filter_cons_of_pos declares, List.filterMap_cons_some found]
        exact .cons loses (ih nested)

/-! ## All keywords of a scope -/

/-- The spans of the keywords that are deleted among nodes. -/
def keywordSpans (source : Bytes) (nodes : List Node) : List Span :=
  (nodes.filterMap (keywordEdit? source)).map Edit.span

/-- The keywords of a row are those of its nodes, in order. -/
theorem keywordSpans_listings (nodes : List Node) :
    keywordSpans source (Node.listings nodes) =
      nodes.flatMap fun node => keywordSpans source node.listing := by
  unfold keywordSpans
  rw [Node.listings_eq_flatMap, List.filterMap_flatMap, List.map_flatMap]

/-- A quiet node has no keywords to delete. -/
theorem Node.Quiet.keywordSpans (quiet : node.Quiet) : keywordSpans source node.listing = [] := by
  refine List.map_eq_nil_iff.mpr (List.filterMap_eq_nil_iff.mpr fun inner member => ?_)
  exact keywordEdit?_of_plain (quiet inner member)

/-- The keyword of a node comes before all keywords below the node. -/
theorem Heading.Opens.row {parts : Heading} (opens : parts.Opens node)
    (nested : node.Nested source)
    (each : ∀ child ∈ node.children,
      Span.Row child.span.start child.span.stop (keywordSpans source child.listing)) :
    Span.Row node.span.start node.span.stop (keywordSpans source (node :: node.walk)) := by
  obtain ⟨lower, -, -, -, row⟩ := opens.rows nested
  obtain ⟨from_le, le_bound, -, -⟩ := (opens.deletes nested).gap
  have among : ∀ child ∈ parts.binding :: parts.after, child ∈ node.children := by
    intro child member
    rw [opens.children, Heading.nodes]
    exact List.mem_append_right _ (List.mem_cons_of_mem _ (List.mem_append_right _ member))
  have split : parts.nodes =
      (parts.before ++ parts.keyword :: parts.between) ++ parts.binding :: parts.after := by
    rw [Heading.nodes, List.append_assoc, List.cons_append]
  -- All other keywords lie from the binding on, and the deletion ends there at the latest.
  have silent : ((parts.before ++ parts.keyword :: parts.between).flatMap fun child =>
      keywordSpans source child.listing) = [] :=
    List.flatMap_eq_nil_iff.mpr fun child member => (opens.quiet child member).keywordSpans
  have below : keywordSpans source node.walk =
      (parts.binding :: parts.after).flatMap fun child => keywordSpans source child.listing := by
    rw [Node.walk_eq_listings, keywordSpans_listings, opens.children, split, List.flatMap_append,
      silent, List.nil_append]
  rw [keywordSpans, List.filterMap_cons_some opens.keywordEdit?, List.map_cons]
  refine ⟨lower, Int.le_trans (Int.le_of_lt opens.wide) from_le, ?_⟩
  change Span.Row _ _ (keywordSpans source node.walk)
  rw [below]
  exact Span.Row.flatMap (row.widen le_bound) fun child member => each child (among child member)

namespace Node.Nested

/-- The keywords of a node and of what lies below it stand in a row inside the node,
whether or not it opens a scope. -/
theorem row_scope (nested : node.Nested source)
    (each : ∀ child ∈ node.children,
      Span.Row child.span.start child.span.stop (keywordSpans source child.listing)) :
    Span.Row node.span.start node.span.stop (keywordSpans source (node :: node.walk)) := by
  cases declares : node.declaresByKeyword with
  | true =>
      obtain ⟨parts, opens⟩ := nested.headed declares
      exact opens.row nested each
  | false =>
      have kept : keywordSpans source (node :: node.walk) = keywordSpans source node.walk := by
        rw [keywordSpans, List.filterMap_cons_none (keywordEdit?_of_plain declares), keywordSpans]
      rw [kept, Node.walk_eq_listings, keywordSpans_listings]
      exact Span.Row.flatMap nested.row each

/-- The keywords of a node's own scope stand in a row inside the node. -/
theorem row_listing (nested : node.Nested source) :
    Span.Row node.span.start node.span.stop (keywordSpans source node.listing) := by
  induction nested with
  | @mk head children least order most row headed below ih =>
      have nested := Nested.mk least order most row headed below
      rw [Node.listing_eq]
      split
      next scope =>
        -- No kind that opens a scope declares, so only the node itself is listed.
        have absent : keywordEdit? source (.mk head children) = none := by
          refine Option.eq_none_iff_forall_ne_some.mpr fun edit found => ?_
          rw [opensScope_of_keywordEdit? found] at scope
          cases scope
        rw [keywordSpans, List.filterMap_cons_none absent]
        exact order
      next => exact nested.row_scope ih

/-- The keyword edits of a nested node stand in a row inside it. -/
theorem row_keywordEdits (nested : node.Nested source) :
    Span.Row node.span.start node.span.stop ((keywordEdits source node).map Edit.span) :=
  nested.row_scope fun _ member => (nested.ofChild member).row_listing

end Node.Nested

/-- **The keywords of a scope are deleted, and nothing else is.** In a nested tree there is one
deletion for each node of the scope that declares by keyword, the scope's own node included. A
deletion covers the keyword and the blanks after it, up to what the keyword binds or to the first
byte that is no blank, and no byte outside the text is read for it. The deletions lie inside the
scope, one after the other. -/
theorem keywordEdits_delete_keywords {root scope : Node} (nested : root.Nested source)
    (held : root.Holds scope) :
    List.Forall₂ (Node.LosesKeyword source)
        ((scope :: scope.walk).filter (·.declaresByKeyword)) (keywordEdits source scope) ∧
      ((keywordEdits source scope).Pairwise fun earlier later =>
        earlier.span.stop ≤ later.span.start ∧ earlier.span.start < later.span.start) ∧
      ∀ edit ∈ keywordEdits source scope, scope.span.start ≤ edit.span.start ∧
        edit.span.start < edit.span.stop ∧ edit.span.stop ≤ scope.span.stop := by
  have nested := nested.ofHolds held
  have row := nested.row_keywordEdits
  have matched := forall₂_losesKeyword (List.forall_mem_cons.mpr ⟨nested, fun _ => nested.walk⟩)
  have wide : ∀ edit ∈ keywordEdits source scope, edit.span.start < edit.span.stop := by
    intro edit member
    obtain ⟨node, -, keyword, binding, -, -, deletes⟩ :=
      Outcome.exists_related matched.flip member
    have start := deletes.start
    have keywordWide := deletes.wide
    have reaches := deletes.gap.from_le
    omega
  refine ⟨matched, ?_, ?_⟩
  · refine (List.pairwise_map.mp row.pairwise).imp_of_mem ?_
    intro earlier later member _ apart
    exact ⟨apart, Int.lt_of_lt_of_le (wide earlier member) apart⟩
  · intro edit member
    obtain ⟨lower, -, upper⟩ := row.inside (List.mem_map_of_mem member)
    exact ⟨lower, wide edit member, upper⟩

/-- A loop head, a declaration in the loop and one after an inner function lose their keywords.
The comment after the first one stays, and so does the declaration inside the function. -/
theorem keywordEdits_delete_keywords_loop :
    ∃ document, Document.parse
        "for (const /* c */ k of a) \x7b let \t f = () => \x7b let y = 1; \x7d; var\n z \x7d" =
          .ok document ∧
      document.root.Nested document.source ∧
      keywordEdits document.source document.root =
        [⟨⟨5, 11⟩, ""⟩, ⟨⟨29, 35⟩, ""⟩, ⟨⟨61, 66⟩, ""⟩] ∧
      List.Forall₂ (Node.LosesKeyword document.source)
        ((document.root :: document.root.walk).filter (·.declaresByKeyword))
        [⟨⟨5, 11⟩, ""⟩, ⟨⟨29, 35⟩, ""⟩, ⟨⟨61, 66⟩, ""⟩] := by
  obtain ⟨document, parsed, found⟩ := Outcome.exists_ok_of_any (show
    (Document.parse
        "for (const /* c */ k of a) \x7b let \t f = () => \x7b let y = 1; \x7d; var\n z \x7d"
      ).toOption.any (fun document => decide (keywordEdits document.source document.root =
        [⟨⟨5, 11⟩, ""⟩, ⟨⟨29, 35⟩, ""⟩, ⟨⟨61, 66⟩, ""⟩])) = true by decide +kernel)
  have nested := (Document.sound_of_parse parsed).nested
  have edits := of_decide_eq_true found
  obtain ⟨matched, -⟩ := keywordEdits_delete_keywords nested (.self document.root)
  rw [edits] at matched
  exact ⟨document, parsed, nested, edits, matched⟩

end Codebox
