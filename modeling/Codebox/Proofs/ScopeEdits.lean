import Codebox.Return
import Codebox.Proofs.Layout
import Codebox.Proofs.Sequence
import Codebox.Proofs.Splice
import Mathlib.Data.List.TakeWhile

/-! # The edits of a scope

Keywords and returned arrays are looked for in two walks of one scope. Taken
together in the order of the text, their edits stand in a row: a keyword lies
before everything else that is rewritten in its node, and nothing below a return
statement is rewritten.
-/

namespace Codebox

variable {source : Bytes} {node : Node}

/-- The edit of one node: the expansion of a returned array, or the deletion of a
keyword. -/
def nodeEdit? (source : Bytes) (node : Node) : Option Edit :=
  if node.kind = .returnStatement then
    match returnEdit source node with
    | .ok edit => edit
    | .error _ => none
  else keywordEdit? source node

/-- The edits of nodes, in the order of the nodes. -/
def editsOf (source : Bytes) (nodes : List Node) : List Edit :=
  nodes.filterMap (nodeEdit? source)

theorem editsOf_append (first second : List Node) :
    editsOf source (first ++ second) = editsOf source first ++ editsOf source second :=
  List.filterMap_append

/-! ## One node -/

/-- A keyword edit deletes the keyword that a node declares by, and the gap after it. -/
theorem keywordEdit?_eq_some {edit : Edit} (found : keywordEdit? source node = some edit) :
    ∃ keyword binding, declaring? node = some (keyword, binding) ∧ keyword.kind.isKeyword ∧
      edit = ⟨⟨keyword.span.start, keyword.span.stop + gapLength source keyword binding⟩, ""⟩ := by
  unfold keywordEdit? at found
  cases declaring : declaring? node with
  | none => simp [declaring] at found
  | some pair =>
      obtain ⟨keyword, binding⟩ := pair
      simp only [declaring] at found
      split at found
      next named => exact ⟨keyword, binding, rfl, named, (Option.some.inj found).symm⟩
      next => cases found

/-- Only a declaration or a loop over a range declares by a keyword. -/
theorem declaring?_eq_some {keyword binding : Node}
    (found : declaring? node = some (keyword, binding)) :
    node.kind.declares ∨ node.kind = .forInStatement := by
  unfold declaring? at found
  by_cases declares : node.kind.declares
  · exact .inl declares
  · rw [if_neg declares] at found
    by_cases loop : node.kind = .forInStatement
    · exact .inr loop
    · rw [if_neg loop] at found
      cases found

/-- The keyword of a node and what it binds: the first child of a declaration and its
first declarator, or the keyword and the left side of a loop head. -/
inductive Node.DeclaresBy (node keyword binding : Node) : Prop
  | declaration (kind : node.kind.declares) (first : node.children.head? = some keyword)
      (bound : node.namedChildren.find? (·.kind = .variableDeclarator) = some binding)
  | loop (kind : node.kind = .forInStatement) (first : node.child? .keyword = some keyword)
      (bound : node.child? .left = some binding)

/-- Whether a node is a declaration with a declarator and a keyword as its first child,
or a loop head with a keyword. -/
def Node.declaresByKeyword (node : Node) : Bool :=
  (node.kind.declares && node.namedChildren.any (·.kind = .variableDeclarator) &&
      node.children.head?.any (·.kind.isKeyword)) ||
    (node.kind = .forInStatement && (node.child? .keyword).any (·.kind.isKeyword))

/-- A node is found to declare by a keyword exactly if it does. -/
theorem declaring?_eq_some_iff {keyword binding : Node} :
    declaring? node = some (keyword, binding) ↔ node.DeclaresBy keyword binding := by
  constructor
  · intro found
    rcases declaring?_eq_some found with declares | loop
    · rw [declaring?, if_pos declares] at found
      split at found
      next first bound =>
        cases found
        exact .declaration declares first bound
      next => cases found
    · rw [declaring?, if_neg (by rw [loop]; decide), if_pos loop] at found
      split at found
      next first bound =>
        cases found
        exact .loop loop first bound
      next => cases found
  · rintro (⟨declares, first, bound⟩ | ⟨loop, first, bound⟩)
    · rw [declaring?, if_pos declares, first, bound]
    · rw [declaring?, if_neg (by rw [loop]; decide), if_pos loop, first, bound]

/-- A node that declares by one of the keywords counts as such. -/
theorem Node.DeclaresBy.declaresByKeyword {keyword binding : Node}
    (declares : node.DeclaresBy keyword binding) (named : keyword.kind.isKeyword) :
    node.declaresByKeyword = true := by
  unfold Node.declaresByKeyword
  cases declares with
  | declaration kind first bound =>
      have matched := List.find?_some bound
      have declarator : node.namedChildren.any (·.kind = .variableDeclarator) = true :=
        List.any_eq_true.mpr ⟨binding, List.mem_of_find?_eq_some bound, matched⟩
      simp [kind, first, named, declarator]
  | loop kind first bound => simp [kind, first, named]

/-- A node whose keyword is deleted declares by it. -/
theorem declaresByKeyword_of_keywordEdit? {edit : Edit}
    (found : keywordEdit? source node = some edit) : node.declaresByKeyword = true := by
  obtain ⟨keyword, binding, declaring, named, -⟩ := keywordEdit?_eq_some found
  exact (declaring?_eq_some_iff.mp declaring).declaresByKeyword named

theorem keywordEdit?_of_plain (plain : node.declaresByKeyword = false) :
    keywordEdit? source node = none := by
  cases found : keywordEdit? source node with
  | none => rfl
  | some edit =>
      rw [declaresByKeyword_of_keywordEdit? found] at plain
      cases plain

/-- What declares by a keyword is a declaration, or a loop whose head has a keyword. -/
theorem Node.declaresByKeyword_cases (declares : node.declaresByKeyword) :
    node.kind.declares ∨ node.kind = .forInStatement ∧
      ∃ child ∈ node.children, child.isDeclaringKeyword := by
  simp only [Node.declaresByKeyword, Bool.or_eq_true, Bool.and_eq_true, decide_eq_true_eq]
    at declares
  rcases declares with ⟨⟨kind, -⟩, -⟩ | ⟨kind, named⟩
  · exact .inl kind
  · obtain ⟨keyword, found, named⟩ := (Option.any_eq_true _ _).mp named
    have role := List.find?_some found
    refine .inr ⟨kind, keyword, List.mem_of_find?_eq_some found, ?_⟩
    rw [Node.isDeclaringKeyword, role, named, Bool.true_and]

theorem keywordEdit?_of_return (returns : node.kind = .returnStatement) :
    keywordEdit? source node = none := by
  cases found : keywordEdit? source node with
  | none => rfl
  | some edit =>
      obtain ⟨keyword, binding, declaring, -⟩ := keywordEdit?_eq_some found
      rcases declaring?_eq_some declaring with declares | loop
      · rw [returns] at declares
        cases declares
      · rw [returns] at loop
        cases loop

/-- A node with a keyword opens no scope. -/
theorem opensScope_of_keywordEdit? {edit : Edit} (found : keywordEdit? source node = some edit) :
    node.kind.opensScope = false := by
  obtain ⟨keyword, binding, declaring, -⟩ := keywordEdit?_eq_some found
  rcases declaring?_eq_some declaring with declares | loop
  · cases kind : node.kind <;> simp_all [Kind.declares, Kind.opensScope]
  · rw [loop]
    rfl

theorem nodeEdit?_of_return (returns : node.kind = .returnStatement) {edit : Option Edit}
    (expanded : returnEdit source node = .ok edit) : nodeEdit? source node = edit := by
  unfold nodeEdit?
  rw [if_pos returns, expanded]

theorem nodeEdit?_of_ne (other : node.kind ≠ .returnStatement) :
    nodeEdit? source node = keywordEdit? source node := by
  unfold nodeEdit?
  rw [if_neg other]

/-- A node that is not rewritten declares nothing. -/
theorem keywordEdit?_eq_none (kept : node.kind.isRewritten = false) :
    keywordEdit? source node = none := by
  cases found : keywordEdit? source node with
  | none => rfl
  | some edit =>
      obtain ⟨keyword, binding, declaring, -⟩ := keywordEdit?_eq_some found
      rcases declaring?_eq_some declaring with declares | loop
      · cases kind : node.kind <;> simp_all [Kind.declares, Kind.isRewritten]
      · rw [loop] at kept
        cases kept

/-- A node that is not rewritten has no edit. -/
theorem nodeEdit?_eq_none (kept : node.kind.isRewritten = false) :
    nodeEdit? source node = none := by
  rw [nodeEdit?_of_ne (by intro returns; rw [returns] at kept; cases kept)]
  exact keywordEdit?_eq_none kept

theorem Node.Calm.editsOf (calm : node.Calm) : editsOf source node.listing = [] :=
  List.filterMap_eq_nil_iff.mpr fun inner member => nodeEdit?_eq_none (calm inner member)

theorem editsOf_listings_eq_nil {nodes : List Node} (calm : ∀ node ∈ nodes, node.Calm) :
    editsOf source (Node.listings nodes) = [] := by
  rw [Node.listings_eq_flatMap]
  refine List.filterMap_eq_nil_iff.mpr fun inner member => ?_
  obtain ⟨node, memberNode, member⟩ := List.mem_flatMap.mp member
  exact nodeEdit?_eq_none (calm node memberNode inner member)

/-- An expanded return statement is replaced as a whole. -/
theorem returnEdit_span {edit : Edit} (expanded : returnEdit source node = .ok (some edit)) :
    edit.span = node.span := by
  unfold returnEdit at expanded
  obtain ⟨elements, -, expanded⟩ := Outcome.bind_eq_ok_iff.mp expanded
  cases elements with
  | none => cases expanded
  | some elements =>
      obtain ⟨texts, -, expanded⟩ := Outcome.bind_eq_ok_iff.mp expanded
      obtain ⟨text, -, expanded⟩ := Outcome.bind_eq_ok_iff.mp expanded
      cases expanded
      rfl

/-- A return statement is replaced as a whole. -/
theorem nodeEdit?_span {edit : Edit} (returns : node.kind = .returnStatement)
    (found : nodeEdit? source node = some edit) : edit.span = node.span := by
  cases expanded : returnEdit source node with
  | error fault => simp [nodeEdit?, returns, expanded] at found
  | ok result =>
      rw [nodeEdit?_of_return returns expanded] at found
      rw [found] at expanded
      exact returnEdit_span expanded

/-! ## Keywords and the blanks after them -/

/-- The bytes of a gap are those of single characters. -/
theorem toNat_of_isGapByte {byte : UInt8} (gap : isGapByte byte) : byte.toNat < 0x80 := by
  unfold isGapByte at gap
  simp only [Bool.or_eq_true, decide_eq_true_eq] at gap
  rcases gap with ((rfl | rfl) | rfl) | rfl <;> decide

variable {keyword binding : Node}

/-- The blanks after a keyword end at what it binds at the latest. -/
theorem gapLength_le (least : 0 ≤ keyword.span.stop)
    (order : keyword.span.stop ≤ binding.span.start) (most : binding.span.start ≤ source.length) :
    keyword.span.stop + gapLength source keyword binding ≤ binding.span.start := by
  have width := Bytes.length_cut source least order most
  have run := (List.takeWhile_sublist (l := source.cut ⟨keyword.span.stop, binding.span.start⟩)
    isGapByte).length_le
  unfold gapLength
  omega

/-- The blanks after a keyword end at the next comment at the latest. -/
theorem gapLength_le_of_trivia {comment : Node} (least : 0 ≤ keyword.span.stop)
    (starts : keyword.span.stop ≤ comment.span.start)
    (order : comment.span.start ≤ comment.span.stop)
    (stops : comment.span.stop ≤ binding.span.start) (most : binding.span.start ≤ source.length)
    (visible : ∃ byte rest, source.cut comment.span = byte :: rest ∧ isGapByte byte = false) :
    keyword.span.stop + gapLength source keyword binding ≤ comment.span.start := by
  obtain ⟨byte, rest, first, other⟩ := visible
  have parts := Bytes.cut_append_cut source least starts (Int.le_trans order stops)
  have inner := Bytes.cut_append_cut source (by omega) order stops
  have width := Bytes.length_cut source least starts (by omega)
  change source.cut ⟨comment.span.start, comment.span.stop⟩ = _ at first
  rw [← inner, first] at parts
  have run := (List.takeWhile_sublist (l := source.cut ⟨keyword.span.stop, comment.span.start⟩)
    isGapByte).length_le
  unfold gapLength
  rw [← parts, List.cons_append, List.takeWhile_append,
    List.takeWhile_cons_of_neg (by simp [other]), List.append_nil]
  split <;> omega

/-- The bytes that are deleted after a keyword. -/
theorem cut_gap (least : 0 ≤ keyword.span.stop) (order : keyword.span.stop ≤ binding.span.start)
    (most : binding.span.start ≤ source.length) :
    source.cut ⟨keyword.span.stop, keyword.span.stop + gapLength source keyword binding⟩ =
      (source.cut ⟨keyword.span.stop, binding.span.start⟩).takeWhile isGapByte := by
  have bound := gapLength_le least order most
  have head := Bytes.take_cut_append least
    (show keyword.span.stop ≤ keyword.span.stop + gapLength source keyword binding by omega)
    bound most []
  rw [List.append_nil] at head
  rw [← head, List.prefix_iff_eq_take.mp (List.takeWhile_prefix isGapByte)]
  unfold gapLength
  congr 1
  omega

/-- The blanks after a keyword end at a boundary. -/
theorem boundary_gap (ends : source.Boundary keyword.span.stop)
    (order : keyword.span.stop ≤ binding.span.start) (most : binding.span.start ≤ source.length) :
    source.Boundary (keyword.span.stop + gapLength source keyword binding) := by
  have bound := gapLength_le ends.nonneg order most
  refine (ends.iff_cut (by omega) (by omega)).mpr ?_
  rw [cut_gap ends.nonneg order most]
  refine Bytes.exists_encode_of_ascii fun byte member => ?_
  exact toNat_of_isGapByte (List.mem_takeWhile_imp member)

/-! ## A whole scope -/

/-- The edits below nodes in a row stand in a row, if those of each node do. -/
theorem tidy_listings {low high : Int} {nodes : List Node} (row : Node.InRow low high nodes)
    (each : ∀ node ∈ nodes,
      Edit.Tidy source node.span.start node.span.stop (editsOf source node.listing)) :
    Edit.Tidy source low high (editsOf source (Node.listings nodes)) := by
  induction nodes generalizing low with
  | nil => exact .nil row
  | cons first rest ih =>
      obtain ⟨starts, -, row⟩ := row
      obtain ⟨tidy, each⟩ := List.forall_mem_cons.mp each
      rw [Node.listings, editsOf_append]
      exact (tidy.widen starts).append (ih row each)

/-- The offset after a keyword and the blanks that go with it. -/
def Heading.resume (source : Bytes) (parts : Heading) : Int :=
  parts.keyword.span.stop + gapLength source parts.keyword parts.binding

/-- A node with a heading deletes its keyword, up to what the gap leaves. -/
theorem Heading.Leads.keywordEdit? {parts : Heading} (leads : parts.Leads node) :
    keywordEdit? source node = some ⟨⟨parts.keyword.span.start, parts.resume source⟩, ""⟩ := by
  have named := leads.is_keyword
  simp only [Node.isDeclaringKeyword, Bool.and_eq_true] at named
  unfold Codebox.keywordEdit?
  rw [leads.declaring]
  exact if_pos named.2

/-- A well-laid node that declares by a keyword has a heading. -/
theorem Node.Sound.exists_leads (sound : node.Sound source) (declares : node.declaresByKeyword) :
    ∃ parts : Heading, parts.Leads node := by
  rcases node.declaresByKeyword_cases declares with kind | ⟨kind, child, member, named⟩
  · exact sound.shaped.declaration kind
  · rcases sound.shaped.loop kind with heading | absent
    · exact heading
    · rw [absent child member] at named
      cases named

/-- A well-laid node whose keyword is deleted has a heading. -/
theorem Node.Sound.exists_heading {edit : Edit} (sound : node.Sound source)
    (found : keywordEdit? source node = some edit) : ∃ parts : Heading, parts.Leads node :=
  sound.exists_leads (declaresByKeyword_of_keywordEdit? found)

namespace Heading.Leads

variable {parts : Heading}

/-- What stands before a keyword lies before it, and what follows it lies after
the blanks. -/
theorem rows (leads : parts.Leads node) (sound : node.Sound source) :
    Node.InRow node.span.start parts.keyword.span.start parts.before ∧
      Node.InRow (parts.resume source) node.span.stop
        (parts.between ++ parts.binding :: parts.after) ∧
      source.Boundary (parts.resume source) := by
  have soundChild : ∀ child ∈ parts.keyword :: (parts.between ++ parts.binding :: parts.after),
      child.Sound source := by
    intro child member
    refine sound.ofChild ?_
    rw [leads.children]
    exact List.mem_append_right _ member
  have soundKeyword := soundChild parts.keyword List.mem_cons_self
  have most := (soundChild parts.binding (by simp)).starts.le_length
  have row := sound.row
  rw [leads.children, Heading.nodes, Node.InRow, List.map_append, List.map_cons] at row
  obtain ⟨rowBefore, -, row⟩ := Span.row_append_cons.mp row
  have split := row
  rw [List.map_append, List.map_cons] at split
  obtain ⟨rowBetween, orderBinding, rowAfter⟩ := Span.row_append_cons.mp split
  refine ⟨rowBefore, ?_, boundary_gap soundKeyword.stops rowBetween.le most⟩
  have bound := gapLength_le soundKeyword.stops.nonneg rowBetween.le most
  -- The blanks end where the first comment starts, or else at the binding.
  cases between : parts.between with
  | nil => exact ⟨bound, orderBinding, rowAfter⟩
  | cons comment others =>
      rw [between] at row rowBetween
      obtain ⟨starts, order, rowOthers⟩ := rowBetween
      obtain ⟨-, -, row⟩ := row
      have member : comment ∈ parts.between := by rw [between]; exact List.mem_cons_self
      have sound := soundChild comment (by simp [between])
      refine ⟨?_, order, row⟩
      exact gapLength_le_of_trivia soundKeyword.stops.nonneg starts order rowOthers.le most
        (sound.shaped.visible_of_trivia (leads.trivia comment member).1)

/-- Nothing up to what a keyword binds is rewritten. -/
theorem editsOf_walk (leads : parts.Leads node) :
    editsOf source node.walk =
      editsOf source (Node.listings (parts.between ++ parts.binding :: parts.after)) := by
  rw [Node.walk_eq_listings, leads.children, Heading.nodes, Node.listings_append, Node.listings,
    editsOf_append, editsOf_append, editsOf_listings_eq_nil leads.before_calm,
    leads.keyword_calm.editsOf]
  rfl

/-- Where a keyword is deleted, the deletion comes before all other edits of the
node. -/
theorem tidy (leads : parts.Leads node) (sound : node.Sound source)
    (each : ∀ child ∈ node.children,
      Edit.Tidy source child.span.start child.span.stop (editsOf source child.listing)) :
    Edit.Tidy source node.span.start node.span.stop
      ((Codebox.keywordEdit? source node).toList ++ editsOf source node.walk) := by
  obtain ⟨rowBefore, row, boundary⟩ := leads.rows sound
  rw [leads.keywordEdit?, leads.editsOf_walk]
  refine .cons rowBefore.le ?_ ?_ boundary (tidy_listings row fun child member => each child ?_)
  · have wide := leads.keyword_wide
    change parts.keyword.span.start <
      parts.keyword.span.stop + gapLength source parts.keyword parts.binding
    omega
  · exact (sound.ofChild (by rw [leads.children]; simp [Heading.nodes])).starts
  · rw [leads.children]
    exact List.mem_append_right _ (List.mem_cons_of_mem _ member)

end Heading.Leads

/-- The edits of a node with a keyword are tidy if those of its children are. -/
theorem Node.Sound.tidy_keyword {edit : Edit} (sound : node.Sound source)
    (found : keywordEdit? source node = some edit)
    (each : ∀ child ∈ node.children,
      Edit.Tidy source child.span.start child.span.stop (editsOf source child.listing)) :
    Edit.Tidy source node.span.start node.span.stop (edit :: editsOf source node.walk) := by
  obtain ⟨parts, leads⟩ := sound.exists_heading found
  have tidy := leads.tidy sound each
  rwa [found] at tidy

/-- A node's own edit comes before those below it. -/
theorem editsOf_listing (node : Node) :
    editsOf source node.listing = (nodeEdit? source node).toList ++
      if node.kind.opensScope then [] else editsOf source node.walk := by
  rw [Node.listing_eq, editsOf, List.filterMap_cons]
  split <;> split <;> simp_all [editsOf]

/-- Nothing below a return statement is rewritten. -/
theorem Node.Sound.editsOf_walk_of_return (sound : node.Sound source)
    (returns : node.kind = .returnStatement) : editsOf source node.walk = [] := by
  rw [Node.walk_eq_listings]
  exact editsOf_listings_eq_nil (sound.shaped.returns returns).2

/-- A return statement is replaced as a whole, or not at all. -/
theorem Node.Sound.tidy_return (sound : node.Sound source)
    (returns : node.kind = .returnStatement) :
    Edit.Tidy source node.span.start node.span.stop (editsOf source node.listing) := by
  have nonempty := (sound.shaped.returns returns).1
  rw [editsOf_listing, sound.editsOf_walk_of_return returns, ite_self, List.append_nil]
  cases found : nodeEdit? source node with
  | none => exact .nil sound.order
  | some edit =>
      have whole : edit.span = node.span := nodeEdit?_span returns found
      have starts : edit.span.start = node.span.start := congrArg Span.start whole
      have stops : edit.span.stop = node.span.stop := congrArg Span.stop whole
      refine .cons (Int.le_of_eq starts.symm) ?_ ?_ ?_ (.nil (Int.le_of_eq stops))
      · rwa [starts, stops]
      · rw [starts]
        exact sound.starts
      · rw [stops]
        exact sound.stops

/-- The edits of a well-laid node stand in a row inside it. -/
theorem Node.Sound.tidy_listing (sound : node.Sound source) :
    Edit.Tidy source node.span.start node.span.stop (editsOf source node.listing) := by
  induction sound with
  | @mk head children starts stops order point row shaped below ih =>
      have sound := Node.Sound.mk starts stops order point row shaped below
      by_cases returns : (Node.mk head children).kind = .returnStatement
      · exact sound.tidy_return returns
      · rw [editsOf_listing, nodeEdit?_of_ne returns]
        cases found : keywordEdit? source (.mk head children) with
        | none =>
            split
            · exact .nil order
            · rw [Node.walk_eq_listings]
              exact tidy_listings row ih
        | some edit =>
            rw [opensScope_of_keywordEdit? found]
            exact sound.tidy_keyword found ih

/-- The edits below a well-laid node stand in a row inside it. -/
theorem Node.Sound.tidy_walk (sound : node.Sound source) :
    Edit.Tidy source node.span.start node.span.stop (editsOf source node.walk) := by
  rw [Node.walk_eq_listings]
  exact tidy_listings sound.row fun _ member => (sound.ofChild member).tidy_listing

/-! ## The two walks -/

/-- The keyword edits of nodes are the edits of those that are no returns. -/
theorem keywords_eq (nodes : List Node) :
    nodes.filterMap (keywordEdit? source) =
      editsOf source (nodes.filter (·.kind ≠ .returnStatement)) := by
  rw [editsOf, List.filterMap_filter]
  refine List.filterMap_congr fun node _ => ?_
  by_cases returns : node.kind = .returnStatement
  · rw [keywordEdit?_of_return returns, if_neg (by simpa using returns)]
  · rw [nodeEdit?_of_ne returns, if_pos (by simpa using returns)]

/-- The deletions of keywords are among the edits of a scope. -/
theorem keywords_sublist (nodes : List Node) :
    (nodes.filterMap (keywordEdit? source)).Sublist (editsOf source nodes) := by
  rw [keywords_eq]
  exact List.filter_sublist.filterMap _

/-- The return edits of a scope are the edits of its returns. -/
theorem returnEdits_eq {returns : List Edit} (expanded : returnEdits source node = .ok returns) :
    returns = editsOf source (returnsOf node) := by
  obtain ⟨found, each, same⟩ := Outcome.bind_eq_ok_iff.mp expanded
  cases same
  have kinds : ∀ inner ∈ returnsOf node, inner.kind = .returnStatement := fun inner member => by
    simpa using (List.mem_filter.mp member).2
  have members := Outcome.mapM_eq_ok_iff.mp each
  clear expanded each
  generalize returnsOf node = nodes at members kinds
  induction members with
  | nil => rfl
  | @cons first edit rest found ended _ ih =>
      obtain ⟨kind, kinds⟩ := List.forall_mem_cons.mp kinds
      rw [editsOf, List.filterMap_cons, List.filterMap_cons, nodeEdit?_of_return kind ended,
        ih kinds]
      rfl

/-- Without a keyword of its own, a node deletes those in its scope. -/
theorem keywordEdits_of_none (kept : keywordEdit? source node = none) :
    keywordEdits source node = node.walk.filterMap (keywordEdit? source) := by
  rw [keywordEdits, List.filterMap_cons, kept]

/-- The deletions of keywords in any well-laid node stand in a row inside it,
whether or not it opens a scope. -/
theorem Node.Sound.tidy_keywordEdits (sound : node.Sound source) :
    Edit.Tidy source node.span.start node.span.stop (keywordEdits source node) := by
  cases found : keywordEdit? source node with
  | none =>
      rw [keywordEdits_of_none found]
      exact sound.tidy_walk.sublist (keywords_sublist node.walk)
  | some edit =>
      rw [keywordEdits, List.filterMap_cons_some found]
      refine (sound.tidy_keyword found ?_).sublist ((keywords_sublist node.walk).cons_cons edit)
      exact fun child member => (sound.ofChild member).tidy_listing

/-- The deletions of keywords and the expansions of returned arrays are together
the edits of a scope. -/
theorem keywordEdits_append_perm {returns : List Edit} (kept : keywordEdit? source node = none)
    (expanded : returnEdits source node = .ok returns) :
    (keywordEdits source node ++ returns).Perm (editsOf source node.walk) := by
  rw [keywordEdits_of_none kept, returnEdits_eq expanded, keywords_eq, ← editsOf_append]
  refine List.Perm.filterMap _ (List.perm_append_comm.trans ?_)
  have split := List.filter_append_perm (fun node : Node => node.kind = .returnStatement) node.walk
  simpa [returnsOf] using split

/-- A return statement can be expanded if its elements can be found. -/
theorem Node.Sound.exists_returnEdit (sound : node.Sound source) {elements : Option (List Node)}
    (found : returnedElements node = .ok elements) :
    ∃ edit, returnEdit source node = .ok edit := by
  unfold returnEdit
  rw [found, Outcome.bind_ok]
  cases elements with
  | none => exact ⟨none, rfl⟩
  | some elements =>
      -- The texts of the elements and of the statement can be read.
      have readable : ∀ element ∈ elements, ∃ text, element.text source = .ok text := by
        unfold returnedElements arrayElements at found
        split at found
        next argument first =>
          have soundArgument := sound.part (List.mem_of_mem_head? first)
          split at found
          · split at found
            next => cases found
            next =>
              cases found
              exact fun element member => (soundArgument.part member).text
          · cases found
        next => cases found
      obtain ⟨texts, read⟩ := Outcome.exists_mapM_iff.mpr readable
      obtain ⟨text, whole⟩ := sound.text
      simp only [read, whole, Outcome.bind_ok]
      exact ⟨_, rfl⟩

/-- In a well-laid tree a return statement fails to expand only for a hole in its
array. -/
theorem Node.Sound.returnEdit_error (sound : node.Sound source) {fault : Fault}
    (failed : returnEdit source node = .error fault) :
    ∃ location, fault = .unsupported .arrayHole location := by
  cases found : returnedElements node with
  | ok elements =>
      obtain ⟨edit, expanded⟩ := sound.exists_returnEdit found
      rw [expanded] at failed
      cases failed
  | error refusal =>
      have same : returnEdit source node = .error refusal := by
        unfold returnEdit
        rw [found, Outcome.bind_error]
      rw [same] at failed
      cases failed
      unfold returnedElements arrayElements at found
      split at found
      next argument _ =>
        split at found
        · split at found
          next comma _ => exact ⟨comma.location, (Except.error.inj found).symm⟩
          next => cases found
        · cases found
      next => cases found

/-- The returns of a well-laid scope are well-laid return statements. -/
theorem Node.Sound.mem_returnsOf (sound : node.Sound source) {inner : Node}
    (member : inner ∈ returnsOf node) : inner.Sound source ∧ inner.kind = .returnStatement := by
  obtain ⟨among, kind⟩ := List.mem_filter.mp member
  exact ⟨sound.walk among, by simpa using kind⟩

/-- Only a hole in an array stops the expansion of a scope. -/
theorem Node.Sound.returnEdits_error (sound : node.Sound source) {fault : Fault}
    (failed : returnEdits source node = .error fault) :
    ∃ location, fault = .unsupported .arrayHole location := by
  rcases Outcome.bind_eq_error_iff.mp failed with failed | ⟨found, -, failed⟩
  · obtain ⟨before, inner, after, same, -, failed⟩ := Outcome.mapM_eq_error_iff.mp failed
    have member : inner ∈ returnsOf node := by
      rw [same]
      exact List.mem_append_right before List.mem_cons_self
    exact (sound.mem_returnsOf member).1.returnEdit_error failed
  · cases failed

/-! ## The returns of a scope -/

/-- The return statements of a node and of what lies below it within one scope. -/
def Node.returnsWithin (node : Node) : List Node :=
  node.listing.filter (·.kind = .returnStatement)

theorem Node.Calm.returnsWithin (calm : node.Calm) : node.returnsWithin = [] := by
  refine List.filter_eq_nil_iff.mpr fun inner member returns => ?_
  have kept := calm inner member
  rw [of_decide_eq_true returns] at kept
  cases kept

/-- The returns of a scope are those in its children, in order. -/
theorem returnsOf_eq_flatMap (scope : Node) :
    returnsOf scope = scope.children.flatMap Node.returnsWithin := by
  rw [returnsOf, Node.walk_eq_listings, Node.listings_eq_flatMap, List.filter_flatMap]
  rfl

end Codebox
