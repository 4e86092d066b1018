import Codebox.Declaration
import Codebox.Proofs.ScopeEdits

/-! # Functions of well-laid scripts

The functions of a well-laid script stand in a row, and the edits of a body lie
between its braces. Rendering a body is therefore reading it from left to right
with these edits made. It can fail at one place only after the returned arrays
are expanded: where the bytes up to the last one of the body are no text.
-/

namespace Codebox

variable {source : Bytes}

/-! ## Blocks -/

namespace Braces.Enclose

variable {parts : Braces} {block : Node}

theorem sound_opening (enclosed : parts.Enclose block) (sound : block.Sound source) :
    parts.opening.Sound source :=
  sound.ofChild (by simp [enclosed.children])

theorem sound_closing (enclosed : parts.Enclose block) (sound : block.Sound source) :
    parts.closing.Sound source :=
  sound.ofChild (by simp [enclosed.children])

theorem sound_comment (enclosed : parts.Enclose block) (sound : block.Sound source)
    {comment : Node} (member : comment ∈ parts.comments) : comment.Sound source :=
  sound.ofChild (by simp [enclosed.children, member])

/-- What lies between the braces stands in a row, and so does what follows them. -/
theorem rows (enclosed : parts.Enclose block) (sound : block.Sound source) :
    Node.InRow (block.span.start + 1) parts.closing.span.start parts.inner ∧
      Node.InRow (parts.closing.span.start + 1) block.span.stop parts.comments := by
  have row := sound.row
  rw [enclosed.children, Node.InRow, List.map_cons, List.map_append, List.map_cons] at row
  obtain ⟨-, -, row⟩ := row
  obtain ⟨inner, -, comments⟩ := Span.row_append_cons.mp row
  rw [enclosed.opening_span] at inner
  rw [enclosed.closing_span] at comments
  exact ⟨inner, comments⟩

/-- The text between the braces starts at a boundary. -/
theorem starts (enclosed : parts.Enclose block) (sound : block.Sound source) :
    source.Boundary (block.span.start + 1) := by
  have stops := (enclosed.sound_opening sound).stops
  rwa [enclosed.opening_span] at stops

/-- Neither the braces nor the comments after them are rewritten. -/
theorem editsOf_walk (enclosed : parts.Enclose block) (sound : block.Sound source) :
    editsOf source block.walk = editsOf source (Node.listings parts.inner) := by
  have calm : ∀ comment ∈ parts.comments, comment.Calm := fun comment member =>
    (enclosed.sound_comment sound member).calm_of_trivia (enclosed.comments_trivia comment member)
  rw [Node.walk_eq_listings, enclosed.children, Node.listings, Node.listings_append, Node.listings,
    editsOf_append, editsOf_append, editsOf_append, enclosed.opening_calm.editsOf,
    enclosed.closing_calm.editsOf, editsOf_listings_eq_nil calm, List.nil_append,
    List.append_nil, List.append_nil]

/-- The edits of a block lie between its braces. -/
theorem tidy (enclosed : parts.Enclose block) (sound : block.Sound source) :
    Edit.Tidy source (block.span.start + 1) parts.closing.span.start
      (editsOf source block.walk) := by
  rw [enclosed.editsOf_walk sound]
  refine tidy_listings (enclosed.rows sound).1 fun child member => ?_
  exact (sound.ofChild (by simp [enclosed.children, member])).tidy_listing

/-- The closing brace has a width. -/
theorem closing_lt (enclosed : parts.Enclose block) (sound : block.Sound source) :
    parts.closing.span.start < block.span.stop := by
  have order := (enclosed.rows sound).2.le
  omega

/-- The closing brace is the last child of a block that is no comment. -/
theorem find?_closing (enclosed : parts.Enclose block) :
    block.children.reverse.find? (!·.kind.isTrivia) = some parts.closing := by
  have solid : parts.closing.kind.isTrivia = false := by
    rw [enclosed.closing_kind]
    rfl
  have trailing : parts.comments.reverse.find? (!·.kind.isTrivia) = none := by
    simpa using enclosed.comments_trivia
  rw [enclosed.children, List.reverse_cons, List.reverse_append, List.reverse_cons,
    List.append_assoc, List.append_assoc, List.find?_append, trailing, List.singleton_append,
    List.find?_cons_of_pos (by simp [solid])]
  rfl

/-- A block has one closing brace. -/
theorem closing_unique {others : Braces} (enclosed : parts.Enclose block)
    (enclosedOthers : others.Enclose block) : parts.closing = others.closing :=
  Option.some.inj (enclosed.find?_closing.symm.trans enclosedOthers.find?_closing)

/-- A block declares nothing by itself. -/
theorem keywordEdit? (enclosed : parts.Enclose block) : keywordEdit? source block = none := by
  apply keywordEdit?_eq_none
  rw [enclosed.kind]
  rfl

end Braces.Enclose

/-! ## Functions -/

namespace FunctionNode

variable {function : FunctionNode}

/-- A function is read off a declaration with a name, parameters and a body. -/
theorem of?_eq_some {node : Node} (found : of? node = some function) :
    function.node = node ∧ node.kind = .functionDeclaration ∧
      node.child? .name = some function.name ∧
      node.child? .parameters = some function.parameters ∧
      node.child? .body = some function.body := by
  unfold of? at found
  split at found
  next kind =>
    split at found
    next name parameters body =>
      cases found
      exact ⟨rfl, kind, name, parameters, body⟩
    next => cases found
  next => cases found

/-- A function whose parts are well laid, with a body in braces. -/
structure Sound (source : Bytes) (function : FunctionNode) : Prop where
  node : function.node.Sound source
  name : function.name.Sound source
  parameters : function.parameters.Sound source
  body : function.body.Sound source
  listed : function.parameters ∈ function.node.children
  contained : function.body ∈ function.node.children
  braces : ∃ parts : Braces, parts.Enclose function.body
  closed : ∀ parts : Braces, parts.Enclose function.body →
    source.cut parts.closing.span = Utf8.encode "\x7d"
  stop : function.node.span.stop = function.body.span.stop
  ordered : function.parameters.span.stop ≤ function.body.span.start

/-- A function that is read off a well-laid node is well laid. -/
theorem sound_of? {node : Node} (sound : node.Sound source) (found : of? node = some function) :
    function.Sound source := by
  obtain ⟨rfl, kind, name, parameters, body⟩ := of?_eq_some found
  obtain ⟨-, list, inner, parts, -, listed, again, enclosed, written, stop, ordered⟩ :=
    sound.shaped.function kind
  rw [parameters] at listed
  rw [body] at again
  cases listed
  cases again
  refine ⟨sound, sound.child? name, sound.child? parameters, sound.child? body,
    List.mem_of_find?_eq_some parameters, List.mem_of_find?_eq_some body, ⟨parts, enclosed⟩, ?_,
    stop, ordered⟩
  intro others enclosedAgain
  rw [enclosedAgain.closing_unique enclosed, written]

/-- The functions at the top level of a well-laid tree are well laid. -/
theorem sound_topLevel {root : Node} (sound : root.Sound source)
    (member : function ∈ topLevel root) : function.Sound source := by
  obtain ⟨node, memberNode, found⟩ := List.mem_filterMap.mp member
  exact sound_of? (sound.namedChild memberNode) found

/-- The exported functions of a well-laid tree are well laid. -/
theorem sound_exported {root : Node} (sound : root.Sound source)
    (member : function ∈ exported root) : function.Sound source := by
  obtain ⟨statement, memberStatement, found⟩ := List.mem_filterMap.mp member
  unfold exported? at found
  split at found
  next =>
    obtain ⟨node, declared, found⟩ := Option.bind_eq_some_iff.mp found
    exact sound_of? ((sound.namedChild memberStatement).child? declared) found
  next => cases found

/-- Every function declaration is a function with parts. -/
theorem exists_of? {node : Node} (sound : node.Sound source)
    (kind : node.kind = .functionDeclaration) : ∃ function, of? node = some function := by
  obtain ⟨name, parameters, body, -, foundName, foundParameters, foundBody, -⟩ :=
    sound.shaped.function kind
  refine ⟨⟨node, name, parameters, body⟩, ?_⟩
  unfold of?
  rw [if_pos kind, foundName, foundParameters, foundBody]

/-- The functions of a script are its function declarations. -/
theorem map_node_topLevel {root : Node} (sound : root.Sound source) :
    (topLevel root).map FunctionNode.node =
      root.namedChildren.filter (·.kind = .functionDeclaration) := by
  unfold topLevel
  have each : ∀ node ∈ root.namedChildren, node.Sound source := fun _ => sound.namedChild
  generalize root.namedChildren = nodes at each
  induction nodes with
  | nil => rfl
  | cons first rest ih =>
      obtain ⟨soundFirst, each⟩ := List.forall_mem_cons.mp each
      by_cases kind : first.kind = .functionDeclaration
      · obtain ⟨function, found⟩ := exists_of? soundFirst kind
        rw [List.filterMap_cons_some found, List.map_cons, (of?_eq_some found).1, ih each,
          List.filter_cons_of_pos (by simpa using kind)]
      · have absent : of? first = none := if_neg kind
        rw [List.filterMap_cons_none absent, ih each,
          List.filter_cons_of_neg (by simpa using kind)]

/-- The functions of a script stand in a row. -/
theorem topLevel_row {root : Node} (sound : root.Sound source) :
    Node.InRow root.span.start root.span.stop ((topLevel root).map FunctionNode.node) := by
  rw [map_node_topLevel sound]
  exact sound.row.sublist ((List.filter_sublist.trans List.filter_sublist).map Node.span)

namespace Sound

/-- A function covers its braces at least. -/
theorem wide (sound : function.Sound source) :
    function.node.span.start < function.node.span.stop := by
  obtain ⟨parts, enclosed⟩ := sound.braces
  have inside := sound.node.row.inside (List.mem_map_of_mem sound.contained)
  have order := (enclosed.rows sound.body).1.le
  have closing := enclosed.closing_lt sound.body
  omega

/-- The name of a well-laid function can be read. -/
theorem nameText (sound : function.Sound source) : ∃ name, function.nameText source = .ok name :=
  sound.name.text

/-- The edits of a body lie between its first and its last byte. -/
theorem tidy (sound : function.Sound source) :
    Edit.Tidy source function.inside.start function.inside.stop
      (editsOf source function.body.walk) := by
  obtain ⟨parts, enclosed⟩ := sound.braces
  refine (enclosed.tidy sound.body).extend ?_
  have closing := enclosed.closing_lt sound.body
  exact Int.le_sub_one_of_lt closing

/-- The inside of a body starts at a boundary. -/
theorem inside_starts (sound : function.Sound source) : source.Boundary function.inside.start := by
  obtain ⟨parts, enclosed⟩ := sound.braces
  exact enclosed.starts sound.body

/-- The inside of a body stops in the text. -/
theorem inside_most (sound : function.Sound source) : function.inside.stop ≤ source.length := by
  have most := sound.body.stops.le_length
  change function.body.span.stop - 1 ≤ source.length
  omega

/-- The edits that a body is rendered with, in the order of the text. -/
theorem edits_perm (sound : function.Sound source) {returns : List Edit}
    (expanded : returnEdits source function.body = .ok returns) :
    (keywordEdits source function.body ++ returns).Perm (editsOf source function.body.walk) := by
  obtain ⟨parts, enclosed⟩ := sound.braces
  exact keywordEdits_append_perm enclosed.keywordEdit? expanded

end Sound

/-- All that rendering a body asks for: the name can be read, and the edits of the body
lie in order between its first and its last byte. -/
structure Orderly (source : Bytes) (function : FunctionNode) : Prop where
  named : ∃ name, function.nameText source = .ok name
  starts : source.Boundary function.inside.start
  most : function.inside.stop ≤ source.length
  quiet : keywordEdit? source function.body = none
  edits : Edit.Tidy source function.inside.start function.inside.stop
    (editsOf source function.body.walk)

/-- A well-laid function is orderly. -/
theorem Sound.orderly (sound : function.Sound source) : function.Orderly source := by
  obtain ⟨parts, enclosed⟩ := sound.braces
  exact ⟨sound.nameText, sound.inside_starts, sound.inside_most, enclosed.keywordEdit?, sound.tidy⟩

/-- A body is read from left to right once its returned arrays are expanded. -/
theorem Orderly.renderBody_outcome (orderly : function.Orderly source) :
    (function.renderBody source).outcome = returnEdits source function.body >>= fun _ =>
      (source.woven function.inside.stop function.inside.start
        (editsOf source function.body.walk)).decode := by
  obtain ⟨name, named⟩ := orderly.named
  unfold renderBody
  simp only [Run.outcome_bind, Run.outcome_lift, Run.outcome_write, named, Outcome.bind_ok]
  cases expanded : returnEdits source function.body with
  | error fault => rfl
  | ok returns =>
      rw [Outcome.bind_ok, Outcome.bind_ok]
      exact Bytes.spliceIn_eq_decode (keywordEdits_append_perm orderly.quiet expanded)
        orderly.starts.nonneg orderly.most orderly.edits

/-- A function is rendered if its parameters can be read and its body is
rendered. -/
theorem declaration_outcome (function : FunctionNode) (options : Options) {name : String}
    (named : function.nameText source = .ok name) :
    (function.declaration source options).outcome = function.readParameters source options >>=
      fun parameters => (function.renderBody source).outcome >>= fun body =>
        .ok {
          name := name
          parameters := parameters.map (·.name)
          defaults := defaultsOf parameters
          body := body
          isMain := name = options.mainName } := by
  unfold declaration
  simp only [Run.outcome_bind, Run.outcome_lift, named, Outcome.bind_ok]
  rfl

/-- A function renders to the text of its declaration. -/
theorem render_outcome (function : FunctionNode) (options : Options) :
    (function.render source options).outcome =
      (function.declaration source options).outcome >>= fun declaration =>
        .ok declaration.text := by
  unfold render
  rw [Run.outcome_bind]
  rfl

/-- A function can be rendered exactly if it can be declared. -/
theorem exists_render_iff {function : FunctionNode} {options : Options} :
    (∃ text, (function.render source options).outcome = .ok text) ↔
      ∃ declaration, (function.declaration source options).outcome = .ok declaration := by
  rw [render_outcome]
  constructor
  · rintro ⟨text, found⟩
    obtain ⟨declaration, declared, -⟩ := Outcome.bind_eq_ok_iff.mp found
    exact ⟨declaration, declared⟩
  · rintro ⟨declaration, declared⟩
    exact ⟨declaration.text, by rw [declared]; rfl⟩

end FunctionNode

end Codebox
