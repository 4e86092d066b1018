import Codebox.Proofs.KeywordEdits
import Codebox.Proofs.Rendering

/-! # A printer for bodies

A body can also be printed by recursion on its tree: a nested scope as it stands,
a returned array as a plain list, a declaration without its keyword and the blanks
after it, and all bytes that belong to no child as they stand. Making the edits of
a scope in its text gives what the printer prints.
-/

namespace Codebox

variable {source : Bytes}

/-- The elements of the array that a node returns, if it returns one. -/
def Node.returnedArray? (node : Node) : Option (List Node) :=
  if node.kind = .returnStatement then
    (node.parts.head?.filter (·.kind = .array)).map Node.parts
  else none

/-- A return of several values. It ends with a semicolon if the statement that
covers `span` does. -/
def printedReturn (source : Bytes) (span : Span) (elements : List Node) : Bytes :=
  Utf8.encode "return " ++
    ((Utf8.encode ", ").intercalate (elements.map fun element => source.cut element.span) ++
      if (source.cut span).getLast? = some 0x3B then [0x3B] else [])

/-- What a child binds by keyword, if it is the keyword of a declaration. -/
def boundBy? (parent : Kind) (child : Node) (rest : List Node) : Option Node :=
  if child.isDeclaringKeyword then rest.find? parent.binds else none

namespace Node

mutual

/-- A node without keywords and with returned arrays expanded. -/
def printed (source : Bytes) : Node → Bytes
  | .mk head children =>
    if head.kind.opensScope then source.cut head.span
    else
      match returnedArray? (.mk head children) with
      | some elements => printedReturn source head.span elements
      | none => printedFrom source head.kind head.span.stop head.span.start children

/-- The children of a node from an offset on, and what lies between and after
them. A keyword is left out with the blanks after it, as far as a scan from its end
goes. -/
def printedFrom (source : Bytes) (parent : Kind) (stop : Int) : Int → List Node → Bytes
  | offset, [] => source.cut ⟨offset, stop⟩
  | offset, child :: rest =>
    source.cut ⟨offset, child.span.start⟩ ++
      match boundBy? parent child rest with
      | some binding =>
        let resume := (source.scanGap? binding.span.start child.span.stop).getD child.span.stop
        printedFrom source parent stop resume rest
      | none => printed source child ++ printedFrom source parent stop child.span.stop rest

end

/-- A node is printed as its kind and the array it returns say. -/
theorem printed_eq (node : Node) :
    node.printed source =
      if node.kind.opensScope then source.cut node.span
      else
        match node.returnedArray? with
        | some elements => printedReturn source node.span elements
        | none =>
          printedFrom source node.kind node.span.stop node.span.start node.children := by
  obtain ⟨head, children⟩ := node
  rw [printed]
  rfl

end Node

/-! ## Returned arrays -/

/-- The bytes of joined texts are their joined bytes. -/
theorem encode_joined (separator : String) (texts : List String) :
    Utf8.encode (Text.joined separator texts) =
      (Utf8.encode separator).intercalate (texts.map Utf8.encode) := by
  induction texts with
  | nil => rfl
  | cons text rest ih =>
      cases rest with
      | nil => simp [Text.joined, List.intercalate]
      | cons next others =>
          rw [Text.joined, Utf8.encode_append, Utf8.encode_append, ih]
          · simp [List.intercalate]
          · exact List.cons_ne_nil next others

/-- A text ends with a semicolon exactly if its last byte is one. -/
theorem endsWithSemicolon_iff (text : String) :
    endsWithSemicolon text ↔ (Utf8.encode text).getLast? = some 0x3B := by
  unfold endsWithSemicolon Utf8.encode
  rw [decide_eq_true_iff]
  exact (Utf8.getLast?_encodeChars (show ';'.toNat < 0x80 by decide)).symm

/-- The texts of nodes are the bytes that they cover. -/
theorem map_encode_of_mapM {nodes : List Node} {texts : List String}
    (read : nodes.mapM (·.text source) = .ok texts) :
    texts.map Utf8.encode = nodes.map fun node => source.cut node.span := by
  have each := Outcome.mapM_eq_ok_iff.mp read
  clear read
  induction each with
  | nil => rfl
  | cons first _ ih =>
      rw [List.map_cons, List.map_cons, ih, Bytes.decode_eq_ok_iff.mp first]

/-- What a return statement is read to return is what the expansion takes from it. -/
theorem returnedArray?_eq {node : Node} {elements : Option (List Node)}
    (returns : node.kind = .returnStatement) (found : returnedElements node = .ok elements) :
    node.returnedArray? = elements := by
  unfold returnedElements returnArgument? arrayElements at found
  unfold Node.returnedArray?
  rw [if_pos returns]
  cases first : node.parts.head? with
  | none =>
      rw [first] at found
      cases found
      rfl
  | some argument =>
      simp only [first] at found
      by_cases array : argument.kind = .array
      · rw [if_pos array] at found
        split at found
        · cases found
        · cases found
          simp [array]
      · rw [if_neg array] at found
        cases found
        simp [array]

/-- A return statement that expands is replaced exactly if it returns an array. -/
theorem returnEdit_eq {node : Node} {edit : Option Edit} (returns : node.kind = .returnStatement)
    (expanded : returnEdit source node = .ok edit) :
    match node.returnedArray? with
    | some elements => ∃ text, edit = some ⟨node.span, text⟩ ∧
        Utf8.encode text = printedReturn source node.span elements
    | none => edit = none := by
  obtain ⟨elements, found, expanded⟩ := Outcome.bind_eq_ok_iff.mp expanded
  rw [returnedArray?_eq returns found]
  cases elements with
  | none =>
      cases expanded
      rfl
  | some elements =>
      obtain ⟨texts, read, expanded⟩ := Outcome.bind_eq_ok_iff.mp expanded
      obtain ⟨whole, covered, expanded⟩ := Outcome.bind_eq_ok_iff.mp expanded
      cases expanded
      refine ⟨_, rfl, ?_⟩
      have ends := endsWithSemicolon_iff whole
      rw [Bytes.decode_eq_ok_iff.mp covered] at ends
      unfold printedReturn
      rw [Utf8.encode_append, Utf8.encode_append, encode_joined, map_encode_of_mapM read,
        List.append_assoc]
      by_cases semicolon : endsWithSemicolon whole
      · rw [if_pos semicolon, if_pos (ends.mp semicolon)]
        rfl
      · rw [if_neg semicolon, if_neg (fun last => semicolon (ends.mpr last))]
        rfl

/-! ## Scopes -/

/-- A child that is no keyword, or has nothing to bind, binds nothing. -/
theorem boundBy?_eq_none {parent : Kind} {child : Node} {rest : List Node}
    (plain : child.isDeclaringKeyword = false ∨ ∀ other, parent.binds other = false) :
    boundBy? parent child rest = none := by
  unfold boundBy?
  rcases plain with other | unbound
  · rw [other]
    rfl
  · split
    · exact List.find?_eq_none.mpr fun other _ => by simp [unbound other]
    · rfl

/-- The edits of a node give what the printer prints. -/
def PrintsAsEdited (source : Bytes) (node : Node) : Prop :=
  node.printed source =
    source.woven node.span.stop node.span.start (editsOf source node.listing)

/-- Where no keyword is left out, children are printed in turn. -/
theorem printedFrom_eq_woven {parent : Kind} {offset stop : Int} {children : List Node}
    (least : 0 ≤ offset) (row : Node.InRow offset stop children)
    (sound : ∀ child ∈ children, child.Sound source)
    (prints : ∀ child ∈ children, PrintsAsEdited source child)
    (plain : (∀ child ∈ children, child.isDeclaringKeyword = false) ∨
      ∀ other, parent.binds other = false) :
    Node.printedFrom source parent stop offset children =
      source.woven stop offset (editsOf source (Node.listings children)) := by
  induction children generalizing offset with
  | nil => rfl
  | cons child rest ih =>
      obtain ⟨starts, order, row⟩ := row
      obtain ⟨soundChild, sound⟩ := List.forall_mem_cons.mp sound
      obtain ⟨first, prints⟩ := List.forall_mem_cons.mp prints
      have tidyChild := soundChild.tidy_listing
      have tidyRest := tidy_listings row fun other member => (sound other member).tidy_listing
      have plainChild := plain.imp_left fun each => each child List.mem_cons_self
      have plainRest := plain.imp_left fun each other member =>
        each other (List.mem_cons_of_mem child member)
      rw [Node.printedFrom, boundBy?_eq_none plainChild, Node.listings, editsOf_append,
        Bytes.woven_append least (tidyChild.widen starts).ordered tidyRest.ordered,
        ← Bytes.cut_append_woven least starts tidyChild.ordered]
      dsimp only
      rw [first, ih (by omega) row sound prints plainRest, List.append_assoc]

/-- Calm children before a keyword are printed as they stand. -/
theorem printedFrom_calm_append {parent : Kind} {offset stop : Int} {before after : List Node}
    {keyword : Node} (least : 0 ≤ offset)
    (row : Node.InRow offset keyword.span.start before)
    (sound : ∀ child ∈ before, child.Sound source)
    (prints : ∀ child ∈ before, PrintsAsEdited source child)
    (calm : ∀ child ∈ before, child.Calm)
    (plain : ∀ child ∈ before, child.isDeclaringKeyword = false) :
    Node.printedFrom source parent stop offset (before ++ keyword :: after) =
      source.cut ⟨offset, keyword.span.start⟩ ++
        Node.printedFrom source parent stop keyword.span.start (keyword :: after) := by
  induction before generalizing offset with
  | nil =>
      have start : 0 ≤ keyword.span.start := Int.le_trans least row
      rw [List.nil_append, Node.printedFrom, Node.printedFrom, Bytes.cut_self source start]
      rfl
  | cons child rest ih =>
      obtain ⟨starts, order, row⟩ := row
      obtain ⟨soundChild, sound⟩ := List.forall_mem_cons.mp sound
      obtain ⟨first, prints⟩ := List.forall_mem_cons.mp prints
      obtain ⟨calmChild, calm⟩ := List.forall_mem_cons.mp calm
      obtain ⟨plainChild, plain⟩ := List.forall_mem_cons.mp plain
      have verbatim : child.printed source = source.cut ⟨child.span.start, child.span.stop⟩ := by
        rw [first, calmChild.editsOf]
        rfl
      rw [List.cons_append, Node.printedFrom, boundBy?_eq_none (.inl plainChild)]
      dsimp only
      rw [verbatim, ih (by omega) row sound prints calm plain, ← List.append_assoc,
        ← List.append_assoc, Bytes.cut_append_cut source least starts order,
        Bytes.cut_append_cut source least (by omega) row.le]

variable {node : Node}

/-- Trivia is never bound. -/
theorem Kind.binds_trivia (parent : Kind) {child : Node} (trivia : child.kind.isTrivia)
    (role : child.head.role = none) : parent.binds child = false := by
  unfold Kind.binds
  split
  · cases kind : child.kind <;> simp_all [Kind.isTrivia]
  · cases kind : child.kind <;> simp_all [Kind.isTrivia]
  · rw [role]
    rfl
  · rfl

/-- The keyword of a heading binds its binding. -/
theorem Heading.Leads.boundBy? {parts : Heading} (leads : parts.Leads node) :
    boundBy? node.kind parts.keyword (parts.between ++ parts.binding :: parts.after) =
      some parts.binding := by
  unfold Codebox.boundBy?
  rw [if_pos leads.is_keyword, List.find?_eq_some_iff_append]
  refine ⟨leads.bound, parts.between, parts.after, rfl, fun child member => ?_⟩
  obtain ⟨trivia, role⟩ := leads.trivia child member
  rw [Kind.binds_trivia _ trivia role]
  rfl

/-- The scan over the blanks after a keyword ends where the text goes on after its deletion. -/
theorem Heading.Leads.scanGap? {parts : Heading} (leads : parts.Leads node)
    (sound : node.Sound source) :
    source.scanGap? parts.binding.span.start parts.keyword.span.stop =
      some (parts.resume source) :=
  ((leads.opens sound).deletes sound.nested).scanned

/-- A declaration is printed without its keyword. -/
theorem Heading.Leads.printedFrom_eq {parts : Heading} (leads : parts.Leads node)
    (sound : node.Sound source) (prints : ∀ child ∈ node.children, PrintsAsEdited source child) :
    Node.printedFrom source node.kind node.span.stop node.span.start node.children =
      source.woven node.span.stop node.span.start
        ((Codebox.keywordEdit? source node).toList ++ editsOf source node.walk) := by
  obtain ⟨rowBefore, row, boundary⟩ := leads.rows sound
  have soundChild : ∀ child ∈ node.children, child.Sound source := fun _ => sound.ofChild
  have start : 0 ≤ parts.keyword.span.start := Int.le_trans sound.starts.nonneg rowBefore.le
  rw [leads.keywordEdit?, leads.editsOf_walk]
  rw [leads.children, Heading.nodes] at prints soundChild ⊢
  obtain ⟨printsBefore, prints⟩ := List.forall_mem_append.mp prints
  obtain ⟨soundBefore, soundChild⟩ := List.forall_mem_append.mp soundChild
  obtain ⟨plainBefore, plainAfter⟩ := List.forall_mem_append.mp leads.single
  have plain : ∀ child ∈ parts.between ++ parts.binding :: parts.after,
      child.isDeclaringKeyword = false := by
    refine List.forall_mem_append.mpr ⟨fun child member => ?_, plainAfter⟩
    rw [Node.isDeclaringKeyword, (leads.trivia child member).2]
    rfl
  have rest : Node.printedFrom source node.kind node.span.stop (parts.resume source)
      (parts.between ++ parts.binding :: parts.after) = source.woven node.span.stop
        (parts.resume source) (editsOf source (Node.listings _)) :=
    printedFrom_eq_woven boundary.nonneg row
      (fun child member => soundChild child (List.mem_cons_of_mem _ member))
      (fun child member => prints child (List.mem_cons_of_mem _ member)) (.inl plain)
  rw [printedFrom_calm_append sound.starts.nonneg rowBefore soundBefore printsBefore
      leads.before_calm plainBefore, Node.printedFrom, leads.boundBy?, Bytes.cut_self source start]
  dsimp only
  rw [leads.scanGap? sound]
  exact congrArg (source.cut ⟨node.span.start, parts.keyword.span.start⟩ ++ ·) rest

/-- A well-laid node without a keyword to delete has none, or nothing for it to bind. -/
theorem Node.Sound.plain_of_keywordEdit?_none (sound : node.Sound source)
    (absent : keywordEdit? source node = none) :
    (∀ child ∈ node.children, child.isDeclaringKeyword = false) ∨
      ∀ other, node.kind.binds other = false := by
  have headless : ¬ ∃ parts : Heading, parts.Leads node := by
    rintro ⟨parts, leads⟩
    rw [leads.keywordEdit?] at absent
    cases absent
  by_cases declares : node.kind.declares
  · exact (headless (sound.shaped.declaration declares)).elim
  · by_cases loop : node.kind = .forInStatement
    · exact .inl ((sound.shaped.loop loop).resolve_left headless)
    · right
      intro other
      cases kind : node.kind <;> simp_all [Kind.declares, Kind.binds]

/-- A nested scope is printed as it stands. -/
theorem prints_scope (scope : node.kind.opensScope) : PrintsAsEdited source node := by
  have kept : node.kind.isRewritten = false := by
    cases kind : node.kind <;> simp_all [Kind.opensScope, Kind.isRewritten]
  rw [PrintsAsEdited, editsOf_listing, nodeEdit?_eq_none kept, node.printed_eq, if_pos scope,
    if_pos scope]
  rfl

/-- A return statement is printed as the list that it returns, or as it stands. -/
theorem Node.Sound.prints_return (sound : node.Sound source)
    (returns : node.kind = .returnStatement) {edit : Option Edit}
    (expanded : returnEdit source node = .ok edit)
    (prints : ∀ child ∈ node.children, PrintsAsEdited source child) :
    PrintsAsEdited source node := by
  have quiet := sound.editsOf_walk_of_return returns
  have scope : ¬ node.kind.opensScope := by
    rw [returns]
    decide
  have result := returnEdit_eq returns expanded
  rw [PrintsAsEdited, editsOf_listing, nodeEdit?_of_return returns expanded, quiet, ite_self,
    List.append_nil, node.printed_eq, if_neg scope]
  cases found : node.returnedArray? with
  | some elements =>
      rw [found] at result
      obtain ⟨text, rfl, written⟩ := result
      change _ = source.cut ⟨node.span.start, node.span.start⟩ ++
        (Utf8.encode text ++ source.cut ⟨node.span.stop, node.span.stop⟩)
      rw [Bytes.cut_self source sound.starts.nonneg, Bytes.cut_self source sound.stops.nonneg,
        List.nil_append, List.append_nil, written]
  | none =>
      rw [found] at result
      subst result
      have unbound : ∀ other, node.kind.binds other = false := fun other => by
        rw [returns]
        rfl
      have printed := printedFrom_eq_woven sound.starts.nonneg sound.row (fun _ => sound.ofChild)
        prints (.inr unbound)
      rwa [← Node.walk_eq_listings, quiet] at printed

/-- Any other node is printed by its children, a keyword apart. -/
theorem Node.Sound.prints_other (sound : node.Sound source)
    (other : node.kind ≠ .returnStatement) (scope : ¬ node.kind.opensScope)
    (prints : ∀ child ∈ node.children, PrintsAsEdited source child) :
    PrintsAsEdited source node := by
  have absent : node.returnedArray? = none := if_neg other
  rw [PrintsAsEdited, editsOf_listing, nodeEdit?_of_ne other, node.printed_eq, if_neg scope,
    if_neg scope, absent]
  dsimp only
  cases found : keywordEdit? source node with
  | some edit =>
      obtain ⟨parts, leads⟩ := sound.exists_heading found
      rw [← found]
      exact leads.printedFrom_eq sound prints
  | none =>
      rw [Node.walk_eq_listings]
      exact printedFrom_eq_woven sound.starts.nonneg sound.row (fun _ => sound.ofChild) prints
        (sound.plain_of_keywordEdit?_none found)

/-- Making the edits of a node gives what the printer prints. -/
theorem Node.Sound.printsAsEdited (sound : node.Sound source)
    (expands : ∀ inner ∈ node.listing, inner.kind = .returnStatement →
      ∃ edit, returnEdit source inner = .ok edit) : PrintsAsEdited source node := by
  induction sound with
  | @mk head children starts stops order point row shaped below ih =>
      have sound := Node.Sound.mk starts stops order point row shaped below
      by_cases scope : (Node.mk head children).kind.opensScope
      · exact prints_scope scope
      · have prints : ∀ child ∈ children, PrintsAsEdited source child := by
          refine fun child member => ih child member fun inner among => expands inner ?_
          rw [listing_eq, if_neg scope]
          exact List.mem_cons_of_mem _ (mem_walk_iff.mpr ⟨child, member, among⟩)
        by_cases returns : (Node.mk head children).kind = .returnStatement
        · obtain ⟨edit, expanded⟩ := expands _ (self_mem_listing _) returns
          exact sound.prints_return returns expanded prints
        · exact sound.prints_other returns scope prints

/-! ## Bodies -/

/-- What lies strictly between the braces of a block, printed. -/
def Braces.printed (source : Bytes) (parts : Braces) : Bytes :=
  Node.printedFrom source .statementBlock parts.closing.span.start parts.opening.span.stop
    parts.inner

/-- If a scope can be expanded, so can each of its returns. -/
theorem returnEdit_of_returnEdits {returns : List Edit} {inner : Node}
    (expanded : returnEdits source node = .ok returns) (member : inner ∈ node.walk)
    (kind : inner.kind = .returnStatement) : ∃ edit, returnEdit source inner = .ok edit := by
  obtain ⟨found, each, -⟩ := Outcome.bind_eq_ok_iff.mp expanded
  have among : inner ∈ returnsOf node := List.mem_filter.mpr ⟨member, by simpa using kind⟩
  obtain ⟨edit, -, single⟩ := Outcome.exists_of_mapM each among
  exact ⟨edit, single⟩

/-- Between the braces, the edits of a block give what the printer prints. -/
theorem Braces.Enclose.printed_eq {parts : Braces} {block : Node} {returns : List Edit}
    (enclosed : parts.Enclose block) (sound : block.Sound source)
    (expanded : returnEdits source block = .ok returns) :
    parts.printed source = source.woven parts.closing.span.start (block.span.start + 1)
      (editsOf source block.walk) := by
  have soundChild : ∀ child ∈ parts.inner, child.Sound source := fun child member =>
    sound.ofChild (by simp [enclosed.children, member])
  rw [enclosed.editsOf_walk sound, Braces.printed, enclosed.opening_span]
  refine printedFrom_eq_woven (enclosed.starts sound).nonneg (enclosed.rows sound).1 soundChild ?_
    (.inr fun _ => rfl)
  intro child member
  refine (soundChild child member).printsAsEdited fun inner among => ?_
  refine returnEdit_of_returnEdits expanded (Node.mem_walk_iff.mpr ⟨child, ?_, among⟩)
  simp [enclosed.children, member]

/-- A block goes on after its closing brace exactly if it takes in a comment. -/
theorem Braces.Enclose.stop_eq_iff {parts : Braces} {block : Node} (enclosed : parts.Enclose block)
    (sound : block.Sound source) :
    block.span.stop = parts.closing.span.start + 1 ↔ parts.comments = [] := by
  constructor
  · intro same
    cases comments : parts.comments with
    | nil => rfl
    | cons comment rest =>
        -- A comment covers a byte at least.
        have member : comment ∈ parts.comments := by
          rw [comments]
          exact List.mem_cons_self
        have soundComment := enclosed.sound_comment sound member
        obtain ⟨byte, others, covered, -⟩ :=
          soundComment.shaped.visible_of_trivia (enclosed.comments_trivia comment member)
        have width := Bytes.length_cut source soundComment.starts.nonneg soundComment.order
          soundComment.stops.le_length
        change ((source.cut comment.span).length : Int) = _ at width
        rw [covered, List.length_cons] at width
        have inside := (enclosed.rows sound).2.inside (List.mem_map_of_mem member)
        omega
  · intro bare
    have stop := enclosed.stop
    rw [bare, List.getLastD_nil, enclosed.closing_span] at stop
    exact stop

/-- A rendered body is what the printer prints, and the bytes of the block that
follow the text between the braces, up to the last one. -/
theorem FunctionNode.Sound.encode_renderBody {function : FunctionNode} {parts : Braces}
    {text : String} (sound : function.Sound source) (enclosed : parts.Enclose function.body)
    (rendered : (function.renderBody source).outcome = .ok text) :
    Utf8.encode text = parts.printed source ++
      source.cut ⟨parts.closing.span.start, function.inside.stop⟩ := by
  rw [sound.orderly.renderBody_outcome] at rendered
  obtain ⟨returns, expanded, written⟩ := Outcome.bind_eq_ok_iff.mp rendered
  have closing := enclosed.closing_lt sound.body
  rw [Bytes.decode_eq_ok_iff.mp written, enclosed.printed_eq sound.body expanded]
  have rest : Edit.Ordered parts.closing.span.start function.inside.stop [] :=
    Int.le_sub_one_of_lt closing
  have parted : source.woven function.inside.stop function.inside.start (_ ++ []) = _ :=
    Bytes.woven_append (enclosed.starts sound.body).nonneg (enclosed.tidy sound.body).ordered rest
  rw [List.append_nil] at parted
  exact parted

/-- What a rendered body has after what is printed. -/
theorem FunctionNode.Sound.cut_closing_eq_nil_iff {function : FunctionNode} {parts : Braces}
    (sound : function.Sound source) (enclosed : parts.Enclose function.body) :
    source.cut ⟨parts.closing.span.start, function.inside.stop⟩ = [] ↔ parts.comments = [] := by
  have closing := enclosed.closing_lt sound.body
  have stop : function.inside.stop = function.body.span.stop - 1 := rfl
  have order : parts.closing.span.start ≤ function.inside.stop := Int.le_sub_one_of_lt closing
  have width := Bytes.length_cut source (enclosed.sound_closing sound.body).starts.nonneg order
    sound.inside_most
  rw [← enclosed.stop_eq_iff sound.body, ← List.length_eq_zero_iff]
  omega

/-- **The body of a well-laid function renders as it is printed.** A rendered body is what
the printer prints between the braces, and nothing else unless the block takes in comments
after its closing brace. -/
theorem FunctionNode.Sound.renderBody_prints {function : FunctionNode} {text : String}
    (sound : function.Sound source)
    (rendered : (function.renderBody source).outcome = .ok text) :
    (∃ parts, Braces.Enclose parts function.body) ∧
    ∀ parts, Braces.Enclose parts function.body →
      Utf8.encode text = parts.printed source ++
        source.cut ⟨parts.closing.span.start, function.inside.stop⟩ ∧
      (Utf8.encode text = parts.printed source ↔ parts.comments = []) := by
  refine ⟨sound.braces, fun parts enclosed => ?_⟩
  have written := sound.encode_renderBody enclosed rendered
  refine ⟨written, ?_⟩
  rw [written, List.append_right_eq_self, sound.cut_closing_eq_nil_iff enclosed]

/-- **Rendering a body prints it by recursion on its tree.** A rendered body is what
the printer prints between the braces, and nothing else unless the block takes in
comments after its closing brace. -/
theorem renderBody_eq_printed {script : String} {document : Document}
    (parsed : Document.parse script = .ok document) {function : FunctionNode}
    (member : function ∈ FunctionNode.topLevel document.root) {text : String}
    (rendered : (function.renderBody document.source).outcome = .ok text) :
    (∃ parts, Braces.Enclose parts function.body) ∧
    ∀ parts, Braces.Enclose parts function.body →
      Utf8.encode text = parts.printed document.source ++
        document.source.cut ⟨parts.closing.span.start, function.inside.stop⟩ ∧
      (Utf8.encode text = parts.printed document.source ↔ parts.comments = []) :=
  (FunctionNode.sound_topLevel (Document.sound_of_parse parsed) member).renderBody_prints rendered

/-- A loop head, a declaration with a comment and a returned array. -/
def loopWithReturn : String :=
  "function f(a) \x7b for (const k of a) \x7b let /* c */ b = k; \x7d " ++
    "return [a, /* d */ b]; \x7d"

/-- The body of the loop and the return after it are printed without keywords and brackets. -/
theorem renderBody_eq_printed_loop :
    ∃ document function text, Document.parse loopWithReturn = .ok document ∧
      function ∈ FunctionNode.topLevel document.root ∧
      (function.renderBody document.source).outcome = .ok text ∧
      text = " for (k of a) \x7b /* c */ b = k; \x7d return a, b; " ∧
      ∃ parts, Braces.Enclose parts function.body ∧
        (Utf8.encode text = parts.printed document.source ↔ parts.comments = []) := by
  obtain ⟨document, parsed, found⟩ := Outcome.exists_ok_of_any (show
    ((Document.parse loopWithReturn).toOption.any fun document =>
        (FunctionNode.topLevel document.root).any fun function =>
          (function.renderBody document.source).outcome =
            .ok " for (k of a) \x7b /* c */ b = k; \x7d return a, b; ") = true by decide +kernel)
  obtain ⟨function, member, rendered⟩ := List.any_eq_true.mp found
  have ended := of_decide_eq_true rendered
  obtain ⟨⟨parts, enclosed⟩, all⟩ := renderBody_eq_printed parsed member ended
  exact ⟨document, function, _, parsed, member, ended, rfl, parts, enclosed, (all parts enclosed).2⟩

/-- A comment after the closing brace comes to stand in the rendered body. -/
theorem body_beyond_braces :
    (Document.parse "function f(a) \x7b return [a]; \x7d // note\nx = 1;" >>= fun document =>
      (document.collect {}).outcome.map fun functions => functions.map fun found => found.2.body) =
        .ok [" return a; \x7d // not"] := by
  decide +kernel

end Codebox
