import Codebox.Proofs.Outputs

/-! # Comments between tokens

A tree has two kinds of comments, plain ones and those of embedded pages. Plain comments are
passed over wherever parameters, what is returned and the elements of an array are read, so a
tree reads the same without them. Comments of embedded pages are not: among parameters such a
comment is refused like a pattern, in a returned array it counts as an element, and only an array
that is refused anyway, or a parameter list that is refused before it, reads the same without it.
-/

namespace Codebox

/-- Two computations end with the same value, or with faults of the same message. -/
def Outcome.Alike {α : Type} (first second : Except Fault α) : Prop :=
  first.mapError Fault.message = second.mapError Fault.message

namespace Node

/-! ## Leaving out children -/

/-- Whether a node is a plain comment. -/
def isPlainComment (node : Node) : Bool :=
  node.head.named && node.kind = .comment

/-- Whether a node is a comment of either kind. -/
def isComment (node : Node) : Bool :=
  node.head.named && node.kind.isTrivia

/-- Whether a node is a comment of an embedded page. -/
def isPageComment (node : Node) : Bool :=
  node.kind = .htmlComment

/-- A node without some of its children. -/
def without (left : Node → Bool) (node : Node) : Node :=
  .mk node.head (node.children.filter (!left ·))

/-- What is returned, without some children if it is an array. -/
def elementsWithout (left : Node → Bool) (argument : Node) : Node :=
  if argument.kind = .array then argument.without left else argument

/-- A return statement without some children, its own and those of the array that it
returns. -/
def returnWithout (left : Node → Bool) (statement : Node) : Node :=
  .mk statement.head ((statement.children.filter (!left ·)).map (elementsWithout left))

/-- A function declaration without some children of its parameter list. -/
def parametersWithout (left : Node → Bool) (node : Node) : Node :=
  .mk node.head (node.children.map fun child =>
    if child.head.role = some .parameters then child.without left else child)

variable {left : Node → Bool} {node : Node}

@[simp] theorem kind_without : (node.without left).kind = node.kind := rfl

@[simp] theorem head_elementsWithout : (node.elementsWithout left).head = node.head := by
  unfold elementsWithout
  split
  · rfl
  · rfl

@[simp] theorem kind_elementsWithout : (node.elementsWithout left).kind = node.kind :=
  congrArg Head.kind head_elementsWithout

theorem text_elementsWithout (source : Bytes) :
    (node.elementsWithout left).text source = node.text source := by
  unfold text span
  rw [head_elementsWithout]

theorem parts_without : (node.without left).parts = node.parts.filter (!left ·) := by
  unfold parts namedChildren
  simp only [without, children, List.filter_filter]
  refine List.filter_congr fun child _ => ?_
  ac_rfl

theorem parts_returnWithout :
    (node.returnWithout left).parts =
      (node.parts.filter (!left ·)).map (elementsWithout left) := by
  rw [← parts_without]
  unfold parts namedChildren
  simp only [returnWithout, children, List.filter_map]
  congr 1
  simp only [Function.comp_def, head_elementsWithout, kind_elementsWithout]
  rfl

theorem returnArgument?_returnWithout :
    returnArgument? (node.returnWithout left) =
      (node.parts.filter (!left ·)).head?.map (elementsWithout left) := by
  unfold returnArgument?
  rw [parts_returnWithout, List.head?_map]

end Node

/-! ## Holes -/

/-- Comments that are left out make no difference to the search for a hole. -/
theorem firstHole?_without {left : Node → Bool} (nodes : List Node)
    (plain : ∀ node ∈ nodes, left node → node.kind = .comment) (previous : Kind) :
    firstHole? previous (nodes.filter (!left ·)) = firstHole? previous nodes := by
  induction nodes generalizing previous with
  | nil => rfl
  | cons node rest ih =>
      obtain ⟨here, plain⟩ := List.forall_mem_cons.mp plain
      by_cases gone : left node
      · rw [List.filter_cons_of_neg (by simp [gone]), ih plain, firstHole?, if_pos (here gone)]
      · rw [List.filter_cons_of_pos (by simp [gone])]
        simp only [firstHole?, ih plain]

/-- Leaving out nodes that are no commas closes no hole. In the search of the shorter list what
comes before may open a hole where it does not in that of the longer one. -/
theorem exists_firstHole?_without {left : Node → Bool} {nodes : List Node}
    (kept : ∀ node ∈ nodes, left node → node.kind.isTrivia) {previous before : Kind}
    (opens : previous = .openBracket ∨ previous = .comma → before = .openBracket ∨ before = .comma)
    {comma : Node} (hole : firstHole? previous nodes = some comma) :
    ∃ other, firstHole? before (nodes.filter (!left ·)) = some other := by
  induction nodes generalizing previous before with
  | nil => cases hole
  | cons node rest ih =>
      obtain ⟨here, kept⟩ := List.forall_mem_cons.mp kept
      rw [firstHole?] at hole
      by_cases gone : left node
      · have trivia := here gone
        rw [List.filter_cons_of_neg (by simp [gone])]
        split at hole
        · exact ih kept opens hole
        · split at hole
          next found =>
            rw [found.1] at trivia
            cases trivia
          next =>
            refine ih kept ?_ hole
            rintro (same | same)
            · rw [same] at trivia
              cases trivia
            · rw [same] at trivia
              cases trivia
      · rw [List.filter_cons_of_pos (by simp [gone]), firstHole?]
        split at hole
        next plain =>
          rw [if_pos plain]
          exact ih kept opens hole
        next solid =>
          rw [if_neg solid]
          split at hole
          next found => exact ⟨node, if_pos ⟨found.1, opens found.2⟩⟩
          next =>
            split
            · exact ⟨node, rfl⟩
            · exact ih kept id hole

/-! ## Returns -/

namespace Node

variable {source : Bytes} {left : Node → Bool} {statement array : Node}

/-- Where what is returned is found again and its elements are read as before, both modes make
the same of a return statement as before. -/
theorem reads_returnWithout
    (found : returnArgument? (statement.returnWithout left) =
      (returnArgument? statement).map (elementsWithout left))
    (same : ∀ argument, returnArgument? statement = some argument →
      arrayElements (argument.elementsWithout left) = arrayElements argument) :
    returnedElements (statement.returnWithout left) = returnedElements statement ∧
      (∀ source, returnEdit source (statement.returnWithout left) = returnEdit source statement) ∧
      ∀ synthesizer : Synthesizer,
        synthesizer.outputs (statement.returnWithout left) = synthesizer.outputs statement := by
  have elements :
      returnedElements (statement.returnWithout left) = returnedElements statement := by
    unfold returnedElements
    rw [found]
    cases returned : returnArgument? statement with
    | none => rfl
    | some argument => exact same argument returned
  refine ⟨elements, fun source => ?_, fun synthesizer => ?_⟩
  · unfold returnEdit
    rw [elements]
    rfl
  · unfold Synthesizer.outputs
    rw [found]
    cases returned : returnArgument? statement with
    | none => rfl
    | some argument =>
        simp only [Option.map_some, same argument returned, text_elementsWithout]

/-- Comments that are left out of an array leave its elements. -/
theorem arrayElements_elementsWithout
    (plain : ∀ child ∈ array.children, left child → child.kind = .comment) :
    arrayElements (array.elementsWithout left) = arrayElements array := by
  unfold elementsWithout
  split
  next kind =>
    have parts : (array.without left).parts = array.parts := by
      rw [parts_without]
      refine List.filter_eq_self.mpr fun part member => ?_
      obtain ⟨among, solid⟩ := List.mem_filter.mp member
      have kept := mt (plain part (List.mem_filter.mp among).1) (of_decide_eq_true solid)
      simpa using kept
    have hole : firstHole? .openBracket (array.without left).children =
        firstHole? .openBracket array.children := firstHole?_without array.children plain _
    unfold arrayElements
    rw [kind_without, hole, parts]
  next => rfl

/-- No plain comment is a part of a statement. -/
theorem filter_parts_plain : statement.parts.filter (!·.isPlainComment) = statement.parts := by
  refine List.filter_eq_self.mpr fun part member => ?_
  have solid := of_decide_eq_true (List.mem_filter.mp member).2
  simp [isPlainComment, solid]

/-- Plain comments are passed over. -/
theorem returnArgument?_without_plain :
    returnArgument? (statement.returnWithout isPlainComment) =
      (returnArgument? statement).map (elementsWithout isPlainComment) := by
  rw [returnArgument?_returnWithout, filter_parts_plain]
  rfl

/-- Among parts only the comments of an embedded page are comments. -/
theorem isComment_part {part : Node} (member : part ∈ statement.parts) :
    part.isComment = part.isPageComment := by
  obtain ⟨among, solid⟩ := List.mem_filter.mp member
  have named : part.head.named := (List.mem_filter.mp among).2
  have solid := of_decide_eq_true solid
  unfold isComment isPageComment
  cases kind : part.kind <;> simp_all [Kind.isTrivia]

/-- A return statement whose value seems to be a comment of an embedded page. -/
def ReturnsPage (statement : Node) : Prop :=
  ∃ argument, returnArgument? statement = some argument ∧ argument.isPageComment

/-- What is returned is found again exactly if it is no comment of an embedded page. -/
theorem returnArgument?_without_iff :
    returnArgument? (statement.returnWithout isComment) =
      (returnArgument? statement).map (elementsWithout isComment) ↔ ¬ statement.ReturnsPage := by
  rw [returnArgument?_returnWithout]
  unfold ReturnsPage returnArgument?
  have parts : ∀ part ∈ statement.parts, part.isComment = part.isPageComment :=
    fun _ => isComment_part
  cases listed : statement.parts with
  | nil => simp
  | cons first rest =>
      rw [listed] at parts
      obtain ⟨here, parts⟩ := List.forall_mem_cons.mp parts
      by_cases page : first.isPageComment
      · rw [List.filter_cons_of_neg (by simp [here, page])]
        refine iff_of_false ?_ (by simp [page])
        intro same
        obtain ⟨part, head, kept⟩ := Option.map_eq_some_iff.mp same
        obtain ⟨member, kept'⟩ := List.mem_filter.mp (List.mem_of_mem_head? head)
        have kind : part.kind = first.kind := by
          rw [← kind_elementsWithout, kept, kind_elementsWithout]
        have again : part.isPageComment = first.isPageComment := by
          unfold isPageComment
          rw [kind]
        simp [parts part member, again, page] at kept'
      · rw [List.filter_cons_of_pos (by simp [here, page])]
        simp [page]

/-- An array without a hole that holds a comment of an embedded page. -/
structure Marked (array : Node) : Prop where
  kind : array.kind = .array
  full : firstHole? .openBracket array.children = none
  page : ∃ part ∈ array.parts, part.isPageComment

/-- A return statement that returns a marked array. -/
def ReturnsMarked (statement : Node) : Prop :=
  ∃ array, returnArgument? statement = some array ∧ array.Marked

end Node

/-! ## Returned arrays -/

namespace Outcome

variable {α : Type}

theorem Alike.of_eq {first second : Except Fault α} (same : first = second) :
    Alike first second :=
  congrArg (Except.mapError Fault.message) same

theorem alike_error_iff {first second : Fault} :
    Alike (.error first : Except Fault α) (.error second) ↔ first.message = second.message :=
  Except.error.injEq _ _ ▸ Iff.rfl

theorem alike_ok_iff {first second : α} : Alike (.ok first) (.ok second) ↔ first = second :=
  Except.ok.injEq _ _ ▸ Iff.rfl

theorem not_alike_error_ok {fault : Fault} {value : α} : ¬ Alike (.error fault) (.ok value) :=
  nofun

end Outcome

/-- A joined text is as long as its parts and the commas between them. -/
theorem length_joined_cons (text : String) (texts : List String) :
    (Text.joined ", " (text :: texts)).length =
      text.length + (Text.joined ", " texts).length + if texts = [] then 0 else 2 := by
  cases texts with
  | nil => simp [Text.joined]
  | cons next rest =>
      have separator : ", ".length = 2 := by decide
      rw [Text.joined, String.length_append, String.length_append, separator,
        if_neg (List.cons_ne_nil _ _)]
      · omega
      · exact List.cons_ne_nil _ _

/-- Texts of which some are left out make no longer list, and a shorter one if a text that is
left out is not empty. -/
theorem length_joined_filter {α : Type} (shown : α → String) (kept : α → Bool) (items : List α) :
    (Text.joined ", " ((items.filter kept).map shown)).length ≤
        (Text.joined ", " (items.map shown)).length ∧
      ((∃ item ∈ items, kept item = false ∧ shown item ≠ "") →
        (Text.joined ", " ((items.filter kept).map shown)).length <
          (Text.joined ", " (items.map shown)).length) := by
  induction items with
  | nil => simp
  | cons item rest ih =>
      obtain ⟨shorter, strictly⟩ := ih
      rw [List.map_cons, length_joined_cons]
      by_cases keep : kept item
      · rw [List.filter_cons_of_pos keep, List.map_cons, length_joined_cons]
        have separators : (if (rest.filter kept).map shown = [] then 0 else 2) ≤
            if rest.map shown = [] then 0 else 2 := by
          by_cases last : rest = []
          · simp [last]
          · simp only [List.map_eq_nil_iff, last, if_false]
            split <;> omega
        refine ⟨by omega, ?_⟩
        rintro ⟨other, member, gone, filled⟩
        have among : other ∈ rest := by
          refine (List.mem_cons.mp member).resolve_left ?_
          rintro rfl
          rw [keep] at gone
          cases gone
        have less := strictly ⟨other, among, gone, filled⟩
        omega
      · rw [List.filter_cons_of_neg keep]
        refine ⟨by omega, ?_⟩
        rintro ⟨other, member, gone, filled⟩
        cases List.mem_cons.mp member with
        | inl same =>
            subst same
            have positive : 0 < (shown other).length := by
              apply Nat.pos_of_ne_zero
              rw [Ne, String.length_eq_zero_iff]
              exact filled
            omega
        | inr among =>
            have less := strictly ⟨other, among, gone, filled⟩
            omega

namespace Node

variable {source : Bytes} {left : Node → Bool} {statement argument : Node}

/-- A statement that can be read can be read without nodes. -/
theorem Readable.returnWithout (readable : statement.Readable source) :
    (statement.returnWithout left).Readable source := by
  have part : ∀ argument ∈ (statement.returnWithout left).parts, ∃ original ∈ statement.parts,
      original.elementsWithout left = argument := by
    intro argument member
    rw [parts_returnWithout] at member
    obtain ⟨original, among, same⟩ := List.mem_map.mp member
    exact ⟨original, List.mem_of_mem_filter among, same⟩
  constructor
  · exact readable.whole
  · intro argument member
    obtain ⟨original, among, rfl⟩ := part argument member
    rw [text_elementsWithout]
    exact readable.argument original among
  · intro argument member element inside
    obtain ⟨original, among, rfl⟩ := part argument member
    apply readable.elements original among element
    unfold elementsWithout at inside
    split at inside
    · rw [parts_without] at inside
      exact List.mem_of_mem_filter inside
    · exact inside

/-- What both modes make of an array. -/
theorem Returns.of_array {array : Node} {edit : Except Fault (Option Edit)}
    {outputs : Except Fault (List String)} (returns : statement.Returns source edit outputs)
    (returned : returnArgument? statement = some array) (kind : array.kind = .array) :
    (∃ comma, firstHole? .openBracket array.children = some comma ∧
      edit = .error (.unsupported .arrayHole comma.location) ∧
      outputs = .error (.unsupported .arrayHole comma.location)) ∨
    ∃ texts whole, firstHole? .openBracket array.children = none ∧
      array.parts.mapM (·.text source) = .ok texts ∧ statement.text source = .ok whole ∧
      edit = .ok (some ⟨statement.span, "return " ++ Text.joined ", " texts ++
        if endsWithSemicolon whole then ";" else ""⟩) ∧
      outputs = .ok (texts.mapIdx fun index text =>
        "out" ++ toString (index + 1) ++ " = " ++ text ++ ";") := by
  cases returns with
  | bare absent => cases absent.symm.trans returned
  | value other kinded =>
      cases other.symm.trans returned
      exact absurd kind kinded
  | @array _ texts whole found _ full read readWhole =>
      cases found.symm.trans returned
      exact .inr ⟨texts, whole, full, read, readWhole, rfl, rfl⟩
  | @holed _ comma found _ hole =>
      cases found.symm.trans returned
      exact .inl ⟨comma, hole, rfl, rfl⟩

/-- A comment of an embedded page covers a byte at least. -/
theorem Sound.cut_ne_nil (sound : argument.Sound source) (page : argument.isPageComment) :
    source.cut argument.span ≠ [] := by
  have kind : argument.kind = .htmlComment := of_decide_eq_true page
  obtain ⟨byte, rest, covered, -⟩ := sound.shaped.visible_of_trivia (by rw [kind]; rfl)
  rw [covered]
  exact List.cons_ne_nil byte rest

/-- An array that is not marked is read as before, or refused as before. -/
theorem arrayElements_without_comments (clear : ¬ argument.Marked) :
    arrayElements (argument.elementsWithout isComment) = arrayElements argument ∨
      ∃ fault other, arrayElements (argument.elementsWithout isComment) = .error fault ∧
        arrayElements argument = .error other ∧ fault.message = other.message := by
  by_cases kind : argument.kind = .array
  · cases hole : firstHole? .openBracket argument.children with
    | none =>
        left
        apply arrayElements_elementsWithout
        intro child member comment
        obtain ⟨named, -⟩ := Bool.and_eq_true_iff.mp comment
        by_contra solid
        have part : child ∈ argument.parts :=
          List.mem_filter.mpr ⟨List.mem_filter.mpr ⟨member, named⟩, decide_eq_true solid⟩
        exact clear ⟨kind, hole, child, part, (isComment_part part).symm.trans comment⟩
    | some comma =>
        right
        obtain ⟨other, again⟩ : ∃ other,
            firstHole? .openBracket (argument.without isComment).children = some other :=
          exists_firstHole?_without (fun _ _ comment => (Bool.and_eq_true_iff.mp comment).2) id hole
        refine ⟨.unsupported .arrayHole other.location, _, ?_, arrayElements_of_hole kind hole, rfl⟩
        unfold elementsWithout
        rw [if_pos kind]
        exact arrayElements_of_hole kind again
  · left
    unfold elementsWithout
    rw [if_neg kind]

/-- Without comments a return of anything but a marked array reads as before. -/
theorem alike_without_comments
    (found : returnArgument? (statement.returnWithout isComment) =
      (returnArgument? statement).map (elementsWithout isComment))
    (clear : ¬ statement.ReturnsMarked) :
    Outcome.Alike (returnedElements (statement.returnWithout isComment))
        (returnedElements statement) ∧
      (∀ source, Outcome.Alike (returnEdit source (statement.returnWithout isComment))
        (returnEdit source statement)) ∧
      ∀ synthesizer : Synthesizer,
        Outcome.Alike (synthesizer.outputs (statement.returnWithout isComment))
          (synthesizer.outputs statement) := by
  by_cases same : ∀ argument, returnArgument? statement = some argument →
      arrayElements (argument.elementsWithout isComment) = arrayElements argument
  · obtain ⟨elements, edits, outputs⟩ := reads_returnWithout found same
    exact ⟨.of_eq elements, fun source => .of_eq (edits source),
      fun synthesizer => .of_eq (outputs synthesizer)⟩
  · push Not at same
    obtain ⟨argument, returned, differ⟩ := same
    obtain ⟨fault, other, failed, failedBefore, message⟩ :=
      (arrayElements_without_comments fun marked =>
        clear ⟨argument, returned, marked⟩).resolve_left differ
    rw [returned, Option.map_some] at found
    unfold returnEdit returnedElements Synthesizer.outputs
    simp only [found, returned, failed, failedBefore, Outcome.bind_error,
      Outcome.alike_error_iff, message, implies_true, and_self]

/-- The texts that were read are the texts of the nodes. -/
theorem map_text_of_mapM {nodes : List Node} {texts : List String}
    (read : nodes.mapM (·.text source) = .ok texts) :
    nodes.map (fun node => (node.text source).toOption.getD "") = texts := by
  have each := Outcome.mapM_eq_ok_iff.mp read
  clear read
  induction each with
  | nil => rfl
  | cons here _ ih =>
      rw [List.map_cons, here, ih]
      rfl

namespace Marked

variable {array : Node}

/-- A marked array has fewer parts without comments. -/
theorem length_parts (marked : array.Marked) :
    (array.without isComment).parts.length < array.parts.length := by
  obtain ⟨page, member, marks⟩ := marked.page
  rw [parts_without]
  apply List.length_filter_lt_length_iff_exists.mpr
  exact ⟨page, member, by simp [isComment_part member, marks]⟩

/-- A statement that returns a marked array returns it without comments. -/
theorem returnArgument?_eq (marked : array.Marked)
    (found : returnArgument? (statement.returnWithout isComment) =
      (returnArgument? statement).map (elementsWithout isComment))
    (returned : returnArgument? statement = some array) :
    returnArgument? (statement.returnWithout isComment) = some (array.without isComment) := by
  rw [found, returned, Option.map_some, elementsWithout, if_pos marked.kind]

/-- A marked array has other elements without comments. -/
theorem elements_differ (marked : array.Marked)
    (found : returnArgument? (statement.returnWithout isComment) = some (array.without isComment))
    (returned : returnArgument? statement = some array) :
    ¬ Outcome.Alike (returnedElements (statement.returnWithout isComment))
      (returnedElements statement) := by
  have kind : (array.without isComment).kind = .array := marked.kind
  unfold returnedElements
  simp only [found, returned, arrayElements_of_full marked.kind marked.full]
  cases hole : firstHole? .openBracket (array.without isComment).children with
  | some comma =>
      rw [arrayElements_of_hole kind hole]
      exact Outcome.not_alike_error_ok
  | none =>
      rw [arrayElements_of_full kind hole, Outcome.alike_ok_iff, Option.some.injEq]
      intro same
      have fewer := marked.length_parts
      rw [same] at fewer
      exact Nat.lt_irrefl _ fewer

/-- The texts of the elements, with those of the comments among them, make a longer list. -/
theorem length_joined (marked : array.Marked) (sound : array.Sound source)
    {texts kept : List String} (read : array.parts.mapM (·.text source) = .ok texts)
    (readKept : (array.without isComment).parts.mapM (·.text source) = .ok kept) :
    kept.length < texts.length ∧
      (Text.joined ", " kept).length < (Text.joined ", " texts).length := by
  obtain ⟨page, member, marks⟩ := marked.page
  have fewer := marked.length_parts
  obtain ⟨text, readPage⟩ := (sound.part member).text
  have filled : text ≠ "" := by
    rintro rfl
    exact (sound.part member).cut_ne_nil marks (Bytes.decode_eq_ok_iff.mp readPage).symm
  rw [← map_text_of_mapM read, ← map_text_of_mapM readKept, parts_without]
  refine ⟨by simpa only [List.length_map, ← parts_without] using fewer, ?_⟩
  apply (length_joined_filter _ _ _).2
  refine ⟨page, member, by simp [isComment_part member, marks], ?_⟩
  rw [readPage]
  exact filled

/-- A marked array is expanded in another way without comments. -/
theorem edits_differ (marked : array.Marked) (sound : statement.Sound source)
    (found : returnArgument? (statement.returnWithout isComment) = some (array.without isComment))
    (returned : returnArgument? statement = some array) (synthesizer : Synthesizer)
    (same : synthesizer.source = source) :
    ¬ Outcome.Alike (returnEdit source (statement.returnWithout isComment))
        (returnEdit source statement) ∧
      ¬ Outcome.Alike (synthesizer.outputs (statement.returnWithout isComment))
        (synthesizer.outputs statement) := by
  subst same
  have soundArray := sound.part (List.mem_of_mem_head? returned)
  have readable := sound.readable
  obtain ⟨comma, hole, -⟩ | ⟨texts, whole, -, read, readWhole, edit, outputs⟩ :=
    (readable.returns synthesizer).of_array returned marked.kind
  · cases hole.symm.trans marked.full
  · rw [edit, outputs]
    obtain ⟨comma, hole, failed, failedToo⟩ |
      ⟨kept, again, -, readKept, readAgain, other, others⟩ :=
        (readable.returnWithout.returns synthesizer).of_array found marked.kind
    · rw [failed, failedToo]
      exact ⟨Outcome.not_alike_error_ok, Outcome.not_alike_error_ok⟩
    · obtain ⟨fewer, shorter⟩ := marked.length_joined soundArray read readKept
      cases readWhole.symm.trans readAgain
      rw [other, others, Outcome.alike_ok_iff, Outcome.alike_ok_iff]
      constructor
      · intro same
        injection same with same
        injection same with _ same
        have lengths := congrArg String.length same
        simp only [String.length_append] at lengths
        omega
      · intro same
        have lengths := congrArg List.length same
        rw [List.length_mapIdx, List.length_mapIdx] at lengths
        omega

end Marked

end Node

/-! ## Places -/

/-- One place of a text comes before another one. -/
def Point.Before (first second : Point) : Prop :=
  first.row < second.row ∨ first.row = second.row ∧ first.column < second.column

theorem Point.Before.trans {first second third : Point} (left : first.Before second)
    (right : second.Before third) : first.Before third := by
  unfold Point.Before at *
  omega

theorem before_stepByte (point : Point) (byte : UInt8) : point.Before (stepByte point byte) := by
  unfold stepByte
  split
  · exact .inl (Nat.lt_succ_self _)
  · exact .inr ⟨rfl, Nat.lt_succ_self _⟩

theorem before_foldl_stepByte (point : Point) {bytes : Bytes} (filled : bytes ≠ []) :
    point.Before (bytes.foldl stepByte point) := by
  induction bytes generalizing point with
  | nil => exact absurd rfl filled
  | cons byte rest ih =>
      rw [List.foldl_cons]
      by_cases last : rest = []
      · rw [last]
        exact before_stepByte point byte
      · exact (before_stepByte point byte).trans (ih _ last)

/-- Different offsets of a text are different places. -/
theorem Bytes.location_ne {source : Bytes} {first last : Int} (least : 0 ≤ first)
    (order : first < last) (inside : last ≤ source.length) :
    (source.pointAt first).location ≠ (source.pointAt last).location := by
  have split : source.take last.toNat =
      source.take first.toNat ++ (source.drop first.toNat).take (last.toNat - first.toNat) := by
    rw [← List.take_add]
    congr 1
    omega
  have later : (source.pointAt first).Before (source.pointAt last) := by
    unfold Bytes.pointAt
    rw [split, List.foldl_append]
    apply before_foldl_stepByte
    rw [Ne, List.take_eq_nil_iff, List.drop_eq_nil_iff]
    omega
  intro same
  unfold Point.location at same
  injection same with row column
  unfold Point.Before at later
  omega

/-! ## Parameters -/

/-- A parameter list that holds a comment of an embedded page, where every parameter before the
first such comment can be read. -/
structure FunctionNode.Marked (source : Bytes) (options : Options) (function : FunctionNode) :
    Prop where
  page : ∃ part ∈ function.parameters.parts, part.isPageComment
  ahead : ∀ part ∈ function.parameters.parts.takeWhile (!·.isPageComment),
    ∃ parameter, readParameter source options part = .ok parameter

namespace Node

variable {left : Node → Bool} {node : Node}

/-- Only the parameters of a function change. -/
theorem child?_parametersWithout (role : Role) :
    (node.parametersWithout left).child? role = (node.child? role).map fun child =>
      if role = .parameters then child.without left else child := by
  have heads : ∀ child : Node,
      (if child.head.role = some .parameters then child.without left else child).head =
        child.head := by
    intro child
    split
    · rfl
    · rfl
  obtain ⟨head, members⟩ := node
  unfold child? parametersWithout
  simp only [children, List.find?_map, Function.comp_def, heads]
  cases found : members.find? (·.head.role = some role) with
  | none => rfl
  | some child =>
      have placed : child.head.role = some role := by simpa using List.find?_some found
      simp [placed]

/-- A function is read with its other parameters. -/
theorem of?_parametersWithout :
    FunctionNode.of? (node.parametersWithout left) =
      (FunctionNode.of? node).map fun function => { function with
        node := node.parametersWithout left
        parameters := function.parameters.without left } := by
  unfold FunctionNode.of?
  rw [child?_parametersWithout, child?_parametersWithout, child?_parametersWithout]
  have kind : (node.parametersWithout left).kind = node.kind := rfl
  rw [kind]
  split
  · cases node.child? .name <;> cases node.child? .parameters <;> cases node.child? .body <;> rfl
  · rfl

variable {source : Bytes} {options : Options} {page : Node}

/-- A page comment has a width. -/
theorem Sound.start_lt_stop (sound : page.Sound source) (marks : page.isPageComment) :
    page.span.start < page.span.stop := by
  by_contra empty
  have same : page.span = ⟨page.span.start, page.span.start⟩ := by
    rw [Span.mk.injEq]
    exact ⟨rfl, Int.le_antisymm (Int.not_lt.mp empty) sound.order⟩
  apply sound.cut_ne_nil marks
  rw [same, Bytes.cut_self source sound.starts.nonneg]

/-- A comment of an embedded page is refused like a pattern. -/
theorem Sound.readParameter_page (sound : page.Sound source) (marks : page.isPageComment) :
    ∃ text, readParameter source options page =
      .error (.unsupported (.destructuringParameter text)
        (source.pointAt page.span.start).location) := by
  have kind : page.kind = .htmlComment := of_decide_eq_true marks
  obtain ⟨text, read⟩ := sound.text
  refine ⟨text, ?_⟩
  unfold readParameter refuseDestructuring location
  simp only [kind, read, Outcome.bind_ok, sound.point]
  rfl

end Node

namespace FunctionNode

variable {source : Bytes} {options : Options}

/-- What is refused among the parameters after a node is refused at a later place. -/
theorem not_refused_at {parameters page : Node} {before after : List Node}
    (sound : parameters.Sound source) (split : parameters.parts = before ++ page :: after)
    (wide : page.span.start < page.span.stop) (kept : Node → Bool) (cause : Unsupported) :
    (after.filter kept).mapM (readParameter source options) ≠
      .error (.unsupported cause (source.pointAt page.span.start).location) := by
  intro failed
  have row := sound.row_parts
  rw [Node.InRow, split, List.map_append, List.map_cons, Span.row_append_cons] at row
  obtain ⟨-, -, rowAfter⟩ := row
  have row := rowAfter.sublist (List.Sublist.map Node.span (List.filter_sublist (p := kept)))
  have among : ∀ part ∈ after.filter kept, part.Sound source := by
    intro part member
    apply sound.part
    rw [split]
    exact List.mem_append_right _ (List.mem_cons_of_mem _ (List.mem_of_mem_filter member))
  have within : ∀ part ∈ after.filter kept,
      (part.parameterSurvey options).Within part.span.start part.span.stop :=
    fun part member => (among part member).within_parameter
  have decided := Survey.Decides.mapM row within fun part member =>
    decides_readParameter (among part member)
  obtain ⟨offset, least, same⟩ := decided.least_of_refused failed
  have bounds := (Survey.Within.all row within).refuses offset least.1
  have stops := sound.stops.le_length
  have starts := (sound.part (split ▸ List.mem_append_right _ List.mem_cons_self)).starts.nonneg
  exact Bytes.location_ne starts (by omega) (by omega) same

/-- Without comments of embedded pages a parameter list that is not marked, and no other, is read
or refused as before. -/
theorem readParameters_without_iff (function : FunctionNode) (options : Options)
    (sound : function.parameters.Sound source) :
    (function.parameters.parts.filter (!·.isComment)).mapM (readParameter source options) =
      function.readParameters source options ↔ ¬ function.Marked source options := by
  unfold readParameters
  have only : ∀ part ∈ function.parameters.parts, part.isComment = part.isPageComment :=
    fun _ => Node.isComment_part
  rw [List.filter_congr fun part member => congrArg not (only part member)]
  cases found : function.parameters.parts.find? (·.isPageComment) with
  | none =>
      have clear := List.find?_eq_none.mp found
      rw [List.filter_eq_self.mpr (by simpa using clear)]
      refine iff_of_true rfl fun marked => ?_
      obtain ⟨page, member, marks⟩ := marked.page
      exact clear page member marks
  | some page =>
      obtain ⟨marks, before, after, split, clear⟩ := List.find?_eq_some_iff_append.mp found
      have ahead : function.parameters.parts.takeWhile (!·.isPageComment) = before := by
        rw [split, List.takeWhile_append_of_pos clear, List.takeWhile_cons_of_neg (by simp [marks]),
          List.append_nil]
      have kept : function.parameters.parts.filter (!·.isPageComment) =
          before ++ after.filter (!·.isPageComment) := by
        rw [split, List.filter_append, List.filter_eq_self.mpr clear,
          List.filter_cons_of_neg (by simp [marks])]
      rw [kept]
      cases reads : before.mapM (readParameter source options) with
      | error fault =>
          have fails : ∀ others, (before ++ others).mapM (readParameter source options) =
              .error fault := by
            intro others
            rw [List.mapM_append, reads, Outcome.bind_error]
          rw [split, fails, fails]
          refine iff_of_true rfl fun marked => ?_
          have each := marked.ahead
          rw [ahead] at each
          obtain ⟨values, succeeds⟩ := Outcome.exists_mapM_iff.mpr each
          cases succeeds.symm.trans reads
      | ok values =>
          have marked : function.Marked source options := by
            refine ⟨⟨page, List.mem_of_find?_eq_some found, marks⟩, ?_⟩
            rw [ahead]
            exact Outcome.exists_mapM_iff.mp ⟨values, reads⟩
          refine iff_of_false ?_ (not_not_intro marked)
          have member : page ∈ function.parameters.parts := List.mem_of_find?_eq_some found
          obtain ⟨text, refused⟩ := (sound.part member).readParameter_page marks
          rw [split, Outcome.mapM_append_cons, reads, refused, List.mapM_append, reads]
          simp only [Outcome.bind_ok, Outcome.bind_error]
          intro same
          obtain failed | ⟨others, -, impossible⟩ := Outcome.bind_eq_error_iff.mp same
          · exact not_refused_at sound split ((sound.part member).start_lt_stop marks) _ _ failed
          · cases impossible

end FunctionNode

/-! ## Scripts -/

namespace Node

variable {source : Bytes} {node : Node}

/-- The other parameters are read as they were. -/
theorem readParameters_parametersWithout (left : Node → Bool) (options : Options) :
    (FunctionNode.of? (node.parametersWithout left)).map (·.readParameters source options) =
      (FunctionNode.of? node).map fun function =>
        (function.parameters.parts.filter (!left ·)).mapM (readParameter source options) := by
  rw [of?_parametersWithout, Option.map_map]
  simp only [Function.comp_def, FunctionNode.readParameters, parts_without]

end Node

/-- **Comments that are left out.** Plain comments in a parameter list, in a return statement or
in the array that it returns can be left out: all that is read off the parameters and the return
stays the same. If those of embedded pages are left out too, a return keeps its value exactly if
that was no such comment. Its elements, its expansion and its outputs then stay the same, or are
refused with the same message, exactly if it does not return an array that holds such a comment
and has no hole. Parameters are read or refused as before exactly if no such comment stands
among them, or one before it is refused. -/
theorem comments_left_out_iff {script : String} {document : Document}
    (parsed : Document.parse script = .ok document) {node : Node}
    (held : document.root.Holds node) :
    let source := document.source
    let outputs := fun function options patch =>
      (Synthesizer.mk source function options patch).outputs
    let parameters := fun options (node : Node) =>
      (FunctionNode.of? node).map (·.readParameters source options)
    let plain := node.returnWithout Node.isPlainComment
    let bare := node.returnWithout Node.isComment
    (returnArgument? plain = (returnArgument? node).map (.elementsWithout Node.isPlainComment) ∧
      returnedElements plain = returnedElements node ∧
      returnEdit source plain = returnEdit source node ∧
      (∀ function options patch,
        outputs function options patch plain = outputs function options patch node) ∧
      ∀ options, parameters options (node.parametersWithout Node.isPlainComment) =
        parameters options node) ∧
    (returnArgument? bare = (returnArgument? node).map (.elementsWithout Node.isComment) ↔
      ¬ node.ReturnsPage) ∧
    (¬ node.ReturnsPage →
      (Outcome.Alike (returnedElements bare) (returnedElements node) ↔ ¬ node.ReturnsMarked) ∧
      (Outcome.Alike (returnEdit source bare) (returnEdit source node) ↔ ¬ node.ReturnsMarked) ∧
      ∀ function options patch,
        Outcome.Alike (outputs function options patch bare) (outputs function options patch node) ↔
          ¬ node.ReturnsMarked) ∧
    ∀ options,
      parameters options (node.parametersWithout Node.isComment) = parameters options node ↔
        ∀ function, FunctionNode.of? node = some function → ¬ function.Marked source options := by
  intro source outputs parameters plain bare
  have sound := (Document.sound_of_parse parsed).ofHolds held
  refine ⟨?_, ?_, ?_, ?_⟩
  · have found : returnArgument? plain = _ := Node.returnArgument?_without_plain
    obtain ⟨elements, edits, lines⟩ := Node.reads_returnWithout found fun argument _ =>
      Node.arrayElements_elementsWithout fun child _ plain =>
        of_decide_eq_true (Bool.and_eq_true_iff.mp plain).2
    refine ⟨found, elements, edits source, fun function options patch => lines _, fun options => ?_⟩
    refine (Node.readParameters_parametersWithout _ options).trans ?_
    simp only [Node.filter_parts_plain]
    rfl
  · exact Node.returnArgument?_without_iff
  · intro value
    have found := Node.returnArgument?_without_iff.mpr value
    by_cases returns : node.ReturnsMarked
    · obtain ⟨array, returned, marked⟩ := id returns
      have returns := not_not_intro returns
      have foundBare := marked.returnArgument?_eq found returned
      have differ := fun function options patch =>
        marked.edits_differ sound foundBare returned ⟨source, function, options, patch⟩ rfl
      exact ⟨iff_of_false (marked.elements_differ foundBare returned) returns,
        iff_of_false (differ ⟨node, node, node, node⟩ {} {}).1 returns,
        fun function options patch => iff_of_false (differ function options patch).2 returns⟩
    · obtain ⟨elements, edits, lines⟩ := Node.alike_without_comments found returns
      exact ⟨iff_of_true elements returns, iff_of_true (edits source) returns,
        fun function options patch => iff_of_true (lines _) returns⟩
  · intro options
    rw [show parameters options _ = _ from Node.readParameters_parametersWithout _ options]
    cases declared : FunctionNode.of? node with
    | none => simp [parameters, declared]
    | some function =>
        have clear := function.readParameters_without_iff options
          (FunctionNode.sound_of? sound declared).parameters
        simpa [parameters, declared] using clear

/-- An array with a comment of an embedded page and a hole. -/
theorem comments_left_out_iff_hole :
    ∃ document statement array, Document.parse "return [<!-- c\n a, , b];" = .ok document ∧
      document.root.Holds statement ∧ returnArgument? statement = some array ∧
      (∃ part ∈ array.parts, part.isPageComment) ∧
      Outcome.Alike (returnEdit document.source (statement.returnWithout Node.isComment))
        (returnEdit document.source statement) := by
  obtain ⟨document, parsed, found⟩ := Outcome.exists_ok_of_any (show
    ((Document.parse "return [<!-- c\n a, , b];").toOption.any fun document =>
      document.root.children.any fun statement => (returnArgument? statement).any fun array =>
        (firstHole? .openBracket array.children).isSome && !array.isPageComment &&
          array.parts.any (·.isPageComment)) = true by decide +kernel)
  obtain ⟨statement, member, found⟩ := List.any_eq_true.mp found
  obtain ⟨array, returned, found⟩ := (Option.any_eq_true _ _).mp found
  obtain ⟨found, pages⟩ := Bool.and_eq_true_iff.mp found
  obtain ⟨hole, other⟩ := Bool.and_eq_true_iff.mp found
  have held : document.root.Holds statement := .through member (.self statement)
  have value : ¬ statement.ReturnsPage := by
    rintro ⟨argument, again, page⟩
    cases returned.symm.trans again
    simp [page] at other
  have clear : ¬ statement.ReturnsMarked := by
    rintro ⟨argument, again, marked⟩
    cases returned.symm.trans again
    simp [marked.full] at hole
  obtain ⟨-, -, alike, -⟩ := comments_left_out_iff parsed held
  exact ⟨document, statement, array, parsed, held, returned, List.any_eq_true.mp pages,
    (alike value).2.1.mpr clear⟩

/-- A comment of an embedded page comes out among the values that are returned. -/
theorem returnEdit_page_comment :
    ∃ document statement, Document.parse "return [<!-- c\n a];" = .ok document ∧
      document.root.Holds statement ∧
      returnEdit document.source statement = .ok (some ⟨⟨0, 19⟩, "return <!-- c, a;"⟩) ∧
      returnEdit document.source (statement.returnWithout Node.isComment) =
        .ok (some ⟨⟨0, 19⟩, "return a;"⟩) := by
  obtain ⟨document, parsed, found⟩ := Outcome.exists_ok_of_any (show
    ((Document.parse "return [<!-- c\n a];").toOption.any fun document =>
      document.root.children.any fun statement =>
        decide (returnEdit document.source statement =
          .ok (some ⟨⟨0, 19⟩, "return <!-- c, a;"⟩)) &&
        decide (returnEdit document.source (statement.returnWithout Node.isComment) =
          .ok (some ⟨⟨0, 19⟩, "return a;"⟩))) = true by decide +kernel)
  obtain ⟨statement, member, found⟩ := List.any_eq_true.mp found
  obtain ⟨marked, bare⟩ := Bool.and_eq_true_iff.mp found
  exact ⟨document, statement, parsed, .through member (.self statement), of_decide_eq_true marked,
    of_decide_eq_true bare⟩

end Codebox
