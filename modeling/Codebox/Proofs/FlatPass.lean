import Codebox.Proofs.Modes
import Mathlib.Data.List.Perm.Basic

/-! # One flat pass

Direct mode renders every body in a window of its own and then replaces the whole
function. The same text comes from one pass over the script: the head of a function is
replaced up to its opening brace, keywords and returned arrays are rewritten, and a
closing brace is put in the place of the last byte of the body. Without that last edit
the pass keeps all that follows an opening brace, so the two differ exactly where the
body of a function does not end with a brace.
-/

namespace Codebox

variable {source : Bytes} {options : Options}

namespace FunctionNode

/-- The head of a function as a codebox writes it, up to the opening brace. -/
def headEdit (function : FunctionNode) (declaration : Declaration) : Edit :=
  ⟨⟨function.node.span.start, function.body.span.start + 1⟩, declaration.signature ++ " \x7b"⟩

/-- The edits of a function in the whole script: its head, its keywords and its
returned arrays. -/
def flatEdits (source : Bytes) (options : Options) (function : FunctionNode) :
    Except Fault (List Edit) := do
  let declaration ← (function.declaration source options).outcome
  let returns ← returnEdits source function.body
  return function.headEdit declaration :: (keywordEdits source function.body ++ returns)

/-- A closing brace in the place of the last byte of a body. -/
def closingEdit (function : FunctionNode) : Edit :=
  ⟨⟨function.body.span.stop - 1, function.body.span.stop⟩, "\x7d"⟩

/-- The last byte of a body is a closing brace. -/
def EndsWithBrace (source : Bytes) (function : FunctionNode) : Prop :=
  source.cut ⟨function.body.span.stop - 1, function.body.span.stop⟩ = Utf8.encode "\x7d"

/-- The edits of a function in the order of the text, with more of them at the end of
its body. -/
def laidEdits (source : Bytes) (tail : List Edit) (function : FunctionNode)
    (declaration : Declaration) : List Edit :=
  function.headEdit declaration :: (editsOf source function.body.walk ++ tail)

namespace Sound

variable {function : FunctionNode} {declaration : Declaration} {low high : Int}
  {tail rest : List Edit}

/-- A function starts before its body. -/
theorem starts_le (sound : function.Sound source) :
    function.node.span.start ≤ function.body.span.start :=
  (sound.node.row.inside (List.mem_map_of_mem sound.contained)).1

/-- The inside of a body starts before it stops. -/
theorem inside_order (sound : function.Sound source) :
    function.inside.start ≤ function.inside.stop :=
  sound.tidy.ordered.le

/-- The edits of a function are tidy, whatever tidy ones come at its end. -/
theorem tidy_laidEdits (sound : function.Sound source) (declaration : Declaration)
    (tidy : Edit.Tidy source function.inside.stop function.node.span.stop tail) :
    Edit.Tidy source function.node.span.start function.node.span.stop
      (function.laidEdits source tail declaration) := by
  have starts := sound.starts_le
  apply Edit.Tidy.cons
  · exact Int.le_refl _
  · change function.node.span.start < function.body.span.start + 1
    omega
  · exact sound.node.starts
  · exact sound.inside_starts
  · exact sound.tidy.append tidy

/-- A function read from left to right: what lies before it, its head, its body up to
the last byte, and what is put there. -/
theorem woven_laidEdits (sound : function.Sound source) (declaration : Declaration)
    (ends : Edit.Ordered function.inside.stop function.node.span.stop tail)
    (follows : Edit.Ordered function.node.span.stop high rest) :
    source.woven high low (function.laidEdits source tail declaration ++ rest) =
      source.cut ⟨low, function.node.span.start⟩ ++
        (Utf8.encode (declaration.signature ++ " \x7b") ++
          (source.woven function.inside.stop function.inside.start
              (editsOf source function.body.walk) ++
            (source.woven function.node.span.stop function.inside.stop tail ++
              source.woven high function.node.span.stop rest))) := by
  have least := sound.inside_starts.nonneg
  have order := sound.inside_order
  have both : Edit.Ordered function.inside.stop high (tail ++ rest) := by
    rw [Edit.Ordered, List.map_append]
    exact ends.append follows
  have after : source.woven high function.inside.stop (tail ++ rest) = _ :=
    Bytes.woven_append (by omega) ends follows
  have split : source.woven high function.inside.start
      (editsOf source function.body.walk ++ (tail ++ rest)) = _ :=
    Bytes.woven_append least sound.tidy.ordered both
  rw [after] at split
  unfold laidEdits
  rw [List.cons_append, List.append_assoc, Bytes.woven]
  exact congrArg (fun bytes => source.cut ⟨low, function.node.span.start⟩ ++
    (Utf8.encode (declaration.signature ++ " \x7b") ++ bytes)) split

/-- Nothing is put at the end of a body. -/
theorem tidy_nil (sound : function.Sound source) :
    Edit.Tidy source function.inside.stop function.node.span.stop [] := by
  apply Edit.Tidy.nil
  rw [sound.stop]
  exact Int.sub_le_self _ (by decide)

/-- A brace is put at the end of a body that is severed nowhere. -/
theorem tidy_closing (sound : function.Sound source)
    (whole : source.Boundary function.inside.stop) :
    Edit.Tidy source function.inside.stop function.node.span.stop [function.closingEdit] := by
  have last : function.body.span.stop - 1 < function.body.span.stop :=
    Int.sub_one_lt_of_le (Int.le_refl _)
  apply Edit.Tidy.cons
  · exact Int.le_refl _
  · exact last
  · exact whole
  · exact sound.body.stops
  · rw [sound.stop]
    exact .nil (Int.le_refl _)

/-- Where only a brace is put at the end of a body, a brace is read there. -/
theorem woven_closing (sound : function.Sound source) :
    source.woven function.node.span.stop function.inside.stop [function.closingEdit] =
      Utf8.encode "\x7d" := by
  have least := sound.inside_starts.nonneg
  have order := sound.inside_order
  have stops := sound.body.stops.nonneg
  rw [sound.stop]
  change source.cut ⟨function.inside.stop, function.inside.stop⟩ ++
    (Utf8.encode "\x7d" ++ source.cut ⟨function.body.span.stop, function.body.span.stop⟩) = _
  rw [source.cut_self (by omega), source.cut_self stops, List.append_nil, List.nil_append]

/-- A function ends with its brace exactly if that is all that follows the inside of its body. -/
theorem endsWithBrace_iff_cut (sound : function.Sound source) :
    function.EndsWithBrace source ↔
      source.cut ⟨function.inside.stop, function.node.span.stop⟩ = Utf8.encode "\x7d" := by
  rw [sound.stop]
  rfl

/-- The last byte of a body is as long as a brace. -/
theorem length_last (sound : function.Sound source) :
    (source.cut ⟨function.inside.stop, function.node.span.stop⟩).length =
      (Utf8.encode "\x7d").length := by
  have least := sound.inside_starts.nonneg
  have order := sound.inside_order
  have most := sound.body.stops.le_length
  have last : function.inside.stop = function.body.span.stop - 1 := rfl
  have length := source.length_cut (by omega) (show function.inside.stop ≤ _ by omega) most
  rw [sound.stop, show (Utf8.encode "\x7d").length = 1 from rfl]
  omega

/-- A rendered function has its returned arrays expanded and its body read from left to
right. -/
theorem exists_of_declared (sound : function.Sound source)
    (declared : (function.declaration source options).outcome = .ok declaration) :
    ∃ returns, returnEdits source function.body = .ok returns ∧
      Utf8.encode declaration.body = source.woven function.inside.stop function.inside.start
        (editsOf source function.body.walk) := by
  obtain ⟨name, named⟩ := sound.nameText
  rw [function.declaration_outcome options named, sound.orderly.renderBody_outcome] at declared
  obtain ⟨parameters, -, declared⟩ := Outcome.bind_eq_ok_iff.mp declared
  obtain ⟨body, rendered, declared⟩ := Outcome.bind_eq_ok_iff.mp declared
  obtain ⟨returns, expanded, decoded⟩ := Outcome.bind_eq_ok_iff.mp rendered
  cases declared
  exact ⟨returns, expanded, Bytes.decode_eq_ok_iff.mp decoded⟩

/-- A rendered function is its head, its body up to the last byte, and a brace. -/
theorem encode_text (sound : function.Sound source)
    (declared : (function.declaration source options).outcome = .ok declaration) :
    Utf8.encode declaration.text = Utf8.encode (declaration.signature ++ " \x7b") ++
      (source.woven function.inside.stop function.inside.start
        (editsOf source function.body.walk) ++ Utf8.encode "\x7d") := by
  obtain ⟨returns, -, written⟩ := sound.exists_of_declared declared
  unfold Declaration.text
  rw [Utf8.encode_append, Utf8.encode_append, written, List.append_assoc]

/-- The body of a rendered function ends at a boundary before its last byte. -/
theorem boundary_of_declared (sound : function.Sound source)
    (declared : (function.declaration source options).outcome = .ok declaration) :
    source.Boundary function.inside.stop := by
  obtain ⟨returns, -, written⟩ := sound.exists_of_declared declared
  apply (Bytes.exists_encode_woven_iff sound.inside_starts sound.inside_most sound.tidy).mp
  exact ⟨declaration.body, written⟩

/-- The edits of a rendered function, in the order of the text. -/
theorem flatEdits_of_declared (sound : function.Sound source)
    (declared : (function.declaration source options).outcome = .ok declaration) :
    ∃ edits, function.flatEdits source options = .ok edits ∧
      edits.Perm (function.laidEdits source [] declaration) := by
  obtain ⟨returns, expanded, -⟩ := sound.exists_of_declared declared
  refine ⟨function.headEdit declaration :: (keywordEdits source function.body ++ returns), ?_, ?_⟩
  · unfold flatEdits
    rw [declared, expanded]
    rfl
  · unfold laidEdits
    rw [List.append_nil]
    exact (sound.edits_perm expanded).cons _

/-- A body ends with a brace unless it takes in a comment that ends otherwise. -/
theorem endsWithBrace_iff (sound : function.Sound source) {parts : Braces}
    (enclosed : parts.Enclose function.body) :
    function.EndsWithBrace source ↔ ∀ comment, parts.comments.getLast? = some comment →
      source.cut ⟨comment.span.stop - 1, comment.span.stop⟩ = Utf8.encode "\x7d" := by
  have ends := enclosed.stop
  have width := enclosed.closing_span
  rw [List.getLastD_eq_getLast?] at ends
  unfold EndsWithBrace
  cases last : parts.comments.getLast? with
  | none =>
      rw [last, Option.getD_none] at ends
      have closing := sound.closed parts enclosed
      have brace : (⟨function.body.span.stop - 1, function.body.span.stop⟩ : Span) =
          parts.closing.span := by
        rw [ends, width, Int.add_sub_cancel, ← width]
      simp [brace, closing]
  | some comment =>
      rw [last, Option.getD_some] at ends
      simp [ends]

end Sound

end FunctionNode

/-! ## Functions in a row -/

/-- The edits of functions in the order of the text, with more of them at the end of
each body. -/
def laidEditsOf (source : Bytes) (tail : FunctionNode → List Edit)
    (pairs : List (FunctionNode × Declaration)) : List Edit :=
  pairs.flatMap fun pair => pair.1.laidEdits source (tail pair.1) pair.2

variable {pairs : List (FunctionNode × Declaration)} {low high : Int}

@[simp] theorem laidEditsOf_nil (tail : FunctionNode → List Edit) :
    laidEditsOf source tail [] = [] := rfl

@[simp] theorem laidEditsOf_cons (tail : FunctionNode → List Edit)
    (pair : FunctionNode × Declaration) (rest : List (FunctionNode × Declaration)) :
    laidEditsOf source tail (pair :: rest) =
      pair.1.laidEdits source (tail pair.1) pair.2 ++ laidEditsOf source tail rest := rfl

/-- The edits of functions in a row are tidy. -/
theorem tidy_laidEditsOf (tail : FunctionNode → List Edit)
    (row : Node.InRow low high (pairs.map (·.1.node)))
    (each : ∀ pair ∈ pairs, pair.1.Sound source)
    (ends : ∀ pair ∈ pairs,
      Edit.Tidy source pair.1.inside.stop pair.1.node.span.stop (tail pair.1)) :
    Edit.Tidy source low high (laidEditsOf source tail pairs) := by
  induction pairs generalizing low with
  | nil => exact .nil row
  | cons pair rest ih =>
      obtain ⟨starts, -, row⟩ := row
      obtain ⟨sound, each⟩ := List.forall_mem_cons.mp each
      obtain ⟨tidy, ends⟩ := List.forall_mem_cons.mp ends
      exact ((sound.tidy_laidEdits pair.2 tidy).widen starts).append (ih row each ends)

/-- Replacing whole functions by what they render to is making their edits in the
script, with a brace in the place of the last byte of each body. -/
theorem woven_replacements (row : Node.InRow low high (pairs.map (·.1.node)))
    (each : ∀ pair ∈ pairs, pair.1.Sound source)
    (declared : ∀ pair ∈ pairs, (pair.1.declaration source options).outcome = .ok pair.2) :
    source.woven high low (replacements (pairs.map (·.1)) (pairs.map (·.2.text))) =
      source.woven high low
        (laidEditsOf source (fun function => [function.closingEdit]) pairs) := by
  induction pairs generalizing low with
  | nil => rfl
  | cons pair rest ih =>
      obtain ⟨starts, order, row⟩ := row
      obtain ⟨sound, each⟩ := List.forall_mem_cons.mp each
      obtain ⟨first, declared⟩ := List.forall_mem_cons.mp declared
      have closing := sound.tidy_closing (sound.boundary_of_declared first)
      have follows := tidy_laidEditsOf (fun function => [function.closingEdit]) row each
        fun next within => (each next within).tidy_closing
          ((each next within).boundary_of_declared (declared next within))
      rw [laidEditsOf_cons, sound.woven_laidEdits pair.2 closing.ordered follows.ordered,
        sound.woven_closing, ← ih row each declared]
      change source.cut ⟨low, pair.1.node.span.start⟩ ++ (Utf8.encode pair.2.text ++ _) = _
      rw [sound.encode_text first, List.append_assoc, List.append_assoc]
      rfl

/-- Without the braces that are put at the ends the edits give the same text exactly
where each body ends with a brace. -/
theorem woven_laidEditsOf_eq_iff (row : Node.InRow low high (pairs.map (·.1.node)))
    (each : ∀ pair ∈ pairs, pair.1.Sound source)
    (ends : ∀ pair ∈ pairs, source.Boundary pair.1.inside.stop) :
    source.woven high low (laidEditsOf source (fun function => [function.closingEdit]) pairs) =
        source.woven high low (laidEditsOf source (fun _ => []) pairs) ↔
      ∀ pair ∈ pairs, pair.1.EndsWithBrace source := by
  induction pairs generalizing low with
  | nil => simp
  | cons pair rest ih =>
      obtain ⟨starts, order, row⟩ := row
      obtain ⟨sound, each⟩ := List.forall_mem_cons.mp each
      obtain ⟨whole, ends⟩ := List.forall_mem_cons.mp ends
      have closed := tidy_laidEditsOf (fun function => [function.closingEdit]) row each
        fun next within => (each next within).tidy_closing (ends next within)
      have flat := tidy_laidEditsOf (fun _ => []) row each
        fun next within => (each next within).tidy_nil
      rw [List.forall_mem_cons, ← ih row each ends, sound.endsWithBrace_iff_cut]
      rw [laidEditsOf_cons, laidEditsOf_cons,
        sound.woven_laidEdits pair.2 (sound.tidy_closing whole).ordered closed.ordered,
        sound.woven_laidEdits pair.2 sound.tidy_nil.ordered flat.ordered, sound.woven_closing,
        List.append_cancel_left_eq, List.append_cancel_left_eq, List.append_cancel_left_eq]
      change Utf8.encode "\x7d" ++ _ =
        source.cut ⟨pair.1.inside.stop, pair.1.node.span.stop⟩ ++ _ ↔ _
      constructor
      · intro same
        obtain ⟨brace, after⟩ := List.append_inj same sound.length_last.symm
        exact ⟨brace.symm, after⟩
      · intro both
        rw [both.1]
        exact congrArg _ both.2

/-- The edits of rendered functions, in the order of the text. -/
theorem exists_flatEdits (each : ∀ pair ∈ pairs, pair.1.Sound source)
    (declared : ∀ pair ∈ pairs, (pair.1.declaration source options).outcome = .ok pair.2) :
    ∃ lists, (pairs.map (·.1)).mapM (·.flatEdits source options) = .ok lists ∧
      lists.flatten.Perm (laidEditsOf source (fun _ => []) pairs) := by
  induction pairs with
  | nil => exact ⟨[], rfl, .refl _⟩
  | cons pair rest ih =>
      obtain ⟨sound, each⟩ := List.forall_mem_cons.mp each
      obtain ⟨first, declared⟩ := List.forall_mem_cons.mp declared
      obtain ⟨edits, made, same⟩ := sound.flatEdits_of_declared first
      obtain ⟨lists, madeRest, sameRest⟩ := ih each declared
      refine ⟨edits :: lists, ?_, same.append sameRest⟩
      rw [List.map_cons, List.mapM_cons, made, madeRest]
      rfl

/-- The braces at the ends of the bodies may as well come last. -/
theorem laidEditsOf_append_perm :
    (laidEditsOf source (fun _ => []) pairs ++ pairs.map (·.1.closingEdit)).Perm
      (laidEditsOf source (fun function => [function.closingEdit]) pairs) := by
  have apart := List.flatMap_append_perm pairs
    (fun pair => pair.1.laidEdits source [] pair.2) (fun pair => [pair.1.closingEdit])
  simpa [FunctionNode.laidEdits, laidEditsOf, List.map_eq_flatMap] using apart

namespace Document

variable {document : Document}

/-- The edits of all functions of a document at once. -/
def flatEdits (document : Document) (options : Options) : Except Fault (List Edit) := do
  let lists ← (FunctionNode.topLevel document.root).mapM (·.flatEdits document.source options)
  return lists.flatten

/-- What is collected is well laid. -/
theorem sound_of_collect (sound : document.Sound)
    (found : (document.collect options).outcome = .ok pairs) :
    ∀ pair ∈ pairs, pair.1.Sound document.source := by
  intro pair within
  exact FunctionNode.sound_topLevel sound (mem_topLevel_of_collect sound found within).1

/-- What is collected comes with its declaration. -/
theorem declared_of_collect (sound : document.Sound)
    (found : (document.collect options).outcome = .ok pairs) :
    ∀ pair ∈ pairs, (pair.1.declaration document.source options).outcome = .ok pair.2 := by
  intro pair within
  exact (mem_topLevel_of_collect sound found within).2

/-- What is collected stands in a row. -/
theorem row_of_collect (sound : document.Sound)
    (found : (document.collect options).outcome = .ok pairs) :
    Node.InRow 0 document.source.length (pairs.map (·.1.node)) := by
  have row := FunctionNode.topLevel_row sound
  rw [← map_fst_of_collect sound found, List.map_map] at row
  exact (row.widen sound.starts.nonneg).extend sound.stops.le_length

/-- What is collected has bodies that end at boundaries. -/
theorem boundary_of_collect (sound : document.Sound)
    (found : (document.collect options).outcome = .ok pairs) :
    ∀ pair ∈ pairs, document.source.Boundary pair.1.inside.stop := by
  intro pair within
  exact (sound_of_collect sound found pair within).boundary_of_declared
    (declared_of_collect sound found pair within)

/-- The edits of all functions can be made at once, with and without the braces. -/
theorem splice_flatEdits (sound : document.Sound)
    (found : (document.collect options).outcome = .ok pairs) :
    ∃ edits flat whole, document.flatEdits options = .ok edits ∧
      document.source.splice edits = .ok flat ∧
      Utf8.encode flat = document.source.woven document.source.length 0
        (laidEditsOf document.source (fun _ => []) pairs) ∧
      document.source.splice
        (edits ++ (FunctionNode.topLevel document.root).map (·.closingEdit)) = .ok whole ∧
      Utf8.encode whole = document.source.woven document.source.length 0
        (laidEditsOf document.source (fun function => [function.closingEdit]) pairs) := by
  have each := sound_of_collect sound found
  have ends := boundary_of_collect sound found
  have row := row_of_collect sound found
  have bare := tidy_laidEditsOf (fun _ => []) row each
    fun pair within => (each pair within).tidy_nil
  have closing := tidy_laidEditsOf (fun function => [function.closingEdit]) row each
    fun pair within => (each pair within).tidy_closing (ends pair within)
  obtain ⟨lists, made, laid⟩ := exists_flatEdits each (declared_of_collect sound found)
  have closed := (laid.append_right (pairs.map (·.1.closingEdit))).trans laidEditsOf_append_perm
  obtain ⟨flat, spliced, written⟩ := Bytes.exists_splice_of_perm laid bare sound.starts.ends
  obtain ⟨whole, splicedWhole, writtenWhole⟩ :=
    Bytes.exists_splice_of_perm closed closing sound.starts.ends
  refine ⟨lists.flatten, flat, whole, ?_, spliced, written, ?_, writtenWhole⟩
  · unfold flatEdits
    rw [← map_fst_of_collect sound found, made]
    rfl
  · rw [← map_fst_of_collect sound found, List.map_map]
    exact splicedWhole

/-- **A well-laid document is converted in one flat pass and a brace for each function.** The
edits of all functions, made at once in the text, give a text. With a brace in the place of the
last byte of every body they give the output. The two are the same exactly if each body
ends with a brace, and a body does unless it takes in a comment that ends otherwise. -/
theorem convert_in_flat_pass {output : String} (sound : document.Sound)
    (converted : (document.convert options).outcome = .ok output) :
    ∃ edits flat,
      let functions := FunctionNode.topLevel document.root
      document.flatEdits options = .ok edits ∧
      document.source.splice edits = .ok flat ∧
      document.source.splice (edits ++ functions.map (·.closingEdit)) = .ok output ∧
      (output = flat ↔ ∀ function ∈ functions, function.EndsWithBrace document.source) ∧
      ∀ function ∈ functions, ∀ parts : Braces, parts.Enclose function.body →
        (function.EndsWithBrace document.source ↔
          ∀ comment, parts.comments.getLast? = some comment →
            document.source.cut ⟨comment.span.stop - 1, comment.span.stop⟩ =
              Utf8.encode "\x7d") := by
  obtain ⟨pairs, found, written⟩ := exists_collect_of_convert sound converted
  obtain ⟨edits, flat, whole, made, spliced, writtenFlat, splicedWhole, writtenWhole⟩ :=
    splice_flatEdits sound found
  have functions := map_fst_of_collect sound found
  have each := sound_of_collect sound found
  have row := row_of_collect sound found
  have same : output = whole := by
    rw [← functions, woven_replacements row each (declared_of_collect sound found),
      ← writtenWhole] at written
    exact Utf8.encode_injective written
  subst same
  refine ⟨edits, flat, made, spliced, splicedWhole, ?_, ?_⟩
  · rw [← functions, List.forall_mem_map,
      ← woven_laidEditsOf_eq_iff row each (boundary_of_collect sound found),
      ← writtenWhole, ← writtenFlat]
    exact ⟨congrArg Utf8.encode, fun equal => Utf8.encode_injective equal⟩
  · intro function member parts enclosed
    exact (FunctionNode.sound_topLevel sound member).endsWithBrace_iff enclosed

end Document

/-- **Direct mode is one flat pass and a brace for each function.** The edits of all
functions, made at once in the script, give a text. With a brace in the place of the
last byte of every body they give the output. The two are the same exactly if each body
ends with a brace, and a body does unless it takes in a comment that ends otherwise. -/
theorem convert_eq_flat_pass_iff {text output : String} {document : Document} (options : Options)
    (parsed : Document.parse text = .ok document)
    (converted : (convert text options).outcome = .ok output) :
    ∃ edits flat,
      let functions := FunctionNode.topLevel document.root
      document.flatEdits (options.resolve text) = .ok edits ∧
      document.source.splice edits = .ok flat ∧
      document.source.splice (edits ++ functions.map (·.closingEdit)) = .ok output ∧
      (output = flat ↔ ∀ function ∈ functions, function.EndsWithBrace document.source) ∧
      ∀ function ∈ functions, ∀ parts : Braces, parts.Enclose function.body →
        (function.EndsWithBrace document.source ↔
          ∀ comment, parts.comments.getLast? = some comment →
            document.source.cut ⟨comment.span.stop - 1, comment.span.stop⟩ =
              Utf8.encode "\x7d") := by
  rw [convert_outcome options parsed] at converted
  exact Document.convert_in_flat_pass (Document.sound_of_parse parsed) converted

/-- Two functions, and a comment in the body of the second that ends with a brace. -/
theorem convert_eq_flat_pass_iff_two_functions :
    ∃ document edits flat,
      Document.parse
        "function f(a) \x7b let x = a; return [x]; \x7d\nfunction g() \x7b\x7d // \x7d\nx" =
          .ok document ∧
      (convert "function f(a) \x7b let x = a; return [x]; \x7d\nfunction g() \x7b\x7d // \x7d\nx"
        {}).outcome = .ok "f(a) \x7b x = a; return x; \x7d\ng() \x7b\x7d // \x7d\nx" ∧
      document.flatEdits {} = .ok edits ∧ document.source.splice edits = .ok flat ∧
      ("f(a) \x7b x = a; return x; \x7d\ng() \x7b\x7d // \x7d\nx" = flat ↔
        ∀ function ∈ FunctionNode.topLevel document.root,
          function.EndsWithBrace document.source) := by
  have converted : (convert
      "function f(a) \x7b let x = a; return [x]; \x7d\nfunction g() \x7b\x7d // \x7d\nx"
        {}).outcome = .ok "f(a) \x7b x = a; return x; \x7d\ng() \x7b\x7d // \x7d\nx" := by
    decide +kernel
  obtain ⟨document, parsed, -⟩ := Outcome.exists_ok_of_any (show (Document.parse
    "function f(a) \x7b let x = a; return [x]; \x7d\nfunction g() \x7b\x7d // \x7d\nx").toOption.any
      (fun _ => true) = true by decide +kernel)
  obtain ⟨edits, flat, made, spliced, -, same, -⟩ := convert_eq_flat_pass_iff {} parsed converted
  exact ⟨document, edits, flat, parsed, converted, made, spliced, same⟩

/-- A comment after the closing brace survives the flat pass and not the conversion. -/
theorem convert_ne_flat_pass :
    (Document.parse "function f(a) \x7b return [a]; \x7d // note\nx = 1;" >>= fun document =>
      document.flatEdits {} >>= document.source.splice) =
        .ok "f(a) \x7b return a; \x7d // note\nx = 1;" ∧
    (convert "function f(a) \x7b return [a]; \x7d // note\nx = 1;" {}).outcome =
      .ok "f(a) \x7b return a; \x7d // not\x7d\nx = 1;" := by
  decide +kernel

end Codebox
