import Codebox.Proofs.Parsing.Opening

/-! # What a gap looks through

A gap is searched from where a token ends: blanks and comments are passed until something else
comes. So the comments of a gap are those that a reader of the text meets one after the other,
and a comment of the gap has nothing but blanks and other comments before it.
-/

namespace Codebox.Script

variable {html : Bool} {fuel : Nat} {found : List Node} {edge : Cursor} {front rest : List Char}

/-! ## Cursors -/

namespace Cursor

/-- What is ahead of a cursor that has moved on. -/
theorem rest_advance (cursor : Cursor) (count : Nat) :
    (cursor.advance count).rest = cursor.rest.drop count := by
  fun_induction Cursor.advance count cursor with
  | case1 cursor => rfl
  | case2 count offset point size => rfl
  | case3 count c rest offset point size ih => exact ih

/-- Two moves are one. -/
theorem advance_advance (cursor : Cursor) (first second : Nat) :
    (cursor.advance first).advance second = cursor.advance (first + second) := by
  fun_induction Cursor.advance first cursor with
  | case1 cursor => rw [Nat.zero_add]
  | case2 count offset point size =>
      cases second with
      | zero => rfl
      | succ second => rw [Nat.succ_add, advance, advance]
  | case3 count c rest offset point size ih => rw [ih, Nat.succ_add, advance]

/-- A move over two texts is one over the first and one over the second. -/
theorem advance_append (cursor : Cursor) (first second : List Char) :
    cursor.advance (first ++ second).length =
      (cursor.advance first.length).advance second.length := by
  rw [List.length_append, advance_advance]

/-- A move over a character and a text is one over each. -/
theorem advance_cons (cursor : Cursor) (c : Char) (text : List Char) :
    cursor.advance (c :: text).length = (cursor.advance 1).advance text.length := by
  rw [List.length_cons, Nat.add_comm, advance_advance]

/-- A blank is skipped first. -/
theorem skipSpace_of_isSpace {c : Char} (ahead : edge.rest = c :: rest) (space : isSpace c) :
    edge.skipSpace = (edge.advance 1).skipSpace := by
  unfold skipSpace
  rw [rest_advance, ahead, List.takeWhile_cons_of_pos space, List.length_cons, advance_advance,
    List.drop_one, List.tail_cons, Nat.add_comm]

/-- Nothing is skipped before a character that is no blank. -/
theorem skipSpace_of_not_isSpace {c : Char} (ahead : edge.rest = c :: rest)
    (solid : isSpace c = false) : edge.skipSpace = edge := by
  unfold skipSpace
  rw [ahead, List.takeWhile_cons_of_neg (by simp [solid]), List.length_nil, advance]

/-- The blanks ahead are skipped and no more. -/
theorem rest_skipSpace (cursor : Cursor) :
    cursor.rest = cursor.rest.takeWhile isSpace ++ cursor.skipSpace.rest := by
  have split := List.takeWhile_append_dropWhile (p := isSpace) (l := cursor.rest)
  unfold skipSpace
  rw [rest_advance]
  nth_rewrite 4 [← split]
  rw [List.drop_left, split]

end Cursor

/-! ## Comments -/

/-- A text is one comment, before what follows it. A line comment goes up to a character that
ends it or to the end of the text, and a block comment to the first mark that closes it. -/
inductive IsComment : List Char → List Char → Prop
  | line {body rest : List Char} (whole : ∀ c ∈ body, endsLineComment c = false)
      (closes : ∀ c ∈ rest.head?, endsLineComment c) : IsComment ('/' :: '/' :: body) rest
  | block {body rest : List Char} (whole : ¬ ['*', '/'] <:+: body ++ ['*']) :
      IsComment ('/' :: '*' :: body ++ ['*', '/']) rest

/-- A comment starts with a slash. -/
theorem IsComment.exists_slash {comment : List Char} (whole : IsComment comment rest) :
    ∃ more, comment = '/' :: more := by
  cases whole with
  | line => exact ⟨_, rfl⟩
  | block => exact ⟨_, rfl⟩

/-- A block comment goes on to the first mark that closes it. -/
theorem blockCommentRest?_eq_some_iff {text : List Char} {length : Nat} :
    blockCommentRest? text = some length ↔
      ∃ body rest, text = body ++ '*' :: '/' :: rest ∧ length = body.length + 2 ∧
        ¬ ['*', '/'] <:+: body ++ ['*'] := by
  fun_induction blockCommentRest? text generalizing length with
  | case1 => simp
  | case2 rest =>
      constructor
      · rintro ⟨⟩
        exact ⟨[], rest, rfl, rfl, by decide⟩
      · rintro ⟨body, other, parts, rfl, whole⟩
        cases body with
        | nil => rfl
        | cons c body =>
            cases body with
            | nil => simp at parts
            | cons d body =>
                obtain ⟨rfl, rest⟩ := List.cons.inj parts
                obtain ⟨rfl, -⟩ := List.cons.inj rest
                exact absurd ⟨[], body ++ ['*'], rfl⟩ whole
  | case3 c rest unclosed ih =>
      constructor
      · intro found
        obtain ⟨inner, closed, rfl⟩ := Option.map_eq_some_iff.mp found
        obtain ⟨body, other, rfl, rfl, whole⟩ := ih.mp closed
        refine ⟨c :: body, other, rfl, by rw [List.length_cons], ?_⟩
        rw [List.cons_append, List.infix_cons_iff]
        rintro (starts | inside)
        · cases body with
          | nil => simp at starts
          | cons d body =>
              simp only [List.cons_append, List.cons_prefix_cons] at starts
              obtain ⟨rfl, rfl, -⟩ := starts
              exact unclosed _ rfl rfl
        · exact whole inside
      · rintro ⟨body, other, parts, rfl, whole⟩
        cases body with
        | nil =>
            obtain ⟨rfl, rfl⟩ := List.cons.inj parts
            exact absurd rfl (unclosed other rfl)
        | cons d body =>
            obtain ⟨rfl, inside⟩ := List.cons.inj parts
            rw [List.cons_append, List.infix_cons_iff, not_or] at whole
            rw [ih.mpr ⟨body, other, inside, rfl, whole.2⟩, List.length_cons]
            exact congrArg some (Nat.succ_add _ _).symm

/-- The length of a comment is that of the one comment at the front of a text. -/
theorem commentLength?_eq_some_iff {text : List Char} {length : Nat} :
    commentLength? text = some length ↔
      ∃ comment rest, text = comment ++ rest ∧ comment.length = length ∧
        IsComment comment rest := by
  constructor
  · intro found
    unfold commentLength? at found
    split at found
    next after =>
      cases found
      refine ⟨'/' :: '/' :: after.takeWhile (!endsLineComment ·),
        after.dropWhile (!endsLineComment ·), ?_, ?_, .line ?_ ?_⟩
      · simp
      · rw [List.length_cons, List.length_cons, Nat.add_comm 2]
      · intro c member
        simpa using List.mem_takeWhile_imp member
      · intro c head
        have stops := List.head?_dropWhile_not (!endsLineComment ·) after
        rw [head] at stops
        simpa using stops
    next after =>
      obtain ⟨inner, closed, rfl⟩ := Option.map_eq_some_iff.mp found
      obtain ⟨body, rest, rfl, rfl, whole⟩ := blockCommentRest?_eq_some_iff.mp closed
      exact ⟨'/' :: '*' :: body ++ ['*', '/'], rest, by simp, by simp, .block whole⟩
    next => cases found
  · rintro ⟨comment, rest, rfl, rfl, whole⟩
    cases whole with
    | @line body _ whole closes =>
        have stops : (body ++ rest).takeWhile (!endsLineComment ·) = body := by
          rw [List.takeWhile_append_of_pos (by simpa using whole)]
          cases rest with
          | nil => simp
          | cons c tail => simp [closes c rfl]
        rw [List.cons_append, List.cons_append, commentLength?, stops, List.length_cons,
          List.length_cons, Nat.add_comm]
    | @block body _ whole =>
        have found : blockCommentRest? (body ++ ['*', '/'] ++ rest) = some (body.length + 2) :=
          blockCommentRest?_eq_some_iff.mpr ⟨body, rest, by simp, rfl, whole⟩
        rw [List.cons_append, List.cons_append, List.cons_append, List.cons_append, commentLength?,
          found]
        simp

/-- A comment of the language, which an embedded-page comment is not. -/
theorem comment?_eq_comment {text : List Char} {length : Nat}
    (found : comment? html text = some (.comment, length)) : commentLength? text = some length := by
  unfold comment? at found
  split at found
  next plain =>
    cases found
    exact plain
  next =>
    split at found
    · obtain ⟨other, -, same⟩ := Option.map_eq_some_iff.mp found
      cases same
    · cases found

/-! ## Gaps -/

/-- Two gaps have the same comments and lead to the same token. -/
def Gap.Same (first second : Gap) : Prop :=
  first.comments = second.comments ∧ first.next = second.next

/-- Gaps that are the same as one are the same. -/
theorem Gap.Same.trans {first second third : Gap} (left : first.Same second)
    (right : second.Same third) : first.Same third :=
  ⟨left.1.trans right.1, left.2.trans right.2⟩

/-- A gap depends on where the blanks ahead end. -/
theorem gapFrom_same {other : Cursor} (same : edge.skipSpace = other.skipSpace) :
    (gapFrom html fuel found edge).Same (gapFrom html fuel found other) := by
  cases fuel with
  | zero => exact ⟨rfl, same⟩
  | succ fuel =>
      unfold gapFrom
      dsimp only
      rw [same]
      split
      · exact ⟨rfl, rfl⟩
      · exact ⟨rfl, rfl⟩

/-- A comment ahead is taken in. -/
theorem gapFrom_comment (html : Bool) (fuel : Nat) (found : List Node) {comment : List Char}
    (ahead : edge.rest = comment ++ rest) (whole : IsComment comment rest) :
    let last := edge.advance comment.length
    gapFrom html (fuel + 1) found edge =
      gapFrom html fuel (edge.leaf last .comment true :: found) last := by
  intro last
  obtain ⟨more, starts⟩ := whole.exists_slash
  have here : edge.skipSpace = edge := by
    have slash : edge.rest = '/' :: (more ++ rest) := by
      rw [ahead, starts, List.cons_append]
    exact Cursor.skipSpace_of_not_isSpace slash (by decide)
  have length : commentLength? edge.rest = some comment.length :=
    commentLength?_eq_some_iff.mpr ⟨comment, rest, ahead, rfl, whole⟩
  rw [gapFrom]
  simp only [here, comment?, length]
  rfl

/-- The comments that are found stay in front of those that follow. -/
theorem comments_gapFrom (fuel : Nat) (found : List Node) (edge : Cursor) :
    (gapFrom html fuel found edge).comments =
      found.reverse ++ (gapFrom html fuel [] edge).comments := by
  induction fuel generalizing found edge with
  | zero => exact (List.append_nil _).symm
  | succ fuel ih =>
      unfold gapFrom
      dsimp only
      split
      next kind length _ =>
        rw [ih (_ :: found), ih [_], List.reverse_cons, List.append_assoc]
        rfl
      next => exact (List.append_nil _).symm

/-- A gap starts with blanks. After them comes the first of its comments, or else the gap ends. -/
theorem gap_start (cursor : Cursor) :
    (cursor.gap.comments = [] ∧ cursor.gap.next = cursor.skipSpace) ∨
      ∃ comment rest, cursor.gap.comments = comment :: rest ∧
        comment.span.start = cursor.skipSpace.offset := by
  unfold Cursor.gap
  cases cursor.size with
  | zero => exact .inl ⟨rfl, rfl⟩
  | succ fuel =>
      unfold gapFrom
      dsimp only
      split
      next kind length _ =>
        rw [comments_gapFrom]
        exact .inr ⟨_, _, rfl, rfl⟩
      next => exact .inl ⟨rfl, rfl⟩

/-! ## Blanks and comments -/

/-- Texts between tokens: blanks, block comments, and line comments with the character that ends
them. -/
inductive Inert : List Char → Prop
  | nil : Inert []
  | space {c : Char} {text : List Char} (blank : isSpace c) (rest : Inert text) : Inert (c :: text)
  | line {body text : List Char} {c : Char} (whole : ∀ c ∈ body, endsLineComment c = false)
      (closes : endsLineComment c) (rest : Inert text) : Inert ('/' :: '/' :: body ++ c :: text)
  | block {body text : List Char} (whole : ¬ ['*', '/'] <:+: body ++ ['*']) (rest : Inert text) :
      Inert ('/' :: '*' :: body ++ ['*', '/'] ++ text)

/-- What ends a line comment is a blank. -/
theorem isSpace_of_endsLineComment {c : Char} (closes : endsLineComment c) : isSpace c := by
  simp only [endsLineComment, isLineBreak, Bool.or_eq_true, decide_eq_true_eq, beq_iff_eq] at closes
  obtain ((rfl | code) | code) | rfl := closes
  · rfl
  · simp [isSpace, code]
  · simp [isSpace, code]
  · rfl

/-- Blanks and comments after blanks and comments. -/
theorem Inert.append {others : List Char} (inert : Inert front) (after : Inert others) :
    Inert (front ++ others) := by
  induction inert with
  | nil => exact after
  | space blank _ ih => exact .space blank ih
  | line whole closes _ ih =>
      have joined := Inert.line whole closes ih
      simpa using joined
  | block whole _ ih =>
      have joined := Inert.block whole ih
      simpa using joined

/-- Blanks alone. -/
theorem Inert.of_isSpace {blanks : List Char} (blank : ∀ c ∈ blanks, isSpace c) : Inert blanks := by
  induction blanks with
  | nil => exact .nil
  | cons c rest ih =>
      obtain ⟨here, blank⟩ := List.forall_mem_cons.mp blank
      exact .space here (ih blank)

/-- A comment before blanks and comments that another comment follows. -/
theorem IsComment.inert {comment more : List Char}
    (whole : IsComment comment (front ++ '/' :: more)) (inert : Inert front) :
    Inert (comment ++ front) := by
  cases whole with
  | block whole => exact .block whole inert
  | line whole closes =>
      have slash : endsLineComment '/' = false := by decide
      -- What ends the line is the first blank after it; no comment starts with it.
      cases inert with
      | nil => simp [slash] at closes
      | space blank rest => exact .line whole (closes _ rfl) rest
      | line => simp [slash] at closes
      | block => simp [slash] at closes

/-- The search for a gap comes from one cursor to another, with the comments found on the way. -/
def Crosses (html : Bool) (first last : Cursor) : Prop :=
  ∀ (fuel : Nat) (found : List Node), first.rest.length ≤ fuel →
    ∃ left more, last.rest.length ≤ left ∧ (∀ node ∈ more, node.kind = .comment) ∧
      (gapFrom html fuel found first).Same (gapFrom html left (more ++ found) last)

namespace Crosses

variable {last : Cursor}

/-- The search starts where it starts. -/
theorem refl (cursor : Cursor) : Crosses html cursor cursor :=
  fun fuel _ enough => ⟨fuel, [], enough, by simp, rfl, rfl⟩

/-- A blank is passed over. -/
theorem space {c : Char} (ahead : edge.rest = c :: rest) (blank : isSpace c)
    (later : Crosses html (edge.advance 1) last) : Crosses html edge last := by
  intro fuel found enough
  have less : (edge.advance 1).rest.length ≤ fuel := by
    rw [Cursor.rest_advance, List.length_drop]
    omega
  obtain ⟨left, more, enough, plain, same⟩ := later fuel found less
  refine ⟨left, more, enough, plain, ?_⟩
  exact (gapFrom_same (Cursor.skipSpace_of_isSpace ahead blank)).trans same

/-- A comment is passed over and found. -/
theorem comment {comment : List Char} (parts : edge.rest = comment ++ rest)
    (whole : IsComment comment rest) (later : Crosses html (edge.advance comment.length) last) :
    Crosses html edge last := by
  intro fuel found enough
  obtain ⟨more, starts⟩ := whole.exists_slash
  have less : (edge.advance comment.length).rest.length < edge.rest.length := by
    rw [Cursor.rest_advance, List.length_drop, parts, starts, List.length_append, List.length_cons]
    omega
  obtain ⟨fuel, rfl⟩ :=
    Nat.exists_eq_succ_of_ne_zero (Nat.ne_zero_of_lt (Nat.lt_of_lt_of_le less enough))
  obtain ⟨left, more, enough, plain, same⟩ :=
    later fuel (edge.leaf (edge.advance comment.length) .comment true :: found) (by omega)
  refine ⟨left, more ++ [edge.leaf (edge.advance comment.length) .comment true], enough, ?_, ?_⟩
  · exact List.forall_mem_append.mpr ⟨plain, List.forall_mem_singleton.mpr rfl⟩
  · rw [gapFrom_comment html fuel found parts whole, List.append_assoc]
    exact same

end Crosses

/-- The search for a gap passes over blanks and comments. -/
theorem Inert.crosses (inert : Inert front) (ahead : edge.rest = front ++ rest) :
    Crosses html edge (edge.advance front.length) := by
  induction inert generalizing edge with
  | nil => exact .refl _
  | @space c text blank _ ih =>
      refine .space ahead blank ?_
      rw [Cursor.advance_cons]
      exact ih (by rw [Cursor.rest_advance, ahead]; rfl)
  | @line body text c whole closes _ ih =>
      have parts : edge.rest = ('/' :: '/' :: body) ++ c :: (text ++ rest) := by simp [ahead]
      have after : (edge.advance ('/' :: '/' :: body).length).rest = c :: (text ++ rest) := by
        rw [Cursor.rest_advance, parts, List.drop_left]
      refine .comment parts (.line whole ?_) (.space after (isSpace_of_endsLineComment closes) ?_)
      · rintro d ⟨⟩
        exact closes
      · rw [Cursor.advance_append, Cursor.advance_cons _ c]
        exact ih (by rw [Cursor.rest_advance, after]; rfl)
  | @block body text whole _ ih =>
      have parts : edge.rest = ('/' :: '*' :: body ++ ['*', '/']) ++ (text ++ rest) := by
        simp [ahead]
      refine .comment parts (.block whole) ?_
      rw [Cursor.advance_append _ _ text]
      exact ih (by rw [Cursor.rest_advance, parts, List.drop_left])

/-- Before a comment of a gap stand blanks and comments, and its text is one comment, as long as
the comments before it in the gap are comments of the language. -/
theorem exists_of_gapFrom {before later : List Node} {node : Node}
    (comments : (gapFrom html fuel [] edge).comments = before ++ node :: later)
    (plain : ∀ other ∈ before, other.kind = .comment) (kind : node.kind = .comment) :
    ∃ front comment rest, edge.rest = front ++ comment ++ rest ∧ Inert front ∧
      IsComment comment rest ∧
      node = (edge.advance front.length).leaf (edge.advance (front ++ comment).length)
        .comment true := by
  induction fuel generalizing edge before with
  | zero => simp [gapFrom] at comments
  | succ fuel ih =>
      have blanks := edge.rest_skipSpace
      have inert : Inert (edge.rest.takeWhile isSpace) :=
        .of_isSpace fun c => List.mem_takeWhile_imp
      generalize spaces : edge.rest.takeWhile isSpace = space at blanks inert
      have skipped : edge.skipSpace = edge.advance space.length := by
        unfold Cursor.skipSpace
        rw [spaces]
      unfold gapFrom at comments
      dsimp only at comments
      split at comments
      next sort length found =>
        rw [comments_gapFrom, List.reverse_singleton, List.singleton_append] at comments
        cases before with
        | nil =>
            obtain ⟨rfl, -⟩ := List.cons.inj comments
            obtain rfl : sort = .comment := kind
            obtain ⟨comment, rest, parts, rfl, whole⟩ :=
              commentLength?_eq_some_iff.mp (comment?_eq_comment found)
            refine ⟨space, comment, rest, ?_, inert, whole, ?_⟩
            · rw [blanks, parts, List.append_assoc]
            · rw [Cursor.advance_append, ← skipped]
        | cons first before =>
            obtain ⟨rfl, others⟩ := List.cons.inj comments
            obtain ⟨plainFirst, plainOthers⟩ := List.forall_mem_cons.mp plain
            obtain rfl : sort = .comment := plainFirst
            obtain ⟨comment, after, parts, rfl, whole⟩ :=
              commentLength?_eq_some_iff.mp (comment?_eq_comment found)
            obtain ⟨front, other, rest, split, inertFront, wholeOther, same⟩ :=
              ih others plainOthers
            have ahead : (edge.skipSpace.advance comment.length).rest = after := by
              rw [Cursor.rest_advance, parts, List.drop_left]
            rw [ahead] at split
            obtain ⟨more, rfl⟩ := wholeOther.exists_slash
            rw [split, List.append_assoc, List.cons_append] at whole
            refine ⟨space ++ (comment ++ front), '/' :: more, rest, ?_,
              inert.append (whole.inert inertFront), wholeOther, ?_⟩
            · rw [blanks, parts, split]
              simp
            · rw [same, skipped]
              simp only [Cursor.advance_advance, List.length_append, Nat.add_assoc]
      next => simp at comments

/-- A comment after blanks and other comments at the start of a script is one of the comments
there, and those before it are plain. -/
theorem exists_comment_at_start {text comment : List Char} (parts : text = front ++ comment ++ rest)
    (inert : Inert front) (whole : IsComment comment rest) :
    let here := (Cursor.start text).advance front.length
    ∃ before later,
      (Cursor.start text).gap.comments =
        before ++ here.leaf (here.advance comment.length) .comment true :: later ∧
      ∀ node ∈ before, node.kind = .comment := by
  intro here
  have ahead : (Cursor.start text).rest = front ++ (comment ++ rest) := by
    rw [← List.append_assoc]
    exact parts
  have next : here.rest = comment ++ rest := by
    rw [Cursor.rest_advance, ahead, List.drop_left]
  obtain ⟨left, more, enough, plain, comments, -⟩ := inert.crosses ahead _ [] (Nat.le_refl _)
  obtain ⟨slash, starts⟩ := whole.exists_slash
  change here.rest.length ≤ left at enough
  rw [next, starts, List.cons_append] at enough
  obtain ⟨left, rfl⟩ := Nat.exists_eq_succ_of_ne_zero (Nat.ne_zero_of_lt enough)
  rw [List.append_nil, gapFrom_comment true left more next whole] at comments
  have split := comments.trans (comments_gapFrom _ _ _)
  rw [List.reverse_cons, List.append_assoc, List.singleton_append] at split
  exact ⟨more.reverse, _, split, fun node member => plain node (List.mem_reverse.mp member)⟩

end Codebox.Script
