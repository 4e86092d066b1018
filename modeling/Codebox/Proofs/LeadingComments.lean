import Codebox.Proofs.Parsing.Program
import Codebox.Proofs.Pragmas

/-! # Pragmas and leading comments

Pragmas are read line by line, where a line ends at a line feed. A comment of the script ends
sooner, at a carriage return or at a separator of lines or paragraphs. So a pragma stands in one
comment at the start of the script exactly if no such character stands inside its line, as long as
the same holds of the lines above it. Where it does not, what counts is what the text above the
pragma reads as: blanks and comments, a block comment that goes on over the pragma, or code.
-/

namespace Codebox

open Text

namespace Script

variable {html : Bool} {fuel : Nat} {found : List Node} {edge : Cursor} {rest : List Char}

/-! ## Characters that are blank in a line and not in a script -/

/-- A text that is between tokens up to a control that is not. -/
def Stuck (text : List Char) : Prop :=
  ∃ front c tail, text = front ++ c :: tail ∧ Inert front ∧ isSpace c = false ∧ c.toNat ≤ 0x20

/-- A text that is between tokens, or gets stuck at a control. -/
def Clears (text : List Char) : Prop :=
  Inert text ∨ Stuck text

namespace Clears

variable {text others : List Char}

/-- Texts that read as comments and blanks can be joined. -/
theorem append (clears : Clears text) (after : Clears others) : Clears (text ++ others) := by
  obtain inert | ⟨front, c, tail, rfl, inert, solid, low⟩ := clears
  · obtain inertAfter | ⟨front, c, tail, rfl, inertAfter, solid, low⟩ := after
    · exact .inl (inert.append inertAfter)
    · exact .inr ⟨text ++ front, c, tail, by simp, inert.append inertAfter, solid, low⟩
  · exact .inr ⟨front, c, tail ++ others, by simp, inert, solid, low⟩

/-- Blanks alone read as comments and blanks. -/
theorem of_blank (blank : ∀ c ∈ text, isBlank c) : Clears text := by
  induction text with
  | nil => exact .inl .nil
  | cons c rest ih =>
      obtain ⟨here, blank⟩ := List.forall_mem_cons.mp blank
      by_cases space : isSpace c
      · have single : Clears [c] := .inl (.space space .nil)
        exact single.append (ih blank)
      · refine .inr ⟨[], c, rest, rfl, .nil, by simpa using space, ?_⟩
        simp only [isBlank, isSpace, Bool.or_eq_true, Bool.and_eq_true, decide_eq_true_eq,
          beq_iff_eq] at here space
        omega

/-- A line comment may stand before what reads as comments and blanks. -/
theorem line {body : List Char} {c : Char} (whole : ∀ c ∈ body, endsLineComment c = false)
    (closes : endsLineComment c) (clears : Clears text) :
    Clears ('/' :: '/' :: body ++ c :: text) := by
  obtain inert | ⟨front, k, tail, rfl, inert, solid, low⟩ := clears
  · exact .inl (.line whole closes inert)
  · exact .inr ⟨_, k, tail, by simp, .line whole closes inert, solid, low⟩

end Clears

/-- No comment starts with a control. -/
theorem next_gapFrom_of_low {c : Char} (ahead : edge.rest = c :: rest) (solid : isSpace c = false)
    (low : c.toNat ≤ 0x20) : (gapFrom html fuel found edge).next = edge := by
  have here : edge.skipSpace = edge := Cursor.skipSpace_of_not_isSpace ahead solid
  cases fuel with
  | zero => exact here
  | succ fuel =>
      unfold gapFrom
      dsimp only
      rw [here, ahead]
      split
      next kind length found =>
        obtain ⟨-, other, tail, same, visible⟩ := (comment?_eq_some found).2.exists_cons
        cases same
        exact absurd low (Nat.not_le.mpr visible)
      next => rfl

/-- A comment after blanks and other comments at the start of a script is one of the comments
there, and those before it are plain, unless the script gets stuck before it. -/
theorem Clears.exists_comment {text before comment : List Char} (clears : Clears before)
    (parts : text = before ++ comment ++ rest) (whole : IsComment comment rest)
    (ends : (Cursor.start text).gap.next.rest = [] ∨ Visible (Cursor.start text).gap.next.rest) :
    let here := (Cursor.start text).advance before.length
    ∃ front later,
      (Cursor.start text).gap.comments =
        front ++ here.leaf (here.advance comment.length) .comment true :: later ∧
      ∀ node ∈ front, node.kind = .comment := by
  obtain inert | ⟨front, c, tail, rfl, inert, solid, low⟩ := clears
  · exact exists_comment_at_start parts inert whole
  · have ahead : (Cursor.start text).rest = front ++ c :: (tail ++ comment ++ rest) := by
      rw [← List.cons_append, ← List.cons_append, ← List.append_assoc, ← List.append_assoc]
      exact parts
    obtain ⟨left, more, -, -, -, next⟩ := inert.crosses ahead _ [] (Nat.le_refl _)
    have starts : ((Cursor.start text).advance front.length).rest =
        c :: (tail ++ comment ++ rest) := by
      rw [Cursor.rest_advance, ahead, List.drop_left]
    have stuck : (Cursor.start text).gap.next.rest = c :: (tail ++ comment ++ rest) := by
      rw [← starts, ← next_gapFrom_of_low starts solid low]
      exact congrArg Cursor.rest next
    rw [stuck] at ends
    obtain impossible | ⟨other, others, same, high⟩ := ends
    · cases impossible
    · cases same
      omega

end Script

/-! ## Lines -/

/-- A line whose trimmed text holds no character that ends a comment. -/
def Unbroken (line : List Char) : Prop :=
  ∀ c ∈ trim line, Script.endsLineComment c = false

instance : DecidablePred Unbroken := fun line =>
  decidable_of_iff ((trim line).all (!Script.endsLineComment ·)) (by simp [Unbroken])

/-- A line is its blanks on the left, what trimming leaves, and blanks on the right. -/
theorem trim_split (line : List Char) :
    ∃ trail, line = line.takeWhile isBlank ++ trim line ++ trail ∧ ∀ c ∈ trail, isBlank c := by
  refine ⟨((line.dropWhile isBlank).reverse.takeWhile isBlank).reverse, ?_, ?_⟩
  · unfold trim
    rw [List.append_assoc, ← List.reverse_append, List.takeWhile_append_dropWhile,
      List.reverse_reverse, List.takeWhile_append_dropWhile]
  · intro c member
    exact List.mem_takeWhile_imp (List.mem_reverse.mp member)

/-- A line that does not end the pragmas reads as a comment or as blanks. -/
theorem clears_line {line : List Char} (passes : TopLine.Passes line) (unbroken : Unbroken line) :
    Script.Clears (line ++ ['\n']) := by
  obtain ⟨trail, split, blank⟩ := trim_split line
  have lead : Script.Clears (line.takeWhile isBlank) := .of_blank fun c => List.mem_takeWhile_imp
  have blank : ∀ c ∈ trail ++ ['\n'], isBlank c :=
    List.forall_mem_append.mpr ⟨blank, List.forall_mem_singleton.mpr rfl⟩
  rw [split, List.append_assoc, List.append_assoc]
  refine lead.append ?_
  obtain empty | ⟨body, comment⟩ := passes
  · rw [empty]
    exact .of_blank blank
  · -- The comment goes on through the blanks after its text, up to the first that ends it.
    have comment : trim line = '/' :: '/' :: body := comment.symm
    unfold Unbroken at unbroken
    rw [comment] at unbroken ⊢
    cases found : (trail ++ ['\n']).find? Script.endsLineComment with
    | none => exact absurd rfl (List.find?_eq_none.mp found '\n' (by simp))
    | some c =>
        obtain ⟨closes, first, after, parts, before⟩ := List.find?_eq_some_iff_append.mp found
        rw [parts] at blank ⊢
        have whole : ∀ c ∈ body ++ first, Script.endsLineComment c = false := by
          refine List.forall_mem_append.mpr ⟨fun c member => unbroken c (by simp [member]), ?_⟩
          simpa using before
        have after : Script.Clears after := .of_blank fun c member => blank c (by simp [member])
        have joined := Script.Clears.line whole closes after
        simpa using joined

/-! ## Sites -/

/-- A pragma with the place where it stands: the lines above it and its own line. -/
structure Site where
  above : List (List Char)
  line : List Char
  entry : String × String
  deriving DecidableEq

/-- The sites of pragmas in lines that stand below others. -/
def sitesOfLines (above : List (List Char)) : List (List Char) → List Site
  | [] => []
  | line :: rest =>
    match TopLine.ofLine line with
    | .blank => sitesOfLines (above ++ [line]) rest
    | .comment text =>
      ((pragmaOf? text).map fun entry => ⟨above, line, entry⟩).toList ++
        sitesOfLines (above ++ [line]) rest
    | .code => []

/-- The sites of the pragmas of a script. -/
def sites (source : String) : List Site :=
  sitesOfLines [] (lines source.toList)

namespace Site

/-- What stands before the text of a site. -/
def before (site : Site) : List Char :=
  site.above.flatMap (· ++ ['\n']) ++ site.line.takeWhile isBlank

/-- The text of a site: its line, trimmed. -/
def text (site : Site) : List Char :=
  trim site.line

/-- The bytes of the text of a site. -/
def span (site : Site) : Span :=
  ⟨(Utf8.encodeChars site.before).length, (Utf8.encodeChars (site.before ++ site.text)).length⟩

end Site

/-- The pragmas are read at the sites. -/
theorem map_entry_sitesOfLines (above below : List (List Char)) :
    (sitesOfLines above below).map Site.entry = pragmasOfLines below := by
  induction below generalizing above with
  | nil => rfl
  | cons line rest ih =>
      rw [sitesOfLines, pragmasOfLines]
      cases TopLine.ofLine line with
      | blank => exact ih _
      | comment text =>
          dsimp only
          rw [List.map_append, ih]
          cases pragmaOf? text with
          | none => rfl
          | some entry => rfl
      | code => rfl

/-- A site among lines: those above it are blank or comments, and its text is a comment that makes
its entry. -/
structure Site.Stands (all : List (List Char)) (site : Site) : Prop where
  passes : ∀ line ∈ site.above, TopLine.Passes line
  listed : ∃ after, all = site.above ++ site.line :: after
  comment : ∃ comment, site.text = '/' :: '/' :: comment ∧
    pragmaOf? (trim comment) = some site.entry

/-- A comment line is two slashes and its text, among blanks. -/
theorem TopLine.ofLine_eq_comment {line text : List Char} (found : ofLine line = .comment text) :
    ∃ comment, trim line = '/' :: '/' :: comment ∧ trim comment = text := by
  unfold ofLine at found
  split at found
  next => cases found
  next comment starts =>
    cases found
    exact ⟨comment, starts, rfl⟩
  next => cases found

/-- The sites of a text stand where they say. -/
theorem stands_of_mem {above below : List (List Char)} {site : Site}
    (member : site ∈ sitesOfLines above below) (passes : ∀ line ∈ above, TopLine.Passes line) :
    site.Stands (above ++ below) := by
  induction below generalizing above with
  | nil => cases member
  | cons line rest ih =>
      have further : TopLine.ofLine line ≠ .code → site ∈ sitesOfLines (above ++ [line]) rest →
          site.Stands (above ++ line :: rest) := by
        intro goesOn member
        have here := List.forall_mem_singleton.mpr (TopLine.passes_iff.mpr goesOn)
        have stands := ih member (List.forall_mem_append.mpr ⟨passes, here⟩)
        rwa [List.append_assoc] at stands
      rw [sitesOfLines] at member
      cases kind : TopLine.ofLine line with
      | blank =>
          rw [kind] at member further
          exact further TopLine.noConfusion member
      | code =>
          rw [kind] at member
          cases member
      | comment text =>
          rw [kind] at member further
          obtain made | member := List.mem_append.mp member
          · obtain ⟨entry, found, rfl⟩ := Option.map_eq_some_iff.mp (Option.mem_toList.mp made)
            obtain ⟨comment, starts, rfl⟩ := TopLine.ofLine_eq_comment kind
            exact ⟨passes, ⟨rest, rfl⟩, comment, starts, found⟩
          · exact further TopLine.noConfusion member

/-- A line in its text, after the lines above it. -/
theorem lines_eq_append {text line : List Char} {above after : List (List Char)}
    (listed : lines text = above ++ line :: after) :
    ∃ rest, text = above.flatMap (· ++ ['\n']) ++ line ++ rest := by
  induction text generalizing above line after with
  | nil =>
      rw [lines] at listed
      cases above with
      | nil =>
          cases listed
          exact ⟨[], rfl⟩
      | cons first others => simp at listed
  | cons c rest ih =>
      rw [lines] at listed
      split at listed
      next feed =>
        cases above with
        | nil =>
            cases listed
            exact ⟨c :: rest, rfl⟩
        | cons first others =>
            obtain ⟨rfl, below⟩ := List.cons.inj listed
            obtain ⟨more, split⟩ := ih below
            exact ⟨more, by rw [split, feed]; rfl⟩
      next =>
        cases below : lines rest with
        | nil => exact absurd below (lines_ne_nil rest)
        | cons head others =>
            rw [below] at listed
            cases above with
            | nil =>
                cases listed
                have whole : lines rest = [] ++ head :: after := below
                obtain ⟨more, split⟩ := ih whole
                exact ⟨more, by rw [split]; rfl⟩
            | cons first firsts =>
                obtain ⟨rfl, same⟩ := List.cons.inj listed
                have whole : lines rest = (head :: firsts) ++ line :: after := by
                  rw [below, same]
                  rfl
                obtain ⟨more, split⟩ := ih whole
                exact ⟨more, by rw [split]; rfl⟩

namespace Site

variable {site : Site}

/-- What stands above a site reads as comments and blanks, line by line. -/
theorem clears_before (passes : ∀ line ∈ site.above, TopLine.Passes line)
    (unbroken : ∀ line ∈ site.above, Unbroken line) : Script.Clears site.before := by
  refine .append ?_ (.of_blank fun c => List.mem_takeWhile_imp)
  generalize site.above = above at passes unbroken
  induction above with
  | nil => exact .inl .nil
  | cons line rest ih =>
      obtain ⟨here, passes⟩ := List.forall_mem_cons.mp passes
      obtain ⟨whole, unbroken⟩ := List.forall_mem_cons.mp unbroken
      exact (clears_line here whole).append (ih passes unbroken)

/-- A site in the text of a script. -/
theorem Stands.text_eq {source : List Char} (stands : site.Stands (lines source)) :
    ∃ rest, source = site.before ++ site.text ++ rest := by
  obtain ⟨after, listed⟩ := stands.listed
  obtain ⟨rest, whole⟩ := lines_eq_append listed
  obtain ⟨trail, split, -⟩ := trim_split site.line
  refine ⟨trail ++ rest, ?_⟩
  rw [whole]
  unfold before text
  nth_rewrite 1 [split]
  simp

/-- The bytes of a site read as its text. -/
theorem Stands.extract_span {source : String} {bytes : Bytes}
    (stands : site.Stands (lines source.toList)) (same : bytes = Utf8.encode source) :
    bytes.extract site.span = .ok (String.ofList site.text) := by
  obtain ⟨rest, split⟩ := stands.text_eq
  apply Bytes.decode_eq_ok_iff.mpr
  unfold span
  rw [Utf8.encode_ofList, same, Utf8.encode, split, Bytes.cut_of_nonneg _ (by omega) (by omega),
    Int.toNat_natCast, Int.toNat_natCast, Utf8.encodeChars_append _ rest, Utf8.encodeChars_append,
    List.length_append, Nat.add_sub_cancel_left, List.append_assoc, List.drop_left, List.take_left]

end Site

/-! ## Widths -/

/-- As many characters as a text has reach to its end, and fewer do not. -/
theorem Utf8.length_encodeChars_le_iff {text rest : List Char} {count : Nat} :
    (encodeChars text).length ≤ (encodeChars ((text ++ rest).take count)).length ↔
      text.length ≤ count := by
  constructor
  · intro reaches
    by_contra short
    have fewer : (text ++ rest).take count = text.take count :=
      List.take_append_of_le_length (by omega)
    have left : text.drop count ≠ [] := by
      rw [Ne, List.drop_eq_nil_iff]
      exact short
    have width := congrArg List.length (encodeChars_append (text.take count) (text.drop count))
    rw [List.take_append_drop, List.length_append] at width
    have positive := length_encodeChars_pos left
    rw [fewer] at reaches
    omega
  · intro long
    rw [List.take_append, List.take_of_length_le long, encodeChars_append, List.length_append]
    omega

/-- A row of items is taken whole exactly if all of them pass. -/
theorem length_le_takeWhile_iff {α : Type} {test : α → Bool} {items rest : List α} :
    items.length ≤ ((items ++ rest).takeWhile test).length ↔ ∀ item ∈ items, test item := by
  constructor
  · intro long item member
    have starts : items <+: (items ++ rest).takeWhile test :=
      List.prefix_of_prefix_length_le (List.prefix_append _ _) (List.takeWhile_prefix _) long
    exact List.mem_takeWhile_imp (starts.subset member)
  · intro each
    rw [List.takeWhile_append_of_pos each, List.length_append]
    omega

/-! ## Scripts -/

/-- The children of a script start with the comments at its start. After these it ends, or goes on
with a node that is no comment and with a visible character. -/
theorem Document.starts {source : String} {document : Document}
    (parsed : Document.parse source = .ok document) :
    (∃ others, document.root.children =
        (Script.Cursor.start source.toList).gap.comments ++ others ∧
      ∀ first ∈ others.head?, first.kind.isTrivia = false) ∧
    ((Script.Cursor.start source.toList).gap.next.rest = [] ∨
      Script.Visible (Script.Cursor.start source.toList).gap.next.rest) := by
  obtain ⟨-, tree⟩ := Document.parse_eq_ok parsed
  obtain ⟨⟨children, last⟩, ran, made⟩ := Outcome.bind_eq_ok_iff.mp tree
  injection made with made
  rw [← made]
  obtain ⟨rfl, empty⟩ | opens := Script.program_leads ran
  · exact ⟨⟨[], (List.append_nil _).symm, nofun⟩, .inl empty⟩
  · obtain ⟨first, rest, rfl, solid, -⟩ := opens.leads
    refine ⟨⟨first :: rest, rfl, ?_⟩, .inr opens.visible⟩
    rintro node ⟨⟩
    exact solid

/-- Where only comments come before a comment among the children of a node, it comes before all
children that are no comments. -/
theorem Node.Sound.precedes {root comment child : Node} {bytes : Bytes} {front later : List Node}
    (sound : root.Sound bytes) (children : root.children = front ++ comment :: later)
    (plain : ∀ node ∈ front, node.kind = .comment) (kind : comment.kind = .comment)
    (member : child ∈ root.children) (other : child.kind ≠ .comment) :
    comment.span.stop ≤ child.span.start := by
  have row := sound.row
  rw [children, Node.InRow, List.map_append, List.map_cons, Span.row_append_cons] at row
  obtain ⟨-, -, rowLater⟩ := row
  rw [children] at member
  obtain member | member := List.mem_append.mp member
  · exact absurd (plain child member) other
  · obtain rfl | member := List.mem_cons.mp member
    · exact absurd kind other
    · exact (rowLater.inside (List.mem_map_of_mem member)).1

/-- A comment that comes before all children that are no comments is a child itself: what lies
below another child does not come before it. -/
theorem Node.Sound.mem_children_of_precedes {source : Bytes} {root node : Node}
    (sound : root.Sound source) (held : root.Holds node) (kind : node.kind = .comment)
    (different : root.kind ≠ .comment)
    (precedes : ∀ child ∈ root.children, child.kind ≠ .comment →
      node.span.stop ≤ child.span.start) :
    node ∈ root.children := by
  have wide := (sound.ofHolds held).wide_of_trivia (by rw [kind]; rfl)
  cases held with
  | self => exact absurd kind different
  | @through _ child _ member held =>
      by_cases other : child.kind = .comment
      · have childless := ((sound.ofChild member).shaped.trivia (by rw [other]; rfl)).1
        cases held with
        | self => exact member
        | through among _ =>
            rw [childless] at among
            cases among
      · have first := precedes child member other
        have inside := (sound.ofChild member).holds_inside held
        omega

/-- A comment that comes before all children of a script that are no comments is one of the
comments at its start, and those before it are plain. -/
theorem Document.exists_leading {source : String} {document : Document} {node : Node}
    (parsed : Document.parse source = .ok document) (held : document.root.Holds node)
    (kind : node.kind = .comment)
    (precedes : ∀ child ∈ document.root.children, child.kind ≠ .comment →
      node.span.stop ≤ child.span.start) :
    ∃ front later, (Script.Cursor.start source.toList).gap.comments = front ++ node :: later ∧
      ∀ other ∈ front, other.kind = .comment := by
  have sound := Document.sound_of_parse parsed
  have wide := (sound.ofHolds held).wide_of_trivia (by rw [kind]; rfl)
  obtain ⟨⟨others, children, solid⟩, -⟩ := Document.starts parsed
  have row := sound.row
  have member := sound.mem_children_of_precedes held kind
    (by rw [Document.kind_root parsed]; decide) precedes
  rw [children] at member
  rw [children, Node.InRow, List.map_append] at row
  obtain among | among := List.mem_append.mp member
  · obtain ⟨front, later, split⟩ := List.append_of_mem among
    refine ⟨front, later, split, fun other before => ?_⟩
    by_contra different
    have first := precedes other (by rw [children, split]; simp [before]) different
    rw [split, List.map_append, List.map_cons, List.append_assoc, List.cons_append,
      Span.row_append_cons] at row
    have bound := row.1.inside (List.mem_map_of_mem before)
    omega
  · cases others with
    | nil => cases among
    | cons first rest =>
        have solid := solid first rfl
        have other : first.kind ≠ .comment := by
          intro same
          rw [same] at solid
          cases solid
        have before := precedes first (by rw [children]; simp) other
        obtain rfl | among := List.mem_cons.mp among
        · exact absurd kind other
        · rw [List.map_cons, Span.row_append_cons] at row
          have bound := row.2.2.inside (List.mem_map_of_mem among)
          omega

/-- Bytes of a text lie in one comment that has only blanks and comments before it. -/
def Script.Commented (text : List Char) (span : Span) : Prop :=
  ∃ front comment rest, text = front ++ comment ++ rest ∧ Inert front ∧ IsComment comment rest ∧
    (Utf8.encodeChars front).length ≤ span.start ∧
    span.stop ≤ (Utf8.encodeChars (front ++ comment)).length

/-- Bytes of a script lie in a comment that comes before all children that are no comments exactly
if a reader of the text finds them in a comment before anything but blanks and comments. -/
theorem Document.leading_comment_iff {source : String} {document : Document} {span : Span}
    (parsed : Document.parse source = .ok document) :
    (∃ node, document.root.Holds node ∧ node.kind = .comment ∧
      node.span.start ≤ span.start ∧ span.stop ≤ node.span.stop ∧
      ∀ child ∈ document.root.children, child.kind ≠ .comment →
        node.span.stop ≤ child.span.start) ↔ Script.Commented source.toList span := by
  have places : ∀ {front comment rest : List Char}, source.toList = front ++ comment ++ rest →
      ((Script.Cursor.start source.toList).advance front.length).offset =
          (Utf8.encodeChars front).length ∧
        ((Script.Cursor.start source.toList).advance (front ++ comment).length).offset =
          (Utf8.encodeChars (front ++ comment)).length := by
    intro front comment rest parts
    constructor
    · rw [Script.Cursor.offset_advance]
      simp [Script.Cursor.start, parts]
    · rw [Script.Cursor.offset_advance]
      simp [Script.Cursor.start, parts, -List.append_assoc]
  constructor
  · rintro ⟨node, held, kind, below, above, precedes⟩
    obtain ⟨before, later, comments, plain⟩ := Document.exists_leading parsed held kind precedes
    obtain ⟨front, comment, rest, parts, inert, whole, rfl⟩ :=
      Script.exists_of_gapFrom comments plain kind
    obtain ⟨starts, stops⟩ := places parts
    refine ⟨front, comment, rest, parts, inert, whole, ?_, ?_⟩
    · rw [← starts]
      exact below
    · rw [← stops]
      exact above
  · rintro ⟨front, comment, rest, parts, inert, whole, below, above⟩
    obtain ⟨before, later, comments, plain⟩ := Script.exists_comment_at_start parts inert whole
    obtain ⟨⟨others, children, -⟩, -⟩ := Document.starts parsed
    obtain ⟨starts, stops⟩ := places parts
    rw [comments, List.append_assoc, List.cons_append] at children
    rw [List.length_append, ← Script.Cursor.advance_advance] at stops
    refine ⟨_, .through (children ▸ List.mem_append_right _ List.mem_cons_self) (.self _), rfl, ?_,
      ?_, fun child member other => ?_⟩
    · rw [← starts] at below
      exact below
    · rw [← stops] at above
      exact above
    · exact (Document.sound_of_parse parsed).precedes children plain rfl member other

/-- The comment of a script that starts where the text of a site does. -/
structure Site.Comment (site : Site) (root comment : Node) : Prop where
  kind : comment.kind = .comment
  start : comment.span.start = site.span.start
  wide : comment.span.start < comment.span.stop
  covers : site.span.stop ≤ comment.span.stop ↔ Unbroken site.line
  leads : ∃ front later, root.children = front ++ comment :: later ∧
    ∀ node ∈ front, node.kind = .comment

/-- Each site is a comment of the parsed script. -/
theorem Site.Stands.exists_comment {source : String} {document : Document} {site : Site}
    (stands : site.Stands (lines source.toList))
    (parsed : Document.parse source = .ok document)
    (unbroken : ∀ line ∈ site.above, Unbroken line) :
    ∃ comment, site.Comment document.root comment := by
  obtain ⟨⟨others, children, -⟩, ends⟩ := Document.starts parsed
  obtain ⟨rest, split⟩ := stands.text_eq
  obtain ⟨body, starts, -⟩ := stands.comment
  have parts : source.toList = site.before ++ '/' :: '/' :: (body ++ rest) := by
    rw [split, starts]
    simp
  obtain ⟨written, after, divided, length, whole⟩ := Script.commentLength?_eq_some_iff.mp
    (rfl : Script.commentLength? ('/' :: '/' :: (body ++ rest)) = _)
  obtain ⟨front, later, comments, plain⟩ :=
    (site.clears_before stands.passes unbroken).exists_comment
      (by rw [parts, divided, List.append_assoc]) whole ends
  rw [length] at comments
  generalize hereEq :
    (Script.Cursor.start source.toList).advance site.before.length = here at comments
  have offset : here.offset = (Utf8.encodeChars site.before).length := by
    rw [← hereEq, Script.Cursor.offset_advance]
    simp [Script.Cursor.start, parts]
  have ahead : here.rest = site.text ++ rest := by
    rw [← hereEq, Script.Cursor.rest_advance]
    simp [Script.Cursor.start, split]
  generalize countEq :
    2 + ((body ++ rest).takeWhile (!Script.endsLineComment ·)).length = count at comments
  have stop := here.offset_advance count
  rw [ahead, offset] at stop
  refine ⟨here.leaf (here.advance count) .comment true, rfl, ?_, ?_, ?_,
    front, later ++ others, ?_, plain⟩
  · exact congrArg Int.ofNat offset
  · have filled : (site.text ++ rest).take count ≠ [] := by
      rw [starts, ← countEq, Nat.add_comm]
      exact List.cons_ne_nil _ _
    have positive := Utf8.length_encodeChars_pos filled
    exact Int.ofNat_lt.mpr (by omega)
  · have width :
        (Utf8.encodeChars (site.before ++ site.text)).length ≤ (here.advance count).offset ↔
          site.text.length ≤ count := by
      rw [stop, Utf8.encodeChars_append, List.length_append, Nat.add_le_add_iff_left]
      exact Utf8.length_encodeChars_le_iff
    have whole : site.text.length ≤ count ↔ Unbroken site.line := by
      have each : body.length ≤ ((body ++ rest).takeWhile (!Script.endsLineComment ·)).length ↔ _ :=
        length_le_takeWhile_iff
      have slash : Script.endsLineComment '/' = false := by decide
      have line : Unbroken site.line ↔ ∀ c ∈ site.text, Script.endsLineComment c = false := Iff.rfl
      rw [line, starts, ← countEq, List.length_cons, List.length_cons]
      simp only [List.forall_mem_cons, slash, true_and]
      simp only [Bool.not_eq_true'] at each
      rw [← each]
      omega
    exact Int.ofNat_le.trans (width.trans whole)
  · rw [children, comments, List.append_assoc]
    rfl

namespace Site.Comment

variable {site : Site} {root comment node : Node} {bytes : Bytes}

/-- Only the comment of a site can reach over the text of the site. -/
theorem stop_le_of_holds (stays : site.Comment root comment) (sound : root.Sound bytes)
    (held : root.Holds node) (kind : node.kind = .comment)
    (below : node.span.start ≤ site.span.start) (above : site.span.stop ≤ node.span.stop) :
    site.span.stop ≤ comment.span.stop := by
  obtain ⟨front, later, children, -⟩ := stays.leads
  have row := sound.row
  rw [children, Node.InRow, List.map_append, List.map_cons, Span.row_append_cons] at row
  obtain ⟨rowFront, -, rowLater⟩ := row
  have wide := stays.wide
  have start := stays.start
  cases held with
  | self =>
      have childless := (sound.shaped.trivia (by rw [kind]; rfl)).1
      rw [children] at childless
      simp at childless
  | @through child _ _ member held =>
      have inside := (sound.ofChild member).holds_inside held
      rw [children] at member
      obtain member | member := List.mem_append.mp member
      · have bound := rowFront.inside (List.mem_map_of_mem member)
        omega
      · obtain rfl | member := List.mem_cons.mp member
        · omega
        · have bound := rowLater.inside (List.mem_map_of_mem member)
          omega

/-- The comment of a site is held by the root. -/
theorem holds (stays : site.Comment root comment) : root.Holds comment := by
  obtain ⟨front, later, children, -⟩ := stays.leads
  refine .through ?_ (.self comment)
  rw [children]
  exact List.mem_append_right _ List.mem_cons_self

/-- All children that are no comments come after the comment of a site. -/
theorem precedes (stays : site.Comment root comment) (sound : root.Sound bytes) {child : Node}
    (member : child ∈ root.children) (other : child.kind ≠ .comment) :
    comment.span.stop ≤ child.span.start := by
  obtain ⟨front, later, children, plain⟩ := stays.leads
  exact sound.precedes children plain stays.kind member other

end Site.Comment

/-- **Pragmas and leading comments.** The pragmas of a script that parses are read at its sites:
the text of a site is a line comment, trimmed, and makes its entry. That text stands in one comment
of the script that comes before all children of the script that are no comments exactly if one
comment of the text covers it and has only blanks and comments before it. Where no line above a
site is broken, this is so exactly if the line of the site is not broken either. -/
theorem pragma_in_comment_iff {source : String} {document : Document}
    (parsed : Document.parse source = .ok document) :
    (sites source).map Site.entry = pragmas source ∧
    ∀ site ∈ sites source,
      let leading := ∃ node, document.root.Holds node ∧ node.kind = .comment ∧
        node.span.start ≤ site.span.start ∧ site.span.stop ≤ node.span.stop ∧
        ∀ child ∈ document.root.children, child.kind ≠ .comment →
          node.span.stop ≤ child.span.start
      (∃ comment, document.source.extract site.span = .ok (String.ofList ('/' :: '/' :: comment)) ∧
        pragmaOf? (trim comment) = some site.entry) ∧
      ((∀ line ∈ site.above, Unbroken line) → (leading ↔ Unbroken site.line)) ∧
      (leading ↔ Script.Commented source.toList site.span) := by
  refine ⟨map_entry_sitesOfLines _ _, fun site member => ?_⟩
  have stands : site.Stands (lines source.toList) :=
    stands_of_mem member fun _ member => (List.not_mem_nil member).elim
  have sound := Document.sound_of_parse parsed
  refine ⟨?_, fun unbroken => ?_, Document.leading_comment_iff parsed⟩
  · obtain ⟨comment, starts, made⟩ := stands.comment
    refine ⟨comment, ?_, made⟩
    rw [← starts]
    exact stands.extract_span (Document.parse_eq_ok parsed).1
  · obtain ⟨comment, stays⟩ := stands.exists_comment parsed unbroken
    constructor
    · rintro ⟨node, held, kind, below, above, -⟩
      exact stays.covers.mp (stays.stop_le_of_holds sound held kind below above)
    · intro whole
      exact ⟨comment, stays.holds, stays.kind, Int.le_of_eq stays.start, stays.covers.mpr whole,
        fun _ => stays.precedes sound⟩

/-- A pragma below a blank line and another comment, in a line that ends with a carriage return. -/
theorem pragma_in_comment_iff_return :
    ∃ document site node,
      Document.parse "\n// a\n // pragma main dsp \r\nfunction dsp(a) \x7b\x7d" = .ok document ∧
      sites "\n// a\n // pragma main dsp \r\nfunction dsp(a) \x7b\x7d" = [site] ∧
      site.entry = ("main", "dsp") ∧ site.span = ⟨7, 25⟩ ∧ document.root.Holds node ∧
      node.kind = .comment ∧ node.span.start ≤ 7 ∧ 25 ≤ node.span.stop := by
  obtain ⟨document, parsed, -⟩ := Outcome.exists_ok_of_any (show
    ((Document.parse "\n// a\n // pragma main dsp \r\nfunction dsp(a) \x7b\x7d").toOption.any
      fun _ => true) = true by decide +kernel)
  have found : sites "\n// a\n // pragma main dsp \r\nfunction dsp(a) \x7b\x7d" =
      [⟨[[], "// a".toList], " // pragma main dsp \r".toList, ("main", "dsp")⟩] := by
    decide +kernel
  obtain ⟨-, placed⟩ := pragma_in_comment_iff parsed
  rw [found] at placed
  obtain ⟨-, inside, -⟩ := placed _ List.mem_cons_self
  obtain ⟨node, held, kind, below, above, -⟩ := (inside (by decide +kernel)).mpr (by decide +kernel)
  exact ⟨document, _, node, parsed, found, rfl, by decide +kernel, held, kind, below, above⟩

/-- Below a broken line, a block comment can go on over a pragma, and code can stand above one. -/
example :
    (sites "// a\r/*\n// pragma main b\n*/").map Site.span = [⟨8, 24⟩] ∧
    ((Document.parse "// a\r/*\n// pragma main b\n*/").toOption.map fun document =>
      document.root.children.map fun child => (child.kind, child.span)) =
        some [(.comment, ⟨0, 4⟩), (.comment, ⟨5, 27⟩)] ∧
    (sites "// a\rb\n// pragma main b").map Site.span = [⟨7, 23⟩] ∧
    ((Document.parse "// a\rb\n// pragma main b").toOption.map fun document =>
      document.root.children.map fun child => (child.kind, child.span)) =
        some [(.comment, ⟨0, 4⟩), (.expressionStatement, ⟨5, 6⟩), (.comment, ⟨7, 23⟩)] := by
  decide +kernel

/-- A word of a pragma that the script has as a statement. -/
theorem pragma_broken_line :
    pragmas "// pragma main\rdsp" = [("main", "dsp")] ∧
    ∃ document, Document.parse "// pragma main\rdsp" = .ok document ∧
      document.root.children.map (fun child => (child.kind, child.span)) =
        [(.comment, ⟨0, 14⟩), (.expressionStatement, ⟨15, 18⟩)] ∧
      document.source.extract ⟨15, 18⟩ = .ok "dsp" := by
  obtain ⟨document, parsed, found⟩ := Outcome.exists_ok_of_any (show
    ((Document.parse "// pragma main\rdsp").toOption.any fun document =>
      decide (document.root.children.map (fun child => (child.kind, child.span)) =
        [(.comment, ⟨0, 14⟩), (.expressionStatement, ⟨15, 18⟩)]) &&
      decide (document.source.extract ⟨15, 18⟩ = .ok "dsp")) = true by decide +kernel)
  obtain ⟨children, statement⟩ := Bool.and_eq_true_iff.mp found
  exact ⟨by decide +kernel, document, parsed, of_decide_eq_true children,
    of_decide_eq_true statement⟩

end Codebox
