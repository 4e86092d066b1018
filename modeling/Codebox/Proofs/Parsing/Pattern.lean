import Codebox.Script.Pattern
import Codebox.Proofs.Parsing.Meets

/-! # Patterns stay in their place

A node that is recast as a pattern keeps its place in the row. A rest pattern with a
default starts and ends where the spread did or inside it.
-/

namespace Codebox.Script

variable {text : List Char} {low high : Int} {place : Place} {node pattern : Node}
  {pieces result : Pieces}

/-- A calm well-laid node that lies within another one. -/
structure Recast (text : List Char) (node pattern : Node) : Prop where
  sound : pattern.Sound (Utf8.encodeChars text)
  calm : pattern.Calm
  starts : node.span.start ≤ pattern.span.start
  stops : pattern.span.stop ≤ node.span.stop

/-- A calm well-laid node is a pattern of itself. -/
theorem Recast.self (sound : node.Sound (Utf8.encodeChars text)) (calm : node.Calm) :
    Recast text node node :=
  ⟨sound, calm, Int.le_refl _, Int.le_refl _⟩

/-- The children of a calm node that opens no scope are calm pieces in a row. -/
theorem laid_children (sound : node.Sound (Utf8.encodeChars text)) (calm : node.Calm)
    (flat : node.kind.opensScope = false) :
    Laid text true node.span.start node.span.stop node.children where
  row := sound.row
  sound := fun _ member => sound.ofChild member
  calm := fun _ _ member => calm.ofChild (by simp [flat]) member

/-- Another kind for a node, and pieces in its place for its children. -/
theorem Recast.of_shaped {head : Head} {children : List Node} {kind : Kind}
    (sound : (Node.mk head children).Sound (Utf8.encodeChars text))
    (kept : kind.isRewritten = false)
    (shaped : (Node.mk { head with kind := kind } pieces).Shaped (Utf8.encodeChars text))
    (laid : Laid text true head.span.start head.span.stop pieces) :
    Recast text (.mk head children) (.mk { head with kind := kind } pieces) where
  sound := .mk sound.starts sound.stops sound.order sound.point laid.row shaped laid.sound
  calm := Node.calm_of_children kept fun _ => laid.calm rfl
  starts := Int.le_refl _
  stops := Int.le_refl _

/-- A kind that asks for no shape can be given to any node. -/
theorem Recast.of_isPlain {head : Head} {children : List Node} {kind : Kind}
    (sound : (Node.mk head children).Sound (Utf8.encodeChars text)) (plain : kind.isPlain)
    (laid : Laid text true head.span.start head.span.stop pieces) :
    Recast text (.mk head children) (.mk { head with kind := kind } pieces) :=
  .of_shaped sound (Kind.isRewritten_of_isPlain plain) (Node.shaped_of_isPlain plain) laid

/-- Patterns in the place of pieces lie in a row if each lies where its piece does. -/
theorem laid_patterns? (laid : Laid text true low high pieces)
    (each : ∀ node ∈ pieces, ∀ pattern, pattern? place node = some pattern →
      Recast text node pattern)
    (found : patterns? place pieces = some result) : Laid text true low high result := by
  induction pieces generalizing low result with
  | nil =>
      rw [patterns?] at found
      cases found
      exact laid
  | cons node rest ih =>
      obtain ⟨recastNode, recastRest⟩ := List.forall_mem_cons.mp each
      obtain ⟨starts, -, row⟩ := laid.row
      obtain ⟨soundNode, soundRest⟩ := List.forall_mem_cons.mp laid.sound
      obtain ⟨calmNode, calmRest⟩ := List.forall_mem_cons.mp (laid.calm rfl)
      -- Either way the first piece stays within its span, and the rest follows by induction.
      have joined : ∀ pattern others, Recast text node pattern →
          patterns? place rest = some others → Laid text true low high (pattern :: others) := by
        intro pattern others recast foundRest
        have tail := ih ⟨row, soundRest, fun _ => calmRest⟩ recastRest foundRest
        exact .cons (Int.le_trans starts recast.starts) recast.sound (fun _ => recast.calm)
          (tail.widen recast.stops)
      rw [patterns?] at found
      split at found
      · obtain ⟨others, foundRest, rfl⟩ := Option.map_eq_some_iff.mp found
        exact joined node others (.self soundNode calmNode) foundRest
      · split at found
        next pattern foundNode =>
          obtain ⟨others, foundRest, rfl⟩ := Option.map_eq_some_iff.mp found
          exact joined pattern others (recastNode pattern foundNode) foundRest
        next => cases found

/-- Pieces that end with a construct are comments and what starts with a construct. -/
theorem exists_solid (dots : Pieces) {left : Node} (solid : left.kind.isTrivia = false) :
    ∃ comments first rest, dots ++ [left] = comments ++ first :: rest ∧
      (∀ comment ∈ comments, comment.kind.isTrivia) ∧ first.kind.isTrivia = false := by
  induction dots with
  | nil => exact ⟨[], left, [], rfl, nofun, solid⟩
  | cons dot dots ih =>
      cases kind : dot.kind.isTrivia with
      | false => exact ⟨[], dot, dots ++ [left], rfl, nofun, kind⟩
      | true =>
          obtain ⟨comments, first, rest, parts, trivia, solidFirst⟩ := ih
          refine ⟨dot :: comments, first, rest, ?_, ?_, solidFirst⟩
          · rw [List.cons_append, parts, List.cons_append]
          · exact List.forall_mem_cons.mpr ⟨kind, trivia⟩

/-- The left side of an assignment goes into a rest pattern, and the rest of it becomes the
default. -/
theorem recast_restWithDefault? {dots : Pieces} {assignment : Node}
    (laid : Laid text true node.span.start node.span.stop (dots ++ [assignment]))
    (kind : assignment.kind = .assignmentExpression)
    (found : restWithDefault? dots assignment = some pattern) : Recast text node pattern := by
  obtain ⟨front, sound, calm, back⟩ := Laid.append_cons.mp laid
  have children := (laid_children sound (calm rfl) (by rw [kind]; rfl)).extend back.row.le
  obtain ⟨left, others, parts, -, solid, right, member, given⟩ :=
    sound.shaped.assignment (.inl kind)
  unfold restWithDefault? at found
  rw [parts] at found
  dsimp only at found
  split at found
  · cases found
  · have joined := front.append children
    rw [parts] at joined
    obtain ⟨before, soundLeft, calmLeft, after⟩ := Laid.append_cons.mp joined
    have first : Laid text true node.span.start left.span.stop (dots ++ [left]) :=
      Laid.append_cons.mpr ⟨before, soundLeft, calmLeft, .nil (Int.le_refl _)⟩
    have rest := ((first.wrap (show Kind.restPattern.isPlain from rfl)).inRole .left).append after
    obtain ⟨comments, dot, more, pieces, trivia, solidDot⟩ := exists_solid dots solid
    have shape : inRole .left (wrap .restPattern (dots ++ [left])) ++ others =
        comments ++ (built .restPattern dot more).inRole .left :: others := by
      rw [pieces, wrap_eq trivia solidDot, inRole_concat, List.append_assoc, List.singleton_append]
    rw [shape] at rest found
    rw [wrap_eq trivia rfl, List.getLast?_concat] at found
    have whole : Laid text true node.span.start node.span.stop (comments ++ [pattern]) := by
      rw [← Option.some.inj found]
      refine rest.laid_built trivia (shaped_assignment (.inr rfl) rfl rfl member given) fun _ => ?_
      refine Node.calm_of_children rfl fun _ child among => ?_
      exact rest.calm rfl child (List.mem_append_right _ among)
    have last : pattern ∈ comments ++ [pattern] := List.mem_append_right _ List.mem_cons_self
    obtain ⟨starts, -, stops⟩ := whole.row.inside (List.mem_map_of_mem last)
    exact ⟨whole.sound _ last, whole.calm rfl _ last, starts, stops⟩

/-- The children of a node as patterns, under another kind. -/
theorem recast_children {head : Head} {children : List Node} {kind : Kind}
    (sound : (Node.mk head children).Sound (Utf8.encodeChars text))
    (laid : Laid text true head.span.start head.span.stop children)
    (each : ∀ child ∈ children, child.Calm → ∀ recast, pattern? place child = some recast →
      Recast text child recast)
    (plain : kind.isPlain)
    (found : (patterns? place children).map (Node.mk { head with kind := kind }) = some pattern) :
    Recast text (.mk head children) pattern := by
  obtain ⟨pieces, foundPieces, rfl⟩ := Option.map_eq_some_iff.mp found
  refine .of_isPlain sound plain (laid_patterns? laid ?_ foundPieces)
  intro child member
  exact each child member (laid.calm rfl child member)

/-- By induction on the tree: the patterns among the children keep their row. -/
theorem recast_pattern? (sound : node.Sound (Utf8.encodeChars text)) (calm : node.Calm)
    (found : pattern? place node = some pattern) : Recast text node pattern := by
  induction sound generalizing place pattern with
  | @mk head children starts stops order point row shaped below ih =>
      have sound : (Node.mk head children).Sound (Utf8.encodeChars text) :=
        .mk starts stops order point row shaped below
      have whole : head.kind.opensScope = false →
          Laid text true head.span.start head.span.stop children :=
        laid_children sound calm
      have each : ∀ inside, ∀ child ∈ children, child.Calm → ∀ recast,
          pattern? inside child = some recast → Recast text child recast :=
        fun inside child member quiet recast => ih child member quiet
      rw [pattern?] at found
      split at found
      · cases found
        exact .self sound calm
      · split at found
        -- an array
        case h_7 kind =>
          split at found
          · cases found
          · exact recast_children sound (whole (by rw [kind]; rfl)) (each _) rfl found
        -- an object
        case h_8 kind =>
          split at found
          · cases found
          · exact recast_children sound (whole (by rw [kind]; rfl)) (each _) rfl found
        -- an assignment, which becomes a default
        case h_9 kind =>
          split at found
          · cases found
            refine .of_shaped sound rfl ?_ (whole (by rw [kind]; rfl))
            constructor
            case assignment => exact fun _ => shaped.assignment (.inl kind)
            all_goals exact nofun
          · cases found
        -- a spread, whose default comes out of it
        case h_10 kind =>
          have laid := whole (by rw [kind]; rfl)
          split at found
          · split at found
            next last foundLast =>
              split at found
              next assigns =>
                refine recast_restWithDefault? ?_ assigns found
                rw [List.dropLast_append_getLast? last foundLast]
                exact laid
              next => exact recast_children sound laid (each _) rfl found
            next => cases found
          · cases found
        -- a member with a value
        case h_11 kind =>
          split at found
          · exact recast_children sound (whole (by rw [kind]; rfl)) (each _) rfl found
          · cases found
        -- a member that is its own value
        case h_12 kind =>
          split at found
          · cases found
            exact .of_isPlain sound rfl (whole (by rw [kind]; rfl))
          · cases found
        case h_14 => cases found
        -- the others stay as they are
        all_goals
          split at found
          all_goals cases found
          all_goals exact .self sound calm

/-- Patterns in the place of pieces lie in a row. -/
theorem Laid.patterns? (laid : Laid text true low high pieces)
    (found : Script.patterns? place pieces = some result) : Laid text true low high result := by
  refine laid_patterns? laid ?_ found
  intro node member pattern foundNode
  exact recast_pattern? (laid.sound node member) (laid.calm rfl node member) foundNode

/-- A whole target keeps its head, apart from its kind. -/
theorem pattern?_target (found : pattern? .target node = some pattern) :
    pattern.head.role = node.head.role ∧ pattern.span = node.span ∧
      (node.kind.isTrivia = false → pattern.kind.isTrivia = false) := by
  obtain ⟨head, children⟩ := node
  have kept : ∀ (kind : Kind) (pieces : Option Pieces), kind.isTrivia = false →
      pieces.map (Node.mk { head with kind := kind }) = some pattern →
        pattern.head.role = head.role ∧ pattern.span = head.span ∧
          (head.kind.isTrivia = false → pattern.kind.isTrivia = false) := by
    intro kind pieces solid foundPieces
    obtain ⟨inner, -, rfl⟩ := Option.map_eq_some_iff.mp foundPieces
    exact ⟨rfl, rfl, fun _ => solid⟩
  rw [pattern?] at found
  split at found
  · cases found
    exact ⟨rfl, rfl, id⟩
  · split at found
    case h_7 => exact kept _ _ rfl found
    case h_8 => exact kept _ _ rfl found
    case h_9 => cases found
    case h_10 => cases found
    case h_11 => cases found
    case h_12 => cases found
    case h_13 => cases found
    case h_14 => cases found
    all_goals
      cases found
      exact ⟨rfl, rfl, id⟩

/-- The target of an assignment is one construct, like what it is read from. -/
theorem Term.target? (term : Term text true low high pieces)
    (found : Script.target? pieces = some result) : Term text true low high result := by
  unfold Script.target? at found
  split at found
  next node last =>
    split at found
    · cases found
      exact term
    · obtain ⟨pattern, foundPattern, rfl⟩ := Option.map_eq_some_iff.mp found
      obtain ⟨role, -, solid⟩ := pattern?_target foundPattern
      obtain ⟨comments, other, rfl, trivia, solidNode⟩ := term.single
      rw [List.getLast?_concat] at last
      cases last
      rw [List.dropLast_concat]
      obtain ⟨front, sound, calm, back⟩ := Laid.append_cons.mp term.toLaid
      obtain ⟨bareFront, bareNode⟩ := List.forall_mem_append.mp term.bare
      have recast := recast_pattern? sound (calm rfl) foundPattern
      refine ⟨Laid.append_cons.mpr ⟨front.extend recast.starts, recast.sound, fun _ => recast.calm,
        .nil (Int.le_trans recast.stops back.row.le)⟩, ?_, ?_⟩
      · refine List.forall_mem_append.mpr ⟨bareFront, List.forall_mem_singleton.mpr ?_⟩
        rw [role]
        exact bareNode node List.mem_cons_self
      · exact ⟨comments, pattern, rfl, trivia, solid solidNode⟩
  next => cases found

/-- Pieces that have to be an expression meet what they met without that condition. -/
theorem meets_valued {parser : Parser Pieces} {post : Int → Pieces → Prop}
    (met : Meets text low parser post) : Meets text low (valued parser) post := by
  refine .ahead fun gap stands => met.bind fun pieces high order held => ?_
  split
  · exact .refuse _
  · exact .pure held

end Codebox.Script
