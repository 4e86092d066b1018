import Codebox.Proofs.EditLists

/-! # Windows and the whole text

Edits of a window can be made in the window or in the whole text. Both ways take the same
lists of edits, as long as these keep to the window, and the whole text is the window with
what lies before it and after it. An insertion at either end of the window belongs to it.
-/

namespace Codebox

namespace Bytes

variable {bytes : Bytes} {edits : List Edit} {window : Span}

/-- Edits of a window leave what lies around it. -/
theorem woven_around {low high : Int} (least : 0 ≤ low) (most : high ≤ bytes.length)
    (ordered : Edit.Ordered low high edits) :
    bytes.woven bytes.length 0 edits =
      bytes.cut ⟨0, low⟩ ++ (bytes.woven high low edits ++ bytes.cut ⟨high, bytes.length⟩) := by
  have rest : Edit.Ordered high bytes.length [] := most
  have parted : bytes.woven bytes.length low (edits ++ []) =
      bytes.woven high low edits ++ bytes.woven bytes.length high [] :=
    woven_append least ordered rest
  rw [List.append_nil] at parted
  rw [← cut_append_woven (Int.le_refl 0) least (ordered.extend most), parted]
  rfl

/-- Edits in order inside a window make the text that is woven of them, last one first. -/
theorem spliceOver_some (least : 0 ≤ window.start) (order : window.start ≤ window.stop)
    (most : window.stop ≤ bytes.length) (within : Edit.Within window.start window.stop edits)
    (apart : edits.Pairwise Edit.InOrder) :
    bytes.spliceOver edits (some window) =
      (bytes.woven window.stop window.start (Edit.sort edits).reverse).decode := by
  change bytes.spliceIn edits window = _
  rw [spliceIn, editedIn_eq_woven_sort least order most within apart, Outcome.bind_ok]

/-- A list that can be made in a window can be made in the whole text. -/
theorem spliceOver_none (least : 0 ≤ window.start) (order : window.start ≤ window.stop)
    (most : window.stop ≤ bytes.length) (within : Edit.Within window.start window.stop edits)
    (apart : edits.Pairwise Edit.InOrder) :
    bytes.spliceOver edits none = (bytes.cut ⟨0, window.start⟩ ++
      (bytes.woven window.stop window.start (Edit.sort edits).reverse ++
        bytes.cut ⟨window.stop, bytes.length⟩)).decode := by
  have wider : Edit.Within 0 bytes.length edits := by
    intro edit member
    have inside := within edit member
    omega
  have whole : (0 : Int) ≤ bytes.length := by omega
  rw [spliceOver_eq_spliceIn]
  change bytes.spliceIn edits ⟨0, bytes.length⟩ = _
  rw [spliceIn, editedIn_eq_woven_sort (Int.le_refl 0) whole (Int.le_refl _) wider apart,
    Outcome.bind_ok, woven_around least most (Edit.ordered_sort order within apart)]

/-- A list that gives a text keeps to the window and is in order. -/
theorem inOrder_of_spliceOver {window : Option Span} {text : String}
    (ended : bytes.spliceOver edits window = .ok text) :
    Edit.Within (bytes.extent window).start (bytes.extent window).stop edits ∧
      edits.Pairwise Edit.InOrder := by
  rw [spliceOver_eq_spliceIn] at ended
  obtain ⟨made, edited, -⟩ := Outcome.bind_eq_ok_iff.mp ended
  exact exists_editedIn_iff.mp ⟨made, edited⟩

/-- What stands between two texts can be read exactly if all of it can. -/
theorem exists_encode_between_iff (before after : String) :
    (∃ whole, Utf8.encode whole = Utf8.encode before ++ (bytes ++ Utf8.encode after)) ↔
      ∃ text, Utf8.encode text = bytes := by
  rw [exists_encode_iff, exists_encode_iff]
  unfold Utf8.encode
  rw [Utf8.exists_encodeChars_append_iff]
  exact Utf8.exists_append_encodeChars_iff bytes after.toList

/-- **A window agrees with the whole text.** If a list of edits gives a text in a window
that starts and ends at boundaries between characters, it gives in the whole text what lies
before the window, that text, and what lies after the window. A list that gives a text in the
whole text can be made in every such window that holds its edits, and gives a text there. -/
theorem splice_agrees_with_window (bytes : Bytes) (edits : List Edit) (window : Span)
    (starts : bytes.Boundary window.start) (stops : bytes.Boundary window.stop)
    (order : window.start ≤ window.stop) :
    ∃ before after, bytes.extract ⟨0, window.start⟩ = .ok before ∧
      bytes.extract ⟨window.stop, bytes.length⟩ = .ok after ∧
      (∀ text, bytes.spliceOver edits (some window) = .ok text →
        bytes.spliceOver edits none = .ok (before ++ text ++ after)) ∧
      ∀ whole, bytes.spliceOver edits none = .ok whole →
        (∀ edit ∈ edits, window.start ≤ edit.span.start ∧ edit.span.stop ≤ window.stop) →
        bytes.Accepts edits (some window) ∧
          ∃ text, bytes.spliceOver edits (some window) = .ok text ∧
            whole = before ++ text ++ after := by
  have least := starts.nonneg
  have most := stops.le_length
  obtain ⟨before, readBefore⟩ := starts.ends.1.exists_text starts least
  obtain ⟨after, readAfter⟩ := stops.exists_text stops.ends.2 most
  refine ⟨before, after, decode_eq_ok_iff.mpr readBefore, decode_eq_ok_iff.mpr readAfter, ?_, ?_⟩
  · intro text ended
    obtain ⟨within, apart⟩ := inOrder_of_spliceOver ended
    rw [spliceOver_some least order most within apart, decode_eq_ok_iff] at ended
    rw [spliceOver_none least order most within apart, decode_eq_ok_iff, Utf8.encode_append,
      Utf8.encode_append, List.append_assoc, readBefore, ended, readAfter]
  · intro whole ended inside
    obtain ⟨wider, apart⟩ := inOrder_of_spliceOver ended
    have within : Edit.Within window.start window.stop edits := by
      intro edit member
      exact ⟨(inside edit member).1, (wider edit member).2.1, (inside edit member).2⟩
    rw [spliceOver_none least order most within apart, ← readBefore, ← readAfter,
      decode_eq_ok_iff] at ended
    -- The text around the window is whole characters, so the window is, too.
    obtain ⟨text, written⟩ := (exists_encode_between_iff before after).mp ⟨whole, ended⟩
    refine ⟨?_, text, ?_, Utf8.encode_injective ?_⟩
    · rw [accepts_iff_exists_editedIn, exists_editedIn_iff]
      exact ⟨within, apart⟩
    · rw [spliceOver_some least order most within apart]
      exact decode_eq_ok_iff.mpr written
    · rw [ended, Utf8.encode_append, Utf8.encode_append, List.append_assoc, written]

/-- Insertions at both ends of a window that starts and ends at characters of two bytes, and an
edit that covers the whole window. -/
theorem splice_agrees_with_window_edges :
    let bytes := Utf8.encode "\u00e9ab\u03c0"
    let edits : List Edit := [⟨⟨4, 4⟩, "z"⟩, ⟨⟨2, 4⟩, "\u03c0"⟩, ⟨⟨2, 2⟩, "y"⟩]
    bytes.spliceOver edits (some ⟨2, 4⟩) = .ok "y\u03c0z" ∧
      bytes.spliceOver edits none = .ok "\u00e9y\u03c0z\u03c0" ∧
      bytes.Accepts edits (some ⟨2, 4⟩) := by
  intro bytes edits
  have made : bytes.spliceOver edits (some ⟨2, 4⟩) = .ok "y\u03c0z" := by decide +kernel
  obtain ⟨before, after, readBefore, readAfter, whole, window⟩ :=
    splice_agrees_with_window bytes edits ⟨2, 4⟩
      ⟨['\u00e9'], ['a', 'b', '\u03c0'], by decide, by decide⟩
      ⟨['\u00e9', 'a', 'b'], ['\u03c0'], by decide, by decide⟩ (by decide)
  have first : bytes.extract ⟨0, 2⟩ = .ok "\u00e9" := by decide +kernel
  have last : bytes.extract ⟨4, bytes.length⟩ = .ok "\u03c0" := by decide +kernel
  cases readBefore.symm.trans first
  cases readAfter.symm.trans last
  have spliced := whole _ made
  exact ⟨made, spliced, (window _ spliced (by decide)).1⟩

end Bytes

end Codebox
