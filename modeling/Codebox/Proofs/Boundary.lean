import Codebox.Proofs.Utf8

/-! # Cuts and boundaries

A cut between two offsets in order is a part of a byte text, and cuts that meet
join to one. An offset is a boundary if whole characters lie on either side of
it. What lies between two boundaries can be read.
-/

namespace Codebox

namespace Bytes

variable {bytes : Bytes} {first middle last : Int}

/-- Between offsets that are not negative, a part is cut as lists are. -/
theorem cut_of_nonneg (bytes : Bytes) (least : 0 ≤ first) (nonneg : 0 ≤ last) :
    bytes.cut ⟨first, last⟩ = (bytes.drop first.toNat).take (last.toNat - first.toNat) := by
  simp only [cut, position]
  rw [if_neg (by omega), if_neg (by omega)]

/-- Between offsets in order, a part is cut as lists are. -/
theorem cut_eq (bytes : Bytes) (least : 0 ≤ first) (order : first ≤ last) :
    bytes.cut ⟨first, last⟩ = (bytes.drop first.toNat).take (last.toNat - first.toNat) :=
  cut_of_nonneg bytes least (Int.le_trans least order)

/-- Nothing lies between an offset and itself. -/
theorem cut_self (bytes : Bytes) (least : 0 ≤ first) : bytes.cut ⟨first, first⟩ = [] := by
  rw [cut_eq bytes least (Int.le_refl _), Nat.sub_self, List.take_zero]

/-- From the start to the end lies everything. -/
theorem cut_whole (bytes : Bytes) : bytes.cut ⟨0, bytes.length⟩ = bytes := by
  rw [cut_eq bytes (Int.le_refl _) (by omega)]
  simp

/-- A part inside a text is as long as its span. -/
theorem length_cut (bytes : Bytes) (least : 0 ≤ first) (order : first ≤ last)
    (most : last ≤ bytes.length) : ((bytes.cut ⟨first, last⟩).length : Int) = last - first := by
  rw [cut_eq bytes least order, List.length_take, List.length_drop]
  omega

/-- Cuts that meet join to one. -/
theorem cut_append_cut (bytes : Bytes) (least : 0 ≤ first) (lower : first ≤ middle)
    (upper : middle ≤ last) :
    bytes.cut ⟨first, middle⟩ ++ bytes.cut ⟨middle, last⟩ = bytes.cut ⟨first, last⟩ := by
  rw [cut_eq bytes least lower, cut_eq bytes (by omega) upper, cut_eq bytes least (by omega),
    show last.toNat - first.toNat =
      (middle.toNat - first.toNat) + (last.toNat - middle.toNat) by omega,
    List.take_add, List.drop_drop,
    show first.toNat + (middle.toNat - first.toNat) = middle.toNat by omega]

/-- The front of a part is a shorter part. -/
theorem take_cut_append (least : 0 ≤ first) (lower : first ≤ middle) (upper : middle ≤ last)
    (most : last ≤ bytes.length) (after : Bytes) :
    (bytes.cut ⟨first, last⟩ ++ after).take (middle - first).toNat = bytes.cut ⟨first, middle⟩ := by
  have inside := length_cut bytes least lower (by omega)
  rw [← cut_append_cut bytes least lower upper, List.append_assoc,
    show (middle - first).toNat = (bytes.cut ⟨first, middle⟩).length by omega, List.take_left]

/-- What is left of a part after its front is the part from there on. -/
theorem drop_cut_append (least : 0 ≤ first) (lower : first ≤ middle) (upper : middle ≤ last)
    (most : last ≤ bytes.length) (after : Bytes) :
    (bytes.cut ⟨first, last⟩ ++ after).drop (middle - first).toNat =
      bytes.cut ⟨middle, last⟩ ++ after := by
  have inside := length_cut bytes least lower (by omega)
  rw [← cut_append_cut bytes least lower upper, List.append_assoc,
    show (middle - first).toNat = (bytes.cut ⟨first, middle⟩).length by omega, List.drop_left]

/-! ## Reading bytes -/

/-- Bytes can be read exactly as the text that they encode. -/
theorem decode_eq_ok_iff {text : String} : bytes.decode = .ok text ↔ Utf8.encode text = bytes := by
  rw [← Utf8.decode?_eq_some_iff]
  unfold decode
  cases Utf8.decode? bytes <;> simp

/-- Bytes that are no text are refused in one way. -/
theorem decode_eq_error_iff {fault : Fault} :
    bytes.decode = .error fault ↔ fault = .undecodable ∧ ∀ text, Utf8.encode text ≠ bytes := by
  simp only [ne_eq, ← Utf8.decode?_eq_some_iff]
  unfold decode
  cases Utf8.decode? bytes with
  | none => simp [eq_comm]
  | some text => simp

/-- Bytes encode a text exactly if they encode characters. -/
theorem exists_encode_iff : (∃ text, Utf8.encode text = bytes) ↔
    ∃ characters, bytes = Utf8.encodeChars characters := by
  constructor
  · rintro ⟨text, rfl⟩
    exact ⟨text.toList, rfl⟩
  · rintro ⟨characters, rfl⟩
    exact ⟨String.ofList characters, Utf8.encode_ofList characters⟩

/-! ## Boundaries -/

/-- An offset with whole characters on either side of it. -/
def Boundary (bytes : Bytes) (offset : Int) : Prop :=
  ∃ before after : List Char,
    bytes = Utf8.encodeChars before ++ Utf8.encodeChars after ∧
      offset = (Utf8.encodeChars before).length

/-- A boundary lies at or after the start. -/
theorem Boundary.nonneg {offset : Int} (boundary : bytes.Boundary offset) : 0 ≤ offset := by
  obtain ⟨before, after, -, rfl⟩ := boundary
  omega

/-- A boundary lies at or before the end. -/
theorem Boundary.le_length {offset : Int} (boundary : bytes.Boundary offset) :
    offset ≤ bytes.length := by
  obtain ⟨before, after, rfl, rfl⟩ := boundary
  rw [List.length_append]
  omega

/-- A text with a boundary starts and ends at one. -/
theorem Boundary.ends {offset : Int} (boundary : bytes.Boundary offset) :
    bytes.Boundary 0 ∧ bytes.Boundary bytes.length := by
  obtain ⟨before, after, rfl, -⟩ := boundary
  rw [← Utf8.encodeChars_append]
  exact ⟨⟨[], before ++ after, rfl, rfl⟩, ⟨before ++ after, [], (List.append_nil _).symm, rfl⟩⟩

/-- After a boundary the boundaries are the offsets up to which the bytes can be
read. -/
theorem Boundary.iff_cut (boundary : bytes.Boundary first) (order : first ≤ last)
    (most : last ≤ bytes.length) :
    bytes.Boundary last ↔ ∃ text, Utf8.encode text = bytes.cut ⟨first, last⟩ := by
  have least := boundary.nonneg
  have split := cut_append_cut bytes least order most
  have parts := cut_append_cut bytes (Int.le_refl _) least (Int.le_trans order most)
  rw [cut_whole, ← split] at parts
  rw [exists_encode_iff]
  obtain ⟨before, after, whole, length⟩ := boundary
  have head : bytes.cut ⟨0, first⟩ = Utf8.encodeChars before := by
    rw [cut_eq bytes (Int.le_refl _) least, whole, length]
    simp
  rw [head] at parts
  have widths := length_cut bytes least order most
  constructor
  · rintro ⟨prior, following, wholeAgain, lengthAgain⟩
    have priorCut : Utf8.encodeChars before ++ bytes.cut ⟨first, last⟩ =
        Utf8.encodeChars prior := by
      rw [← head, cut_append_cut bytes (Int.le_refl _) least order,
        cut_eq bytes (Int.le_refl _) (by omega), wholeAgain, lengthAgain]
      simp
    exact (Utf8.exists_encodeChars_append_iff before _).mp ⟨prior, priorCut⟩
  · rintro ⟨text, textCut⟩
    rw [textCut, ← List.append_assoc, ← Utf8.encodeChars_append] at parts
    obtain ⟨following, rest⟩ := (Utf8.exists_encodeChars_append_iff (before ++ text) _).mp
      ⟨before ++ after, by rw [parts, whole, Utf8.encodeChars_append]⟩
    refine ⟨before ++ text, following, by rw [← rest, parts], ?_⟩
    rw [textCut] at widths
    rw [Utf8.encodeChars_append, List.length_append]
    omega

/-- What lies between two boundaries can be read. -/
theorem Boundary.exists_text (lower : bytes.Boundary first) (upper : bytes.Boundary last)
    (order : first ≤ last) : ∃ text, Utf8.encode text = bytes.cut ⟨first, last⟩ :=
  (lower.iff_cut order upper.le_length).mp upper

/-- What lies between two boundaries can be read. -/
theorem Boundary.extract (lower : bytes.Boundary first) (upper : bytes.Boundary last)
    (order : first ≤ last) : ∃ text, bytes.extract ⟨first, last⟩ = .ok text := by
  obtain ⟨text, same⟩ := lower.exists_text upper order
  exact ⟨text, decode_eq_ok_iff.mpr same⟩

/-- Bytes of ASCII can be read. -/
theorem exists_encode_of_ascii (ascii : ∀ byte ∈ bytes, byte.toNat < 0x80) :
    ∃ text, Utf8.encode text = bytes := by
  rw [exists_encode_iff]
  induction bytes with
  | nil => exact ⟨[], rfl⟩
  | cons byte rest ih =>
      obtain ⟨tail, rfl⟩ := ih fun other member => ascii other (List.mem_cons_of_mem _ member)
      refine ⟨Char.ofNat byte.toNat :: tail, ?_⟩
      change _ = Utf8.encodeChar (Char.ofNat byte.toNat) ++ Utf8.encodeChars tail
      rw [Utf8.encodeChar_ascii (ascii byte List.mem_cons_self), UInt8.ofNat_toNat]
      rfl

end Bytes

end Codebox
