import Codebox.Span
import Mathlib.Data.List.Basic

/-! # Texts and their bytes

Decoding inverts encoding and encoding inverts decoding, so a byte text has at
most one reading. A byte text may be cut at a boundary between two characters,
and the parts are read on their own.
-/

namespace Codebox

namespace Utf8

/-- Characters are encoded one after the other. -/
theorem encodeChars_append (first second : List Char) :
    encodeChars (first ++ second) = encodeChars first ++ encodeChars second :=
  List.flatMap_append

/-- Texts are encoded one after the other. -/
theorem encode_append (first second : String) :
    encode (first ++ second) = encode first ++ encode second := by
  unfold encode
  rw [String.toList_append, encodeChars_append]

/-- A text of characters is encoded as they are. -/
theorem encode_ofList (text : List Char) : encode (String.ofList text) = encodeChars text := by
  unfold encode
  rw [String.toList_ofList]

/-- The bytes of a character by the size of its code. -/
theorem encodeChar_eq (c : Char) :
    encodeChar c =
      if c.toNat < 0x80 then [UInt8.ofNat c.toNat]
      else if c.toNat < 0x800 then
        [UInt8.ofNat (0xC0 + c.toNat / 64), UInt8.ofNat (0x80 + c.toNat % 64)]
      else if c.toNat < 0x10000 then
        [UInt8.ofNat (0xE0 + c.toNat / 4096), UInt8.ofNat (0x80 + c.toNat / 64 % 64),
          UInt8.ofNat (0x80 + c.toNat % 64)]
      else
        [UInt8.ofNat (0xF0 + c.toNat / 262144), UInt8.ofNat (0x80 + c.toNat / 4096 % 64),
          UInt8.ofNat (0x80 + c.toNat / 64 % 64), UInt8.ofNat (0x80 + c.toNat % 64)] :=
  rfl

/-! ## One byte of the machine -/

/-- A small number is the number of its byte. -/
theorem toNat_byte {n : Nat} (small : n < 256) : (UInt8.ofNat n).toNat = n :=
  UInt8.toNat_ofNat_of_lt' small

/-- A byte of ASCII is a character. -/
theorem lead_ascii {n : Nat} (small : n < 0x80) : lead n = .complete n := by
  unfold lead
  rw [if_pos (by omega)]

/-- The first byte of two leaves one to come. -/
theorem lead_two {n : Nat} (least : 2 ≤ n) (most : n < 32) :
    lead (0xC0 + n) = .pending ⟨0, 0x80, 0xBF, n⟩ := by
  unfold lead
  rw [if_neg (by omega), if_neg (by omega), if_pos (by omega), Nat.add_sub_cancel_left]

/-- The first byte of three leaves two to come. The next one is bounded so that no code is written
longer than needed, and none is a surrogate. -/
theorem lead_three {n : Nat} (most : n < 16) :
    lead (0xE0 + n) = .pending
      ⟨1, if n = 0 then 0xA0 else 0x80, if n = 13 then 0x9F else 0xBF, n⟩ := by
  unfold lead
  rw [if_neg (by omega), if_neg (by omega), if_neg (by omega)]
  by_cases zero : n = 0
  · subst zero
    rfl
  · rw [if_neg (by omega), if_neg zero]
    by_cases surrogate : n = 13
    · subst surrogate
      rfl
    · rw [if_neg (by omega), if_pos (by omega), if_neg surrogate, Nat.add_sub_cancel_left]

/-- The first byte of four leaves three to come, and bounds the next one likewise. -/
theorem lead_four {n : Nat} (most : n < 5) :
    lead (0xF0 + n) = .pending
      ⟨2, if n = 0 then 0x90 else 0x80, if n = 4 then 0x8F else 0xBF, n⟩ := by
  have few : n = 0 ∨ n = 1 ∨ n = 2 ∨ n = 3 ∨ n = 4 := by omega
  rcases few with rfl | rfl | rfl | rfl | rfl <;> rfl

/-- Only a byte of ASCII is a character by itself. -/
theorem lead_complete {byte code : Nat} (ended : lead byte = .complete code) :
    byte < 0x80 ∧ code = byte := by
  unfold lead at ended
  by_cases small : byte ≤ 0x7F
  · rw [if_pos small, Step.complete.injEq] at ended
    exact ⟨by omega, ended.symm⟩
  · rw [if_neg small] at ended
    repeat' split at ended
    all_goals cases ended

/-- The first bytes of characters of two, three and four bytes. -/
theorem lead_pending {byte : Nat} {state : Pending} (started : lead byte = .pending state) :
    (∃ n, 2 ≤ n ∧ n < 32 ∧ byte = 0xC0 + n) ∨ (∃ n, n < 16 ∧ byte = 0xE0 + n) ∨
      ∃ n, n < 5 ∧ byte = 0xF0 + n := by
  have low : 0xC2 ≤ byte := by
    by_contra below
    unfold lead at started
    split at started
    · cases started
    · rw [if_pos (by omega)] at started
      cases started
  have high : byte < 0xF5 := by
    by_contra above
    unfold lead at started
    repeat rw [if_neg (by omega)] at started
    cases started
  rcases Nat.lt_or_ge byte 0xE0 with two | longer
  · exact .inl ⟨byte - 0xC0, by omega, by omega, by omega⟩
  rcases Nat.lt_or_ge byte 0xF0 with three | four
  · exact .inr (.inl ⟨byte - 0xE0, by omega, by omega⟩)
  · exact .inr (.inr ⟨byte - 0xF0, by omega, by omega⟩)

/-- A first byte starts a character. -/
theorem decodeFrom_lead {byte : Nat} {state : Pending} (small : byte < 256)
    (started : lead byte = .pending state) (rest : Bytes) :
    decodeFrom none (UInt8.ofNat byte :: rest) = decodeFrom (some state) rest := by
  simp only [decodeFrom, advance]
  rw [toNat_byte small, started]

/-- The last byte completes a character. -/
theorem decodeFrom_last {low high value n : Nat} (least : low ≤ 0x80 + n)
    (most : 0x80 + n ≤ high) (bits : n < 64) (rest : Bytes) :
    decodeFrom (some ⟨0, low, high, value⟩) (UInt8.ofNat (0x80 + n) :: rest) =
      (decodeFrom none rest).map (Char.ofNat (value * 64 + n) :: ·) := by
  simp only [decodeFrom, advance, Pending.step]
  rw [toNat_byte (by omega), if_pos ⟨least, most⟩, Nat.add_sub_cancel_left]

/-- A byte inside a character leaves fewer to come. -/
theorem decodeFrom_more {more low high value n : Nat} (least : low ≤ 0x80 + n)
    (most : 0x80 + n ≤ high) (bits : n < 64) (rest : Bytes) :
    decodeFrom (some ⟨more + 1, low, high, value⟩) (UInt8.ofNat (0x80 + n) :: rest) =
      decodeFrom (some ⟨more, 0x80, 0xBF, value * 64 + n⟩) rest := by
  simp only [decodeFrom, advance, Pending.step]
  rw [toNat_byte (by omega), if_pos ⟨least, most⟩, Nat.add_sub_cancel_left]

/-- Inside a character a continuation byte comes next. -/
theorem decodeFrom_some_cases {more low high value : Nat} {bytes : Bytes} {text : List Char}
    (least : 0x80 ≤ low)
    (decoded : decodeFrom (some ⟨more, low, high, value⟩) bytes = some text) :
    ∃ n rest, bytes = UInt8.ofNat (0x80 + n) :: rest ∧ low ≤ 0x80 + n ∧ 0x80 + n ≤ high ∧
      match more with
      | 0 => ∃ tail, decodeFrom none rest = some tail ∧ text = Char.ofNat (value * 64 + n) :: tail
      | more + 1 => decodeFrom (some ⟨more, 0x80, 0xBF, value * 64 + n⟩) rest = some text := by
  cases bytes with
  | nil => simp [decodeFrom] at decoded
  | cons byte rest =>
      simp only [decodeFrom, advance, Pending.step] at decoded
      by_cases inside : low ≤ byte.toNat ∧ byte.toNat ≤ high
      · refine ⟨byte.toNat - 0x80, rest, ?_, by omega, by omega, ?_⟩
        · rw [Nat.add_sub_cancel' (by omega), UInt8.ofNat_toNat]
        · rw [if_pos inside] at decoded
          cases more with
          | zero =>
              obtain ⟨tail, ended, same⟩ := Option.map_eq_some_iff.mp decoded
              exact ⟨tail, ended, same.symm⟩
          | succ more => exact decoded
      · rw [if_neg inside] at decoded
        cases decoded

/-! ## One character -/

/-- A valid code is that of its character. -/
theorem toNat_char {n : Nat} (valid : n < 0xD800 ∨ 0xDFFF < n ∧ n < 0x110000) :
    (Char.ofNat n).toNat = n := by
  unfold Char.ofNat
  rw [dif_pos valid]
  rfl

/-- A character of ASCII is one byte. -/
theorem encodeChar_ascii {n : Nat} (small : n < 0x80) :
    encodeChar (Char.ofNat n) = [UInt8.ofNat n] := by
  rw [encodeChar_eq, toNat_char (by omega), if_pos small]

/-- The two bytes of a code, by its bits. -/
theorem encodeChar_two {n a : Nat} (least : 2 ≤ n) (most : n < 32) (bits : a < 64) :
    encodeChar (Char.ofNat (n * 64 + a)) = [UInt8.ofNat (0xC0 + n), UInt8.ofNat (0x80 + a)] := by
  rw [encodeChar_eq, toNat_char (by omega), if_neg (by omega), if_pos (by omega),
    show (n * 64 + a) / 64 = n by omega, show (n * 64 + a) % 64 = a by omega]

/-- The three bytes of a code, by its bits. -/
theorem encodeChar_three {n a b : Nat} (most : n < 16) (bitsA : a < 64) (bitsB : b < 64)
    (least : n = 0 → 32 ≤ a) (plain : n = 13 → a < 32) :
    encodeChar (Char.ofNat ((n * 64 + a) * 64 + b)) =
      [UInt8.ofNat (0xE0 + n), UInt8.ofNat (0x80 + a), UInt8.ofNat (0x80 + b)] := by
  rw [encodeChar_eq, toNat_char (by omega), if_neg (by omega), if_neg (by omega),
    if_pos (by omega), show ((n * 64 + a) * 64 + b) / 4096 = n by omega,
    show ((n * 64 + a) * 64 + b) / 64 % 64 = a by omega,
    show ((n * 64 + a) * 64 + b) % 64 = b by omega]

/-- The four bytes of a code, by its bits. -/
theorem encodeChar_four {n a b d : Nat} (most : n < 5) (bitsA : a < 64) (bitsB : b < 64)
    (bitsD : d < 64) (least : n = 0 → 16 ≤ a) (last : n = 4 → a < 16) :
    encodeChar (Char.ofNat (((n * 64 + a) * 64 + b) * 64 + d)) =
      [UInt8.ofNat (0xF0 + n), UInt8.ofNat (0x80 + a), UInt8.ofNat (0x80 + b),
        UInt8.ofNat (0x80 + d)] := by
  rw [encodeChar_eq, toNat_char (by omega), if_neg (by omega), if_neg (by omega),
    if_neg (by omega), show (((n * 64 + a) * 64 + b) * 64 + d) / 262144 = n by omega,
    show (((n * 64 + a) * 64 + b) * 64 + d) / 4096 % 64 = a by omega,
    show (((n * 64 + a) * 64 + b) * 64 + d) / 64 % 64 = b by omega,
    show (((n * 64 + a) * 64 + b) * 64 + d) % 64 = d by omega]

/-- An encoded character is read back, and reading goes on after it. -/
theorem decodeFrom_encodeChar (c : Char) (rest : Bytes) :
    decodeFrom none (encodeChar c ++ rest) = (decodeFrom none rest).map (c :: ·) := by
  have valid : c.toNat < 0xD800 ∨ 0xDFFF < c.toNat ∧ c.toNat < 0x110000 := c.valid
  have same : Char.ofNat c.toNat = c := Char.ofNat_toNat c
  rw [encodeChar_eq]
  generalize c.toNat = n at *
  split
  · simp only [List.cons_append, List.nil_append, decodeFrom, advance]
    rw [toNat_byte (by omega), lead_ascii (by omega)]
    simp only [same]
  split
  · simp only [List.cons_append, List.nil_append]
    rw [decodeFrom_lead (by omega) (lead_two (by omega) (by omega)),
      decodeFrom_last (by omega) (by omega) (by omega),
      show n / 64 * 64 + n % 64 = n by omega, same]
  split
  · simp only [List.cons_append, List.nil_append]
    rw [decodeFrom_lead (by omega) (lead_three (by omega)),
      decodeFrom_more (by split <;> omega) (by split <;> omega) (by omega),
      decodeFrom_last (by omega) (by omega) (by omega),
      show (n / 4096 * 64 + n / 64 % 64) * 64 + n % 64 = n by omega, same]
  · simp only [List.cons_append, List.nil_append]
    rw [decodeFrom_lead (by omega) (lead_four (by omega)),
      decodeFrom_more (by split <;> omega) (by split <;> omega) (by omega),
      decodeFrom_more (by omega) (by omega) (by omega),
      decodeFrom_last (by omega) (by omega) (by omega),
      show ((n / 262144 * 64 + n / 4096 % 64) * 64 + n / 64 % 64) * 64 + n % 64 = n by omega, same]

/-- A byte text that can be read starts with an encoded character, and the rest
can be read, too. -/
theorem decodeFrom_none_cases {byte : UInt8} {rest : Bytes} {text : List Char}
    (decoded : decodeFrom none (byte :: rest) = some text) :
    ∃ c tail after, text = c :: tail ∧ byte :: rest = encodeChar c ++ after ∧
      decodeFrom none after = some tail := by
  have named : UInt8.ofNat byte.toNat = byte := UInt8.ofNat_toNat
  cases started : lead byte.toNat with
  | invalid => simp [decodeFrom, advance, started] at decoded
  | complete code =>
      obtain ⟨small, rfl⟩ := lead_complete started
      simp only [decodeFrom, advance, started] at decoded
      obtain ⟨tail, ended, rfl⟩ := Option.map_eq_some_iff.mp decoded
      exact ⟨_, tail, rest, rfl, by rw [encodeChar_ascii small, named]; rfl, ended⟩
  | pending state =>
      rw [← named] at decoded ⊢
      rcases lead_pending started with
        ⟨n, least, most, equal⟩ | ⟨n, most, equal⟩ | ⟨n, most, equal⟩
      · rw [equal, decodeFrom_lead (by omega) (lead_two least most)] at decoded
        obtain ⟨a, after, rfl, lowA, highA, tail, ended, rfl⟩ :=
          decodeFrom_some_cases (by omega) decoded
        exact ⟨_, tail, after, rfl,
          by rw [equal, encodeChar_two least most (by omega)]; rfl, ended⟩
      · rw [equal, decodeFrom_lead (by omega) (lead_three most)] at decoded
        obtain ⟨a, after, rfl, lowA, highA, decoded⟩ :=
          decodeFrom_some_cases (by split <;> omega) decoded
        obtain ⟨b, after, rfl, lowB, highB, tail, ended, rfl⟩ :=
          decodeFrom_some_cases (by omega) decoded
        have bits : a < 64 := by split at highA <;> omega
        have least : n = 0 → 32 ≤ a := by intro zero; rw [if_pos zero] at lowA; omega
        have plain : n = 13 → a < 32 := by intro surrogate; rw [if_pos surrogate] at highA; omega
        exact ⟨_, tail, after, rfl,
          by rw [equal, encodeChar_three most bits (by omega) least plain]; rfl, ended⟩
      · rw [equal, decodeFrom_lead (by omega) (lead_four most)] at decoded
        obtain ⟨a, after, rfl, lowA, highA, decoded⟩ :=
          decodeFrom_some_cases (by split <;> omega) decoded
        obtain ⟨b, after, rfl, lowB, highB, decoded⟩ := decodeFrom_some_cases (by omega) decoded
        obtain ⟨d, after, rfl, lowD, highD, tail, ended, rfl⟩ :=
          decodeFrom_some_cases (by omega) decoded
        have bits : a < 64 := by split at highA <;> omega
        have least : n = 0 → 16 ≤ a := by intro zero; rw [if_pos zero] at lowA; omega
        have last : n = 4 → a < 16 := by intro top; rw [if_pos top] at highA; omega
        exact ⟨_, tail, after, rfl,
          by rw [equal, encodeChar_four most bits (by omega) (by omega) least last]; rfl, ended⟩

/-! ## Whole texts -/

/-- A text followed by more bytes is read first. -/
theorem decodeFrom_encodeChars (text : List Char) (rest : Bytes) :
    decodeFrom none (encodeChars text ++ rest) = (decodeFrom none rest).map (text ++ ·) := by
  induction text with
  | nil => simp [encodeChars]
  | cons c tail ih =>
      change decodeFrom none ((encodeChar c ++ encodeChars tail) ++ rest) = _
      rw [List.append_assoc, decodeFrom_encodeChar, ih, Option.map_map]
      rfl

/-- Encoding inverts decoding. -/
theorem encodeChars_of_decodeFrom {bytes : Bytes} {text : List Char}
    (decoded : decodeFrom none bytes = some text) : encodeChars text = bytes := by
  induction text generalizing bytes with
  | nil =>
      cases bytes with
      | nil => rfl
      | cons byte rest =>
          obtain ⟨c, tail, after, impossible, _⟩ := decodeFrom_none_cases decoded
          cases impossible
  | cons c tail ih =>
      cases bytes with
      | nil => simp [decodeFrom] at decoded
      | cons byte rest =>
          obtain ⟨d, others, after, same, bytesEq, ended⟩ := decodeFrom_none_cases decoded
          obtain ⟨rfl, rfl⟩ := List.cons.inj same
          rw [bytesEq, ← ih ended]
          rfl

/-- Decoding inverts encoding. -/
theorem decodeFrom_encodeChars_self (text : List Char) :
    decodeFrom none (encodeChars text) = some text := by
  simpa [decodeFrom] using decodeFrom_encodeChars text []

/-- Different characters have different bytes. -/
theorem encodeChars_injective {first second : List Char}
    (same : encodeChars first = encodeChars second) : first = second := by
  have decoded := decodeFrom_encodeChars_self first
  rw [same, decodeFrom_encodeChars_self] at decoded
  exact (Option.some.inj decoded).symm

/-- Different texts have different bytes. -/
theorem encode_injective {first second : String} (same : encode first = encode second) :
    first = second :=
  String.toList_injective (encodeChars_injective same)

/-- Bytes are read as a text exactly if they encode it. -/
theorem decode?_eq_some_iff {bytes : Bytes} {text : String} :
    decode? bytes = some text ↔ encode text = bytes := by
  unfold decode? encode
  constructor
  · intro decoded
    obtain ⟨characters, ended, rfl⟩ := Option.map_eq_some_iff.mp decoded
    rw [String.toList_ofList]
    exact encodeChars_of_decodeFrom ended
  · rintro rfl
    rw [decodeFrom_encodeChars_self, Option.map_some, String.ofList_toList]

/-- After an encoded text the rest can be read exactly if the whole can. -/
theorem exists_encodeChars_append_iff (text : List Char) (rest : Bytes) :
    (∃ whole, encodeChars text ++ rest = encodeChars whole) ↔
      ∃ tail, rest = encodeChars tail := by
  constructor
  · rintro ⟨whole, same⟩
    have decoded := decodeFrom_encodeChars_self whole
    rw [← same, decodeFrom_encodeChars] at decoded
    obtain ⟨tail, ended, _⟩ := Option.map_eq_some_iff.mp decoded
    exact ⟨tail, (encodeChars_of_decodeFrom ended).symm⟩
  · rintro ⟨tail, rfl⟩
    exact ⟨text ++ tail, (encodeChars_append text tail).symm⟩

/-! ## What comes before a text -/

/-- A character under way owes continuation bytes and nothing else. -/
def Pending.Owes (state : Pending) : Prop :=
  0x80 ≤ state.low ∧ state.high ≤ 0xBF

/-- A character under way bounds its next byte to continuation bytes. -/
theorem owes_of_lead {byte : Nat} {state : Pending} (started : lead byte = .pending state) :
    state.Owes := by
  rcases lead_pending started with ⟨n, least, most, rfl⟩ | ⟨n, most, rfl⟩ | ⟨n, most, rfl⟩
  · rw [lead_two least most] at started
    cases started
    simp [Pending.Owes]
  · rw [lead_three most] at started
    cases started
    simp only [Pending.Owes]
    constructor
    · split <;> omega
    · split <;> omega
  · rw [lead_four most] at started
    cases started
    simp only [Pending.Owes]
    constructor
    · split <;> omega
    · split <;> omega

/-- One more byte leaves a character under way in such a state. -/
theorem owes_of_advance {state : Option Pending} {next : Pending} {byte : Nat}
    (advanced : advance state byte = .pending next) : next.Owes := by
  cases state with
  | none => exact owes_of_lead advanced
  | some state =>
      simp only [advance, Pending.step] at advanced
      split at advanced
      · split at advanced
        · cases advanced
        · cases advanced
          exact ⟨Nat.le_refl _, Nat.le_refl _⟩
      · cases advanced

/-- The first byte of a character is no continuation byte. -/
theorem exists_encodeChar_eq_cons (c : Char) :
    ∃ byte tail, encodeChar c = byte :: tail ∧ (byte.toNat < 0x80 ∨ 0xBF < byte.toNat) := by
  have valid : c.toNat < 0xD800 ∨ 0xDFFF < c.toNat ∧ c.toNat < 0x110000 := c.valid
  rw [encodeChar_eq]
  split
  · exact ⟨_, _, rfl, .inl (by rw [toNat_byte (by omega)]; omega)⟩
  · split
    · exact ⟨_, _, rfl, .inr (by rw [toNat_byte (by omega)]; omega)⟩
    · split
      · exact ⟨_, _, rfl, .inr (by rw [toNat_byte (by omega)]; omega)⟩
      · exact ⟨_, _, rfl, .inr (by rw [toNat_byte (by omega)]; omega)⟩

/-- A byte of a character is its code, or lies beyond ASCII. -/
theorem toNat_of_mem_encodeChar {c : Char} {byte : UInt8} (member : byte ∈ encodeChar c) :
    byte.toNat = c.toNat ∨ 0x80 ≤ byte.toNat := by
  have valid : c.toNat < 0xD800 ∨ 0xDFFF < c.toNat ∧ c.toNat < 0x110000 := c.valid
  rw [encodeChar_eq] at member
  split at member
  · rw [List.mem_singleton.mp member]
    exact .inl (toNat_byte (by omega))
  · right
    split at member
    · simp only [List.mem_cons, List.not_mem_nil, or_false] at member
      rcases member with rfl | rfl
      all_goals rw [toNat_byte (by omega)]; omega
    · split at member
      · simp only [List.mem_cons, List.not_mem_nil, or_false] at member
        rcases member with rfl | rfl | rfl
        all_goals rw [toNat_byte (by omega)]; omega
      · simp only [List.mem_cons, List.not_mem_nil, or_false] at member
        rcases member with rfl | rfl | rfl | rfl
        all_goals rw [toNat_byte (by omega)]; omega

/-- No text completes a character under way. -/
theorem decodeFrom_some_encodeChars {state : Pending} (owes : state.Owes) (text : List Char) :
    decodeFrom (some state) (encodeChars text) = none := by
  cases text with
  | nil => rfl
  | cons c rest =>
      obtain ⟨byte, tail, first, outside⟩ := exists_encodeChar_eq_cons c
      have least := owes.1
      have most := owes.2
      change decodeFrom (some state) (encodeChar c ++ encodeChars rest) = none
      rw [first, List.cons_append]
      simp only [decodeFrom, advance, Pending.step]
      rw [if_neg (by omega)]

/-- Bytes that can be read before a text can be read on their own. -/
theorem exists_decodeFrom_of_append {state : Option Pending} {bytes : Bytes}
    {text whole : List Char}
    (owes : ∀ pending, state = some pending → pending.Owes)
    (decoded : decodeFrom state (bytes ++ encodeChars text) = some whole) :
    ∃ front, decodeFrom state bytes = some front := by
  induction bytes generalizing state whole with
  | nil =>
      cases state with
      | none => exact ⟨[], rfl⟩
      | some pending =>
          rw [List.nil_append, decodeFrom_some_encodeChars (owes pending rfl)] at decoded
          cases decoded
  | cons byte rest ih =>
      rw [List.cons_append] at decoded
      cases advanced : advance state byte.toNat with
      | invalid =>
          simp only [decodeFrom, advanced] at decoded
          cases decoded
      | complete code =>
          simp only [decodeFrom, advanced] at decoded ⊢
          obtain ⟨tail, ended, -⟩ := Option.map_eq_some_iff.mp decoded
          obtain ⟨front, found⟩ := ih (by simp) ended
          exact ⟨_, Option.map_eq_some_iff.mpr ⟨front, found, rfl⟩⟩
      | pending next =>
          simp only [decodeFrom, advanced] at decoded ⊢
          apply ih _ decoded
          rintro _ ⟨⟩
          exact owes_of_advance advanced

/-- Before an encoded text the bytes can be read exactly if the whole can. -/
theorem exists_append_encodeChars_iff (bytes : Bytes) (text : List Char) :
    (∃ whole, bytes ++ encodeChars text = encodeChars whole) ↔
      ∃ front, bytes = encodeChars front := by
  constructor
  · rintro ⟨whole, same⟩
    have decoded := decodeFrom_encodeChars_self whole
    rw [← same] at decoded
    obtain ⟨front, ended⟩ := exists_decodeFrom_of_append (by simp) decoded
    exact ⟨front, (encodeChars_of_decodeFrom ended).symm⟩
  · rintro ⟨front, rfl⟩
    exact ⟨front ++ text, (encodeChars_append front text).symm⟩

/-! ## The last byte of a text -/

/-- A character ends with a byte of ASCII exactly if it is that character. -/
theorem getLast?_encodeChar {c ascii : Char} (small : ascii.toNat < 0x80) :
    (encodeChar c).getLast? = some (UInt8.ofNat ascii.toNat) ↔ c = ascii := by
  have same : ∀ n < 256, UInt8.ofNat n = UInt8.ofNat ascii.toNat ↔ n = ascii.toNat := by
    intro n bound
    rw [← UInt8.toNat_inj, toNat_byte bound, toNat_byte (by omega)]
  have equal : c = ascii ↔ c.toNat = ascii.toNat :=
    ⟨congrArg Char.toNat, fun same => Char.ext (UInt32.toNat_inj.mp same)⟩
  rw [encodeChar_eq, equal]
  split
  next least => rw [List.getLast?_singleton, Option.some_inj, same _ (by omega)]
  next least =>
    -- The last byte of a longer character is a continuation byte.
    have last : UInt8.ofNat (0x80 + c.toNat % 64) ≠ UInt8.ofNat ascii.toNat := by
      rw [ne_eq, same _ (by omega)]
      omega
    have wide : c.toNat ≠ ascii.toNat := by omega
    split
    · exact iff_of_false (fun found => last (Option.some.inj found)) wide
    · split
      · exact iff_of_false (fun found => last (Option.some.inj found)) wide
      · exact iff_of_false (fun found => last (Option.some.inj found)) wide

/-- A character has a byte at least. -/
theorem encodeChar_ne_nil (c : Char) : encodeChar c ≠ [] := by
  rw [encodeChar_eq]
  split
  · exact List.cons_ne_nil _ _
  · split
    · exact List.cons_ne_nil _ _
    · split
      · exact List.cons_ne_nil _ _
      · exact List.cons_ne_nil _ _

/-- A text ends with a character of ASCII exactly if its bytes end with the byte of
that character. -/
theorem getLast?_encodeChars {text : List Char} {ascii : Char} (small : ascii.toNat < 0x80) :
    (encodeChars text).getLast? = some (UInt8.ofNat ascii.toNat) ↔ text.getLast? = some ascii := by
  rcases List.eq_nil_or_concat text with rfl | ⟨before, last, rfl⟩
  · simp [encodeChars]
  · have single : encodeChars [last] = encodeChar last := List.append_nil _
    have found := List.getLast?_eq_some_getLast (encodeChar_ne_nil last)
    have ends := getLast?_encodeChar (c := last) small
    rw [found] at ends
    rw [List.concat_eq_append, encodeChars_append, single, List.getLast?_append,
      List.getLast?_append, List.getLast?_singleton, found]
    simpa using ends

end Utf8

end Codebox
