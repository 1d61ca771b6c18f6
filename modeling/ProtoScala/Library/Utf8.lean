import Mathlib.Data.List.Basic

/-!
# Well-formed UTF-8

A byte string is well formed when it is the encoding of a list of characters. The
encoding is a prefix code, and a byte below 0x80 stands for itself and never
inside a longer sequence, so a well-formed text can be cut before and behind such
a byte.
-/

namespace ProtoScala.Library.Utf8

set_option autoImplicit false

def WellFormed (bytes : List UInt8) : Prop :=
  ∃ text : List Char, bytes = text.flatMap String.utf8EncodeChar

theorem well_formed_nil : WellFormed [] := ⟨[], rfl⟩

theorem WellFormed.append {left right : List UInt8} (first : WellFormed left)
    (second : WellFormed right) : WellFormed (left ++ right) := by
  obtain ⟨text, rfl⟩ := first
  obtain ⟨more, rfl⟩ := second
  exact ⟨text ++ more, List.flatMap_append.symm⟩

theorem well_formed_char (c : Char) : WellFormed (String.utf8EncodeChar c) :=
  ⟨[c], by simp⟩

theorem well_formed_cons (c : Char) {rest : List UInt8} (well : WellFormed rest) :
    WellFormed (String.utf8EncodeChar c ++ rest) := (well_formed_char c).append well

theorem encode_ascii {c : Char} (ascii : c.toNat < 0x80) :
    String.utf8EncodeChar c = [UInt8.ofNat c.toNat] := by
  have small : c.val.toNat ≤ 0x7f := Nat.le_of_lt_succ ascii
  exact if_pos small

/-- Every byte of a longer sequence is at least 0x80. -/
theorem encode_not_ascii {c : Char} (wide : 0x80 ≤ c.toNat) {b : UInt8}
    (member : b ∈ String.utf8EncodeChar c) : 0x80 ≤ b := by
  have range : c.val.toNat < 0x110000 := by
    have valid := c.valid
    unfold UInt32.isValidChar Nat.isValidChar at valid
    omega
  change 0x80 ≤ c.val.toNat at wide
  rw [UInt8.le_iff_toNat_le]
  unfold String.utf8EncodeChar at member
  dsimp only at member
  split_ifs at member <;> simp only [List.mem_cons, List.not_mem_nil, or_false] at member
  · omega
  · rcases member with rfl | rfl <;> simp <;> omega
  · rcases member with rfl | rfl | rfl <;> simp <;> omega
  · rcases member with rfl | rfl | rfl | rfl <;> simp <;> omega

theorem encode_ne_nil (c : Char) : String.utf8EncodeChar c ≠ [] := String.utf8EncodeChar_ne_nil

/-- The encoding is a prefix code. -/
theorem encode_append_inj {c d : Char} {left right : List UInt8}
    (same : String.utf8EncodeChar c ++ left = String.utf8EncodeChar d ++ right) :
    c = d ∧ left = right := by
  have bytes := congrArg List.toByteArray same
  rw [List.toByteArray_append, List.toByteArray_append] at bytes
  have decoded := congrArg (fun b => ByteArray.utf8DecodeChar? b 0) bytes
  simp only [ByteArray.utf8DecodeChar?_utf8EncodeChar_append] at decoded
  obtain rfl := Option.some.inj decoded
  exact ⟨rfl, List.append_cancel_left same⟩

/-- The rest behind a well-formed beginning. -/
theorem WellFormed.of_append {left right : List UInt8} (first : WellFormed left)
    (whole : WellFormed (left ++ right)) : WellFormed right := by
  obtain ⟨text, rfl⟩ := first
  induction text with
  | nil => exact whole
  | cons c text induction =>
      obtain ⟨other, split⟩ := whole
      rw [List.flatMap_cons, List.append_assoc] at split
      cases other with
      | nil => exact absurd (List.append_eq_nil_iff.mp split).1 (encode_ne_nil c)
      | cons d other =>
          rw [List.flatMap_cons] at split
          obtain ⟨rfl, behind⟩ := encode_append_inj split
          exact induction ⟨other, behind⟩

theorem well_formed_append_iff {left right : List UInt8} (first : WellFormed left) :
    WellFormed (left ++ right) ↔ WellFormed right :=
  ⟨first.of_append, first.append⟩

theorem well_formed_ascii {b : UInt8} (ascii : b < 0x80) : WellFormed [b] := by
  have small : b.toNat < 0x80 := UInt8.lt_iff_toNat_lt.mp ascii
  have nat : (Char.ofNat b.toNat).toNat = b.toNat := by
    rw [Char.ofNat, dif_pos (.inl (by omega))]
    rfl
  refine ⟨[Char.ofNat b.toNat], ?_⟩
  rw [List.flatMap_cons, List.flatMap_nil, List.append_nil, encode_ascii (by omega), nat]
  simp

/-- A well-formed text can be cut at a byte below 0x80. -/
theorem WellFormed.split_ascii {b : UInt8} (ascii : b < 0x80) {before after : List UInt8}
    (whole : WellFormed (before ++ b :: after)) : WellFormed before ∧ WellFormed after := by
  obtain ⟨text, split⟩ := whole
  induction text generalizing before with
  | nil => simp at split
  | cons c text induction =>
      rw [List.flatMap_cons] at split
      rcases List.append_eq_append_iff.mp split with ⟨middle, char, rest⟩ | ⟨middle, char, rest⟩
      · -- the byte lies in the encoding of `c`, which is then one byte long
        cases middle with
        | nil =>
            obtain ⟨wellBefore, wellAfter⟩ : WellFormed before ∧ WellFormed (b :: after) := by
              rw [List.append_nil] at char
              exact ⟨char ▸ well_formed_char c, ⟨text, by simpa using rest⟩⟩
            have behind := (well_formed_ascii ascii).of_append wellAfter
            exact ⟨wellBefore, behind⟩
        | cons b' middle =>
            obtain ⟨rfl, rfl⟩ : b = b' ∧ after = middle ++ text.flatMap String.utf8EncodeChar := by
              simpa using rest
            have member : b ∈ String.utf8EncodeChar c := by
              rw [char]
              simp
            rcases Nat.lt_or_ge c.toNat 0x80 with small | wide
            · rw [encode_ascii small] at char
              have length := congrArg List.length char
              simp only [List.length_append, List.length_cons, List.length_nil] at length
              obtain rfl : before = [] := List.length_eq_zero_iff.mp (by omega)
              obtain rfl : middle = [] := List.length_eq_zero_iff.mp (by omega)
              exact ⟨well_formed_nil, ⟨text, by simp⟩⟩
            · exact absurd (encode_not_ascii wide member) (UInt8.not_le.mpr ascii)
      · obtain ⟨wellMiddle, wellAfter⟩ := induction rest.symm
        rw [char]
        exact ⟨well_formed_cons c wellMiddle, wellAfter⟩

/-- No character is encoded as a surrogate would be. -/
theorem surrogate_ill_formed {b : UInt8} (high : 0xA0 ≤ b) (rest : List UInt8) :
    ¬WellFormed (0xED :: b :: rest) := by
  rintro ⟨text, split⟩
  cases text with
  | nil => simp at split
  | cons c text =>
      have valid := c.valid
      have val : c.val.toNat = c.toNat := rfl
      unfold UInt32.isValidChar Nat.isValidChar at valid
      rw [UInt8.le_iff_toNat_le] at high
      rw [List.flatMap_cons] at split
      unfold String.utf8EncodeChar at split
      dsimp only at split
      split_ifs at split <;>
        simp only [List.cons_append, List.nil_append, List.cons.injEq, ← UInt8.toNat_inj] at split
      · have lead := split.1
        simp at lead
        omega
      · have lead := split.1
        simp at lead
        omega
      · obtain ⟨lead, second, -⟩ := split
        simp at lead second high
        omega
      · have lead := split.1
        simp at lead
        omega

/-! ## Characters of a text -/

/-- A byte inside a longer sequence. -/
def continuation (b : UInt8) : Bool :=
  decide (128 ≤ b.toNat) && decide (b.toNat < 192)

/-- The number of characters: of bytes that begin one. -/
def codePoints (bytes : List UInt8) : Nat :=
  bytes.countP fun b => !continuation b

theorem encode_shape (c : Char) :
    ∃ lead rest, String.utf8EncodeChar c = lead :: rest ∧ continuation lead = false ∧
      ∀ b ∈ rest, continuation b = true := by
  have range : c.val.toNat < 0x110000 := by
    have valid := c.valid
    unfold UInt32.isValidChar Nat.isValidChar at valid
    omega
  have val : c.val.toNat = c.toNat := rfl
  unfold String.utf8EncodeChar
  dsimp only
  split_ifs <;> refine ⟨_, _, rfl, ?_, ?_⟩ <;> simp [continuation] <;> omega

theorem code_points_append (left right : List UInt8) :
    codePoints (left ++ right) = codePoints left + codePoints right :=
  List.countP_append

theorem code_points_le (bytes : List UInt8) : codePoints bytes ≤ bytes.length :=
  List.countP_le_length

theorem code_points_char (c : Char) : codePoints (String.utf8EncodeChar c) = 1 := by
  obtain ⟨lead, rest, shape, starts, inside⟩ := encode_shape c
  have none_starts : rest.countP (fun b => !continuation b) = 0 := by
    rw [List.countP_eq_zero]
    intro b member
    simp [inside b member]
  rw [shape, codePoints, List.countP_cons, none_starts]
  simp [starts]

/-- A well-formed text has as many characters as were encoded. -/
theorem code_points_encode (text : List Char) :
    codePoints (text.flatMap String.utf8EncodeChar) = text.length := by
  induction text with
  | nil => rfl
  | cons c text ih =>
      rw [List.flatMap_cons, code_points_append, code_points_char, ih, List.length_cons]
      omega

/-- No character begins with the beginning of another. -/
theorem part_ill_formed {c : Char} {n : Nat} (some_bytes : 0 < n)
    (part : n < (String.utf8EncodeChar c).length) :
    ¬WellFormed ((String.utf8EncodeChar c).take n) := by
  rintro ⟨text, split⟩
  have whole := List.take_append_drop n (String.utf8EncodeChar c)
  rw [split] at whole
  cases text with
  | nil =>
      have length := congrArg List.length split
      simp only [List.length_take, List.flatMap_nil, List.length_nil] at length
      omega
  | cons d text =>
      rw [List.flatMap_cons, List.append_assoc] at whole
      obtain ⟨-, rest⟩ := encode_append_inj (whole.trans (List.append_nil _).symm)
      have length := congrArg List.length (List.append_eq_nil_iff.mp rest).2
      rw [List.length_drop, List.length_nil] at length
      omega

/-- A well-formed text may be cut exactly where a character begins, or at its end. -/
theorem well_formed_take {bytes : List UInt8} (well : WellFormed bytes) (n : Nat) :
    WellFormed (bytes.take n) ↔ ∀ b, bytes[n]? = some b → continuation b = false := by
  obtain ⟨text, rfl⟩ := well
  induction text generalizing n with
  | nil => simp [well_formed_nil]
  | cons c text ih =>
      obtain ⟨lead, rest, shape, starts, inside⟩ := encode_shape c
      rw [List.flatMap_cons]
      rcases Nat.lt_or_ge n (String.utf8EncodeChar c).length with part | behind
      · rw [List.take_append_of_le_length (Nat.le_of_lt part),
          List.getElem?_append_left part]
        cases n with
        | zero =>
            rw [shape]
            simp [well_formed_nil, starts]
        | succ n =>
            refine iff_of_false (part_ill_formed (Nat.succ_pos n) part) fun begins => ?_
            rw [shape, List.length_cons] at part
            have short : n < rest.length := by omega
            have this := begins rest[n] (by rw [shape]; simp)
            rw [inside _ (List.getElem_mem short)] at this
            cases this
      · rw [List.take_append, List.take_of_length_le behind, List.getElem?_append_right behind,
          well_formed_append_iff (well_formed_char c)]
        exact ih (n - (String.utf8EncodeChar c).length)

end ProtoScala.Library.Utf8
