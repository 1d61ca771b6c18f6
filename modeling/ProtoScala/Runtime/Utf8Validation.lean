import Mathlib.Order.Bounds.Defs
import ProtoScala.Frontend.CharacterBoundaries

/-!
# UTF-8 text of a file

A file's bytes are checked before they become a string: `firstMalformedUTF8` looks for the
first byte that belongs to no well-formed sequence, and `lenientUTF8` puts U+FFFD in the
place of each such byte. A well-formed sequence begins with a byte that is inside no other
one, so the scan of a damaged text meets every well-formed sequence at its first byte.
-/

namespace ProtoScala.Runtime.Utf8Validation

open ProtoScala.Library.Utf8
open ProtoScala.Frontend.Lexer (leadByte continued decodeUtf8)
open ProtoScala.Frontend.CharacterBoundaries

set_option autoImplicit false

abbrev Bytes := List UInt8

/-- The length of the well-formed sequence at the head of the bytes, 0 when it is malformed.
The masks are those of the lexer's decoder. -/
def sequenceAt : Bytes → Nat
  | [] => 0
  | c :: rest =>
      if c < 0x80 then 1
      else
        match leadByte c with
        | none => 0
        | some (len, payload, minimum) =>
            if len > rest.length + 1 then 0
            else
              match continued payload (len - 1) rest with
              | none => 0
              | some cp =>
                  if cp < minimum then 0
                  else if cp ≥ 0xD800 ∧ cp ≤ 0xDFFF then 0
                  else if cp > 0x10FFFF then 0
                  else len

/-- The scan from position `i`, with the bytes behind it. -/
def firstMalformedFrom (i : Nat) (rest : Bytes) : Int :=
  if _more : rest ≠ [] then
    if _len : sequenceAt rest = 0 then (i : Int)
    else firstMalformedFrom (i + sequenceAt rest) (rest.drop (sequenceAt rest))
  else -1
termination_by rest.length
decreasing_by
  have := List.length_pos_iff.mpr _more
  simp only [List.length_drop]
  omega

def firstMalformedUTF8 (s : Bytes) : Int := firstMalformedFrom 0 s

/-- U+FFFD. -/
def replacement : Bytes := [0xEF, 0xBF, 0xBD]

/-- The loop of `lenientUTF8` over what is left. -/
def lenientFrom : Bytes → Bytes
  | [] => []
  | b :: rest =>
      if _len : sequenceAt (b :: rest) = 0 then replacement ++ lenientFrom rest
      else
        (b :: rest).take (sequenceAt (b :: rest)) ++
          lenientFrom ((b :: rest).drop (sequenceAt (b :: rest)))
termination_by s => s.length
decreasing_by
  · simp
  · simp only [List.length_drop, List.length_cons]
    omega

def lenientUTF8 (s : Bytes) : Bytes :=
  if firstMalformedUTF8 s < 0 then s else lenientFrom s

/-! ## One sequence -/

theorem continued_length {value count result : Nat} {bytes : Bytes}
    (read : continued value count bytes = some result) : count ≤ bytes.length := by
  induction count generalizing value bytes with
  | zero => exact Nat.zero_le _
  | succ count ih =>
      obtain ⟨b, rest, rfl, -, -, more⟩ := continued_succ read
      exact Nat.succ_le_succ (ih more)

/-- The lexer's decoder accepts the same sequences. -/
theorem sequence_at_eq (bytes : Bytes) :
    sequenceAt bytes = ((decodeUtf8 bytes).map Prod.fst).getD 0 := by
  cases bytes with
  | nil => rfl
  | cons c rest =>
      rw [sequenceAt, decodeUtf8]
      by_cases ascii : c < 0x80
      · rw [if_pos ascii, if_pos ascii]
        rfl
      · rw [if_neg ascii, if_neg ascii]
        cases leadByte c with
        | none => rfl
        | some lead =>
            obtain ⟨len, payload, minimum⟩ := lead
            simp only
            cases read : continued payload (len - 1) rest with
            | none => simp
            | some cp =>
                have enough := continued_length read
                rw [if_neg (by omega)]
                simp only
                by_cases small : cp < minimum
                · simp [small]
                · by_cases surrogate : cp ≥ 0xD800 ∧ cp ≤ 0xDFFF
                  · simp [small, surrogate]
                  · by_cases large : cp > 0x10FFFF
                    · simp [small, surrogate, large]
                    · simp [small, surrogate, large]

theorem sequence_sound {bytes : Bytes} (some_len : sequenceAt bytes ≠ 0) :
    ∃ c : Char, (String.utf8EncodeChar c).length = sequenceAt bytes ∧
      bytes = String.utf8EncodeChar c ++ bytes.drop (sequenceAt bytes) := by
  rw [sequence_at_eq] at some_len ⊢
  cases read : decodeUtf8 bytes with
  | none =>
      rw [read] at some_len
      exact absurd rfl some_len
  | some found =>
      obtain ⟨len, cp⟩ := found
      obtain ⟨c, -, length, split⟩ := decode_utf8_sound read
      exact ⟨c, length, split⟩

/-- The first bytes of the longer sequences and the continuation bytes, with the bits they carry. -/
theorem sequence_bytes : ∀ k : Fin 0x40,
    (k.val < 0x20 → ¬UInt8.ofNat (k + 0xC0) < 0x80 ∧
      leadByte (.ofNat (k + 0xC0)) = some (2, k.val, 0x80)) ∧
    (k.val < 0x10 → ¬UInt8.ofNat (k + 0xE0) < 0x80 ∧
      leadByte (.ofNat (k + 0xE0)) = some (3, k.val, 0x800)) ∧
    (k.val < 0x08 → ¬UInt8.ofNat (k + 0xF0) < 0x80 ∧
      leadByte (.ofNat (k + 0xF0)) = some (4, k.val, 0x10000)) ∧
    UInt8.ofNat (k + 0x80) &&& 0xC0 = 0x80 ∧
      (UInt8.ofNat (k + 0x80) &&& 0x3F).toNat = k.val := by
  decide +kernel

theorem lead_two {k : Nat} (below : k < 0x20) :
    ¬UInt8.ofNat (k + 0xC0) < 0x80 ∧ leadByte (.ofNat (k + 0xC0)) = some (2, k, 0x80) :=
  (sequence_bytes ⟨k, by omega⟩).1 below

theorem lead_three {k : Nat} (below : k < 0x10) :
    ¬UInt8.ofNat (k + 0xE0) < 0x80 ∧ leadByte (.ofNat (k + 0xE0)) = some (3, k, 0x800) :=
  (sequence_bytes ⟨k, by omega⟩).2.1 below

theorem lead_four {k : Nat} (below : k < 0x08) :
    ¬UInt8.ofNat (k + 0xF0) < 0x80 ∧ leadByte (.ofNat (k + 0xF0)) = some (4, k, 0x10000) :=
  (sequence_bytes ⟨k, by omega⟩).2.2.1 below

theorem continuation_bits {k : Nat} (below : k < 0x40) :
    UInt8.ofNat (k + 0x80) &&& 0xC0 = 0x80 ∧ (UInt8.ofNat (k + 0x80) &&& 0x3F).toNat = k :=
  (sequence_bytes ⟨k, below⟩).2.2.2

theorem continued_encode (value count : Nat) {k : Nat} (below : k < 0x40) (rest : Bytes) :
    continued value (count + 1) (.ofNat (k + 0x80) :: rest) =
      continued (value * 64 + k) count rest := by
  obtain ⟨bits, payload⟩ := continuation_bits below
  rw [continued, if_neg (not_not.mpr bits), payload, shifted_in value (by omega)]

/-- Every encoded character is accepted, whatever comes behind it. -/
theorem sequence_complete (c : Char) (rest : Bytes) :
    sequenceAt (String.utf8EncodeChar c ++ rest) = (String.utf8EncodeChar c).length := by
  have valid := c.valid
  unfold UInt32.isValidChar Nat.isValidChar at valid
  unfold String.utf8EncodeChar
  dsimp only
  generalize c.val.toNat = v at valid ⊢
  split_ifs with one two three
  · have small : UInt8.ofNat v < 0x80 := by
      rw [UInt8.lt_iff_toNat_lt]
      simp
      omega
    rw [List.cons_append, sequenceAt, if_pos small]
    rfl
  · obtain ⟨wide, lead⟩ := lead_two (k := v / 64 % 0x20) (by omega)
    rw [List.cons_append, sequenceAt, if_neg wide, lead]
    simp only [List.cons_append, List.nil_append, List.length_cons]
    rw [if_neg (by omega), continued_encode _ _ (by omega), continued]
    simp only
    rw [if_neg (by omega), if_neg (by omega), if_neg (by omega)]
    rfl
  · obtain ⟨wide, lead⟩ := lead_three (k := v / 4096 % 0x10) (by omega)
    rw [List.cons_append, sequenceAt, if_neg wide, lead]
    simp only [List.cons_append, List.nil_append, List.length_cons]
    rw [if_neg (by omega), continued_encode _ _ (by omega), continued_encode _ _ (by omega),
      continued]
    simp only
    rw [if_neg (by omega), if_neg (by omega), if_neg (by omega)]
    rfl
  · obtain ⟨wide, lead⟩ := lead_four (k := v / 262144 % 0x08) (by omega)
    rw [List.cons_append, sequenceAt, if_neg wide, lead]
    simp only [List.cons_append, List.nil_append, List.length_cons]
    rw [if_neg (by omega), continued_encode _ _ (by omega), continued_encode _ _ (by omega),
      continued_encode _ _ (by omega), continued]
    simp only
    rw [if_neg (by omega), if_neg (by omega), if_neg (by omega)]
    rfl

/-! ## The scan -/

theorem malformed_nil (i : Nat) : firstMalformedFrom i [] = -1 := by
  rw [firstMalformedFrom]
  simp

theorem malformed_here {rest : Bytes} (i : Nat) (more : rest ≠ []) (bad : sequenceAt rest = 0) :
    firstMalformedFrom i rest = i := by
  rw [firstMalformedFrom, dif_pos more, dif_pos bad]

theorem malformed_char (i : Nat) (c : Char) (rest : Bytes) :
    firstMalformedFrom i (String.utf8EncodeChar c ++ rest) =
      firstMalformedFrom (i + (String.utf8EncodeChar c).length) rest := by
  have accepted := sequence_complete c rest
  have some_bytes := List.length_pos_iff.mpr (encode_ne_nil c)
  rw [firstMalformedFrom, dif_pos (by simp), dif_neg (by omega), accepted,
    List.drop_left]

theorem lenient_nil : lenientFrom [] = [] := by
  rw [lenientFrom]

theorem lenient_malformed {b : UInt8} {rest : Bytes} (bad : sequenceAt (b :: rest) = 0) :
    lenientFrom (b :: rest) = replacement ++ lenientFrom rest := by
  rw [lenientFrom, dif_pos bad]

theorem lenient_char (c : Char) (rest : Bytes) :
    lenientFrom (String.utf8EncodeChar c ++ rest) =
      String.utf8EncodeChar c ++ lenientFrom rest := by
  have accepted := sequence_complete c rest
  obtain ⟨lead, more, shape, -, -⟩ := encode_shape c
  rw [shape, List.cons_append] at accepted ⊢
  have length : (lead :: more).length ≠ 0 := by simp
  rw [lenientFrom, dif_neg (by omega), accepted, ← List.cons_append, List.take_left,
    List.drop_left]

/-- A byte string is empty, begins with a character, or begins with a malformed byte. -/
theorem scan_cases (bytes : Bytes) :
    bytes = [] ∨ (∃ c rest, bytes = String.utf8EncodeChar c ++ rest) ∨
      ∃ b rest, bytes = b :: rest ∧ sequenceAt (b :: rest) = 0 := by
  cases bytes with
  | nil => exact Or.inl rfl
  | cons b rest =>
      by_cases bad : sequenceAt (b :: rest) = 0
      · exact Or.inr (Or.inr ⟨b, rest, rfl, bad⟩)
      · obtain ⟨c, -, split⟩ := sequence_sound bad
        exact Or.inr (Or.inl ⟨c, _, split⟩)

theorem not_well_formed_of_malformed {b : UInt8} {rest : Bytes}
    (bad : sequenceAt (b :: rest) = 0) {n : Nat} (some_bytes : 0 < n) :
    ¬WellFormed ((b :: rest).take n) := by
  rintro ⟨text, split⟩
  cases text with
  | nil =>
      have length := congrArg List.length split
      simp only [List.length_take, List.length_cons, List.flatMap_nil, List.length_nil] at length
      omega
  | cons c text =>
      have whole := List.take_append_drop n (b :: rest)
      rw [split, List.flatMap_cons, List.append_assoc] at whole
      have accepted := sequence_complete c (text.flatMap String.utf8EncodeChar ++ (b :: rest).drop n)
      rw [whole, bad] at accepted
      exact encode_ne_nil c (List.length_eq_zero_iff.mp accepted.symm)


/-- The scan ends at the end of the text, or behind its longest well-formed beginning. -/
theorem scan_result (bytes : Bytes) :
    ∀ i, (WellFormed bytes ∧ firstMalformedFrom i bytes = -1) ∨
      ∃ k < bytes.length, firstMalformedFrom i bytes = (i + k : Nat) ∧
        WellFormed (bytes.take k) ∧ ∀ n, k < n → ¬WellFormed (bytes.take n) := by
  induction length : bytes.length using Nat.strong_induction_on generalizing bytes with
  | _ size ih =>
      subst length
      intro i
      rcases scan_cases bytes with rfl | ⟨c, rest, rfl⟩ | ⟨b, rest, rfl, bad⟩
      · exact Or.inl ⟨well_formed_nil, malformed_nil i⟩
      · have some_bytes := List.length_pos_iff.mpr (encode_ne_nil c)
        rw [malformed_char]
        rcases ih rest.length (by rw [List.length_append]; omega) rest rfl
            (i + (String.utf8EncodeChar c).length) with
          ⟨well, found⟩ | ⟨k, inside, found, well, longest⟩
        · exact Or.inl ⟨well_formed_cons c well, found⟩
        · refine Or.inr ⟨(String.utf8EncodeChar c).length + k, ?_, ?_, ?_, ?_⟩
          · rw [List.length_append]
            omega
          · rw [found, Nat.add_assoc]
          · rw [List.take_length_add_append]
            exact well_formed_cons c well
          · intro n more whole
            obtain ⟨m, rfl⟩ := Nat.exists_eq_add_of_le
              (show (String.utf8EncodeChar c).length ≤ n by omega)
            rw [List.take_length_add_append, well_formed_append_iff (well_formed_char c)] at whole
            exact longest m (by omega) whole
      · refine Or.inr ⟨0, by simp, ?_, by simpa using well_formed_nil, fun n more => ?_⟩
        · rw [malformed_here i (List.cons_ne_nil b rest) bad, Nat.add_zero]
        · exact not_well_formed_of_malformed bad more

theorem not_malformed_iff (s : Bytes) : firstMalformedUTF8 s = -1 ↔ WellFormed s := by
  rcases scan_result s 0 with ⟨well, found⟩ | ⟨k, inside, found, -, longest⟩
  · exact iff_of_true found well
  · refine iff_of_false ?_ fun well => ?_
    · rw [firstMalformedUTF8, found]
      omega
    · have whole := longest s.length inside
      rw [List.take_length] at whole
      exact whole well

/-! ## The replacement of malformed bytes -/

theorem replacement_well_formed : WellFormed replacement := ⟨['\uFFFD'], by decide⟩

theorem lenient_of_well_formed {s : Bytes} (well : WellFormed s) : lenientFrom s = s := by
  obtain ⟨text, rfl⟩ := well
  induction text with
  | nil => exact lenient_nil
  | cons c text ih => rw [List.flatMap_cons, lenient_char, ih]

theorem lenient_well_formed (s : Bytes) : WellFormed (lenientFrom s) := by
  induction length : s.length using Nat.strong_induction_on generalizing s with
  | _ size ih =>
      subst length
      rcases scan_cases s with rfl | ⟨c, rest, rfl⟩ | ⟨b, rest, rfl, bad⟩
      · rw [lenient_nil]
        exact well_formed_nil
      · have some_bytes := List.length_pos_iff.mpr (encode_ne_nil c)
        rw [lenient_char]
        exact well_formed_cons c (ih rest.length (by rw [List.length_append]; omega) rest rfl)
      · rw [lenient_malformed bad]
        exact replacement_well_formed.append (ih rest.length (by simp) rest rfl)

/-- The shortcut for a well-formed text changes nothing. -/
theorem lenient_eq (s : Bytes) : lenientUTF8 s = lenientFrom s := by
  unfold lenientUTF8
  split_ifs with good
  · rcases scan_result s 0 with ⟨well, -⟩ | ⟨k, -, found, -, -⟩
    · exact (lenient_of_well_formed well).symm
    · rw [firstMalformedUTF8, found] at good
      omega
  · rfl

/-- What comes before a character is malformed or not without it. -/
theorem malformed_before (c : Char) {b : UInt8} {before after : Bytes}
    (bad : sequenceAt (b :: before) = 0) :
    sequenceAt (b :: (before ++ (String.utf8EncodeChar c ++ after))) = 0 := by
  by_contra good
  obtain ⟨d, -, split⟩ := sequence_sound good
  obtain ⟨first, inner, shape, starts, -⟩ := encode_shape c
  obtain ⟨lead, tail, shape', -, inside⟩ := encode_shape d
  generalize List.drop (sequenceAt (b :: (before ++ (String.utf8EncodeChar c ++ after)))) _ =
    rest at split
  rw [shape'] at split
  obtain ⟨rfl, same⟩ : b = lead ∧ before ++ (String.utf8EncodeChar c ++ after) = tail ++ rest := by
    simpa using split
  rcases List.append_eq_append_iff.mp same with ⟨middle, beyond, -⟩ | ⟨middle, within, -⟩
  · -- the character would lie inside the encoding of `d`
    cases middle with
    | nil =>
        rw [List.append_nil] at beyond
        have complete := sequence_complete d []
        rw [List.append_nil, shape', beyond, bad] at complete
        cases complete
    | cons x middle =>
        have behind : first :: (inner ++ after) = x :: (middle ++ rest) := by
          rw [beyond, shape, List.append_assoc] at same
          exact List.append_cancel_left same
        have here : x = first := (List.cons.inj behind).1.symm
        have member : x ∈ tail := by
          rw [beyond]
          simp
        rw [here] at member
        rw [inside first member] at starts
        cases starts
  · have complete := sequence_complete d middle
    rw [shape', List.cons_append, ← within, bad] at complete
    cases complete

/-- A character is kept wherever it stands, and what is around it is repaired alone. -/
theorem lenient_around (c : Char) (before after : Bytes) :
    lenientFrom (before ++ (String.utf8EncodeChar c ++ after)) =
      lenientFrom before ++ (String.utf8EncodeChar c ++ lenientFrom after) := by
  induction length : before.length using Nat.strong_induction_on generalizing before with
  | _ size ih =>
      subst length
      rcases scan_cases before with rfl | ⟨d, rest, rfl⟩ | ⟨b, rest, rfl, bad⟩
      · rw [List.nil_append, lenient_char, lenient_nil, List.nil_append]
      · have some_bytes := List.length_pos_iff.mpr (encode_ne_nil d)
        rw [List.append_assoc, lenient_char, lenient_char, List.append_assoc,
          ih rest.length (by rw [List.length_append]; omega) rest rfl]
      · rw [List.cons_append, lenient_malformed (malformed_before c bad), lenient_malformed bad,
          List.append_assoc, ih rest.length (by simp) rest rfl]

/-- Validation finds the longest well-formed beginning. The repaired text is well formed and
keeps every character of the original between the repairs of what stands around it. -/
theorem utf8_validation (s : Bytes) :
    (firstMalformedUTF8 s = -1 ↔ WellFormed s) ∧
      (¬WellFormed s → ∃ k : Nat, firstMalformedUTF8 s = k ∧
        IsGreatest {n | n ≤ s.length ∧ WellFormed (s.take n)} k) ∧
      WellFormed (lenientUTF8 s) ∧
      (WellFormed s → lenientUTF8 s = s) ∧
      lenientUTF8 (lenientUTF8 s) = lenientUTF8 s ∧
      ∀ before c after, s = before ++ (String.utf8EncodeChar c ++ after) →
        lenientUTF8 s = lenientUTF8 before ++ (String.utf8EncodeChar c ++ lenientUTF8 after) := by
  refine ⟨not_malformed_iff s, ?_, ?_, ?_, ?_, ?_⟩
  · intro ill
    rcases scan_result s 0 with ⟨well, -⟩ | ⟨k, inside, found, well, longest⟩
    · exact absurd well ill
    · refine ⟨k, by rw [firstMalformedUTF8, found, Nat.zero_add], ⟨Nat.le_of_lt inside, well⟩, ?_⟩
      rintro n ⟨-, other⟩
      by_contra more
      exact longest n (not_le.mp more) other
  · rw [lenient_eq]
    exact lenient_well_formed s
  · intro well
    rw [lenient_eq]
    exact lenient_of_well_formed well
  · rw [lenient_eq (lenientUTF8 s)]
    refine lenient_of_well_formed ?_
    rw [lenient_eq]
    exact lenient_well_formed s
  · rintro before c after rfl
    rw [lenient_eq, lenient_eq, lenient_eq]
    exact lenient_around c before after

end ProtoScala.Runtime.Utf8Validation
