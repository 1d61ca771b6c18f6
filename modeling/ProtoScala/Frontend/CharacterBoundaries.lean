import ProtoScala.Frontend.LexerRuns
import ProtoScala.Library.Utf8
import Mathlib.Data.List.TakeWhile

/-!
# Tokens end between characters

On well-formed UTF-8 every scanner that makes a token leaves well-formed UTF-8
behind: it ends behind a byte below 0x80, at the end of a run of such bytes, or
behind characters it has decoded.
-/

namespace ProtoScala.Frontend.CharacterBoundaries

open ProtoScala.Library.Utf8
open ProtoScala.Frontend.Lexer
open ProtoScala.Frontend.Lexer.Cursor
open ProtoScala.Frontend.LexerRuns
open ProtoScala.Frontend.Layout (SourcePos TokenKind)

set_option autoImplicit false

/-- A property of bytes that holds of all 256. -/
theorem byte_cases {p : UInt8 → Prop} (all : ∀ n : Fin 256, p (.ofFin n)) (b : UInt8) :
    p b := by
  have here := all b.toFin
  rwa [UInt8.ofFin_toFin] at here

/-- What the masks of the decoder say about a byte. -/
theorem masked_bits : ∀ b : UInt8,
    (b &&& 0xC0 = 0x80 →
      0x80 ≤ b.toNat ∧ b.toNat < 0xC0 ∧ (b &&& 0x3F).toNat = b.toNat - 0x80) ∧
    (b &&& 0xE0 = 0xC0 →
      0xC0 ≤ b.toNat ∧ b.toNat < 0xE0 ∧ (b &&& 0x1F).toNat = b.toNat - 0xC0) ∧
    (b &&& 0xF0 = 0xE0 →
      0xE0 ≤ b.toNat ∧ b.toNat < 0xF0 ∧ (b &&& 0x0F).toNat = b.toNat - 0xE0) ∧
    (b &&& 0xF8 = 0xF0 →
      0xF0 ≤ b.toNat ∧ b.toNat < 0xF8 ∧ (b &&& 0x07).toNat = b.toNat - 0xF0) :=
  byte_cases (by decide +kernel)

theorem shifted_in (value : Nat) {bits : Nat} (small : bits < 64) :
    (value <<< 6) ||| bits = value * 64 + bits := by
  rw [← Nat.shiftLeft_add_eq_or_of_lt (i := 6) small, Nat.shiftLeft_eq]

/-- One continuation byte. -/
theorem continued_succ {value count result : Nat} {bytes : Bytes}
    (read : continued value (count + 1) bytes = some result) :
    ∃ b rest, bytes = b :: rest ∧ 0x80 ≤ b.toNat ∧ b.toNat < 0xC0 ∧
      continued (value * 64 + (b.toNat - 0x80)) count rest = some result := by
  cases bytes with
  | nil => cases read
  | cons b rest =>
      rw [continued] at read
      split_ifs at read with bits
      rw [not_not] at bits
      obtain ⟨low, high, payload⟩ := (masked_bits b).1 bits
      rw [payload, shifted_in value (by omega)] at read
      exact ⟨b, rest, rfl, low, high, read⟩

theorem char_of_scalar {n : Nat} (small : n ≤ 0x10FFFF)
    (scalar : ¬(n ≥ 0xD800 ∧ n ≤ 0xDFFF)) : (Char.ofNat n).toNat = n := by
  have valid : n.isValidChar := by
    unfold Nat.isValidChar
    omega
  rw [Char.ofNat, dif_pos valid]
  rfl

theorem of_nat_byte {n : Nat} {b : UInt8} (same : n = b.toNat) : UInt8.ofNat n = b := by
  rw [same, UInt8.ofNat_toNat]

/-- What the decoder accepts is the encoding of one character. -/
theorem decode_utf8_sound {bytes : Bytes} {len cp : Nat} (read : decodeUtf8 bytes = some (len, cp)) :
    ∃ c : Char, c.toNat = cp ∧ (String.utf8EncodeChar c).length = len ∧
      bytes = String.utf8EncodeChar c ++ bytes.drop len := by
  cases bytes with
  | nil => cases read
  | cons b0 rest =>
      rw [decodeUtf8] at read
      split_ifs at read with ascii
      · cases read
        have small : b0.toNat < 0x80 := UInt8.lt_iff_toNat_lt.mp ascii
        have nat := char_of_scalar (n := b0.toNat) (by omega) (by omega)
        have encoded := encode_ascii (c := Char.ofNat b0.toNat) (by omega)
        rw [nat] at encoded
        exact ⟨Char.ofNat b0.toNat, nat, by rw [encoded]; rfl, by rw [encoded]; simp⟩
      · split at read
        · cases read
        · next len' payload minimum lead =>
            split at read
            · cases read
            · next value body =>
                split_ifs at read with refused
                push Not at refused
                simp only [Option.some.injEq, Prod.mk.injEq] at read
                obtain ⟨rfl, rfl⟩ := read
                obtain ⟨least, most, scalar⟩ := refused
                have nat := char_of_scalar most (fun between => by have := scalar between.1; omega)
                refine ⟨Char.ofNat value, nat, ?_⟩
                have val : (Char.ofNat value).val.toNat = value := nat
                unfold leadByte at lead
                unfold String.utf8EncodeChar
                dsimp only
                rw [val]
                split_ifs at lead with two three four
                · cases lead
                  obtain ⟨low, high, bits⟩ := (masked_bits b0).2.1 two
                  rw [bits] at body
                  obtain ⟨b1, rest, rfl, low1, high1, done⟩ := continued_succ body
                  obtain rfl := Option.some.inj done
                  rw [if_neg (by omega), if_pos (by omega), of_nat_byte (b := b0) (by omega),
                    of_nat_byte (b := b1) (by omega)]
                  exact ⟨rfl, rfl⟩
                · cases lead
                  obtain ⟨low, high, bits⟩ := (masked_bits b0).2.2.1 three
                  rw [bits] at body
                  obtain ⟨b1, rest, rfl, low1, high1, more⟩ := continued_succ body
                  obtain ⟨b2, rest, rfl, low2, high2, done⟩ := continued_succ more
                  obtain rfl := Option.some.inj done
                  rw [if_neg (by omega), if_neg (by omega), if_pos (by omega),
                    of_nat_byte (b := b0) (by omega), of_nat_byte (b := b1) (by omega),
                    of_nat_byte (b := b2) (by omega)]
                  exact ⟨rfl, rfl⟩
                · cases lead
                  obtain ⟨low, high, bits⟩ := (masked_bits b0).2.2.2 four
                  rw [bits] at body
                  obtain ⟨b1, rest, rfl, low1, high1, more⟩ := continued_succ body
                  obtain ⟨b2, rest, rfl, low2, high2, most⟩ := continued_succ more
                  obtain ⟨b3, rest, rfl, low3, high3, done⟩ := continued_succ most
                  obtain rfl := Option.some.inj done
                  rw [if_neg (by omega), if_neg (by omega), if_neg (by omega),
                    of_nat_byte (b := b0) (by omega), of_nat_byte (b := b1) (by omega),
                    of_nat_byte (b := b2) (by omega), of_nat_byte (b := b3) (by omega)]
                  exact ⟨rfl, rfl⟩

/-- What is left is well-formed UTF-8. -/
def Whole (s : Cursor) : Prop := WellFormed s.rest

/-- The later cursor stands right behind a byte below 0x80. -/
def Behind (s s' : Cursor) : Prop :=
  ∃ m, Reaches s m ∧ m.eof = false ∧ m.cur < 0x80 ∧ s' = m.advance

theorem Behind.reaches {s s' : Cursor} (behind : Behind s s') : Reaches s s' := by
  obtain ⟨m, reaches, -, -, rfl⟩ := behind
  exact reaches.trans (.past m 1)

theorem Behind.of_reaches {s s' s'' : Cursor} (reaches : Reaches s s') (behind : Behind s' s'') :
    Behind s s'' := by
  obtain ⟨m, further, rest⟩ := behind
  exact ⟨m, reaches.trans further, rest⟩

theorem behind_advance {s : Cursor} (more : s.eof = false) (ascii : s.cur < 0x80) :
    Behind s s.advance := ⟨s, .refl s, more, ascii, rfl⟩

theorem rest_of_cur {s : Cursor} (more : s.eof = false) : s.rest = s.cur :: s.advance.rest := by
  cases rest : s.rest with
  | nil => simp [eof, rest] at more
  | cons c tail => simp [cur, advance, past, rest]

theorem Whole.behind {s s' : Cursor} (whole : Whole s) (behind : Behind s s') : Whole s' := by
  obtain ⟨m, ⟨count, rfl⟩, more, ascii, rfl⟩ := behind
  have split : s.rest = s.rest.take count ++ (s.past count).cur :: (s.past count).advance.rest := by
    rw [← rest_of_cur more]
    exact (List.take_append_drop count s.rest).symm
  unfold Whole at whole
  rw [split] at whole
  exact (whole.split_ascii ascii).2

/-- A run of bytes below 0x80 that is not empty. -/
theorem behind_run {s : Cursor} {p : UInt8 → Bool} (ascii : ∀ c, p c = true → c < 0x80)
    (positive : 0 < (s.rest.takeWhile p).length) :
    Behind s (s.past (s.rest.takeWhile p).length) := by
  set count := (s.rest.takeWhile p).length with countEq
  have inside : count - 1 < (s.rest.takeWhile p).length := by omega
  have within : count - 1 < s.rest.length :=
    Nat.lt_of_lt_of_le inside (List.takeWhile_prefix p).length_le
  have member : s.rest[count - 1] ∈ s.rest.takeWhile p := by
    rw [← (List.takeWhile_prefix p).getElem inside]
    exact List.getElem_mem _
  have last : (s.past (count - 1)).rest = s.rest[count - 1] :: s.rest.drop count := by
    change s.rest.drop (count - 1) = _
    rw [List.drop_eq_getElem_cons within, Nat.sub_add_cancel positive]
  refine ⟨s.past (count - 1), .past s _, ?_, ?_, ?_⟩
  · simp [eof, last]
  · have head : (s.past (count - 1)).cur = s.rest[count - 1] := by simp [cur, last]
    rw [head]
    exact ascii _ (List.mem_takeWhile_imp member)
  · change s.past count = (s.past (count - 1)).past 1
    rw [past_past, Nat.sub_add_cancel positive]

theorem Whole.run {s : Cursor} {p : UInt8 → Bool} (whole : Whole s)
    (ascii : ∀ c, p c = true → c < 0x80) : Whole (s.past (s.rest.takeWhile p).length) := by
  rcases Nat.eq_zero_or_pos (s.rest.takeWhile p).length with none | positive
  · rw [none, past_zero]
    exact whole
  · exact whole.behind (behind_run ascii positive)

/-- A run that ends before a byte below 0x80 or with the text. -/
theorem Whole.until {s : Cursor} {p : UInt8 → Bool} (whole : Whole s)
    (ascii : ∀ c, p c = false → c < 0x80) : Whole (s.skipWhile p) := by
  have split := List.takeWhile_append_dropWhile (p := p) (l := s.rest)
  have rest : (s.skipWhile p).rest = s.rest.dropWhile p := by
    change s.rest.drop (s.rest.takeWhile p).length = _
    conv_lhs => arg 2; rw [← split]
    exact List.drop_left
  unfold Whole
  rw [rest]
  cases behind : s.rest.dropWhile p with
  | nil => exact well_formed_nil
  | cons c tail =>
      have stops : p c = false := by
        have head := List.head?_dropWhile_not p s.rest
        simpa [behind] using head
      have small := ascii c stops
      unfold Whole at whole
      rw [← split, behind] at whole
      exact (well_formed_ascii small).append (whole.split_ascii small).2

/-- An identifier character is one byte below 0x80 or a decoded character. -/
theorem Whole.ident {s : Cursor} (whole : Whole s) (some : identCharLength s.rest ≠ 0) :
    Whole (s.past (identCharLength s.rest)) := by
  have more : s.eof = false := by
    cases rest : s.rest with
    | nil => exact absurd rest (ident_char_length_le _ some)
    | cons c tail => simp [eof, rest]
  generalize length : identCharLength s.rest = len at some
  unfold identCharLength at length
  rw [rest_of_cur more] at length
  dsimp only at length
  rw [← rest_of_cur more] at length
  split_ifs at length with ascii ident
  · rw [← length]
    exact whole.behind (behind_advance more ascii)
  · exact absurd length.symm some
  · split at length
    · exact absurd length.symm some
    · next len' cp read =>
        split_ifs at length with letter
        · obtain ⟨c, -, -, encoded⟩ := decode_utf8_sound read
          unfold Whole at whole
          rw [encoded, length] at whole
          exact (well_formed_char c).of_append whole
        · exact absurd length.symm some

theorem op_char_ascii (c : UInt8) (operator : isOpChar c = true) : c < 0x80 := by
  simp only [isOpChar, Bool.or_eq_true, beq_iff_eq, or_assoc] at operator
  rcases operator with rfl | rfl | rfl | rfl | rfl | rfl | rfl | rfl | rfl | rfl | rfl | rfl | rfl |
    rfl | rfl | rfl | rfl | rfl <;> decide

theorem hex_digit_ascii (c : UInt8) (belongs : (isHexDigit c || c == byte '_') = true) :
    c < 0x80 := by
  simp only [isHexDigit, isDigit, Bool.or_eq_true, Bool.and_eq_true, decide_eq_true_eq,
    beq_iff_eq] at belongs
  rcases belongs with ((digit | lower) | upper) | rfl
  · exact UInt8.lt_of_le_of_lt digit.2 (by decide)
  · exact UInt8.lt_of_le_of_lt lower.2 (by decide)
  · exact UInt8.lt_of_le_of_lt upper.2 (by decide)
  · decide

theorem base_digit_hex (base : Nat) :
    ∀ c, (isBaseDigit base c || c == byte '_') = true → (isHexDigit c || c == byte '_') = true := by
  intro c belongs
  unfold isBaseDigit at belongs
  split_ifs at belongs
  · exact belongs
  · simp only [Bool.or_eq_true, beq_iff_eq] at belongs
    rcases belongs with (rfl | rfl) | rfl <;> decide
  · simp only [Bool.or_eq_true, isHexDigit] at belongs ⊢
    exact belongs.imp (fun digit => .inl (.inl digit)) id

theorem base_digit_ascii (base : Nat) (c : UInt8)
    (belongs : (isBaseDigit base c || c == byte '_') = true) : c < 0x80 :=
  hex_digit_ascii c (base_digit_hex base c belongs)

theorem blank_ascii (c : UInt8) (blank : isBlank c = true) : c < 0x80 := by
  simp only [isBlank, Bool.or_eq_true, beq_iff_eq] at blank
  rcases blank with ((rfl | rfl) | rfl) | rfl <;> decide

theorem float_suffix_ascii (c : UInt8) (suffix : isFloatSuffix c = true) : c < 0x80 := by
  simp only [isFloatSuffix, Bool.or_eq_true, beq_iff_eq] at suffix
  rcases suffix with ((rfl | rfl) | rfl) | rfl <;> decide

theorem long_suffix_ascii (c : UInt8) (suffix : isLongSuffix c = true) : c < 0x80 := by
  simp only [isLongSuffix, Bool.or_eq_true, beq_iff_eq] at suffix
  rcases suffix with rfl | rfl <;> decide

/-- A block comment ends behind its last slash. -/
theorem comment_ends {depth length : Nat} {bytes : Bytes}
    (closed : commentLength depth bytes = some length) :
    ∃ inside, bytes.take length = inside ++ [byte '/'] ∧ length ≤ bytes.length := by
  fun_induction commentLength depth bytes generalizing length with
  | case1 => cases closed
  | case2 => cases closed
  | case3 depth c d rest _ induction =>
      obtain ⟨shorter, found, rfl⟩ := Option.map_eq_some_iff.mp closed
      obtain ⟨inside, text, within⟩ := induction found
      exact ⟨c :: d :: inside, by simp [text], by simpa using within⟩
  | case4 c d rest _ close =>
      obtain rfl := Option.some.inj closed
      exact ⟨[c], by simp [close.2], by simp⟩
  | case5 depth c d rest _ _ _ induction =>
      obtain ⟨shorter, found, rfl⟩ := Option.map_eq_some_iff.mp closed
      obtain ⟨inside, text, within⟩ := induction found
      exact ⟨c :: d :: inside, by simp [text], by simpa using within⟩
  | case6 depth c d rest _ _ induction =>
      obtain ⟨shorter, found, rfl⟩ := Option.map_eq_some_iff.mp closed
      obtain ⟨inside, text, within⟩ := induction found
      exact ⟨c :: inside, by rw [List.take_succ_cons, text]; rfl, by simpa using within⟩

theorem Whole.comment {s : Cursor} {length : Nat} (whole : Whole s)
    (closed : commentLength 1 (s.rest.drop 2) = some length) : Whole (s.past (length + 2)) := by
  obtain ⟨inside, text, -⟩ := comment_ends closed
  have split : s.rest = (s.rest.take 2 ++ inside) ++ byte '/' :: s.rest.drop (length + 2) := by
    conv_lhs => rw [← List.take_append_drop 2 s.rest, ← List.take_append_drop length (s.rest.drop 2),
      text, List.drop_drop]
    rw [Nat.add_comm 2 length]
    simp
  unfold Whole at whole
  rw [split] at whole
  exact (whole.split_ascii (by decide)).2

theorem skip_trivia_whole {s s' : Cursor} (whole : Whole s) (read : skipTrivia s = (s', none)) :
    Whole s' := by
  fun_induction skipTrivia s with
  | case1 s =>
      cases read
      exact whole
  | case2 s more blank induction =>
      exact induction (whole.behind (behind_advance (by simpa using more) (blank_ascii _ blank))) read
  | case3 s _ _ _ induction =>
      refine induction (whole.until ?_) read
      intro c stops
      obtain rfl : c = byte '\n' := by simpa using stops
      decide
  | case4 s => cases read
  | case5 s _ _ _ _ length closed induction => exact induction (whole.comment closed) read
  | case6 s =>
      cases read
      exact whole

theorem operator_text_whole {s : Cursor} (text : Bytes) (whole : Whole s) :
    Whole (operatorText s text).2 := by
  fun_induction operatorText s text with
  | case1 s => exact whole
  | case2 s => exact whole
  | case3 s => exact whole
  | case4 s text more operator _ induction =>
      exact induction (whole.behind (behind_advance (by simpa using more)
        (op_char_ascii _ (by simpa using operator))))

theorem identifier_text_whole {s : Cursor} (text : Bytes) (lastWasUnderscore : Bool)
    (whole : Whole s) : Whole (identifierText s text lastWasUnderscore).2 := by
  fun_induction identifierText s text lastWasUnderscore with
  | case1 s => exact whole
  | case2 s => exact whole.run op_char_ascii
  | case3 s => exact whole
  | case4 s text _ _ _ len some induction => exact induction (whole.ident some)

theorem hole_name_whole {s : Cursor} (name : Bytes) (whole : Whole s) :
    Whole (holeName s name).2 := by
  fun_induction holeName s name with
  | case1 s => exact whole
  | case2 s => exact whole
  | case3 s name _ len some induction =>
      have ident : len = identCharLength s.rest := by
        change holeIdentCharLength s.rest = _
        change holeIdentCharLength s.rest ≠ 0 at some
        unfold holeIdentCharLength at some ⊢
        split_ifs at some ⊢
        · exact absurd rfl some
        · rfl
      have character : Whole (s.past (identCharLength s.rest)) :=
        whole.ident (by rw [← ident]; exact some)
      rw [← ident] at character
      exact induction character

/-- One byte of the grammar of numbers. -/
theorem Whole.ascii {s : Cursor} {c : UInt8} (whole : Whole s) (here : s.cur = c) (some : c ≠ 0)
    (ascii : c < 0x80) : Whole s.advance := by
  have more : s.eof = false := some_of_cur (by rw [here]; exact some)
  exact whole.behind (behind_advance more (by rw [here]; exact ascii))

theorem cur_advance (s : Cursor) : s.advance.cur = s.peekChar 1 := by
  simp [cur, peekChar, advance, past, List.getD_eq_getElem?_getD]

theorem Whole.twice {s : Cursor} {c d : UInt8} (whole : Whole s) (here : s.cur = c)
    (after : s.peekChar 1 = d) (some : c ≠ 0) (ascii : c < 0x80) (second : d ≠ 0)
    (asciiSecond : d < 0x80) : Whole (s.past 2) := by
  have both : s.past 2 = s.advance.advance := (past_past s 1 1).symm
  rw [both]
  exact (whole.ascii here some ascii).ascii ((cur_advance s).trans after) second asciiSecond

theorem digit_run_whole (base : Nat) {s : Cursor} (whole : Whole s) :
    Whole (digitRun (isBaseDigit base) s).2.2 := whole.run (base_digit_ascii base)

theorem decimal_run_whole {s : Cursor} (whole : Whole s) : Whole (digitRun isDigit s).2.2 :=
  digit_run_whole 10 whole

theorem fraction_part_whole {s : Cursor} (n : Numeral) (whole : Whole s) :
    Whole (fractionPart s n).1 := by
  unfold fractionPart
  split_ifs with point
  · exact decimal_run_whole (whole.ascii point.1 (by decide) (by decide))
  · exact whole

theorem exponent_part_whole {s : Cursor} (n : Numeral) (whole : Whole s) :
    Whole (exponentPart s n).1 := by
  unfold exponentPart
  dsimp only
  by_cases marked : s.cur = byte 'e' ∨ s.cur = byte 'E'
  · have marker : Whole s.advance := by
      rcases marked with e | e
      · exact whole.ascii e (by decide) (by decide)
      · exact whole.ascii e (by decide) (by decide)
    have signed : (s.peekChar 1 == byte '+' || s.peekChar 1 == byte '-') = true →
        Whole (s.past (1 + [s.peekChar 1].length)) := by
      intro sign
      have here := cur_advance s
      have both : s.past (1 + [s.peekChar 1].length) = s.advance.advance := (past_past s 1 1).symm
      simp only [Bool.or_eq_true, beq_iff_eq] at sign
      rw [both]
      rcases sign with sign | sign
      · exact marker.ascii (here.trans sign) (by decide) (by decide)
      · exact marker.ascii (here.trans sign) (by decide) (by decide)
    rw [if_pos marked]
    split_ifs with sign
    all_goals first
      | exact whole
      | exact decimal_run_whole (signed sign)
      | exact decimal_run_whole marker
  · rw [if_neg marked]
    exact whole

theorem decimal_parts_whole {s : Cursor} (n : Numeral) (whole : Whole s) :
    Whole (decimalParts s n).1 := by
  have fraction := fraction_part_whole n whole
  unfold decimalParts
  split
  · next stopped equation => rwa [equation] at fraction
  · next read more equation =>
      rw [equation] at fraction
      have exponent := exponent_part_whole more fraction
      split
      · next stopped equation => rwa [equation] at exponent
      · next after most equation =>
          rw [equation] at exponent
          split_ifs with suffix
          · refine exponent.behind (behind_advance (some_of_cur ?_) ?_)
            · rintro none
              rw [none] at suffix
              cases suffix
            · exact float_suffix_ascii _ suffix
          · exact exponent

theorem lex_digits_whole {lex : LexerState} {start : SourcePos} {base : Nat} {s : Cursor}
    (whole : Whole s) (fine : (lexDigits lex start base s).1.kind ≠ .error) :
    Whole (lexDigits lex start base s).2.cursor := by
  have run := digit_run_whole base whole
  unfold lexDigits at fine ⊢
  dsimp only at fine ⊢
  split at fine
  · exact absurd rfl fine
  · next ended =>
      rw [if_neg ended]
      have parts : Whole (if base = 10 then
          decimalParts (digitRun (isBaseDigit base) s).2.2 ⟨(digitRun (isBaseDigit base) s).1, false⟩
        else ((digitRun (isBaseDigit base) s).2.2,
          some ⟨(digitRun (isBaseDigit base) s).1, false⟩)).1 := by
        split_ifs
        · exact decimal_parts_whole _ run
        · exact run
      split at fine
      · exact absurd rfl fine
      · next read n equation =>
          rw [equation] at parts
          unfold finishNumber at fine ⊢
          dsimp only at fine ⊢
          have suffix : Whole (if (!n.isFloat && isLongSuffix read.cur) = true then read.advance
              else read) := by
            split_ifs with long
            · simp only [Bool.and_eq_true] at long
              refine parts.behind (behind_advance (some_of_cur ?_) ?_)
              · intro none
                rw [none] at long
                cases long.2
              · exact long_suffix_ascii _ long.2
            · exact parts
          generalize (if (!n.isFloat && isLongSuffix read.cur) = true then read.advance
            else read) = stopped at suffix fine ⊢
          split_ifs at fine ⊢ with malformed
          · exact absurd rfl fine
          · exact suffix

theorem lex_number_whole {lex : LexerState} (whole : Whole lex.cursor)
    (fine : (lexNumber lex).1.kind ≠ .error) : Whole (lexNumber lex).2.cursor := by
  have based : ∀ p : UInt8, p < 0x80 → p ≠ 0 → lex.cursor.cur = byte '0' →
      lex.cursor.peekChar 1 = p → Whole (lex.cursor.past 2) := by
    intro p ascii some zero second
    exact whole.twice zero second (by decide) (by decide) some ascii
  unfold lexNumber at fine ⊢
  dsimp only at fine ⊢
  split_ifs at fine ⊢ with hex binary
  · refine lex_digits_whole ?_ fine
    rcases hex.2 with x | x
    · exact based _ (by decide) (by decide) hex.1 x
    · exact based _ (by decide) (by decide) hex.1 x
  · refine lex_digits_whole ?_ fine
    rcases binary.2 with b | b
    · exact based _ (by decide) (by decide) binary.1 b
    · exact based _ (by decide) (by decide) binary.1 b
  · exact absurd rfl fine
  · exact lex_digits_whole whole fine

/-- A token that ends right behind a byte below 0x80. -/
theorem lex_backquoted_whole {lex : LexerState} (whole : Whole lex.cursor)
    (fine : (lexBackquoted lex).1.kind ≠ .error) : Whole (lexBackquoted lex).2.cursor := by
  unfold lexBackquoted at fine ⊢
  dsimp only at fine ⊢
  split at fine
  · exact absurd rfl fine
  · next closed =>
      rw [if_neg closed]
      simp only [Bool.or_eq_true, bne_iff_ne, ne_eq, not_or, not_not, Bool.not_eq_true] at closed
      have last := behind_advance closed.1.2 (by rw [closed.2]; decide)
      exact whole.behind (last.of_reaches ((Reaches.past _ 1).trans (.past _ _)))

theorem lex_char_whole {lex : LexerState} (whole : Whole lex.cursor)
    (fine : (lexChar lex).1.kind ≠ .error) : Whole (lexChar lex).2.cursor := by
  have character := literal_character_reaches lex.cursor.advance
  unfold lexChar at fine ⊢
  dsimp only at fine ⊢
  split at fine
  · exact absurd rfl fine
  · next opened =>
      rw [if_neg opened]
      split at fine
      · exact absurd rfl fine
      · next s cp equation =>
          rw [equation] at character
          split at fine
          · exact absurd rfl fine
          · next closed =>
              rw [if_neg closed]
              rw [not_not] at closed
              have last : Behind s s.advance := behind_advance
                (some_of_cur (by rw [closed]; decide)) (by rw [closed]; decide)
              exact whole.behind (last.of_reaches ((Reaches.past _ 1).trans character))

theorem quote_run_behind {s : Cursor} (more : s.eof = false) (quote : s.cur = byte '"') :
    Behind s (s.past (quoteRun s)) := by
  refine behind_run ?_ (quote_run_positive more quote)
  intro c isQuote
  obtain rfl : c = byte '"' := by simpa using isQuote
  decide

theorem quote_behind {s : Cursor} (more : s.eof = false) (quote : s.cur = byte '"') :
    Behind s s.advance := behind_advance more (by rw [quote]; decide)

theorem multi_line_text_behind {start : SourcePos} {s read : Cursor} {content value : Bytes}
    (closed : multiLineText start s content = (read, .ok value)) : Behind s read := by
  fun_induction multiLineText start s content with
  | case1 s => cases closed
  | case2 s content more quote run =>
      cases closed
      exact quote_run_behind (by simpa using more) quote
  | case3 s => cases closed
  | case4 s content _ _ run _ _ induction => exact (induction closed).of_reaches (.past s run)
  | case5 s content _ _ induction => exact (induction closed).of_reaches (.past s 1)

theorem single_line_text_behind {start : SourcePos} {s read : Cursor} {text value : Bytes}
    (closed : singleLineText start s text = (read, .ok value)) : Behind s read := by
  fun_induction singleLineText start s text with
  | case1 s => cases closed
  | case2 s => cases closed
  | case3 s text more _ quote =>
      cases closed
      exact quote_behind (by simpa using more) quote
  | case4 s => cases closed
  | case5 s text _ _ _ _ escaped longer equation induction =>
      have escape := read_escape_reaches s.advance text
      rw [equation] at escape
      exact (induction closed).of_reaches ((Reaches.past s 1).trans escape)
  | case6 s text _ _ _ _ induction => exact (induction closed).of_reaches (.past s 1)

theorem lex_string_behind {lex : LexerState} (fine : (lexString lex).1.kind ≠ .error) :
    Behind lex.cursor (lexString lex).2.cursor := by
  have opened : Reaches lex.cursor lex.cursor.advance := .past _ 1
  unfold lexString at fine ⊢
  dsimp only at fine ⊢
  split_ifs at fine ⊢
  · split at fine
    · exact absurd rfl fine
    · next equation =>
        exact (multi_line_text_behind equation).of_reaches (opened.trans (.past _ 2))
  · split at fine
    · exact absurd rfl fine
    · next equation =>
        exact (single_line_text_behind equation).of_reaches opened

theorem interpolated_text_behind {triple raw : Bool} {start : SourcePos} {s read : Cursor}
    {i result : Interpolation}
    (closed : interpolatedText triple raw start s i = (read, .ok result)) : Behind s read := by
  fun_induction interpolatedText triple raw start s i with
  | case1 s => cases closed
  | case2 s => cases closed
  | case3 s i more _ quote =>
      cases closed
      exact quote_run_behind (by simpa using more) quote
  | case4 s => cases closed
  | case5 s i _ _ _ _ run _ _ induction => exact (induction closed).of_reaches (.past s run)
  | case6 s i more _ quote =>
      cases closed
      exact quote_behind (by simpa using more) quote
  | case7 s i _ _ _ _ _ induction =>
      exact (induction closed).of_reaches ((Reaches.past s 1).trans (.past _ 1))
  | case8 s => cases closed
  | case9 s i _ _ _ _ _ behind longer equation induction =>
      have hole := interpolation_hole_reaches triple start s i
      rw [equation] at hole
      exact (induction closed).of_reaches ((Reaches.past s 1).trans hole)
  | case10 s => cases closed
  | case11 s i _ _ _ _ _ behind literal equation induction =>
      have escape := read_escape_reaches s.advance i.literal
      rw [equation] at escape
      exact (induction closed).of_reaches ((Reaches.past s 1).trans escape)
  | case12 s i _ _ _ _ _ induction => exact (induction closed).of_reaches (.past s 1)

theorem lex_interpolated_behind {lex : LexerState} {interpolator : Bytes} {start : SourcePos}
    (fine : (lexInterpolated lex interpolator start).1.kind ≠ .error) :
    Behind lex.cursor (lexInterpolated lex interpolator start).2.cursor := by
  have opened : Reaches lex.cursor lex.cursor.advance := .past _ 1
  unfold lexInterpolated at fine ⊢
  dsimp only at fine ⊢
  split at fine
  · exact absurd rfl fine
  · next read i equation =>
      have closed := interpolated_text_behind equation
      refine closed.of_reaches ?_
      split_ifs
      · exact opened.trans (.past _ 2)
      · exact opened

theorem hole_text_behind {triple : Bool} {start : SourcePos} {depth : Nat} {s read : Cursor}
    {text result : Bytes} (closed : holeText triple start depth s text = (read, .ok result)) :
    Behind s read := by
  fun_induction holeText triple start depth s text with
  | case1 depth s => cases closed
  | case2 depth s text _ _ induction => exact (induction closed).of_reaches (.past s 1)
  | case3 s text more _ brace =>
      cases closed
      exact behind_advance (by simpa using more) (by rw [brace]; decide)
  | case4 depth s text _ _ _ _ induction => exact (induction closed).of_reaches (.past s 1)
  | case5 depth s text _ _ _ _ stopped f equation => cases closed
  | case6 depth s text _ _ _ _ inside longer equation induction =>
      have reached := nested_literal_reaches start s text
      rw [equation] at reached
      exact (induction closed).of_reaches ((Reaches.past s 1).trans reached)
  | case7 depth s text _ _ _ _ induction => exact (induction closed).of_reaches (.past s 1)

theorem interpolation_hole_whole {triple : Bool} {start : SourcePos} {s read : Cursor}
    {i result : Interpolation} (whole : Whole s) (dollar : s.cur = byte '$')
    (closed : interpolationHole triple start s i = (read, .ok result)) : Whole read := by
  unfold interpolationHole at closed
  split_ifs at closed
  · dsimp only at closed
    split at closed
    · cases closed
    · next equation =>
        cases closed
        exact whole.behind ((hole_text_behind equation).of_reaches ((Reaches.past s 1).trans (.past _ 1)))
  · cases closed
  · cases closed
    exact hole_name_whole _ (whole.ascii dollar (by decide) (by decide))

theorem lex_identifier_whole {lex : LexerState} (whole : Whole lex.cursor)
    (fine : (lexIdentifierOrKeyword lex).1.kind ≠ .error) :
    Whole (lexIdentifierOrKeyword lex).2.cursor := by
  have name := identifier_text_whole [] false whole
  unfold lexIdentifierOrKeyword at fine ⊢
  dsimp only at fine ⊢
  split_ifs at fine ⊢
  · exact name.behind (lex_interpolated_behind fine)
  · exact name
  · split
    · exact name
    · exact name

theorem punctuation_ascii (c : UInt8) (found : (punctuation c).isSome = true) : c < 0x80 := by
  have all : ∀ mark ∈ punctuationMarks, mark.1 < 0x80 := by decide
  obtain ⟨kind, found⟩ := Option.isSome_iff_exists.mp found
  exact all (c, kind) (punctuation_mark found)

theorem lex_token_whole {lex : LexerState} (whole : Whole lex.cursor)
    (more : lex.cursor.eof = false) (fine : (lexToken lex).1.kind ≠ .error) :
    Whole (lexToken lex).2.cursor := by
  unfold lexToken at fine ⊢
  dsimp only at fine ⊢
  split at fine
  · next kind found =>
      exact whole.behind (behind_advance more (punctuation_ascii _ (by rw [found]; rfl)))
  · split_ifs at fine ⊢ with back quote single point digit digit operator ident
    · exact lex_backquoted_whole whole fine
    · exact whole.behind (lex_string_behind fine)
    · exact lex_char_whole whole fine
    · exact lex_number_whole whole fine
    · exact whole.ascii point (by decide) (by decide)
    · exact lex_number_whole whole fine
    · exact operator_text_whole [] whole
    · exact lex_identifier_whole whole fine
    · exact absurd rfl fine

theorem note_indentation_cursor (lex : LexerState) : (noteIndentation lex).cursor = lex.cursor := by
  unfold noteIndentation
  dsimp only
  split_ifs <;> rfl

/-- `next` leaves well-formed text behind every token. -/
theorem next_whole {lex : LexerState} (whole : Whole lex.cursor) (ready : lex.done = false)
    (goes : (next lex).1.kind ≠ .endOfFile) (fine : (next lex).1.kind ≠ .error) :
    Whole (next lex).2.cursor := by
  unfold next at goes fine ⊢
  rw [if_neg (by simp [ready])] at goes fine ⊢
  split at fine
  · exact absurd rfl fine
  · next s trivia =>
      have start := skip_trivia_whole whole trivia
      rw [trivia] at goes
      unfold tokenAt at goes fine ⊢
      dsimp only at goes fine ⊢
      split_ifs at goes fine ⊢ with ending mixed
      · exact absurd rfl goes
      · exact absurd rfl fine
      · refine lex_token_whole ?_ ?_ fine
        · rw [note_indentation_cursor]
          exact start
        · rw [note_indentation_cursor]
          simpa using ending

theorem byte_order_mark_well_formed : WellFormed [0xEF, 0xBB, 0xBF] :=
  ⟨['\ufeff'], by decide⟩

theorem start_whole {source : Bytes} (well : WellFormed source) :
    Whole (LexerState.ofSource source).cursor := by
  have unmarked : WellFormed (withoutByteOrderMark source) := by
    unfold withoutByteOrderMark
    split_ifs with marked
    · rw [← List.take_append_drop 3 source, marked] at well
      exact byte_order_mark_well_formed.of_append well
    · exact well
  change WellFormed ((withoutByteOrderMark source).drop
    (interpreterLine (withoutByteOrderMark source)).length)
  unfold interpreterLine
  split_ifs
  · have start : Whole { rest := withoutByteOrderMark source } := unmarked
    refine start.until (p := fun c => c != byte '\n') ?_
    intro c stops
    obtain rfl : c = byte '\n' := by simpa using stops
    decide
  · exact unmarked

theorem states_from_whole {fuel : Nat} {start : LexerState} (whole : Whole start.cursor)
    (ready : start.done = false) :
    ∀ lex ∈ statesFrom fuel start, Whole lex.cursor ∧ lex.done = false := by
  induction fuel generalizing start with
  | zero => simp [statesFrom]
  | succ fuel induction =>
      intro lex member
      unfold statesFrom at member
      rcases List.mem_cons.mp member with rfl | later
      · exact ⟨whole, ready⟩
      · split_ifs at later with stops
        · simp at later
        · push Not at stops
          exact induction (next_whole whole ready stops.1 stops.2)
            ((next_scanned ready).goesOn stops.1 stops.2).1 lex later

/-- On a well-formed source every token starts and ends between characters. -/
theorem lexer_states_whole {source : Bytes} (well : WellFormed source) :
    ∀ lex ∈ lexerStates source, Whole lex.cursor ∧ lex.done = false :=
  states_from_whole (start_whole well) rfl

end ProtoScala.Frontend.CharacterBoundaries
