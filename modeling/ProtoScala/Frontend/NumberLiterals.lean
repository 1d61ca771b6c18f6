import ProtoScala.Frontend.Lexer
import Mathlib.Data.List.TakeWhile
import Mathlib.Data.Nat.Digits.Defs

/-!
# Integer literals

An integer literal is a base prefix, a run of digits and underscores, and a long
suffix; its token holds the digits of the run and their value. The run may be
empty after a prefix, and then the token is an integer literal without digits.
-/

namespace ProtoScala.Frontend.NumberLiterals

open ProtoScala.Frontend.Lexer
open ProtoScala.Frontend.Lexer.Cursor
open ProtoScala.Frontend.Layout (SourcePos)

set_option autoImplicit false

/-- Where `next` calls `lexNumber`. -/
def StartsNumber (s : Cursor) : Prop :=
  isDigit s.cur = true ∨ (s.cur = byte '.' ∧ isDigit (s.peekChar 1) = true)

/-- The positional value of a string of digits. -/
def positionalValue (base : Nat) (digits : Bytes) : Nat :=
  Nat.ofDigits base (digits.map digitValue).reverse

def basePrefixes : Nat → List Bytes
  | 16 => [[byte '0', byte 'x'], [byte '0', byte 'X']]
  | 2 => [[byte '0', byte 'b'], [byte '0', byte 'B']]
  | _ => [[]]

def longSuffixes : List Bytes := [[], [byte 'l'], [byte 'L']]

/-- The text of a literal without its prefix, its suffix and its underscores. -/
def Spells (consumed : Bytes) (base : Nat) (digits : Bytes) : Prop :=
  ∃ opening ∈ basePrefixes base, ∃ body, ∃ suffix ∈ longSuffixes,
    consumed = opening ++ body ++ suffix ∧ body.filter (· != byte '_') = digits

/-- What an integer literal says about the text it was read from. -/
structure Faithful (t : RawToken) (consumed : Bytes) : Prop where
  base : t.base = 2 ∨ t.base = 10 ∨ t.base = 16
  nonempty : t.digits ≠ []
  digits : ∀ c ∈ t.digits, isBaseDigit t.base c = true
  value : t.fitsLong = true → t.intValue = positionalValue t.base t.digits
  range : t.fitsLong = false ↔ (2 : Int) ^ 63 - 1 < positionalValue t.base t.digits
  spells : Spells consumed t.base t.digits

/-- The text after the long suffix, if there is one. -/
def withoutLongSuffix (rest : Bytes) : Bytes :=
  if isLongSuffix (rest.headD 0) then rest.tail else rest

/-- A base prefix that nothing follows but a long suffix. -/
def BarePrefix (rest : Bytes) : Prop :=
  ∃ p more, rest = byte '0' :: p :: more ∧
    (p = byte 'x' ∨ p = byte 'X' ∨ p = byte 'b' ∨ p = byte 'B') ∧
    identCharLength (withoutLongSuffix more) = 0

theorem positional_value_eq (base : Nat) (digits : Bytes) :
    numeralValue base digits = positionalValue base digits := by
  unfold numeralValue positionalValue
  rw [Nat.ofDigits_eq_foldr, List.foldr_reverse, List.foldl_map]
  congr 1
  funext value c
  rw [Nat.mul_comm, Nat.add_comm]
  rfl

theorem strtoll_of_digits {base : Nat} {digits : Bytes}
    (valid : ∀ c ∈ digits, isBaseDigit base c = true) :
    strtoll digits base =
      if positionalValue base digits ≤ longMax then some (positionalValue base digits : Int)
      else none := by
  have whole : digits.takeWhile (isBaseDigit base) = digits := List.takeWhile_eq_self_iff.mpr valid
  simp only [strtoll, whole, positional_value_eq]

/-- The digits a run keeps are digits of the base. -/
theorem run_digits {belongs : UInt8 → Bool} {rest : Bytes} {c : UInt8}
    (member : c ∈ (rest.takeWhile fun c => belongs c || c == byte '_').filter (· != byte '_')) :
    belongs c = true := by
  obtain ⟨inRun, notUnderscore⟩ := List.mem_filter.mp member
  have holds := List.mem_takeWhile_imp inRun
  simp only [Bool.or_eq_true, beq_iff_eq] at holds
  simp only [bne_iff_ne, ne_eq] at notUnderscore
  exact holds.resolve_right notUnderscore

theorem fraction_part_int {s s' : Cursor} {n n' : Numeral}
    (parsed : fractionPart s n = (s', some n')) (int : n'.isFloat = false) :
    s' = s ∧ n' = n ∧ ¬(s.cur = byte '.' ∧ isDigit (s.peekChar 1) = true) := by
  unfold fractionPart at parsed
  split_ifs at parsed with point
  · simp only [Prod.mk.injEq, Option.ite_none_left_eq_some, Option.some.injEq] at parsed
    rw [← parsed.2.2] at int
    cases int
  · cases parsed
    exact ⟨rfl, rfl, point⟩

theorem exponent_part_int {s s' : Cursor} {n n' : Numeral}
    (parsed : exponentPart s n = (s', some n')) (int : n'.isFloat = false) : s' = s ∧ n' = n := by
  unfold exponentPart at parsed
  by_cases marked : s.cur = byte 'e' ∨ s.cur = byte 'E'
  · rw [if_pos marked] at parsed
    dsimp only at parsed
    by_cases digit : isDigit (if (s.peekChar 1 == byte '+' || s.peekChar 1 == byte '-') = true
        then s.peekChar 2 else s.peekChar 1) = true
    · rw [if_pos digit] at parsed
      simp only [Prod.mk.injEq, Option.ite_none_left_eq_some, Option.some.injEq] at parsed
      rw [← parsed.2.2] at int
      cases int
    · rw [if_neg digit] at parsed
      cases parsed
      exact ⟨rfl, rfl⟩
  · rw [if_neg marked] at parsed
    cases parsed
    exact ⟨rfl, rfl⟩

/-- A literal without a fractional part, an exponent and a floating-point suffix
is its integer part. -/
theorem decimal_parts_int {s s' : Cursor} {n n' : Numeral}
    (parsed : decimalParts s n = (s', some n')) (int : n'.isFloat = false) :
    s' = s ∧ n' = n ∧ ¬(s.cur = byte '.' ∧ isDigit (s.peekChar 1) = true) := by
  unfold decimalParts at parsed
  split at parsed
  · cases parsed
  · next fractional fractioned first =>
      split at parsed
      · cases parsed
      · next exponential exponented second =>
          split_ifs at parsed
          · cases parsed
            cases int
          · cases parsed
            obtain ⟨rfl, rfl⟩ := exponent_part_int second int
            exact fraction_part_int first int

/-- The run of digits and underscores of a literal. -/
def digitsRun (base : Nat) (rest : Bytes) : Bytes :=
  rest.takeWhile fun c => isBaseDigit base c || c == byte '_'

theorem number_token_float {lex : LexerState} {start : SourcePos} {base : Nat} {n : Numeral}
    (int : (numberToken lex start base n).kind = .intLit) : n.isFloat = false := by
  by_contra float
  rw [Bool.not_eq_false] at float
  rw [numberToken, if_pos float] at int
  cases int

theorem digit_run_eq (base : Nat) (s : Cursor) :
    digitRun (isBaseDigit base) s =
      ((digitsRun base s.rest).filter (· != byte '_'),
        (digitsRun base s.rest).getLast? == some (byte '_'),
        s.past (digitsRun base s.rest).length) := rfl

theorem digits_run_leads (base : Nat) (rest : Bytes) : digitsRun base rest <+: rest :=
  List.takeWhile_prefix _

/-- What `lexDigits` has read when it makes an integer literal. -/
structure ReadInteger (lex : LexerState) (start : SourcePos) (base : Nat) (s : Cursor)
    (result : RawToken × LexerState) (suffix : Bytes) : Prop where
  unended : (digitsRun base s.rest).getLast? ≠ some (byte '_')
  known : suffix ∈ longSuffixes
  text : s.rest = digitsRun base s.rest ++ suffix ++
    withoutLongSuffix (s.rest.drop (digitsRun base s.rest).length)
  cursor : result.2.cursor = s.past ((digitsRun base s.rest).length + suffix.length)
  ends : identCharLength (withoutLongSuffix (s.rest.drop (digitsRun base s.rest).length)) = 0
  token : result.1 = numberToken result.2 start base
    ⟨(digitsRun base s.rest).filter (· != byte '_'), false⟩
  point : base = 10 → digitsRun base s.rest = [] →
    ¬(s.cur = byte '.' ∧ isDigit (s.peekChar 1) = true)

theorem long_suffix_cases {c : UInt8} (suffix : isLongSuffix c = true) : [c] ∈ longSuffixes := by
  unfold isLongSuffix at suffix
  simp only [Bool.or_eq_true, beq_iff_eq] at suffix
  rcases suffix with rfl | rfl
  · decide
  · decide

/-- The suffix at the head of a text and what follows it. -/
theorem long_suffix_split (s : Cursor) :
    ∃ suffix ∈ longSuffixes, s.rest = suffix ++ withoutLongSuffix s.rest ∧
      (if isLongSuffix s.cur then s.advance else s) = s.past suffix.length := by
  by_cases suffix : isLongSuffix s.cur = true
  · have left : withoutLongSuffix s.rest = s.rest.tail := if_pos suffix
    rw [if_pos suffix, left]
    refine ⟨[s.cur], long_suffix_cases suffix, ?_, rfl⟩
    cases rest : s.rest with
    | nil =>
        have ending : s.cur = 0 := by simp [cur, rest]
        rw [ending] at suffix
        exact absurd suffix (by decide)
    | cons c more => simp [cur, rest]
  · have left : withoutLongSuffix s.rest = s.rest := if_neg suffix
    rw [if_neg suffix, left]
    exact ⟨[], by decide, rfl, (past_zero s).symm⟩

theorem finish_number_reads {lex : LexerState} {start : SourcePos} {base : Nat} {s : Cursor}
    {n : Numeral} (int : (finishNumber lex start base s n).1.kind = .intLit) :
    n.isFloat = false ∧ ∃ suffix ∈ longSuffixes, s.rest = suffix ++ withoutLongSuffix s.rest ∧
      identCharLength (withoutLongSuffix s.rest) = 0 ∧
      finishNumber lex start base s n =
        (numberToken (lex.moved (s.past suffix.length)) start base n,
          lex.moved (s.past suffix.length)) := by
  have plain : n.isFloat = false := by
    unfold finishNumber at int
    dsimp only at int
    generalize (if (!n.isFloat && isLongSuffix s.cur) = true then s.advance else s) = stopped at int
    split at int
    · cases int
    · exact number_token_float int
  refine ⟨plain, ?_⟩
  obtain ⟨suffix, known, text, after⟩ := long_suffix_split s
  have left : (s.past suffix.length).rest = withoutLongSuffix s.rest := by
    change s.rest.drop suffix.length = _
    conv_lhs => rw [text]
    exact List.drop_left
  unfold finishNumber at int ⊢
  dsimp only at int ⊢
  rw [plain, Bool.not_false, Bool.true_and, after, left] at int ⊢
  refine ⟨suffix, known, text, ?_⟩
  split at int
  · cases int
  · next ends => exact ⟨Nat.eq_zero_of_not_pos ends, if_neg ends⟩

/-- The numeral in front of the suffix. -/
theorem plain_parts {base : Nat} {s behind : Cursor} {n m : Numeral}
    (parts : (if base = 10 then decimalParts s n else (s, some n)) = (behind, some m))
    (plain : m.isFloat = false) :
    behind = s ∧ m = n ∧
      (base = 10 → ¬(s.cur = byte '.' ∧ isDigit (s.peekChar 1) = true)) := by
  split_ifs at parts with decimal
  · obtain ⟨stopped, digits, point⟩ := decimal_parts_int parts plain
    exact ⟨stopped, digits, fun _ => point⟩
  · cases parts
    exact ⟨rfl, rfl, fun ten => absurd ten decimal⟩

theorem lex_digits_reads {lex : LexerState} {start : SourcePos} {base : Nat} {s : Cursor}
    (int : (lexDigits lex start base s).1.kind = .intLit) :
    ∃ suffix, ReadInteger lex start base s (lexDigits lex start base s) suffix := by
  generalize whole : lexDigits lex start base s = result at int
  unfold lexDigits at whole
  rw [digit_run_eq] at whole
  dsimp only at whole
  split at whole
  · rw [← whole] at int
    cases int
  · next unended =>
      split at whole
      · rw [← whole] at int
        cases int
      · next behind n parts =>
          rw [← whole] at int
          obtain ⟨plain, suffix, known, text, ends, finished⟩ := finish_number_reads int
          obtain ⟨rfl, rfl, point⟩ := plain_parts parts plain
          rw [finished, past_past] at whole
          refine ⟨suffix, by simpa using unended, known, ?_, by rw [← whole]; rfl, ends,
            by rw [← whole], ?_⟩
          · have behind : s.rest.drop (digitsRun base s.rest).length = suffix ++ _ := text
            conv_lhs => rw [← List.prefix_iff_eq_append.mp (digits_run_leads base s.rest)]
            rw [List.append_assoc]
            exact congrArg _ behind
          · intro ten none
            have notPoint := point ten
            rwa [none, List.length_nil, past_zero] at notPoint

/-- An ASCII character that continues a run of digits continues an identifier. -/
theorem digit_continues (base : Nat) (c : UInt8) (more : Bytes)
    (belongs : (isBaseDigit base c || c == byte '_') = true) : identCharLength (c :: more) = 1 := by
  have hex : (isHexDigit c || c == byte '_') = true := by
    unfold isBaseDigit at belongs
    split_ifs at belongs
    · exact belongs
    · simp only [Bool.or_eq_true, beq_iff_eq] at belongs
      rcases belongs with (rfl | rfl) | rfl <;> decide
    · simp only [Bool.or_eq_true, isHexDigit] at belongs ⊢
      exact belongs.imp (fun digit => .inl (.inl digit)) id
  have ascii : ∀ n : Fin 256, (isHexDigit (.ofFin n) || UInt8.ofFin n == byte '_') = true →
      UInt8.ofFin n < 0x80 ∧ isIdentCodePoint (UInt8.ofFin n).toNat = true := by decide +kernel
  obtain ⟨small, ident⟩ := ascii c.toFin hex
  rw [UInt8.ofFin_toFin] at small ident
  simp only [identCharLength]
  rw [if_pos small, if_pos ident]

theorem digits_run_empty {base : Nat} {rest : Bytes}
    (ends : identCharLength (withoutLongSuffix rest) = 0) : digitsRun base rest = [] := by
  cases rest with
  | nil => rfl
  | cons c more =>
      refine List.takeWhile_cons_of_neg ?_
      intro belongs
      by_cases suffix : isLongSuffix c = true
      · have none : isBaseDigit base c = false ∧ c ≠ byte '_' := by
          unfold isLongSuffix at suffix
          unfold isBaseDigit
          simp only [Bool.or_eq_true, beq_iff_eq] at suffix
          rcases suffix with rfl | rfl <;> split_ifs <;> decide
        simp [none] at belongs
      · have left : withoutLongSuffix (c :: more) = c :: more := if_neg suffix
        rw [left, digit_continues base c more belongs] at ends
        cases ends

/-- A run that keeps no digit and does not end in an underscore is empty. -/
theorem digits_some {base : Nat} {rest : Bytes}
    (unended : (digitsRun base rest).getLast? ≠ some (byte '_'))
    (some : digitsRun base rest ≠ []) : (digitsRun base rest).filter (· != byte '_') ≠ [] := by
  intro none
  rw [List.filter_eq_nil_iff] at none
  have last := none _ (List.getLast_mem some)
  simp only [bne_iff_ne, ne_eq, not_not] at last
  rw [List.getLast?_eq_some_getLast some, last] at unended
  exact unended rfl

theorem number_token_int (lex : LexerState) (start : SourcePos) (base : Nat) (digits : Bytes) :
    (numberToken lex start base ⟨digits, false⟩).kind = .intLit ∧
      (numberToken lex start base ⟨digits, false⟩).digits = digits ∧
      (numberToken lex start base ⟨digits, false⟩).base = base := by
  unfold numberToken
  rw [if_neg (by simp)]
  dsimp only
  split <;> exact ⟨rfl, rfl, rfl⟩

theorem number_token_value (lex : LexerState) (start : SourcePos) {base : Nat} {digits : Bytes}
    (valid : ∀ c ∈ digits, isBaseDigit base c = true) :
    ((numberToken lex start base ⟨digits, false⟩).fitsLong = true →
      (numberToken lex start base ⟨digits, false⟩).intValue = positionalValue base digits) ∧
    ((numberToken lex start base ⟨digits, false⟩).fitsLong = false ↔
      (2 : Int) ^ 63 - 1 < positionalValue base digits) := by
  unfold numberToken
  rw [if_neg (by simp), strtoll_of_digits valid]
  have bound : ((2 : Int) ^ 63 - 1 < positionalValue base digits) ↔
      ¬positionalValue base digits ≤ longMax := by
    unfold longMax
    omega
  dsimp only
  split_ifs with small
  · refine ⟨fun _ => rfl, ?_⟩
    rw [bound]
    simp [make, small]
  · refine ⟨fun fits => absurd fits (by simp), ?_⟩
    rw [bound]
    simp [small]

/-- An integer literal read after a prefix of its base is right when its run of
digits is not empty. -/
theorem faithful_of_read {lex : LexerState} {start : SourcePos} {base : Nat} {opening : Bytes}
    {result : RawToken × LexerState} {suffix : Bytes}
    (based : base = 2 ∨ base = 10 ∨ base = 16) (prefixed : opening ∈ basePrefixes base)
    (text : lex.cursor.rest.take opening.length = opening)
    (read : ReadInteger lex start base (lex.cursor.past opening.length) result suffix)
    (some : digitsRun base (lex.cursor.past opening.length).rest ≠ []) :
    Faithful result.1 (lex.cursor.textTo result.2.cursor) := by
  set run := digitsRun base (lex.cursor.past opening.length).rest with runEq
  obtain ⟨-, digits, ofBase⟩ := number_token_int result.2 start base (run.filter (· != byte '_'))
  have valid : ∀ c ∈ run.filter (· != byte '_'), isBaseDigit base c = true :=
    fun c member => run_digits member
  obtain ⟨value, range⟩ := number_token_value result.2 start valid
  have consumed : lex.cursor.textTo result.2.cursor = opening ++ run ++ suffix := by
    have rest : lex.cursor.rest.drop opening.length = _ := read.text
    rw [read.cursor, past_past, text_to_past, List.take_add, text, rest, ← runEq,
      ← List.length_append, List.take_left, List.append_assoc]
  rw [read.token]
  constructor
  · rw [ofBase]
    exact based
  · rw [digits]
    exact digits_some read.unended some
  · rw [digits, ofBase]
    exact valid
  · rw [digits, ofBase]
    exact value
  · rw [digits, ofBase]
    exact range
  · rw [digits, ofBase]
    exact ⟨opening, prefixed, run, suffix, read.known, consumed, rfl⟩

theorem base_prefix_text {s : Cursor} {c p : UInt8} (first : s.cur = c) (second : s.peekChar 1 = p)
    (some : c ≠ 0 ∧ p ≠ 0) : s.rest = c :: p :: s.rest.drop 2 := by
  cases rest : s.rest with
  | nil => simp [cur, rest] at first; exact absurd first.symm some.1
  | cons c' more =>
      cases more with
      | nil => simp [peekChar, rest] at second; exact absurd second.symm some.2
      | cons p' more =>
          simp only [cur, peekChar, rest] at first second
          simp_all

/-- After a bare prefix the literal has no digits. -/
theorem bare_digits {lex : LexerState} {start : SourcePos} {base : Nat} {s : Cursor}
    (based : base ≠ 10) (ends : identCharLength (withoutLongSuffix s.rest) = 0) :
    ∃ behind, (lexDigits lex start base s).1 = numberToken behind start base ⟨[], false⟩ := by
  have none : digitsRun base s.rest = [] := digits_run_empty ends
  obtain ⟨suffix, -, text, after⟩ := long_suffix_split s
  have left : (s.past suffix.length).rest = withoutLongSuffix s.rest := by
    change s.rest.drop suffix.length = _
    conv_lhs => rw [text]
    exact List.drop_left
  refine ⟨lex.moved (s.past suffix.length), ?_⟩
  unfold lexDigits
  rw [digit_run_eq, none]
  dsimp only
  rw [if_neg (by simp), if_neg based, List.length_nil, past_zero]
  dsimp only [finishNumber]
  rw [Bool.not_false, Bool.true_and, after, left, if_neg (by omega)]
  rfl

/-- The literal after a base prefix: it is right unless nothing follows. -/
theorem prefixed_literal {lex : LexerState} {base : Nat} {p : UInt8}
    (based : base = 2 ∨ base = 16) (prefixed : [byte '0', p] ∈ basePrefixes base)
    (known : p = byte 'x' ∨ p = byte 'X' ∨ p = byte 'b' ∨ p = byte 'B')
    (text : lex.cursor.rest = byte '0' :: p :: lex.cursor.rest.drop 2)
    (whole : lexNumber lex = lexDigits lex lex.cursor.pos base (lex.cursor.past 2)) :
    ((lexNumber lex).1.kind = .intLit →
      Faithful (lexNumber lex).1 (lex.cursor.textTo (lexNumber lex).2.cursor)) ↔
    ¬BarePrefix lex.cursor.rest := by
  have opening : lex.cursor.rest.take [byte '0', p].length = [byte '0', p] := by
    rw [text]
    rfl
  rw [whole]
  constructor
  · rintro faithful ⟨p', more, shape, -, ends⟩
    have rest : (lex.cursor.past 2).rest = more := by
      change lex.cursor.rest.drop 2 = more
      rw [shape]
      rfl
    rw [← rest] at ends
    have based : base ≠ 10 := by omega
    obtain ⟨behind, token⟩ : ∃ behind, (lexDigits lex lex.cursor.pos base
        (lex.cursor.past 2)).1 = numberToken behind lex.cursor.pos base ⟨[], false⟩ :=
      bare_digits based ends
    obtain ⟨int, digits, -⟩ := number_token_int behind lex.cursor.pos base []
    rw [token] at faithful
    exact (faithful int).nonempty digits
  · intro notBare int
    obtain ⟨suffix, read⟩ := lex_digits_reads int
    refine faithful_of_read (by omega) prefixed opening read ?_
    intro none
    have ends := read.ends
    change digitsRun base (lex.cursor.past 2).rest = [] at none
    rw [none] at ends
    exact notBare ⟨p, lex.cursor.rest.drop 2, text, known, ends⟩

/-- A decimal literal has a digit before its point or its suffix. -/
theorem decimal_literal {lex : LexerState} (starts : StartsNumber lex.cursor)
    (whole : lexNumber lex = lexDigits lex lex.cursor.pos 10 lex.cursor)
    (int : (lexNumber lex).1.kind = .intLit) :
    Faithful (lexNumber lex).1 (lex.cursor.textTo (lexNumber lex).2.cursor) := by
  rw [whole] at int ⊢
  obtain ⟨suffix, read⟩ := lex_digits_reads int
  refine faithful_of_read (.inr (.inl rfl)) (List.mem_singleton_self []) rfl read ?_
  intro none
  change digitsRun 10 lex.cursor.rest = [] at none
  rcases starts with digit | point
  · have some : lex.cursor.eof = false := by
      cases rest : lex.cursor.rest with
      | nil =>
          simp only [cur, rest] at digit
          exact absurd digit (by decide)
      | cons c more => simp [eof, rest]
    have positive := run_positive (p := fun c => isBaseDigit 10 c || c == byte '_') some
      (by simp [isBaseDigit, digit])
    change 0 < (digitsRun 10 lex.cursor.rest).length at positive
    rw [none] at positive
    exact absurd positive (by decide)
  · exact read.point rfl none point

/-- Every integer literal is right about its text exactly when the text is no
bare base prefix. -/
theorem int_literals_faithful (lex : LexerState) (starts : StartsNumber lex.cursor) :
    ((lexNumber lex).1.kind = .intLit →
      Faithful (lexNumber lex).1 (lex.cursor.textTo (lexNumber lex).2.cursor)) ↔
    ¬BarePrefix lex.cursor.rest := by
  by_cases hex : lex.cursor.cur = byte '0' ∧
      (lex.cursor.peekChar 1 = byte 'x' ∨ lex.cursor.peekChar 1 = byte 'X')
  · have whole : lexNumber lex = lexDigits lex lex.cursor.pos 16 (lex.cursor.past 2) := if_pos hex
    obtain ⟨zero, second | second⟩ := hex
    · exact prefixed_literal (.inr rfl) (by decide) (by decide)
        (base_prefix_text zero second (by decide)) whole
    · exact prefixed_literal (.inr rfl) (by decide) (by decide)
        (base_prefix_text zero second (by decide)) whole
  · by_cases binary : lex.cursor.cur = byte '0' ∧
        (lex.cursor.peekChar 1 = byte 'b' ∨ lex.cursor.peekChar 1 = byte 'B')
    · have whole : lexNumber lex = lexDigits lex lex.cursor.pos 2 (lex.cursor.past 2) :=
        (if_neg hex).trans (if_pos binary)
      obtain ⟨zero, second | second⟩ := binary
      · exact prefixed_literal (.inl rfl) (by decide) (by decide)
          (base_prefix_text zero second (by decide)) whole
      · exact prefixed_literal (.inl rfl) (by decide) (by decide)
          (base_prefix_text zero second (by decide)) whole
    · have notBare : ¬BarePrefix lex.cursor.rest := by
        rintro ⟨p, more, text, known, -⟩
        have zero : lex.cursor.cur = byte '0' := by simp [cur, text]
        have second : lex.cursor.peekChar 1 = p := by simp [peekChar, text]
        rw [← second] at known
        rcases known with x | x | b | b
        · exact hex ⟨zero, .inl x⟩
        · exact hex ⟨zero, .inr x⟩
        · exact binary ⟨zero, .inl b⟩
        · exact binary ⟨zero, .inr b⟩
      refine ⟨fun _ => notBare, fun _ int => ?_⟩
      by_cases octal : lex.cursor.cur = byte '0' ∧ isDigit (lex.cursor.peekChar 1) = true
      · have whole : lexNumber lex = _ := (if_neg hex).trans ((if_neg binary).trans (if_pos octal))
        rw [whole] at int
        cases int
      · exact decimal_literal starts
          ((if_neg hex).trans ((if_neg binary).trans (if_neg octal))) int

/-- `0x1_FL` as the whole source. -/
def hexLiteral : LexerState :=
  .ofSource [byte '0', byte 'x', byte '1', byte '_', byte 'F', byte 'L']

theorem hex_literal_faithful :
    ((lexNumber hexLiteral).1.kind = .intLit →
      Faithful (lexNumber hexLiteral).1
        (hexLiteral.cursor.textTo (lexNumber hexLiteral).2.cursor)) ↔
    ¬BarePrefix hexLiteral.cursor.rest :=
  int_literals_faithful hexLiteral (.inl (by decide))

/-- The source `0x` is one integer literal without digits, whose value is zero. -/
theorem bare_prefix_accepted :
    (tokenizeAll [byte '0', byte 'x']).map (fun t => (t.kind, t.digits, t.fitsLong, t.intValue)) =
      [(.intLit, [], true, 0), (.endOfFile, [], true, 0)] ∧
    ¬∀ lex : LexerState, StartsNumber lex.cursor → (lexNumber lex).1.kind = .intLit →
      Faithful (lexNumber lex).1 (lex.cursor.textTo (lexNumber lex).2.cursor) := by
  refine ⟨by decide +kernel, fun faithful => ?_⟩
  have bare := faithful (.ofSource [byte '0', byte 'x']) (.inl (by decide)) (by decide)
  exact bare.nonempty (by decide)

end ProtoScala.Frontend.NumberLiterals
