import ProtoScala.Frontend.Lexer
import ProtoScala.Frontend.LayoutTokens

/-!
# Runs of the lexer

A scanner moves the cursor and nothing else of the lexer's state. It reports a
token where it started, or an error there or further along, and it takes at least
one byte for every token that is no error. So `tokenizeAll` reads the whole text
up to the end or to the first error.
-/

namespace ProtoScala.Frontend.LexerRuns

open ProtoScala.Frontend.Lexer
open ProtoScala.Frontend.Lexer.Cursor
open ProtoScala.Frontend.Layout (SourcePos TokenKind)
open ProtoScala.Frontend.LayoutTokens

set_option autoImplicit false

/-- A kind that `lexToken` makes. -/
def isRawKind (k : TokenKind) : Bool := !isLayoutKind k && k != .endOfFile

/-- What every scanner does. -/
structure Lexed (lex : LexerState) (result : RawToken × LexerState) : Prop where
  state : result.2 = lex.moved result.2.cursor
  reaches : Reaches lex.cursor result.2.cursor
  flag : result.1.firstOnLine = (result.1.pos.line != lex.lastTokenLine)
  position : ∃ s, Reaches lex.cursor s ∧ result.1.pos = s.pos
  placed : result.1.kind ≠ .error → result.1.pos = lex.cursor.pos
  kind : isRawKind result.1.kind = true
  progress : result.1.kind ≠ .error → result.2.cursor.rest.length < lex.cursor.rest.length

theorem lexed_error {lex : LexerState} {s at_ : Cursor} (reaches : Reaches lex.cursor s)
    (reported : Reaches lex.cursor at_) (msg : String) (atEof : Bool) :
    Lexed lex (error (lex.moved s) msg at_.pos atEof, lex.moved s) where
  state := rfl
  reaches := reaches
  flag := rfl
  position := ⟨at_, reported, rfl⟩
  placed := fun none => absurd rfl none
  kind := rfl
  progress := fun none => absurd rfl none

/-- A token made at the start, with any payload. -/
theorem lexed_token {lex : LexerState} {s : Cursor} {t : RawToken} (reaches : Reaches lex.cursor s)
    (flag : t.firstOnLine = (lex.cursor.pos.line != lex.lastTokenLine))
    (placed : t.pos = lex.cursor.pos) (kind : isRawKind t.kind = true)
    (progress : s.rest.length < lex.cursor.rest.length) : Lexed lex (t, lex.moved s) where
  state := rfl
  reaches := reaches
  flag := by rw [flag, placed]
  position := ⟨lex.cursor, .refl _, placed⟩
  placed := fun _ => placed
  kind := kind
  progress := fun _ => progress

theorem some_of_cur {s : Cursor} (some : s.cur ≠ 0) : s.eof = false := by
  cases rest : s.rest with
  | nil => simp [cur, rest] at some
  | cons c more => simp [eof, rest]

theorem operator_text_reaches (s : Cursor) (text : Bytes) :
    Reaches s (operatorText s text).2 := by
  fun_induction operatorText s text with
  | case1 s => exact .refl s
  | case2 s => exact .refl s
  | case3 s => exact .refl s
  | case4 s text _ _ _ induction => exact (Reaches.past s 1).trans induction

theorem identifier_text_reaches (s : Cursor) (text : Bytes) (lastWasUnderscore : Bool) :
    Reaches s (identifierText s text lastWasUnderscore).2 := by
  fun_induction identifierText s text lastWasUnderscore with
  | case1 s => exact .refl s
  | case2 s => exact .past s _
  | case3 s => exact .refl s
  | case4 s text _ _ _ len _ induction => exact (Reaches.past s len).trans induction

theorem raw_ite {condition : Prop} [Decidable condition] {one other : TokenKind}
    (first : isRawKind one = true) (second : isRawKind other = true) :
    isRawKind (if condition then one else other) = true := by
  split
  · exact first
  · exact second

theorem reserved_raw (op : String) : isRawKind (reservedOperator op) = true := by
  unfold reservedOperator
  refine raw_ite rfl (raw_ite rfl (raw_ite rfl (raw_ite rfl (raw_ite rfl ?_))))
  exact raw_ite rfl (raw_ite rfl (raw_ite rfl (raw_ite rfl (raw_ite rfl rfl))))

theorem lex_operator_lexed {lex : LexerState} (operator : isOpChar lex.cursor.cur = true) :
    Lexed lex (lexOperator lex) := by
  have some : lex.cursor.eof = false := some_of_cur (by rintro none; rw [none] at operator; cases operator)
  have reaches := operator_text_reaches lex.cursor []
  refine lexed_token reaches rfl rfl (reserved_raw _) ?_
  rw [operatorText, dif_neg (by simp [some]), if_neg (by simp [operator]), if_neg (by simp)]
  exact reaches_shorter some (operator_text_reaches _ _)

theorem lex_backquoted_lexed (lex : LexerState) (some : lex.cursor.eof = false) :
    Lexed lex (lexBackquoted lex) := by
  have reaches := (Reaches.past lex.cursor 1).trans (.past lex.cursor.advance
    (lex.cursor.advance.rest.takeWhile fun c => c != backquote && c != byte '\n').length)
  unfold lexBackquoted
  dsimp only
  split_ifs
  · exact lexed_error reaches (.refl _) _ _
  · exact lexed_token (reaches.trans (.past _ 1)) rfl rfl rfl
      (reaches_shorter some ((Reaches.past _ _).trans (.past _ 1)))

theorem fraction_part_reaches (s : Cursor) (n : Numeral) : Reaches s (fractionPart s n).1 := by
  unfold fractionPart
  split_ifs
  · exact (Reaches.past s 1).trans (.past _ _)
  · exact .refl s

theorem exponent_part_reaches (s : Cursor) (n : Numeral) : Reaches s (exponentPart s n).1 := by
  unfold exponentPart
  dsimp only
  split_ifs
  all_goals first
    | exact .refl s
    | exact (Reaches.past s _).trans (.past _ _)

/-- The exponent and the suffix only move the cursor on. -/
theorem decimal_parts_behind {s s' : Cursor} {n : Numeral}
    (fraction : Reaches s' (fractionPart s n).1) : Reaches s' (decimalParts s n).1 := by
  unfold decimalParts
  split
  · next stopped equation => rwa [equation] at fraction
  · next read more equation =>
      rw [equation] at fraction
      have exponent := exponent_part_reaches read more
      split
      · next stopped equation =>
          rw [equation] at exponent
          exact fraction.trans exponent
      · next after most equation =>
          rw [equation] at exponent
          split_ifs
          · exact (fraction.trans exponent).trans (.past _ 1)
          · exact fraction.trans exponent

theorem number_token_raw (lex : LexerState) (start : SourcePos) (base : Nat) (n : Numeral) :
    (numberToken lex start base n).firstOnLine = (start.line != lex.lastTokenLine) ∧
      (numberToken lex start base n).pos = start ∧
      isRawKind (numberToken lex start base n).kind = true := by
  unfold numberToken
  split_ifs
  · exact ⟨rfl, rfl, rfl⟩
  · dsimp only
    split <;> exact ⟨rfl, rfl, rfl⟩

/-- `lexDigits` from a cursor behind the prefix or from the start; what it reads
before the suffix is a run of digits, or at least a fraction. -/
theorem lex_digits_lexed {lex : LexerState} {base : Nat} {s : Cursor}
    (reaches : Reaches lex.cursor s)
    (reads : s.rest.length < lex.cursor.rest.length ∨
      (s = lex.cursor ∧ base = 10 ∧ s.eof = false ∧
        (isDigit s.cur = true ∨ (s.cur = byte '.' ∧ isDigit (s.peekChar 1) = true)))) :
    Lexed lex (lexDigits lex lex.cursor.pos base s) := by
  set run := digitRun (isBaseDigit base) s with runEq
  have runReaches : Reaches s run.2.2 := .past s _
  unfold lexDigits
  rw [← runEq]
  dsimp only
  split
  · exact lexed_error (reaches.trans runReaches) (.refl _) _ _
  · have parts : Reaches run.2.2 (if base = 10 then decimalParts run.2.2 ⟨run.1, false⟩
        else (run.2.2, some ⟨run.1, false⟩)).1 := by
      split_ifs
      · exact decimal_parts_behind (fraction_part_reaches _ _)
      · exact .refl _
    have shorter : (if base = 10 then decimalParts run.2.2 ⟨run.1, false⟩
        else (run.2.2, some ⟨run.1, false⟩)).1.rest.length < lex.cursor.rest.length := by
      rcases reads with before | ⟨rfl, rfl, more, digit | point⟩
      · exact Nat.lt_of_le_of_lt (runReaches.trans parts).length_le before
      · refine Nat.lt_of_le_of_lt parts.length_le (past_shorter more ?_)
        exact run_positive more (by simp [isBaseDigit, digit])
      · have none : run.2.2 = lex.cursor := by
          have length : (lex.cursor.rest.takeWhile
              fun c => isBaseDigit 10 c || c == byte '_').length = 0 := by
            cases rest : lex.cursor.rest with
            | nil => rfl
            | cons c rest' =>
                have head : c = byte '.' := by simpa [cur, rest] using point.1
                rw [List.takeWhile_cons_of_neg (by rw [head]; decide)]
                rfl
          change lex.cursor.past _ = lex.cursor
          rw [length, past_zero]
        rw [if_pos rfl, none]
        have fraction : Reaches lex.cursor.advance (fractionPart lex.cursor ⟨run.1, false⟩).1 := by
          rw [fractionPart, if_pos point]
          exact .past _ _
        exact reaches_shorter more (decimal_parts_behind fraction)
    split
    · next stopped equation =>
        rw [equation] at parts
        exact lexed_error (reaches.trans (runReaches.trans parts)) (.refl _) _ _
    · next read n equation =>
        rw [equation] at parts shorter
        have whole := reaches.trans (runReaches.trans parts)
        unfold finishNumber
        dsimp only
        have suffix : Reaches read (if (!n.isFloat && isLongSuffix read.cur) = true then read.advance
            else read) := by
          split_ifs
          · exact .past _ 1
          · exact .refl _
        generalize (if (!n.isFloat && isLongSuffix read.cur) = true then read.advance
          else read) = stopped at suffix
        split
        · exact lexed_error (whole.trans suffix) (.refl _) _ _
        · obtain ⟨flag, placed, kind⟩ := number_token_raw (lex.moved stopped) lex.cursor.pos base n
          exact lexed_token (whole.trans suffix) flag placed kind
            (Nat.lt_of_le_of_lt suffix.length_le shorter)

theorem lex_number_lexed {lex : LexerState}
    (starts : isDigit lex.cursor.cur = true ∨
      (lex.cursor.cur = byte '.' ∧ isDigit (lex.cursor.peekChar 1) = true)) :
    Lexed lex (lexNumber lex) := by
  have some : lex.cursor.eof = false := by
    refine some_of_cur ?_
    intro none
    rw [none] at starts
    rcases starts with digit | point
    · cases digit
    · exact absurd point.1 (by decide)
  unfold lexNumber
  dsimp only
  split_ifs
  · exact lex_digits_lexed (.past _ 2) (.inl (past_shorter some (by decide)))
  · exact lex_digits_lexed (.past _ 2) (.inl (past_shorter some (by decide)))
  · exact lexed_error (s := lex.cursor) (.refl _) (.refl _) _ _
  · exact lex_digits_lexed (.refl _) (.inr ⟨rfl, rfl, some, starts⟩)

theorem literal_character_reaches (s : Cursor) : Reaches s (literalCharacter s).1 := by
  unfold literalCharacter
  split_ifs
  · have escape := (Reaches.past s 1).trans (read_escape_reaches s.advance [])
    split
    · next stopped msg equation => rwa [equation] at escape
    · next read encoded equation =>
        rw [equation] at escape
        split
        · exact escape
        · exact escape
  · exact .refl s
  · split
    · exact .refl s
    · exact .past s _

theorem lex_char_lexed {lex : LexerState} (some : lex.cursor.eof = false) :
    Lexed lex (lexChar lex) := by
  have opened : Reaches lex.cursor lex.cursor.advance := .past _ 1
  have character := literal_character_reaches lex.cursor.advance
  unfold lexChar
  dsimp only
  split
  · exact lexed_error (opened.trans (.past _ 1)) (.refl _) _ _
  · split
    · next s msg equation =>
        rw [equation] at character
        exact lexed_error (opened.trans character) (.refl _) _ _
    · next s cp equation =>
        rw [equation] at character
        split
        · exact lexed_error (opened.trans character) (.refl _) _ _
        · exact lexed_token ((opened.trans character).trans (.past _ 1)) rfl rfl rfl
            (reaches_shorter some (character.trans (.past _ 1)))

/-- A failure is reported where the literal starts or at a cursor inside it. -/
def ReportedFrom (start : SourcePos) (s : Cursor) (f : Failure) : Prop :=
  f.position = start ∨ ∃ reached, Reaches s reached ∧ f.position = reached.pos

theorem ReportedFrom.mono {start : SourcePos} {s s' : Cursor} {f : Failure}
    (reported : ReportedFrom start s' f) (reaches : Reaches s s') : ReportedFrom start s f := by
  rcases reported with atStart | ⟨reached, further, position⟩
  · exact .inl atStart
  · exact .inr ⟨reached, reaches.trans further, position⟩

/-- What every scanner inside a literal does. -/
def Scans {Value : Type} (start : SourcePos) (s : Cursor) (result : Cursor × Except Failure Value) :
    Prop :=
  Reaches s result.1 ∧ ∀ f, result.2 = .error f → ReportedFrom start s f

theorem Scans.mono {Value : Type} {start : SourcePos} {s s' : Cursor}
    {result : Cursor × Except Failure Value} (scans : Scans start s' result)
    (reaches : Reaches s s') : Scans start s result :=
  ⟨reaches.trans scans.1, fun f failed => (scans.2 f failed).mono reaches⟩

theorem scans_ok {Value : Type} {start : SourcePos} {s s' : Cursor} (reaches : Reaches s s')
    (value : Value) : Scans start s (s', .ok value) :=
  ⟨reaches, fun _ failed => by cases failed⟩

theorem scans_error {Value : Type} {start : SourcePos} {s s' : Cursor} (reaches : Reaches s s')
    {f : Failure} (reported : ReportedFrom start s f) :
    Scans start s ((s', .error f) : Cursor × Except Failure Value) :=
  ⟨reaches, fun _ failed => by cases failed; exact reported⟩

theorem multi_line_text_scans (start : SourcePos) (s : Cursor) (content : Bytes) :
    Scans start s (multiLineText start s content) := by
  fun_induction multiLineText start s content with
  | case1 s => exact scans_error (.refl s) (.inl rfl)
  | case2 s => exact scans_ok (.past s _) _
  | case3 s => exact scans_error (.past s _) (.inl rfl)
  | case4 s content _ _ run _ _ induction => exact induction.mono (.past s run)
  | case5 s content _ _ induction => exact induction.mono (.past s 1)

theorem single_line_text_scans (start : SourcePos) (s : Cursor) (value : Bytes) :
    Scans start s (singleLineText start s value) := by
  fun_induction singleLineText start s value with
  | case1 s => exact scans_error (.refl s) (.inl rfl)
  | case2 s => exact scans_error (.refl s) (.inl rfl)
  | case3 s => exact scans_ok (.past s 1) _
  | case4 s value _ _ _ _ stopped msg equation =>
      have escape := read_escape_reaches s.advance value
      rw [equation] at escape
      exact scans_error ((Reaches.past s 1).trans escape) (.inr ⟨s, .refl s, rfl⟩)
  | case5 s value _ _ _ _ read longer equation induction =>
      have escape := read_escape_reaches s.advance value
      rw [equation] at escape
      exact induction.mono ((Reaches.past s 1).trans escape)
  | case6 s value _ _ _ _ induction => exact induction.mono (.past s 1)

theorem failed_literal_lexed {lex : LexerState} {s : Cursor} {f : Failure}
    (reaches : Reaches lex.cursor s) (reported : ReportedFrom lex.cursor.pos lex.cursor f) :
    Lexed lex (failedLiteral lex s f) := by
  unfold failedLiteral
  rcases reported with atStart | ⟨reached, further, position⟩
  · rw [atStart]
    exact lexed_error reaches (.refl _) _ _
  · rw [position]
    exact lexed_error reaches further _ _

theorem lex_string_lexed {lex : LexerState} (some : lex.cursor.eof = false) :
    Lexed lex (lexString lex) := by
  have scans : Scans lex.cursor.pos lex.cursor.advance
      (if lex.cursor.advance.cur = byte '"' ∧ lex.cursor.advance.peekChar 1 = byte '"' then
        multiLineText lex.cursor.pos (lex.cursor.advance.past 2) []
      else singleLineText lex.cursor.pos lex.cursor.advance []) := by
    split_ifs
    · exact (multi_line_text_scans _ _ _).mono (.past _ 2)
    · exact single_line_text_scans _ _ _
  have opened : Reaches lex.cursor lex.cursor.advance := .past _ 1
  unfold lexString
  dsimp only
  split
  · next s f equation =>
      rw [equation] at scans
      exact failed_literal_lexed (opened.trans scans.1) ((scans.2 f rfl).mono opened)
  · next s value equation =>
      rw [equation] at scans
      exact lexed_token (opened.trans scans.1) rfl rfl rfl (reaches_shorter some scans.1)

theorem nested_multi_line_scans (start : SourcePos) (s : Cursor) (text : Bytes) :
    Scans start s (nestedMultiLine start s text) := by
  fun_induction nestedMultiLine start s text with
  | case1 s => exact scans_error (.refl s) (.inl rfl)
  | case2 s => exact scans_ok (.past s _) _
  | case3 s text _ _ run _ induction => exact induction.mono (.past s run)
  | case4 s text _ _ induction => exact induction.mono (.past s 1)

theorem nested_string_scans (start : SourcePos) (s : Cursor) (text : Bytes) :
    Scans start s (nestedString start s text) := by
  fun_induction nestedString start s text with
  | case1 s => exact scans_error (.refl s) (.inl rfl)
  | case2 s => exact scans_error (.refl s) (.inl rfl)
  | case3 s => exact scans_ok (.past s 1) _
  | case4 s text _ _ _ _ escaped _ induction => exact induction.mono (.past s 1)
  | case5 s text _ _ _ _ escaped _ induction =>
      exact induction.mono ((Reaches.past s 1).trans (.past _ 1))
  | case6 s text _ _ _ _ induction => exact induction.mono (.past s 1)

theorem nested_literal_scans (start : SourcePos) (s : Cursor) (text : Bytes) :
    Scans start s (nestedLiteral start s text) := by
  unfold nestedLiteral
  split_ifs
  · exact (nested_multi_line_scans _ _ _).mono (.past s 3)
  · exact (nested_string_scans _ _ _).mono (.past s 1)

theorem hole_text_scans (triple : Bool) (start : SourcePos) (depth : Nat) (s : Cursor)
    (text : Bytes) : Scans start s (holeText triple start depth s text) := by
  fun_induction holeText triple start depth s text with
  | case1 depth s => exact scans_error (.refl s) (.inl rfl)
  | case2 depth s text _ _ induction => exact induction.mono (.past s 1)
  | case3 s => exact scans_ok (.past s 1) _
  | case4 depth s text _ _ _ _ induction => exact induction.mono (.past s 1)
  | case5 depth s text _ _ _ _ stopped f equation =>
      have nested := nested_literal_scans start s text
      rw [equation] at nested
      exact scans_error nested.1 (nested.2 f rfl)
  | case6 depth s text _ _ _ _ read inside equation induction =>
      have nested := nested_literal_scans start s text
      rw [equation] at nested
      exact induction.mono nested.1
  | case7 depth s text _ _ _ _ induction => exact induction.mono (.past s 1)

theorem interpolation_hole_scans (triple : Bool) (start : SourcePos) (s : Cursor)
    (i : Interpolation) : Scans start s (interpolationHole triple start s i) := by
  have dollar : Reaches s s.advance := .past s 1
  unfold interpolationHole
  split_ifs
  · have opened := (hole_text_scans triple start 1 s.advance.advance []).mono
      (dollar.trans (.past _ 1))
    dsimp only
    split
    · next stopped f equation =>
        rw [equation] at opened
        exact scans_error opened.1 (opened.2 f rfl)
    · next read text equation =>
        rw [equation] at opened
        exact scans_ok opened.1 _
  · exact scans_error dollar (.inr ⟨s, .refl s, rfl⟩)
  · exact scans_ok (dollar.trans (hole_name_reaches _ _)) _

theorem interpolated_text_scans (triple raw : Bool) (start : SourcePos) (s : Cursor)
    (i : Interpolation) : Scans start s (interpolatedText triple raw start s i) := by
  fun_induction interpolatedText triple raw start s i with
  | case1 s => exact scans_error (.refl s) (.inl rfl)
  | case2 s => exact scans_error (.refl s) (.inl rfl)
  | case3 s => exact scans_ok (.past s _) _
  | case4 s => exact scans_error (.past s _) (.inl rfl)
  | case5 s i _ _ _ _ run _ _ induction => exact induction.mono (.past s run)
  | case6 s => exact scans_ok (.past s 1) _
  | case7 s i _ _ _ _ _ induction => exact induction.mono ((Reaches.past s 1).trans (.past _ 1))
  | case8 s i _ _ _ _ _ stopped f equation =>
      have hole := interpolation_hole_scans triple start s i
      rw [equation] at hole
      exact scans_error hole.1 (hole.2 f rfl)
  | case9 s i _ _ _ _ _ read longer equation induction =>
      have hole := interpolation_hole_scans triple start s i
      rw [equation] at hole
      exact induction.mono hole.1
  | case10 s i _ _ _ _ _ stopped msg equation =>
      have escape := read_escape_reaches s.advance i.literal
      rw [equation] at escape
      exact scans_error ((Reaches.past s 1).trans escape) (.inr ⟨s, .refl s, rfl⟩)
  | case11 s i _ _ _ _ _ read literal equation induction =>
      have escape := read_escape_reaches s.advance i.literal
      rw [equation] at escape
      exact induction.mono ((Reaches.past s 1).trans escape)
  | case12 s i _ _ _ _ _ induction => exact induction.mono (.past s 1)

/-- A literal that starts with an identifier. -/
theorem lex_interpolated_lexed {lex : LexerState} {s : Cursor} (interpolator : Bytes)
    (reaches : Reaches lex.cursor s) (shorter : s.rest.length < lex.cursor.rest.length) :
    Lexed lex (lexInterpolated (lex.moved s) interpolator lex.cursor.pos) := by
  have opened : Reaches s (if (s.advance.cur == byte '"' && s.advance.peekChar 1 == byte '"') = true
      then s.advance.past 2 else s.advance) := by
    split_ifs
    · exact (Reaches.past s 1).trans (.past _ 2)
    · exact .past s 1
  unfold lexInterpolated
  dsimp only [LexerState.moved]
  generalize (if (s.advance.cur == byte '"' && s.advance.peekChar 1 == byte '"') = true
      then s.advance.past 2 else s.advance) = inside at opened
  have scans := interpolated_text_scans
    (s.advance.cur == byte '"' && s.advance.peekChar 1 == byte '"') (textOf interpolator == "raw")
    lex.cursor.pos inside { literalStart := inside.pos }
  split
  · next stopped f equation =>
      rw [equation] at scans
      have whole := reaches.trans opened
      exact failed_literal_lexed (whole.trans scans.1) ((scans.2 f rfl).mono whole)
  · next read i equation =>
      rw [equation] at scans
      exact lexed_token (reaches.trans (opened.trans scans.1)) rfl rfl rfl
        (Nat.lt_of_le_of_lt (opened.trans scans.1).length_le shorter)

theorem keyword_raw : ∀ entry ∈ keywords, isRawKind entry.2 = true := by decide

theorem lex_identifier_lexed {lex : LexerState} (some : lex.cursor.eof = false)
    (begins : identCharLength lex.cursor.rest > 0) : Lexed lex (lexIdentifierOrKeyword lex) := by
  have reaches := identifier_text_reaches lex.cursor [] false
  have shorter : (identifierText lex.cursor [] false).2.rest.length < lex.cursor.rest.length := by
    rw [identifierText, dif_neg (by simp [some]), if_neg (by simp)]
    dsimp only
    rw [dif_neg (by omega)]
    exact Nat.lt_of_le_of_lt (identifier_text_reaches _ _ _).length_le (past_shorter some begins)
  unfold lexIdentifierOrKeyword
  dsimp only
  split
  · exact lex_interpolated_lexed _ reaches shorter
  · split
    · exact lexed_token reaches rfl rfl rfl shorter
    · split
      · next kind found =>
          obtain ⟨before, after, split, -⟩ := List.lookup_eq_some_iff.mp found
          have member : (textOf (identifierText lex.cursor [] false).1, kind) ∈ keywords := by
            rw [split]
            simp
          exact lexed_token reaches rfl rfl (keyword_raw _ member) shorter
      · exact lexed_token reaches rfl rfl rfl shorter

theorem punctuation_raw {c : UInt8} {kind : TokenKind} (found : punctuation c = some kind) :
    isRawKind kind = true ∧ c ≠ 0 := by
  have all : ∀ mark ∈ punctuationMarks, isRawKind mark.2 = true ∧ mark.1 ≠ 0 := by decide
  exact all (c, kind) (punctuation_mark found)

theorem lex_token_lexed {lex : LexerState} (some : lex.cursor.eof = false) :
    Lexed lex (lexToken lex) := by
  have advanced := advance_shorter some
  unfold lexToken
  dsimp only
  split
  · next kind found =>
      exact lexed_token (.past _ 1) rfl rfl (punctuation_raw found).1 advanced
  · split_ifs with h₁ h₂ h₃ point digit digit operator ident
    · exact lex_backquoted_lexed lex some
    · exact lex_string_lexed some
    · exact lex_char_lexed some
    · exact lex_number_lexed (.inr ⟨point, digit⟩)
    · exact lexed_token (.past _ 1) rfl rfl rfl advanced
    · exact lex_number_lexed (.inl digit)
    · exact lex_operator_lexed operator
    · exact lex_identifier_lexed some ident
    · exact lexed_error (s := lex.cursor) (.refl _) (.refl _) _ _

/-- Where the next token starts: behind the trivia, or at a comment that is not
closed. -/
def tokenStart (lex : LexerState) : Cursor :=
  match skipTrivia lex.cursor with
  | (s, none) => s
  | (_, some comment) => comment

theorem skip_trivia_reaches (s : Cursor) :
    Reaches s (skipTrivia s).1 ∧
      ∀ comment, (skipTrivia s).2 = some comment →
        Reaches s comment ∧ Reaches comment (skipTrivia s).1 := by
  fun_induction skipTrivia s with
  | case1 s => exact ⟨.refl s, fun _ none => by cases none⟩
  | case2 s _ _ induction =>
      exact ⟨(Reaches.past s 1).trans induction.1, fun comment found =>
        (induction.2 comment found).imp (Reaches.past s 1).trans id⟩
  | case3 s _ _ _ induction =>
      exact ⟨(Reaches.past s _).trans induction.1, fun comment found =>
        (induction.2 comment found).imp (Reaches.past s _).trans id⟩
  | case4 s =>
      refine ⟨.past s _, fun comment found => ?_⟩
      cases found
      exact ⟨.refl s, .past s _⟩
  | case5 s _ _ _ _ length _ induction =>
      exact ⟨(Reaches.past s _).trans induction.1, fun comment found =>
        (induction.2 comment found).imp (Reaches.past s _).trans id⟩
  | case6 s => exact ⟨.refl s, fun _ none => by cases none⟩

/-- What one call of `next` does to a lexer that is not done. -/
structure Scanned (lex : LexerState) (result : RawToken × LexerState) : Prop where
  start : Reaches lex.cursor (tokenStart lex)
  behind : Reaches (tokenStart lex) result.2.cursor
  flag : result.1.kind ≠ .endOfFile →
    result.1.firstOnLine = (result.1.pos.line != lex.lastTokenLine)
  position : ∃ s, Reaches (tokenStart lex) s ∧ result.1.pos = s.pos
  kind : result.1.kind = .endOfFile ∨ isRawKind result.1.kind = true
  goesOn : result.1.kind ≠ .endOfFile → result.1.kind ≠ .error →
    result.2.done = false ∧ result.2.lastTokenLine = (tokenStart lex).pos.line ∧
      result.2.unclaimed = [] ∧ result.2.cursor.rest.length < lex.cursor.rest.length

theorem token_at_scanned {lex : LexerState} {s : Cursor} {blank : Bool}
    (trivia : skipTrivia lex.cursor = (s, none)) :
    Scanned lex (tokenAt { lex.moved s with pastBlankLine := blank }) := by
  have reaches := (skip_trivia_reaches lex.cursor).1
  rw [trivia] at reaches
  have start : tokenStart lex = s := by rw [tokenStart, trivia]
  set here : LexerState := { lex.moved s with pastBlankLine := blank } with hereEq
  have kept : (noteIndentation here).cursor = s ∧
      (noteIndentation here).lastTokenLine = lex.lastTokenLine := by
    unfold noteIndentation
    dsimp only
    split_ifs <;> exact ⟨rfl, rfl⟩
  unfold tokenAt
  dsimp only
  split
  · refine ⟨start ▸ reaches, start ▸ .refl s, fun none => absurd rfl none, ⟨s, start ▸ .refl s, rfl⟩,
      .inl rfl, fun none => absurd rfl none⟩
  · next more =>
      rw [Bool.not_eq_true] at more
      split
      · refine ⟨start ▸ reaches, ?_, fun _ => ?_, ⟨s, start ▸ .refl s, rfl⟩, .inr rfl,
          fun _ none => absurd rfl none⟩
        · rw [start]
          change Reaches s (noteIndentation here).cursor
          rw [kept.1]
          exact .refl s
        · change (s.pos.line != (noteIndentation here).lastTokenLine) = _
          rw [kept.2]
          rfl
      · have lexed : Lexed (noteIndentation here) (lexToken (noteIndentation here)) := by
          refine lex_token_lexed ?_
          rw [kept.1]
          exact more
        have moves := lexed.reaches
        have flag := lexed.flag
        have position := lexed.position
        have progress := lexed.progress
        rw [kept.1] at moves position progress
        rw [kept.2] at flag
        refine ⟨start ▸ reaches, start ▸ moves, fun _ => flag, start ▸ position, .inr lexed.kind,
          fun _ fine => ⟨by simpa using fine, by rw [start]; rfl, rfl, ?_⟩⟩
        exact Nat.lt_of_lt_of_le (progress fine) reaches.length_le

theorem next_scanned {lex : LexerState} (ready : lex.done = false) : Scanned lex (next lex) := by
  have trivia := skip_trivia_reaches lex.cursor
  unfold next
  rw [if_neg (by simp [ready])]
  split
  · next s comment equation =>
      have start : tokenStart lex = comment := by rw [tokenStart, equation]
      rw [equation] at trivia
      obtain ⟨before, after⟩ := trivia.2 comment rfl
      exact ⟨start ▸ before, start ▸ after, fun _ => rfl, ⟨comment, start ▸ .refl _, rfl⟩, .inr rfl,
        fun _ none => absurd rfl none⟩
  · next s equation => exact token_at_scanned equation

theorem tokenize_from_raw : ∀ (fuel : Nat) (lex : LexerState), lex.done = false →
    lex.cursor.rest.length < fuel →
    EndsOnce ((tokenizeFrom fuel lex).map RawToken.toToken) ∧
      ∀ t ∈ (tokenizeFrom fuel lex).map RawToken.toToken, isLayoutKind t.kind = false
  | 0, _, _, short => absurd short (Nat.not_lt_zero _)
  | fuel + 1, lex, ready, short => by
      have scanned := next_scanned ready
      have ordinary : isLayoutKind (next lex).1.kind = false := by
        rcases scanned.kind with eof | raw
        · rw [eof]
          rfl
        · unfold isRawKind at raw
          simp only [Bool.and_eq_true, Bool.not_eq_eq_eq_not, Bool.not_true] at raw
          exact raw.1
      unfold tokenizeFrom
      dsimp only
      split
      · next stops => exact ⟨⟨[], (next lex).1.toToken, rfl, stops, by simp⟩, by simpa using ordinary⟩
      · next goes =>
          push Not at goes
          obtain ⟨stillReady, -, -, shorter⟩ := scanned.goesOn goes.1 goes.2
          obtain ⟨⟨body, last, split, final, before⟩, plain⟩ :=
            tokenize_from_raw fuel (next lex).2 stillReady (by omega)
          refine ⟨⟨(next lex).1.toToken :: body, last, ?_, final, ?_⟩, ?_⟩
          · rw [List.map_cons, split]
            rfl
          · intro t member
            rcases List.mem_cons.mp member with rfl | inside
            · exact goes
            · exact before t inside
          · intro t member
            rcases List.mem_cons.mp member with rfl | inside
            · exact ordinary
            · exact plain t inside

theorem source_length_le (source : Bytes) :
    (LexerState.ofSource source).cursor.rest.length ≤ source.length := by
  have mark : (withoutByteOrderMark source).length ≤ source.length := by
    unfold withoutByteOrderMark
    split_ifs
    · simp
    · exact Nat.le_refl _
  refine Nat.le_trans ?_ mark
  simp [LexerState.ofSource]

/-- The tokens of every source are a raw vector of the layout pass. -/
theorem tokenize_all_raw (source : Bytes) :
    RawVector ((tokenizeAll source).map RawToken.toToken) := by
  have read := tokenize_from_raw (source.length + 1) (.ofSource source) rfl
    (Nat.lt_succ_of_le (source_length_le source))
  exact ⟨read.1, read.2⟩

/-- The states in which `tokenizeAll` calls `next`. -/
def statesFrom : Nat → LexerState → List LexerState
  | 0, _ => []
  | fuel + 1, lex =>
      lex :: if (next lex).1.kind = .endOfFile ∨ (next lex).1.kind = .error then []
        else statesFrom fuel (next lex).2

def lexerStates (source : Bytes) : List LexerState :=
  statesFrom (source.length + 1) (.ofSource source)

/-- The next state is the one `next` leaves after a token. -/
theorem states_step {fuel : Nat} {start lex lex' : LexerState} {i : Nat}
    (ready : start.done = false) (here : (statesFrom fuel start)[i]? = some lex)
    (after : (statesFrom fuel start)[i + 1]? = some lex') :
    lex.done = false ∧ lex' = (next lex).2 ∧ (next lex).1.kind ≠ .endOfFile ∧
      (next lex).1.kind ≠ .error := by
  induction fuel generalizing start i with
  | zero => simp [statesFrom] at here
  | succ fuel induction =>
      unfold statesFrom at here after
      rw [List.getElem?_cons_succ] at after
      split_ifs at here after with stops
      · simp at after
      · push Not at stops
        obtain ⟨stillReady, -⟩ := (next_scanned ready).goesOn stops.1 stops.2
        cases i with
        | zero =>
            obtain rfl : start = lex := by simpa using here
            refine ⟨ready, ?_, stops⟩
            cases fuel with
            | zero => simp [statesFrom] at after
            | succ fuel =>
                unfold statesFrom at after
                simpa using after.symm
        | succ i =>
            rw [List.getElem?_cons_succ] at here
            exact induction stillReady here after

theorem tokenize_from_states (fuel : Nat) (lex : LexerState) :
    tokenizeFrom fuel lex = (statesFrom fuel lex).map fun lex => (next lex).1 := by
  induction fuel generalizing lex with
  | zero => rfl
  | succ fuel induction =>
      unfold tokenizeFrom statesFrom
      dsimp only
      split_ifs
      · rfl
      · rw [List.map_cons, induction]

theorem tokenize_all_states (source : Bytes) :
    tokenizeAll source = (lexerStates source).map fun lex => (next lex).1 :=
  tokenize_from_states _ _

end ProtoScala.Frontend.LexerRuns
