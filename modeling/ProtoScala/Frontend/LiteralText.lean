import Mathlib.Algebra.Ring.Nat
import ProtoScala.Frontend.CharacterBoundaries

/-!
# The text of literals

A `\u` escape appends the encoding of its code unit, also when the unit is one
half of a surrogate pair. `lexChar` decodes what it has read and refuses it; the
string scanners keep it. The text of a literal is therefore well formed exactly
when none of its escapes names a surrogate.
-/

namespace ProtoScala.Frontend.LiteralText

open ProtoScala.Library.Utf8
open ProtoScala.Frontend.Lexer
open ProtoScala.Frontend.Lexer.Cursor
open ProtoScala.Frontend.LexerRuns
open ProtoScala.Frontend.CharacterBoundaries
open ProtoScala.Frontend.Layout (SourcePos TokenKind)

set_option autoImplicit false

/-- One half of a surrogate pair. -/
def isSurrogate (unit : Nat) : Bool := decide (0xD800 ≤ unit) && decide (unit ≤ 0xDFFF)

/-- The code unit named by the digits after the `u`s. -/
def escapeUnit (s : Cursor) : Nat :=
  numeralValue 16 ((s.skipWhile (· == byte 'u')).rest.take 4)

/-- The units that the escape at the cursor names. -/
def escapeUnits (s : Cursor) : List Nat := if s.cur = byte 'u' then [escapeUnit s] else []

def afterEscape (s : Cursor) : Cursor :=
  if s.cur = byte 'u' then (s.skipWhile (· == byte 'u')).past 4 else s.advance

theorem after_escape_reaches (s : Cursor) : Reaches s (afterEscape s) := by
  unfold afterEscape
  split_ifs
  · exact (Reaches.past s _).trans (.past _ 4)
  · exact .past s 1

/-- The units named by the escapes of a string in one pair of quotes. -/
def stringUnits (s : Cursor) : List Nat :=
  if ending : s.eof = true then []
  else if s.cur = byte '\n' then []
  else if s.cur = byte '"' then []
  else if s.cur = byte '\\' then escapeUnits s.advance ++ stringUnits (afterEscape s.advance)
  else stringUnits s.advance
termination_by s.rest.length
decreasing_by
  · exact reaches_shorter (by simpa using ending) (after_escape_reaches _)
  · exact advance_shorter (by simpa using ending)

/-- The cursor after a hole. -/
def afterHole (triple : Bool) (start : SourcePos) (s : Cursor) : Cursor :=
  (interpolationHole triple start s { literalStart := start }).1

theorem after_hole_reaches (triple : Bool) (start : SourcePos) (s : Cursor) :
    Reaches s.advance (afterHole triple start s) := interpolation_hole_reaches _ _ _ _

/-- The units named by the escapes of the literal parts of an interpolated
string. -/
def interpolationUnits (triple raw : Bool) (start : SourcePos) (s : Cursor) : List Nat :=
  if ending : s.eof = true then []
  else if !triple && s.cur == byte '\n' then []
  else if quote : s.cur = byte '"' then
    if triple && decide (quoteRun s < 3) then
      interpolationUnits triple raw start (s.past (quoteRun s))
    else []
  else if s.cur = byte '$' then
    if s.advance.cur = byte '$' then interpolationUnits triple raw start s.advance.advance
    else interpolationUnits triple raw start (afterHole triple start s)
  else if !triple && !raw && s.cur == byte '\\' then
    escapeUnits s.advance ++ interpolationUnits triple raw start (afterEscape s.advance)
  else interpolationUnits triple raw start s.advance
termination_by s.rest.length
decreasing_by
  · exact past_shorter (by simpa using ending) (quote_run_positive (by simpa using ending) quote)
  · exact reaches_shorter (by simpa using ending) (.past _ 1)
  · exact reaches_shorter (by simpa using ending) (after_hole_reaches _ _ _)
  · exact reaches_shorter (by simpa using ending) (after_escape_reaches _)
  · exact advance_shorter (by simpa using ending)

/-- The units named by the escapes of the string literal that starts at the
cursor, without or with an interpolator. -/
def literalUnits (s : Cursor) : List Nat :=
  if s.cur = byte '"' then
    if s.advance.cur = byte '"' ∧ s.advance.peekChar 1 = byte '"' then [] else stringUnits s.advance
  else
    let name := identifierText s [] false
    let opened := name.2.advance
    let triple := opened.cur == byte '"' && opened.peekChar 1 == byte '"'
    interpolationUnits triple (textOf name.1 == "raw") s.pos
      (if triple then opened.past 2 else opened)

/-- The payload of a literal token is well-formed text. -/
structure TextWellFormed (t : RawToken) : Prop where
  string : t.kind = .stringLit → WellFormed t.stringValue
  parts : t.kind = .interpolatedString →
    ∀ part ∈ t.parts, part.isHole = false → WellFormed part.text
  character : t.kind = .charLit → ∃ c : Char, c.toNat = t.charValue

/-- An encoded surrogate stands after a well-formed beginning. -/
def Broken (bytes : Bytes) : Prop :=
  ∃ good b rest, bytes = good ++ 0xED :: b :: rest ∧ WellFormed good ∧ 0xA0 ≤ b

theorem Broken.append {bytes : Bytes} (broken : Broken bytes) (more : Bytes) :
    Broken (bytes ++ more) := by
  obtain ⟨good, b, rest, rfl, well, high⟩ := broken
  exact ⟨good, b, rest ++ more, by simp, well, high⟩

theorem Broken.ill_formed {bytes : Bytes} (broken : Broken bytes) : ¬WellFormed bytes := by
  obtain ⟨good, b, rest, rfl, well, high⟩ := broken
  intro whole
  exact surrogate_ill_formed high rest (well.of_append whole)

theorem Broken.grown {bytes more : Bytes} (broken : Broken bytes) (within : bytes <+: more) :
    Broken more := by
  obtain ⟨tail, rfl⟩ := within
  exact broken.append tail

theorem low_bits (cp : Nat) : 0x80 ||| (cp &&& 0x3F) = 0x80 + cp % 64 := by
  have mask : cp &&& 0x3F = cp % 64 := Nat.and_two_pow_sub_one_eq_mod cp 6
  have whole := Nat.shiftLeft_add_eq_or_of_lt (b := cp % 64) (i := 6) (Nat.mod_lt cp (by decide)) 2
  rw [mask]
  exact whole.symm

theorem lead_bits_of_two {cp : Nat} (small : cp < 0x800) : 0xC0 ||| (cp >>> 6) = 0xC0 + cp / 64 := by
  have value : cp >>> 6 = cp / 64 := Nat.shiftRight_eq_div_pow cp 6
  have whole := Nat.shiftLeft_add_eq_or_of_lt (b := cp / 64) (i := 6) (by omega) 3
  rw [value]
  exact whole.symm

theorem lead_bits_of_three {cp : Nat} (small : cp < 0x10000) :
    0xE0 ||| (cp >>> 12) = 0xE0 + cp / 4096 := by
  have value : cp >>> 12 = cp / 4096 := Nat.shiftRight_eq_div_pow cp 12
  have whole := Nat.shiftLeft_add_eq_or_of_lt (b := cp / 4096) (i := 4) (by omega) 14
  rw [value]
  exact whole.symm

/-- The encoding of a code unit that is a character. -/
theorem append_scalar {out : Bytes} {cp : Nat} (small : cp < 0x10000)
    (scalar : isSurrogate cp = false) (well : WellFormed out) :
    WellFormed (appendUtf8 out cp) := by
  have nat : (Char.ofNat cp).val.toNat = cp :=
    char_of_scalar (by omega) (by simpa [isSurrogate] using scalar)
  have encoded : appendUtf8 out cp = out ++ String.utf8EncodeChar (Char.ofNat cp) := by
    unfold appendUtf8 String.utf8EncodeChar
    dsimp only
    rw [nat]
    split_ifs <;> try omega
    · rfl
    · have lead : cp / 64 % 0x20 = cp / 64 := Nat.mod_eq_of_lt (by omega)
      rw [lead_bits_of_two (by omega), low_bits, lead, Nat.add_comm 0xC0, Nat.add_comm 0x80]
    · have lead : cp / 4096 % 0x10 = cp / 4096 := Nat.mod_eq_of_lt (by omega)
      have middle : cp >>> 6 = cp / 64 := Nat.shiftRight_eq_div_pow cp 6
      rw [lead_bits_of_three (by omega), low_bits, low_bits, middle, lead, Nat.add_comm 0xE0,
        Nat.add_comm 0x80, Nat.add_comm 0x80]
  rw [encoded]
  exact well.append (well_formed_char _)

/-- The encoding of a code unit that is none. -/
theorem append_surrogate {out : Bytes} {cp : Nat} (surrogate : isSurrogate cp = true)
    (well : WellFormed out) : Broken (appendUtf8 out cp) := by
  simp only [isSurrogate, Bool.and_eq_true, decide_eq_true_eq] at surrogate
  have lead : cp / 4096 = 13 := by omega
  have middle : cp >>> 6 = cp / 64 := Nat.shiftRight_eq_div_pow cp 6
  refine ⟨out, UInt8.ofNat (0x80 + cp / 64 % 64), [UInt8.ofNat (0x80 + cp % 64)], ?_, well, ?_⟩
  · unfold appendUtf8
    rw [if_neg (by omega), if_neg (by omega), if_pos (by omega), lead_bits_of_three (by omega),
      low_bits, low_bits, middle, lead]
    rfl
  · rw [UInt8.le_iff_toNat_le, UInt8.toNat_ofNat']
    change 160 ≤ _
    omega

theorem append_extends (out : Bytes) (cp : Nat) : out <+: appendUtf8 out cp := by
  unfold appendUtf8
  split_ifs <;> exact List.prefix_append _ _

theorem hex_digit_value (c : UInt8) (digit : (hexDigit c).isSome = true) :
    digitValue c < 16 ∧ c < 0x80 ∧ c ≠ 0 := by
  have digits : (byte '0').toNat = 48 ∧ (byte '9').toNat = 57 ∧ (byte 'a').toNat = 97 ∧
      (byte 'f').toNat = 102 ∧ (byte 'A').toNat = 65 ∧ (byte 'F').toNat = 70 := by decide
  obtain ⟨zero, nine, lowerA, lowerF, upperA, upperF⟩ := digits
  have scalars : '0'.toNat = 48 ∧ 'a'.toNat = 97 ∧ 'A'.toNat = 65 := by decide
  obtain ⟨zeroScalar, lowerScalar, upperScalar⟩ := scalars
  rw [← UInt8.toNat_inj.ne, UInt8.lt_iff_toNat_lt]
  unfold digitValue
  unfold hexDigit at digit ⊢
  simp only [UInt8.le_iff_toNat_le, zero, nine, lowerA, lowerF, upperA, upperF, zeroScalar,
    lowerScalar, upperScalar] at digit ⊢
  split_ifs at digit ⊢ <;> simp at digit ⊢ <;> omega

/-- What the loop over the digits of an escape has read. -/
theorem read_hex_digits_ok {count cp cp' : Nat} {s read : Cursor}
    (digits : readHexDigits count cp s = (read, some cp')) :
    read = s.past count ∧
      cp' = (s.rest.take count).foldl (fun value c => value * 16 + digitValue c) cp ∧
      cp' < (cp + 1) * 16 ^ count ∧ (0 < count → Behind s read) := by
  induction count generalizing cp s with
  | zero =>
      cases digits
      exact ⟨rfl, rfl, by simp, fun positive => absurd positive (Nat.lt_irrefl 0)⟩
  | succ count induction =>
      rw [readHexDigits] at digits
      cases digit : hexDigit s.cur with
      | none => simp [digit] at digits
      | some d =>
          rw [digit] at digits
          dsimp only at digits
          obtain ⟨least, ascii, some⟩ := hex_digit_value s.cur (by rw [digit]; rfl)
          have more : s.eof = false := some_of_cur some
          have value : digitValue s.cur = d := by rw [digitValue, digit]; rfl
          have step : (cp <<< 4) ||| d = cp * 16 + d := by
            rw [← Nat.shiftLeft_add_eq_or_of_lt (i := 4) (by omega), Nat.shiftLeft_eq]
          rw [step] at digits
          obtain ⟨reached, result, bound, behind⟩ := induction digits
          refine ⟨?_, ?_, ?_, fun _ => ?_⟩
          · rw [reached, Nat.add_comm count 1]
            exact past_past s 1 count
          · rw [result, rest_of_cur more, List.take_succ_cons, List.foldl_cons, value]
          · calc cp' < (cp * 16 + d + 1) * 16 ^ count := bound
              _ ≤ ((cp + 1) * 16) * 16 ^ count := Nat.mul_le_mul_right _ (by omega)
              _ = (cp + 1) * 16 ^ (count + 1) := by rw [Nat.pow_succ, Nat.mul_assoc, Nat.mul_comm 16]
          · cases count with
            | zero =>
                rw [reached, past_zero]
                exact behind_advance more ascii
            | succ count => exact (behind (Nat.succ_pos _)).of_reaches (.past s 1)

/-- What one escape adds. -/
structure Escape (s : Cursor) (out : Bytes) (read : Cursor) (result : Bytes) : Prop where
  cursor : read = afterEscape s
  behind : Behind s read
  extends_ : out <+: result
  whole : WellFormed out → (∀ unit ∈ escapeUnits s, isSurrogate unit = false) → WellFormed result
  broken : WellFormed out → (∃ unit ∈ escapeUnits s, isSurrogate unit = true) → Broken result

theorem escaped_byte_ascii (c b : UInt8) (found : escapedByte c = some b) :
    c < 0x80 ∧ c ≠ 0 ∧ c ≠ byte 'u' ∧ b < 0x80 := by
  unfold escapedByte at found
  split_ifs at found
  all_goals
    cases found
    subst c
    decide

theorem read_escape_ok {s read : Cursor} {out result : Bytes}
    (escaped : readEscape s out = (read, .ok result)) : Escape s out read result := by
  unfold readEscape at escaped
  split at escaped
  · next b found =>
      cases escaped
      obtain ⟨ascii, some, notU, small⟩ := escaped_byte_ascii s.cur b found
      have none : escapeUnits s = [] := if_neg notU
      refine ⟨(if_neg notU).symm, behind_advance (some_of_cur some) ascii,
        List.prefix_append _ _, fun well _ => well.append (well_formed_ascii small), ?_⟩
      rintro - ⟨unit, member, -⟩
      simp [none] at member
  · split_ifs at escaped with u
    · split at escaped
      · cases escaped
      · next stopped cp digits =>
          cases escaped
          obtain ⟨reached, value, bound, behind⟩ := read_hex_digits_ok digits
          have units : escapeUnits s = [cp] := by
            rw [escapeUnits, if_pos u, value]
            rfl
          refine ⟨?_, (behind (by decide)).of_reaches (.past s _), append_extends out cp, ?_, ?_⟩
          · rw [reached, afterEscape, if_pos u]
          · intro well scalar
            exact append_scalar (by omega) (scalar cp (by simp [units])) well
          · rintro well ⟨unit, member, surrogate⟩
            rw [units, List.mem_singleton] at member
            exact append_surrogate (member ▸ surrogate) well
    · cases escaped
    · cases escaped

/-- A text that goes on before a byte below 0x80 is complete. -/
theorem cut {text : Bytes} {s : Cursor} (well : WellFormed (text ++ s.rest))
    (more : s.eof = false) (ascii : s.cur < 0x80) : WellFormed text ∧ Whole s := by
  have before : WellFormed text := by
    rw [rest_of_cur more] at well
    exact (well.split_ascii ascii).1
  exact ⟨before, before.of_append well⟩

/-- Reading a byte moves it from the source to the text. -/
theorem byte_read {text : Bytes} {s : Cursor} (well : WellFormed (text ++ s.rest))
    (more : s.eof = false) : WellFormed ((text ++ [s.cur]) ++ s.advance.rest) := by
  rwa [List.append_assoc, List.singleton_append, ← rest_of_cur more]

theorem quotes_well_formed (count : Nat) : WellFormed (quotes count) := by
  induction count with
  | zero => exact well_formed_nil
  | succ count induction => exact (well_formed_ascii (by decide : byte '"' < 0x80)).append induction

theorem quote_run_text (s : Cursor) : quotes (quoteRun s) = s.rest.take (quoteRun s) := by
  have whole : s.rest.takeWhile (· == byte '"') = s.rest.take (quoteRun s) :=
    List.prefix_iff_eq_take.mp (List.takeWhile_prefix _)
  rw [← whole]
  refine (List.eq_replicate_iff.mpr ⟨rfl, fun c member => ?_⟩).symm
  simpa using List.mem_takeWhile_imp member

theorem quotes_read {text : Bytes} {s : Cursor} (well : WellFormed (text ++ s.rest)) :
    WellFormed ((text ++ quotes (quoteRun s)) ++ (s.past (quoteRun s)).rest) := by
  have split : quotes (quoteRun s) ++ (s.past (quoteRun s)).rest = s.rest := by
    rw [quote_run_text]
    exact List.take_append_drop _ _
  rwa [List.append_assoc, split]

theorem multi_line_well_formed {start : SourcePos} {s read : Cursor} {content value : Bytes}
    (closed : multiLineText start s content = (read, .ok value))
    (well : WellFormed (content ++ s.rest)) : WellFormed value := by
  fun_induction multiLineText start s content with
  | case1 s => cases closed
  | case2 s content more quote run =>
      cases closed
      exact (cut well (by simpa using more) (by rw [quote]; decide)).1.append (quotes_well_formed _)
  | case3 s => cases closed
  | case4 s content _ _ run _ _ induction => exact induction closed (quotes_read well)
  | case5 s content more _ induction => exact induction closed (byte_read well (by simpa using more))

theorem single_line_extends {start : SourcePos} {s read : Cursor} {text value : Bytes}
    (closed : singleLineText start s text = (read, .ok value)) : text <+: value := by
  fun_induction singleLineText start s text with
  | case1 s => cases closed
  | case2 s => cases closed
  | case3 s text =>
      cases closed
      exact List.prefix_rfl
  | case4 s => cases closed
  | case5 s text _ _ _ _ escaped longer equation induction =>
      exact (read_escape_ok equation).extends_.trans (induction closed)
  | case6 s text _ _ _ _ induction => exact (List.prefix_append _ _).trans (induction closed)

theorem single_line_well_formed {start : SourcePos} {s read : Cursor} {text value : Bytes}
    (closed : singleLineText start s text = (read, .ok value))
    (well : WellFormed (text ++ s.rest)) :
    WellFormed value ↔ ∀ unit ∈ stringUnits s, isSurrogate unit = false := by
  fun_induction singleLineText start s text with
  | case1 s => cases closed
  | case2 s => cases closed
  | case3 s text more line quote =>
      cases closed
      rw [stringUnits, dif_neg more, if_neg line, if_pos quote]
      simp [(cut well (by simpa using more) (by rw [quote]; decide)).1]
  | case4 s => cases closed
  | case5 s text more line quote slash escaped longer equation induction =>
      obtain ⟨before, whole⟩ := cut well (by simpa using more) (by rw [slash]; decide)
      have escape := read_escape_ok equation
      rw [stringUnits, dif_neg more, if_neg line, if_neg quote, if_pos slash, ← escape.cursor]
      simp only [List.mem_append, or_imp, forall_and]
      by_cases scalar : ∀ unit ∈ escapeUnits s.advance, isSurrogate unit = false
      · rw [and_iff_right scalar]
        have behind : Whole escaped := whole.behind (escape.behind.of_reaches (.past s 1))
        exact induction closed ((escape.whole before scalar).append behind)
      · have surrogate : ∃ unit ∈ escapeUnits s.advance, isSurrogate unit = true := by
          simpa using scalar
        have ill := ((escape.broken before surrogate).grown (single_line_extends closed)).ill_formed
        exact ⟨fun good => absurd good ill, fun both => absurd both.1 scalar⟩
  | case6 s text more line quote slash induction =>
      rw [stringUnits, dif_neg more, if_neg line, if_neg quote, if_neg slash]
      exact induction closed (byte_read well (by simpa using more))

/-- A part of the interpolation holds an encoded surrogate. -/
def IllText (i : Interpolation) : Prop :=
  Broken i.literal ∨ ∃ part ∈ i.parts, part.isHole = false ∧ Broken part.text

def PartsWellFormed (parts : List InterpolationPart) : Prop :=
  ∀ part ∈ parts, part.isHole = false → WellFormed part.text

theorem flush_well_formed {i : Interpolation} (literal : WellFormed i.literal)
    (parts : PartsWellFormed i.parts) : PartsWellFormed (flushLiteral i) := by
  unfold flushLiteral
  split_ifs
  · exact parts
  · intro part member notHole
    rcases List.mem_append.mp member with before | last
    · exact parts part before notHole
    · rw [List.mem_singleton] at last
      rw [last]
      exact literal

theorem flush_ill {i : Interpolation} (ill : IllText i) :
    ∃ part ∈ flushLiteral i, part.isHole = false ∧ Broken part.text := by
  unfold flushLiteral
  rcases ill with broken | ⟨part, member, ill⟩
  · have some : i.literal.isEmpty = false := by
      obtain ⟨good, b, rest, split, -, -⟩ := broken
      rw [split]
      simp
    rw [if_neg (by simp [some])]
    exact ⟨_, List.mem_append_right _ (List.mem_singleton_self _), rfl, broken⟩
  · refine ⟨part, ?_, ill⟩
    split_ifs
    · exact member
    · exact List.mem_append_left _ member

theorem flush_ill_formed {i : Interpolation} (ill : IllText i) :
    ¬PartsWellFormed (flushLiteral i) := by
  obtain ⟨part, member, notHole, broken⟩ := flush_ill ill
  exact fun parts => broken.ill_formed (parts part member notHole)

/-- A literal that only grows keeps what is wrong. -/
theorem IllText.literal {i j : Interpolation} (ill : IllText i) (same : j.parts = i.parts)
    (longer : i.literal <+: j.literal) : IllText j := by
  rcases ill with broken | some
  · exact .inl (broken.grown longer)
  · exact .inr (same ▸ some)

/-- The interpolation that a hole leaves. -/
theorem interpolation_hole_ok {triple : Bool} {start : SourcePos} {s read : Cursor}
    {i result : Interpolation}
    (closed : interpolationHole triple start s i = (read, .ok result)) :
    read = afterHole triple start s ∧ ∃ text position, result = withHole i text position read := by
  unfold afterHole
  unfold interpolationHole at closed ⊢
  split_ifs at closed ⊢
  · dsimp only at closed ⊢
    split at closed
    · cases closed
    · next inside text equation =>
        cases closed
        exact ⟨rfl, _, _, rfl⟩
  · cases closed
  · cases closed
    exact ⟨rfl, _, _, rfl⟩

theorem with_hole_ill {i : Interpolation} (ill : IllText i) (text : Bytes) (position : SourcePos)
    (s : Cursor) : IllText (withHole i text position s) := by
  obtain ⟨part, member, notHole, broken⟩ := flush_ill ill
  exact .inr ⟨part, List.mem_append_left _ member, notHole, broken⟩

theorem with_hole_well_formed {i : Interpolation} (literal : WellFormed i.literal)
    (parts : PartsWellFormed i.parts) (text : Bytes) (position : SourcePos) (s : Cursor) :
    PartsWellFormed (withHole i text position s).parts := by
  intro part member notHole
  rcases List.mem_append.mp member with before | hole
  · exact flush_well_formed literal parts part before notHole
  · rw [List.mem_singleton] at hole
    rw [hole] at notHole
    cases notHole

theorem interpolated_text_ill {triple raw : Bool} {start : SourcePos} {s read : Cursor}
    {i result : Interpolation}
    (closed : interpolatedText triple raw start s i = (read, .ok result)) (ill : IllText i) :
    IllText result := by
  fun_induction interpolatedText triple raw start s i with
  | case1 s => cases closed
  | case2 s => cases closed
  | case3 s i =>
      cases closed
      exact ill.literal rfl (List.prefix_append _ _)
  | case4 s => cases closed
  | case5 s i _ _ _ _ run _ _ induction =>
      exact induction closed (ill.literal rfl (List.prefix_append _ _))
  | case6 s i =>
      cases closed
      exact ill
  | case7 s i _ _ _ _ _ induction =>
      exact induction closed (ill.literal rfl (List.prefix_append _ _))
  | case8 s => cases closed
  | case9 s i _ _ _ _ _ behind longer equation induction =>
      obtain ⟨-, text, position, rfl⟩ := interpolation_hole_ok equation
      exact induction closed (with_hole_ill ill _ _ _)
  | case10 s => cases closed
  | case11 s i _ _ _ _ _ behind literal equation induction =>
      exact induction closed (ill.literal rfl (read_escape_ok equation).extends_)
  | case12 s i _ _ _ _ _ induction =>
      exact induction closed (ill.literal rfl (List.prefix_append _ _))

theorem interpolated_text_well_formed {triple raw : Bool} {start : SourcePos} {s read : Cursor}
    {i result : Interpolation}
    (closed : interpolatedText triple raw start s i = (read, .ok result))
    (well : WellFormed (i.literal ++ s.rest)) (parts : PartsWellFormed i.parts) :
    PartsWellFormed (flushLiteral result) ↔
      ∀ unit ∈ interpolationUnits triple raw start s, isSurrogate unit = false := by
  fun_induction interpolatedText triple raw start s i with
  | case1 s => cases closed
  | case2 s => cases closed
  | case3 s i more line quote ends run long =>
      cases closed
      rw [interpolationUnits, dif_neg more, if_neg line, dif_pos quote, if_neg (by simp; omega)]
      have before := (cut well (by simpa using more) (by rw [quote]; decide)).1
      have done : PartsWellFormed
          (flushLiteral { i with literal := i.literal ++ quotes (run - 3) }) :=
        flush_well_formed (before.append (quotes_well_formed _)) parts
      simp [done]
  | case4 s => cases closed
  | case5 s i more line quote ends run short _ induction =>
      rw [interpolationUnits, dif_neg more, if_neg line, dif_pos quote,
        if_pos (by simp [ends]; omega)]
      exact induction closed (quotes_read well) parts
  | case6 s i more line quote single =>
      cases closed
      rw [interpolationUnits, dif_neg more, if_neg line, dif_pos quote, if_neg (by simp [single])]
      have before := (cut well (by simpa using more) (by rw [quote]; decide)).1
      simp [flush_well_formed before parts]
  | case7 s i more line quote dollar second induction =>
      rw [interpolationUnits, dif_neg more, if_neg line, dif_neg quote, if_pos dollar, if_pos second]
      obtain ⟨before, whole⟩ := cut well (by simpa using more) (by rw [dollar]; decide)
      have one := whole.ascii dollar (by decide) (by decide)
      have two := one.ascii second (by decide) (by decide)
      exact induction closed
        ((before.append (well_formed_ascii (by decide : byte '$' < 0x80))).append two) parts
  | case8 s => cases closed
  | case9 s i more line quote dollar second behind longer equation induction =>
      obtain ⟨before, whole⟩ := cut well (by simpa using more) (by rw [dollar]; decide)
      have after := interpolation_hole_whole whole dollar equation
      obtain ⟨cursor, text, position, rfl⟩ := interpolation_hole_ok equation
      rw [interpolationUnits, dif_neg more, if_neg line, dif_neg quote, if_pos dollar,
        if_neg second, ← cursor]
      exact induction closed after (with_hole_well_formed before parts _ _ _)
  | case10 s => cases closed
  | case11 s i more line quote dollar slash behind literal equation induction =>
      have here : s.cur = byte '\\' := by
        simp only [Bool.and_eq_true, beq_iff_eq] at slash
        exact slash.2
      obtain ⟨before, whole⟩ := cut well (by simpa using more) (by rw [here]; decide)
      have escape := read_escape_ok equation
      rw [interpolationUnits, dif_neg more, if_neg line, dif_neg quote, if_neg dollar,
        if_pos slash, ← escape.cursor]
      simp only [List.mem_append, or_imp, forall_and]
      by_cases scalar : ∀ unit ∈ escapeUnits s.advance, isSurrogate unit = false
      · rw [and_iff_right scalar]
        have after : Whole behind := whole.behind (escape.behind.of_reaches (.past s 1))
        exact induction closed ((escape.whole before scalar).append after) parts
      · have surrogate : ∃ unit ∈ escapeUnits s.advance, isSurrogate unit = true := by
          simpa using scalar
        have ill := interpolated_text_ill closed (.inl (escape.broken before surrogate))
        exact ⟨fun good => absurd good (flush_ill_formed ill), fun both => absurd both.1 scalar⟩
  | case12 s i more line quote dollar slash induction =>
      rw [interpolationUnits, dif_neg more, if_neg line, dif_neg quote, if_neg dollar,
        if_neg slash]
      exact induction closed (byte_read well (by simpa using more)) parts

/-- The token carries text that its escapes may spoil. -/
def isStringToken (k : TokenKind) : Bool := k == .stringLit || k == .interpolatedString

/-- The text of the token is well formed exactly when the escapes at the cursor
name no surrogate. -/
def TextFollows (s : Cursor) (t : RawToken) : Prop :=
  TextWellFormed t ↔
    (isStringToken t.kind = true → ∀ unit ∈ literalUnits s, isSurrogate unit = false)

theorem plain_follows {s : Cursor} {t : RawToken}
    (plain : (isStringToken t.kind || t.kind == .charLit) = false) : TextFollows s t := by
  simp only [Bool.or_eq_false_iff, beq_eq_false_iff_ne] at plain
  have kinds := plain.1
  simp only [isStringToken, Bool.or_eq_false_iff, beq_eq_false_iff_ne] at kinds
  refine ⟨fun _ string => ?_, fun _ => ⟨fun string => absurd string kinds.1,
    fun parts => absurd parts kinds.2, fun character => absurd character plain.2⟩⟩
  rw [plain.1] at string
  cases string

theorem lex_string_follows {lex : LexerState} (whole : Whole lex.cursor)
    (quote : lex.cursor.cur = byte '"') : TextFollows lex.cursor (lexString lex).1 := by
  have opened : Whole lex.cursor.advance := whole.ascii quote (by decide) (by decide)
  have units : literalUnits lex.cursor =
      if lex.cursor.advance.cur = byte '"' ∧ lex.cursor.advance.peekChar 1 = byte '"' then []
      else stringUnits lex.cursor.advance := if_pos quote
  have decided : ∀ {value : Bytes} {t : RawToken}, t.kind = .stringLit → t.stringValue = value →
      (WellFormed value ↔ ∀ unit ∈ literalUnits lex.cursor, isSurrogate unit = false) →
      TextFollows lex.cursor t := by
    intro value t kind same decides
    refine ⟨fun good _ => decides.mp (same ▸ good.string kind), fun scalar => ⟨fun _ => ?_, ?_, ?_⟩⟩
    · rw [same]
      exact decides.mpr (scalar (by rw [kind]; rfl))
    · intro parts
      rw [kind] at parts
      cases parts
    · intro character
      rw [kind] at character
      cases character
  unfold lexString
  dsimp only
  split_ifs at units ⊢ with triple
  · split
    · exact plain_follows rfl
    · next read value equation =>
        have second : Whole (lex.cursor.advance.past 2) :=
          opened.twice triple.1 triple.2 (by decide) (by decide) (by decide) (by decide)
        refine decided rfl rfl ?_
        rw [units]
        simp [multi_line_well_formed equation second]
  · split
    · exact plain_follows rfl
    · next read value equation =>
        refine decided rfl rfl ?_
        rw [units]
        exact single_line_well_formed equation opened

theorem lex_interpolated_follows {lex : LexerState} {name : Bytes} {start : SourcePos} {s : Cursor}
    (whole : Whole lex.cursor) (quote : lex.cursor.cur = byte '"')
    (units : literalUnits s =
      interpolationUnits
        (lex.cursor.advance.cur == byte '"' && lex.cursor.advance.peekChar 1 == byte '"')
        (textOf name == "raw") start
        (if lex.cursor.advance.cur == byte '"' && lex.cursor.advance.peekChar 1 == byte '"' then
          lex.cursor.advance.past 2 else lex.cursor.advance)) :
    TextFollows s (lexInterpolated lex name start).1 := by
  have opened : Whole lex.cursor.advance := whole.ascii quote (by decide) (by decide)
  unfold lexInterpolated
  dsimp only
  split
  · exact plain_follows rfl
  · next read i equation =>
      have inside : Whole (if (lex.cursor.advance.cur == byte '"' &&
          lex.cursor.advance.peekChar 1 == byte '"') = true then
          lex.cursor.advance.past 2 else lex.cursor.advance) := by
        split_ifs with triple
        · simp only [Bool.and_eq_true, beq_iff_eq] at triple
          exact opened.twice triple.1 triple.2 (by decide) (by decide) (by decide) (by decide)
        · exact opened
      have decides := interpolated_text_well_formed equation inside (fun _ member => by cases member)
      rw [TextFollows, units]
      refine ⟨fun good _ => decides.mp (good.parts rfl),
        fun scalar => ⟨fun string => ?_, fun _ => decides.mpr (scalar rfl), fun character => ?_⟩⟩
      · cases string
      · cases character

theorem lex_identifier_follows {lex : LexerState} (whole : Whole lex.cursor)
    (notQuote : lex.cursor.cur ≠ byte '"') :
    TextFollows lex.cursor (lexIdentifierOrKeyword lex).1 := by
  have name := identifier_text_whole [] false whole
  unfold lexIdentifierOrKeyword
  dsimp only
  split_ifs with quote
  · exact lex_interpolated_follows name quote (if_neg notQuote)
  · exact plain_follows rfl
  · split
    · next kind found =>
        have plain : ∀ entry ∈ keywords,
            (isStringToken entry.2 || entry.2 == .charLit) = false := by decide
        obtain ⟨before, after, split, -⟩ := List.lookup_eq_some_iff.mp found
        have member : (textOf (identifierText lex.cursor [] false).1, kind) ∈ keywords := by
          rw [split]
          simp
        exact plain_follows (plain _ member)
    · exact plain_follows rfl

theorem lex_char_follows (lex : LexerState) : TextFollows lex.cursor (lexChar lex).1 := by
  unfold lexChar
  dsimp only
  split_ifs
  · exact plain_follows rfl
  · split
    · exact plain_follows rfl
    · next s cp equation =>
        split
        · exact plain_follows rfl
        · -- what is read is decoded again, so it is a character
          have scalar : ∃ c : Char, c.toNat = cp := by
            unfold literalCharacter at equation
            split_ifs at equation
            · split at equation
              · cases equation
              · split at equation
                · cases equation
                · next decoded =>
                    cases equation
                    obtain ⟨c, nat, -⟩ := decode_utf8_sound decoded
                    exact ⟨c, nat⟩
            · cases equation
            · split at equation
              · cases equation
              · next decoded =>
                  cases equation
                  obtain ⟨c, nat, -⟩ := decode_utf8_sound decoded
                  exact ⟨c, nat⟩
          refine ⟨fun _ string => ?_, fun _ => ⟨fun string => ?_, fun parts => ?_, fun _ => scalar⟩⟩
          · cases string
          · cases string
          · cases parts

theorem lex_number_follows (lex : LexerState) : TextFollows lex.cursor (lexNumber lex).1 := by
  have digits : ∀ base s, TextFollows lex.cursor (lexDigits lex lex.cursor.pos base s).1 := by
    intro base s
    unfold lexDigits finishNumber numberToken
    dsimp only
    split_ifs
    all_goals try exact plain_follows rfl
    all_goals
      split
      · exact plain_follows rfl
      · split_ifs
        all_goals try exact plain_follows rfl
        all_goals
          split
          · exact plain_follows rfl
          · exact plain_follows rfl
  unfold lexNumber
  dsimp only
  split_ifs
  · exact digits _ _
  · exact digits _ _
  · exact plain_follows rfl
  · exact digits _ _

theorem plain_ite {condition : Prop} [Decidable condition] {one other : TokenKind}
    (first : (isStringToken one || one == .charLit) = false)
    (second : (isStringToken other || other == .charLit) = false) :
    (isStringToken (if condition then one else other) ||
      (if condition then one else other) == .charLit) = false := by
  split
  · exact first
  · exact second

theorem reserved_plain (op : String) :
    (isStringToken (reservedOperator op) || reservedOperator op == .charLit) = false := by
  unfold reservedOperator
  refine plain_ite rfl (plain_ite rfl (plain_ite rfl (plain_ite rfl (plain_ite rfl ?_))))
  exact plain_ite rfl (plain_ite rfl (plain_ite rfl (plain_ite rfl (plain_ite rfl rfl))))

theorem lex_operator_follows (lex : LexerState) : TextFollows lex.cursor (lexOperator lex).1 :=
  plain_follows (reserved_plain _)

theorem punctuation_plain : ∀ c kind, punctuation c = some kind →
    (isStringToken kind || kind == .charLit) = false := by
  have all : ∀ mark ∈ punctuationMarks,
      (isStringToken mark.2 || mark.2 == .charLit) = false := by decide
  intro c kind found
  exact all (c, kind) (punctuation_mark found)

theorem lex_token_follows {lex : LexerState} (whole : Whole lex.cursor) :
    TextFollows lex.cursor (lexToken lex).1 := by
  unfold lexToken
  dsimp only
  split
  · next kind found => exact plain_follows (punctuation_plain _ _ found)
  · split_ifs with back quote single point digit digit operator ident
    · unfold lexBackquoted
      dsimp only
      split_ifs <;> exact plain_follows rfl
    · exact lex_string_follows whole quote
    · exact lex_char_follows lex
    · exact lex_number_follows lex
    · exact plain_follows rfl
    · exact lex_number_follows lex
    · exact lex_operator_follows lex
    · exact lex_identifier_follows whole quote
    · exact plain_follows rfl

theorem next_follows {lex : LexerState} (whole : Whole lex.cursor) (ready : lex.done = false) :
    TextFollows (tokenStart lex) (next lex).1 := by
  unfold next
  rw [if_neg (by simp [ready])]
  split
  · exact plain_follows rfl
  · next s trivia =>
      have start : tokenStart lex = s := by rw [tokenStart, trivia]
      rw [start]
      unfold tokenAt
      dsimp only
      split_ifs
      · exact plain_follows rfl
      · exact plain_follows rfl
      · set noted := noteIndentation _ with notedEq
        have cursor : noted.cursor = s := by
          rw [notedEq, note_indentation_cursor]
          rfl
        have follows : TextFollows noted.cursor (lexToken noted).1 := by
          refine lex_token_follows ?_
          rw [cursor]
          exact skip_trivia_whole whole trivia
        rwa [cursor] at follows

/-- No escape of a string literal or of a literal part of an interpolated string
names one half of a surrogate pair. -/
def NoSurrogateEscapes (source : Bytes) : Prop :=
  ∀ lex ∈ lexerStates source, isStringToken (next lex).1.kind = true →
    ∀ unit ∈ literalUnits (tokenStart lex), isSurrogate unit = false

/-- The literals of a well-formed source have well-formed text exactly when no
escape of a string names a surrogate. -/
theorem literal_text_well_formed_iff {source : Bytes} (well : WellFormed source) :
    (∀ t ∈ tokenizeAll source, TextWellFormed t) ↔ NoSurrogateEscapes source := by
  have follows : ∀ lex ∈ lexerStates source, TextFollows (tokenStart lex) (next lex).1 := by
    intro lex member
    obtain ⟨whole, ready⟩ := lexer_states_whole well lex member
    exact next_follows whole ready
  rw [tokenize_all_states]
  simp only [List.mem_map, forall_exists_index, and_imp, forall_apply_eq_imp_iff₂]
  exact forall₂_congr fun lex member => follows lex member

/-- `s"é\u00e9" + "\ud7ff"` -/
theorem accented_text_well_formed :
    WellFormed [115, 34, 0xC3, 0xA9, 92, 117, 48, 48, 101, 57, 34, 43, 34, 92, 117, 100, 55, 102,
        102, 34] ∧
      ((∀ t ∈ tokenizeAll [115, 34, 0xC3, 0xA9, 92, 117, 48, 48, 101, 57, 34, 43, 34, 92, 117, 100,
          55, 102, 102, 34], TextWellFormed t) ↔
        NoSurrogateEscapes [115, 34, 0xC3, 0xA9, 92, 117, 48, 48, 101, 57, 34, 43, 34, 92, 117, 100,
          55, 102, 102, 34]) := by
  have well : WellFormed [115, 34, 0xC3, 0xA9, 92, 117, 48, 48, 101, 57, 34, 43, 34, 92, 117, 100,
      55, 102, 102, 34] :=
    ⟨"s\"\u00e9\\u00e9\"+\"\\ud7ff\"".toList, by decide⟩
  exact ⟨well, literal_text_well_formed_iff well⟩

/-- `"\ud800"` -/
theorem surrogate_text_ill_formed :
    WellFormed [34, 92, 117, 100, 56, 48, 48, 34] ∧
      ∃ t ∈ tokenizeAll [34, 92, 117, 100, 56, 48, 48, 34],
        t.kind = .stringLit ∧ ¬WellFormed t.stringValue := by
  refine ⟨⟨"\"\\ud800\"".toList, by decide⟩, ?_⟩
  have read : (tokenizeAll [34, 92, 117, 100, 56, 48, 48, 34]).any
      (fun t => t.kind == .stringLit && t.stringValue == [0xED, 0xA0, 0x80]) = true := by
    decide +kernel
  obtain ⟨t, member, found⟩ := List.any_eq_true.mp read
  simp only [Bool.and_eq_true, beq_iff_eq] at found
  exact ⟨t, member, found.1, found.2 ▸ surrogate_ill_formed (by decide) [0x80]⟩

end ProtoScala.Frontend.LiteralText
