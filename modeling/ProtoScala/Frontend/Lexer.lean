import ProtoScala.Frontend.Layout
import ProtoScala.Frontend.UnicodeLetters

/-!
# The lexer

The source text is a list of bytes. A cursor is what is left of it with the
position of its first byte; every scanner advances a cursor over a part of the
text. A scanner that loops recurses on the length of what is left.

The texts of tokens are byte strings: each byte is one character of the `String`
that `Layout.Token` carries. The value of a floating-point literal is left out;
its digits are the token's text.
-/

namespace ProtoScala.Frontend.Lexer

open ProtoScala.Frontend.Layout (SourcePos TokenKind)
open ProtoScala.Frontend.UnicodeLetters (isSymbolLetter)

set_option autoImplicit false

abbrev Bytes := List UInt8

def byte (c : Char) : UInt8 := c.toUInt8

/-- The byte that quotes an identifier. -/
def backquote : UInt8 := 0x60

def textOf (bytes : Bytes) : String := String.ofList (bytes.map fun b => Char.ofNat b.toNat)

/-- The value with the payloads of `count` continuation bytes shifted in. -/
def continued (value : Nat) : Nat → Bytes → Option Nat
  | 0, _ => some value
  | _ + 1, [] => none
  | count + 1, b :: rest =>
      if b &&& 0xC0 ≠ 0x80 then none
      else continued ((value <<< 6) ||| (b &&& 0x3F).toNat) count rest

/-- What the lead byte of a longer sequence says: the length, the payload and the
least value of that length. -/
def leadByte (b0 : UInt8) : Option (Nat × Nat × Nat) :=
  if b0 &&& 0xE0 = 0xC0 then some (2, (b0 &&& 0x1F).toNat, 0x80)
  else if b0 &&& 0xF0 = 0xE0 then some (3, (b0 &&& 0x0F).toNat, 0x800)
  else if b0 &&& 0xF8 = 0xF0 then some (4, (b0 &&& 0x07).toNat, 0x10000)
  else none

/-- The length and the code point of the sequence at the head, or nothing when
the bytes are not well-formed UTF-8. -/
def decodeUtf8 : Bytes → Option (Nat × Nat)
  | [] => none
  | b0 :: rest =>
      if b0 < 0x80 then some (1, b0.toNat)
      else
        match leadByte b0 with
        | none => none
        | some (len, payload, minimum) =>
            match continued payload (len - 1) rest with
            | none => none
            | some value =>
                if value < minimum ∨ value > 0x10FFFF ∨ (value ≥ 0xD800 ∧ value ≤ 0xDFFF) then none
                else some (len, value)

def appendUtf8 (out : Bytes) (cp : Nat) : Bytes :=
  if cp < 0x80 then out ++ [UInt8.ofNat cp]
  else if cp < 0x800 then
    out ++ [UInt8.ofNat (0xC0 ||| (cp >>> 6)), UInt8.ofNat (0x80 ||| (cp &&& 0x3F))]
  else if cp < 0x10000 then
    out ++ [UInt8.ofNat (0xE0 ||| (cp >>> 12)), UInt8.ofNat (0x80 ||| ((cp >>> 6) &&& 0x3F)),
      UInt8.ofNat (0x80 ||| (cp &&& 0x3F))]
  else
    out ++ [UInt8.ofNat (0xF0 ||| (cp >>> 18)), UInt8.ofNat (0x80 ||| ((cp >>> 12) &&& 0x3F)),
      UInt8.ofNat (0x80 ||| ((cp >>> 6) &&& 0x3F)), UInt8.ofNat (0x80 ||| (cp &&& 0x3F))]

def keywords : List (String × TokenKind) :=
  [("abstract", .kwAbstract), ("case", .kwCase), ("catch", .kwCatch), ("class", .kwClass),
    ("def", .kwDef), ("do", .kwDo), ("else", .kwElse), ("enum", .kwEnum),
    ("export", .kwExport), ("extends", .kwExtends), ("false", .kwFalse), ("final", .kwFinal),
    ("finally", .kwFinally), ("for", .kwFor), ("given", .kwGiven), ("if", .kwIf),
    ("implicit", .kwImplicit), ("import", .kwImport), ("lazy", .kwLazy), ("match", .kwMatch),
    ("new", .kwNew), ("null", .kwNull), ("object", .kwObject), ("override", .kwOverride),
    ("package", .kwPackage), ("private", .kwPrivate), ("protected", .kwProtected),
    ("return", .kwReturn), ("sealed", .kwSealed), ("super", .kwSuper), ("then", .kwThen),
    ("this", .kwThis), ("throw", .kwThrow), ("trait", .kwTrait), ("true", .kwTrue),
    ("try", .kwTry), ("type", .kwType), ("val", .kwVal), ("var", .kwVar), ("while", .kwWhile),
    ("with", .kwWith), ("yield", .kwYield)]

def reservedOperator (op : String) : TokenKind :=
  if op = "=" then .equals
  else if op = "=>" then .arrow
  else if op = "?=>" then .ctxArrow
  else if op = "=>>" then .typeLambdaArrow
  else if op = "<-" then .leftArrow
  else if op = "<:" then .subtype
  else if op = ">:" then .supertype
  else if op = "#" then .hash
  else if op = "@" then .at
  else if op = ":" then .colon
  else .identifier

def isDigit (c : UInt8) : Bool := byte '0' ≤ c && c ≤ byte '9'

def isLetter (c : UInt8) : Bool :=
  (byte 'a' ≤ c && c ≤ byte 'z') || (byte 'A' ≤ c && c ≤ byte 'Z')

def isHexDigit (c : UInt8) : Bool :=
  isDigit c || (byte 'a' ≤ c && c ≤ byte 'f') || (byte 'A' ≤ c && c ≤ byte 'F')

def isIdentCodePoint (cp : Nat) : Bool :=
  if cp < 0x80 then
    isDigit (UInt8.ofNat cp) || isLetter (UInt8.ofNat cp) || cp == '_'.toNat || cp == '$'.toNat
  else isSymbolLetter cp

def isOpChar (c : UInt8) : Bool :=
  c == byte '!' || c == byte '#' || c == byte '%' || c == byte '&' || c == byte '*' ||
    c == byte '+' || c == byte '-' || c == byte '/' || c == byte ':' || c == byte '<' ||
    c == byte '=' || c == byte '>' || c == byte '?' || c == byte '@' || c == byte '\\' ||
    c == byte '^' || c == byte '|' || c == byte '~'

structure InterpolationPart where
  isHole : Bool
  text : Bytes
  pos : SourcePos
deriving DecidableEq, Repr

/-- The token with the payloads of the literals. -/
structure RawToken extends Layout.Token where
  intValue : Int := 0
  fitsLong : Bool := true
  digits : Bytes := []
  base : Nat := 10
  charValue : Nat := 0
  stringValue : Bytes := []
  parts : List InterpolationPart := []
deriving DecidableEq, Repr

/-- The part of the text that is left and the position of its first byte. -/
structure Cursor where
  rest : Bytes
  pos : SourcePos := ⟨1, 1⟩
deriving DecidableEq, Repr

/-- The position after a byte. A UTF-8 continuation byte does not advance the
column. -/
def stepped (pos : SourcePos) (c : UInt8) : SourcePos :=
  if c = byte '\n' then ⟨pos.line + 1, 1⟩
  else if c &&& 0xC0 ≠ 0x80 then ⟨pos.line, pos.column + 1⟩
  else pos

namespace Cursor

def eof (s : Cursor) : Bool := s.rest.isEmpty

def cur (s : Cursor) : UInt8 := s.rest.headD 0

def peekChar (s : Cursor) (k : Nat) : UInt8 := s.rest.getD k 0

/-- `advance()`, `count` times. -/
def past (s : Cursor) (count : Nat) : Cursor :=
  ⟨s.rest.drop count, (s.rest.take count).foldl stepped s.pos⟩

def advance (s : Cursor) : Cursor := s.past 1

/-- `while (!eof() && p(cur())) advance();`. -/
def skipWhile (p : UInt8 → Bool) (s : Cursor) : Cursor := s.past (s.rest.takeWhile p).length

/-- The text between a cursor and a later one. -/
def textTo (s s' : Cursor) : Bytes := s.rest.take (s.rest.length - s'.rest.length)

/-- The cursor stands further along, or where it was. -/
def Reaches (s s' : Cursor) : Prop := ∃ count, s' = s.past count

end Cursor

open Cursor

theorem past_zero (s : Cursor) : s.past 0 = s := rfl

theorem past_past (s : Cursor) (first second : Nat) :
    (s.past first).past second = s.past (first + second) := by
  unfold past
  rw [List.drop_drop, List.take_add, List.foldl_append]

theorem Cursor.Reaches.refl (s : Cursor) : Reaches s s := ⟨0, (past_zero s).symm⟩

theorem Cursor.Reaches.past (s : Cursor) (count : Nat) : Reaches s (s.past count) := ⟨count, rfl⟩

theorem Cursor.Reaches.trans {s s' s'' : Cursor} (first : Reaches s s') (second : Reaches s' s'') :
    Reaches s s'' := by
  obtain ⟨left, rfl⟩ := first
  obtain ⟨right, rfl⟩ := second
  exact ⟨left + right, past_past s left right⟩

theorem Cursor.Reaches.length_le {s s' : Cursor} (reaches : Reaches s s') :
    s'.rest.length ≤ s.rest.length := by
  obtain ⟨count, rfl⟩ := reaches
  simp [Cursor.past]

theorem text_to_past (s : Cursor) (count : Nat) : s.textTo (s.past count) = s.rest.take count := by
  unfold textTo Cursor.past
  rw [List.length_drop]
  rcases Nat.le_total count s.rest.length with inside | beyond
  · rw [Nat.sub_sub_self inside]
  · rw [List.take_of_length_le beyond, Nat.sub_eq_zero_of_le beyond, Nat.sub_zero,
      List.take_length]

theorem past_shorter {s : Cursor} {count : Nat} (some : s.eof = false) (positive : 0 < count) :
    (s.past count).rest.length < s.rest.length := by
  have nonempty : s.rest ≠ [] := by simpa [eof] using some
  have length := List.length_pos_iff.mpr nonempty
  simp only [Cursor.past, List.length_drop]
  omega

theorem advance_shorter {s : Cursor} (some : s.eof = false) :
    s.advance.rest.length < s.rest.length := past_shorter some Nat.one_pos

theorem reaches_shorter {s s' : Cursor} (some : s.eof = false) (reaches : Reaches s.advance s') :
    s'.rest.length < s.rest.length :=
  Nat.lt_of_le_of_lt reaches.length_le (advance_shorter some)

/-- A run is not empty when the current byte belongs to it. -/
theorem run_positive {s : Cursor} {p : UInt8 → Bool} (some : s.eof = false)
    (holds : p s.cur = true) : 0 < (s.rest.takeWhile p).length := by
  cases rest : s.rest with
  | nil => simp [eof, rest] at some
  | cons c more =>
      have head : s.cur = c := by simp [cur, rest]
      rw [head] at holds
      rw [List.takeWhile_cons, if_pos holds]
      exact Nat.succ_pos _

/-- Leading-blank width of a line, and whether tabs or spaces were used. -/
structure LineIndent where
  width : Int := 0
  hasTab : Bool := false
  hasSpace : Bool := false
deriving DecidableEq, Repr

/-- `leading` holds while only blanks of the line have been read. -/
def computeLineIndents (line : LineIndent) (leading : Bool) : Bytes → List LineIndent
  | [] => [line]
  | c :: rest =>
      if c = byte '\n' then line :: computeLineIndents {} true rest
      else if leading && (c == byte ' ' || c == byte '\t') then
        computeLineIndents
          { width := line.width + 1
            hasTab := line.hasTab || c == byte '\t'
            hasSpace := line.hasSpace || c == byte ' ' } true rest
      else computeLineIndents line false rest

/-- The fields of `Lexer`. `unclaimed` is the text between the end of the previous token and the cursor
that `next` has not skipped itself: the interpreter line. -/
structure LexerState where
  cursor : Cursor
  unclaimed : Bytes := []
  lastTokenLine : Int := 0
  pastBlankLine : Bool := false
  done : Bool := false
  lineIndents : List LineIndent
  sawTabIndent : Bool := false
  sawSpaceIndent : Bool := false
deriving DecidableEq, Repr

def withoutByteOrderMark (source : Bytes) : Bytes :=
  if source.take 3 = [0xEF, 0xBB, 0xBF] then source.drop 3 else source

def interpreterLine (source : Bytes) : Bytes :=
  if source.take 2 = [byte '#', byte '!'] then source.takeWhile (· != byte '\n') else []

/-- The constructor. -/
def LexerState.ofSource (source : Bytes) : LexerState :=
  let source := withoutByteOrderMark source
  let skipped := interpreterLine source
  { cursor := { rest := source.drop skipped.length }
    unclaimed := skipped
    lineIndents := computeLineIndents {} true source }

/-- The lexer with its cursor moved. -/
def LexerState.moved (lex : LexerState) (s : Cursor) : LexerState := { lex with cursor := s }

def make (lex : LexerState) (k : TokenKind) (start : SourcePos) (text : Bytes) : RawToken :=
  { kind := k
    text := textOf text
    pos := start
    endPos := lex.cursor.pos
    lineIndent := (lex.lineIndents.getD (start.line - 1).toNat {}).width
    firstOnLine := start.line != lex.lastTokenLine
    pastBlankLine := lex.pastBlankLine }

def error (lex : LexerState) (msg : String) (position : SourcePos) (atEof : Bool) : RawToken :=
  { kind := .error
    text := msg
    pos := position
    endPos := lex.cursor.pos
    errorAtEof := atEof
    lineIndent :=
      if 1 ≤ position.line ∧ position.line ≤ lex.lineIndents.length then
        (lex.lineIndents.getD (position.line - 1).toNat {}).width
      else 0
    firstOnLine := position.line != lex.lastTokenLine }

/-- The scan over the text between two tokens: `blank` holds while only
whitespace was seen since the last newline. -/
def pastBlankLineFrom (blank : Bool) : Bytes → Bool
  | [] => false
  | c :: rest =>
      if c = byte '\n' then (if blank then true else pastBlankLineFrom true rest)
      else if c ≠ byte '\r' ∧ c ≠ 12 then pastBlankLineFrom (blank && decide (c ≤ byte ' ')) rest
      else pastBlankLineFrom blank rest

/-- What is left of a block comment after its opening, with its closing. -/
def commentLength (depth : Nat) : Bytes → Option Nat
  | [] => none
  | [_] => none
  | c :: d :: rest =>
      if c = byte '/' ∧ d = byte '*' then (commentLength (depth + 1) rest).map (· + 2)
      else if c = byte '*' ∧ d = byte '/' then
        if depth = 1 then some 2 else (commentLength (depth - 1) rest).map (· + 2)
      else (commentLength depth (d :: rest)).map (· + 1)

def isBlank (c : UInt8) : Bool :=
  c == byte ' ' || c == byte '\t' || c == byte '\r' || c == byte '\n'

/-- The cursor after the trivia, and the start of a comment that is not closed. -/
def skipTrivia (s : Cursor) : Cursor × Option Cursor :=
  if ending : s.eof = true then (s, none)
  else if isBlank s.cur then skipTrivia s.advance
  else if slash : s.cur = byte '/' ∧ s.peekChar 1 = byte '/' then
    skipTrivia (s.skipWhile (· != byte '\n'))
  else if s.cur = byte '/' ∧ s.peekChar 1 = byte '*' then
    match commentLength 1 (s.rest.drop 2) with
    | none => (s.past s.rest.length, some s)
    | some length => skipTrivia (s.past (length + 2))
  else (s, none)
termination_by s.rest.length
decreasing_by
  · exact advance_shorter (by simpa using ending)
  · refine past_shorter (by simpa using ending) (run_positive (by simpa using ending) ?_)
    rw [slash.1]
    decide
  · exact past_shorter (by simpa using ending) (Nat.succ_pos _)

/-- The length of the identifier character at the head, or zero. -/
def identCharLength (rest : Bytes) : Nat :=
  match rest with
  | [] => 0
  | c :: _ =>
      if c < 0x80 then (if isIdentCodePoint c.toNat then 1 else 0)
      else
        match decodeUtf8 rest with
        | none => 0
        | some (len, cp) => if isIdentCodePoint cp then len else 0

theorem ident_char_length_le (rest : Bytes) : identCharLength rest ≠ 0 → rest ≠ [] := by
  rintro some rfl
  exact some rfl

/-- The loop of `lexIdentifierOrKeyword`. -/
def identifierText (s : Cursor) (text : Bytes) (lastWasUnderscore : Bool) : Bytes × Cursor :=
  if ending : s.eof = true then (text, s)
  else if lastWasUnderscore && isOpChar s.cur then
    let run := s.rest.takeWhile isOpChar
    (text ++ run, s.past run.length)
  else
    let len := identCharLength s.rest
    if none : len = 0 then (text, s)
    else
      identifierText (s.past len) (text ++ s.rest.take len)
        (s.cur == byte '_' && !text.isEmpty)
termination_by s.rest.length
decreasing_by exact past_shorter (by simpa using ending) (Nat.pos_of_ne_zero none)

/-- The loop of `lexOperator`. -/
def operatorText (s : Cursor) (text : Bytes) : Bytes × Cursor :=
  if ending : s.eof = true then (text, s)
  else if !isOpChar s.cur then (text, s)
  else if !text.isEmpty && s.cur == byte '/' &&
      (s.peekChar 1 == byte '/' || s.peekChar 1 == byte '*') then (text, s)
  else operatorText s.advance (text ++ [s.cur])
termination_by s.rest.length
decreasing_by exact advance_shorter (by simpa using ending)

def lexOperator (lex : LexerState) : RawToken × LexerState :=
  let start := lex.cursor.pos
  let scanned := operatorText lex.cursor []
  let lex := lex.moved scanned.2
  let reserved := reservedOperator (textOf scanned.1)
  ({ make lex reserved start scanned.1 with isOperator := reserved == .identifier }, lex)

def lexBackquoted (lex : LexerState) : RawToken × LexerState :=
  let start := lex.cursor.pos
  let opened := lex.cursor.advance
  let text := opened.rest.takeWhile fun c => c != backquote && c != byte '\n'
  let s := opened.past text.length
  if text.isEmpty || s.eof || s.cur != backquote then
    (error (lex.moved s) "unclosed quoted identifier" start false, lex.moved s)
  else
    let lex := lex.moved s.advance
    ({ make lex .identifier start text with backquoted := true }, lex)

/-- The escapes of one character. -/
def escapedByte (c : UInt8) : Option UInt8 :=
  if c = byte 'b' then some 8
  else if c = byte 't' then some 9
  else if c = byte 'n' then some 10
  else if c = byte 'f' then some 12
  else if c = byte 'r' then some 13
  else if c = byte '"' then some (byte '"')
  else if c = byte '\'' then some (byte '\'')
  else if c = byte '\\' then some (byte '\\')
  else none

def hexDigit (h : UInt8) : Option Nat :=
  if byte '0' ≤ h ∧ h ≤ byte '9' then some (h.toNat - '0'.toNat)
  else if byte 'a' ≤ h ∧ h ≤ byte 'f' then some (h.toNat - 'a'.toNat + 10)
  else if byte 'A' ≤ h ∧ h ≤ byte 'F' then some (h.toNat - 'A'.toNat + 10)
  else none

/-- The loop over the four digits of a unicode escape. -/
def readHexDigits : Nat → Nat → Cursor → Cursor × Option Nat
  | 0, cp, s => (s, some cp)
  | count + 1, cp, s =>
      match hexDigit s.cur with
      | none => (s, none)
      | some digit => readHexDigits count ((cp <<< 4) ||| digit) s.advance

/-- One escape sequence after the backslash: the cursor after it and `out` with
the character, or a message. -/
def readEscape (s : Cursor) (out : Bytes) : Cursor × Except String Bytes :=
  match escapedByte s.cur with
  | some b => (s.advance, .ok (out ++ [b]))
  | none =>
      if s.cur = byte 'u' then
        match readHexDigits 4 0 (s.skipWhile (· == byte 'u')) with
        | (stopped, none) => (stopped, .error "invalid unicode escape")
        | (read, some cp) => (read, .ok (appendUtf8 out cp))
      else if isDigit s.cur then
        (s, .error "octal escape literals are unsupported: use \\u escapes")
      else (s, .error "invalid escape character")

theorem read_hex_digits_reaches (count cp : Nat) (s : Cursor) :
    Reaches s (readHexDigits count cp s).1 := by
  induction count generalizing cp s with
  | zero => exact .refl s
  | succ count induction =>
      rw [readHexDigits]
      split
      · exact .refl s
      · exact (Reaches.past s 1).trans (induction _ s.advance)

theorem read_escape_reaches (s : Cursor) (out : Bytes) : Reaches s (readEscape s out).1 := by
  unfold readEscape
  split
  · exact .past s 1
  · split_ifs
    · have digits := (Reaches.past s _).trans
        (read_hex_digits_reaches 4 0 (s.skipWhile (· == byte 'u')))
      split
      · next stopped equation => rwa [equation] at digits
      · next read cp equation => rwa [equation] at digits
    · exact .refl s
    · exact .refl s

/-- The digits of a run, whether the run ends in `_`, and the cursor after it. -/
def digitRun (belongs : UInt8 → Bool) (s : Cursor) : Bytes × Bool × Cursor :=
  let run := s.rest.takeWhile fun c => belongs c || c == byte '_'
  (run.filter (· != byte '_'), run.getLast? == some (byte '_'), s.past run.length)

def isBaseDigit (base : Nat) (c : UInt8) : Bool :=
  if base = 16 then isHexDigit c
  else if base = 2 then c == byte '0' || c == byte '1'
  else isDigit c

/-- A number literal being read: its digits and whether it is floating-point. -/
structure Numeral where
  digits : Bytes
  isFloat : Bool := false
deriving DecidableEq, Repr

/-- The fractional part; nothing when it ends in `_`. -/
def fractionPart (s : Cursor) (n : Numeral) : Cursor × Option Numeral :=
  if s.cur = byte '.' ∧ isDigit (s.peekChar 1) then
    let run := digitRun isDigit s.advance
    (run.2.2,
      if run.2.1 then none else some ⟨n.digits ++ [byte '.'] ++ run.1, true⟩)
  else (s, some n)

/-- The exponent; nothing when it ends in `_`. -/
def exponentPart (s : Cursor) (n : Numeral) : Cursor × Option Numeral :=
  if s.cur = byte 'e' ∨ s.cur = byte 'E' then
    let hasSign := s.peekChar 1 == byte '+' || s.peekChar 1 == byte '-'
    let digitCandidate := if hasSign then s.peekChar 2 else s.peekChar 1
    if isDigit digitCandidate then
      let sign := if hasSign then [s.peekChar 1] else []
      let run := digitRun isDigit (s.past (1 + sign.length))
      (run.2.2,
        if run.2.1 then none else some ⟨n.digits ++ [byte 'e'] ++ sign ++ run.1, true⟩)
    else (s, some n)
  else (s, some n)

def isFloatSuffix (c : UInt8) : Bool :=
  c == byte 'f' || c == byte 'F' || c == byte 'd' || c == byte 'D'

def isLongSuffix (c : UInt8) : Bool := c == byte 'l' || c == byte 'L'

/-- What a decimal literal may add to its integer part. -/
def decimalParts (s : Cursor) (n : Numeral) : Cursor × Option Numeral :=
  match fractionPart s n with
  | (s, none) => (s, none)
  | (s, some n) =>
      match exponentPart s n with
      | (s, none) => (s, none)
      | (s, some n) =>
          if isFloatSuffix s.cur then (s.advance, some { n with isFloat := true })
          else (s, some n)

def digitValue (c : UInt8) : Nat := (hexDigit c).getD 0

/-- The value of a string of digits. -/
def numeralValue (base : Nat) (digits : Bytes) : Nat :=
  digits.foldl (fun value c => value * base + digitValue c) 0

def longMax : Nat := 0x7FFFFFFFFFFFFFFF

/-- `strtoll` on an unsigned numeral: the value of its longest part that is made
of digits, zero when there is none, or nothing for `ERANGE`. -/
def strtoll (digits : Bytes) (base : Nat) : Option Int :=
  let value := numeralValue base (digits.takeWhile (isBaseDigit base))
  if value ≤ longMax then some value else none

/-- The literal after its suffix. -/
def numberToken (lex : LexerState) (start : SourcePos) (base : Nat) (n : Numeral) : RawToken :=
  if n.isFloat then make lex .floatLit start n.digits
  else
    let t := { make lex .intLit start n.digits with digits := n.digits, base := base }
    match strtoll n.digits base with
    | none => { t with fitsLong := false }
    | some value => { t with intValue := value }

/-- `lexNumber` from the long suffix on. -/
def finishNumber (lex : LexerState) (start : SourcePos) (base : Nat) (s : Cursor) (n : Numeral) :
    RawToken × LexerState :=
  let s := if !n.isFloat && isLongSuffix s.cur then s.advance else s
  let lex := lex.moved s
  if identCharLength s.rest > 0 then (error lex "malformed number literal" start false, lex)
  else (numberToken lex start base n, lex)

/-- `lexNumber` after the prefix. -/
def lexDigits (lex : LexerState) (start : SourcePos) (base : Nat) (s : Cursor) : RawToken × LexerState :=
  let run := digitRun (isBaseDigit base) s
  let trailing := fun s : Cursor =>
    (error (lex.moved s) "trailing '_' in number literal" start false, lex.moved s)
  if run.2.1 then trailing run.2.2
  else
    match (if base = 10 then decimalParts run.2.2 ⟨run.1, false⟩
      else (run.2.2, some ⟨run.1, false⟩)) with
    | (s, none) => trailing s
    | (s, some n) => finishNumber lex start base s n

def lexNumber (lex : LexerState) : RawToken × LexerState :=
  let s := lex.cursor
  let start := s.pos
  if s.cur = byte '0' ∧ (s.peekChar 1 = byte 'x' ∨ s.peekChar 1 = byte 'X') then
    lexDigits lex start 16 (s.past 2)
  else if s.cur = byte '0' ∧ (s.peekChar 1 = byte 'b' ∨ s.peekChar 1 = byte 'B') then
    lexDigits lex start 2 (s.past 2)
  else if s.cur = byte '0' ∧ isDigit (s.peekChar 1) then
    (error lex "decimal integer literals may not have a leading zero" start false, lex)
  else lexDigits lex start 10 s

/-- The character of a literal after its opening quote. -/
def literalCharacter (s : Cursor) : Cursor × Except String Nat :=
  if s.cur = byte '\\' then
    match readEscape s.advance [] with
    | (stopped, .error msg) => (stopped, .error msg)
    | (read, .ok encoded) =>
        match decodeUtf8 encoded with
        | none => (read, .error "invalid escape character")
        | some (_, cp) => (read, .ok cp)
  else if s.eof || s.cur == byte '\n' then (s, .error "unclosed character literal")
  else
    match decodeUtf8 s.rest with
    | none => (s, .error "invalid UTF-8 in character literal")
    | some (len, cp) => (s.past len, .ok cp)

def lexChar (lex : LexerState) : RawToken × LexerState :=
  let start := lex.cursor.pos
  let opened := lex.cursor.advance
  let failed := fun (s : Cursor) (msg : String) =>
    (error (lex.moved s) msg start false, lex.moved s)
  if opened.cur = byte '\'' then failed opened.advance "empty character literal"
  else
    match literalCharacter opened with
    | (s, .error msg) => failed s msg
    | (s, .ok cp) =>
        if s.cur ≠ byte '\'' then
          failed s (if isIdentCodePoint cp then "symbol literals are not supported in Scala 3"
            else "unclosed character literal")
        else
          let lex := lex.moved s.advance
          ({ make lex .charLit start [] with charValue := cp }, lex)

/-- An error inside a literal. -/
structure Failure where
  message : String
  position : SourcePos
  atEof : Bool
deriving DecidableEq, Repr

/-- A literal that failed where the cursor stands. -/
def failedLiteral (lex : LexerState) (s : Cursor) (f : Failure) : RawToken × LexerState :=
  (error (lex.moved s) f.message f.position f.atEof, lex.moved s)

def quotes (count : Nat) : Bytes := List.replicate count (byte '"')

/-- The run of quotes at the cursor. -/
def quoteRun (s : Cursor) : Nat := (s.rest.takeWhile (· == byte '"')).length

def unclosedMultiLine : String := "unclosed multi-line string literal"

def unclosedString : String := "unclosed string literal"

theorem quote_run_positive {s : Cursor} (some : s.eof = false) (quote : s.cur = byte '"') :
    0 < quoteRun s := run_positive some (by simp [quote])

/-- The content of a triple-quoted string. -/
def multiLineText (start : SourcePos) (s : Cursor) (content : Bytes) :
    Cursor × Except Failure Bytes :=
  if ending : s.eof = true then (s, .error ⟨unclosedMultiLine, start, true⟩)
  else if quote : s.cur = byte '"' then
    let run := quoteRun s
    if run ≥ 3 then (s.past run, .ok (content ++ quotes (run - 3)))
    else if (s.past run).eof then (s.past run, .error ⟨unclosedMultiLine, start, true⟩)
    else multiLineText start (s.past run) (content ++ quotes run)
  else multiLineText start s.advance (content ++ [s.cur])
termination_by s.rest.length
decreasing_by
  · exact past_shorter (by simpa using ending) (quote_run_positive (by simpa using ending) quote)
  · exact advance_shorter (by simpa using ending)

/-- The text of a string in one pair of quotes. -/
def singleLineText (start : SourcePos) (s : Cursor) (value : Bytes) :
    Cursor × Except Failure Bytes :=
  if ending : s.eof = true then (s, .error ⟨unclosedString, start, false⟩)
  else if s.cur = byte '\n' then (s, .error ⟨unclosedString, start, false⟩)
  else if s.cur = byte '"' then (s.advance, .ok value)
  else if s.cur = byte '\\' then
    match equation : readEscape s.advance value with
    | (stopped, .error msg) => (stopped, .error ⟨msg, s.pos, false⟩)
    | (read, .ok longer) => singleLineText start read longer
  else singleLineText start s.advance (value ++ [s.cur])
termination_by s.rest.length
decreasing_by
  · have reached := read_escape_reaches s.advance value
    rw [equation] at reached
    exact reaches_shorter (by simpa using ending) reached
  · exact advance_shorter (by simpa using ending)

def lexString (lex : LexerState) : RawToken × LexerState :=
  let start := lex.cursor.pos
  let opened := lex.cursor.advance
  let scanned :=
    if opened.cur = byte '"' ∧ opened.peekChar 1 = byte '"' then
      multiLineText start (opened.past 2) []
    else singleLineText start opened []
  match scanned with
  | (s, .error f) => failedLiteral lex s f
  | (s, .ok value) =>
      let lex := lex.moved s
      ({ make lex .stringLit start value with stringValue := value }, lex)

/-- The text of a triple-quoted string inside a hole. -/
def nestedMultiLine (start : SourcePos) (s : Cursor) (text : Bytes) :
    Cursor × Except Failure Bytes :=
  if ending : s.eof = true then (s, .error ⟨unclosedMultiLine, start, true⟩)
  else if quote : s.cur = byte '"' then
    let run := quoteRun s
    if run ≥ 3 then (s.past run, .ok (text ++ quotes run))
    else nestedMultiLine start (s.past run) (text ++ quotes run)
  else nestedMultiLine start s.advance (text ++ [s.cur])
termination_by s.rest.length
decreasing_by
  · exact past_shorter (by simpa using ending) (quote_run_positive (by simpa using ending) quote)
  · exact advance_shorter (by simpa using ending)

/-- The text of a string in one pair of quotes inside a hole. -/
def nestedString (start : SourcePos) (s : Cursor) (text : Bytes) : Cursor × Except Failure Bytes :=
  if ending : s.eof = true then (s, .error ⟨unclosedString, start, false⟩)
  else if s.cur = byte '\n' then (s, .error ⟨unclosedString, start, false⟩)
  else if s.cur = byte '"' then (s.advance, .ok (text ++ [s.cur]))
  else if s.cur = byte '\\' then
    let escaped := s.advance
    if escaped.eof then nestedString start escaped (text ++ [s.cur])
    else nestedString start escaped.advance (text ++ [s.cur] ++ [escaped.cur])
  else nestedString start s.advance (text ++ [s.cur])
termination_by s.rest.length
decreasing_by
  · exact advance_shorter (by simpa using ending)
  · exact reaches_shorter (by simpa using ending) (.past _ 1)
  · exact advance_shorter (by simpa using ending)

theorem nested_multi_line_reaches (start : SourcePos) (s : Cursor) (text : Bytes) :
    Reaches s (nestedMultiLine start s text).1 := by
  fun_induction nestedMultiLine start s text with
  | case1 s => exact .refl s
  | case2 s => exact .past s _
  | case3 s text _ _ run _ induction => exact (Reaches.past s run).trans induction
  | case4 s text _ _ induction => exact (Reaches.past s 1).trans induction

theorem nested_string_reaches (start : SourcePos) (s : Cursor) (text : Bytes) :
    Reaches s (nestedString start s text).1 := by
  fun_induction nestedString start s text with
  | case1 s => exact .refl s
  | case2 s => exact .refl s
  | case3 s => exact .past s 1
  | case4 s text _ _ _ _ escaped _ induction => exact (Reaches.past s 1).trans induction
  | case5 s text _ _ _ _ escaped _ induction =>
      exact ((Reaches.past s 1).trans (.past _ 1)).trans induction
  | case6 s text _ _ _ _ induction => exact (Reaches.past s 1).trans induction

/-- A string literal inside a hole, from its opening quote on. -/
def nestedLiteral (start : SourcePos) (s : Cursor) (text : Bytes) : Cursor × Except Failure Bytes :=
  if s.peekChar 1 = byte '"' ∧ s.peekChar 2 = byte '"' then
    nestedMultiLine start (s.past 3) (text ++ s.rest.take 3)
  else nestedString start s.advance (text ++ [s.cur])

theorem nested_literal_reaches (start : SourcePos) (s : Cursor) (text : Bytes) :
    Reaches s.advance (nestedLiteral start s text).1 := by
  unfold nestedLiteral
  split_ifs
  · have opened : s.past 3 = s.advance.past 2 := (past_past s 1 2).symm
    rw [opened]
    exact (Reaches.past s.advance 2).trans (nested_multi_line_reaches _ _ _)
  · exact nested_string_reaches _ _ _

/-- The source text of a `$\x7b` hole up to the brace that matches. -/
def holeText (triple : Bool) (start : SourcePos) (depth : Nat) (s : Cursor) (text : Bytes) :
    Cursor × Except Failure Bytes :=
  if ending : s.eof = true then
    (s, .error ⟨if triple then unclosedMultiLine else unclosedString, start, triple⟩)
  else if s.cur = byte '\x7b' then
    holeText triple start (depth + 1) s.advance (text ++ [s.cur])
  else if s.cur = byte '\x7d' then
    if depth = 1 then (s.advance, .ok text)
    else holeText triple start (depth - 1) s.advance (text ++ [s.cur])
  else if s.cur = byte '"' then
    match equation : nestedLiteral start s text with
    | (stopped, .error f) => (stopped, .error f)
    | (read, .ok longer) => holeText triple start depth read longer
  else holeText triple start depth s.advance (text ++ [s.cur])
termination_by s.rest.length
decreasing_by
  · exact advance_shorter (by simpa using ending)
  · exact advance_shorter (by simpa using ending)
  · have reached := nested_literal_reaches start s text
    rw [equation] at reached
    exact reaches_shorter (by simpa using ending) reached
  · exact advance_shorter (by simpa using ending)

theorem hole_text_reaches (triple : Bool) (start : SourcePos) (depth : Nat) (s : Cursor)
    (text : Bytes) : Reaches s (holeText triple start depth s text).1 := by
  fun_induction holeText triple start depth s text with
  | case1 depth s => exact .refl s
  | case2 depth s text _ _ induction => exact (Reaches.past s 1).trans induction
  | case3 s => exact .past s 1
  | case4 depth s text _ _ _ _ induction => exact (Reaches.past s 1).trans induction
  | case5 depth s text _ _ _ _ stopped f equation =>
      have reached := nested_literal_reaches start s text
      rw [equation] at reached
      exact (Reaches.past s 1).trans reached
  | case6 depth s text _ _ _ _ read inside equation induction =>
      have reached := nested_literal_reaches start s text
      rw [equation] at reached
      exact ((Reaches.past s 1).trans reached).trans induction
  | case7 depth s text _ _ _ _ induction => exact (Reaches.past s 1).trans induction

/-- `$name` stops at the next `$`, although `$` is an identifier character. -/
def holeIdentCharLength (rest : Bytes) : Nat :=
  if rest.headD 0 = byte '$' then 0 else identCharLength rest

/-- The name of a `$name` hole. -/
def holeName (s : Cursor) (name : Bytes) : Bytes × Cursor :=
  if ending : s.eof = true then (name, s)
  else
    let len := holeIdentCharLength s.rest
    if none : len = 0 then (name, s)
    else holeName (s.past len) (name ++ s.rest.take len)
termination_by s.rest.length
decreasing_by exact past_shorter (by simpa using ending) (Nat.pos_of_ne_zero none)

theorem hole_name_reaches (s : Cursor) (name : Bytes) : Reaches s (holeName s name).2 := by
  fun_induction holeName s name with
  | case1 s => exact .refl s
  | case2 s => exact .refl s
  | case3 s name _ len _ induction => exact (Reaches.past s len).trans induction

/-- The parts read so far, the literal being read and where it starts. -/
structure Interpolation where
  parts : List InterpolationPart := []
  literal : Bytes := []
  literalStart : SourcePos
deriving DecidableEq, Repr

def flushLiteral (i : Interpolation) : List InterpolationPart :=
  if i.literal.isEmpty then i.parts else i.parts ++ [⟨false, i.literal, i.literalStart⟩]

/-- The interpolation after a hole whose text ends at `s`. -/
def withHole (i : Interpolation) (text : Bytes) (position : SourcePos) (s : Cursor) :
    Interpolation :=
  { parts := flushLiteral i ++ [⟨true, text, position⟩], literalStart := s.pos }

/-- A hole, from the character after its `$` on. -/
def interpolationHole (triple : Bool) (start : SourcePos) (s : Cursor) (i : Interpolation) :
    Cursor × Except Failure Interpolation :=
  if s.advance.cur = byte '\x7b' then
    let opened := s.advance.advance
    match holeText triple start 1 opened [] with
    | (stopped, .error f) => (stopped, .error f)
    | (read, .ok text) => (read, .ok (withHole i text opened.pos read))
  else if holeIdentCharLength s.advance.rest = 0 then
    (s.advance, .error
      ⟨"invalid string interpolation: $$, $ident or $\x7bexpr\x7d expected", s.pos, false⟩)
  else
    let named := holeName s.advance []
    (named.2, .ok (withHole i named.1 s.advance.pos named.2))

theorem interpolation_hole_reaches (triple : Bool) (start : SourcePos) (s : Cursor)
    (i : Interpolation) : Reaches s.advance (interpolationHole triple start s i).1 := by
  unfold interpolationHole
  split_ifs
  · have opened := (Reaches.past s.advance 1).trans
      (hole_text_reaches triple start 1 s.advance.advance [])
    dsimp only
    split
    · next stopped f equation => rwa [equation] at opened
    · next read text equation => rwa [equation] at opened
  · exact .refl s.advance
  · exact hole_name_reaches s.advance []

/-- The loop of `lexInterpolated`. -/
def interpolatedText (triple raw : Bool) (start : SourcePos) (s : Cursor) (i : Interpolation) :
    Cursor × Except Failure Interpolation :=
  if ending : s.eof = true then
    (s, .error ⟨if triple then unclosedMultiLine else unclosedString, start, triple⟩)
  else if !triple && s.cur == byte '\n' then (s, .error ⟨unclosedString, start, false⟩)
  else if quote : s.cur = byte '"' then
    if triple then
      let run := quoteRun s
      if run ≥ 3 then (s.past run, .ok { i with literal := i.literal ++ quotes (run - 3) })
      else if (s.past run).eof then (s.past run, .error ⟨unclosedMultiLine, start, true⟩)
      else
        interpolatedText triple raw start (s.past run) { i with literal := i.literal ++ quotes run }
    else (s.advance, .ok i)
  else if s.cur = byte '$' then
    if s.advance.cur = byte '$' then
      interpolatedText triple raw start s.advance.advance
        { i with literal := i.literal ++ [byte '$'] }
    else
      match equation : interpolationHole triple start s i with
      | (stopped, .error f) => (stopped, .error f)
      | (read, .ok longer) => interpolatedText triple raw start read longer
  else if !triple && !raw && s.cur == byte '\\' then
    match equation : readEscape s.advance i.literal with
    | (stopped, .error msg) => (stopped, .error ⟨msg, s.pos, false⟩)
    | (read, .ok literal) => interpolatedText triple raw start read { i with literal := literal }
  else
    interpolatedText triple raw start s.advance
      { i with
        literal := i.literal ++ [s.cur]
        literalStart := if i.literal.isEmpty then s.pos else i.literalStart }
termination_by s.rest.length
decreasing_by
  · exact past_shorter (by simpa using ending) (quote_run_positive (by simpa using ending) quote)
  · exact reaches_shorter (by simpa using ending) (.past _ 1)
  · have reached := interpolation_hole_reaches triple start s i
    rw [equation] at reached
    exact reaches_shorter (by simpa using ending) reached
  · have reached := read_escape_reaches s.advance i.literal
    rw [equation] at reached
    exact reaches_shorter (by simpa using ending) reached
  · exact advance_shorter (by simpa using ending)

/-- `lexInterpolated`, from the opening quote on. -/
def lexInterpolated (lex : LexerState) (interpolator : Bytes) (start : SourcePos) :
    RawToken × LexerState :=
  let opened := lex.cursor.advance
  let triple := opened.cur == byte '"' && opened.peekChar 1 == byte '"'
  let s := if triple then opened.past 2 else opened
  match interpolatedText triple (textOf interpolator == "raw") start s { literalStart := s.pos } with
  | (stopped, .error f) => failedLiteral lex stopped f
  | (read, .ok i) =>
      let lex := lex.moved read
      ({ make lex .interpolatedString start interpolator with parts := flushLiteral i }, lex)

def lexIdentifierOrKeyword (lex : LexerState) : RawToken × LexerState :=
  let start := lex.cursor.pos
  let scanned := identifierText lex.cursor [] false
  let text := scanned.1
  let lex := lex.moved scanned.2
  if lex.cursor.cur = byte '"' then lexInterpolated lex text start
  else if text = [byte '_'] then (make lex .underscore start text, lex)
  else
    match keywords.lookup (textOf text) with
    | some kind => (make lex kind start text, lex)
    | none => (make lex .identifier start text, lex)

/-- The punctuation of one character. -/
def punctuation (c : UInt8) : Option TokenKind :=
  if c = byte '(' then some .lParen
  else if c = byte ')' then some .rParen
  else if c = byte '[' then some .lBracket
  else if c = byte ']' then some .rBracket
  else if c = byte '\x7b' then some .lBrace
  else if c = byte '\x7d' then some .rBrace
  else if c = byte ',' then some .comma
  else if c = byte ';' then some .semicolon
  else none

/-- What `punctuation` knows, as a list. -/
def punctuationMarks : List (UInt8 × TokenKind) :=
  [(byte '(', .lParen), (byte ')', .rParen), (byte '[', .lBracket), (byte ']', .rBracket),
    (byte '\x7b', .lBrace), (byte '\x7d', .rBrace), (byte ',', .comma), (byte ';', .semicolon)]

/-- One `if` of a chain that looks a character up. -/
theorem mark_of_ite {Value : Type} {c mark : UInt8} {value result : Value}
    {rest : Option Value} {marks : List (UInt8 × Value)}
    (later : rest = some result → (c, result) ∈ marks)
    (found : (if c = mark then some value else rest) = some result) :
    (c, result) ∈ (mark, value) :: marks := by
  split at found
  · next same =>
      cases found
      rw [same]
      exact List.mem_cons_self
  · exact List.mem_cons_of_mem _ (later found)

theorem punctuation_mark {c : UInt8} {kind : TokenKind} (found : punctuation c = some kind) :
    (c, kind) ∈ punctuationMarks := by
  revert found
  unfold punctuation punctuationMarks
  iterate 8 refine mark_of_ite ?_
  exact nofun

/-- The `switch` of `next` on the current character. -/
def lexToken (lex : LexerState) : RawToken × LexerState :=
  let start := lex.cursor.pos
  let c := lex.cursor.cur
  let advanced := lex.moved lex.cursor.advance
  match punctuation c with
  | some kind => (make advanced kind start [c], advanced)
  | none =>
      if c = backquote then lexBackquoted lex
      else if c = byte '"' then lexString lex
      else if c = byte '\'' then lexChar lex
      else if c = byte '.' then
        if isDigit (lex.cursor.peekChar 1) then lexNumber lex
        else (make advanced .dot start [c], advanced)
      else if isDigit c then lexNumber lex
      else if isOpChar c then lexOperator lex
      else if identCharLength lex.cursor.rest > 0 then lexIdentifierOrKeyword lex
      else (error lex ("illegal character '" ++ textOf [c] ++ "'") start false, lex)

/-- The blanks of the line of a token, when the token is the first on it. -/
def noteIndentation (lex : LexerState) : LexerState :=
  let start := lex.cursor.pos
  let line := lex.lineIndents.getD (start.line - 1).toNat {}
  if start.line ≠ lex.lastTokenLine then
    { lex with
      sawTabIndent := lex.sawTabIndent || line.hasTab
      sawSpaceIndent := lex.sawSpaceIndent || line.hasSpace }
  else lex

def mixesTabsAndSpaces (lex noted : LexerState) : Bool :=
  lex.cursor.pos.line != lex.lastTokenLine && noted.sawTabIndent && noted.sawSpaceIndent

/-- The token at the cursor, behind all trivia. -/
def tokenAt (lex : LexerState) : RawToken × LexerState :=
  let start := lex.cursor.pos
  if lex.cursor.eof then
    ({ make lex .endOfFile start [] with firstOnLine := true }, { lex with done := true })
  else
    let noted := noteIndentation lex
    if mixesTabsAndSpaces lex noted then
      (error noted "indentation mixes tabs and spaces" start false, { noted with done := true })
    else
      let lexed := lexToken noted
      (lexed.1,
        { lexed.2 with
          done := lexed.1.kind == .error
          lastTokenLine := start.line
          unclaimed := [] })

def next (lex : LexerState) : RawToken × LexerState :=
  if lex.done then ({ kind := .endOfFile, pos := lex.cursor.pos }, lex)
  else
    match skipTrivia lex.cursor with
    | (s, some comment) =>
        (error (lex.moved s) "unclosed comment" comment.pos true,
          { lex.moved s with done := true })
    | (s, none) =>
        let blank := pastBlankLineFrom false (lex.unclaimed ++ lex.cursor.textTo s)
        tokenAt { lex.moved s with pastBlankLine := blank }

/-- The loop of `tokenizeAll`, for at most `fuel` tokens. -/
def tokenizeFrom : Nat → LexerState → List RawToken
  | 0, _ => []
  | fuel + 1, lex =>
      let scanned := next lex
      if scanned.1.kind = .endOfFile ∨ scanned.1.kind = .error then [scanned.1]
      else scanned.1 :: tokenizeFrom fuel scanned.2

/-- Every token takes a byte of the source, so there is one more than its bytes
at most. -/
def tokenizeAll (source : Bytes) : List RawToken :=
  tokenizeFrom (source.length + 1) (.ofSource source)

end ProtoScala.Frontend.Lexer
