import Mathlib.Data.Nat.Digits.Defs
import ProtoScala.Library.Utf8

/-!
# Format specifications

`parseFormatSpec` reads `%[flags][width][.precision]conversion`, `formatOne` renders one
value. A text is a byte string: width and precision count bytes, so text beyond ASCII is
padded too little, and a precision may cut a character. A floating-point text goes through
a buffer of 512 bytes, and a number of a specification through `std::stoi`, whose own
exception nothing reports as a format error.

What a value shows as and how the C library prints a `double` are parameters.
-/

namespace ProtoScala.Runtime.Formatting

open ProtoScala.Library.Utf8

set_option autoImplicit false

abbrev Text := List UInt8

/-- The bytes of an ASCII literal. -/
def ascii (text : List Char) : Text :=
  text.map fun c => UInt8.ofNat c.toNat

def space : UInt8 := 32
def plus : UInt8 := 43
def comma : UInt8 := 44
def minus : UInt8 := 45
def zero : UInt8 := 48

/-- One conversion; an absent width or precision is -1 in the code. -/
structure FormatSpec where
  conversion : Char := 's'
  leftAlign : Bool := false
  plusSign : Bool := false
  spaceSign : Bool := false
  zeroPad : Bool := false
  grouping : Bool := false
  alternate : Bool := false
  width : Option Nat := none
  precision : Option Nat := none
  deriving DecidableEq, Repr

/-! ## The parser -/

/-- The exceptions of the parser. -/
inductive Thrown where
  | invalidArgument (message : String)
  | outOfRange
  deriving DecidableEq, Repr

def maxInt : Nat := 2147483647

def digitsValue (digits : List Char) : Nat :=
  digits.foldl (fun value digit => 10 * value + (digit.toNat - 48)) 0

/-- `std::stoi` on at least one digit. -/
def stoi (digits : List Char) : Except Thrown Nat :=
  if digitsValue digits ≤ maxInt then .ok (digitsValue digits) else .error .outOfRange

def parseFlags : List Char → FormatSpec → FormatSpec × List Char
  | '-' :: rest, out => parseFlags rest { out with leftAlign := true }
  | '+' :: rest, out => parseFlags rest { out with plusSign := true }
  | ' ' :: rest, out => parseFlags rest { out with spaceSign := true }
  | '0' :: rest, out => parseFlags rest { out with zeroPad := true }
  | ',' :: rest, out => parseFlags rest { out with grouping := true }
  | '#' :: rest, out => parseFlags rest { out with alternate := true }
  | rest, out => (out, rest)

def unsupported (spec : List Char) : Thrown :=
  .invalidArgument ("unsupported format specifier '" ++ String.ofList spec ++ "'")

def conversions : List Char :=
  ['s', 'b', 'c', 'd', 'o', 'x', 'X', 'e', 'E', 'f', 'g', 'G']

def parseWidth (rest : List Char) : Except Thrown (Option Nat × List Char) := do
  let digits := rest.takeWhile Char.isDigit
  let width ← if digits.isEmpty then .ok none else (stoi digits).map some
  .ok (width, rest.dropWhile Char.isDigit)

/-- A point without digits is a precision of 0. -/
def parsePrecision : List Char → Except Thrown (Option Nat × List Char)
  | '.' :: rest => do
    let digits := rest.takeWhile Char.isDigit
    let precision ← if digits.isEmpty then .ok 0 else stoi digits
    .ok (some precision, rest.dropWhile Char.isDigit)
  | rest => .ok (none, rest)

/-- The one character behind the numbers. -/
def parseConversion (spec : List Char) (out : FormatSpec) : List Char → Except Thrown FormatSpec
  | [conversion] =>
    if conversion ∈ conversions then .ok { out with conversion := conversion }
    else .error (unsupported spec)
  | _ => .error (unsupported spec)

def parseFormatSpec (spec : List Char) : Except Thrown FormatSpec :=
  match spec with
  | [] => .ok {}
  | first :: rest =>
    if first ≠ '%' then .error (.invalidArgument "a format specifier starts with '%'")
    else do
      let (out, rest) := parseFlags rest {}
      let (width, rest) ← parseWidth rest
      let (precision, rest) ← parsePrecision rest
      parseConversion spec { out with width := width, precision := precision } rest

/-- What becomes of a specification that is not accepted: `escaped` is an exception that is
not caught. -/
inductive Report where
  | formatError (message : String)
  | escaped (what : String)
  deriving DecidableEq, Repr

/-- The handler around `parseFormatSpec` in `compileFormat`, and in `format`. -/
def checkSpec (spec : List Char) : Except Report FormatSpec :=
  match parseFormatSpec spec with
  | .ok out => .ok out
  | .error (.invalidArgument message) => .error (.formatError message)
  | .error .outOfRange => .error (.escaped "stoi")

/-! ## Rendering -/

def pad (body : Text) (spec : FormatSpec) : Text :=
  match spec.width with
  | none => body
  | some width =>
    if width ≤ body.length then body
    else
      let fill := List.replicate (width - body.length) space
      if spec.leftAlign then body ++ fill else fill ++ body

/-- A comma before every third digit from the end. -/
def groupDigits : Text → Text
  | [] => []
  | digit :: rest =>
    digit :: if rest ≠ [] ∧ rest.length % 3 = 0 then comma :: groupDigits rest
      else groupDigits rest

def padNumeric (sign body : Text) (spec : FormatSpec) : Text :=
  match spec.width with
  | some width =>
    if spec.zeroPad && !spec.leftAlign then
      pad (sign ++ (List.replicate (width - (sign.length + body.length)) zero ++ body)) spec
    else pad (sign ++ body) spec
  | none => pad (sign ++ body) spec

/-- The sign, and the body without it. -/
def signOf (body : Text) (spec : FormatSpec) : Text × Text :=
  if body.head? = some minus then ([minus], body.tail)
  else (if spec.plusSign then [plus] else if spec.spaceSign then [space] else [], body)

/-- The values that a conversion tells apart. -/
inductive Value (D X : Type) where
  | integer (n : Int)
  | char (code : Nat)
  | double (d : D)
  | other (falsy : Bool) (value : X)

/-- What rendering asks of a value and of the C library; `printf` is the text of a `double`
in a conversion with a precision. -/
structure Library (D X : Type) where
  shown : Value D X → Text
  typeName : Value D X → String
  ofInteger : Int → D
  printf : Char → Nat → D → Text

def appendUtf8 (c : Nat) : Text :=
  if c < 0x80 then [UInt8.ofNat c]
  else if c < 0x800 then [UInt8.ofNat (0xC0 ||| c >>> 6), UInt8.ofNat (0x80 ||| (c &&& 0x3F))]
  else if c < 0x10000 then
    [UInt8.ofNat (0xE0 ||| c >>> 12), UInt8.ofNat (0x80 ||| ((c >>> 6) &&& 0x3F)),
      UInt8.ofNat (0x80 ||| (c &&& 0x3F))]
  else
    [UInt8.ofNat (0xF0 ||| c >>> 18), UInt8.ofNat (0x80 ||| ((c >>> 12) &&& 0x3F)),
      UInt8.ofNat (0x80 ||| ((c >>> 6) &&& 0x3F)), UInt8.ofNat (0x80 ||| (c &&& 0x3F))]

section Model

variable {D X : Type} (lib : Library D X)

def digitByte (digit : Nat) : UInt8 :=
  UInt8.ofNat (if digit < 10 then 48 + digit else 87 + digit)

def magnitude (base n : Nat) : Text :=
  if n = 0 then [zero] else (Nat.digits base n).reverse.map digitByte

def asIntegerString (base : Nat) (n : Int) : Text :=
  if n < 0 then minus :: magnitude base n.natAbs else magnitude base n.natAbs

/-- `std::toupper` of a byte. -/
def toUpper (b : UInt8) : UInt8 :=
  if 97 ≤ b ∧ b ≤ 122 then b - 32 else b

def baseOf (conversion : Char) : Nat :=
  if conversion = 'd' then 10 else if conversion = 'o' then 8 else 16

/-- The prefix of the alternate form. -/
def alternateForm (conversion : Char) (digits : Text) : Text :=
  if conversion = 'x' then ascii ['0', 'x'] ++ digits
  else if conversion = 'X' then ascii ['0', 'X'] ++ digits
  else if conversion = 'o' ∧ digits.head? ≠ some zero then zero :: digits
  else digits

/-- An `IllegalArgumentException`. -/
abbrev Raised := String

def expects (conversion : Char) (what : String) (v : Value D X) : Raised :=
  "%" ++ String.ofList [conversion] ++ " expects " ++ what ++ ", got " ++ lib.typeName v

def formatInteger (spec : FormatSpec) (n : Int) : Text :=
  let (sign, digits) := signOf (asIntegerString (baseOf spec.conversion) n) spec
  let digits := if spec.conversion = 'X' then digits.map toUpper else digits
  let digits := if spec.grouping && spec.conversion == 'd' then groupDigits digits else digits
  padNumeric sign (if spec.alternate then alternateForm spec.conversion digits else digits) spec

/-- The size of the buffer for a floating-point text, without its end. -/
def bufferSize : Nat := 511

def formatDouble (spec : FormatSpec) (d : D) : Text :=
  let text := (lib.printf spec.conversion (spec.precision.getD 6) d).take bufferSize
  let (sign, body) := signOf text spec
  padNumeric sign body spec

/-- The text of `%s` before it is padded. -/
def truncated (spec : FormatSpec) (body : Text) : Text :=
  match spec.precision with
  | some precision => body.take precision
  | none => body

def formatOne (spec : FormatSpec) (v : Value D X) : Except Raised Text :=
  match spec.conversion with
  | 's' => .ok (pad (truncated spec (lib.shown v)) spec)
  | 'b' =>
    match v with
    | .other true _ => .ok (pad (ascii ['f', 'a', 'l', 's', 'e']) spec)
    | _ => .ok (pad (ascii ['t', 'r', 'u', 'e']) spec)
  | 'c' =>
    match v with
    | .char code => .ok (pad (appendUtf8 code) spec)
    | v => .error ("%c expects a Char, got " ++ lib.typeName v)
  | 'd' | 'o' | 'x' | 'X' =>
    match v with
    | .integer n => .ok (formatInteger spec n)
    | .char code => .ok (formatInteger spec code)
    | v => .error (expects lib spec.conversion "an integer" v)
  | 'e' | 'E' | 'f' | 'g' | 'G' =>
    match v with
    | .integer n => .ok (formatDouble lib spec (lib.ofInteger n))
    | .double d => .ok (formatDouble lib spec d)
    | v => .error (expects lib spec.conversion "a number" v)
  | conversion =>
    .error ("unsupported format conversion '" ++ String.ofList [conversion] ++ "'")

attribute [local simp] formatOne

end Model

/-! ## What formatting should do -/

section Meaning

variable {D X : Type} (lib : Library D X)

def digitValue (b : UInt8) : Nat :=
  if b.toNat < 58 then b.toNat - 48 else if b.toNat < 97 then b.toNat - 55 else b.toNat - 87

def readDigits (base : Nat) (digits : Text) : Nat :=
  digits.foldl (fun value digit => base * value + digitValue digit) 0

def decoration (b : UInt8) : Bool :=
  b == space || b == plus || b == comma || b == minus

/-- A text without padding, sign, grouping and the mark of its base. -/
def digitsOf (spec : FormatSpec) (out : Text) : Text :=
  let digits := (out.filter fun b => !decoration b).dropWhile (· == zero)
  if spec.alternate then digits.dropWhile fun b => b == 120 || b == 88 else digits

/-- The integer that a text shows. -/
def readBack (spec : FormatSpec) (out : Text) : Int :=
  if minus ∈ out then -(readDigits (baseOf spec.conversion) (digitsOf spec out) : Int)
  else readDigits (baseOf spec.conversion) (digitsOf spec out)

def unpadded (spec : FormatSpec) (v : Value D X) : Except Raised Text :=
  formatOne lib { spec with width := none } v

def Value.integer? : Value D X → Option Int
  | .integer n => some n
  | .char code => some code
  | _ => none

def doubleOf : Value D X → Option D
  | .integer n => some (lib.ofInteger n)
  | .double d => some d
  | _ => none

/-- The text of the C library, with the sign that the flags ask for. -/
def wholeText (spec : FormatSpec) (d : D) : Text :=
  let (sign, body) := signOf (lib.printf spec.conversion (spec.precision.getD 6) d) spec
  sign ++ body

def integerConversions : List Char := ['d', 'o', 'x', 'X']

def floatConversions : List Char := ['e', 'E', 'f', 'g', 'G']

/-- What is promised of one specification and one value. -/
structure FormatsRight (text : List Char) (v : Value D X) : Prop where
  padded : ∀ spec out body, checkSpec text = .ok spec → formatOne lib spec v = .ok out →
    unpadded lib spec v = .ok body → spec.conversion ∈ ['s', 'c'] ++ integerConversions →
      codePoints out = max (spec.width.getD 0) (codePoints body)
  whole : ∀ spec out body, checkSpec text = .ok spec → formatOne lib spec v = .ok out →
    unpadded lib spec v = .ok body → spec.conversion = 's' → WellFormed (lib.shown v) →
      body <+: lib.shown v ∧ WellFormed body ∧ WellFormed out
  reads : ∀ spec out n, checkSpec text = .ok spec → formatOne lib spec v = .ok out →
    spec.conversion ∈ integerConversions → v.integer? = some n → readBack spec out = n
  full : ∀ spec d, checkSpec text = .ok spec → spec.conversion ∈ floatConversions →
    doubleOf lib v = some d → unpadded lib spec v = .ok (wholeText lib spec d)
  reported : ∀ report, checkSpec text = .error report → ∃ message, report = .formatError message

/-- A width is reached already, or counts bytes that are characters. -/
def PadsRight (spec : FormatSpec) (body : Text) : Prop :=
  ∀ width, spec.width = some width → width ≤ codePoints body ∨ codePoints body = body.length

/-- The numbers that are read fit an `int`. -/
def NumbersFit (text : List Char) : Prop :=
  ∀ rest, text = '%' :: rest →
    digitsValue ((parseFlags rest {}).2.takeWhile Char.isDigit) ≤ maxInt ∧
    ∀ more, (parseFlags rest {}).2.dropWhile Char.isDigit = '.' :: more →
      digitsValue (more.takeWhile Char.isDigit) ≤ maxInt

structure RightWhen (text : List Char) (v : Value D X) : Prop where
  shown : ∀ spec, checkSpec text = .ok spec → spec.conversion = 's' →
    PadsRight spec (truncated spec (lib.shown v))
  cut : ∀ spec precision b, checkSpec text = .ok spec → spec.conversion = 's' →
    WellFormed (lib.shown v) → spec.precision = some precision →
      (lib.shown v)[precision]? = some b → continuation b = false
  char : ∀ spec code, checkSpec text = .ok spec → spec.conversion = 'c' → v = .char code →
    PadsRight spec (appendUtf8 code)
  fits : ∀ spec d, checkSpec text = .ok spec → spec.conversion ∈ floatConversions →
    doubleOf lib v = some d →
      (lib.printf spec.conversion (spec.precision.getD 6) d).length ≤ bufferSize
  numbers : NumbersFit text

end Meaning

/-! ## Padding -/

theorem pad_shape (body : Text) (spec : FormatSpec) :
    ∃ left right, pad body spec = List.replicate left space ++ body ++ List.replicate right space ∧
      left + right = spec.width.getD 0 - body.length := by
  unfold pad
  cases spec.width with
  | none => exact ⟨0, 0, by simp⟩
  | some width =>
    simp only [Option.getD_some]
    split
    · exact ⟨0, 0, by simp, by omega⟩
    · split
      · exact ⟨0, _, by simp, Nat.zero_add _⟩
      · exact ⟨_, 0, by simp, Nat.add_zero _⟩

theorem pad_numeric_shape (sign body : Text) (spec : FormatSpec) :
    ∃ left zeros right, padNumeric sign body spec = List.replicate left space ++
      (sign ++ (List.replicate zeros zero ++ body)) ++ List.replicate right space ∧
      left + zeros + right = spec.width.getD 0 - (sign.length + body.length) := by
  unfold padNumeric
  cases width : spec.width with
  | none =>
    obtain ⟨left, right, shape, sum⟩ := pad_shape (sign ++ body) spec
    refine ⟨left, 0, right, by simpa using shape, ?_⟩
    rw [width] at sum
    simp only [List.length_append] at sum
    omega
  | some w =>
    simp only [Option.getD_some]
    split
    · obtain ⟨left, right, shape, sum⟩ := pad_shape
        (sign ++ (List.replicate (w - (sign.length + body.length)) zero ++ body)) spec
      refine ⟨left, _, right, shape, ?_⟩
      rw [width] at sum
      simp only [List.length_append, List.length_replicate, Option.getD_some] at sum
      omega
    · obtain ⟨left, right, shape, sum⟩ := pad_shape (sign ++ body) spec
      refine ⟨left, 0, right, by simpa using shape, ?_⟩
      rw [width] at sum
      simp only [List.length_append, Option.getD_some] at sum
      omega

theorem code_points_replicate {b : UInt8} (begins : continuation b = false) (n : Nat) :
    codePoints (List.replicate n b) = n := by
  simp [codePoints, List.countP_replicate, begins]

theorem code_points_pad (body : Text) (spec : FormatSpec) :
    codePoints (pad body spec) = codePoints body + (spec.width.getD 0 - body.length) := by
  obtain ⟨left, right, shape, sum⟩ := pad_shape body spec
  have begins : continuation space = false := by decide
  rw [shape, code_points_append, code_points_append, code_points_replicate begins,
    code_points_replicate begins]
  omega

/-- A text is padded to the width in characters exactly when its width is reached, or its
characters are its bytes. -/
theorem pads_right_iff (body : Text) (spec : FormatSpec) :
    codePoints (pad body spec) = max (spec.width.getD 0) (codePoints body) ↔
      PadsRight spec body := by
  have fewer := code_points_le body
  rw [code_points_pad, PadsRight]
  cases spec.width with
  | none => simp
  | some width =>
    simp only [Option.getD_some, Option.some.injEq, forall_eq']
    omega

theorem well_formed_replicate {b : UInt8} (ascii_byte : b < 0x80) (n : Nat) :
    WellFormed (List.replicate n b) := by
  induction n with
  | zero => exact well_formed_nil
  | succ n ih => exact (well_formed_ascii ascii_byte).append ih

theorem well_formed_pad {body : Text} (well : WellFormed body) (spec : FormatSpec) :
    WellFormed (pad body spec) := by
  obtain ⟨left, right, shape, -⟩ := pad_shape body spec
  have blank : space < 0x80 := by decide
  rw [shape]
  exact ((well_formed_replicate blank left).append well).append (well_formed_replicate blank right)

/-! ## Integers -/

/-- A byte of a digit in one of the bases. -/
def digitLike (b : UInt8) : Bool :=
  decide (48 ≤ b.toNat ∧ b.toNat ≤ 57 ∨ 65 ≤ b.toNat ∧ b.toNat ≤ 70 ∨
    97 ≤ b.toNat ∧ b.toNat ≤ 102)

theorem digit_byte_like {digit : Nat} (small : digit < 16) :
    digitLike (digitByte digit) = true ∧ digitLike (toUpper (digitByte digit)) = true ∧
      digitValue (digitByte digit) = digit ∧ digitValue (toUpper (digitByte digit)) = digit := by
  have all : ∀ digit : Fin 16, digitLike (digitByte digit) = true ∧
      digitLike (toUpper (digitByte digit)) = true ∧ digitValue (digitByte digit) = digit ∧
      digitValue (toUpper (digitByte digit)) = digit := by
    decide
  exact all ⟨digit, small⟩

theorem digit_like_plain {b : UInt8} (like : digitLike b = true) :
    decoration b = false ∧ b ≠ 120 ∧ b ≠ 88 ∧ continuation b = false := by
  simp only [digitLike, decide_eq_true_eq] at like
  simp only [decoration, continuation, space, plus, comma, minus, Bool.or_eq_false_iff,
    beq_eq_false_iff_ne, ne_eq, ← UInt8.toNat_inj, Bool.and_eq_false_iff, decide_eq_false_iff_not]
  simp only [UInt8.reduceToNat]
  omega

theorem base_of_bounds (conversion : Char) :
    1 < baseOf conversion ∧ baseOf conversion ≤ 16 := by
  unfold baseOf
  split
  · omega
  · split <;> omega

/-- The digits, in lower or in upper case. -/
def shownDigits (upper : Bool) (base n : Nat) : Text :=
  if upper then (magnitude base n).map toUpper else magnitude base n

theorem shown_digits_eq (upper : Bool) (base n : Nat) :
    shownDigits upper base n =
      (if n = 0 then [0] else (Nat.digits base n).reverse).map fun digit =>
        if upper then toUpper (digitByte digit) else digitByte digit := by
  by_cases none : n = 0
  · cases upper <;> simp [shownDigits, magnitude, none] <;> decide
  · cases upper <;> simp [shownDigits, magnitude, none]

theorem digits_below {base n : Nat} (bounds : 1 < base ∧ base ≤ 16) :
    ∀ digit ∈ (if n = 0 then [0] else (Nat.digits base n).reverse), digit < 16 := by
  intro digit member
  split at member
  · obtain rfl := List.mem_singleton.1 member
    omega
  · have := Nat.digits_lt_base bounds.1 (List.mem_reverse.1 member)
    omega

theorem shown_digits_like (upper : Bool) {base n : Nat} (bounds : 1 < base ∧ base ≤ 16) :
    ∀ b ∈ shownDigits upper base n, digitLike b = true := by
  intro b member
  rw [shown_digits_eq] at member
  obtain ⟨digit, inside, rfl⟩ := List.mem_map.1 member
  have like := digit_byte_like (digits_below bounds digit inside)
  cases upper
  · exact like.1
  · exact like.2.1

theorem read_map (value : Nat → UInt8) (base : Nat) (digits : List Nat)
    (reads : ∀ digit ∈ digits, digitValue (value digit) = digit) :
    readDigits base (digits.reverse.map value) = Nat.ofDigits base digits := by
  induction digits with
  | nil => rfl
  | cons digit rest ih =>
    have later := ih fun other member => reads other (List.mem_cons_of_mem _ member)
    rw [readDigits] at later
    rw [readDigits, List.reverse_cons, List.map_append, List.foldl_append, later]
    simp only [List.map_cons, List.map_nil, List.foldl_cons, List.foldl_nil, Nat.ofDigits_cons,
      reads digit List.mem_cons_self]
    rw [Nat.add_comm]

/-- Digits are read back. -/
theorem read_shown_digits (upper : Bool) {base : Nat} (bounds : 1 < base ∧ base ≤ 16) (n : Nat) :
    readDigits base (shownDigits upper base n) = n := by
  have reads : ∀ digit < 16, digitValue
      (if upper then toUpper (digitByte digit) else digitByte digit) = digit := by
    intro digit small
    have like := digit_byte_like small
    cases upper
    · exact like.2.2.1
    · exact like.2.2.2
  rw [shown_digits_eq]
  by_cases none : n = 0
  · subst none
    simpa [readDigits] using reads 0 (by omega)
  · rw [if_neg none, read_map _ base _ fun digit member => reads digit ?_, Nat.ofDigits_digits]
    have := Nat.digits_lt_base bounds.1 member
    omega

theorem read_drop_zeros (base : Nat) (digits : Text) :
    readDigits base (digits.dropWhile (· == zero)) = readDigits base digits := by
  induction digits with
  | nil => rfl
  | cons b rest ih =>
    by_cases leading : b = zero
    · subst leading
      rw [List.dropWhile_cons_of_pos (by simp), ih]
      have nothing : base * 0 + digitValue zero = 0 := by
        rw [Nat.mul_zero]
        decide
      rw [readDigits, readDigits, List.foldl_cons, nothing]
    · rw [List.dropWhile_cons_of_neg (by simpa using leading)]

theorem group_digits_filter (keep : UInt8 → Bool) (drops : keep comma = false) (digits : Text) :
    (groupDigits digits).filter keep = digits.filter keep := by
  induction digits with
  | nil => rfl
  | cons digit rest ih =>
    rw [groupDigits, List.filter_cons, List.filter_cons]
    split <;> split <;> simp [drops, ih]

theorem mem_group_digits {digits : Text} {b : UInt8} (member : b ∈ groupDigits digits) :
    b ∈ digits ∨ b = comma := by
  induction digits with
  | nil => cases member
  | cons digit rest ih =>
    rw [groupDigits, List.mem_cons] at member
    rcases member with rfl | member
    · exact .inl List.mem_cons_self
    · have later : b ∈ groupDigits rest ∨ b = comma := by
        split at member
        · rcases List.mem_cons.1 member with same | later
          · exact .inr same
          · exact .inl later
        · exact .inl member
      rcases later with later | same
      · exact (ih later).imp_left (List.mem_cons_of_mem _)
      · exact .inr same

/-- The sign of an integer, and the flags where it is not negative. -/
def signText (spec : FormatSpec) (n : Int) : Text :=
  if n < 0 then [minus]
  else if spec.plusSign then [plus] else if spec.spaceSign then [space] else []

theorem sign_of_integer (spec : FormatSpec) {base : Nat} (bounds : 1 < base ∧ base ≤ 16)
    (n : Int) : signOf (asIntegerString base n) spec = (signText spec n, magnitude base n.natAbs) := by
  by_cases negative : n < 0
  · simp [signOf, asIntegerString, signText, negative]
  · have other : (magnitude base n.natAbs).head? ≠ some minus := by
      intro starts
      have like := shown_digits_like false bounds (n := n.natAbs) minus
        (List.mem_of_head? (by simpa [shownDigits] using starts))
      exact absurd like (by decide)
    simp [signOf, asIntegerString, signText, negative, other]

def grouped (spec : FormatSpec) (digits : Text) : Text :=
  if spec.grouping && spec.conversion == 'd' then groupDigits digits else digits

/-- The text between sign and padding. -/
def integerBody (spec : FormatSpec) (n : Int) : Text :=
  let digits := shownDigits (spec.conversion == 'X') (baseOf spec.conversion) n.natAbs
  if spec.alternate then alternateForm spec.conversion (grouped spec digits)
  else grouped spec digits

theorem format_integer_eq (spec : FormatSpec) (n : Int) :
    formatInteger spec n = padNumeric (signText spec n) (integerBody spec n) spec := by
  simp only [formatInteger, sign_of_integer spec (base_of_bounds spec.conversion) n, integerBody,
    grouped, shownDigits, beq_iff_eq]

/-- A byte of the text between sign and padding. -/
def BodyByte (b : UInt8) : Prop :=
  digitLike b = true ∨ b = comma ∨ b = 120 ∨ b = 88

theorem mem_alternate_form {conversion : Char} {digits : Text} {b : UInt8}
    (member : b ∈ alternateForm conversion digits) : b = zero ∨ b = 120 ∨ b = 88 ∨ b ∈ digits := by
  unfold alternateForm at member
  split at member
  · rcases List.mem_append.1 member with mark | digit
    · simp only [ascii, List.map_cons, List.map_nil, List.mem_cons, List.not_mem_nil,
        or_false] at mark
      rcases mark with rfl | rfl
      · exact .inl (by decide)
      · exact .inr (.inl (by decide))
    · exact .inr (.inr (.inr digit))
  · split at member
    · rcases List.mem_append.1 member with mark | digit
      · simp only [ascii, List.map_cons, List.map_nil, List.mem_cons, List.not_mem_nil,
          or_false] at mark
        rcases mark with rfl | rfl
        · exact .inl (by decide)
        · exact .inr (.inr (.inl (by decide)))
      · exact .inr (.inr (.inr digit))
    · split at member
      · rcases List.mem_cons.1 member with same | digit
        · exact .inl same
        · exact .inr (.inr (.inr digit))
      · exact .inr (.inr (.inr member))

theorem integer_body_bytes (spec : FormatSpec) (n : Int) :
    ∀ b ∈ integerBody spec n, BodyByte b := by
  intro b member
  have digits : ∀ b ∈ shownDigits (spec.conversion == 'X') (baseOf spec.conversion) n.natAbs,
      digitLike b = true :=
    shown_digits_like _ (base_of_bounds spec.conversion)
  have groups : ∀ b ∈ grouped spec (shownDigits (spec.conversion == 'X')
      (baseOf spec.conversion) n.natAbs), BodyByte b := by
    intro b member
    unfold grouped at member
    split at member
    · rcases mem_group_digits member with digit | same
      · exact .inl (digits b digit)
      · exact .inr (.inl same)
    · exact .inl (digits b member)
  unfold integerBody at member
  simp only at member
  split at member
  · rcases mem_alternate_form member with rfl | rfl | rfl | inside
    · exact .inl (by decide)
    · exact .inr (.inr (.inl rfl))
    · exact .inr (.inr (.inr rfl))
    · exact groups b inside
  · exact groups b member

theorem body_byte_plain {b : UInt8} (byte : BodyByte b) : continuation b = false ∧ b ≠ minus := by
  rcases byte with like | rfl | rfl | rfl
  · obtain ⟨plain, -, -, begins⟩ := digit_like_plain like
    refine ⟨begins, ?_⟩
    rintro rfl
    exact absurd plain (by decide)
  · decide
  · decide
  · decide

theorem sign_text_plain (spec : FormatSpec) (n : Int) :
    ∀ b ∈ signText spec n, continuation b = false ∧ decoration b = true ∧ (b = minus → n < 0) := by
  intro b member
  unfold signText at member
  split at member
  · obtain rfl := List.mem_singleton.1 member
    rename_i negative
    exact ⟨by decide, by decide, fun _ => negative⟩
  · split at member
    · obtain rfl := List.mem_singleton.1 member
      exact ⟨by decide, by decide, fun same => absurd same (by decide)⟩
    · split at member
      · obtain rfl := List.mem_singleton.1 member
        exact ⟨by decide, by decide, fun same => absurd same (by decide)⟩
      · cases member

theorem code_points_plain {text : Text} (begins : ∀ b ∈ text, continuation b = false) :
    codePoints text = text.length := by
  rw [codePoints, List.countP_eq_length]
  intro b member
  simp [begins b member]

/-- An integer is padded to the width. -/
theorem format_integer_padded (spec : FormatSpec) (n : Int) :
    codePoints (formatInteger spec n) =
      max (spec.width.getD 0) (codePoints (formatInteger { spec with width := none } n)) := by
  have signs : ∀ b ∈ signText spec n, continuation b = false := fun b member =>
    (sign_text_plain spec n b member).1
  have bodies : ∀ b ∈ integerBody spec n, continuation b = false := fun b member =>
    (body_byte_plain (integer_body_bytes spec n b member)).1
  have bare : formatInteger { spec with width := none } n =
      signText spec n ++ integerBody spec n := by
    rw [format_integer_eq]
    rfl
  have blank : continuation space = false := by decide
  have nought : continuation zero = false := by decide
  obtain ⟨left, zeros, right, shape, sum⟩ :=
    pad_numeric_shape (signText spec n) (integerBody spec n) spec
  rw [format_integer_eq, shape, bare]
  simp only [code_points_append, code_points_replicate blank, code_points_replicate nought,
    code_points_plain signs, code_points_plain bodies]
  omega

theorem filter_replicate_none {keep : UInt8 → Bool} {b : UInt8} (drops : keep b = false) (n : Nat) :
    (List.replicate n b).filter keep = [] := by
  rw [List.filter_eq_nil_iff]
  intro a member
  rw [List.eq_of_mem_replicate member, drops]
  simp

/-- The digits of a text of digits survive the search for the mark of the base. -/
theorem drop_mark_digits {digits : Text} (like : ∀ b ∈ digits, digitLike b = true) :
    (digits.dropWhile (· == zero)).dropWhile (fun b => b == 120 || b == 88) =
      digits.dropWhile (· == zero) := by
  have kept : ∀ b ∈ digits.dropWhile (· == zero), digitLike b = true := fun b member =>
    like b ((List.dropWhile_sublist _).mem member)
  cases shape : digits.dropWhile (· == zero) with
  | nil => rfl
  | cons b rest =>
    rw [shape] at kept
    obtain ⟨-, not_x, not_upper, -⟩ := digit_like_plain (kept b List.mem_cons_self)
    rw [List.dropWhile_cons_of_neg]
    simp [not_x, not_upper]

theorem read_zeros (base zeros : Nat) (digits : Text) :
    readDigits base (List.replicate zeros zero ++ digits) = readDigits base digits := by
  rw [← read_drop_zeros, ← read_drop_zeros base digits]
  congr 1
  induction zeros with
  | zero => rfl
  | succ zeros ih =>
    rw [List.replicate_succ, List.cons_append, List.dropWhile_cons_of_pos (by simp)]
    exact ih

/-- What is read of the text between sign and padding. -/
theorem read_body (spec : FormatSpec) (n : Int) (zeros : Nat) :
    readDigits (baseOf spec.conversion)
      (digitsOf spec (List.replicate zeros zero ++ integerBody spec n)) = n.natAbs := by
  have bounds := base_of_bounds spec.conversion
  set digits := shownDigits (spec.conversion == 'X') (baseOf spec.conversion) n.natAbs with digits_eq
  have like : ∀ b ∈ digits, digitLike b = true := shown_digits_like _ bounds
  have value : readDigits (baseOf spec.conversion) digits = n.natAbs := read_shown_digits _ bounds _
  have kept : digits.filter (fun b => !decoration b) = digits := by
    rw [List.filter_eq_self]
    intro b member
    simp [(digit_like_plain (like b member)).1]
  have zeros_kept : (List.replicate zeros zero).filter (fun b => !decoration b) =
      List.replicate zeros zero := by
    rw [List.filter_eq_self]
    intro b member
    rw [List.eq_of_mem_replicate member]
    decide
  have padded_like : ∀ more : Nat, ∀ b ∈ List.replicate more zero ++ digits,
      digitLike b = true := by
    intro more b member
    rcases List.mem_append.1 member with nought | digit
    · rw [List.eq_of_mem_replicate nought]
      decide
    · exact like b digit
  -- without a mark the filtered body is the digits behind some zeros
  have plain : ∀ more : Nat, (integerBody spec n).filter (fun b => !decoration b) =
      List.replicate more zero ++ digits →
      readDigits (baseOf spec.conversion)
        (digitsOf spec (List.replicate zeros zero ++ integerBody spec n)) = n.natAbs := by
    intro more body
    rw [digitsOf, List.filter_append, zeros_kept, body, ← List.append_assoc,
      List.replicate_append_replicate]
    simp only [drop_mark_digits (padded_like (zeros + more)), ite_self]
    rw [read_drop_zeros, read_zeros, value]
  -- a mark stands in front of the digits
  have marked : ∀ mark : UInt8, mark = 120 ∨ mark = 88 → spec.alternate = true →
      integerBody spec n = [zero, mark] ++ digits →
      readDigits (baseOf spec.conversion)
        (digitsOf spec (List.replicate zeros zero ++ integerBody spec n)) = n.natAbs := by
    intro mark is_mark alternate body
    have mark_kept : [zero, mark].filter (fun b => !decoration b) = [zero, mark] := by
      rcases is_mark with rfl | rfl <;> decide
    have one_more : List.replicate zeros zero ++ [zero, mark] ++ digits =
        List.replicate (zeros + 1) zero ++ (mark :: digits) := by
      simp [List.replicate_succ', List.append_assoc]
    have dropped : (List.replicate (zeros + 1) zero ++ (mark :: digits)).dropWhile (· == zero) =
        mark :: digits := by
      rw [List.dropWhile_append_of_pos fun b member => by
        simp [List.eq_of_mem_replicate member]]
      rcases is_mark with rfl | rfl <;> rw [List.dropWhile_cons_of_neg (by decide)]
    have behind : digits.dropWhile (fun b => b == 120 || b == 88) = digits := by
      cases shape : digits with
      | nil => rfl
      | cons b rest =>
        obtain ⟨-, not_x, not_upper, -⟩ := digit_like_plain (like b (by simp [shape]))
        rw [List.dropWhile_cons_of_neg]
        simp [not_x, not_upper]
    rw [digitsOf, List.filter_append, zeros_kept, body, List.filter_append, mark_kept, kept,
      ← List.append_assoc, one_more, dropped]
    simp only [alternate, if_true]
    rw [List.dropWhile_cons_of_pos (by rcases is_mark with rfl | rfl <;> decide), behind, value]
  have body_eq : integerBody spec n = if spec.alternate then
      alternateForm spec.conversion (grouped spec digits) else grouped spec digits := rfl
  have groups : (grouped spec digits).filter (fun b => !decoration b) = digits := by
    unfold grouped
    split
    · rw [group_digits_filter _ (by decide), kept]
    · exact kept
  by_cases alternate : spec.alternate = true
  · rw [if_pos alternate] at body_eq
    unfold alternateForm at body_eq
    split at body_eq
    · rename_i lower
      refine marked 120 (.inl rfl) alternate ?_
      rw [body_eq, grouped, lower]
      simp [ascii, zero]
    · split at body_eq
      · rename_i upper
        refine marked 88 (.inr rfl) alternate ?_
        rw [body_eq, grouped, upper]
        simp [ascii, zero]
      · split at body_eq
        · refine plain 1 ?_
          rw [body_eq, List.filter_cons_of_pos (by decide), groups]
          rfl
        · refine plain 0 ?_
          rw [body_eq, groups]
          rfl
  · refine plain 0 ?_
    rw [body_eq, if_neg alternate, groups]
    rfl

theorem read_back_integer (spec : FormatSpec) (n : Int) :
    readBack spec (formatInteger spec n) = n := by
  obtain ⟨left, zeros, right, shape, -⟩ :=
    pad_numeric_shape (signText spec n) (integerBody spec n) spec
  rw [format_integer_eq, shape]
  have signs : (signText spec n).filter (fun b => !decoration b) = [] := by
    rw [List.filter_eq_nil_iff]
    intro b member
    simp [(sign_text_plain spec n b member).2.1]
  have blanks : ∀ k, (List.replicate k space).filter (fun b => !decoration b) = [] :=
    filter_replicate_none (by decide)
  have negative : minus ∈ List.replicate left space ++
      (signText spec n ++ (List.replicate zeros zero ++ integerBody spec n)) ++
      List.replicate right space ↔ n < 0 := by
    constructor
    · intro member
      simp only [List.mem_append] at member
      rcases member with (blank | sign | nought | body) | blank
      · exact absurd (List.eq_of_mem_replicate blank) (by decide)
      · exact (sign_text_plain spec n minus sign).2.2 rfl
      · exact absurd (List.eq_of_mem_replicate nought) (by decide)
      · exact absurd rfl (body_byte_plain (integer_body_bytes spec n minus body)).2
      · exact absurd (List.eq_of_mem_replicate blank) (by decide)
    · intro below
      simp [signText, below]
  have bare : digitsOf spec (List.replicate left space ++
      (signText spec n ++ (List.replicate zeros zero ++ integerBody spec n)) ++
      List.replicate right space) =
        digitsOf spec (List.replicate zeros zero ++ integerBody spec n) := by
    unfold digitsOf
    simp only [List.filter_append, signs, blanks, List.nil_append, List.append_nil]
  simp only [readBack, bare, read_body, negative]
  split <;> omega

/-! ## Floating-point texts -/

/-- The text with the sign in front of its body. -/
def signed (text : Text) (spec : FormatSpec) : Text :=
  (signOf text spec).1 ++ (signOf text spec).2

theorem signed_length (text : Text) (spec : FormatSpec) :
    (signed text spec).length = text.length +
      if text.head? = some minus then 0 else if spec.plusSign || spec.spaceSign then 1 else 0 := by
  unfold signed signOf
  split
  · rename_i negative
    cases text with
    | nil => simp at negative
    | cons b rest => simp
  · cases spec.plusSign <;> cases spec.spaceSign <;> simp

/-- The buffer keeps a text exactly when the text fits. -/
theorem signed_take_iff (text : Text) (spec : FormatSpec) :
    signed (text.take bufferSize) spec = signed text spec ↔ text.length ≤ bufferSize := by
  constructor
  · intro same
    have lengths := congrArg List.length same
    have head : (text.take bufferSize).head? = text.head? := by
      cases text <;> rfl
    rw [signed_length, signed_length, head, List.length_take] at lengths
    omega
  · intro fits
    rw [List.take_of_length_le fits]

section Conversions

variable {D X : Type} (lib : Library D X)

theorem pad_none (body : Text) (spec : FormatSpec) (none : spec.width = none) :
    pad body spec = body := by
  simp [pad, none]

theorem format_string {spec : FormatSpec} (conversion : spec.conversion = 's') (v : Value D X) :
    formatOne lib spec v = .ok (pad (truncated spec (lib.shown v)) spec) := by
  simp [formatOne, conversion]

theorem format_char {spec : FormatSpec} (conversion : spec.conversion = 'c') {v : Value D X}
    {out : Text} (formatted : formatOne lib spec v = .ok out) :
    ∃ code, v = .char code ∧ out = pad (appendUtf8 code) spec := by
  simp only [formatOne, conversion] at formatted
  cases v with
  | char code => exact ⟨code, rfl, (Except.ok.inj formatted).symm⟩
  | _ => cases formatted

theorem format_integers {spec : FormatSpec} (conversion : spec.conversion ∈ integerConversions)
    (v : Value D X) : formatOne lib spec v = match v.integer? with
      | some n => .ok (formatInteger spec n)
      | none => .error (expects lib spec.conversion "an integer" v) := by
  simp only [integerConversions, List.mem_cons, List.not_mem_nil, or_false] at conversion
  rcases conversion with this | this | this | this <;>
    cases v <;> simp [formatOne, this, Value.integer?]

theorem format_doubles {spec : FormatSpec} (conversion : spec.conversion ∈ floatConversions)
    (v : Value D X) : formatOne lib spec v = match doubleOf lib v with
      | some d => .ok (formatDouble lib spec d)
      | none => .error (expects lib spec.conversion "a number" v) := by
  simp only [floatConversions, List.mem_cons, List.not_mem_nil, or_false] at conversion
  rcases conversion with this | this | this | this | this <;>
    cases v <;> simp [formatOne, this, doubleOf]

theorem unpadded_string {spec : FormatSpec} (conversion : spec.conversion = 's')
    (v : Value D X) : unpadded lib spec v = .ok (truncated spec (lib.shown v)) := by
  have bare : ({ spec with width := none } : FormatSpec).conversion = 's' := conversion
  rw [unpadded, format_string lib bare, pad_none _ _ rfl]
  rfl

theorem unpadded_double {spec : FormatSpec} (conversion : spec.conversion ∈ floatConversions)
    {v : Value D X} {d : D} (double : doubleOf lib v = some d) :
    unpadded lib spec v = .ok (wholeText lib spec d) ↔
      (lib.printf spec.conversion (spec.precision.getD 6) d).length ≤ bufferSize := by
  have bare : ({ spec with width := none } : FormatSpec).conversion ∈ floatConversions :=
    conversion
  rw [unpadded, format_doubles lib bare, double]
  rw [Except.ok.injEq, ← signed_take_iff _ spec]
  rfl

end Conversions

/-! ## The numbers of a specification -/

theorem parse_width_range (rest : List Char) :
    parseWidth rest = .error .outOfRange ∧ ¬ digitsValue (rest.takeWhile Char.isDigit) ≤ maxInt ∨
    ∃ width, parseWidth rest = .ok (width, rest.dropWhile Char.isDigit) ∧
      digitsValue (rest.takeWhile Char.isDigit) ≤ maxInt := by
  unfold parseWidth
  cases digits : rest.takeWhile Char.isDigit with
  | nil => exact .inr ⟨none, rfl, Nat.zero_le _⟩
  | cons first more =>
    simp only [List.isEmpty_cons, Bool.false_eq_true, if_false, stoi]
    by_cases small : digitsValue (first :: more) ≤ maxInt
    · exact .inr ⟨some (digitsValue (first :: more)), by simp [small, Except.map, bind, Except.bind],
        small⟩
    · exact .inl ⟨by simp [small, Except.map, bind, Except.bind], small⟩

theorem parse_precision_range (rest : List Char) :
    parsePrecision rest = .error .outOfRange ∧
      (∃ more, rest = '.' :: more ∧ ¬ digitsValue (more.takeWhile Char.isDigit) ≤ maxInt) ∨
    (∃ precision, parsePrecision rest = .ok precision) ∧
      ∀ more, rest = '.' :: more → digitsValue (more.takeWhile Char.isDigit) ≤ maxInt := by
  unfold parsePrecision
  split
  · rename_i more
    cases digits : more.takeWhile Char.isDigit with
    | nil =>
      refine .inr ⟨⟨_, rfl⟩, ?_⟩
      rintro _ ⟨⟩
      rw [digits]
      exact Nat.zero_le _
    | cons first others =>
      simp only [List.isEmpty_cons, Bool.false_eq_true, if_false, stoi]
      by_cases small : digitsValue (first :: others) ≤ maxInt
      · refine .inr ⟨⟨_, by simp [small, bind, Except.bind]; rfl⟩, ?_⟩
        rintro _ ⟨⟩
        rw [digits]
        exact small
      · exact .inl ⟨by simp [small, bind, Except.bind], more, rfl, digits ▸ small⟩
  · rename_i other
    exact .inr ⟨⟨_, rfl⟩, fun more same => absurd same (other more)⟩

theorem parse_conversion_caught (text : List Char) (out : FormatSpec) (rest : List Char) :
    parseConversion text out rest ≠ .error .outOfRange := by
  unfold parseConversion
  split
  · split <;> simp [unsupported]
  · simp [unsupported]

/-- The parser throws what nobody catches exactly for a number that is no `int`. -/
theorem parse_out_of_range_iff (text : List Char) :
    parseFormatSpec text = .error .outOfRange ↔ ¬ NumbersFit text := by
  cases text with
  | nil => simp [parseFormatSpec, NumbersFit]
  | cons first rest =>
    by_cases percent : first = '%'
    · subst percent
      have fits : NumbersFit ('%' :: rest) ↔
          digitsValue ((parseFlags rest {}).2.takeWhile Char.isDigit) ≤ maxInt ∧
          ∀ more, (parseFlags rest {}).2.dropWhile Char.isDigit = '.' :: more →
            digitsValue (more.takeWhile Char.isDigit) ≤ maxInt := by
        simp [NumbersFit]
      rw [fits]
      simp only [parseFormatSpec, ne_eq, not_true_eq_false, if_false]
      rcases parse_width_range (parseFlags rest {}).2 with ⟨raised, large⟩ | ⟨width, read, small⟩
      · simp [raised, bind, Except.bind, large]
      · rcases parse_precision_range ((parseFlags rest {}).2.dropWhile Char.isDigit) with
          ⟨raised, more, behind, large⟩ | ⟨⟨precision, read'⟩, every⟩
        · simp only [read, raised, bind, Except.bind, true_iff]
          exact fun both => large (both.2 more behind)
        · simp only [read, read', bind, Except.bind]
          exact iff_of_false (parse_conversion_caught _ _ _) (not_not_intro ⟨small, every⟩)
    · have other : NumbersFit (first :: rest) := by
        intro rest' same
        exact absurd (List.cons.inj same).1 percent
      simp [parseFormatSpec, percent, other]

theorem reported_iff (text : List Char) :
    (∀ report, checkSpec text = .error report → ∃ message, report = .formatError message) ↔
      NumbersFit text := by
  rw [← not_iff_not, ← parse_out_of_range_iff]
  unfold checkSpec
  cases parseFormatSpec text with
  | ok out => simp
  | error thrown => cases thrown <;> simp

/-! ## When formatting does what it should -/

/-- Values that are texts. -/
def texts : Library Unit Text where
  shown
    | .other _ text => text
    | _ => []
  typeName _ := "String"
  ofInteger _ := ()
  printf _ _ _ := []

end ProtoScala.Runtime.Formatting
