import Mathlib.Data.List.Basic
import Mathlib.Data.List.TakeWhile

/-!
# Constant expressions of C++

The expressions that stand in static tables, read one character after another: tokens by
maximal munch, and adjacent string literals as one. Escapes are the simple ones and hexadecimal
ones; words are identifiers, keywords and numbers.
-/

namespace ProtoScala.Library.CppLiterals

set_option autoImplicit false

abbrev Text := List Char
abbrev Bytes := List UInt8

def quotation : Char := Char.ofNat 34
def apostrophe : Char := Char.ofNat 39
def backslash : Char := Char.ofNat 92

inductive Token where
  | word (text : Text)
  | string (bytes : Bytes)
  | char (byte : UInt8)
  | mark (c : Char)
  deriving DecidableEq

inductive Mode where
  | between
  | word (reversed : Text)
  | literal (delimiter : Char) (bytes : Bytes)
  | escape (delimiter : Char) (bytes : Bytes)
  | hex (delimiter : Char) (bytes : Bytes) (value : Option Nat)
  | closed

/-- The last token is first. -/
abbrev Reading := Mode × List Token

def isBlank (c : Char) : Bool := c == ' ' || c == '\n' || c == '\t'

def isWordChar (c : Char) : Bool := c.isAlphanum || c == '_'

def hexValue (c : Char) : Option Nat :=
  if c.isDigit then some (c.toNat - 48)
  else if 'a' ≤ c ∧ c ≤ 'f' then some (c.toNat - 87)
  else if 'A' ≤ c ∧ c ≤ 'F' then some (c.toNat - 55)
  else none

def escapeValue (c : Char) : Option UInt8 :=
  if c = quotation ∨ c = apostrophe ∨ c = backslash ∨ c = '?' then some (UInt8.ofNat c.toNat)
  else if c = 'n' then some 10
  else if c = 't' then some 9
  else if c = 'r' then some 13
  else none

/-- A literal ends; a string literal is one with the string literal right before it. -/
def close (delimiter : Char) (bytes : Bytes) (tokens : List Token) : Option (List Token) :=
  if delimiter = quotation then
    match tokens with
    | .string before :: tokens => some (.string (before ++ bytes) :: tokens)
    | tokens => some (.string bytes :: tokens)
  else
    match bytes with
    | [byte] => some (.char byte :: tokens)
    | _ => none

def fromBetween (tokens : List Token) (c : Char) : Reading :=
  if isBlank c then (.between, tokens)
  else if c = quotation ∨ c = apostrophe then (.literal c [], tokens)
  else if isWordChar c then (.word [c], tokens)
  else (.between, .mark c :: tokens)

def inLiteral (delimiter : Char) (bytes : Bytes) (tokens : List Token) (c : Char) :
    Option Reading :=
  if c = delimiter then (close delimiter bytes tokens).map fun tokens => (.closed, tokens)
  else if c = backslash then some (.escape delimiter bytes, tokens)
  else if c = '\n' then none
  else some (.literal delimiter (bytes ++ [UInt8.ofNat c.toNat]), tokens)

def step : Reading → Char → Option Reading
  | (.between, tokens), c => some (fromBetween tokens c)
  | (.word reversed, tokens), c =>
      if isWordChar c then some (.word (c :: reversed), tokens)
      else if c = quotation ∨ c = apostrophe ∨ c = '.' then none
      else some (fromBetween (.word reversed.reverse :: tokens) c)
  | (.literal delimiter bytes, tokens), c => inLiteral delimiter bytes tokens c
  | (.escape delimiter bytes, tokens), c =>
      if c = 'x' then some (.hex delimiter bytes none, tokens)
      else (escapeValue c).map fun byte => (.literal delimiter (bytes ++ [byte]), tokens)
  | (.hex delimiter bytes value, tokens), c =>
      match hexValue c, value with
      | some digit, _ => some (.hex delimiter bytes (some (16 * value.getD 0 + digit)), tokens)
      | none, some value =>
          if value < 256 then inLiteral delimiter (bytes ++ [UInt8.ofNat value]) tokens c
          else none
      | none, none => none
  | (.closed, tokens), c => if isWordChar c then none else some (fromBetween tokens c)

def run (reading : Reading) (text : Text) : Option Reading := text.foldlM step reading

/-- The tokens of an expression. -/
def tokens (text : Text) : Option (List Token) :=
  match run (.between, []) text with
  | some (.between, tokens) => some tokens.reverse
  | some (.closed, tokens) => some tokens.reverse
  | some (.word reversed, tokens) => some (.word reversed.reverse :: tokens).reverse
  | _ => none

/-! ## Values -/

def decimalValue (digits : Text) : Nat :=
  digits.foldl (fun value c => 10 * value + (c.toNat - 48)) 0

/-- The value of a decimal literal, where a type of its suffix has it. -/
def literalValue (word : Text) : Option Nat :=
  let digits := word.takeWhile Char.isDigit
  let suffix := word.dropWhile Char.isDigit
  if digits = [] ∨ (digits.head? = some '0' ∧ digits ≠ ['0']) then none
  else if suffix = [] ∨ suffix = ['L', 'L'] then
    if decimalValue digits < 9223372036854775808 then some (decimalValue digits) else none
  else if suffix = ['u'] then
    if decimalValue digits < 18446744073709551616 then some (decimalValue digits) else none
  else none

/-- The negation of a literal, in the type of it. -/
def negated (word : Text) (n : Nat) : Int :=
  if word.getLast? = some 'u' then
    if n < 4294967296 then (4294967296 - n) % 4294967296
    else (18446744073709551616 - n) % 18446744073709551616
  else -n

/-- An integer that a type with these bounds has; nothing is narrowed. -/
def integer (low high : Int) (expression : Text) : Option Int :=
  let value : Option Int :=
    match tokens expression with
    | some [.word word] => (literalValue word).map fun (n : Nat) => (n : Int)
    | some [.mark '-', .word word] => (literalValue word).map (negated word)
    | _ => none
  value.filter fun value => low ≤ value ∧ value < high

def charOf (expression : Text) : Option UInt8 :=
  match tokens expression with
  | some [.char byte] => some byte
  | _ => none

/-- The characters that a pointer points to: a literal with its zero, or a named array. -/
def pointedTo (arrays : List (Text × List Text)) (expression : Text) : Option Bytes :=
  match tokens expression with
  | some [.string bytes] => some (bytes ++ [0])
  | some [.word name] => (arrays.lookup name).bind fun elements => elements.mapM charOf
  | _ => none

def zeroTerminated (array : Bytes) : Option Bytes :=
  if 0 ∈ array then some (array.takeWhile (· ≠ 0)) else none

def withLength (length : Nat) (array : Bytes) : Option Bytes :=
  if length ≤ array.length then some (array.take length) else none

/-! ## Reading a text -/

theorem run_append (reading : Reading) (one two : Text) :
    run reading (one ++ two) = (run reading one).bind fun reading => run reading two :=
  List.foldlM_append

theorem run_cons (reading : Reading) (c : Char) (text : Text) :
    run reading (c :: text) = (step reading c).bind fun reading => run reading text :=
  List.foldlM_cons

theorem run_word {word : Text} (chars : ∀ c ∈ word, isWordChar c = true) (reversed : Text)
    (ts : List Token) :
    run (.word reversed, ts) word = some (.word (word.reverse ++ reversed), ts) := by
  induction word generalizing reversed with
  | nil => rfl
  | cons c word induction =>
      have first := chars c List.mem_cons_self
      rw [run_cons, step, if_pos first, Option.bind_some,
        induction (fun c member => chars c (List.mem_cons_of_mem _ member)),
        List.reverse_cons, List.append_assoc, List.singleton_append]

theorem word_chars {word : Text} (chars : word.all isWordChar = true) :
    ∀ c ∈ word, isWordChar c = true :=
  List.all_eq_true.mp chars

theorem word_char_plain {c : Char} (char : isWordChar c = true) :
    isBlank c = false ∧ ¬(c = quotation ∨ c = apostrophe) := by
  constructor
  · cases blank : isBlank c with
    | false => rfl
    | true =>
        unfold isBlank at blank
        simp only [Bool.or_eq_true, beq_iff_eq] at blank
        rcases blank with (rfl | rfl) | rfl <;> exact absurd char (by decide)
  · rintro (rfl | rfl) <;> exact absurd char (by decide)

theorem tokens_word {word : Text} (chars : ∀ c ∈ word, isWordChar c = true) (some_ : word ≠ []) :
    tokens word = some [.word word] := by
  obtain ⟨c, word, rfl⟩ := List.exists_cons_of_ne_nil some_
  have first := chars c List.mem_cons_self
  obtain ⟨blank, quotes⟩ := word_char_plain first
  have start : step (.between, []) c = some (.word [c], []) := by
    rw [step, fromBetween, blank, if_neg Bool.false_ne_true, if_neg quotes, if_pos first]
  rw [tokens, run_cons, start, Option.bind_some,
    run_word (fun c member => chars c (List.mem_cons_of_mem _ member))]
  simp

theorem tokens_mark {c : Char} {word : Text} (blank : isBlank c = false)
    (char : isWordChar c = false) (quotes : ¬(c = quotation ∨ c = apostrophe))
    (chars : ∀ c ∈ word, isWordChar c = true) (some_ : word ≠ []) :
    tokens (c :: word) = some [.mark c, .word word] := by
  obtain ⟨d, word, rfl⟩ := List.exists_cons_of_ne_nil some_
  have first := chars d List.mem_cons_self
  obtain ⟨blank', quotes'⟩ := word_char_plain first
  have mark : step (.between, []) c = some (.between, [.mark c]) := by
    rw [step, fromBetween, blank, if_neg Bool.false_ne_true, if_neg quotes, char,
      if_neg Bool.false_ne_true]
  have start : step (.between, [.mark c]) d = some (.word [d], [.mark c]) := by
    rw [step, fromBetween, blank', if_neg Bool.false_ne_true, if_neg quotes', if_pos first]
  rw [tokens, run_cons, mark, Option.bind_some, run_cons, start, Option.bind_some,
    run_word (fun c member => chars c (List.mem_cons_of_mem _ member))]
  simp

/-! ## Numbers -/

def decimal (n : Nat) : Text :=
  if n < 10 then [Char.ofNat (48 + n)] else decimal (n / 10) ++ [Char.ofNat (48 + n % 10)]

theorem decimal_digits (n : Nat) : ∀ c ∈ decimal n, c.isDigit = true := by
  have digit : ∀ k, k < 10 → (Char.ofNat (48 + k)).isDigit = true := by decide
  rw [decimal]
  split_ifs with small
  · simpa using digit n small
  · intro c member
    rcases List.mem_append.mp member with before | last
    · exact decimal_digits (n / 10) c before
    · rw [List.mem_singleton.mp last]
      exact digit _ (Nat.mod_lt _ (by decide))

theorem decimal_value (n : Nat) : decimalValue (decimal n) = n := by
  have digit : ∀ k, k < 10 → (Char.ofNat (48 + k)).toNat - 48 = k := by decide
  rw [decimal]
  split_ifs with small
  · rw [decimalValue, List.foldl_cons, List.foldl_nil, digit n small]
    omega
  · have before := decimal_value (n / 10)
    rw [decimalValue] at before
    rw [decimalValue, List.foldl_append, before, List.foldl_cons, List.foldl_nil,
      digit _ (Nat.mod_lt _ (by decide))]
    omega

theorem decimal_ne_nil (n : Nat) : decimal n ≠ [] := by
  rw [decimal]
  split_ifs <;> simp

/-- Only zero begins with a zero. -/
theorem decimal_head {n : Nat} (positive : 0 < n) : (decimal n).head? ≠ some '0' := by
  have digit : ∀ k, k < 10 → 0 < k → Char.ofNat (48 + k) ≠ '0' := by decide
  rw [decimal]
  split_ifs with small
  · simpa using digit n small positive
  · rw [List.head?_append_of_ne_nil _ (decimal_ne_nil _)]
    exact decimal_head (Nat.div_pos (Nat.le_of_not_lt small) (by decide))

theorem decimal_injective {m n : Nat} (same : decimal m = decimal n) : m = n := by
  rw [← decimal_value m, same, decimal_value]

/-- A number is known from what is written behind it, if that is no digit. -/
theorem decimal_cut {m n : Nat} {c : Char} {one two : Text} (mark : c.isDigit = false)
    (same : decimal m ++ c :: one = decimal n ++ c :: two) : m = n := by
  have digits : ∀ (n : Nat) (text : Text),
      (decimal n ++ c :: text).takeWhile Char.isDigit = decimal n := fun n text => by
    rw [List.takeWhile_append_of_pos (decimal_digits n),
      List.takeWhile_cons_of_neg (by simp [mark]), List.append_nil]
  apply decimal_injective
  rw [← digits m one, same, digits n two]

theorem decimal_word {n : Nat} {suffix : Text} (chars : ∀ c ∈ suffix, isWordChar c = true) :
    ∀ c ∈ decimal n ++ suffix, isWordChar c = true := by
  intro c member
  rcases List.mem_append.mp member with digit | behind
  · rw [isWordChar, Char.isAlphanum, decimal_digits n c digit]
    simp
  · exact chars c behind

/-- A literal is the number it writes, where its type is wide enough. -/
theorem literal_decimal (n : Nat) {suffix : Text} (start : ∀ c ∈ suffix.head?, c.isDigit = false) :
    literalValue (decimal n ++ suffix) =
      if suffix = [] ∨ suffix = ['L', 'L'] then if n < 9223372036854775808 then some n else none
      else if suffix = ['u'] then if n < 18446744073709551616 then some n else none
      else none := by
  have digits : (decimal n ++ suffix).takeWhile Char.isDigit = decimal n := by
    rw [List.takeWhile_append_of_pos (decimal_digits n)]
    cases suffix with
    | nil => rw [List.takeWhile_nil, List.append_nil]
    | cons c suffix =>
        rw [List.takeWhile_cons_of_neg (by simp [start c rfl]), List.append_nil]
  have rest : (decimal n ++ suffix).dropWhile Char.isDigit = suffix := by
    rw [List.dropWhile_append_of_pos (decimal_digits n)]
    cases suffix with
    | nil => rfl
    | cons c suffix => rw [List.dropWhile_cons_of_neg (by simp [start c rfl])]
  have decimal_ : ¬(decimal n = [] ∨ ((decimal n).head? = some '0' ∧ decimal n ≠ ['0'])) := by
    rintro (empty | ⟨zero, more⟩)
    · exact decimal_ne_nil n empty
    · rcases Nat.eq_zero_or_pos n with rfl | positive
      · exact more (by rw [decimal]; rfl)
      · exact decimal_head positive zero
  unfold literalValue
  simp only [digits, rest, if_neg decimal_, decimal_value]

/-- The suffixes of the literals. -/
theorem signed_suffix {suffix : Text} (allowed : suffix = [] ∨ suffix = ['L', 'L']) :
    (∀ c ∈ suffix, isWordChar c = true) ∧ ∀ c ∈ suffix.head?, c.isDigit = false := by
  rcases allowed with rfl | rfl
  · simp
  · exact ⟨word_chars rfl, fun c head => by
      obtain rfl := Option.some.inj head
      rfl⟩

theorem unsigned_suffix :
    (∀ c ∈ ['u'], isWordChar c = true) ∧ ∀ c ∈ ['u'].head?, c.isDigit = false :=
  ⟨word_chars rfl, fun c head => by
    obtain rfl := Option.some.inj head
    rfl⟩

theorem negated_signed {n k : Nat} {suffix : Text} (allowed : suffix = [] ∨ suffix = ['L', 'L']) :
    negated (decimal n ++ suffix) k = -(k : Int) := by
  rw [negated, if_neg]
  intro last
  rcases List.mem_append.mp (List.mem_of_getLast? last) with digit | behind
  · exact absurd (decimal_digits n 'u' digit) (by decide)
  · rcases allowed with rfl | rfl <;> exact absurd behind (by decide)

theorem negated_unsigned {n k : Nat} (small : k < 4294967296) :
    negated (decimal n ++ ['u']) k = (4294967296 - k) % 4294967296 := by
  rw [negated, if_pos (by simp), if_pos small]

theorem integer_inside {low high v : Int} {expression : Text}
    (read : integer low high expression = some v) : low ≤ v ∧ v < high := by
  unfold integer at read
  rw [Option.filter_eq_some_iff] at read
  exact of_decide_eq_true read.2

/-! ## Strings -/

def hexDigit (n : Nat) : Char := if n < 10 then Char.ofNat (48 + n) else Char.ofNat (87 + n)

/-- `\\x%02x`. -/
def hexEscape (c : UInt8) : Text :=
  [backslash, 'x', hexDigit (c.toNat / 16), hexDigit (c.toNat % 16)]

theorem hex_digit {n : Nat} (small : n < 16) : hexValue (hexDigit n) = some n := by
  have all : ∀ n, n < 16 → hexValue (hexDigit n) = some n := by decide
  exact all n small

/-- An escape up to the end of its literal. -/
theorem run_hex {delimiter : Char} (plain : delimiter ≠ backslash)
    (end_ : hexValue delimiter = none) (bytes : Bytes) (c : UInt8) (ts : List Token) :
    run (.literal delimiter bytes, ts) (hexEscape c ++ [delimiter]) =
      (close delimiter (bytes ++ [c]) ts).map fun ts => (.closed, ts) := by
  have high := hex_digit (n := c.toNat / 16) (by have := c.toNat_lt; omega)
  have low := hex_digit (n := c.toNat % 16) (Nat.mod_lt _ (by decide))
  have value : 16 * (c.toNat / 16) + c.toNat % 16 = c.toNat := Nat.div_add_mod _ _
  have small : c.toNat < 256 := c.toNat_lt
  have opens : step (.literal delimiter bytes, ts) backslash =
      some (.escape delimiter bytes, ts) := by
    rw [step, inLiteral, if_neg plain.symm, if_pos rfl]
  have hex : step (.escape delimiter bytes, ts) 'x' = some (.hex delimiter bytes none, ts) := rfl
  have one : step (.hex delimiter bytes none, ts) (hexDigit (c.toNat / 16)) =
      some (.hex delimiter bytes (some (c.toNat / 16)), ts) := by
    simp [step, high]
  have two : step (.hex delimiter bytes (some (c.toNat / 16)), ts) (hexDigit (c.toNat % 16)) =
      some (.hex delimiter bytes (some c.toNat), ts) := by
    simp [step, low, value]
  have ends : step (.hex delimiter bytes (some c.toNat), ts) delimiter =
      (close delimiter (bytes ++ [c]) ts).map fun ts => (.closed, ts) := by
    simp only [step, end_, if_pos small, inLiteral, UInt8.ofNat_toNat]
    rfl
  rw [hexEscape, List.cons_append, run_cons, opens, Option.bind_some, List.cons_append, run_cons,
    hex, Option.bind_some, List.cons_append, run_cons, one, Option.bind_some, List.cons_append,
    run_cons, two, Option.bind_some, List.nil_append, run_cons, ends]
  cases close delimiter (bytes ++ [c]) ts <;> rfl

end ProtoScala.Library.CppLiterals
