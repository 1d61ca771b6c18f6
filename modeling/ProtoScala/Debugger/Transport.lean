import Mathlib

/-!
# The transport of the debug adapter

A message is a header block, a blank line and as many bytes of JSON as the header says.
`readMessage` takes the bytes of a stream; where a `std::string` would be longer than
`max_size`, a `length_error` leaves it.
-/

namespace ProtoScala.Debugger.Transport

set_option autoImplicit false

abbrev Bytes := List UInt8

def LF : UInt8 := 10
def CR : UInt8 := 13
def colon : UInt8 := 58

/-- The JSON library, and the longest `std::string`. -/
structure Library (J : Type) where
  maxSize : Nat
  roomy : 64 ≤ maxSize
  maxSize_lt : maxSize < 2 ^ 63
  parse : Bytes → Option J
  dump : J → Bytes
  dump_fits : ∀ m, (dump m).length ≤ maxSize
  parse_dump : ∀ m, parse (dump m) = some m

inductive Thrown where
  | lengthError
  deriving DecidableEq, Repr

/-- The loop of `readHeaderLine`: the line and the bytes behind it, or nothing at the end. -/
def headerLineFrom (maxSize : Nat) (any : Bool) (line : Bytes) :
    Bytes → Except Thrown (Option (Bytes × Bytes))
  | [] => .ok (if any then some (line, []) else none)
  | c :: rest =>
      if c = LF then .ok (some (if line.getLast? = some CR then line.dropLast else line, rest))
      else if line.length = maxSize then .error .lengthError
      else headerLineFrom maxSize true (line ++ [c]) rest

def readHeaderLine (maxSize : Nat) (stream : Bytes) : Except Thrown (Option (Bytes × Bytes)) :=
  headerLineFrom maxSize false [] stream

def toLower (c : UInt8) : UInt8 := if 65 ≤ c ∧ c ≤ 90 then c + 32 else c

def iequals : Bytes → Bytes → Bool
  | [], [] => true
  | x :: a, y :: b => toLower x == toLower y && iequals a b
  | _, _ => false

def isSpace (c : UInt8) : Bool := c == 32 || (9 ≤ c && c ≤ 13)

def trim (s : Bytes) : Bytes := ((s.dropWhile isSpace).reverse.dropWhile isSpace).reverse

def isDigit (c : UInt8) : Bool := 48 ≤ c && c ≤ 57

def digitsValue (digits : Bytes) : Nat :=
  digits.foldl (fun value c => 10 * value + (c.toNat - 48)) 0

/-- `std::stoll`: blanks, a sign, digits, and anything behind them. -/
def stoll (s : Bytes) : Option Int :=
  let s := s.dropWhile isSpace
  let negative := s.head? == some 45
  let s := if s.head? = some 45 ∨ s.head? = some 43 then s.tail else s
  let digits := s.takeWhile isDigit
  if digits = [] then none
  else
    let value : Int := if negative then -(digitsValue digits : Int) else digitsValue digits
    if -9223372036854775808 ≤ value ∧ value ≤ 9223372036854775807 then some value else none

/-- `Content-Length`. -/
def contentLengthKey : Bytes :=
  [67, 111, 110, 116, 101, 110, 116, 45, 76, 101, 110, 103, 116, 104]

/-- What a header line makes of the length; `none` is a malformed one. -/
def lengthAfter (line : Bytes) (length : Int) : Option Int :=
  if colon ∈ line then
    if iequals (trim (line.takeWhile (· ≠ colon))) contentLengthKey then
      stoll (trim (line.dropWhile (· ≠ colon)).tail)
    else some length
  else some length

theorem header_line_shorter {maxSize : Nat} {any : Bool} {line stream line' rest : Bytes}
    (read : headerLineFrom maxSize any line stream = .ok (some (line', rest)))
    (more : stream ≠ [] ∨ any = false) : rest.length < stream.length := by
  induction stream generalizing any line with
  | nil =>
      obtain rfl := more.resolve_left fun some_bytes => some_bytes rfl
      cases read
  | cons c stream induction =>
      rw [headerLineFrom] at read
      by_cases ended : c = LF
      · rw [if_pos ended] at read
        cases read
        exact Nat.lt_succ_self _
      · rw [if_neg ended] at read
        by_cases full : line.length = maxSize
        · rw [if_pos full] at read
          cases read
        · rw [if_neg full] at read
          cases stream with
          | nil =>
              cases read
              exact Nat.zero_lt_succ _
          | cons d stream =>
              exact Nat.lt_succ_of_lt (induction read (.inl (List.cons_ne_nil d stream)))

/-- The header block: its length and the bytes behind the blank line. -/
def readHeaders (maxSize : Nat) (stream : Bytes) (length : Int) :
    Except Thrown (Option Int × Bytes) :=
  match _read : readHeaderLine maxSize stream with
  | .error thrown => .error thrown
  | .ok none => .ok (none, [])
  | .ok (some (line, rest)) =>
      if line = [] then .ok (some length, rest)
      else
        match lengthAfter line length with
        | none => .ok (none, rest)
        | some length => readHeaders maxSize rest length
termination_by stream.length
decreasing_by exact header_line_shorter _read (.inr rfl)

variable {J : Type} (lib : Library J)

/-- A message or none, and the bytes not read. -/
def readMessage (stream : Bytes) : Except Thrown (Option J × Bytes) :=
  match readHeaders lib.maxSize stream (-1) with
  | .error thrown => .error thrown
  | .ok (none, rest) => .ok (none, rest)
  | .ok (some length, rest) =>
      if length < 0 then .ok (none, rest)
      else if lib.maxSize < length then .error .lengthError
      else if rest.length < length.toNat then .ok (none, [])
      else .ok (lib.parse (rest.take length.toNat), rest.drop length.toNat)

/-- A `std::size_t` as a stream writes it. -/
def decimal (n : Nat) : Bytes :=
  if n < 10 then [UInt8.ofNat (48 + n)] else decimal (n / 10) ++ [UInt8.ofNat (48 + n % 10)]

def writeMessage (m : J) : Bytes :=
  contentLengthKey ++ [colon, 32] ++ decimal (lib.dump m).length ++ [CR, LF, CR, LF] ++ lib.dump m

/-- As many calls of `readMessage`. -/
def readMessages (stream : Bytes) : Nat → Except Thrown (List (Option J) × Bytes)
  | 0 => .ok ([], stream)
  | n + 1 => do
      let (first, rest) ← readMessage lib stream
      let (others, rest) ← readMessages rest n
      .ok (first :: others, rest)

/-! ## When the lengths fit -/

/-- The raw lines of a header block, and whether a blank line ends it. -/
structure Block where
  lines : List Bytes
  ended : Bool

def withoutCR (raw : Bytes) : Bytes := if raw.getLast? = some CR then raw.dropLast else raw

def block (stream : Bytes) : Block :=
  match _rest : stream.dropWhile (· ≠ LF) with
  | [] => ⟨[stream], false⟩
  | _ :: rest =>
      let raw := stream.takeWhile (· ≠ LF)
      if withoutCR raw = [] then ⟨[], true⟩
      else ⟨raw :: (block rest).lines, (block rest).ended⟩
termination_by stream.length
decreasing_by
  all_goals
    have suffix := (List.dropWhile_suffix (· ≠ LF) (l := stream)).length_le
    rw [_rest, List.length_cons] at suffix
    exact suffix

/-- The length that the lines give; `none` when one is malformed. -/
def lengthOf (lines : List Bytes) (length : Int) : Option Int :=
  lines.foldlM (fun length raw => lengthAfter (withoutCR raw) length) length

/-- The length of a block, where a blank line ends it. -/
def Block.length? (b : Block) (length : Int) : Option Int :=
  if b.ended then lengthOf b.lines length else none

/-- The lines up to the first malformed one, which is where reading stops. -/
def examined : List Bytes → List Bytes
  | [] => []
  | raw :: rest => if lengthAfter (withoutCR raw) 0 = none then [raw] else raw :: examined rest

/-- No line that is read and no body that is announced is longer than a string can be. -/
def Fits (maxSize : Nat) (stream : Bytes) : Prop :=
  (∀ raw ∈ examined (block stream).lines, raw.length ≤ maxSize) ∧
    ∀ n, (block stream).length? (-1) = some n → n ≤ maxSize

/-! ## Reading headers -/

/-- A line read is what stands before the line feed, when it fits. -/
theorem header_line_from (maxSize : Nat) (any : Bool) {line : Bytes} (stream : Bytes)
    (fits : line.length ≤ maxSize) :
    headerLineFrom maxSize any line stream =
      if maxSize < line.length + (stream.takeWhile (· ≠ LF)).length then .error .lengthError
      else match stream.dropWhile (· ≠ LF) with
        | [] => .ok (if any = true ∨ stream ≠ [] then some (line ++ stream, []) else none)
        | _ :: rest => .ok (some (withoutCR (line ++ stream.takeWhile (· ≠ LF)), rest)) := by
  induction stream generalizing any line with
  | nil =>
      have small : ¬maxSize < line.length := Nat.not_lt.mpr fits
      simp [headerLineFrom, small]
  | cons c stream induction =>
      rw [headerLineFrom]
      by_cases ended : c = LF
      · have small : ¬maxSize < line.length + 0 := Nat.not_lt.mpr fits
        rw [if_pos ended, List.takeWhile_cons_of_neg (by simpa using ended),
          List.dropWhile_cons_of_neg (by simpa using ended), List.length_nil, if_neg small,
          List.append_nil]
        rfl
      · rw [if_neg ended, List.takeWhile_cons_of_pos (by simpa using ended),
          List.dropWhile_cons_of_pos (by simpa using ended), List.length_cons]
        by_cases full : line.length = maxSize
        · rw [if_pos full, if_pos (by omega)]
        · rw [if_neg full, induction true (by rw [List.length_append, List.length_singleton]; omega),
            List.length_append, List.length_singleton, List.append_assoc, List.append_assoc,
            show line.length + 1 + (stream.takeWhile (· ≠ LF)).length =
              line.length + ((stream.takeWhile (· ≠ LF)).length + 1) by omega]
          simp

theorem read_header_line (maxSize : Nat) (stream : Bytes) :
    readHeaderLine maxSize stream =
      if maxSize < (stream.takeWhile (· ≠ LF)).length then .error .lengthError
      else match stream.dropWhile (· ≠ LF) with
        | [] => .ok (if stream ≠ [] then some (stream, []) else none)
        | _ :: rest => .ok (some (withoutCR (stream.takeWhile (· ≠ LF)), rest)) := by
  rw [readHeaderLine, header_line_from maxSize false stream (Nat.zero_le _), List.length_nil,
    Nat.zero_add]
  simp

theorem read_headers_eq (maxSize : Nat) (stream : Bytes) (length : Int) :
    readHeaders maxSize stream length =
      match readHeaderLine maxSize stream with
      | .error thrown => .error thrown
      | .ok none => .ok (none, [])
      | .ok (some (line, rest)) =>
          if line = [] then .ok (some length, rest)
          else
            match lengthAfter line length with
            | none => .ok (none, rest)
            | some length => readHeaders maxSize rest length := by
  rw [readHeaders]
  split <;> simp_all

theorem length_after_none (line : Bytes) (length other : Int) :
    lengthAfter line length = none ↔ lengthAfter line other = none := by
  unfold lengthAfter
  split_ifs <;> simp

theorem block_last {stream : Bytes} (unended : stream.dropWhile (· ≠ LF) = []) :
    block stream = ⟨[stream], false⟩ := by
  rw [block]
  split
  · rfl
  · next ended => rw [unended] at ended; cases ended

theorem block_line {stream rest : Bytes} {c : UInt8} (ended : stream.dropWhile (· ≠ LF) = c :: rest) :
    block stream =
      if withoutCR (stream.takeWhile (· ≠ LF)) = [] then ⟨[], true⟩
      else ⟨stream.takeWhile (· ≠ LF) :: (block rest).lines, (block rest).ended⟩ := by
  rw [block]
  split
  · next unended => rw [ended] at unended; cases unended
  · next other => rw [ended] at other; cases other; rfl

theorem blank_short {raw : Bytes} (blank : withoutCR raw = []) : raw.length ≤ 1 := by
  unfold withoutCR at blank
  split_ifs at blank
  · have length := congrArg List.length blank
    rw [List.length_dropLast, List.length_nil] at length
    omega
  · rw [blank]
    exact Nat.zero_le 1

theorem examined_cons (raw : Bytes) (rest : List Bytes) :
    examined (raw :: rest) =
      if lengthAfter (withoutCR raw) 0 = none then [raw] else raw :: examined rest := rfl

/-- The header block is read where its lines fit, with the length that they give. -/
theorem read_headers_block {maxSize : Nat} (roomy : 1 ≤ maxSize) (stream : Bytes) (length : Int) :
    if ∀ raw ∈ examined (block stream).lines, raw.length ≤ maxSize then
      ∃ rest, readHeaders maxSize stream length = .ok ((block stream).length? length, rest)
    else readHeaders maxSize stream length = .error .lengthError := by
  rw [read_headers_eq, read_header_line]
  cases ending : stream.dropWhile (· ≠ LF) with
  | nil =>
      have whole : stream.takeWhile (· ≠ LF) = stream := by
        have split := List.takeWhile_append_dropWhile (p := (· ≠ LF)) (l := stream)
        rwa [ending, List.append_nil] at split
      have only : examined [stream] = [stream] := by
        rw [examined_cons, examined, ite_self]
      rw [block_last ending, only, whole]
      by_cases fits : stream.length ≤ maxSize
      · rw [if_pos (by simpa using fits), if_neg (Nat.not_lt.mpr fits)]
        by_cases empty : stream = []
        · rw [if_neg (not_not.mpr empty)]
          exact ⟨[], rfl⟩
        · rw [if_pos empty]
          simp only [if_neg empty]
          cases lengthAfter stream length with
          | none => exact ⟨[], rfl⟩
          | some length =>
              refine ⟨[], ?_⟩
              simp only
              rw [read_headers_eq, readHeaderLine, headerLineFrom]
              rfl
      · rw [if_neg (by simpa using fits), if_pos (Nat.lt_of_not_le fits)]
  | cons c rest =>
      have shorter : rest.length < stream.length := by
        have suffix := (List.dropWhile_suffix (· ≠ LF) (l := stream)).length_le
        rw [ending, List.length_cons] at suffix
        exact suffix
      rw [block_line ending]
      by_cases blank : withoutCR (stream.takeWhile (· ≠ LF)) = []
      · have short := blank_short blank
        have small : ¬maxSize < (stream.takeWhile (· ≠ LF)).length := by omega
        have nothing : ∀ raw ∈ examined [], raw.length ≤ maxSize := fun raw impossible => nomatch impossible
        rw [if_pos blank, if_neg small, if_pos nothing]
        simp only [if_pos blank]
        exact ⟨rest, rfl⟩
      · rw [if_neg blank]
        simp only [examined_cons]
        by_cases fits : (stream.takeWhile (· ≠ LF)).length ≤ maxSize
        · rw [if_neg (Nat.not_lt.mpr fits)]
          simp only [if_neg blank]
          cases after : lengthAfter (withoutCR (stream.takeWhile (· ≠ LF))) length with
          | none =>
              have given : Block.length? ⟨stream.takeWhile (· ≠ LF) :: (block rest).lines,
                  (block rest).ended⟩ length = none := by
                rw [Block.length?, lengthOf, List.foldlM_cons, after]
                exact ite_self _
              rw [if_pos ((length_after_none _ _ _).mp after), if_pos (by simpa using fits), given]
              exact ⟨rest, rfl⟩
          | some length' =>
              have valid : ¬lengthAfter (withoutCR (stream.takeWhile (· ≠ LF))) 0 = none := by
                rw [length_after_none _ _ length, after]
                exact Option.some_ne_none _
              have later := read_headers_block roomy rest length'
              have given : Block.length? ⟨stream.takeWhile (· ≠ LF) :: (block rest).lines,
                  (block rest).ended⟩ length = (block rest).length? length' := by
                rw [Block.length?, lengthOf, List.foldlM_cons, after]
                rfl
              rw [if_neg valid, given]
              simp only [List.forall_mem_cons, fits, true_and]
              exact later
        · rw [if_pos (Nat.lt_of_not_le fits), if_neg]
          intro all
          refine fits (all _ ?_)
          split_ifs
          · exact List.mem_singleton_self _
          · exact List.mem_cons_self
termination_by stream.length

/-- A call returns exactly where the lengths fit. -/
theorem read_message_returns (stream : Bytes) :
    (∃ answer, readMessage lib stream = .ok answer) ↔ Fits lib.maxSize stream := by
  have headers := read_headers_block (Nat.le_trans (by decide) lib.roomy) stream (-1)
  unfold Fits readMessage
  split_ifs at headers with lines
  · obtain ⟨rest, read⟩ := headers
    rw [read, and_iff_right lines]
    cases (block stream).length? (-1) with
    | none => exact iff_of_true ⟨_, rfl⟩ fun n impossible => nomatch impossible
    | some length =>
        simp only [Option.some.injEq, forall_eq']
        by_cases negative : length < 0
        · rw [if_pos negative]
          exact iff_of_true ⟨_, rfl⟩ (by omega)
        · rw [if_neg negative]
          by_cases large : (lib.maxSize : Int) < length
          · rw [if_pos large]
            exact iff_of_false (fun ⟨_, impossible⟩ => nomatch impossible) (by omega)
          · rw [if_neg large]
            refine iff_of_true ?_ (by omega)
            split_ifs <;> exact ⟨_, rfl⟩
  · rw [headers]
    exact iff_of_false (fun ⟨_, impossible⟩ => nomatch impossible) fun fits => lines fits.1

/-! ## Reading what was written -/

theorem decimal_digits (n : Nat) : ∀ c ∈ decimal n, isDigit c = true := by
  have digit : ∀ k, k < 10 → isDigit (UInt8.ofNat (48 + k)) = true := by decide
  rw [decimal]
  split_ifs with small
  · simpa using digit n small
  · intro c member
    rcases List.mem_append.mp member with before | last
    · exact decimal_digits (n / 10) c before
    · rw [List.mem_singleton.mp last]
      exact digit _ (Nat.mod_lt _ (by decide))

theorem decimal_value (n : Nat) : digitsValue (decimal n) = n := by
  have digit : ∀ k, k < 10 → (UInt8.ofNat (48 + k)).toNat - 48 = k := by decide
  rw [decimal]
  split_ifs with small
  · rw [digitsValue, List.foldl_cons, List.foldl_nil, digit n small]
    omega
  · have before := decimal_value (n / 10)
    rw [digitsValue] at before
    rw [digitsValue, List.foldl_append, before, List.foldl_cons, List.foldl_nil,
      digit _ (Nat.mod_lt _ (by decide))]
    omega

theorem decimal_ne_nil (n : Nat) : decimal n ≠ [] := by
  rw [decimal]
  split_ifs <;> simp

theorem digit_plain {c : UInt8} (digit : isDigit c = true) :
    isSpace c = false ∧ c ≠ LF ∧ c ≠ CR ∧ c ≠ colon ∧ c ≠ 45 ∧ c ≠ 43 := by
  have all : ∀ n : Fin 256, isDigit (.ofFin n) = true → isSpace (.ofFin n) = false ∧
      UInt8.ofFin n ≠ LF ∧ UInt8.ofFin n ≠ CR ∧ UInt8.ofFin n ≠ colon ∧ UInt8.ofFin n ≠ 45 ∧
      UInt8.ofFin n ≠ 43 := by decide +kernel
  exact all c.toFin digit

theorem stoll_decimal {n : Nat} (small : n < 2 ^ 63) : stoll (decimal n) = some (n : Int) := by
  have digits := decimal_digits n
  obtain ⟨c, rest, shape⟩ := List.exists_cons_of_ne_nil (decimal_ne_nil n)
  have plain := digit_plain (digits c (by rw [shape]; exact List.mem_cons_self))
  have start : (decimal n).dropWhile isSpace = decimal n := by
    rw [shape, List.dropWhile_cons_of_neg (by simp [plain.1])]
  have run : (decimal n).takeWhile isDigit = decimal n :=
    List.takeWhile_eq_self_iff.mpr digits
  have minus : (decimal n).head? ≠ some 45 := by simp [shape, plain.2.2.2.2.1]
  have plus : (decimal n).head? ≠ some 43 := by simp [shape, plain.2.2.2.2.2]
  have unsigned : ¬((decimal n).head? = some 45 ∨ (decimal n).head? = some 43) :=
    fun sign => sign.elim minus plus
  unfold stoll
  simp only [start, if_neg unsigned, run, if_neg (decimal_ne_nil n), decimal_value,
    beq_eq_false_iff_ne.mpr minus, Bool.false_eq_true, if_false]
  rw [if_pos (by omega)]

theorem trim_decimal (n : Nat) : trim (32 :: decimal n) = decimal n := by
  have digits := decimal_digits n
  have keeps : ∀ {l : Bytes}, (∀ c ∈ l, isDigit c = true) → l.dropWhile isSpace = l := by
    intro l all
    cases l with
    | nil => rfl
    | cons c rest =>
        have plain := (digit_plain (all c List.mem_cons_self)).1
        rw [List.dropWhile_cons_of_neg (by simp [plain])]
  rw [trim, List.dropWhile_cons_of_pos (by rfl), keeps digits, keeps (by simpa using digits),
    List.reverse_reverse]

/-- The header line that `writeMessage` writes. -/
def lengthLine (n : Nat) : Bytes := contentLengthKey ++ [colon, 32] ++ decimal n

theorem length_line_plain (n : Nat) : ∀ c ∈ lengthLine n, c ≠ LF ∧ c ≠ CR := by
  have front : ∀ c ∈ contentLengthKey ++ [colon, 32], c ≠ LF ∧ c ≠ CR := by
    simp [contentLengthKey, LF, CR, colon]
  intro c member
  rcases List.mem_append.mp member with before | digit
  · exact front c before
  · have plain := digit_plain (decimal_digits n c digit)
    exact ⟨plain.2.1, plain.2.2.1⟩

theorem length_line_read {n : Nat} (small : n < 2 ^ 63) (length : Int) :
    lengthAfter (lengthLine n) length = some (n : Int) := by
  have name : (lengthLine n).takeWhile (· ≠ colon) = contentLengthKey := rfl
  have value : (lengthLine n).dropWhile (· ≠ colon) = colon :: 32 :: decimal n := rfl
  have key : iequals (trim contentLengthKey) contentLengthKey = true := by decide
  have marked : colon ∈ lengthLine n := by simp [lengthLine]
  unfold lengthAfter
  rw [if_pos marked, name, key, if_pos rfl, value, List.tail_cons, trim_decimal,
    stoll_decimal small]

theorem take_line {line : Bytes} (plain : ∀ c ∈ line, c ≠ LF) (rest : Bytes) :
    (line ++ LF :: rest).takeWhile (· ≠ LF) = line ∧
      (line ++ LF :: rest).dropWhile (· ≠ LF) = LF :: rest := by
  have all : ∀ c ∈ line, decide (c ≠ LF) = true := fun c member => decide_eq_true (plain c member)
  rw [List.takeWhile_append_of_pos all, List.dropWhile_append_of_pos all]
  exact ⟨List.append_nil _, rfl⟩

theorem decimal_length {k : Nat} : ∀ {n : Nat}, n < 10 ^ (k + 1) → (decimal n).length ≤ k + 1 := by
  induction k with
  | zero =>
      intro n small
      rw [decimal, if_pos (by simpa using small)]
      exact Nat.le_refl 1
  | succ k induction =>
      intro n small
      rw [decimal]
      split_ifs
      · exact Nat.succ_le_succ (Nat.zero_le _)
      · rw [List.length_append]
        exact Nat.succ_le_succ (induction (Nat.div_lt_of_lt_mul (by rwa [Nat.mul_comm])))

theorem without_cr (line : Bytes) : withoutCR (line ++ [CR]) = line := by
  rw [withoutCR, List.getLast?_concat, if_pos rfl, List.dropLast_concat]

/-- A line that ends in a carriage return and a line feed, where it fits. -/
theorem read_plain_line {maxSize : Nat} {line : Bytes} (plain : ∀ c ∈ line, c ≠ LF)
    (fits : line.length < maxSize) (rest : Bytes) :
    readHeaderLine maxSize (line ++ CR :: LF :: rest) = .ok (some (line, rest)) := by
  have plain' : ∀ c ∈ line ++ [CR], c ≠ LF := by
    intro c member
    rcases List.mem_append.mp member with inside | last
    · exact plain c inside
    · rw [List.mem_singleton.mp last]
      decide
  have whole : line ++ CR :: LF :: rest = (line ++ [CR]) ++ LF :: rest := by simp
  have taken := take_line plain' rest
  rw [whole, read_header_line, taken.1, taken.2, if_neg, without_cr]
  rw [List.length_append, List.length_singleton]
  omega

/-- The header of a message is read as the length it names. -/
theorem read_length_header {maxSize n : Nat} (roomy : 64 ≤ maxSize) (small : n < 2 ^ 63)
    (rest : Bytes) :
    readHeaders maxSize (lengthLine n ++ CR :: LF :: CR :: LF :: rest) (-1) =
      .ok (some (n : Int), rest) := by
  have short : (lengthLine n).length < maxSize := by
    have digits : (decimal n).length ≤ 19 := decimal_length (Nat.lt_trans small (by decide))
    have front : (lengthLine n).length = 16 + (decimal n).length := by
      rw [lengthLine, List.length_append]
      rfl
    omega
  have named : lengthLine n ≠ [] := List.cons_ne_nil _ _
  have blank : readHeaderLine maxSize (CR :: LF :: rest) = .ok (some ([], rest)) :=
    @read_plain_line maxSize [] (fun c impossible => nomatch impossible)
      (Nat.lt_of_lt_of_le (by decide) roomy) rest
  rw [read_headers_eq, read_plain_line (fun c member => (length_line_plain n c member).1) short]
  simp only [if_neg named, length_line_read small]
  rw [read_headers_eq, blank]
  rfl

theorem read_written (m : J) (more : Bytes) :
    readMessage lib (writeMessage lib m ++ more) = .ok (some m, more) := by
  have bodyFits := lib.dump_fits m
  have shape : writeMessage lib m ++ more =
      lengthLine (lib.dump m).length ++ CR :: LF :: CR :: LF :: (lib.dump m ++ more) := by
    simp [writeMessage, lengthLine]
  have enough : ¬(lib.dump m ++ more).length < (lib.dump m).length := by
    rw [List.length_append]
    omega
  rw [readMessage, shape,
    read_length_header lib.roomy (Nat.lt_of_le_of_lt bodyFits lib.maxSize_lt)]
  simp only [Int.toNat_natCast]
  rw [if_neg (by omega), if_neg (by omega), if_neg enough, List.take_left' rfl,
    List.drop_left' rfl, lib.parse_dump]

/-- Messages written one behind another are read back as they were. -/
theorem read_all_written (messages : List J) (more : Bytes) :
    readMessages lib (messages.flatMap (writeMessage lib) ++ more) messages.length =
      .ok (messages.map some, more) := by
  induction messages with
  | nil => rfl
  | cons m messages induction =>
      rw [List.flatMap_cons, List.append_assoc, List.length_cons, readMessages, read_written lib]
      simp only [bind, Except.bind]
      rw [induction]
      rfl

/-- A library whose one value is `null`, with the largest `std::string` of a 64-bit machine. -/
def nullLibrary : Library Unit where
  maxSize := 2 ^ 63 - 2
  roomy := by decide
  maxSize_lt := by decide
  parse text := if text = [110, 117, 108, 108] then some () else none
  dump _ := [110, 117, 108, 108]
  dump_fits _ := by decide
  parse_dump _ := rfl

end ProtoScala.Debugger.Transport
