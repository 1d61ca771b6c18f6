import Mathlib.Tactic.Common
import ProtoScala.Compiler.CppTables

/-!
# Reading the tables of a generated module
-/

namespace ProtoScala.Compiler.CppTables

open ProtoScala.Library.CppLiterals

set_option autoImplicit false

/-! ## Strings -/

theorem run_plain {c : Char} (bytes : Bytes) (ts : List Token) (q : c ≠ quotation)
    (b : c ≠ backslash) (n : c ≠ '\n') :
    run (.literal quotation bytes, ts) [c] =
      some (.literal quotation (bytes ++ [UInt8.ofNat c.toNat]), ts) := by
  rw [run_cons, step, inLiteral, if_neg q, if_neg b, if_neg n]
  rfl

theorem printable (c : UInt8) (low : 0x20 ≤ c) (high : c < 0x7f) (q : c ≠ 34) (b : c ≠ 92) :
    Char.ofNat c.toNat ≠ quotation ∧ Char.ofNat c.toNat ≠ backslash ∧
      Char.ofNat c.toNat ≠ '\n' ∧ UInt8.ofNat (Char.ofNat c.toNat).toNat = c := by
  have all : ∀ n : Fin 256, 0x20 ≤ UInt8.ofFin n → UInt8.ofFin n < 0x7f →
      UInt8.ofFin n ≠ 34 → UInt8.ofFin n ≠ 92 →
        Char.ofNat (UInt8.ofFin n).toNat ≠ quotation ∧
          Char.ofNat (UInt8.ofFin n).toNat ≠ backslash ∧ Char.ofNat (UInt8.ofFin n).toNat ≠ '\n' ∧
            UInt8.ofNat (Char.ofNat (UInt8.ofFin n).toNat).toNat = UInt8.ofFin n := by
    decide +kernel
  exact all c.toFin low high q b

theorem close_some (bytes : Bytes) (ts : List Token) :
    ∃ ts', close quotation bytes ts = some ts' := by
  cases ts with
  | nil => exact ⟨_, rfl⟩
  | cons token ts => cases token <;> exact ⟨_, rfl⟩

/-- A literal behind a closed one is read as one with it. -/
theorem close_twice {bytes : Bytes} (more : Bytes) {ts ts' : List Token}
    (closed : close quotation bytes ts = some ts') :
    close quotation more ts' = close quotation (bytes ++ more) ts := by
  cases ts with
  | nil =>
      obtain rfl := Option.some.inj closed
      rfl
  | cons token ts =>
      cases token with
      | string before =>
          obtain rfl := Option.some.inj closed
          exact congrArg (fun bytes => some (Token.string bytes :: ts))
            (List.append_assoc before bytes more)
      | word _ | char _ | mark _ =>
          obtain rfl := Option.some.inj closed
          rfl

/-- What is written for a byte adds it to the literal. -/
theorem run_escape (c : UInt8) (bytes : Bytes) (ts : List Token) :
    ∃ bytes' ts', run (.literal quotation bytes, ts) (escaped c) =
        some (.literal quotation bytes', ts') ∧
      ∀ more, close quotation (bytes' ++ more) ts' = close quotation (bytes ++ c :: more) ts := by
  have simple : ∀ more, close quotation ((bytes ++ [c]) ++ more) ts =
      close quotation (bytes ++ c :: more) ts := fun more => by
    rw [List.append_assoc, List.singleton_append]
  unfold escaped
  split_ifs with quotes newline tab return_ question plain
  · rcases quotes with rfl | rfl <;> exact ⟨_, ts, rfl, simple⟩
  · subst newline
    exact ⟨_, ts, rfl, simple⟩
  · subst tab
    exact ⟨_, ts, rfl, simple⟩
  · subst return_
    exact ⟨_, ts, rfl, simple⟩
  · subst question
    exact ⟨_, ts, rfl, simple⟩
  · obtain ⟨q, b, n, same⟩ := printable c plain.1 plain.2 (fun eq => quotes (.inl eq))
      (fun eq => quotes (.inr eq))
    have read := run_plain bytes ts q b n
    rw [same] at read
    exact ⟨_, ts, read, simple⟩
  · obtain ⟨ts', closed⟩ := close_some bytes ts
    obtain ⟨ts'', closed'⟩ := close_some [c] ts'
    have ends : step (.literal quotation bytes, ts) quotation = some (.closed, ts') := by
      rw [step, inLiteral, if_pos rfl, closed]
      rfl
    have again : ∀ ts, step (.closed, ts) quotation = some (.literal quotation [], ts) :=
      fun _ => rfl
    have inside := run_hex (by decide : quotation ≠ backslash) rfl [] c ts'
    rw [List.nil_append, closed'] at inside
    refine ⟨[], ts'', ?_, fun more => ?_⟩
    · rw [run_cons, ends, Option.bind_some, run_cons, again, Option.bind_some,
        List.append_cons (hexEscape c) quotation [quotation], run_append, inside]
      rfl
    · rw [List.nil_append, close_twice more closed', close_twice _ closed,
        List.singleton_append]

/-- The bytes of a string, as the literals for them are read. -/
theorem run_escaped (s : Bytes) (bytes : Bytes) (ts : List Token) :
    ∃ bytes' ts', run (.literal quotation bytes, ts) (s.flatMap escaped) =
        some (.literal quotation bytes', ts') ∧
      close quotation bytes' ts' = close quotation (bytes ++ s) ts := by
  induction s generalizing bytes ts with
  | nil => exact ⟨bytes, ts, rfl, by rw [List.append_nil]⟩
  | cons c s induction =>
      obtain ⟨bytes', ts', read, closes⟩ := run_escape c bytes ts
      obtain ⟨bytes'', ts'', read', closes'⟩ := induction bytes' ts'
      refine ⟨bytes'', ts'', ?_, closes'.trans (closes s)⟩
      rw [List.flatMap_cons, run_append, read, Option.bind_some, read']

theorem tokens_quoted (s : Bytes) : tokens (quoted s) = some [.string s] := by
  obtain ⟨bytes', ts', inside, closed⟩ := run_escaped s [] []
  have opens : step (.between, []) quotation = some (.literal quotation [], []) := rfl
  have whole : close quotation s [] = some [.string s] := rfl
  rw [List.nil_append, whole] at closed
  have ends : run (.literal quotation bytes', ts') [quotation] = some (.closed, [.string s]) := by
    rw [run_cons, step, inLiteral, if_pos rfl, closed]
    rfl
  rw [tokens, quoted, run_cons, opens, Option.bind_some, run_append, inside, Option.bind_some, ends]
  rfl

theorem char_literal (c : UInt8) : charOf (charLiteral c) = some c := by
  have opens : step (.between, []) apostrophe = some (.literal apostrophe [], []) := rfl
  have inside := run_hex (by decide : apostrophe ≠ backslash) rfl [] c []
  have closed : close apostrophe ([] ++ [c]) [] = some [.char c] := rfl
  rw [closed] at inside
  rw [charOf, tokens, charLiteral, run_cons, opens, Option.bind_some, inside]
  rfl

theorem pointed_array (elements : Bytes) :
    (elements.map charLiteral).mapM charOf = some elements := by
  induction elements with
  | nil => rfl
  | cons c elements induction =>
      rw [List.map_cons, List.mapM_cons, char_literal, induction]
      rfl

/-- What a reference to a string points to, where its array is the one of that name. -/
theorem pointed_ref {arrays : List (Text × List Text)} {s : Bytes} {name : Text}
    (chars : ∀ c ∈ name, isWordChar c = true) (some_ : name ≠ [])
    (unique : ∀ elements, (name, elements) ∈ (stringRef s name).1 →
      arrays.lookup name = some elements) :
    pointedTo arrays (stringRef s name).2 = some (s ++ [0]) := by
  unfold stringRef at unique ⊢
  split_ifs at unique ⊢ with short
  · rw [pointedTo, tokens_quoted]
  · rw [pointedTo, tokens_word chars some_]
    simp only
    rw [unique _ (List.mem_singleton_self _), Option.bind_some]
    have whole : s.map charLiteral ++ [charLiteral 0] = (s ++ [0]).map charLiteral := by
      rw [List.map_append, List.map_singleton]
    rw [whole, pointed_array]

/-- Up to the zero, or up to a zero inside. -/
theorem zero_terminated (s : Bytes) :
    zeroTerminated (s ++ [0]) = some (s.takeWhile (· ≠ 0)) := by
  have ends : (0 : UInt8) ∈ s ++ [0] := List.mem_append_right _ (List.mem_singleton_self 0)
  rw [zeroTerminated, if_pos ends, List.takeWhile_append]
  split_ifs with whole
  · rw [List.takeWhile_cons_of_neg (by decide), List.append_nil]
    exact congrArg some (List.IsPrefix.eq_of_length (List.takeWhile_prefix _) whole).symm
  · rfl

theorem clean_whole {s : Bytes} (clean : 0 ∉ s) : s.takeWhile (· ≠ 0) = s := by
  rw [List.takeWhile_eq_self_iff]
  intro c member
  exact decide_eq_true fun zero => clean (zero ▸ member)

theorem terminated_clean {array s : Bytes} (read : zeroTerminated array = some s) : 0 ∉ s := by
  unfold zeroTerminated at read
  split_ifs at read
  obtain rfl := Option.some.inj read
  intro member
  exact absurd (List.mem_takeWhile_imp member) (by decide)

/-! ## Numbers -/

theorem tokens_decimal (n : Nat) {suffix : Text} (chars : ∀ c ∈ suffix, isWordChar c = true) :
    tokens (decimal n ++ suffix) = some [.word (decimal n ++ suffix)] :=
  tokens_word (decimal_word chars) (by simp [decimal_ne_nil])

theorem integer_signed (v : Int) {suffix : Text} (low high : Int)
    (allowed : suffix = [] ∨ suffix = ['L', 'L']) (small : v.natAbs < 9223372036854775808)
    (inside : low ≤ v ∧ v < high) : integer low high (signed v ++ suffix) = some v := by
  obtain ⟨chars, start⟩ := signed_suffix allowed
  have literal := literal_decimal v.natAbs start
  rw [if_pos allowed, if_pos small] at literal
  unfold integer signed
  split_ifs with negative
  · rw [List.cons_append, tokens_mark rfl rfl (by decide) (decimal_word chars)
      (by simp [decimal_ne_nil])]
    simp only [literal, Option.map_some, negated_signed allowed]
    have same : -(v.natAbs : Int) = v := by omega
    rw [same, Option.filter_some, if_pos (by simpa using inside)]
  · rw [tokens_decimal _ chars]
    simp only [literal, Option.map_some]
    have same : (v.natAbs : Int) = v := by omega
    rw [same, Option.filter_some, if_pos (by simpa using inside)]

theorem integer_unsigned (n : Nat) (low high : Int) (small : n < 18446744073709551616)
    (inside : low ≤ n ∧ (n : Int) < high) :
    integer low high (decimal n ++ ['u']) = some (n : Int) := by
  obtain ⟨chars, start⟩ := unsigned_suffix
  have literal := literal_decimal n start
  rw [if_neg (by decide), if_pos rfl, if_pos small] at literal
  unfold integer
  rw [tokens_decimal n chars]
  simp only [literal, Option.map_some]
  rw [Option.filter_some, if_pos (by simpa using inside)]

/-- The least integer has a literal that no type has. -/
theorem integer_least :
    integer (-9223372036854775808) 9223372036854775808
      (signed (-9223372036854775808) ++ ['L', 'L']) = none := by
  obtain ⟨chars, start⟩ := signed_suffix (.inr rfl : ['L', 'L'] = [] ∨ ['L', 'L'] = ['L', 'L'])
  have literal := literal_decimal 9223372036854775808 start
  rw [if_pos (.inr rfl), if_neg (by decide)] at literal
  have tokens_ := tokens_mark (c := '-') rfl rfl (by decide)
    (@decimal_word 9223372036854775808 ['L', 'L'] chars) (by simp [decimal_ne_nil])
  have shape : signed (-9223372036854775808) ++ ['L', 'L'] =
      '-' :: (decimal (9223372036854775808) ++ ['L', 'L']) := rfl
  rw [integer, shape, tokens_]
  simp only [literal]
  rfl

end ProtoScala.Compiler.CppTables
