import Mathlib.Algebra.Order.Group.Unbundled.Int
import Mathlib.Data.Int.Order.Basic
import Mathlib.Tactic.Ring

/-!
# Hashing

`hashing`: MurmurHash3 mixing, `String.hashCode` over UTF-8 bytes, and the hashes
of whole numbers and of doubles, bit for bit. A double is its 64-bit pattern; its
value is exact, in units of 2^-1074, of which every finite double is a whole
multiple.
-/

namespace ProtoScala.Runtime.Hashing

set_option autoImplicit false

abbrev Word32 := BitVec 32
abbrev Byte := BitVec 8

def kProductSeed : Word32 := 0xcafebabe#32

def rotl (x : Word32) (r : Nat) : Word32 :=
  (x <<< r) ||| (x >>> (32 - r))

def mixLast (h k : Word32) : Word32 :=
  let k := k * 0xcc9e2d51#32
  let k := rotl k 15
  let k := k * 0x1b873593#32
  h ^^^ k

def mix (h data : Word32) : Word32 :=
  let h := mixLast h data
  let h := rotl h 13
  h * 5#32 + 0xe6546b64#32

def avalanche (h : Word32) : Word32 :=
  let h := h ^^^ (h >>> 16)
  let h := h * 0x85ebca6b#32
  let h := h ^^^ (h >>> 13)
  let h := h * 0xc2b2ae35#32
  h ^^^ (h >>> 16)

def finalizeHash (h length : Word32) : Word32 :=
  avalanche (h ^^^ length)

/-- The number of bytes of the UTF-8 sequence that a byte opens. -/
def sequenceLength (b : Byte) : Nat :=
  if b < 0x80#8 then 1 else if b < 0xE0#8 then 2 else if b < 0xF0#8 then 3 else 4

/-- The bits of the code point in the first byte of its sequence. -/
def leadingBits (b : Byte) : Word32 :=
  if b < 0x80#8 then b.setWidth 32
  else if b < 0xE0#8 then (b &&& 0x1F#8).setWidth 32
  else if b < 0xF0#8 then (b &&& 0x0F#8).setWidth 32
  else (b &&& 0x07#8).setWidth 32

def continued (cp : Word32) (b : Byte) : Word32 :=
  (cp <<< 6) ||| (b &&& 0x3F#8).setWidth 32

/-- One code point enters the hash as one or two UTF-16 units. -/
def hashCodePoint (h cp : Word32) : Word32 :=
  if 0x10000#32 ≤ cp then
    let cp := cp - 0x10000#32
    let h := 31#32 * h + (0xD800#32 + (cp >>> 10))
    31#32 * h + (0xDC00#32 + (cp &&& 0x3FF#32))
  else
    31#32 * h + cp

/-- The loop of `javaStringHash`; `skip` counts the bytes of the current sequence
that are still to be passed. -/
def javaStringHashFrom : Nat → Word32 → List Byte → Word32
  | _, h, [] => h
  | skip + 1, h, _ :: rest => javaStringHashFrom skip h rest
  | 0, h, b :: rest =>
      let more := sequenceLength b - 1
      let cp := (rest.take more).foldl continued (leadingBits b)
      javaStringHashFrom more (hashCodePoint h cp) rest

def javaStringHash (utf8 : List Byte) : Word32 :=
  javaStringHashFrom 0 0#32 utf8

def productHash (prefixHash : Word32) (elements : List Word32) : Word32 :=
  if elements.isEmpty then prefixHash
  else
    finalizeHash (elements.foldl mix (mix kProductSeed prefixHash))
      (BitVec.ofNat 32 elements.length)

/-- The bytes of "Seq". -/
def seqSeed : Word32 :=
  javaStringHash [83#8, 101#8, 113#8]

def seqHash (elements : List Word32) : Word32 :=
  finalizeHash (elements.foldl mix seqSeed) (BitVec.ofNat 32 elements.length)

def longHash (v : BitVec 64) : Word32 :=
  let i := v.setWidth 32
  if i.signExtend 64 = v then i else (v ^^^ (v >>> 32)).setWidth 32

/-- The value of a number, compared exactly. -/
inductive Numeric
  | finite (units : Int)
  | infinite (negative : Bool)
  | nan
deriving DecidableEq, Repr

def unitsPerOne : Int := 2 ^ 1074

/-- `partialCompare` of two numbers answers `equivalent`. -/
def Numeric.equivalent : Numeric → Numeric → Bool
  | .finite x, .finite y => x == y
  | .infinite x, .infinite y => x == y
  | _, _ => false

def exponentBits (bits : BitVec 64) : Nat :=
  bits.toNat / 2 ^ 52 % 2 ^ 11

def fractionBits (bits : BitVec 64) : Nat :=
  bits.toNat % 2 ^ 52

def signBit (bits : BitVec 64) : Bool :=
  decide (2 ^ 63 ≤ bits.toNat)

/-- The units of a finite double without its sign. -/
def magnitude (exponent fraction : Nat) : Nat :=
  if exponent = 0 then fraction else (2 ^ 52 + fraction) * 2 ^ (exponent - 1)

def doubleValue (bits : BitVec 64) : Numeric :=
  if exponentBits bits = 2047 then
    if fractionBits bits = 0 then .infinite (signBit bits) else .nan
  else if signBit bits then .finite (-(magnitude (exponentBits bits) (fractionBits bits) : Int))
  else .finite (magnitude (exponentBits bits) (fractionBits bits) : Int)

def javaDoubleHash (bits : BitVec 64) : Word32 :=
  let bits := if doubleValue bits = .nan then 0x7ff8000000000000#64 else bits
  (bits ^^^ (bits >>> 32)).setWidth 32

def javaFloatHash (bits : Word32) : Word32 :=
  if bits.toNat / 2 ^ 23 % 2 ^ 8 = 255 ∧ bits.toNat % 2 ^ 23 ≠ 0 then 0x7fc00000#32 else bits

/-- The bits of the float that has the value of a double, if there is one: then
and only then does the conversion to `float` and back give the double again. -/
def floatBits? (bits : BitVec 64) : Option Word32 :=
  let sign := if signBit bits then 2 ^ 31 else 0
  let exponent := exponentBits bits
  let fraction := fractionBits bits
  if exponent = 2047 then
    if fraction = 0 then some (BitVec.ofNat 32 (sign + 255 * 2 ^ 23)) else none
  else if exponent = 0 then
    if fraction = 0 then some (BitVec.ofNat 32 sign) else none
  else if 897 ≤ exponent ∧ exponent ≤ 1150 then
    if fraction % 2 ^ 29 = 0 then
      some (BitVec.ofNat 32 (sign + (exponent - 896) * 2 ^ 23 + fraction / 2 ^ 29))
    else none
  else if 874 ≤ exponent ∧ exponent < 897 then
    let shift := 926 - exponent
    if (2 ^ 52 + fraction) % 2 ^ shift = 0 then
      some (BitVec.ofNat 32 (sign + (2 ^ 52 + fraction) / 2 ^ shift))
    else none
  else none

/-- `d == trunc(d)`: the integer that a double is. -/
def Numeric.whole? : Numeric → Option Int
  | .finite units => if units % unitsPerOne = 0 then some (units / unitsPerOne) else none
  | _ => none

/-- The hash of a double that is no integer in the range of a `long`. -/
def fractionHash (bits : BitVec 64) : Word32 :=
  match floatBits? bits with
  | some f => javaFloatHash f
  | none => javaDoubleHash bits

def doubleHash (bits : BitVec 64) : Word32 :=
  if doubleValue bits = .nan then javaDoubleHash bits
  else
    match (doubleValue bits).whole? with
    | some n =>
        if -2147483648 ≤ n ∧ n ≤ 2147483647 then BitVec.ofInt 32 n
        else if -9223372036854775808 ≤ n ∧ n < 9223372036854775808 then
          longHash (BitVec.ofInt 64 n)
        else fractionHash bits
    | none => fractionHash bits

section Integers

/-- An integer of the range of `Int` hashes to itself. -/
theorem long_hash_of_int {n : Int} (low : -2147483648 ≤ n) (high : n ≤ 2147483647) :
    longHash (BitVec.ofInt 64 n) = BitVec.ofInt 32 n := by
  have narrowed : (BitVec.ofInt 64 n).setWidth 32 = BitVec.ofInt 32 n := by
    apply BitVec.eq_of_toNat_eq
    simp only [BitVec.toNat_setWidth, BitVec.toNat_ofInt]
    omega
  have widened : (BitVec.ofInt 32 n).signExtend 64 = BitVec.ofInt 64 n := by
    apply BitVec.eq_of_toInt_eq
    rw [BitVec.toInt_signExtend_of_le (by decide), BitVec.toInt_ofInt, BitVec.toInt_ofInt]
    rw [Int.bmod_eq_of_le (by omega) (by omega), Int.bmod_eq_of_le (by omega) (by omega)]
  simp only [longHash, narrowed, widened, if_true]

/-- So does an integer of 32 bits without a sign. -/
theorem long_hash_of_nat {n : Nat} (small : n < 2 ^ 32) :
    longHash (BitVec.ofInt 64 n) = BitVec.ofNat 32 n := by
  have narrowed : (BitVec.ofInt 64 n).setWidth 32 = BitVec.ofNat 32 n := by
    apply BitVec.eq_of_toNat_eq
    simp only [BitVec.toNat_setWidth, BitVec.toNat_ofInt, BitVec.toNat_ofNat]
    omega
  have shifted : BitVec.ofInt 64 n >>> 32 = 0#64 := by
    apply BitVec.eq_of_toNat_eq
    simp only [BitVec.toNat_ushiftRight, BitVec.toNat_ofInt, Nat.shiftRight_eq_div_pow,
      BitVec.toNat_ofNat]
    omega
  simp only [longHash, shifted, BitVec.xor_zero, narrowed, ite_self]

end Integers

section Doubles

theorem magnitude_lt {e e' m : Nat} (m' : Nat) (small : m < 2 ^ 52) (less : e < e') :
    magnitude e m < magnitude e' m' := by
  have above : 2 ^ 52 * 2 ^ (e' - 1) ≤ magnitude e' m' := by
    unfold magnitude
    rw [if_neg (by omega)]
    exact Nat.mul_le_mul_right _ (by omega)
  have below : magnitude e m < 2 ^ 52 * 2 ^ e := by
    unfold magnitude
    split
    · next zero =>
        rw [zero]
        omega
    · next positive =>
        have double : 2 ^ 52 * 2 ^ e = 2 ^ 53 * 2 ^ (e - 1) := by
          obtain ⟨k, rfl⟩ : ∃ k, e = k + 1 := ⟨e - 1, by omega⟩
          rw [Nat.add_sub_cancel, pow_succ]
          ring
        rw [double]
        exact Nat.mul_lt_mul_of_pos_right (by omega) (Nat.two_pow_pos _)
  have between : 2 ^ 52 * 2 ^ e ≤ 2 ^ 52 * 2 ^ (e' - 1) :=
    Nat.mul_le_mul_left _ (Nat.pow_le_pow_right (by omega) (by omega))
  omega

theorem magnitude_injective {e e' m m' : Nat} (small : m < 2 ^ 52) (small' : m' < 2 ^ 52)
    (same : magnitude e m = magnitude e' m') : e = e' ∧ m = m' := by
  rcases Nat.lt_trichotomy e e' with less | equal | more
  · have strict := magnitude_lt m' small less
    omega
  · refine ⟨equal, ?_⟩
    rw [equal] at same
    unfold magnitude at same
    split at same
    · exact same
    · have factors := Nat.eq_of_mul_eq_mul_right (Nat.two_pow_pos _) same
      omega
  · have strict := magnitude_lt m small' more
    omega

theorem fraction_lt (bits : BitVec 64) : fractionBits bits < 2 ^ 52 :=
  Nat.mod_lt _ (by decide)

/-- The three fields are all there is of a double. -/
theorem bits_of_fields {x y : BitVec 64} (sign : signBit x = signBit y)
    (exponent : exponentBits x = exponentBits y) (fraction : fractionBits x = fractionBits y) :
    x = y := by
  apply BitVec.eq_of_toNat_eq
  have boundX := x.isLt
  have boundY := y.isLt
  simp only [signBit, exponentBits, fractionBits, decide_eq_decide] at sign exponent fraction
  omega

/-- The units of a double, with its sign. -/
def signedUnits (negative : Bool) (units : Nat) : Int :=
  if negative then -(units : Int) else units

theorem double_value_finite {x : BitVec 64} (finite : exponentBits x ≠ 2047) :
    doubleValue x =
      .finite (signedUnits (signBit x) (magnitude (exponentBits x) (fractionBits x))) := by
  unfold doubleValue signedUnits
  rw [if_neg finite]
  split <;> rfl

theorem double_value_extreme {x : BitVec 64} (extreme : exponentBits x = 2047)
    (number : doubleValue x ≠ .nan) :
    fractionBits x = 0 ∧ doubleValue x = .infinite (signBit x) := by
  unfold doubleValue at number ⊢
  rw [if_pos extreme] at number ⊢
  split at number
  · next zero => exact ⟨zero, by rw [if_pos zero]⟩
  · exact absurd rfl number

theorem signed_units_injective {s t : Bool} {u v : Nat} (same : signedUnits s u = signedUnits t v)
    (nonzero : signedUnits s u ≠ 0) : s = t ∧ u = v := by
  unfold signedUnits at same nonzero
  cases s <;> cases t <;> simp at same nonzero ⊢ <;> omega

/-- Apart from the two zeros, doubles of one value are one double. -/
theorem double_value_injective {x y : BitVec 64} (same : doubleValue x = doubleValue y)
    (number : doubleValue x ≠ .nan) (nonzero : doubleValue x ≠ .finite 0) : x = y := by
  by_cases extremeX : exponentBits x = 2047
  · obtain ⟨zeroX, valueX⟩ := double_value_extreme extremeX number
    by_cases extremeY : exponentBits y = 2047
    · obtain ⟨zeroY, valueY⟩ := double_value_extreme extremeY (by rw [← same]; exact number)
      rw [valueX, valueY] at same
      apply bits_of_fields (Numeric.infinite.inj same)
      · rw [extremeX, extremeY]
      · rw [zeroX, zeroY]
    · rw [valueX, double_value_finite extremeY] at same
      contradiction
  · by_cases extremeY : exponentBits y = 2047
    · obtain ⟨-, valueY⟩ := double_value_extreme extremeY (by rw [← same]; exact number)
      rw [valueY, double_value_finite extremeX] at same
      contradiction
    · rw [double_value_finite extremeX] at same nonzero
      rw [double_value_finite extremeY] at same
      have units := Numeric.finite.inj same
      obtain ⟨sign, magnitudes⟩ := signed_units_injective units (by
        intro zero
        exact nonzero (by rw [zero]))
      obtain ⟨exponent, fraction⟩ :=
        magnitude_injective (fraction_lt x) (fraction_lt y) magnitudes
      exact bits_of_fields sign exponent fraction

/-- A double that is an integer of the range of `long` hashes as that integer. -/
theorem double_hash_of_whole {bits : BitVec 64} {n : Int}
    (value : doubleValue bits = .finite (n * unitsPerOne)) (low : -9223372036854775808 ≤ n)
    (high : n < 9223372036854775808) : doubleHash bits = longHash (BitVec.ofInt 64 n) := by
  have positive : unitsPerOne ≠ 0 := by
    unfold unitsPerOne
    exact pow_ne_zero _ (by decide)
  have whole : (Numeric.finite (n * unitsPerOne)).whole? = some n := by
    simp only [Numeric.whole?, Int.mul_emod_left, if_true, Int.mul_ediv_cancel n positive]
  unfold doubleHash
  rw [value, if_neg (by simp), whole]
  by_cases int : -2147483648 ≤ n ∧ n ≤ 2147483647
  · simp only [if_pos int]
    exact (long_hash_of_int int.1 int.2).symm
  · simp only [if_neg int, if_pos (And.intro low high)]

theorem double_hash_congr {x y : BitVec 64}
    (same : (doubleValue x).equivalent (doubleValue y) = true) : doubleHash x = doubleHash y := by
  have equal : doubleValue x = doubleValue y ∧ doubleValue x ≠ .nan := by
    unfold Numeric.equivalent at same
    split at same
    · next u v left right =>
        rw [left, right, beq_iff_eq.mp same]
        exact ⟨rfl, by simp⟩
    · next s t left right =>
        rw [left, right, beq_iff_eq.mp same]
        exact ⟨rfl, by simp⟩
    · contradiction
  by_cases zero : doubleValue x = .finite 0
  · have here : doubleValue x = .finite (0 * unitsPerOne) := by
      rw [zero, zero_mul]
    have there := here
    rw [equal.1] at there
    rw [double_hash_of_whole here (by decide) (by decide),
      double_hash_of_whole there (by decide) (by decide)]
  · rw [double_value_injective equal.1 equal.2 zero]

end Doubles

end ProtoScala.Runtime.Hashing
