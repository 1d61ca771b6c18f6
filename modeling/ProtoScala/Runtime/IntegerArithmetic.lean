import Mathlib.Data.Int.Basic
import Mathlib.Data.BitVec

/-!
# Integer opcodes

A `SmallInteger` is a word with a payload of 54 bits; every other integer is a cell of
protoCore. ADD, SUB, MUL, the comparisons and NEG read two small operands into 64-bit
integers, compute there and make a small result again when it is in the range. Everything
else goes to protoCore, whose own operations are parameters here: `Exact` states that
they are exact on integers.
-/

namespace ProtoScala.Runtime.IntegerArithmetic

set_option autoImplicit false

/-- The objects that the opcodes tell apart. `other` is a Boolean's, a collection's, an
instance's or any other object's content. -/
inductive Obj (C D S O : Type) where
  | small (payload : BitVec 54)
  | large (cell : C)
  | double (value : D)
  | char (code : BitVec 32)
  | string (text : S)
  | bool (value : Bool)
  | other (object : O)

/-- `undefined` is the behaviour of a signed overflow in C++. -/
inductive Failure (V : Type) where
  | raised (value : V)
  | undefined

inductive ArithOp where
  | add | sub | mul
  deriving DecidableEq, Repr

inductive CompareOp where
  | lt | le | gt | ge
  deriving DecidableEq, Repr

inductive BinaryOp where
  | arith (op : ArithOp)
  | compare (op : CompareOp)
  deriving DecidableEq, Repr

/-- The answer of `partialCompare`. -/
inductive PartialOrdering where
  | less | equivalent | greater | unordered
  deriving DecidableEq, Repr

section Model

variable {C D S O : Type}

abbrev Checked (C D S O : Type) : Type → Type := Except (Failure (Obj C D S O))

/-- What the opcodes call. -/
structure Core (C D S O : Type) where
  /-- The number in a cell of a large integer. -/
  number : C → Int
  add : Obj C D S O → Obj C D S O → Checked C D S O (Obj C D S O)
  subtract : Obj C D S O → Obj C D S O → Checked C D S O (Obj C D S O)
  multiply : Obj C D S O → Obj C D S O → Checked C D S O (Obj C D S O)
  negate : Obj C D S O → Checked C D S O (Obj C D S O)
  partialCompare : Obj C D S O → Obj C D S O → PartialOrdering
  toScalaString : Obj C D S O → Checked C D S O S
  appendLast : S → S → S
  send : Obj C D S O → String → List (Obj C D S O) → Checked C D S O (Obj C D S O)
  /-- `valuesEqual` of two objects of which one is no number and no character. -/
  othersEqual : Obj C D S O → Obj C D S O → Checked C D S O Bool

/-! ## Small integers -/

def smallIntMin : Int := -9007199254740992

def smallIntMax : Int := 9007199254740991

def asSmallInt (payload : BitVec 54) : BitVec 64 := payload.signExtend 64

def smallIntInRange (r : BitVec 64) : Bool := smallIntMin ≤ r.toInt ∧ r.toInt ≤ smallIntMax

/-- The word keeps the low 54 bits. -/
def makeSmallInt (r : BitVec 64) : Obj C D S O := .small (r.setWidth 54)

def isStringTagFast : Obj C D S O → Bool
  | .string _ => true
  | _ => false

def isIntegerFast : Obj C D S O → Bool
  | .small _ | .large _ => true
  | _ => false

def isNumberFast : Obj C D S O → Bool
  | .small _ | .large _ | .double _ => true
  | _ => false

def widenChar : Obj C D S O → Obj C D S O
  | .char code => makeSmallInt (code.setWidth 64)
  | object => object

/-! ## Arithmetic of `long long` -/

def longAdd (x y : BitVec 64) : Checked C D S O (BitVec 64) :=
  if x.saddOverflow y then .error .undefined else .ok (x + y)

def longSub (x y : BitVec 64) : Checked C D S O (BitVec 64) :=
  if x.ssubOverflow y then .error .undefined else .ok (x - y)

def longNeg (x : BitVec 64) : Checked C D S O (BitVec 64) :=
  if x.negOverflow then .error .undefined else .ok (-x)

/-- `_mul128`: the low and the high half of the product. -/
def mul128 (x y : BitVec 64) : BitVec 64 × BitVec 64 :=
  let product := x.signExtend 128 * y.signExtend 128
  (product.setWidth 64, (product >>> 64).setWidth 64)

/-- The two compilers the multiplication is written for. -/
inductive Toolchain where
  | gnu | msvc
  deriving DecidableEq, Repr

/-- The low 64 bits of a product, and whether they are the product and in the range. -/
def longMul (toolchain : Toolchain) (x y : BitVec 64) : BitVec 64 × Bool :=
  match toolchain with
  | .gnu => (x * y, !x.smulOverflow y && smallIntInRange (x * y))
  | .msvc =>
      let (r, high) := mul128 x y
      (r, high == r.sshiftRight 63 && smallIntInRange r)

/-! ## The opcodes -/

def binaryOpName : BinaryOp → String
  | .arith .add => "+"
  | .arith .sub => "-"
  | .arith .mul => "*"
  | .compare .lt => "<"
  | .compare .le => "<="
  | .compare .gt => ">"
  | .compare .ge => ">="

/-- The comparison of a `std::partial_ordering` with zero. -/
def CompareOp.accepts : CompareOp → PartialOrdering → Bool
  | .lt, .less => true
  | .le, .less | .le, .equivalent => true
  | .gt, .greater => true
  | .ge, .greater | .ge, .equivalent => true
  | _, _ => false

variable (core : Core C D S O)

def coreArith : ArithOp → Obj C D S O → Obj C D S O → Checked C D S O (Obj C D S O)
  | .add => core.add
  | .sub => core.subtract
  | .mul => core.multiply

def bothStrings (a b : Obj C D S O) : Bool := isStringTagFast a && isStringTagFast b

def slowBinary (op : BinaryOp) (a b : Obj C D S O) : Checked C D S O (Obj C D S O) :=
  if op = .arith .add ∧ (isStringTagFast a ∨ isStringTagFast b) then do
    let sa ← core.toScalaString a
    let sb ← core.toScalaString b
    pure (.string (core.appendLast sa sb))
  else if op = .arith .mul ∧ isStringTagFast a ∧ isIntegerFast b then core.multiply a b
  else
    let x := widenChar a
    let y := widenChar b
    match op with
    | .arith op =>
        if isNumberFast x && isNumberFast y then coreArith core op x y
        else core.send a (binaryOpName (.arith op)) [b]
    | .compare op =>
        if isNumberFast x && isNumberFast y then
          pure (.bool (op.accepts (core.partialCompare x y)))
        else if bothStrings a b then pure (.bool (op.accepts (core.partialCompare a b)))
        else core.send a (binaryOpName (.compare op)) [b]

/-- ADD, SUB and MUL. -/
def arith (toolchain : Toolchain) (op : ArithOp) (a b : Obj C D S O) : Checked C D S O (Obj C D S O) :=
  match a, b with
  | .small p, .small q => do
      let x := asSmallInt p
      let y := asSmallInt q
      let (r, fits) ← match op with
        | .add => (longAdd x y).map fun r => (r, smallIntInRange r)
        | .sub => (longSub x y).map fun r => (r, smallIntInRange r)
        | .mul => pure (longMul toolchain x y)
      if fits then pure (makeSmallInt r) else coreArith core op a b
  | _, _ => slowBinary core (.arith op) a b

def CompareOp.holdsLong : CompareOp → BitVec 64 → BitVec 64 → Bool
  | .lt, x, y => x.slt y
  | .le, x, y => x.sle y
  | .gt, x, y => y.slt x
  | .ge, x, y => y.sle x

/-- LT, LE, GT and GE. -/
def compare (op : CompareOp) (a b : Obj C D S O) : Checked C D S O (Obj C D S O) :=
  match a, b with
  | .small p, .small q => pure (.bool (op.holdsLong (asSmallInt p) (asSmallInt q)))
  | _, _ => slowBinary core (.compare op) a b

/-- `valuesEqual`, as far as it is about numbers and characters. -/
def valuesEqual (a b : Obj C D S O) : Checked C D S O Bool :=
  let x := widenChar a
  let y := widenChar b
  if isNumberFast x && isNumberFast y then
    match x, y with
    | .small p, .small q => pure (p == q)
    | _, _ => pure (core.partialCompare x y == .equivalent)
  else core.othersEqual a b

/-- EQ, and NE when `negated`. -/
def equality (negated : Bool) (a b : Obj C D S O) : Checked C D S O (Obj C D S O) :=
  (valuesEqual core a b).map fun equal => .bool (equal == !negated)

def neg (a : Obj C D S O) : Checked C D S O (Obj C D S O) :=
  match a with
  | .small p =>
      if (asSmallInt p).toInt ≠ smallIntMin then (longNeg (asSmallInt p)).map makeSmallInt
      else core.negate a
  | .large _ | .double _ => core.negate a
  | _ => core.send a "unary_-" []

/-! ## What they compute -/

/-- The number an integer object stands for. -/
def integer : Obj C D S O → Option Int
  | .small payload => some payload.toInt
  | .large cell => some (core.number cell)
  | _ => none

def isLarge : Obj C D S O → Prop
  | .large _ => True
  | _ => False

def ArithOp.exact : ArithOp → Int → Int → Int
  | .add, n, m => n + m
  | .sub, n, m => n - m
  | .mul, n, m => n * m

def CompareOp.holds : CompareOp → Int → Int → Bool
  | .lt, n, m => n < m
  | .le, n, m => n ≤ m
  | .gt, n, m => m < n
  | .ge, n, m => m ≤ n

def orderOf (n m : Int) : PartialOrdering :=
  if n < m then .less else if n = m then .equivalent else .greater

def isSmall (n : Int) : Prop := smallIntMin ≤ n ∧ n ≤ smallIntMax

/-- A result is the integer `n`: small when `n` is in the range or from protoCore, and
never small when `n` is not in the range. -/
structure Yields (outcome : Checked C D S O (Obj C D S O)) (n : Int) : Prop where
  value : ∃ object, outcome = .ok object ∧ integer core object = some n
  promoted : ∀ object, outcome = .ok object → ¬isSmall n → isLarge object

/-- protoCore's own operations on its integers. -/
structure Exact : Prop where
  arith : ∀ op a b n m, integer core a = some n → integer core b = some m →
    ∃ object, coreArith core op a b = .ok object ∧ integer core object = some (op.exact n m)
  negate : ∀ a n, integer core a = some n →
    ∃ object, core.negate a = .ok object ∧ integer core object = some (-n)
  partialCompare : ∀ a b n m, integer core a = some n → integer core b = some m →
    core.partialCompare a b = orderOf n m

end Model

/-! ## The tagged word -/

theorem as_small_int_to_int (payload : BitVec 54) :
    (asSmallInt payload).toInt = payload.toInt :=
  BitVec.toInt_signExtend_of_le (by decide)

theorem payload_small (payload : BitVec 54) : isSmall payload.toInt := by
  have above := BitVec.le_toInt payload
  have below := BitVec.toInt_lt (x := payload)
  unfold isSmall smallIntMin smallIntMax
  omega

theorem as_small_int_bounds (payload : BitVec 54) :
    -9007199254740992 ≤ (asSmallInt payload).toInt ∧
      (asSmallInt payload).toInt ≤ 9007199254740991 := by
  rw [as_small_int_to_int]
  exact payload_small payload

theorem small_int_in_range_iff (r : BitVec 64) :
    smallIntInRange r = true ↔ isSmall r.toInt := by
  simp [smallIntInRange, isSmall]

/-- A number in the range keeps its value in 54 bits. -/
theorem set_width_to_int {r : BitVec 64} (small : isSmall r.toInt) :
    (r.setWidth 54).toInt = r.toInt := by
  obtain ⟨above, below⟩ := small
  unfold smallIntMin at above
  unfold smallIntMax at below
  have low : (r.setWidth 54).toNat = r.toNat % 2 ^ 54 := BitVec.toNat_setWidth ..
  have wide := r.isLt
  rw [BitVec.toInt_eq_toNat_cond, low]
  rw [BitVec.toInt_eq_toNat_cond] at above below ⊢
  omega

/-! ## The fast paths -/

section FastPaths

variable {C D S O : Type}

theorem make_small_integer (core : Core C D S O) {r : BitVec 64} (fits : smallIntInRange r = true) :
    integer core (makeSmallInt r) = some r.toInt := by
  have small := (small_int_in_range_iff r).mp fits
  simp only [makeSmallInt, integer, set_width_to_int small]

/-- The sum of two small integers stays within 64 bits. -/
theorem long_add_ok (p q : BitVec 54) :
    ∃ r, longAdd (C := C) (D := D) (S := S) (O := O) (asSmallInt p) (asSmallInt q) = .ok r ∧
      r.toInt = p.toInt + q.toInt := by
  have first := as_small_int_bounds p
  have second := as_small_int_bounds q
  have inside : ¬(asSmallInt p).saddOverflow (asSmallInt q) = true := by
    simp only [BitVec.saddOverflow, Bool.or_eq_true, decide_eq_true_eq]
    omega
  refine ⟨asSmallInt p + asSmallInt q, if_neg inside, ?_⟩
  rw [BitVec.toInt_add_of_not_saddOverflow inside, as_small_int_to_int, as_small_int_to_int]

theorem long_sub_ok (p q : BitVec 54) :
    ∃ r, longSub (C := C) (D := D) (S := S) (O := O) (asSmallInt p) (asSmallInt q) = .ok r ∧
      r.toInt = p.toInt - q.toInt := by
  have first := as_small_int_bounds p
  have second := as_small_int_bounds q
  have inside : ¬(asSmallInt p).ssubOverflow (asSmallInt q) = true := by
    simp only [BitVec.ssubOverflow, Bool.or_eq_true, decide_eq_true_eq]
    omega
  refine ⟨asSmallInt p - asSmallInt q, if_neg inside, ?_⟩
  rw [BitVec.toInt_sub_of_not_ssubOverflow inside, as_small_int_to_int, as_small_int_to_int]

/-- The product of two 64-bit integers fits 128 bits. -/
theorem wide_product (x y : BitVec 64) :
    (x.signExtend 128 * y.signExtend 128).toInt = x.toInt * y.toInt := by
  have first : (x.signExtend 128).toInt = x.toInt := BitVec.toInt_signExtend_of_le (by decide)
  have second : (y.signExtend 128).toInt = y.toInt := BitVec.toInt_signExtend_of_le (by decide)
  have left : x.toInt.natAbs ≤ 2 ^ 63 := by
    have above := BitVec.le_toInt x
    have below := BitVec.toInt_lt (x := x)
    omega
  have right : y.toInt.natAbs ≤ 2 ^ 63 := by
    have above := BitVec.le_toInt y
    have below := BitVec.toInt_lt (x := y)
    omega
  have size : (x.toInt * y.toInt).natAbs ≤ 2 ^ 126 := by
    rw [Int.natAbs_mul]
    exact (Nat.mul_le_mul left right).trans (by decide)
  have inside : ¬(x.signExtend 128).smulOverflow (y.signExtend 128) = true := by
    simp only [BitVec.smulOverflow, Bool.or_eq_true, decide_eq_true_eq, first, second]
    omega
  rw [BitVec.toInt_mul_of_not_smulOverflow inside, first, second]

/-- When the high half of a product is the sign of its low half, the low half is the
product. -/
theorem low_half_exact (x y : BitVec 64)
    (sign : (mul128 x y).2 = (mul128 x y).1.sshiftRight 63) :
    (mul128 x y).1.toInt = x.toInt * y.toInt := by
  rw [← wide_product]
  simp only [mul128] at sign ⊢
  generalize x.signExtend 128 * y.signExtend 128 = product at sign ⊢
  have wide := product.isLt
  have low : (product.setWidth 64).toNat = product.toNat % 2 ^ 64 := BitVec.toNat_setWidth ..
  have high : ((product >>> 64).setWidth 64).toNat = product.toNat / 2 ^ 64 := by
    rw [BitVec.toNat_setWidth, BitVec.toNat_ushiftRight, Nat.shiftRight_eq_div_pow]
    omega
  have signs := congrArg BitVec.toInt sign
  rw [BitVec.toInt_sshiftRight, Int.shiftRight_eq_div_pow, BitVec.toInt_eq_toNat_cond,
    BitVec.toInt_eq_toNat_cond, low, high] at signs
  rw [BitVec.toInt_eq_toNat_cond, BitVec.toInt_eq_toNat_cond, low]
  push_cast at signs ⊢
  omega

theorem long_mul_exact (toolchain : Toolchain) (p q : BitVec 54)
    (fits : (longMul toolchain (asSmallInt p) (asSmallInt q)).2 = true) :
    smallIntInRange (longMul toolchain (asSmallInt p) (asSmallInt q)).1 = true ∧
      (longMul toolchain (asSmallInt p) (asSmallInt q)).1.toInt = p.toInt * q.toInt := by
  rw [← as_small_int_to_int p, ← as_small_int_to_int q]
  cases toolchain with
  | gnu =>
      simp only [longMul, Bool.and_eq_true, Bool.not_eq_true'] at fits ⊢
      exact ⟨fits.2, BitVec.toInt_mul_of_not_smulOverflow (by simp [fits.1])⟩
  | msvc =>
      simp only [longMul, Bool.and_eq_true, beq_iff_eq] at fits ⊢
      exact ⟨fits.2, low_half_exact _ _ fits.1⟩

end FastPaths

/-! ## Exactness -/

section Exactness

variable {C D S O : Type} {core : Core C D S O}

theorem large_of_not_small {object : Obj C D S O} {n : Int} (is : integer core object = some n)
    (outside : ¬isSmall n) : isLarge object := by
  cases object with
  | small payload =>
      obtain rfl : payload.toInt = n := Option.some.inj is
      exact absurd (payload_small payload) outside
  | large cell => trivial
  | double value => cases is
  | char code => cases is
  | string text => cases is
  | bool value => cases is
  | other object => cases is

theorem yields_of_integer {outcome : Checked C D S O (Obj C D S O)} {n : Int}
    (value : ∃ object, outcome = .ok object ∧ integer core object = some n) :
    Yields core outcome n where
  value := value
  promoted := by
    intro object given outside
    obtain ⟨result, same, is⟩ := value
    obtain rfl : result = object := Except.ok.inj (same.symm.trans given)
    exact large_of_not_small is outside

/-- An integer is a small one or a large one. -/
theorem integer_cases {object : Obj C D S O} {n : Int} (is : integer core object = some n) :
    (∃ payload, object = .small payload ∧ payload.toInt = n) ∨
      ∃ cell, object = .large cell ∧ core.number cell = n := by
  cases object with
  | small payload => exact Or.inl ⟨payload, rfl, Option.some.inj is⟩
  | large cell => exact Or.inr ⟨cell, rfl, Option.some.inj is⟩
  | double value => cases is
  | char code => cases is
  | string text => cases is
  | bool value => cases is
  | other object => cases is

theorem widen_integer {object : Obj C D S O} {n : Int} (is : integer core object = some n) :
    widenChar object = object ∧ isNumberFast object = true ∧ isStringTagFast object = false := by
  obtain ⟨payload, rfl, -⟩ | ⟨cell, rfl, -⟩ := integer_cases is <;> exact ⟨rfl, rfl, rfl⟩

theorem slow_arith (op : ArithOp) {a b : Obj C D S O} {n m : Int}
    (left : integer core a = some n) (right : integer core b = some m) :
    slowBinary core (.arith op) a b = coreArith core op a b := by
  obtain ⟨plainA, numberA, textA⟩ := widen_integer left
  obtain ⟨plainB, numberB, textB⟩ := widen_integer right
  simp [slowBinary, plainA, plainB, numberA, numberB, textA, textB]

theorem accepts_order (op : CompareOp) (n m : Int) :
    op.accepts (orderOf n m) = op.holds n m := by
  unfold orderOf
  rcases lt_trichotomy n m with below | rfl | above
  · rw [if_pos below]
    cases op <;> simp [CompareOp.accepts, CompareOp.holds] <;> omega
  · rw [if_neg (lt_irrefl n), if_pos rfl]
    cases op <;> simp [CompareOp.accepts, CompareOp.holds]
  · rw [if_neg (by omega), if_neg (by omega)]
    cases op <;> simp [CompareOp.accepts, CompareOp.holds] <;> omega

theorem slow_compare (exact : Exact core) (op : CompareOp) {a b : Obj C D S O} {n m : Int}
    (left : integer core a = some n) (right : integer core b = some m) :
    slowBinary core (.compare op) a b = .ok (.bool (op.holds n m)) := by
  obtain ⟨plainA, numberA, textA⟩ := widen_integer left
  obtain ⟨plainB, numberB, textB⟩ := widen_integer right
  have order := exact.partialCompare a b n m left right
  simp [slowBinary, plainA, plainB, numberA, numberB, order, accepts_order]
  rfl

theorem arith_exact (exact : Exact core) (toolchain : Toolchain) (op : ArithOp)
    {a b : Obj C D S O} {n m : Int} (left : integer core a = some n)
    (right : integer core b = some m) :
    Yields core (arith core toolchain op a b) (op.exact n m) := by
  apply yields_of_integer
  have promoted := exact.arith op a b n m left right
  obtain ⟨p, rfl, rfl⟩ | ⟨cell, rfl, rfl⟩ := integer_cases left
  · obtain ⟨q, rfl, rfl⟩ | ⟨cell, rfl, rfl⟩ := integer_cases right
    · cases op with
      | add =>
          obtain ⟨r, sum, value⟩ := long_add_ok (C := C) (D := D) (S := S) (O := O) p q
          simp only [arith, sum, Except.map, pure, bind, Except.bind, Except.pure]
          by_cases fits : smallIntInRange r = true
          · rw [if_pos fits]
            exact ⟨_, rfl, (make_small_integer core fits).trans (congrArg some value)⟩
          · rw [if_neg fits]
            exact promoted
      | sub =>
          obtain ⟨r, difference, value⟩ := long_sub_ok (C := C) (D := D) (S := S) (O := O) p q
          simp only [arith, difference, Except.map, pure, bind, Except.bind, Except.pure]
          by_cases fits : smallIntInRange r = true
          · rw [if_pos fits]
            exact ⟨_, rfl, (make_small_integer core fits).trans (congrArg some value)⟩
          · rw [if_neg fits]
            exact promoted
      | mul =>
          simp only [arith, pure, bind, Except.bind, Except.pure]
          by_cases fits : (longMul toolchain (asSmallInt p) (asSmallInt q)).2 = true
          · obtain ⟨inside, value⟩ := long_mul_exact toolchain p q fits
            rw [if_pos fits]
            exact ⟨_, rfl, (make_small_integer core inside).trans (congrArg some value)⟩
          · rw [if_neg fits]
            exact promoted
    · simp only [arith, slow_arith op left right]
      exact promoted
  · simp only [arith, slow_arith op left right]
    exact promoted

theorem compare_exact (exact : Exact core) (op : CompareOp) {a b : Obj C D S O} {n m : Int}
    (left : integer core a = some n) (right : integer core b = some m) :
    compare core op a b = .ok (.bool (op.holds n m)) := by
  have slow := slow_compare exact op left right
  obtain ⟨p, rfl, rfl⟩ | ⟨cell, rfl, rfl⟩ := integer_cases left
  · obtain ⟨q, rfl, rfl⟩ | ⟨cell, rfl, rfl⟩ := integer_cases right
    · cases op <;>
        simp [compare, CompareOp.holdsLong, CompareOp.holds, BitVec.slt_eq_decide,
          BitVec.sle_eq_decide, as_small_int_to_int, pure, Except.pure]
    · exact slow
  · exact slow

theorem values_equal_exact (exact : Exact core) {a b : Obj C D S O} {n m : Int}
    (left : integer core a = some n) (right : integer core b = some m) :
    valuesEqual core a b = .ok (decide (n = m)) := by
  have order := exact.partialCompare a b n m left right
  have slow : (core.partialCompare a b == .equivalent) = decide (n = m) := by
    rw [order]
    unfold orderOf
    rcases lt_trichotomy n m with below | rfl | above
    · simp [below, below.ne]
    · simp
    · simp [not_lt.mpr above.le, above.ne']
  obtain ⟨p, rfl, rfl⟩ | ⟨cell, rfl, rfl⟩ := integer_cases left
  · obtain ⟨q, rfl, rfl⟩ | ⟨cell, rfl, rfl⟩ := integer_cases right
    · have same : (p == q) = decide (p.toInt = q.toInt) := by
        rw [Bool.eq_iff_iff, beq_iff_eq, decide_eq_true_iff, BitVec.toInt_inj]
      simp [valuesEqual, widenChar, isNumberFast, same, pure, Except.pure]
    · simp [valuesEqual, widenChar, isNumberFast, slow, pure, Except.pure]
  · obtain ⟨q, rfl, rfl⟩ | ⟨cell, rfl, rfl⟩ := integer_cases right <;>
      simp [valuesEqual, widenChar, isNumberFast, slow, pure, Except.pure]

theorem neg_exact (exact : Exact core) {a : Obj C D S O} {n : Int}
    (is : integer core a = some n) : Yields core (neg core a) (-n) := by
  apply yields_of_integer
  have slow := exact.negate a n is
  obtain ⟨p, rfl, rfl⟩ | ⟨cell, rfl, rfl⟩ := integer_cases is
  · have bounds := as_small_int_bounds p
    simp only [neg, longNeg]
    by_cases lowest : (asSmallInt p).toInt = smallIntMin
    · rw [if_neg (by simpa using lowest)]
      exact slow
    · have inside : ¬(asSmallInt p).negOverflow = true := by
        simp only [BitVec.negOverflow, beq_iff_eq]
        omega
      have value : (-asSmallInt p).toInt = -p.toInt := by
        rw [BitVec.toInt_neg_of_not_negOverflow inside, as_small_int_to_int]
      have fits : smallIntInRange (-asSmallInt p) = true := by
        rw [small_int_in_range_iff, value]
        rw [as_small_int_to_int] at bounds lowest
        unfold smallIntMin at lowest
        unfold isSmall smallIntMin smallIntMax
        omega
      rw [if_pos lowest, if_neg inside]
      exact ⟨_, rfl, (make_small_integer core fits).trans (congrArg some value)⟩
  · exact slow

end Exactness

section Claim

variable {C D S O : Type}

/-- All the opcodes on integers compute the integer that mathematics says. -/
theorem integer_opcodes_exact (core : Core C D S O) (exact : Exact core) (toolchain : Toolchain)
    (a b : Obj C D S O) (n m : Int) (left : integer core a = some n)
    (right : integer core b = some m) :
    (∀ op, Yields core (arith core toolchain op a b) (op.exact n m)) ∧
      Yields core (neg core a) (-n) ∧
      (∀ op, compare core op a b = .ok (.bool (op.holds n m))) ∧
      (∀ negated, equality core negated a b = .ok (.bool (decide (n = m) == !negated))) := by
  refine ⟨?_, neg_exact exact left, ?_, ?_⟩
  · intro op
    exact arith_exact exact toolchain op left right
  · intro op
    exact compare_exact exact op left right
  · intro negated
    rw [equality, values_equal_exact exact left right]
    rfl

/-- An integer object that is small when it can be. -/
def ofInteger (n : Int) : Obj Int D S O :=
  if smallIntMin ≤ n ∧ n ≤ smallIntMax then .small (BitVec.ofInt 54 n) else .large n

/-- protoCore with integers that are exact, and nothing else. -/
def exactCore : Core Int Unit Unit Unit where
  number := id
  add := withIntegers fun n m => n + m
  subtract := withIntegers fun n m => n - m
  multiply := withIntegers fun n m => n * m
  negate a := withIntegers (fun n _ => -n) a a
  partialCompare a b :=
    match value a, value b with
    | some n, some m => orderOf n m
    | _, _ => .unordered
  toScalaString _ := .error .undefined
  appendLast _ _ := ()
  send _ _ _ := .error .undefined
  othersEqual _ _ := .error .undefined
where
  value : Obj Int Unit Unit Unit → Option Int
    | .small payload => some payload.toInt
    | .large n => some n
    | _ => none
  withIntegers (f : Int → Int → Int) (a b : Obj Int Unit Unit Unit) :
      Checked Int Unit Unit Unit (Obj Int Unit Unit Unit) :=
    match value a, value b with
    | some n, some m => .ok (ofInteger (f n m))
    | _, _ => .error .undefined

theorem integer_of_integer (n : Int) : integer exactCore (ofInteger n) = some n := by
  unfold ofInteger
  split
  · case isTrue small =>
      obtain ⟨above, below⟩ := small
      unfold smallIntMin at above
      unfold smallIntMax at below
      rw [integer, BitVec.toInt_ofInt, Int.bmod_eq_of_le (by omega) (by omega)]
  · rfl

theorem exact_core_value (object : Obj Int Unit Unit Unit) :
    exactCore.value object = integer exactCore object := by
  cases object <;> rfl

theorem exact_core_exact : Exact exactCore where
  arith := by
    intro op a b n m left right
    rw [← exact_core_value] at left right
    refine ⟨ofInteger (op.exact n m), ?_, integer_of_integer _⟩
    cases op <;>
      simp only [coreArith, exactCore, exactCore.withIntegers, left, right, ArithOp.exact]
  negate := by
    intro a n is
    rw [← exact_core_value] at is
    refine ⟨ofInteger (-n), ?_, integer_of_integer _⟩
    simp only [exactCore, exactCore.withIntegers, is]
  partialCompare := by
    intro a b n m left right
    rw [← exact_core_value] at left right
    simp only [exactCore, left, right]

/-- One more than the largest small integer is a large one. -/
theorem largest_small_plus_one :
    Yields exactCore
      (arith exactCore .gnu .add (.small (BitVec.ofInt 54 9007199254740991)) (.small 1#54))
      9007199254740992 :=
  (integer_opcodes_exact exactCore exact_core_exact .gnu
    (.small (BitVec.ofInt 54 9007199254740991)) (.small 1#54) 9007199254740991 1 rfl rfl).1 .add

end Claim

end ProtoScala.Runtime.IntegerArithmetic
