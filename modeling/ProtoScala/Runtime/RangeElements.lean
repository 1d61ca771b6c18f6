import Mathlib.Data.List.Basic
import Mathlib.Tactic.Linarith
import Mathlib.Tactic.Ring
import ProtoScala.Runtime.Values

/-!
# The elements of a Range

A Range never materialises: its size is a closed form over a signed step and two kinds of
bound. The index `i` stands for an element exactly below the size, and then the element is
between the bounds.
-/

namespace ProtoScala.Runtime.Values.Range

set_option autoImplicit false

/-- `RangeView::at`. -/
def elementAt (r : Range) (i : Int) : Int := r.start + i * r.step

/-- The integers that `toList` lists. -/
def integers (r : Range) : List Int := (List.range r.size).map fun i : Nat => r.elementAt i

variable (r : Range)

theorem stop_last : r.last = r.stop ∨ (0 < r.step ∧ r.last = r.stop - 1) ∨
    (r.step ≤ 0 ∧ r.last = r.stop + 1) := by
  unfold last
  split_ifs with inclusive positive
  · exact Or.inl rfl
  · exact Or.inr (Or.inl ⟨positive, rfl⟩)
  · exact Or.inr (Or.inr ⟨Int.not_lt.mp positive, rfl⟩)

theorem small_bounds : -9007199254740992 ≤ r.start ∧ r.start ≤ 9007199254740991 ∧
    -9007199254740992 ≤ r.stop ∧ r.stop ≤ 9007199254740991 ∧
    -9007199254740992 ≤ r.step ∧ r.step ≤ 9007199254740991 := by
  have start := r.smallStart
  have stop := r.smallStop
  have step := r.smallStep
  simp only [isSmallInt, decide_eq_true_eq] at start stop step
  exact ⟨start.1, start.2, stop.1, stop.2, step.1, step.2⟩

/-- An index is below the size exactly where its element is not past the last bound. -/
theorem lt_size_iff (i : Nat) :
    i < r.size ↔ (0 < r.step ∧ r.elementAt i ≤ r.last) ∨ (r.step < 0 ∧ r.last ≤ r.elementAt i) := by
  unfold size elementAt
  rcases Int.lt_trichotomy r.step 0 with down | flat | up
  · have noUp : ¬0 < r.step := by omega
    simp only [if_neg noUp]
    by_cases crossed : r.start < r.last
    · rw [if_pos (Or.inr crossed)]
      have below : (i : Int) * r.step ≤ 0 :=
        Int.mul_nonpos_of_nonneg_of_nonpos (Int.natCast_nonneg i) (Int.le_of_lt down)
      omega
    · have open_ : ¬(r.step = 0 ∨ r.start < r.last) := by omega
      rw [if_neg open_, ← Int.neg_tdiv_neg, Int.tdiv_eq_ediv_of_nonneg (by omega)]
      have fits := Int.le_ediv_iff_mul_le (a := (i : Int)) (b := -(r.last - r.start))
        (c := -r.step) (by omega)
      have nonneg : 0 ≤ -(r.last - r.start) / -r.step :=
        Int.ediv_nonneg (by omega) (by omega)
      rw [Int.mul_neg] at fits
      omega
  · rw [if_pos (Or.inl flat)]
    omega
  · simp only [if_pos up]
    by_cases crossed : r.last < r.start
    · rw [if_pos (Or.inr crossed)]
      have above : 0 ≤ (i : Int) * r.step :=
        Int.mul_nonneg (Int.natCast_nonneg i) (Int.le_of_lt up)
      omega
    · have open_ : ¬(r.step = 0 ∨ r.last < r.start) := by omega
      rw [if_neg open_, Int.tdiv_eq_ediv_of_nonneg (by omega)]
      have fits := Int.le_ediv_iff_mul_le (a := (i : Int)) (b := r.last - r.start)
        (c := r.step) up
      have nonneg : 0 ≤ (r.last - r.start) / r.step :=
        Int.ediv_nonneg (by omega) (by omega)
      omega

/-- An element, and its distance from the start, are between the bounds. -/
theorem element_bounds {i : Nat} (inside : i < r.size) :
    isSmallInt (r.elementAt i) = true ∧ -18014398509481984 ≤ i * r.step ∧
      i * r.step ≤ 18014398509481984 := by
  have bounds := r.small_bounds
  have last := r.stop_last
  simp only [isSmallInt, decide_eq_true_eq]
  rcases (r.lt_size_iff i).mp inside with ⟨up, before⟩ | ⟨down, before⟩
  · have above : 0 ≤ (i : Int) * r.step :=
      Int.mul_nonneg (Int.natCast_nonneg i) (Int.le_of_lt up)
    unfold elementAt at before ⊢
    omega
  · have below : (i : Int) * r.step ≤ 0 :=
      Int.mul_nonpos_of_nonneg_of_nonpos (Int.natCast_nonneg i) (Int.le_of_lt down)
    unfold elementAt at before ⊢
    omega

theorem mem_integers (n : Int) : n ∈ r.integers ↔ ∃ i : Nat, i < r.size ∧ n = r.elementAt i := by
  unfold integers
  rw [List.mem_map]
  constructor
  · rintro ⟨i, inside, rfl⟩
    exact ⟨i, List.mem_range.mp inside, rfl⟩
  · rintro ⟨i, inside, rfl⟩
    exact ⟨i, List.mem_range.mpr inside, rfl⟩

theorem integers_length : r.integers.length = r.size := by
  rw [integers, List.length_map, List.length_range]

theorem integers_get {i : Nat} (inside : i < r.integers.length) : r.integers[i] = r.elementAt i := by
  simp [integers]

theorem size_le : r.size ≤ 18014398509481984 := by
  by_contra more
  have bounds := r.small_bounds
  have last := r.stop_last
  rcases (r.lt_size_iff 18014398509481984).mp (by omega) with ⟨up, before⟩ | ⟨down, before⟩
  · unfold elementAt at before
    omega
  · unfold elementAt at before
    omega

/-- Membership: the distance from the start is a multiple of the step, below the size. -/
theorem mem_iff_multiple (n : Int) (some : r.size ≠ 0) :
    n ∈ r.integers ↔ (n - r.start).tmod r.step = 0 ∧ 0 ≤ (n - r.start).tdiv r.step ∧
      (n - r.start).tdiv r.step < r.size := by
  have moves : r.step ≠ 0 := by
    intro flat
    apply some
    unfold size
    rw [if_pos (Or.inl flat)]
  rw [mem_integers]
  constructor
  · rintro ⟨i, inside, rfl⟩
    have distance : r.elementAt i - r.start = i * r.step := by
      unfold elementAt
      omega
    rw [distance, Int.mul_tmod_left, Int.mul_tdiv_cancel _ moves]
    omega
  · rintro ⟨divides, nonneg, below⟩
    have whole := Int.mul_tdiv_cancel_of_tmod_eq_zero divides
    refine ⟨((n - r.start).tdiv r.step).toNat, by omega, ?_⟩
    unfold elementAt
    rw [Int.toNat_of_nonneg nonneg, Int.mul_comm]
    omega

/-- Twice the sum of an arithmetic progression. -/
theorem twice_sum (start step : Int) (n : Nat) :
    2 * ((List.range n).map fun i : Nat => start + i * step).sum =
      (start + (start + ((n : Int) - 1) * step)) * n := by
  induction n with
  | zero => simp
  | succ n ih =>
      rw [List.range_succ, List.map_append, List.sum_append, Int.mul_add, ih]
      simp only [List.map_cons, List.map_nil, List.sum_cons, List.sum_nil]
      push_cast
      ring

theorem closed_sum : ((r.start + r.elementAt (r.size - 1)) * r.size).tdiv 2 = r.integers.sum := by
  rw [elementAt]
  have twice := twice_sum r.start r.step r.size
  rw [← twice, Int.mul_tdiv_cancel_left _ (by decide)]
  rfl

/-- The Range from the last element back to the first. -/
def back (small : isSmallInt (-r.step) = true) (some : r.size ≠ 0) : Range where
  start := r.elementAt ((r.size : Int) - 1)
  stop := r.start
  step := -r.step
  inclusive := true
  smallStart := by
    have inside := (r.element_bounds (Nat.sub_one_lt some)).1
    rwa [Int.natCast_sub (Nat.one_le_iff_ne_zero.mpr some)] at inside
  smallStop := r.smallStart
  smallStep := small

theorem back_at (small : isSmallInt (-r.step) = true) (some : r.size ≠ 0) (i : Int) :
    (r.back small some).elementAt i = r.elementAt (r.size - 1 - i) := by
  simp only [elementAt, back]
  ring

theorem back_size (small : isSmallInt (-r.step) = true) (some : r.size ≠ 0) :
    (r.back small some).size = r.size := by
  have both (i : Nat) : i < (r.back small some).size ↔ i < r.size := by
    have last : (r.back small some).last = r.start := by
      simp [last, back]
    have step : (r.back small some).step = -r.step := rfl
    rw [lt_size_iff, back_at, last, step]
    rcases (r.lt_size_iff 0).mp (Nat.pos_of_ne_zero some) with ⟨up, -⟩ | ⟨down, -⟩
    · constructor
      · rintro (⟨wrong, -⟩ | ⟨-, after⟩)
        · omega
        · by_contra past
          unfold elementAt at after
          nlinarith
      · intro inside
        right
        unfold elementAt
        constructor
        · omega
        · nlinarith
    · constructor
      · rintro (⟨-, after⟩ | ⟨wrong, -⟩)
        · by_contra past
          unfold elementAt at after
          nlinarith
        · omega
      · intro inside
        left
        unfold elementAt
        constructor
        · omega
        · nlinarith
  have left := both (r.back small some).size
  have right := both r.size
  omega

theorem back_integers (small : isSmallInt (-r.step) = true) (some : r.size ≠ 0) :
    (r.back small some).integers = r.integers.reverse := by
  apply List.ext_getElem
  · rw [List.length_reverse, integers_length, integers_length, back_size]
  · intro i left right
    rw [integers_get, List.getElem_reverse, integers_get, back_at]
    rw [List.length_reverse, integers_length] at right
    rw [integers_length]
    congr 1
    omega

end ProtoScala.Runtime.Values.Range
