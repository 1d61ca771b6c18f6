import ProtoScala.Runtime.ValueFacts

/-!
# Equality of sequences

`valuesEqual` on Lists, Vectors and Ranges, where nothing is assumed of the other values
but what it does with two of them: an element may be an instance with an `equals` of its
own. Two ranges are compared by their size, start and step, every other pair of sequences
element by element, and a sequence equals itself without a look at its elements.

Equality is elementwise except that an object equals itself, and except for ranges of one
element, which are told apart by a step that is never taken.
-/

namespace ProtoScala.Runtime.SequenceEquality

open ProtoScala.Runtime.Values (Range isSmallInt)

set_option autoImplicit false

/-- A sequence, or a value that is none. A cell carries its address. -/
inductive Item (X : Type) where
  | plain (value : X)
  | list (ref : Nat) (elements : List (Item X))
  | vector (ref : Nat) (elements : List (Item X))
  | range (range : Range)

/-- The values that are no sequences; `equal` is `valuesEqual` of two of them. -/
structure Plain (X : Type) where
  ofInt : Int → X
  sameWord : X → X → Bool
  equal : X → X → Bool
  same_word_iff : ∀ x y, sameWord x y = true ↔ x = y
  equal_ints : ∀ m n, equal (ofInt m) (ofInt n) = decide (m = n)

inductive SeqView (X : Type) where
  | list (elements : List (Item X))
  | range (start step : Int) (size : Nat)

section Model

variable {X : Type} (P : Plain X)

mutual

/-- The two references are one word. -/
def sameWord : Item X → Item X → Bool
  | .plain x, .plain y => P.sameWord x y
  | .list ref es, .list ref' es' => ref == ref' && sameWords es es'
  | .vector ref es, .vector ref' es' => ref == ref' && sameWords es es'
  | .range r, .range r' => r == r'
  | _, _ => false

def sameWords : List (Item X) → List (Item X) → Bool
  | [], [] => true
  | x :: xs, y :: ys => sameWord x y && sameWords xs ys
  | _, _ => false

end

def seqViewOf : Item X → Option (SeqView X)
  | .list _ es => some (.list es)
  | .vector _ es => some (.list es)
  | .range r => some (.range r.start r.step r.size)
  | .plain _ => none

namespace SeqView

def size : SeqView X → Nat
  | list es => es.length
  | range _ _ size => size

/-- `seqElemAt`. -/
def elemAt : SeqView X → Nat → Item X
  | list es, i => es.getD i (.plain (P.ofInt 0))
  | range start step _, i => .plain (P.ofInt (start + i * step))

end SeqView

/-- `valuesEqual` of a value that is no sequence and any value. -/
def plainEqual (x : X) : Item X → Bool
  | .plain y => P.equal x y
  | _ => false

/-- The elements of a Range against those of another sequence. -/
def rangeEqual (start step : Int) (size : Nat) : SeqView X → Bool
  | .range start' step' size' =>
      size == size' && (size == 0 || (start == start' && step == step'))
  | .list es =>
      size == es.length &&
        (List.range size).all fun i => plainEqual P (P.ofInt (start + i * step))
          ((SeqView.list es).elemAt P i)

mutual

def valuesEqual : Item X → Item X → Bool
  | .plain x, b => plainEqual P x b
  | .list ref es, b =>
      sameWord P (.list ref es) b ||
        match seqViewOf b with
        | some sb => es.length == sb.size && elementsEqual es 0 sb
        | none => false
  | .vector ref es, b =>
      sameWord P (.vector ref es) b ||
        match seqViewOf b with
        | some sb => es.length == sb.size && elementsEqual es 0 sb
        | none => false
  | .range r, b =>
      sameWord P (.range r) b ||
        match seqViewOf b with
        | some sb => rangeEqual P r.start r.step r.size sb
        | none => false

/-- The loop over the elements of a List or a Vector from index `i` on. -/
def elementsEqual : List (Item X) → Nat → SeqView X → Bool
  | [], _, _ => true
  | x :: xs, i, sb => valuesEqual x (sb.elemAt P i) && elementsEqual xs (i + 1) sb

end

/-! ## What equality of sequences is for -/

/-- As many elements, and every one equal to its like. -/
def Elementwise (sa sb : SeqView X) : Prop :=
  sa.size = sb.size ∧
    ∀ i, i < sa.size → valuesEqual P (sa.elemAt P i) (sb.elemAt P i) = true

/-- Two ranges of the same single element with different steps. -/
def stepsApart : SeqView X → SeqView X → Bool
  | .range start step size, .range start' step' size' =>
      size == 1 && size' == 1 && start == start' && step != step'
  | _, _ => false

/-- A sequence of integers. -/
def Integers (sa : SeqView X) : Prop :=
  ∀ i, i < sa.size → ∃ n, sa.elemAt P i = .plain (P.ofInt n)

end Model

/-! ## Unfolding -/

section Facts

variable {X : Type} {P : Plain X}

mutual

theorem same_word_iff : ∀ a b : Item X, sameWord P a b = true ↔ a = b
  | .plain x, b => by cases b <;> simp [sameWord, P.same_word_iff]
  | .list _ es, b => by cases b <;> simp [sameWord, same_words_iff es]
  | .vector _ es, b => by cases b <;> simp [sameWord, same_words_iff es]
  | .range _, b => by cases b <;> simp [sameWord]

theorem same_words_iff : ∀ xs ys : List (Item X), sameWords P xs ys = true ↔ xs = ys
  | [], ys => by cases ys <;> simp [sameWords]
  | x :: xs, ys => by cases ys <;> simp [sameWords, same_word_iff x, same_words_iff xs]

end

theorem elements_equal_iff (es : List (Item X)) (i : Nat) (sb : SeqView X) :
    elementsEqual P es i sb = true ↔
      ∀ k, k < es.length →
        valuesEqual P ((SeqView.list es).elemAt P k) (sb.elemAt P (i + k)) = true := by
  induction es generalizing i with
  | nil => simp [elementsEqual]
  | cons x xs induction =>
      simp only [elementsEqual, Bool.and_eq_true, induction, List.length_cons]
      constructor
      · rintro ⟨first, others⟩ k inside
        cases k with
        | zero => simpa [SeqView.elemAt] using first
        | succ k =>
            have later := others k (by omega)
            simpa [SeqView.elemAt, Nat.add_assoc, Nat.add_comm 1 k] using later
      · intro all
        refine ⟨by simpa [SeqView.elemAt] using all 0 (by omega), ?_⟩
        intro k inside
        have later := all (k + 1) (by omega)
        simpa [SeqView.elemAt, Nat.add_assoc, Nat.add_comm 1 k] using later

theorem list_elements_equal_iff (es : List (Item X)) (sb : SeqView X) :
    (es.length == sb.size && elementsEqual P es 0 sb) = true ↔
      Elementwise P (.list es) sb := by
  simp only [Bool.and_eq_true, beq_iff_eq, elements_equal_iff, Nat.zero_add, Elementwise,
    SeqView.size]

/-- Two ranges of one size have the same elements when they have the same start and the
same step; of one element the step is not seen. -/
theorem ranges_equal_iff {start step start' step' : Int} {size size' : Nat} :
    Elementwise P (.range start step size) (.range start' step' size') ↔
      size = size' ∧ (size = 0 ∨ (start = start' ∧ (size = 1 ∨ step = step'))) := by
  simp only [Elementwise, SeqView.size, SeqView.elemAt, valuesEqual, plainEqual, P.equal_ints,
    decide_eq_true_eq]
  refine and_congr_right fun sizes => ?_
  constructor
  · intro same
    rcases Nat.eq_zero_or_pos size with empty | some'
    · exact Or.inl empty
    · have first : start = start' := by simpa using same 0 some'
      refine Or.inr ⟨first, ?_⟩
      rcases Nat.lt_or_ge 1 size with more | one
      · have second := same 1 more
        rw [first] at second
        exact Or.inr (by simpa using second)
      · exact Or.inl (by omega)
  · rintro (empty | ⟨rfl, one | rfl⟩) i inside
    · omega
    · obtain rfl : i = 0 := by omega
      simp
    · rfl

theorem range_equal_iff (start step : Int) (size : Nat) (sb : SeqView X)
    (together : stepsApart (.range start step size) sb = false) :
    rangeEqual P start step size sb = true ↔ Elementwise P (.range start step size) sb := by
  cases sb with
  | list es =>
      simp only [rangeEqual, Bool.and_eq_true, beq_iff_eq, List.all_eq_true, List.mem_range,
        Elementwise, SeqView.size]
      rfl
  | range start' step' size' =>
      rw [ranges_equal_iff]
      simp only [stepsApart, Bool.and_eq_false_iff, beq_eq_false_iff_ne, bne_eq_false_iff_eq]
        at together
      simp only [rangeEqual, Bool.and_eq_true, Bool.or_eq_true, beq_iff_eq]
      constructor
      · rintro ⟨rfl, empty | ⟨rfl, rfl⟩⟩
        · exact ⟨rfl, Or.inl empty⟩
        · exact ⟨rfl, Or.inr ⟨rfl, Or.inr rfl⟩⟩
      · rintro ⟨rfl, empty | ⟨rfl, one | rfl⟩⟩
        · exact ⟨rfl, Or.inl empty⟩
        · refine ⟨rfl, Or.inr ⟨rfl, ?_⟩⟩
          simpa [one] using together
        · exact ⟨rfl, Or.inr ⟨rfl, rfl⟩⟩

/-- Whatever the steps are, equal ranges have equal elements. -/
theorem range_equal_sound (start step : Int) (size : Nat) (sb : SeqView X)
    (equal : rangeEqual P start step size sb = true) :
    Elementwise P (.range start step size) sb := by
  cases together : stepsApart (.range start step size) sb with
  | false => exact (range_equal_iff start step size sb together).mp equal
  | true =>
      cases sb with
      | list es => simp [stepsApart] at together
      | range start' step' size' =>
          simp only [stepsApart, Bool.and_eq_true, beq_iff_eq, bne_iff_ne] at together
          simp [rangeEqual, together] at equal

/-! ## Elementwise equality -/

theorem values_equal_of_elementwise {a b : Item X} {sa sb : SeqView X}
    (first : seqViewOf a = some sa) (second : seqViewOf b = some sb)
    (together : stepsApart sa sb = false) :
    valuesEqual P a b = true ↔ a = b ∨ Elementwise P sa sb := by
  cases a with
  | plain x => cases first
  | list ref es =>
      cases first
      simp only [valuesEqual, second, Bool.or_eq_true, same_word_iff, list_elements_equal_iff]
  | vector ref es =>
      cases first
      simp only [valuesEqual, second, Bool.or_eq_true, same_word_iff, list_elements_equal_iff]
  | range r =>
      cases first
      simp only [valuesEqual, second, Bool.or_eq_true, same_word_iff,
        range_equal_iff r.start r.step r.size sb together]

theorem values_equal_sound {a b : Item X} {sa sb : SeqView X}
    (first : seqViewOf a = some sa) (second : seqViewOf b = some sb)
    (equal : valuesEqual P a b = true) : a = b ∨ Elementwise P sa sb := by
  cases a with
  | plain x => cases first
  | list ref es =>
      exact (values_equal_of_elementwise first second (by cases first; rfl)).mp equal
  | vector ref es =>
      exact (values_equal_of_elementwise first second (by cases first; rfl)).mp equal
  | range r =>
      cases first
      simp only [valuesEqual, second, Bool.or_eq_true, same_word_iff] at equal
      exact equal.imp_right (range_equal_sound r.start r.step r.size sb)

/-! ## Sequences of integers -/

theorem steps_apart_comm (sa sb : SeqView X) : stepsApart sa sb = stepsApart sb sa := by
  cases sa with
  | list es => cases sb <;> rfl
  | range start step size =>
      cases sb with
      | list es => rfl
      | range start' step' size' =>
          simp only [stepsApart]
          rw [Bool.and_comm (size == 1), BEq.comm (a := start), bne_comm (a := step)]

theorem ranges_of_steps_apart {a b : Item X} {sa sb : SeqView X}
    (first : seqViewOf a = some sa) (second : seqViewOf b = some sb)
    (apart : stepsApart sa sb = true) : ∃ r r', a = .range r ∧ b = .range r' := by
  cases a with
  | plain x => cases first
  | list ref es => cases first; cases apart
  | vector ref es => cases first; cases apart
  | range r =>
      cases first
      cases b with
      | plain x => cases second
      | list ref es => cases second; cases apart
      | vector ref es => cases second; cases apart
      | range r' => exact ⟨r, r', rfl, rfl⟩

theorem integers_equal {sa sb : SeqView X} (left : Integers P sa) (right : Integers P sb)
    {i : Nat} (inside : i < sa.size) (inside' : i < sb.size) :
    valuesEqual P (sa.elemAt P i) (sb.elemAt P i) = true ↔ sa.elemAt P i = sb.elemAt P i := by
  obtain ⟨n, first⟩ := left i inside
  obtain ⟨m, second⟩ := right i inside'
  rw [first, second]
  simp only [valuesEqual, plainEqual, P.equal_ints, decide_eq_true_eq, Item.plain.injEq]
  refine ⟨fun same => by rw [same], fun same => ?_⟩
  have equal := P.equal_ints n m
  rw [← same, P.equal_ints] at equal
  simpa using equal

/-- On sequences of integers elementwise equality is equality of the elements. -/
theorem elementwise_iff {sa sb : SeqView X} (left : Integers P sa) (right : Integers P sb) :
    Elementwise P sa sb ↔
      sa.size = sb.size ∧ ∀ i, i < sa.size → sa.elemAt P i = sb.elemAt P i := by
  refine and_congr_right fun sizes => forall₂_congr fun i inside => ?_
  exact integers_equal left right inside (sizes ▸ inside)

theorem integers_symm {a b : Item X} {sa sb : SeqView X} (first : seqViewOf a = some sa)
    (second : seqViewOf b = some sb) (left : Integers P sa) (right : Integers P sb)
    (equal : valuesEqual P a b = true) : valuesEqual P b a = true := by
  cases together : stepsApart sa sb with
  | false =>
      rw [values_equal_of_elementwise second first (steps_apart_comm sb sa ▸ together)]
      rcases values_equal_sound first second equal with same | elements
      · exact Or.inl same.symm
      · obtain ⟨sizes, elements⟩ := (elementwise_iff left right).mp elements
        refine Or.inr ((elementwise_iff right left).mpr ⟨sizes.symm, ?_⟩)
        intro i inside
        exact (elements i (sizes ▸ inside)).symm
  | true =>
      rcases values_equal_sound first second equal with rfl | elements
      · exact equal
      · obtain ⟨r, r', rfl, rfl⟩ := ranges_of_steps_apart first second together
        cases first
        cases second
        simp only [stepsApart, Bool.and_eq_true, beq_iff_eq, bne_iff_ne] at together
        have apart : r ≠ r' := fun same => together.2 (by rw [same])
        simp [valuesEqual, sameWord, seqViewOf, rangeEqual, together, apart] at equal

theorem integers_trans {a b c : Item X} {sa sb sc : SeqView X} (first : seqViewOf a = some sa)
    (second : seqViewOf b = some sb) (third : seqViewOf c = some sc) (left : Integers P sa)
    (middle : Integers P sb) (right : Integers P sc) (together : stepsApart sa sc = false)
    (equal : valuesEqual P a b = true) (equal' : valuesEqual P b c = true) :
    valuesEqual P a c = true := by
  rcases values_equal_sound first second equal with rfl | elements
  · exact equal'
  · rcases values_equal_sound second third equal' with rfl | elements'
    · exact equal
    · obtain ⟨sizes, same⟩ := (elementwise_iff left middle).mp elements
      obtain ⟨sizes', same'⟩ := (elementwise_iff middle right).mp elements'
      refine (values_equal_of_elementwise first third together).mpr (Or.inr ?_)
      refine (elementwise_iff left right).mpr ⟨sizes.trans sizes', ?_⟩
      intro i inside
      exact (same i inside).trans (same' i (sizes ▸ inside))

end Facts

/-! ## The values of the runtime -/

section Runtime

open ProtoScala.Runtime.Values (Value ClassTable seqEqual valuesEqualWithin)
open ProtoScala.Runtime.ValueFacts

variable (T : ClassTable)

theorem equal_ints (m n : Int) :
    Values.valuesEqual T (.int m) (.int n) = decide (m = n) := by
  rw [Bool.eq_iff_iff, decide_eq_true_iff]
  simp only [Values.valuesEqual, valuesEqualWithin, Value.isNumeric, Value.isNumberFast,
    Bool.true_or, Bool.and_self, if_true, numbers_equal_eq, Value.widenChar, Value.numeric,
    Hashing.Numeric.equivalent]
  constructor
  · intro same
    exact whole_injective (by simpa using same)
  · rintro rfl
    simp

/-- The values whose equality the runtime decides itself. -/
def plainValues : Plain Value where
  ofInt := .int
  sameWord := Value.sameWord
  equal := Values.valuesEqual T
  same_word_iff := ValueFacts.same_word_iff
  equal_ints := equal_ints T

mutual

def toItem : Value → Item Value
  | .list ref es => .list ref (toItems es)
  | .vector ref es => .vector ref (toItems es)
  | .range r => .range r
  | v => .plain v

def toItems : List Value → List (Item Value)
  | [] => []
  | v :: vs => toItem v :: toItems vs

end

def toView : Values.SeqView → SeqView Value
  | .list es => .list (toItems es)
  | .range start step size => .range start step size

theorem to_items_eq_map (vs : List Value) : toItems vs = vs.map toItem := by
  induction vs with
  | nil => rfl
  | cons v vs induction => simp [toItems, induction]

theorem to_view_size (view : Values.SeqView) : (toView view).size = view.size := by
  cases view with
  | list es => simp [toView, SeqView.size, Values.SeqView.size, to_items_eq_map]
  | range start step size => rfl

theorem to_view_elem {view : Values.SeqView} {i : Nat} (inside : i < view.size) :
    (toView view).elemAt (plainValues T) i = toItem (view.elemAt i) := by
  cases view with
  | list es =>
      have there : i < es.length := inside
      simp [toView, SeqView.elemAt, Values.SeqView.elemAt, to_items_eq_map, there]
  | range start step size => rfl

theorem seq_view_of_item (v : Value) :
    seqViewOf (toItem v) = (Values.seqViewOf v).map toView := by
  cases v <;> rfl

mutual

theorem to_item_injective : ∀ a b : Value, toItem a = toItem b → a = b
  | .list ref es, b => by
      cases b <;> simp [toItem]
      exact fun same others => ⟨same, to_items_injective es _ others⟩
  | .vector ref es, b => by
      cases b <;> simp [toItem]
      exact fun same others => ⟨same, to_items_injective es _ others⟩
  | .range _, b => by cases b <;> simp [toItem]
  | .null, b => by cases b <;> simp [toItem]
  | .unit, b => by cases b <;> simp [toItem]
  | .bool _, b => by cases b <;> simp [toItem]
  | .int _, b => by cases b <;> simp [toItem]
  | .double _, b => by cases b <;> simp [toItem]
  | .char _, b => by cases b <;> simp [toItem]
  | .string _, b => by cases b <;> simp [toItem]
  | .map _ _ _, b => by cases b <;> simp [toItem]
  | .set _ _, b => by cases b <;> simp [toItem]
  | .product _ _ _ _, b => by cases b <;> simp [toItem]

theorem to_items_injective : ∀ xs ys : List Value, toItems xs = toItems ys → xs = ys
  | [], ys => by cases ys <;> simp [toItems]
  | x :: xs, ys => by
      cases ys <;> simp [toItems]
      exact fun same others => ⟨to_item_injective x _ same, to_items_injective xs _ others⟩

end

theorem plain_equal_eq (a b : Value) (first : Values.seqViewOf a = none) :
    Values.valuesEqual T a b = valuesEqual (plainValues T) (toItem a) (toItem b) := by
  have alone : toItem a = .plain a := by
    cases a <;> first | rfl | cases first
  rw [alone, valuesEqual]
  cases second : Values.seqViewOf b with
  | none =>
      have alone' : toItem b = .plain b := by
        cases b <;> first | rfl | cases second
      rw [alone']
      rfl
  | some sb =>
      have kind := kind_of_seq second
      have differ : a.sameWord b = false := by
        rw [Bool.eq_false_iff, ne_eq, ValueFacts.same_word_iff]
        rintro rfl
        rw [first] at second
        cases second
      rw [Values.valuesEqual, valuesEqualWithin, not_numeric_of_kind kind (by decide),
        Bool.and_false, if_neg Bool.false_ne_true, differ, if_neg Bool.false_ne_true, first, second]
      cases b <;> first | rfl | cases second

theorem unlike_equal_eq (a b : Value) {sa : Values.SeqView} (first : Values.seqViewOf a = some sa)
    (second : Values.seqViewOf b = none) :
    Values.valuesEqual T a b = valuesEqual (plainValues T) (toItem a) (toItem b) := by
  have kind := kind_of_seq first
  have alone : toItem b = .plain b := by
    cases b <;> first | rfl | cases second
  have differ : a.sameWord b = false := by
    rw [Bool.eq_false_iff, ne_eq, ValueFacts.same_word_iff]
    rintro rfl
    rw [first] at second
    cases second
  rw [Values.valuesEqual, valuesEqualWithin, not_numeric_of_kind kind (by decide),
    Bool.false_and, if_neg Bool.false_ne_true, differ, if_neg Bool.false_ne_true, first, second,
    alone]
  cases a <;> first | rfl | cases first

theorem values_equal_seq {a b : Value} {sa sb : Values.SeqView}
    (first : Values.seqViewOf a = some sa) (second : Values.seqViewOf b = some sb) :
    Values.valuesEqual T a b = (a.sameWord b || seqEqual (Values.valuesEqual T) sa sb) := by
  have left := kind_of_seq first
  have unnumbered := not_numeric_of_kind left (by decide)
  rw [Values.valuesEqual, valuesEqualWithin, unnumbered, Bool.false_and,
    if_neg Bool.false_ne_true, first, second]
  have parts : seqEqual (valuesEqualWithin T (a.height + b.height)) sa sb =
      seqEqual (Values.valuesEqual T) sa sb := by
    apply seq_equal_congr
    intro i
    have below := height_elem first i
    have below' := height_elem second i
    exact enough_depth T (by omega) (by omega)
  cases a.sameWord b with
  | true => rfl
  | false => exact parts

theorem seq_equal_iff {equal : Value → Value → Bool} {sa sb : Values.SeqView}
    (looked : (∃ es, sa = .list es) ∨ ∃ es, sb = .list es) :
    seqEqual equal sa sb = true ↔
      sa.size = sb.size ∧ ∀ i, i < sa.size → equal (sa.elemAt i) (sb.elemAt i) = true := by
  unfold seqEqual
  by_cases sizes : sa.size = sb.size
  · rw [if_neg (not_not.mpr sizes)]
    rcases looked with ⟨es, rfl⟩ | ⟨es, rfl⟩
    · simp [sizes]
    · cases sa <;> simp [sizes]
  · simp [sizes]

/-- The elements agree, so the sequences do. -/
theorem elementwise_of_seq {sa sb : Values.SeqView}
    (agree : ∀ i, i < sa.size → Values.valuesEqual T (sa.elemAt i) (sb.elemAt i) =
      valuesEqual (plainValues T) (toItem (sa.elemAt i)) (toItem (sb.elemAt i))) :
    Elementwise (plainValues T) (toView sa) (toView sb) ↔
      sa.size = sb.size ∧
        ∀ i, i < sa.size → Values.valuesEqual T (sa.elemAt i) (sb.elemAt i) = true := by
  unfold Elementwise
  rw [to_view_size, to_view_size]
  refine and_congr_right fun sizes => forall₂_congr fun i inside => ?_
  rw [to_view_elem T inside, to_view_elem T (sizes ▸ inside), agree i inside]

theorem seq_equal_eq {a b : Value} {sa sb : Values.SeqView}
    (first : Values.seqViewOf a = some sa) (second : Values.seqViewOf b = some sb)
    (agree : ∀ i, i < sa.size → Values.valuesEqual T (sa.elemAt i) (sb.elemAt i) =
      valuesEqual (plainValues T) (toItem (sa.elemAt i)) (toItem (sb.elemAt i))) :
    Values.valuesEqual T a b = valuesEqual (plainValues T) (toItem a) (toItem b) := by
  have viewA : seqViewOf (toItem a) = some (toView sa) := by rw [seq_view_of_item, first]; rfl
  have viewB : seqViewOf (toItem b) = some (toView sb) := by rw [seq_view_of_item, second]; rfl
  have same : a.sameWord b = true ↔ toItem a = toItem b := by
    rw [ValueFacts.same_word_iff]
    exact ⟨fun equal => by rw [equal], to_item_injective a b⟩
  rw [values_equal_seq T first second, Bool.eq_iff_iff, Bool.or_eq_true, same]
  by_cases looked : (∃ es, sa = .list es) ∨ ∃ es, sb = .list es
  · have together : stepsApart (toView sa) (toView sb) = false := by
      rcases looked with ⟨es, rfl⟩ | ⟨es, rfl⟩
      · rfl
      · cases sa <;> rfl
    rw [values_equal_of_elementwise viewA viewB together, elementwise_of_seq T agree,
      seq_equal_iff looked]
  · cases sa with
    | list es => exact absurd (Or.inl ⟨es, rfl⟩) looked
    | range start step size =>
        cases sb with
        | list es => exact absurd (Or.inr ⟨es, rfl⟩) looked
        | range start' step' size' =>
            obtain ⟨r, rfl, ranged⟩ : ∃ r, a = .range r ∧
                Values.SeqView.range r.start r.step r.size = .range start step size := by
              cases a <;> cases first
              exact ⟨_, rfl, rfl⟩
            cases ranged
            simp only [toItem, valuesEqual, Bool.or_eq_true, same_word_iff, viewB, toView,
              rangeEqual, seqEqual, Values.SeqView.size]
            by_cases sizes : r.size = size' <;> simp [sizes]

/-- `valuesEqual` of the runtime's own values is this one. -/
theorem values_equal_eq (a b : Value) :
    Values.valuesEqual T a b = valuesEqual (plainValues T) (toItem a) (toItem b) := by
  induction deep : a.height using Nat.strong_induction_on generalizing a b with
  | h depth induction =>
      subst deep
      cases first : Values.seqViewOf a with
      | none => exact plain_equal_eq T a b first
      | some sa =>
          cases second : Values.seqViewOf b with
          | none => exact unlike_equal_eq T a b first second
          | some sb =>
              have agree : ∀ i, i < sa.size → Values.valuesEqual T (sa.elemAt i) (sb.elemAt i) =
                  valuesEqual (plainValues T) (toItem (sa.elemAt i)) (toItem (sb.elemAt i)) :=
                fun i _ => induction _ (height_elem first i) _ _ rfl
              exact seq_equal_eq T first second agree

end Runtime

/-! ## Three sequences -/

/-- Equality of three sequences: elementwise but for an object that is compared with
itself, and on integers an equivalence. Ranges of one element with different steps are
left out. -/
theorem sequences_equal_elementwise {X : Type} (P : Plain X) (a b c : Item X)
    (sa sb sc : SeqView X) (first : seqViewOf a = some sa) (second : seqViewOf b = some sb)
    (third : seqViewOf c = some sc) (together : stepsApart sa sb = false)
    (together' : stepsApart sa sc = false) :
    (valuesEqual P a b = true ↔ a = b ∨ Elementwise P sa sb) ∧
      (Integers P sa → Integers P sb → Integers P sc →
        valuesEqual P a a = true ∧ (valuesEqual P a b = true → valuesEqual P b a = true) ∧
          (valuesEqual P a b = true → valuesEqual P b c = true → valuesEqual P a c = true)) := by
  refine ⟨values_equal_of_elementwise first second together, ?_⟩
  intro left middle right
  refine ⟨?_, integers_symm first second left middle, ?_⟩
  · have alone : stepsApart sa sa = false := by cases sa <;> simp [stepsApart]
    exact (values_equal_of_elementwise first first alone).mpr (Or.inl rfl)
  · exact integers_trans first second third left middle right together'

/-- Integers and one more number, which equals nothing. -/
def optionalIntegers : Plain (Option Int) where
  ofInt := some
  sameWord x y := x == y
  equal
    | some m, some n => m == n
    | _, _ => false
  same_word_iff x y := by simp
  equal_ints m n := by
    rw [Bool.eq_iff_iff, beq_iff_eq, decide_eq_true_iff]

/-- 1 to 2 in three kinds of sequences. -/
def oneTwoList : Item (Option Int) := .list 0 [.plain (some 1), .plain (some 2)]

def oneTwoVector : Item (Option Int) := .vector 1 [.plain (some 1), .plain (some 2)]

def oneTwoRange : Item (Option Int) :=
  .range ⟨1, 3, 1, false, by decide, by decide, by decide⟩

theorem one_two_integers : Integers optionalIntegers (.list [.plain (some 1), .plain (some 2)]) := by
  intro i inside
  obtain rfl | rfl : i = 0 ∨ i = 1 := by
    simp only [SeqView.size, List.length_cons, List.length_nil] at inside
    omega
  · exact ⟨1, rfl⟩
  · exact ⟨2, rfl⟩

theorem one_two_range_integers : Integers optionalIntegers (.range 1 1 2) :=
  fun i _ => ⟨1 + i * 1, rfl⟩

theorem three_kinds_equal :
    (valuesEqual optionalIntegers oneTwoList oneTwoVector = true →
      valuesEqual optionalIntegers oneTwoVector oneTwoRange = true →
      valuesEqual optionalIntegers oneTwoList oneTwoRange = true) ∧
    valuesEqual optionalIntegers oneTwoList oneTwoVector = true ∧
      valuesEqual optionalIntegers oneTwoVector oneTwoRange = true :=
  ⟨((sequences_equal_elementwise optionalIntegers oneTwoList oneTwoVector oneTwoRange
      (.list [.plain (some 1), .plain (some 2)]) (.list [.plain (some 1), .plain (some 2)])
      (.range 1 1 2) rfl rfl rfl rfl rfl).2
      one_two_integers one_two_integers one_two_range_integers).2.2,
    by decide, by decide⟩

/-- A list of a number that does not equal itself equals itself. -/
theorem list_of_nan_equals_itself :
    valuesEqual optionalIntegers (.list 0 [.plain none]) (.list 0 [.plain none]) = true ∧
      ¬Elementwise optionalIntegers (.list [.plain none]) (.list [.plain none]) := by
  refine ⟨by decide, ?_⟩
  rintro ⟨-, elements⟩
  exact absurd (elements 0 (by decide)) (by decide)

end ProtoScala.Runtime.SequenceEquality
