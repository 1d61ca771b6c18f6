import ProtoScala.Library.Matching
import ProtoScala.Runtime.ValueFacts

/-!
# Equality and hash

`Same` says what `==` is for: numbers are compared by value, sequences element by
element, instances field by field, maps and sets by a matching of their entries.
`Alike` is the part of it that the representations do not get in the way of: no
large integer meets a double, and no two one-element ranges meet with different
steps. On alike values `valuesEqual` and `scalaHash` agree.
-/

namespace ProtoScala.Runtime.ValueEquality

open ProtoScala.Library.Matching
open ProtoScala.Runtime.Hashing
open ProtoScala.Runtime.Values
open ProtoScala.Runtime.Values.Value
open ProtoScala.Runtime.ValueFacts

set_option autoImplicit false

def NumbersSame (strict : Bool) (a b : Value) : Prop :=
  a.isNumeric = true ∧ b.isNumeric = true ∧
    a.widenChar.numeric.equivalent b.widenChar.numeric = true ∧
    (strict = true → largeWithDouble a b = false)

/-- Two ranges of one element that `valuesEqual` tells apart by their steps. -/
def stepsDiffer : SeqView → SeqView → Bool
  | .range _ step size, .range _ step' _ => size == 1 && step != step'
  | _, _ => false

def SeqsSame (strict : Bool) (R : Value → Value → Prop) (a b : Value) : Prop :=
  ∃ sa sb, seqViewOf a = some sa ∧ seqViewOf b = some sb ∧ sa.size = sb.size ∧
    (∀ i, i < sa.size → R (sa.elemAt i) (sb.elemAt i)) ∧
    (strict = true → stepsDiffer sa sb = false)

def InstancesSame (T : ClassTable) (R : Value → Value → Prop) (a b : Value) : Prop :=
  ∃ x y cls fields, instanceOf a = some x ∧ instanceOf b = some y ∧
    T.caseClassOf x.cls = some cls ∧ T.caseClassOf y.cls = some cls ∧
    T.fieldsOf x.cls = some fields ∧ ∀ key ∈ fields, R (x.element key) (y.element key)

def EntriesSame (isSet : Bool) (R : Value → Value → Prop) (x y : Value × Value) : Prop :=
  R x.1 y.1 ∧ (isSet = true ∨ R x.2 y.2)

def KeyedSame (R : Value → Value → Prop) (a b : Value) : Prop :=
  ∃ da db, keyedData a = some da ∧ keyedData b = some db ∧ da.isSet = db.isSet ∧
    Multiset.Rel (EntriesSame da.isSet R) (da.entries : Multiset (Value × Value))
      (db.entries : Multiset (Value × Value))

/-- Values that are the same, down to a depth; `strict` keeps the representations
apart that their hashes or steps keep apart. -/
def SameWithin (T : ClassTable) (strict : Bool) : Nat → Value → Value → Prop
  | 0, _, _ => False
  | depth + 1, a, b =>
      NumbersSame strict a b ∨ (a.isNumeric = false ∧ a = b) ∨
        SeqsSame strict (SameWithin T strict depth) a b ∨
        InstancesSame T (SameWithin T strict depth) a b ∨
        KeyedSame (SameWithin T strict depth) a b

/-- The two are one value to a Scala program. -/
def Same (T : ClassTable) (a b : Value) : Prop :=
  ∃ depth, SameWithin T false depth a b

/-- They are, and nowhere in them does a large integer meet a double or a
one-element range one of another step. -/
def Alike (T : ClassTable) (a b : Value) : Prop :=
  ∃ depth, SameWithin T true depth a b

/-- The values a cell holds. -/
def parts : Value → List Value
  | .list _ es | .vector _ es | .set _ es | .product _ _ _ es => es
  | .map _ ks vs => ks ++ vs
  | _ => []

inductive Inside : Value → Value → Prop
  | whole (v : Value) : Inside v v
  | part {u w v : Value} : w ∈ parts v → Inside u w → Inside u v

/-- No map or set within a value holds one key twice. -/
def KeysApart (T : ClassTable) (v : Value) : Prop :=
  ∀ u, Inside u v → ∀ data, keyedData u = some data →
    data.entries.Pairwise fun x y => ¬ Same T x.1 y.1

section Relation

variable {T : ClassTable} {strict : Bool} {R R' : Value → Value → Prop}

theorem seqs_same_mono {a b : Value} (same : SeqsSame strict R a b)
    (weaker : ∀ view view' i, seqViewOf a = some view → seqViewOf b = some view' →
      R (view.elemAt i) (view'.elemAt i) → R' (view.elemAt i) (view'.elemAt i)) :
    SeqsSame strict R' a b := by
  obtain ⟨sa, sb, first, second, sizes, elements, unsplit⟩ := same
  refine ⟨sa, sb, first, second, sizes, ?_, unsplit⟩
  intro i inside
  exact weaker sa sb i first second (elements i inside)

theorem instances_same_mono {a b : Value} (same : InstancesSame T R a b)
    (weaker : ∀ x y key, instanceOf a = some x → instanceOf b = some y →
      R (x.element key) (y.element key) → R' (x.element key) (y.element key)) :
    InstancesSame T R' a b := by
  obtain ⟨x, y, cls, fields, first, second, caseX, caseY, listed, elements⟩ := same
  refine ⟨x, y, cls, fields, first, second, caseX, caseY, listed, ?_⟩
  intro key member
  exact weaker x y key first second (elements key member)

theorem keyed_same_mono {a b : Value} (same : KeyedSame R a b)
    (weaker : ∀ da db, keyedData a = some da → keyedData b = some db →
      ∀ x ∈ da.entries, ∀ y ∈ db.entries, (R x.1 y.1 → R' x.1 y.1) ∧ (R x.2 y.2 → R' x.2 y.2)) :
    KeyedSame R' a b := by
  obtain ⟨da, db, first, second, kinds, matched⟩ := same
  refine ⟨da, db, first, second, kinds, ?_⟩
  apply matched.mono
  intro x member y there related
  obtain ⟨keys, values⟩ := weaker da db first second x member y there
  exact ⟨keys related.1, related.2.imp_right values⟩

theorem same_of_seqs {depth : Nat} {a b : Value}
    (same : SeqsSame strict (SameWithin T strict depth) a b) :
    SameWithin T strict (depth + 1) a b :=
  Or.inr (Or.inr (Or.inl same))

theorem same_of_instances {depth : Nat} {a b : Value}
    (same : InstancesSame T (SameWithin T strict depth) a b) :
    SameWithin T strict (depth + 1) a b :=
  Or.inr (Or.inr (Or.inr (Or.inl same)))

theorem same_of_keyeds {depth : Nat} {a b : Value}
    (same : KeyedSame (SameWithin T strict depth) a b) : SameWithin T strict (depth + 1) a b :=
  Or.inr (Or.inr (Or.inr (Or.inr same)))

theorem same_within_mono {depth depth' : Nat} {a b : Value} (more : depth ≤ depth')
    (same : SameWithin T strict depth a b) : SameWithin T strict depth' a b := by
  induction depth generalizing depth' a b with
  | zero => exact same.elim
  | succ depth induction =>
      obtain ⟨below, rfl⟩ : ∃ below, depth' = below + 1 := ⟨depth' - 1, by omega⟩
      have deeper : ∀ {x y : Value}, SameWithin T strict depth x y → SameWithin T strict below x y :=
        fun before => induction (by omega) before
      rcases same with numbers | equal | seqs | instances | keyed
      · exact Or.inl numbers
      · exact Or.inr (Or.inl equal)
      · exact same_of_seqs (seqs_same_mono seqs fun _ _ _ _ _ => deeper)
      · exact same_of_instances (instances_same_mono instances fun _ _ _ _ _ => deeper)
      · exact same_of_keyeds (keyed_same_mono keyed fun _ _ _ _ _ _ _ _ => ⟨deeper, deeper⟩)

/-- The depth of the first value is enough. -/
theorem same_within_height {depth : Nat} {a b : Value} (same : SameWithin T strict depth a b) :
    SameWithin T strict (a.height + 1) a b := by
  induction depth generalizing a b with
  | zero => exact same.elim
  | succ depth induction =>
      have part : ∀ {x y : Value}, x.height < a.height → SameWithin T strict depth x y →
          SameWithin T strict a.height x y :=
        fun less before => same_within_mono (by omega) (induction before)
      rcases same with numbers | equal | seqs | instances | keyed
      · exact Or.inl numbers
      · exact Or.inr (Or.inl equal)
      · apply same_of_seqs
        apply seqs_same_mono seqs
        intro view view' i first _
        exact part (height_elem first i)
      · apply same_of_instances
        apply instances_same_mono instances
        intro x y key first _
        exact part (height_element first key)
      · apply same_of_keyeds
        apply keyed_same_mono keyed
        intro da db first _ x member y _
        have less := height_entry first member
        exact ⟨part less.1, part less.2⟩

theorem steps_differ_comm {sa sb : SeqView} (sizes : sa.size = sb.size) :
    stepsDiffer sa sb = stepsDiffer sb sa := by
  cases sa <;> cases sb <;> simp_all [stepsDiffer, SeqView.size, bne_comm]

theorem same_within_symm {depth : Nat} {a b : Value} (same : SameWithin T strict depth a b) :
    SameWithin T strict depth b a := by
  induction depth generalizing a b with
  | zero => exact same.elim
  | succ depth induction =>
      rcases same with numbers | equal | seqs | instances | keyed
      · obtain ⟨numberA, numberB, value, unsplit⟩ := numbers
        refine Or.inl ⟨numberB, numberA, equivalent_symm value, ?_⟩
        rw [large_with_double_comm]
        exact unsplit
      · rw [← equal.2]
        exact Or.inr (Or.inl ⟨equal.1, rfl⟩)
      · obtain ⟨sa, sb, first, second, sizes, elements, unsplit⟩ := seqs
        refine same_of_seqs ⟨sb, sa, second, first, sizes.symm, ?_, ?_⟩
        · intro i inside
          exact induction (elements i (by omega))
        · rw [← steps_differ_comm sizes]
          exact unsplit
      · obtain ⟨x, y, cls, fields, first, second, caseX, caseY, listed, elements⟩ := instances
        refine same_of_instances ⟨y, x, cls, fields, second, first, caseY, caseX, ?_,
          fun key member => induction (elements key member)⟩
        rw [← (same_case_class T caseX caseY).1]
        exact listed
      · obtain ⟨da, db, first, second, kinds, matched⟩ := keyed
        refine same_of_keyeds ⟨db, da, second, first, kinds.symm, ?_⟩
        rw [← kinds]
        apply Multiset.rel_flip.mp
        apply matched.mono
        intro x _ y _ related
        exact ⟨induction related.1, related.2.imp_right induction⟩

theorem kind_of_numbers {a b : Value} (same : NumbersSame strict a b) :
    kindOf a = .number ∧ kindOf b = .number :=
  ⟨kind_of_numeric.mp same.1, kind_of_numeric.mp same.2.1⟩

theorem kind_of_seqs {a b : Value} (same : SeqsSame strict R a b) :
    kindOf a = .sequence ∧ kindOf b = .sequence := by
  obtain ⟨sa, sb, first, second, -⟩ := same
  exact ⟨kind_of_seq first, kind_of_seq second⟩

theorem kind_of_instances {a b : Value} (same : InstancesSame T R a b) :
    kindOf a = .product ∧ kindOf b = .product := by
  obtain ⟨x, y, cls, fields, first, second, -⟩ := same
  exact ⟨kind_of_instance first, kind_of_instance second⟩

theorem kind_of_keyeds {a b : Value} (same : KeyedSame R a b) :
    kindOf a = .keyed ∧ kindOf b = .keyed := by
  obtain ⟨da, db, first, second, -⟩ := same
  exact ⟨kind_of_keyed first, kind_of_keyed second⟩

theorem seqs_same_trans {a b c : Value}
    (transitive : ∀ {x y z : Value}, R x y → R y z → R x z) (first : SeqsSame false R a b)
    (second : SeqsSame false R b c) : SeqsSame false R a c := by
  obtain ⟨sa, sb, viewA, viewB, sizes, elements, -⟩ := first
  obtain ⟨sb', sc, viewB', viewC, sizes', elements', -⟩ := second
  obtain rfl : sb = sb' := Option.some.inj (viewB.symm.trans viewB')
  refine ⟨sa, sc, viewA, viewC, sizes.trans sizes', ?_, by simp⟩
  intro i inside
  exact transitive (elements i inside) (elements' i (by omega))

theorem instances_same_trans {a b c : Value}
    (transitive : ∀ {x y z : Value}, R x y → R y z → R x z) (first : InstancesSame T R a b)
    (second : InstancesSame T R b c) : InstancesSame T R a c := by
  obtain ⟨x, y, cls, fields, foundX, foundY, caseX, caseY, listed, elements⟩ := first
  obtain ⟨y', z, cls', fields', foundY', foundZ, caseY', caseZ, listed', elements'⟩ := second
  obtain rfl : y = y' := Option.some.inj (foundY.symm.trans foundY')
  obtain rfl : cls = cls' := Option.some.inj (caseY.symm.trans caseY')
  rw [← (same_case_class T caseX caseY).1] at listed'
  obtain rfl : fields = fields' := Option.some.inj (listed.symm.trans listed')
  refine ⟨x, z, cls, fields, foundX, foundZ, caseX, caseZ, listed, ?_⟩
  intro key member
  exact transitive (elements key member) (elements' key member)

theorem keyed_same_trans {a b c : Value}
    (transitive : ∀ {x y z : Value}, R x y → R y z → R x z) (first : KeyedSame R a b)
    (second : KeyedSame R b c) : KeyedSame R a c := by
  obtain ⟨da, db, foundA, foundB, kinds, matched⟩ := first
  obtain ⟨db', dc, foundB', foundC, kinds', matched'⟩ := second
  obtain rfl : db = db' := Option.some.inj (foundB.symm.trans foundB')
  refine ⟨da, dc, foundA, foundC, kinds.trans kinds', ?_⟩
  rw [← kinds] at matched'
  have entrywise : IsTrans (Value × Value) (EntriesSame da.isSet R) := by
    constructor
    intro x y z left right
    refine ⟨transitive left.1 right.1, ?_⟩
    rcases left.2 with isSet | values
    · exact Or.inl isSet
    · exact right.2.imp_right (transitive values)
  exact Multiset.Rel.trans _ matched matched'

theorem same_within_trans {depth : Nat} {a b c : Value} (first : SameWithin T false depth a b)
    (second : SameWithin T false depth b c) : SameWithin T false depth a c := by
  induction depth generalizing a b c with
  | zero => exact first.elim
  | succ depth induction =>
      rcases second with numbers' | equal' | seqs' | instances' | keyed'
      · have kind := (kind_of_numbers numbers').1
        rcases first with numbers | equal | seqs | instances | keyed
        · exact Or.inl ⟨numbers.1, numbers'.2.1, equivalent_trans numbers.2.2.1 numbers'.2.2.1,
            by simp⟩
        · rw [equal.2]
          exact Or.inl numbers'
        · exact absurd ((kind_of_seqs seqs).2.symm.trans kind) (by decide)
        · exact absurd ((kind_of_instances instances).2.symm.trans kind) (by decide)
        · exact absurd ((kind_of_keyeds keyed).2.symm.trans kind) (by decide)
      · rw [← equal'.2]
        exact first
      · have kind := (kind_of_seqs seqs').1
        rcases first with numbers | equal | seqs | instances | keyed
        · exact absurd ((kind_of_numbers numbers).2.symm.trans kind) (by decide)
        · rw [equal.2]
          exact same_of_seqs seqs'
        · exact same_of_seqs (seqs_same_trans induction seqs seqs')
        · exact absurd ((kind_of_instances instances).2.symm.trans kind) (by decide)
        · exact absurd ((kind_of_keyeds keyed).2.symm.trans kind) (by decide)
      · have kind := (kind_of_instances instances').1
        rcases first with numbers | equal | seqs | instances | keyed
        · exact absurd ((kind_of_numbers numbers).2.symm.trans kind) (by decide)
        · rw [equal.2]
          exact same_of_instances instances'
        · exact absurd ((kind_of_seqs seqs).2.symm.trans kind) (by decide)
        · exact same_of_instances (instances_same_trans induction instances instances')
        · exact absurd ((kind_of_keyeds keyed).2.symm.trans kind) (by decide)
      · have kind := (kind_of_keyeds keyed').1
        rcases first with numbers | equal | seqs | instances | keyed
        · exact absurd ((kind_of_numbers numbers).2.symm.trans kind) (by decide)
        · rw [equal.2]
          exact same_of_keyeds keyed'
        · exact absurd ((kind_of_seqs seqs).2.symm.trans kind) (by decide)
        · exact absurd ((kind_of_instances instances).2.symm.trans kind) (by decide)
        · exact same_of_keyeds (keyed_same_trans induction keyed keyed')

theorem same_symm {a b : Value} (same : Same T a b) : Same T b a := by
  obtain ⟨depth, within⟩ := same
  exact ⟨depth, same_within_symm within⟩

theorem same_trans {a b c : Value} (first : Same T a b) (second : Same T b c) : Same T a c := by
  obtain ⟨depth, within⟩ := first
  obtain ⟨depth', within'⟩ := second
  exact ⟨max depth depth', same_within_trans (same_within_mono (le_max_left _ _) within)
    (same_within_mono (le_max_right _ _) within')⟩

end Relation

section Parts

variable {T : ClassTable}

theorem keys_apart_part {v w : Value} (apart : KeysApart T v) (member : w ∈ parts v) :
    KeysApart T w :=
  fun u inside => apart u (Inside.part member inside)

/-- A value that holds no others and is no map or set has no keys. -/
theorem keys_apart_leaf {v : Value} (leaf : parts v = []) (unkeyed : keyedData v = none) :
    KeysApart T v := by
  intro u inside data found
  cases inside with
  | whole =>
      rw [unkeyed] at found
      contradiction
  | part member _ =>
      rw [leaf] at member
      exact absurd member List.not_mem_nil

theorem keys_apart_elem {v : Value} (apart : KeysApart T v) {view : SeqView}
    (found : seqViewOf v = some view) (i : Nat) : KeysApart T (view.elemAt i) := by
  have listed : ∀ es : List Value, parts v = es → KeysApart T (es.getD i .null) := by
    intro es held
    rcases getD_mem es i with inside | missing
    · apply keys_apart_part apart
      rw [held]
      exact inside
    · rw [missing]
      exact keys_apart_leaf rfl rfl
  cases v with
  | list ref es =>
      obtain rfl := Option.some.inj found
      exact listed es rfl
  | vector ref es =>
      obtain rfl := Option.some.inj found
      exact listed es rfl
  | range r =>
      obtain rfl := Option.some.inj found
      exact keys_apart_leaf rfl rfl
  | _ => simp [seqViewOf] at found

theorem keys_apart_element {v : Value} (apart : KeysApart T v) {x : Instance}
    (found : instanceOf v = some x) (key : Symbol) : KeysApart T (x.element key) := by
  cases v with
  | product ref cls names es =>
      obtain rfl := Option.some.inj found
      rcases element_mem ⟨cls, names, es⟩ key with inside | missing
      · exact keys_apart_part apart inside
      · rw [missing]
        exact keys_apart_leaf rfl rfl
  | _ => simp [instanceOf] at found

theorem keys_apart_entry {v : Value} (apart : KeysApart T v) {data : Keyed}
    (found : keyedData v = some data) {entry : Value × Value} (member : entry ∈ data.entries) :
    KeysApart T entry.1 ∧ KeysApart T entry.2 := by
  cases v with
  | map ref ks vs =>
      obtain rfl := Option.some.inj found
      obtain ⟨key, value⟩ := List.of_mem_zip member
      exact ⟨keys_apart_part apart (List.mem_append_left vs key),
        keys_apart_part apart (List.mem_append_right ks value)⟩
  | set ref es =>
      obtain rfl := Option.some.inj found
      obtain ⟨key, value⟩ := List.of_mem_zip member
      exact ⟨keys_apart_part apart key, keys_apart_part apart value⟩
  | _ => simp [keyedData] at found

theorem keys_apart_here {v : Value} (apart : KeysApart T v) {data : Keyed}
    (found : keyedData v = some data) :
    data.entries.Pairwise fun x y => ¬ Same T x.1 y.1 :=
  apart v (Inside.whole v) data found

end Parts

section Soundness

variable {T : ClassTable}

theorem identity_key_same {strict : Bool} {depth : Nat} {a b : Value}
    (identity : scalaIsIdentityKey a = true) (same : SameWithin T strict depth a b) : a = b := by
  have kind : kindOf a = .other := by
    cases a <;> simp_all [scalaIsIdentityKey, kindOf]
  cases depth with
  | zero => exact same.elim
  | succ depth =>
      rcases same with numbers | equal | seqs | instances | keyed
      · exact absurd ((kind_of_numbers numbers).1.symm.trans kind) (by decide)
      · exact equal.2
      · exact absurd ((kind_of_seqs seqs).1.symm.trans kind) (by decide)
      · exact absurd ((kind_of_instances instances).1.symm.trans kind) (by decide)
      · exact absurd ((kind_of_keyeds keyed).1.symm.trans kind) (by decide)

theorem identity_key_not_numeric {a : Value} (identity : scalaIsIdentityKey a = true) :
    a.isNumeric = false := by
  cases a <;> simp_all [scalaIsIdentityKey, isNumeric, isNumberFast, isCharFast]

theorem seq_equal_sound {equal : Value → Value → Bool} {R : Value → Value → Prop}
    {sa sb : SeqView} (holds : seqEqual equal sa sb = true)
    (element : ∀ i, i < sa.size → equal (sa.elemAt i) (sb.elemAt i) = true →
      R (sa.elemAt i) (sb.elemAt i))
    (reflexive : ∀ n : Int, R (.int n) (.int n)) :
    sa.size = sb.size ∧ ∀ i, i < sa.size → R (sa.elemAt i) (sb.elemAt i) := by
  unfold seqEqual at holds
  split at holds
  · contradiction
  · next sizes =>
      refine ⟨not_not.mp sizes, ?_⟩
      intro i inside
      split at holds
      · next start step size start' step' size' =>
          simp only [Bool.or_eq_true, beq_iff_eq, Bool.and_eq_true] at holds
          rcases holds with empty | ⟨starts, steps⟩
          · simp only [SeqView.size] at inside
            omega
          · simp only [SeqView.elemAt, starts, steps]
            exact reflexive _
      · rw [List.all_eq_true] at holds
        exact element i inside (holds i (List.mem_range.mpr inside))

theorem product_equals_sound {equal : Value → Value → Bool} {x y : Instance}
    (holds : productEquals T equal x y = true) :
    ∃ cls fields, T.caseClassOf x.cls = some cls ∧ T.caseClassOf y.cls = some cls ∧
      T.fieldsOf x.cls = some fields ∧
      ∀ key ∈ fields, equal (x.element key) (y.element key) = true := by
  unfold productEquals at holds
  split at holds
  · next cls fields caseX listed =>
      simp only [Bool.and_eq_true, List.all_eq_true] at holds
      obtain ⟨⟨there, agrees⟩, elements⟩ := holds
      unfold ClassTable.canEqual at agrees
      split at agrees
      · next cls' caseY =>
          have same := one_case_class T caseX caseY there agrees
          rw [← same] at caseY
          exact ⟨cls, fields, caseX, caseY, listed, elements⟩
      · contradiction
  · contradiction

/-- An entry answers a lookup by being the key or by being equal to it. -/
theorem answers_cases {equal : Value → Value → Bool} {key : Value} {entry : Value × Value}
    (answers : answersTo T equal key entry = true) :
    (key.isNumeric = false ∧ key = entry.1) ∨ equal entry.1 key = true := by
  unfold answersTo at answers
  split at answers
  · next identity =>
      rw [Bool.and_eq_true, same_word_iff] at answers
      exact Or.inl ⟨identity_key_not_numeric identity, answers.2.symm⟩
  · simp only [Bool.and_eq_true] at answers
    exact Or.inr answers.2

theorem keyed_equal_sound {depth : Nat} {equal : Value → Value → Bool} {da db : Keyed}
    (holds : keyedEqual T equal da db = true)
    (apart : da.entries.Pairwise fun x y => ¬ Same T x.1 y.1)
    (sound : ∀ x ∈ da.entries, ∀ y ∈ db.entries,
      (equal y.1 x.1 = true → SameWithin T false (depth + 1) y.1 x.1) ∧
        (equal x.2 y.2 = true → SameWithin T false (depth + 1) x.2 y.2)) :
    da.isSet = db.isSet ∧
      Multiset.Rel (EntriesSame da.isSet (SameWithin T false (depth + 1)))
        (da.entries : Multiset (Value × Value)) (db.entries : Multiset (Value × Value)) := by
  unfold keyedEqual at holds
  split at holds
  · contradiction
  · next kinds =>
      split at holds
      · contradiction
      · next sizes =>
          rw [List.all_eq_true] at holds
          refine ⟨not_not.mp kinds, ?_⟩
          apply rel_of_partners (not_not.mp sizes)
          · intro x member
            have visited := holds x member
            unfold eqVisit at visited
            split at visited
            · contradiction
            · next w found =>
                obtain ⟨y, there, rfl, answers⟩ := hashed_get_some T found
                refine ⟨y, there, ?_, ?_⟩
                · rcases answers_cases answers with identical | equals
                  · exact Or.inr (Or.inl identical)
                  · exact same_within_symm ((sound x member y there).1 equals)
                · rcases Bool.or_eq_true _ _ ▸ visited with isSet | values
                  · exact Or.inl isSet
                  · exact Or.inr ((sound x member y there).2 values)
          · apply apart.imp
            intro x x' different y first second
            exact different ⟨depth + 1, same_within_trans first.1 (same_within_symm second.1)⟩

/-- Where no key occurs twice, `valuesEqual` holds of the same values only. -/
theorem values_equal_sound {depth : Nat} {a b : Value} (apartA : KeysApart T a)
    (apartB : KeysApart T b) (holds : valuesEqualWithin T depth a b = true) :
    SameWithin T false (depth + 1) a b := by
  induction depth generalizing a b with
  | zero => simp [valuesEqualWithin] at holds
  | succ depth induction =>
      simp only [valuesEqualWithin] at holds
      split at holds
      · next numeric =>
          rw [Bool.and_eq_true] at numeric
          rw [numbers_equal_eq] at holds
          exact Or.inl ⟨numeric.1, numeric.2, holds, by simp⟩
      · next mixed =>
          split at holds
          · next word =>
              rw [same_word_iff] at word
              refine Or.inr (Or.inl ⟨?_, word⟩)
              rw [← word, Bool.and_self] at mixed
              simpa using mixed
          · split at holds
            · next sa sb viewA viewB =>
                have parts := seq_equal_sound holds
                  (fun i _ => induction (keys_apart_elem apartA viewA i)
                    (keys_apart_elem apartB viewB i))
                  (fun n => Or.inl ⟨rfl, rfl, by simp [widenChar, numeric, Numeric.equivalent],
                    by simp⟩)
                exact same_of_seqs ⟨sa, sb, viewA, viewB, parts.1, parts.2, by simp⟩
            · unfold instanceEquals at holds
              split at holds
              · next x y foundX foundY =>
                  obtain ⟨cls, fields, caseX, caseY, listed, elements⟩ :=
                    product_equals_sound holds
                  refine same_of_instances ⟨x, y, cls, fields, foundX, foundY, caseX,
                    caseY, listed, ?_⟩
                  intro key member
                  exact induction (keys_apart_element apartA foundX key)
                    (keys_apart_element apartB foundY key) (elements key member)
              · split at holds
                · next da db foundA foundB =>
                    have matched := keyed_equal_sound holds (keys_apart_here apartA foundA)
                      (fun x member y there =>
                        ⟨induction (keys_apart_entry apartB foundB there).1
                          (keys_apart_entry apartA foundA member).1,
                        induction (keys_apart_entry apartA foundA member).2
                          (keys_apart_entry apartB foundB there).2⟩)
                    exact same_of_keyeds ⟨da, db, foundA, foundB, matched.1, matched.2⟩
                · contradiction
            · contradiction

end Soundness

section Agreement

variable {T : ClassTable}

theorem same_of_alike {depth : Nat} {a b : Value} (alike : SameWithin T true depth a b) :
    SameWithin T false depth a b := by
  induction depth generalizing a b with
  | zero => exact alike.elim
  | succ depth induction =>
      rcases alike with numbers | equal | seqs | instances | keyed
      · exact Or.inl ⟨numbers.1, numbers.2.1, numbers.2.2.1, by simp⟩
      · exact Or.inr (Or.inl equal)
      · obtain ⟨sa, sb, first, second, sizes, elements, -⟩ := seqs
        exact same_of_seqs ⟨sa, sb, first, second, sizes,
          fun i inside => induction (elements i inside), by simp⟩
      · exact same_of_instances (instances_same_mono instances fun _ _ _ _ _ => induction)
      · exact same_of_keyeds (keyed_same_mono keyed fun _ _ _ _ _ _ _ _ => ⟨induction, induction⟩)

theorem hash_of_alike {depth : Nat} {a b : Value} (alike : SameWithin T true depth a b) :
    scalaHash T a = scalaHash T b := by
  induction depth generalizing a b with
  | zero => exact alike.elim
  | succ depth induction =>
      rcases alike with numbers | equal | seqs | instances | keyed
      · exact hash_of_equal_numbers T numbers.1 numbers.2.1 numbers.2.2.1 (numbers.2.2.2 rfl)
      · rw [equal.2]
      · obtain ⟨sa, sb, first, second, sizes, elements, -⟩ := seqs
        rw [hash_of_seq T first, hash_of_seq T second, ← sizes]
        apply congrArg seqHash
        apply List.map_congr_left
        intro i inside
        exact induction (elements i (List.mem_range.mp inside))
      · obtain ⟨x, y, cls, fields, first, second, caseX, caseY, listed, elements⟩ := instances
        have same := same_case_class T caseX caseY
        rw [hash_of_instance T first, hash_of_instance T second, ← same.1, ← same.2, listed]
        apply congrArg (productHash _)
        apply List.map_congr_left
        intro key member
        exact induction (elements key member)
      · obtain ⟨da, db, first, second, kinds, matched⟩ := keyed
        rw [hash_of_keyed T first, hash_of_keyed T second, ← kinds]
        apply xor_fold_perm
        rw [← Multiset.coe_eq_coe, ← Multiset.map_coe, ← Multiset.map_coe]
        apply map_eq_of_matched matched
        intro x _ y _ related
        unfold entryHash
        rw [induction related.1]
        split
        · rfl
        · next isMap =>
            rw [induction (related.2.resolve_left isMap)]

theorem seq_equal_complete {equal : Value → Value → Bool} {sa sb : SeqView}
    (sizes : sa.size = sb.size)
    (elements : ∀ i, i < sa.size → equal (sa.elemAt i) (sb.elemAt i) = true)
    (integers : ∀ n m : Int, equal (.int n) (.int m) = true → n = m)
    (unsplit : stepsDiffer sa sb = false) : seqEqual equal sa sb = true := by
  unfold seqEqual
  rw [if_neg (not_not.mpr sizes)]
  split
  · next start step size start' step' size' =>
      simp only [SeqView.size, SeqView.elemAt] at sizes elements
      simp only [stepsDiffer] at unsplit
      by_cases empty : size = 0
      · simp [empty]
      · have starts : start = start' := by
          simpa using integers _ _ (elements 0 (by omega))
        have steps : step = step' := by
          by_cases one : size = 1
          · simpa [one] using unsplit
          · have second := integers _ _ (elements 1 (by omega))
            push_cast at second
            omega
        simp [starts, steps]
  · rw [List.all_eq_true]
    intro i inside
    exact elements i (List.mem_range.mp inside)

theorem product_equals_complete {equal : Value → Value → Bool} {x y : Instance} {cls : ClassId}
    {fields : List Symbol} (caseX : T.caseClassOf x.cls = some cls)
    (caseY : T.caseClassOf y.cls = some cls) (listed : T.fieldsOf x.cls = some fields)
    (elements : ∀ key ∈ fields, equal (x.element key) (y.element key) = true) :
    productEquals T equal x y = true := by
  unfold productEquals ClassTable.canEqual
  rw [caseX, listed, caseY]
  simp only [instance_of_own T caseX, instance_of_own T caseY, Bool.and_self, Bool.true_and]
  exact List.all_eq_true.mpr elements

/-- The entry of an alike key is the one that the lookup finds. -/
theorem hashed_get_complete {depth : Nat} {equal : Value → Value → Bool}
    {entries : List (Value × Value)} {key : Value} {entry : Value × Value}
    (apart : entries.Pairwise fun x y => ¬ Same T x.1 y.1) (member : entry ∈ entries)
    (alike : SameWithin T true depth key entry.1) (holds : equal entry.1 key = true)
    (sound : ∀ other ∈ entries, equal other.1 key = true → Same T other.1 key) :
    hashedGet T equal entries key = some entry.2 := by
  have same : Same T key entry.1 := ⟨depth, same_of_alike alike⟩
  apply hashed_get_of_only T member
  · unfold answersTo
    split
    · next identity =>
        have equals := identity_key_same identity alike
        rw [← equals, identity, (same_word_iff key key).mpr rfl]
        rfl
    · next identity =>
        have other : scalaIsIdentityKey entry.1 = false := by
          by_contra found
          rw [Bool.not_eq_false] at found
          have equals := identity_key_same found (same_within_symm alike)
          rw [equals] at found
          exact identity found
        simp [other, holds, hash_of_alike alike]
  · intro other there answers
    apply eq_of_related (R := fun x y => Same T x.1 y.1) (fun _ _ => same_symm) apart there member
    rcases answers_cases answers with identical | equals
    · rw [← identical.2]
      exact same
    · exact same_trans (sound other there equals) same

theorem integers_equal {depth : Nat} {n m : Int}
    (holds : valuesEqualWithin T depth (.int n) (.int m) = true) : n = m := by
  cases depth with
  | zero => simp [valuesEqualWithin] at holds
  | succ depth =>
      simp only [valuesEqualWithin, isNumeric, isNumberFast, Bool.true_or, Bool.and_self,
        if_true, numbers_equal_eq] at holds
      apply whole_injective
      simpa [widenChar, numeric, Numeric.equivalent] using holds

theorem keyed_equal_complete {depth : Nat} {equal : Value → Value → Bool} {da db : Keyed}
    (kinds : da.isSet = db.isSet) (apart : db.entries.Pairwise fun x y => ¬ Same T x.1 y.1)
    (matched : Multiset.Rel (EntriesSame da.isSet (SameWithin T true depth))
      (da.entries : Multiset (Value × Value)) (db.entries : Multiset (Value × Value)))
    (complete : ∀ x ∈ da.entries, ∀ y ∈ db.entries,
      (SameWithin T true depth y.1 x.1 → equal y.1 x.1 = true) ∧
        (SameWithin T true depth x.2 y.2 → equal x.2 y.2 = true))
    (sound : ∀ x ∈ da.entries, ∀ y ∈ db.entries, equal y.1 x.1 = true → Same T y.1 x.1) :
    keyedEqual T equal da db = true := by
  have sizes : da.entries.length = db.entries.length := by
    have cards := Multiset.card_eq_card_of_rel matched
    simpa using cards
  unfold keyedEqual
  rw [if_neg (not_not.mpr kinds), if_neg (not_not.mpr sizes), List.all_eq_true]
  intro x member
  obtain ⟨y, there, related⟩ := Multiset.exists_mem_of_rel_of_mem matched member
  have found := hashed_get_complete apart there related.1
    ((complete x member y there).1 (same_within_symm related.1)) (sound x member)
  unfold eqVisit
  simp only [found, Bool.or_eq_true]
  exact related.2.imp_right (complete x member y there).2

/-- Alike values are equal to `valuesEqual`, both ways round. -/
theorem values_equal_complete {depth depth' : Nat} {a b : Value} (apartA : KeysApart T a)
    (apartB : KeysApart T b) (alike : SameWithin T true depth a b) (enough : depth ≤ depth') :
    valuesEqualWithin T depth' a b = true := by
  induction depth generalizing depth' a b with
  | zero => exact alike.elim
  | succ depth induction =>
      obtain ⟨below, rfl⟩ : ∃ below, depth' = below + 1 := ⟨depth' - 1, by omega⟩
      have within : depth ≤ below := by omega
      simp only [valuesEqualWithin]
      rcases alike with numbers | equal | seqs | instances | keyed
      · rw [numbers.1, numbers.2.1, Bool.and_self, if_pos rfl, numbers_equal_eq]
        exact numbers.2.2.1
      · rw [equal.1, Bool.false_and, if_neg Bool.false_ne_true,
          if_pos ((same_word_iff a b).mpr equal.2)]
      · have kind := (kind_of_seqs seqs).1
        obtain ⟨sa, sb, first, second, sizes, elements, unsplit⟩ := seqs
        rw [not_numeric_of_kind kind (by decide), Bool.false_and, if_neg Bool.false_ne_true, first,
          second]
        split
        · rfl
        · exact seq_equal_complete sizes
            (fun i inside => induction (keys_apart_elem apartA first i)
              (keys_apart_elem apartB second i) (elements i inside) within)
            (fun n m => integers_equal) (unsplit rfl)
      · have kinds := kind_of_instances instances
        obtain ⟨x, y, cls, fields, first, second, caseX, caseY, listed, elements⟩ := instances
        rw [not_numeric_of_kind kinds.1 (by decide), Bool.false_and, if_neg Bool.false_ne_true,
          no_seq_of_kind kinds.1 (by decide), no_seq_of_kind kinds.2 (by decide)]
        unfold instanceEquals
        rw [first, second]
        split
        · rfl
        · exact product_equals_complete caseX caseY listed
            (fun key member => induction (keys_apart_element apartA first key)
              (keys_apart_element apartB second key) (elements key member) within)
      · have kinds := kind_of_keyeds keyed
        obtain ⟨da, db, first, second, sets, matched⟩ := keyed
        rw [not_numeric_of_kind kinds.1 (by decide), Bool.false_and, if_neg Bool.false_ne_true,
          no_seq_of_kind kinds.1 (by decide), no_seq_of_kind kinds.2 (by decide)]
        unfold instanceEquals
        rw [no_instance_of_kind kinds.1 (by decide), first, second]
        split
        · rfl
        · apply keyed_equal_complete sets (keys_apart_here apartB second) matched
          · intro x member y there
            have left := keys_apart_entry apartA first member
            have right := keys_apart_entry apartB second there
            exact ⟨fun keys => induction right.1 left.1 keys within,
              fun values => induction left.2 right.2 values within⟩
          · intro x member y there holds
            exact ⟨_, values_equal_sound (keys_apart_entry apartB second there).1
              (keys_apart_entry apartA first member).1 holds⟩

end Agreement

/-- Equality implies equal hash, and equality the other way round, for values
that are the same only where they are alike, and in which no map or set holds
one key twice. -/
theorem equal_values_hash_alike (T : ClassTable) (a b : Value) (alike : Same T a b → Alike T a b)
    (apartA : KeysApart T a) (apartB : KeysApart T b) (equal : valuesEqual T a b = true) :
    scalaHash T a = scalaHash T b ∧ valuesEqual T b a = true := by
  obtain ⟨depth, within⟩ := alike ⟨_, values_equal_sound apartA apartB equal⟩
  refine ⟨hash_of_alike within, ?_⟩
  apply values_equal_complete apartB apartA (same_within_height (same_within_symm within))
  omega

/-- A program without case classes. -/
def noClasses : ClassTable where
  parents := fun _ => []
  caseInfo := fun _ => none
  acyclic := fun _ _ member => absurd member List.not_mem_nil
  oneSuperclass := fun _ => List.Pairwise.nil
  objectsFinal := fun _ _ declared => by simp at declared

theorem keys_apart_of_parts {T : ClassTable} {v : Value}
    (here : ∀ data, keyedData v = some data →
      data.entries.Pairwise fun x y => ¬ Same T x.1 y.1)
    (below : ∀ w ∈ parts v, KeysApart T w) : KeysApart T v := by
  intro u inside
  cases inside with
  | whole => exact here
  | part member within => exact below _ member u within

theorem set_of_list_hashes_as_set_of_vector :
    scalaHash noClasses (.set 0 [.list 1 [.int 1, .char 65#32]]) =
        scalaHash noClasses (.set 2 [.vector 3 [.double 0x3FF0000000000000#64, .int 65]]) ∧
      valuesEqual noClasses (.set 2 [.vector 3 [.double 0x3FF0000000000000#64, .int 65]])
        (.set 0 [.list 1 [.int 1, .char 65#32]]) = true := by
  have leaf : ∀ v : Value, parts v = [] → keyedData v = none → KeysApart noClasses v :=
    fun v => keys_apart_leaf
  have apart : ∀ (ref : Nat) (v : Value), keyedData v = none →
      (∀ w ∈ parts v, parts w = [] ∧ keyedData w = none) →
      KeysApart noClasses (.set ref [v]) := by
    intro ref v unkeyed leaves
    apply keys_apart_of_parts
    · intro data found
      obtain rfl := Option.some.inj found
      exact List.pairwise_singleton _ _
    · intro w member
      obtain rfl := List.mem_singleton.mp member
      apply keys_apart_of_parts
      · intro data found
        rw [unkeyed] at found
        contradiction
      · exact fun part inside => leaf part (leaves part inside).1 (leaves part inside).2
  have numbers : ∀ i, i < 2 → SameWithin noClasses true 1
      (SeqView.elemAt (.list [.int 1, .char 65#32]) i)
      (SeqView.elemAt (.list [.double 0x3FF0000000000000#64, .int 65]) i) := by
    intro i inside
    apply Or.inl
    obtain rfl | rfl : i = 0 ∨ i = 1 := by omega
    · exact ⟨rfl, rfl, by decide +kernel, fun _ => rfl⟩
    · exact ⟨rfl, rfl, by decide +kernel, fun _ => rfl⟩
  apply equal_values_hash_alike noClasses
  · intro _
    refine ⟨3, same_of_keyeds ⟨_, _, rfl, rfl, rfl, ?_⟩⟩
    apply Multiset.Rel.cons _ Multiset.Rel.zero
    exact ⟨same_of_seqs ⟨_, _, rfl, rfl, rfl, numbers, fun _ => rfl⟩, Or.inl rfl⟩
  · exact apart 0 _ rfl (by simp [parts, keyedData])
  · exact apart 2 _ rfl (by simp [parts, keyedData])
  · decide +kernel

/-- Where a large integer stands against the double of its value, the two hashes
agree only by accident. -/
theorem large_integer_agrees_iff (T : ClassTable) {n : Int} {bits : BitVec 64}
    (large : isSmallInt n = false) (same : doubleValue bits = .finite (n * unitsPerOne)) :
    (valuesEqual T (.int n) (.double bits) = true →
        scalaHash T (.int n) = scalaHash T (.double bits) ∧
          valuesEqual T (.double bits) (.int n) = true) ↔
      javaStringHash (decimal n) = doubleHash bits := by
  have there : valuesEqual T (.int n) (.double bits) = true := by
    simp [valuesEqual, valuesEqualWithin, isNumeric, isNumberFast, numbers_equal_eq, widenChar,
      numeric, same, Numeric.equivalent]
  have back : valuesEqual T (.double bits) (.int n) = true := by
    simp [valuesEqual, valuesEqualWithin, isNumeric, isNumberFast, numbers_equal_eq, widenChar,
      numeric, same, Numeric.equivalent]
  have hashed : scalaHash T (.int n) = javaStringHash (decimal n) := by
    simp [scalaHash, integerHash, large]
  rw [hashed]
  exact ⟨fun claim => (claim there).1, fun agree => fun _ => ⟨agree, back⟩⟩

/-- The range of 1 alone, with a step that is never taken. -/
def oneUpTo (step : Int) (small : isSmallInt step = true) : Value :=
  .range ⟨1, 1, step, true, rfl, rfl, small⟩

/-- The first integer that is not small equals the double of its value and hashes
apart from it. And two ranges that both equal the list of 1 but not each other
make a set that holds that list twice: it equals a set that does not equal it. -/
theorem equal_values_may_hash_apart :
    (valuesEqual noClasses (.int 9007199254740992) (.double 0x4340000000000000#64) = true ∧
      scalaHash noClasses (.int 9007199254740992) ≠
        scalaHash noClasses (.double 0x4340000000000000#64)) ∧
    valuesEqual noClasses (.set 0 [oneUpTo 1 (by decide), oneUpTo 2 (by decide)])
        (.set 1 [.list 2 [.int 1], .int 5]) = true ∧
      valuesEqual noClasses (.set 1 [.list 2 [.int 1], .int 5])
        (.set 0 [oneUpTo 1 (by decide), oneUpTo 2 (by decide)]) = false := by
  decide +kernel

end ProtoScala.Runtime.ValueEquality
