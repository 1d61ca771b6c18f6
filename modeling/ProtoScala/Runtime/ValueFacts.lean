import Mathlib.Data.List.Perm.Basic
import Mathlib.Data.Multiset.MapFold
import ProtoScala.Runtime.Values

/-!
# Parts of values

What the definitions over values have in common with the parts they read: a word
is its value, the hash of a cell is made of the hashes of its parts, the parts
are less deep than the whole, and two instances that `product_equals` lets
compare their fields have one case class.
-/

namespace ProtoScala.Runtime.ValueFacts

open ProtoScala.Runtime.Hashing
open ProtoScala.Runtime.Values
open ProtoScala.Runtime.Values.Value

set_option autoImplicit false

mutual

theorem same_word_iff : ∀ a b : Value, a.sameWord b = true ↔ a = b
  | .null, b => by cases b <;> simp [sameWord]
  | .unit, b => by cases b <;> simp [sameWord]
  | .bool _, b => by cases b <;> simp [sameWord]
  | .int _, b => by cases b <;> simp [sameWord]
  | .double _, b => by cases b <;> simp [sameWord]
  | .char _, b => by cases b <;> simp [sameWord]
  | .string _, b => by cases b <;> simp [sameWord]
  | .range _, b => by cases b <;> simp [sameWord]
  | .list _ es, b => by cases b <;> simp [sameWord, same_words_iff es]
  | .vector _ es, b => by cases b <;> simp [sameWord, same_words_iff es]
  | .set _ es, b => by cases b <;> simp [sameWord, same_words_iff es]
  | .map _ ks vs, b => by
      cases b <;> simp [sameWord, same_words_iff ks, same_words_iff vs, and_assoc]
  | .product _ _ _ es, b => by cases b <;> simp [sameWord, same_words_iff es, and_assoc]

theorem same_words_iff : ∀ xs ys : List Value, sameWords xs ys = true ↔ xs = ys
  | [], ys => by cases ys <;> simp [sameWords]
  | x :: xs, ys => by cases ys <;> simp [sameWords, same_word_iff x, same_words_iff xs]

end

/-- The kinds of values exclude each other. -/
inductive Kind
  | number | sequence | keyed | product | other
deriving DecidableEq

def kindOf : Value → Kind
  | .int _ | .double _ | .char _ => .number
  | .list _ _ | .vector _ _ | .range _ => .sequence
  | .map _ _ _ | .set _ _ => .keyed
  | .product _ _ _ _ => .product
  | _ => .other

section

attribute [local simp] kindOf Value.height scalaHash

end

theorem kind_of_numeric {v : Value} : v.isNumeric = true ↔ kindOf v = .number := by
  cases v <;> simp [isNumeric, isNumberFast, isCharFast, kindOf]

theorem kind_of_seq {v : Value} {view : SeqView} (found : seqViewOf v = some view) :
    kindOf v = .sequence := by
  cases v <;> simp_all [seqViewOf, kindOf]

theorem kind_of_instance {v : Value} {x : Instance} (found : instanceOf v = some x) :
    kindOf v = .product := by
  cases v <;> simp_all [instanceOf, kindOf]

theorem kind_of_keyed {v : Value} {data : Keyed} (found : keyedData v = some data) :
    kindOf v = .keyed := by
  cases v <;> simp_all [keyedData, kindOf]

theorem not_numeric_of_kind {v : Value} {kind : Kind} (found : kindOf v = kind)
    (other : kind ≠ .number) : v.isNumeric = false := by
  rw [← found, Ne, ← kind_of_numeric] at other
  simpa using other

theorem no_seq_of_kind {v : Value} {kind : Kind} (found : kindOf v = kind)
    (other : kind ≠ .sequence) : seqViewOf v = none := by
  cases view : seqViewOf v with
  | none => rfl
  | some sv => exact absurd (found.symm.trans (kind_of_seq view)) other

theorem no_instance_of_kind {v : Value} {kind : Kind} (found : kindOf v = kind)
    (other : kind ≠ .product) : instanceOf v = none := by
  cases held : instanceOf v with
  | none => rfl
  | some x => exact absurd (found.symm.trans (kind_of_instance held)) other

section Hashes

variable (T : ClassTable)

theorem scala_hashes_eq_map (vs : List Value) : scalaHashes T vs = vs.map (scalaHash T) := by
  induction vs with
  | nil => rfl
  | cons v vs induction => rw [scalaHashes, induction, List.map_cons]

theorem map_range_getD (f : Value → Word32) (vs : List Value) :
    (List.range vs.length).map (fun i => f (vs.getD i .null)) = vs.map f := by
  apply List.ext_getElem
  · simp
  · intro i inside _
    have small : i < vs.length := by simpa using inside
    simp [small]

/-- The hash of a sequence is that of its view. -/
theorem hash_of_seq {v : Value} {view : SeqView} (found : seqViewOf v = some view) :
    scalaHash T v = seqHash ((List.range view.size).map fun i => scalaHash T (view.elemAt i)) := by
  cases v with
  | list ref es =>
      obtain rfl := Option.some.inj found
      rw [scalaHash, scala_hashes_eq_map]
      exact congrArg seqHash (map_range_getD (scalaHash T) es).symm
  | vector ref es =>
      obtain rfl := Option.some.inj found
      rw [scalaHash, scala_hashes_eq_map]
      exact congrArg seqHash (map_range_getD (scalaHash T) es).symm
  | range r =>
      obtain rfl := Option.some.inj found
      simp only [scalaHash, SeqView.size, SeqView.elemAt]
  | _ => simp [seqViewOf] at found

/-- One entry's share of the hash of a map or a set. -/
def entryHash (isSet : Bool) (entry : Value × Value) : Word32 :=
  if isSet then scalaHash T entry.1 else scalaHash T entry.1 * 41#32 + scalaHash T entry.2

theorem hash_of_keyed {v : Value} {data : Keyed} (found : keyedData v = some data) :
    scalaHash T v = (data.entries.map (entryHash T data.isSet)).foldl (· ^^^ ·) 0#32 := by
  cases v with
  | map ref ks vs =>
      obtain rfl := Option.some.inj found
      simp only [scalaHash, scala_hashes_eq_map, List.zipWith_map, List.zip, List.map_zipWith,
        entryHash, Bool.false_eq_true, if_false]
  | set ref es =>
      obtain rfl := Option.some.inj found
      have paired : (es.zip es).map (entryHash T true) = es.map (scalaHash T) := by
        rw [List.zip, List.map_zipWith, List.zipWith_self]
        rfl
      rw [scalaHash, scala_hashes_eq_map, paired]
  | _ => simp [keyedData] at found

theorem lookup_zip_map (names : List Symbol) (f : Value → Word32) (vs : List Value)
    (key : Symbol) :
    (names.zip (vs.map f)).lookup key = ((names.zip vs).lookup key).map f := by
  induction names generalizing vs with
  | nil => rfl
  | cons name names induction =>
      cases vs with
      | nil => rfl
      | cons v vs =>
          simp only [List.map_cons, List.zip_cons_cons, List.lookup_cons, induction]
          split <;> rfl

theorem hash_of_instance {v : Value} {x : Instance} (found : instanceOf v = some x) :
    scalaHash T v = productHash (javaStringHash (T.prefixOf x.cls))
      (((T.fieldsOf x.cls).getD []).map fun key => scalaHash T (x.element key)) := by
  cases v with
  | product ref cls names es =>
      obtain rfl := Option.some.inj found
      have field : ∀ key : Symbol, ((names.zip (scalaHashes T es)).lookup key).getD 0#32 =
          scalaHash T (Instance.element ⟨cls, names, es⟩ key) := by
        intro key
        rw [scala_hashes_eq_map, lookup_zip_map, Instance.element]
        cases (names.zip es).lookup key <;> simp [scalaHash]
      simp only [scalaHash, field]
  | _ => simp [instanceOf] at found

/-- The order of the entries does not enter the hash. -/
theorem xor_fold_perm {hs hs' : List Word32} (perm : hs.Perm hs') :
    hs.foldl (· ^^^ ·) 0#32 = hs'.foldl (· ^^^ ·) 0#32 := by
  apply perm.foldl_eq'
  intro x _ y _ z
  rw [BitVec.xor_assoc, BitVec.xor_assoc, BitVec.xor_comm x y]

end Hashes

section Heights

theorem height_le_heights {v : Value} {vs : List Value} (member : v ∈ vs) :
    v.height ≤ heights vs := by
  induction vs with
  | nil => exact absurd member List.not_mem_nil
  | cons w ws induction =>
      simp only [heights]
      rcases List.mem_cons.mp member with rfl | later
      · omega
      · have bound := induction later
        omega

theorem getD_mem (es : List Value) (i : Nat) :
    es.getD i .null ∈ es ∨ es.getD i .null = .null := by
  by_cases inside : i < es.length
  · rw [List.getD_eq_getElem?_getD, List.getElem?_eq_getElem inside]
    exact Or.inl (List.getElem_mem inside)
  · rw [List.getD_eq_getElem?_getD, List.getElem?_eq_none (by omega)]
    exact Or.inr rfl

theorem height_elem {v : Value} {view : SeqView} (found : seqViewOf v = some view) (i : Nat) :
    (view.elemAt i).height < v.height := by
  have listed : ∀ es : List Value, (es.getD i .null).height ≤ heights es := by
    intro es
    rcases getD_mem es i with inside | missing
    · exact height_le_heights inside
    · rw [missing]
      simp [height]
  cases v with
  | list ref es =>
      obtain rfl := Option.some.inj found
      have bound := listed es
      simp only [SeqView.elemAt, height]
      omega
  | vector ref es =>
      obtain rfl := Option.some.inj found
      have bound := listed es
      simp only [SeqView.elemAt, height]
      omega
  | range r =>
      obtain rfl := Option.some.inj found
      simp [SeqView.elemAt, height]
  | _ => simp [seqViewOf] at found

theorem lookup_mem {names : List Symbol} {vs : List Value} {key : Symbol} {v : Value}
    (found : (names.zip vs).lookup key = some v) : v ∈ vs := by
  induction names generalizing vs with
  | nil => simp at found
  | cons name names induction =>
      cases vs with
      | nil => simp at found
      | cons w ws =>
          rw [List.zip_cons_cons, List.lookup_cons] at found
          split at found
          · rw [Option.some.inj found]
            exact List.mem_cons_self
          · exact List.mem_cons_of_mem w (induction found)

/-- An element is an attribute of the instance or is missing. -/
theorem element_mem (x : Instance) (key : Symbol) :
    x.element key ∈ x.elements ∨ x.element key = .null := by
  unfold Instance.element
  cases found : (x.names.zip x.elements).lookup key with
  | none => exact Or.inr rfl
  | some v => exact Or.inl (lookup_mem found)

theorem height_element {v : Value} {x : Instance} (found : instanceOf v = some x) (key : Symbol) :
    (x.element key).height < v.height := by
  cases v with
  | product ref cls names es =>
      obtain rfl := Option.some.inj found
      rcases element_mem ⟨cls, names, es⟩ key with inside | missing
      · have bound := height_le_heights inside
        simp only [height]
        exact Nat.lt_succ_of_le bound
      · rw [missing]
        simp [height]
  | _ => simp [instanceOf] at found

theorem height_entry {v : Value} {data : Keyed} (found : keyedData v = some data)
    {entry : Value × Value} (member : entry ∈ data.entries) :
    entry.1.height < v.height ∧ entry.2.height < v.height := by
  cases v with
  | map ref ks vs =>
      obtain rfl := Option.some.inj found
      have key := height_le_heights (List.of_mem_zip member).1
      have value := height_le_heights (List.of_mem_zip member).2
      simp only [height]
      omega
  | set ref es =>
      obtain rfl := Option.some.inj found
      have key := height_le_heights (List.of_mem_zip member).1
      have value := height_le_heights (List.of_mem_zip member).2
      simp only [height]
      omega
  | _ => simp [keyedData] at found

end Heights

section Numbers

theorem units_ne_zero : unitsPerOne ≠ 0 :=
  pow_ne_zero _ (by decide)

theorem whole_injective {n m : Int} (same : n * unitsPerOne = m * unitsPerOne) : n = m :=
  Int.eq_of_mul_eq_mul_right units_ne_zero same

/-- Small or large, integers compare by their value. -/
theorem numbers_equal_eq (a b : Value) :
    numbersEqual a b = a.widenChar.numeric.equivalent b.widenChar.numeric := by
  unfold numbersEqual
  split
  · next n m left right =>
      rw [left, right]
      split
      · simp only [numeric, Numeric.equivalent]
        by_cases same : n = m
        · rw [same, beq_self_eq_true, beq_self_eq_true]
        · have scaled : n * unitsPerOne ≠ m * unitsPerOne := fun equal =>
            same (whole_injective equal)
          rw [beq_false_of_ne same, beq_false_of_ne scaled]
      · rfl
  · rfl

theorem equivalent_symm {x y : Numeric} (same : x.equivalent y = true) :
    y.equivalent x = true := by
  cases x <;> cases y <;> simp_all [Numeric.equivalent]

theorem equivalent_trans {x y z : Numeric} (first : x.equivalent y = true)
    (second : y.equivalent z = true) : x.equivalent z = true := by
  cases x <;> cases y <;> cases z <;> simp_all [Numeric.equivalent]

theorem equivalent_whole {n : Int} {x : Numeric}
    (same : (Numeric.finite (n * unitsPerOne)).equivalent x = true) :
    x = .finite (n * unitsPerOne) := by
  cases x <;> simp_all [Numeric.equivalent]

theorem small_bounds {n : Int} (small : isSmallInt n = true) :
    -9007199254740992 ≤ n ∧ n ≤ 9007199254740991 := by
  simpa [isSmallInt] using small

/-- A number that is a small integer hashes as that integer, in whatever form. -/
theorem hash_of_small (T : ClassTable) {v : Value} {n : Int} (number : v.isNumeric = true)
    (value : v.widenChar.numeric = .finite (n * unitsPerOne)) (small : isSmallInt n = true) :
    scalaHash T v = longHash (BitVec.ofInt 64 n) := by
  have bounds := small_bounds small
  cases v with
  | int m =>
      have same : m = n := whole_injective (Numeric.finite.inj value)
      simp only [scalaHash, integerHash, same, small, if_true]
  | double bits => exact double_hash_of_whole value (by omega) (by omega)
  | char code =>
      have same : (code.toNat : Int) = n := whole_injective (Numeric.finite.inj value)
      rw [← same, long_hash_of_nat code.isLt, scalaHash, BitVec.ofNat_toNat, BitVec.setWidth_eq]
  | _ => simp [isNumeric, isNumberFast, isCharFast] at number

/-- A large integer beside a double. -/
def largeWithDouble : Value → Value → Bool
  | .int n, .double _ => !isSmallInt n
  | .double _, .int n => !isSmallInt n
  | _, _ => false

theorem large_with_double_comm (a b : Value) : largeWithDouble a b = largeWithDouble b a := by
  cases a <;> cases b <;> rfl

theorem char_small (code : BitVec 32) : isSmallInt code.toNat = true := by
  have bound := code.isLt
  simp only [isSmallInt, decide_eq_true_eq]
  omega

/-- Equal numbers hash alike, but for a large integer and a double. -/
theorem hash_of_equal_numbers (T : ClassTable) {a b : Value} (number : a.isNumeric = true)
    (number' : b.isNumeric = true)
    (same : a.widenChar.numeric.equivalent b.widenChar.numeric = true)
    (unsplit : largeWithDouble a b = false) : scalaHash T a = scalaHash T b := by
  have small : ∀ {v w : Value} {n : Int}, v.isNumeric = true → w.isNumeric = true →
      v.widenChar.numeric = .finite (n * unitsPerOne) → isSmallInt n = true →
      v.widenChar.numeric.equivalent w.widenChar.numeric = true →
      scalaHash T v = scalaHash T w := by
    intro v w n numberV numberW value fits equal
    rw [value] at equal
    rw [hash_of_small T numberV value fits,
      hash_of_small T numberW (equivalent_whole equal) fits]
  cases a with
  | int n =>
      by_cases fits : isSmallInt n = true
      · exact small number number' rfl fits same
      · cases b with
        | int m =>
            have equal : n = m := whole_injective (by
              simpa [widenChar, numeric, Numeric.equivalent] using same)
            rw [equal]
        | double bits => simp [largeWithDouble, fits] at unsplit
        | char code => exact (small number' number rfl (char_small code) (equivalent_symm same)).symm
        | _ => simp [isNumeric, isNumberFast, isCharFast] at number'
  | double bits =>
      cases b with
      | int m =>
          by_cases fits : isSmallInt m = true
          · exact (small number' number rfl fits (equivalent_symm same)).symm
          · simp [largeWithDouble, fits] at unsplit
      | double bits' => exact double_hash_congr same
      | char code => exact (small number' number rfl (char_small code) (equivalent_symm same)).symm
      | _ => simp [isNumeric, isNumberFast, isCharFast] at number'
  | char code => exact small number number' rfl (char_small code) same
  | _ => simp [isNumeric, isNumberFast, isCharFast] at number

end Numbers

section Classes

variable (T : ClassTable)

theorem find_some_at {α β : Type} {l : List α} {p : α → Bool} {g : α → Option β} {x : α} {y : β}
    (found : l.find? p = some x) (outside : ∀ d, p d = false → g d = none) (here : g x = some y) :
    l.findSome? g = some y := by
  induction l with
  | nil => simp at found
  | cons d rest induction =>
      rw [List.find?_cons] at found
      rw [List.findSome?_cons]
      split at found
      · rw [Option.some.inj found, here]
      · next skipped =>
          rw [outside d skipped]
          exact induction found

theorem case_class_declared {c cls : ClassId} (found : T.caseClassOf c = some cls) :
    ∃ info, T.caseInfo cls = some info := by
  have declared := List.find?_some found
  exact Option.isSome_iff_exists.mp declared

/-- Two instances with one case class have its fields and its prefix. -/
theorem same_case_class {c c' cls : ClassId} (first : T.caseClassOf c = some cls)
    (second : T.caseClassOf c' = some cls) :
    T.fieldsOf c = T.fieldsOf c' ∧ T.prefixOf c = T.prefixOf c' := by
  obtain ⟨info, declared⟩ := case_class_declared T first
  have prefixed : ∀ {d : ClassId}, T.caseClassOf d = some cls →
      T.prefixOf d = info.prefixName := by
    intro d found
    have outside : ∀ e, (T.caseInfo e).isSome = false →
        (T.caseInfo e).map CaseInfo.prefixName = none := by
      intro e none
      rw [Option.isSome_eq_false_iff, Option.isNone_iff_eq_none] at none
      rw [none]
      rfl
    unfold ClassTable.prefixOf
    rw [find_some_at found outside (by rw [declared]; rfl)]
    rfl
  refine ⟨?_, by rw [prefixed first, prefixed second]⟩
  cases listed : info.fields with
  | some fields =>
      have field : ∀ {d : ClassId}, T.caseClassOf d = some cls → T.fieldsOf d = some fields := by
        intro d found
        apply find_some_at found
        · intro e none
          rw [Option.isSome_eq_false_iff, Option.isNone_iff_eq_none] at none
          rw [none]
          rfl
        · rw [declared]
          exact listed
      rw [field first, field second]
  | none =>
      have itself : ∀ {d : ClassId}, T.caseClassOf d = some cls → d = cls := by
        intro d found
        rcases List.mem_cons.mp (List.mem_of_find?_eq_some found) with same | inherited
        · exact same.symm
        · exact absurd inherited (T.objectsFinal cls info declared listed d)
      rw [itself first, itself second]

/-- The case classes further up a chain are ancestors of the first. -/
theorem later_case_class {c cls d : ClassId} (found : T.caseClassOf c = some cls)
    (member : d ∈ T.chain c) (declared : (T.caseInfo d).isSome = true) :
    d = cls ∨ d ∈ T.parents cls := by
  have ordered := T.oneSuperclass c
  have inside : d ∈ (T.chain c).filter fun e => (T.caseInfo e).isSome :=
    List.mem_filter.mpr ⟨member, declared⟩
  have first : ((T.chain c).filter fun e => (T.caseInfo e).isSome).head? = some cls := by
    rw [List.head?_filter]
    exact found
  change ((T.chain c).filter fun e => (T.caseInfo e).isSome).Pairwise _ at ordered
  cases cases_ : (T.chain c).filter fun e => (T.caseInfo e).isSome with
  | nil =>
      rw [cases_] at inside
      exact absurd inside List.not_mem_nil
  | cons head rest =>
      rw [cases_] at inside first ordered
      have same : head = cls := Option.some.inj first
      rw [same] at inside ordered
      rcases List.mem_cons.mp inside with here | later
      · exact Or.inl here
      · exact Or.inr ((List.pairwise_cons.mp ordered).1 d later)

/-- Instances that agree to be compared have one case class. -/
theorem one_case_class {c c' cls cls' : ClassId} (first : T.caseClassOf c = some cls)
    (second : T.caseClassOf c' = some cls') (there : T.isInstanceOf c' cls = true)
    (back : T.isInstanceOf c cls' = true) : cls = cls' := by
  have declared := case_class_declared T first
  have declared' := case_class_declared T second
  rw [← Option.isSome_iff_exists] at declared declared'
  rcases later_case_class T second (List.contains_iff_mem.mp there) declared with same | above
  · exact same
  · rcases later_case_class T first (List.contains_iff_mem.mp back) declared' with same | below
    · exact same.symm
    · exact absurd below (T.acyclic cls cls' above)

theorem instance_of_own {c cls : ClassId} (found : T.caseClassOf c = some cls) :
    T.isInstanceOf c cls = true :=
  List.contains_iff_mem.mpr (List.mem_of_find?_eq_some found)

end Classes

section Lookup

variable (T : ClassTable) {equal equal' : Value → Value → Bool} {entries : List (Value × Value)}
  {key : Value}

/-- What `hashedGet` looks for. -/
def answersTo (equal : Value → Value → Bool) (key : Value) (entry : Value × Value) : Bool :=
  if scalaIsIdentityKey key then scalaIsIdentityKey entry.1 && entry.1.sameWord key
  else !scalaIsIdentityKey entry.1 && scalaHash T entry.1 == scalaHash T key && equal entry.1 key

theorem hashed_get_eq (equal : Value → Value → Bool) (entries : List (Value × Value))
    (key : Value) :
    hashedGet T equal entries key = (entries.find? (answersTo T equal key)).map Prod.snd := by
  unfold hashedGet answersTo
  split <;> rfl

theorem hashed_get_some {w : Value} (found : hashedGet T equal entries key = some w) :
    ∃ entry ∈ entries, entry.2 = w ∧ answersTo T equal key entry = true := by
  rw [hashed_get_eq, Option.map_eq_some_iff] at found
  obtain ⟨entry, first, second⟩ := found
  exact ⟨entry, List.mem_of_find?_eq_some first, second, List.find?_some first⟩

/-- An entry that answers, and is the only one to do so, is found. -/
theorem hashed_get_of_only {entry : Value × Value} (member : entry ∈ entries)
    (answers : answersTo T equal key entry = true)
    (only : ∀ other ∈ entries, answersTo T equal key other = true → other = entry) :
    hashedGet T equal entries key = some entry.2 := by
  rw [hashed_get_eq]
  cases found : entries.find? (answersTo T equal key) with
  | none =>
      have silent := List.find?_eq_none.mp found entry member
      contradiction
  | some other =>
      rw [only other (List.mem_of_find?_eq_some found) (List.find?_some found)]
      rfl

theorem hashed_get_congr
    (same : ∀ entry ∈ entries, equal entry.1 key = equal' entry.1 key) :
    hashedGet T equal entries key = hashedGet T equal' entries key := by
  rw [hashed_get_eq, hashed_get_eq]
  have found : entries.find? (answersTo T equal key) =
      entries.find? (answersTo T equal' key) := by
    induction entries with
    | nil => rfl
    | cons entry rest induction =>
        have here : answersTo T equal key entry = answersTo T equal' key entry := by
          unfold answersTo
          rw [same entry List.mem_cons_self]
        rw [List.find?_cons, List.find?_cons, here,
          induction fun other member => same other (List.mem_cons_of_mem entry member)]
  rw [found]

end Lookup

section Depth

variable (T : ClassTable) {equal equal' : Value → Value → Bool}

theorem seq_equal_congr {sa sb : SeqView}
    (same : ∀ i, equal (sa.elemAt i) (sb.elemAt i) = equal' (sa.elemAt i) (sb.elemAt i)) :
    seqEqual equal sa sb = seqEqual equal' sa sb := by
  unfold seqEqual
  simp only [same]

theorem product_equals_congr {x y : Instance}
    (same : ∀ key, equal (x.element key) (y.element key) = equal' (x.element key) (y.element key)) :
    productEquals T equal x y = productEquals T equal' x y := by
  unfold productEquals
  simp only [same]

theorem keyed_equal_congr {da db : Keyed}
    (same : ∀ entry ∈ da.entries, ∀ other ∈ db.entries,
      equal other.1 entry.1 = equal' other.1 entry.1 ∧
        equal entry.2 other.2 = equal' entry.2 other.2) :
    keyedEqual T equal da db = keyedEqual T equal' da db := by
  have entrywise : ∀ entry ∈ da.entries,
      eqVisit T equal da.isSet db.entries entry = eqVisit T equal' da.isSet db.entries entry := by
    intro entry member
    have lookup := hashed_get_congr T (fun other there => (same entry member other there).1)
    unfold eqVisit
    rw [lookup]
    cases found : hashedGet T equal' db.entries entry.1 with
    | none => rfl
    | some w =>
        obtain ⟨other, there, rfl, -⟩ := hashed_get_some T found
        simp only [(same entry member other there).2]
  have whole : da.entries.all (eqVisit T equal da.isSet db.entries) =
      da.entries.all (eqVisit T equal' da.isSet db.entries) := by
    rw [Bool.eq_iff_iff, List.all_eq_true, List.all_eq_true]
    exact forall₂_congr fun entry member => by rw [entrywise entry member]
  unfold keyedEqual
  rw [whole]

/-- From some depth on `valuesEqualWithin` does not depend on the depth. -/
theorem enough_depth {depth depth' : Nat} {a b : Value} (enough : a.height + b.height < depth)
    (enough' : a.height + b.height < depth') :
    valuesEqualWithin T depth a b = valuesEqualWithin T depth' a b := by
  induction depth generalizing depth' a b with
  | zero => omega
  | succ depth induction =>
      obtain ⟨below, rfl⟩ : ∃ below, depth' = below + 1 := ⟨depth' - 1, by omega⟩
      have part : ∀ {x y : Value}, x.height + y.height + 2 ≤ a.height + b.height →
          valuesEqualWithin T depth x y = valuesEqualWithin T below x y :=
        fun small => induction (by omega) (by omega)
      simp only [valuesEqualWithin]
      split
      · rfl
      · split
        · rfl
        · split
          · next sa sb first second =>
              apply seq_equal_congr
              intro i
              have left := height_elem first i
              have right := height_elem second i
              exact part (by omega)
          · unfold instanceEquals
            split
            · next x y first second =>
                apply product_equals_congr
                intro key
                have left := height_element first key
                have right := height_element second key
                exact part (by omega)
            · split
              · next da db first second =>
                  apply keyed_equal_congr
                  intro entry member other there
                  have left := height_entry first member
                  have right := height_entry second there
                  exact ⟨part (by omega), part (by omega)⟩
              · rfl
          · rfl

end Depth

end ProtoScala.Runtime.ValueFacts
