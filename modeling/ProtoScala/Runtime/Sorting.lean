import Mathlib
import ProtoScala.Library.SortedRuns
import ProtoScala.Runtime.Calls

/-!
# Sorting

`sortSeq`, the bottom-up merge sort behind `sorted`, `sortBy` and `sortWith`. It sorts
indices; the comparison is code of the program or `compareValues`, which asks protoCore's
`compare`. A run of the model ends where an unsigned computation wraps.
-/

namespace ProtoScala.Runtime.Sorting

open ProtoScala.Library.Effects
open ProtoScala.Library.Effects.Eff
open ProtoScala.Library.SortedRuns
open ProtoScala.Runtime.Calls
open ProtoScala.Runtime.Hashing
open ProtoScala.Runtime.Values
open ProtoScala.Runtime.Values.Value

set_option autoImplicit false

/-! ## The comparison -/

/-- protoCore's `compare`; it throws for operands that it cannot order. -/
abbrev Compare : Type := Value → Value → Option Int

def needsComparable (method : String) : Thrown :=
  .scalaError "IllegalArgumentException" (method ++ " needs comparable elements; use sortWith")

def isStringTagFast : Value → Bool
  | .string _ => true
  | _ => false

def compareValues (compare : Compare) (method : String) (a b : Value) : Except Thrown Int :=
  let x := widenChar a
  let y := widenChar b
  let numeric := isNumberFast x && isNumberFast y
  let strings := isStringTagFast x && isStringTagFast y
  match x, y with
  | .bool p, .bool q => .ok (if p = q then 0 else if p = false then -1 else 1)
  | x, y =>
      if !numeric && !strings then .error (needsComparable method)
      else
        match compare x y with
        | some c => .ok c
        | none => .error (needsComparable method)

/-! ## The sort -/

/-- `none` is a computation that wraps. -/
abbrev Sort32 (σ α : Type) : Type := Eff σ (Option Thrown) α

variable {σ : Type} (typeName : Value → String) (compare : Compare)

def call {α : Type} (code : Code σ α) : Sort32 σ α := fun state =>
  match code state with
  | (.ok result, state) => (.ok result, state)
  | (.error thrown, state) => (.error (some thrown), state)

def unsigned (value : Nat) : Sort32 σ Unit :=
  if value < 2 ^ 32 then pure () else Eff.raise none

def element (elems : List Value) (i : Nat) : Value := elems.getD i .null

/-- `keyFn ? callOne(ctx, keyFn, elems[i]) : elems[i]`, for each element. -/
def keysOf (keyFn : Option (Function σ)) : List Value → Code σ (List Value)
  | [] => pure []
  | v :: vs => do
      let key ← match keyFn with
        | some keyFn => keyFn v
        | none => pure v
      let keys ← keysOf keyFn vs
      return key :: keys

def before (lessFn : Option (Value → Function σ)) (method : String) (elems keys : List Value)
    (a b : Nat) : Code σ Bool :=
  match lessFn with
  | some lessFn => do
      let answer ← lessFn (element elems a) (element elems b)
      truth typeName method answer
  | none => fun state =>
      match compareValues compare method (element keys a) (element keys b) with
      | .ok c => (.ok (decide (c < 0)), state)
      | .error thrown => (.error thrown, state)

section Merging

variable (precedes : Nat → Nat → Sort32 σ Bool)

/-- What the three inner loops put in `buf`. -/
def merge (idx : List Nat) (mid hi i j : Nat) : Sort32 σ (List Nat) :=
  if _both : i < mid ∧ j < hi then do
    if ← precedes (idx.getD j 0) (idx.getD i 0) then
      let buf ← merge idx mid hi i (j + 1)
      return idx.getD j 0 :: buf
    else
      let buf ← merge idx mid hi (i + 1) j
      return idx.getD i 0 :: buf
  else pure ((idx.take mid).drop i ++ (idx.take hi).drop j)
termination_by (mid - i) + (hi - j)

/-- One round over `idx` from `lo` on, merging neighbours of `width`. -/
def pass (n width : Nat) (positive : 0 < width) (lo : Nat) (idx : List Nat) :
    Sort32 σ (List Nat) :=
  if _more : lo < n then do
    unsigned (lo + width)
    unsigned (2 * width)
    unsigned (lo + 2 * width)
    let mid := if lo + width < n then lo + width else n
    let hi := if lo + 2 * width < n then lo + 2 * width else n
    let buf ← merge precedes idx mid hi lo mid
    pass n width positive (lo + 2 * width) (idx.take lo ++ buf ++ idx.drop hi)
  else pure idx
termination_by n - lo

def passes (n width : Nat) (positive : 0 < width) (idx : List Nat) : Sort32 σ (List Nat) :=
  if _more : width < n then do
    let idx ← pass precedes n width positive 0 idx
    unsigned (width * 2)
    passes n (width * 2) (Nat.mul_pos positive Nat.two_pos) idx
  else pure idx
termination_by n - width

end Merging

def sortSeq (keyFn : Option (Function σ)) (lessFn : Option (Value → Function σ))
    (method : String) (xs : List Value) : Sort32 σ (List Value) := do
  let n := xs.length % 2 ^ 32
  if n < 2 then return xs
  unsigned (3 * n + 2)
  let elems := xs.take n
  let keys ← call (keysOf keyFn elems)
  let idx ← passes (fun a b => call (before typeName compare lessFn method elems keys a b))
    n 1 Nat.one_pos (List.range n)
  return idx.map (element elems)

def sorted (xs : List Value) : Sort32 σ (List Value) :=
  sortSeq typeName compare none none "sorted" xs

def sortBy (keyFn : Function σ) (xs : List Value) : Sort32 σ (List Value) :=
  sortSeq typeName compare (some keyFn) none "sortBy" xs

def sortWith (lessFn : Value → Function σ) (xs : List Value) : Sort32 σ (List Value) :=
  sortSeq typeName compare none (some lessFn) "sortWith" xs

/-! ## What a sort is -/

/-- `compareValues` says that `a` comes first. -/
def Less (method : String) (a b : Value) : Prop :=
  ∃ c, compareValues compare method a b = .ok c ∧ c < 0

structure StrictWeak (lt : Value → Value → Prop) (members : List Value) : Prop where
  asymmetric : ∀ a ∈ members, ∀ b ∈ members, lt a b → ¬ lt b a
  incomparable : ∀ a ∈ members, ∀ b ∈ members, ∀ c ∈ members, ¬ lt a b → ¬ lt b c → ¬ lt a c

/-- The place `a` goes before the place `b`: by the keys, equal keys by place. -/
def Precedes (lt : Value → Value → Prop) (keys : List Value) (a b : Nat) : Prop :=
  ¬ lt (element keys b) (element keys a) ∧
    (¬ lt (element keys a) (element keys b) → a < b)

/-- `out` has the elements of `xs`, sorted by their keys, equal keys in the order of `xs`. -/
def SortedBy (lt : Value → Value → Prop) (keys xs out : List Value) : Prop :=
  ∃ places : List Nat, places.Perm (List.range xs.length) ∧
    places.Pairwise (Precedes lt keys) ∧ out = places.map (element xs)

theorem element_member {keys : List Value} {i : Nat} (inside : i < keys.length) :
    element keys i ∈ keys := by
  rw [element, List.getD_eq_getElem keys _ inside]
  exact List.getElem_mem inside

theorem elements_of_range (xs : List Value) :
    (List.range xs.length).map (element xs) = xs := by
  refine List.ext_getElem (by simp) ?_
  intro i _ inside
  simp [element, inside]

theorem perm_of_places {xs : List Value} {places : List Nat}
    (perm : places.Perm (List.range xs.length)) : (places.map (element xs)).Perm xs := by
  have mapped := perm.map (element xs)
  rwa [elements_of_range] at mapped

/-- `Precedes` among the places of the keys. -/
def Placed (lt : Value → Value → Prop) (keys : List Value) (a b : Nat) : Prop :=
  a < keys.length ∧ b < keys.length ∧ Precedes lt keys a b

theorem Placed.trans {lt : Value → Value → Prop} {keys : List Value} (weak : StrictWeak lt keys)
    {a b c : Nat} (first : Placed lt keys a b) (second : Placed lt keys b c) :
    Placed lt keys a c := by
  obtain ⟨insideA, insideB, notBefore, stable⟩ := first
  obtain ⟨-, insideC, notBefore', stable'⟩ := second
  have memberA := element_member insideA
  have memberB := element_member insideB
  have memberC := element_member insideC
  refine ⟨insideA, insideC, ?_, fun equal => ?_⟩
  · exact weak.incomparable _ memberC _ memberB _ memberA notBefore' notBefore
  · have equal_ab := weak.incomparable _ memberA _ memberC _ memberB equal notBefore'
    have equal_bc := weak.incomparable _ memberB _ memberA _ memberC notBefore equal
    exact Nat.lt_trans (stable equal_ab) (stable' equal_bc)

/-! ## Merging -/

/-- What the comparison of the place `b` with an earlier place `a` says about their order. -/
def Agrees (n : Nat) (ans : Nat → Nat → Bool → Prop) (r : Nat → Nat → Prop) : Prop :=
  ∀ a b, a < b → b < n → (ans b a true → r b a) ∧ (ans b a false → r a b)

section Merging

variable {precedes : Nat → Nat → Sort32 σ Bool} {inv : σ → Prop}
  {ans : Nat → Nat → Bool → Prop} {bad : Option Thrown → σ → Prop} {r : Nat → Nat → Prop}

theorem slice_step {idx : List Nat} {j hi : Nat} (more : j < hi) (inside : hi ≤ idx.length) :
    (idx.take hi).drop j = idx.getD j 0 :: (idx.take hi).drop (j + 1) := by
  have here : j < (idx.take hi).length := by
    rw [List.length_take]
    omega
  rw [List.drop_eq_getElem_cons here, List.getElem_take, List.getD_eq_getElem]

/-- What `merge` puts in `buf`, of the places in `first` and in `second`. -/
structure Merged (ans : Nat → Nat → Bool → Prop) (r : Nat → Nat → Prop)
    (first second buf : List Nat) : Prop where
  perm : buf.Perm (first ++ second)
  ordered : first.Pairwise r → second.Pairwise r →
    (∀ a ∈ first, ∀ b ∈ second, (ans b a true → r b a) ∧ (ans b a false → r a b)) →
    buf.Pairwise r

theorem Merged.take_second (trans : ∀ a b c, r a b → r b c → r a c) {a b : Nat}
    {first second buf : List Nat} (said : ans b a true)
    (merged : Merged ans r (a :: first) second buf) :
    Merged ans r (a :: first) (b :: second) (b :: buf) := by
  refine ⟨(merged.perm.cons b).trans List.perm_middle.symm, fun left right agrees => ?_⟩
  obtain ⟨behindB, rightRest⟩ := List.pairwise_cons.mp right
  refine List.pairwise_cons.mpr ⟨fun x member => ?_, merged.ordered left rightRest ?_⟩
  · have before_a := (agrees a List.mem_cons_self b List.mem_cons_self).1 said
    rcases List.mem_append.mp (merged.perm.mem_iff.mp member) with inFirst | inSecond
    · rcases List.mem_cons.mp inFirst with rfl | later
      · exact before_a
      · exact trans _ _ _ before_a (List.rel_of_pairwise_cons left later)
    · exact behindB x inSecond
  · intro x inFirst y inSecond
    exact agrees x inFirst y (List.mem_cons_of_mem b inSecond)

theorem Merged.take_first (trans : ∀ a b c, r a b → r b c → r a c) {a b : Nat}
    {first second buf : List Nat} (said : ans b a false)
    (merged : Merged ans r first (b :: second) buf) :
    Merged ans r (a :: first) (b :: second) (a :: buf) := by
  refine ⟨merged.perm.cons a, fun left right agrees => ?_⟩
  obtain ⟨behindA, leftRest⟩ := List.pairwise_cons.mp left
  refine List.pairwise_cons.mpr ⟨fun x member => ?_, merged.ordered leftRest right ?_⟩
  · have before_b := (agrees a List.mem_cons_self b List.mem_cons_self).2 said
    rcases List.mem_append.mp (merged.perm.mem_iff.mp member) with inFirst | inSecond
    · exact behindA x inFirst
    · rcases List.mem_cons.mp inSecond with rfl | later
      · exact before_b
      · exact trans _ _ _ before_b (List.rel_of_pairwise_cons right later)
  · intro x inFirst y inSecond
    exact agrees x (List.mem_cons_of_mem a inFirst) y inSecond

theorem merge_triple
    (comparison : ∀ a b,
      Triple inv (precedes a b) (fun answer state => ans a b answer ∧ inv state) bad)
    (trans : ∀ a b c, r a b → r b c → r a c) {idx : List Nat} {mid hi : Nat}
    (insideMid : mid ≤ idx.length) (insideHi : hi ≤ idx.length) (i j : Nat) :
    Triple inv (merge precedes idx mid hi i j)
      (fun buf state => Merged ans r ((idx.take mid).drop i) ((idx.take hi).drop j) buf ∧
        inv state) bad := by
  induction i, j using merge.induct mid hi with
  | case1 i j both takeSecond takeFirst =>
      rw [slice_step both.1 insideMid] at takeSecond ⊢
      rw [slice_step both.2 insideHi] at takeFirst ⊢
      rw [merge, dif_pos both]
      refine Triple.bind (comparison _ _) fun answer => Triple.assume fun said => ?_
      cases answer with
      | true =>
          exact Triple.bind takeSecond fun buf => Triple.pure fun state ⟨merged, holds⟩ =>
            ⟨merged.take_second trans said, holds⟩
      | false =>
          exact Triple.bind takeFirst fun buf => Triple.pure fun state ⟨merged, holds⟩ =>
            ⟨merged.take_first trans said, holds⟩
  | case2 i j done =>
      rw [merge, dif_neg done]
      refine Triple.pure fun state holds => ⟨⟨List.Perm.refl _, fun left right _ => ?_⟩, holds⟩
      -- one of the two is empty
      rcases Nat.lt_or_ge i mid with more | past
      · have empty : (idx.take hi).drop j = [] := by
          rw [List.drop_eq_nil_iff, List.length_take]
          omega
        rwa [empty, List.append_nil]
      · have empty : (idx.take mid).drop i = [] := by
          rw [List.drop_eq_nil_iff, List.length_take]
          omega
        rwa [empty, List.nil_append]

theorem unsigned_small {value : Nat} (small : value < 2 ^ 32) :
    (unsigned value : Sort32 σ Unit) = pure () := if_pos small

/-- The places from `lo` to `lo + w`, or to the end. -/
theorem slice {idx : List Nat} {n : Nat} (length : idx.length = n) (lo w : Nat) :
    (idx.take (if lo + w < n then lo + w else n)).drop lo = (idx.drop lo).take w := by
  rw [List.drop_take]
  split_ifs
  · rw [Nat.add_sub_cancel_left]
  · rw [List.take_of_length_le, List.take_of_length_le] <;> rw [List.length_drop] <;> omega

theorem second_slice {idx : List Nat} {n : Nat} (length : idx.length = n) (lo w : Nat) :
    (idx.take (if lo + 2 * w < n then lo + 2 * w else n)).drop
      (if lo + w < n then lo + w else n) = ((idx.drop lo).drop w).take w := by
  rw [List.drop_drop]
  by_cases inside : lo + w < n
  · rw [if_pos inside, ← slice length (lo + w) w, Nat.add_assoc, ← Nat.two_mul]
  · rw [if_neg inside, if_neg (by omega), List.drop_of_length_le (by rw [List.length_take]; omega),
      List.drop_of_length_le (by omega), List.take_nil]

/-- `idx` after the merge, cut where the next one begins. -/
theorem cut {idx buf : List Nat} {n lo w : Nat} (length : idx.length = n) (inside : lo < n)
    (filled : buf.length = ((idx.drop lo).take (2 * w)).length) :
    let idx' := idx.take lo ++ buf ++ idx.drop (if lo + 2 * w < n then lo + 2 * w else n)
    idx'.take (lo + 2 * w) = idx.take lo ++ buf ∧ idx'.drop (lo + 2 * w) = idx.drop (lo + 2 * w) := by
  simp only
  rw [List.length_take, List.length_drop] at filled
  have front : (idx.take lo ++ buf).length = min (lo + 2 * w) n := by
    rw [List.length_append, List.length_take]
    omega
  split_ifs with more
  · have exactly : (idx.take lo ++ buf).length = lo + 2 * w := by omega
    exact ⟨List.take_left' exactly, List.drop_left' exactly⟩
  · rw [List.drop_of_length_le (i := n) (by omega), List.append_nil]
    exact ⟨List.take_of_length_le (by omega), by
      rw [List.drop_of_length_le (by omega), List.drop_of_length_le (by omega)]⟩

/-- What a round does behind `lo`, with the places in `todo`. -/
structure Doubled (n : Nat) (ans : Nat → Nat → Bool → Prop) (r : Nat → Nat → Prop)
    (width lo : Nat) (todo later : List Nat) : Prop where
  perm : later.Perm todo
  runs : Agrees n ans r → Runs id r width lo todo → Runs id r (2 * width) lo later

/-- The two runs at `lo` are merged and the round goes on behind them. -/
theorem Doubled.merge {n width lo : Nat} {todo buf later : List Nat}
    (small : ∀ x ∈ todo, x < n)
    (merged : Merged ans r (todo.take width) ((todo.drop width).take width) buf)
    (doubled : Doubled n ans r width (lo + 2 * width) (todo.drop (2 * width)) later) :
    Doubled n ans r width lo todo (buf ++ later) := by
  have split : todo.take width ++ (todo.drop width).take width ++ todo.drop (2 * width) = todo := by
    rw [List.append_assoc, Nat.two_mul, ← List.drop_drop, List.take_append_drop,
      List.take_append_drop]
  refine ⟨?_, fun agrees runs => ?_⟩
  · nth_rewrite 1 [← split]
    exact merged.perm.append doubled.perm
  · have left := runs.first
    have right := (runs.rest 1).first
    have behind := runs.rest 2
    rw [Nat.one_mul] at right
    have ordered := merged.ordered left.ordered right.ordered fun a inFirst b inSecond =>
      agrees a b (Nat.lt_of_lt_of_le (left.below a inFirst) (right.above b inSecond))
        (small b (List.mem_of_mem_drop (List.mem_of_mem_take inSecond)))
    have both := left.merged right ⟨Nat.le_add_right _ _, Nat.le_add_right _ _⟩ merged.perm ordered
    rw [Nat.add_assoc, ← Nat.two_mul] at both
    refine Runs.cons both ?_ (doubled.runs agrees behind)
    have length := merged.perm.length_eq
    simp only [List.length_append, List.length_take, List.length_drop] at length
    rcases Nat.lt_or_ge todo.length (2 * width) with short | long
    · right
      refine ⟨by omega, ?_⟩
      have none_left : todo.drop (2 * width) = [] := List.drop_of_length_le (Nat.le_of_lt short)
      have perm := doubled.perm
      rw [none_left] at perm
      exact perm.eq_nil
    · left
      omega

theorem pass_triple
    (comparison : ∀ a b,
      Triple inv (precedes a b) (fun answer state => ans a b answer ∧ inv state) bad)
    (trans : ∀ a b c, r a b → r b c → r a c) {n width : Nat} (small : 3 * n + 2 < 2 ^ 32)
    (positive : 0 < width) (narrow : width < n) (lo : Nat) (idx : List Nat) :
    idx.length = n → (∀ x ∈ idx, x < n) →
    Triple inv (pass precedes n width positive lo idx)
      (fun out state =>
        (∃ later, out = idx.take lo ++ later ∧ Doubled n ans r width lo (idx.drop lo) later) ∧
          inv state) bad := by
  induction lo, idx using pass.induct n width positive with
  | case1 lo idx more ih =>
      intro length places
      simp only [dite_eq_ite] at ih
      rw [pass, dif_pos more, unsigned_small (by omega), unsigned_small (by omega),
        unsigned_small (by omega)]
      simp only [pure_bind]
      refine Triple.bind (merge_triple comparison trans ?_ ?_ lo _) fun buf => ?_
      · split_ifs <;> omega
      · split_ifs <;> omega
      rw [slice length, second_slice length]
      refine Triple.assume fun merged => ?_
      have filled : buf.length = ((idx.drop lo).take (2 * width)).length := by
        rw [merged.perm.length_eq]
        simp only [List.length_append, List.length_take, List.length_drop]
        omega
      obtain ⟨front, behind⟩ := cut length more filled
      refine Triple.weaken (ih buf ?_ ?_) ?_ fun _ _ => id
      · simp only [List.length_append, List.length_take, List.length_drop] at filled ⊢
        split_ifs <;> omega
      · intro x member
        simp only [List.mem_append] at member
        rcases member with (inFront | inBuf) | later
        · exact places x (List.mem_of_mem_take inFront)
        · rcases List.mem_append.mp (merged.perm.mem_iff.mp inBuf) with inFirst | inSecond
          · exact places x (List.mem_of_mem_drop (List.mem_of_mem_take inFirst))
          · exact places x (List.mem_of_mem_drop
              (List.mem_of_mem_drop (List.mem_of_mem_take inSecond)))
        · exact places x (List.mem_of_mem_drop later)
      · rintro out state ⟨⟨later, rfl, doubled⟩, holds⟩
        rw [behind, ← List.drop_drop] at doubled
        refine ⟨⟨buf ++ later, ?_, ?_⟩, holds⟩
        · rw [front, List.append_assoc]
        · exact doubled.merge (fun x member => places x (List.mem_of_mem_drop member)) merged
  | case2 lo idx done =>
      intro length places
      rw [pass, dif_neg done]
      have past : idx.length ≤ lo := by omega
      refine Triple.pure fun state holds => ⟨⟨[], ?_, ?_⟩, holds⟩
      · rw [List.append_nil, List.take_of_length_le past]
      · rw [List.drop_of_length_le past]
        exact ⟨List.Perm.refl _, fun _ _ => Runs.nil _ _⟩

theorem passes_triple
    (comparison : ∀ a b,
      Triple inv (precedes a b) (fun answer state => ans a b answer ∧ inv state) bad)
    (trans : ∀ a b c, r a b → r b c → r a c) {n width : Nat} (small : 3 * n + 2 < 2 ^ 32)
    (positive : 0 < width) (idx : List Nat) :
    idx.Perm (List.range n) →
    Triple inv (passes precedes n width positive idx)
      (fun out state => (out.Perm (List.range n) ∧
        (Agrees n ans r → Runs id r width 0 idx → out.Pairwise r)) ∧ inv state) bad := by
  induction width, positive, idx using passes.induct n with
  | case1 width positive idx more ih =>
      intro perm
      have length : idx.length = n := by rw [perm.length_eq, List.length_range]
      rw [passes, dif_pos more]
      refine Triple.bind (pass_triple comparison trans small positive more 0 idx length
        fun x member => List.mem_range.mp (perm.mem_iff.mp member)) fun round => ?_
      refine Triple.assume fun ⟨later, split, doubled⟩ => ?_
      rw [List.take_zero, List.nil_append] at split
      rw [List.drop_zero] at doubled
      subst split
      rw [unsigned_small (by omega), pure_bind]
      refine Triple.weaken (ih round (doubled.perm.trans perm)) ?_ fun _ _ => id
      rintro out state ⟨⟨outPerm, ordered⟩, holds⟩
      refine ⟨⟨outPerm, fun agrees runs => ordered agrees ?_⟩, holds⟩
      rw [Nat.mul_comm]
      exact doubled.runs agrees runs
  | case2 width positive idx done =>
      intro perm
      rw [passes, dif_neg done]
      refine Triple.pure fun state holds => ⟨⟨perm, fun _ runs => runs.whole ?_⟩, holds⟩
      rw [perm.length_eq, List.length_range]
      exact Nat.le_of_not_lt done

end Merging

/-! ## The whole sort -/

theorem call_triple {α : Type} {pre : σ → Prop} {code : Code σ α} {ok : α → σ → Prop}
    {bad : Option Thrown → σ → Prop}
    (triple : Triple pre code ok fun thrown state => bad (some thrown) state) :
    Triple pre (call code) ok bad := by
  intro state holds
  have ending := triple state holds
  unfold call
  generalize code state = reached at ending ⊢
  obtain ⟨thrown | result, state'⟩ := reached <;> exact ending

/-- The keys are asked for one element after the other. -/
theorem keys_triple {keyFn : Function σ} {P : List Value → List Value → σ → Prop}
    {bad : Thrown → σ → Prop} {xs : List Value}
    (one : ∀ done keys v rest, xs = done ++ v :: rest →
      Triple (P done keys) (keyFn v) (fun key => P (done ++ [v]) (keys ++ [key])) bad)
    (done keys rest : List Value) (split : xs = done ++ rest) :
    Triple (P done keys) (keysOf (some keyFn) rest)
      (fun later => P xs (keys ++ later)) bad := by
  induction rest generalizing done keys with
  | nil =>
      rw [List.append_nil] at split
      subst split
      refine Triple.pure fun state holds => ?_
      rwa [List.append_nil]
  | cons v rest ih =>
      refine Triple.bind (one done keys v rest split) fun key => ?_
      refine Triple.bind (ih (done ++ [v]) (keys ++ [key]) (by simp [split])) fun later => ?_
      refine Triple.pure fun state holds => ?_
      rwa [List.append_cons]

theorem no_keys (xs : List Value) : (keysOf none xs : Code σ (List Value)) = pure xs := by
  induction xs with
  | nil => rfl
  | cons v vs ih =>
      rw [keysOf, ih]
      rfl

theorem sort_triple {keyFn : Option (Function σ)} {lessFn : Option (Value → Function σ)}
    {method : String} {xs : List Value} (small : 3 * xs.length + 2 < 2 ^ 32)
    (large : 2 ≤ xs.length)
    {pre : σ → Prop} (inv : List Value → σ → Prop)
    (ans : List Value → Nat → Nat → Bool → Prop) {bad : Option Thrown → σ → Prop}
    (r : List Value → Nat → Nat → Prop)
    (keyed : Triple pre (keysOf keyFn xs) inv fun thrown state => bad (some thrown) state)
    (comparison : ∀ keys a b, Triple (inv keys) (before typeName compare lessFn method xs keys a b)
      (fun answer state => ans keys a b answer ∧ inv keys state)
      fun thrown state => bad (some thrown) state)
    (trans : ∀ keys a b c, r keys a b → r keys b c → r keys a c) :
    Triple pre (sortSeq typeName compare keyFn lessFn method xs)
      (fun out state => ∃ keys places : List _, out = places.map (element xs) ∧
        places.Perm (List.range xs.length) ∧
        (Agrees xs.length (ans keys) (r keys) → places.Pairwise (r keys)) ∧ inv keys state)
      bad := by
  unfold sortSeq
  simp only
  rw [Nat.mod_eq_of_lt (show xs.length < 2 ^ 32 by omega), if_neg (by omega),
    unsigned_small small, List.take_length, pure_bind]
  refine Triple.bind (call_triple keyed) fun keys => ?_
  refine Triple.bind (passes_triple (r := r keys) (fun a b => call_triple (comparison keys a b))
    (trans keys) small Nat.one_pos _ (List.Perm.refl _)) fun places => ?_
  refine Triple.pure fun state ⟨⟨perm, ordered⟩, holds⟩ => ?_
  refine ⟨keys, places, rfl, perm, fun agrees => ordered agrees (Runs.single ?_), holds⟩
  intro i x found
  have inside := (List.getElem?_eq_some_iff.mp found)
  obtain ⟨bound, rfl⟩ := inside
  simp

theorem short_sort (keyFn : Option (Function σ)) (lessFn : Option (Value → Function σ))
    (method : String) {xs : List Value} (short : xs.length < 2) :
    sortSeq typeName compare keyFn lessFn method xs = pure xs := by
  unfold sortSeq
  exact if_pos ((Nat.mod_le _ _).trans_lt short)

/-- A wrapped size of the storage ends the run at once. -/
theorem large_sort (keyFn : Option (Function σ)) (lessFn : Option (Value → Function σ))
    (method : String) {xs : List Value} (fits : xs.length < 2 ^ 32)
    (large : 2 ^ 32 ≤ 3 * xs.length + 2) :
    sortSeq typeName compare keyFn lessFn method xs = Eff.raise none := by
  unfold sortSeq
  simp only
  rw [Nat.mod_eq_of_lt fits, if_neg (by omega), unsigned, if_neg (by omega)]
  rfl

/-- The comparison by keys changes nothing. -/
theorem before_keys (method : String) (elems keys : List Value) (inv : σ → Prop) (a b : Nat) :
    Triple inv (before typeName compare none method elems keys a b)
      (fun answer state =>
        (answer = true ↔ Less compare method (element keys a) (element keys b)) ∧ inv state)
      (fun thrown state => compareValues compare method (element keys a) (element keys b) =
        .error thrown ∧ inv state) := by
  intro state holds
  unfold before Less
  cases compared : compareValues compare method (element keys a) (element keys b) with
  | ok c => exact ⟨by simp, holds⟩
  | error thrown => exact ⟨rfl, holds⟩

/-- A comparison that answers a strict weak order puts every two places in order. -/
theorem placed_agrees {lt : Value → Value → Prop} {keys : List Value} (weak : StrictWeak lt keys) :
    Agrees keys.length
      (fun a b answer => answer = true ↔ lt (element keys a) (element keys b))
      (Placed lt keys) := by
  intro a b earlier inside
  have insideA := earlier.trans inside
  constructor
  · intro said
    have first := said.mp rfl
    exact ⟨inside, insideA,
      weak.asymmetric _ (element_member inside) _ (element_member insideA) first,
      fun not_first => absurd first not_first⟩
  · intro said
    exact ⟨insideA, inside, fun first => Bool.false_ne_true (said.mpr first), fun _ => earlier⟩

/-- `thrown` comes from a call of `keyFn` or from a comparison. -/
inductive ThrownBy (keyFn : Option (Function σ)) (lessFn : Option (Value → Function σ))
    (method : String) (thrown : Thrown) : Prop
  | key {f : Function σ} {v : Value} {state : σ} (given : keyFn = some f)
      (ending : (f v state).1 = .error thrown)
  | comparison {elems keys : List Value} {a b : Nat} {state : σ}
      (ending : (before typeName compare lessFn method elems keys a b state).1 = .error thrown)

/-- Any code: what it throws, it throws. -/
theorem any_code {α : Type} (code : Code σ α) :
    Triple (fun _ => True) code (fun _ _ => True)
      (fun thrown _ => ∃ state, (code state).1 = .error thrown) := by
  intro state _
  cases reached : code state with
  | mk ending state' =>
      cases ending with
      | ok result => trivial
      | error thrown => exact ⟨state, by rw [reached]⟩

theorem keys_thrown (keyFn : Option (Function σ)) (lessFn : Option (Value → Function σ))
    (method : String) (xs : List Value) :
    Triple (fun _ => True) (keysOf keyFn xs) (fun _ _ => True)
      (fun thrown _ => ThrownBy typeName compare keyFn lessFn method thrown) := by
  cases keyFn with
  | none =>
      rw [no_keys]
      exact Triple.pure fun _ _ => trivial
  | some f =>
      exact keys_triple (P := fun _ _ _ => True) (fun _ _ v _ _ =>
        Triple.weaken (any_code (f v)) (fun _ _ => id)
          fun _ _ ⟨_, ending⟩ => ThrownBy.key rfl ending) [] [] xs rfl

/-- A sort ends with a permutation, unless one of its calls throws. -/
theorem sort_permutes (keyFn : Option (Function σ)) (lessFn : Option (Value → Function σ))
    (method : String) {xs : List Value} (small : 3 * xs.length + 2 < 2 ^ 32) :
    Triple (fun _ => True) (sortSeq typeName compare keyFn lessFn method xs)
      (fun out _ => out.Perm xs)
      (fun stop _ => ∃ thrown, stop = some thrown ∧
        ThrownBy typeName compare keyFn lessFn method thrown) := by
  rcases Nat.lt_or_ge xs.length 2 with short | large
  · rw [short_sort typeName compare keyFn lessFn method short]
    exact Triple.pure fun _ _ => List.Perm.refl xs
  · refine Triple.weaken (sort_triple typeName compare small large (fun _ _ => True)
      (fun _ _ _ _ => True) (fun _ _ _ => False) ?_ ?_ fun _ _ _ _ => False.elim) ?_
      fun _ _ => id
    · exact Triple.weaken (keys_thrown typeName compare keyFn lessFn method xs) (fun _ _ => id)
        fun thrown _ by_call => ⟨thrown, rfl, by_call⟩
    · intro keys a b
      exact Triple.weaken (any_code _) (fun _ _ _ => ⟨trivial, trivial⟩)
        fun thrown _ ⟨_, ending⟩ => ⟨thrown, rfl, ThrownBy.comparison ending⟩
    · rintro out state ⟨keys, places, rfl, perm, -, -⟩
      exact perm_of_places perm

/-- `lessFn` answers the order `lt`. -/
def Decides (lt : Value → Value → Prop) (lessFn : Value → Function σ) : Prop :=
  ∀ a b, Triple (fun _ => True) (lessFn a b)
    (fun answer _ => ∃ p : Bool, answer = .bool p ∧ (p = true ↔ lt a b)) (fun _ _ => True)

theorem before_answers {lessFn : Value → Function σ} {ok : Nat → Nat → Bool → Prop}
    {bad : Thrown → σ → Prop} {elems : List Value}
    (answers : ∀ a b, Triple (fun _ => True) (lessFn (element elems a) (element elems b))
      (fun answer _ => ∃ p : Bool, answer = .bool p ∧ ok a b p) bad)
    (method : String) (keys : List Value) (a b : Nat) :
    Triple (fun _ => True) (before typeName compare (some lessFn) method elems keys a b)
      (fun p _ => ok a b p) bad := by
  refine Triple.bind (answers a b) fun answer state is_bool => ?_
  obtain ⟨p, rfl, holds⟩ := is_bool
  exact holds

/-! ## The order of the result -/

theorem short_sorted (lt : Value → Value → Prop) (keys : List Value) {xs : List Value}
    (short : xs.length < 2) : SortedBy lt keys xs xs := by
  refine ⟨List.range xs.length, List.Perm.refl _, ?_, (elements_of_range xs).symm⟩
  obtain none | one : xs.length = 0 ∨ xs.length = 1 := by omega
  · rw [none]
    exact List.Pairwise.nil
  · rw [one]
    exact List.pairwise_singleton _ 0

/-- The places that the comparison put in order. -/
def KeyPlaced (lt : Value → Value → Prop) (keys : List Value) (a b : Nat) : Prop :=
  StrictWeak lt keys ∧ Placed lt keys a b

theorem sorted_places {lt : Value → Value → Prop} {keys xs : List Value}
    (length : keys.length = xs.length) (weak : StrictWeak lt keys) {places : List Nat}
    (perm : places.Perm (List.range xs.length))
    (ordered : Agrees xs.length
        (fun a b answer => answer = true ↔ lt (element keys a) (element keys b))
        (KeyPlaced lt keys) → places.Pairwise (KeyPlaced lt keys)) :
    SortedBy lt keys xs (places.map (element xs)) := by
  refine ⟨places, perm, (ordered fun a b earlier inside => ?_).imp fun placed => placed.2.2.2, rfl⟩
  have agrees := placed_agrees weak a b earlier (length ▸ inside)
  exact ⟨fun said => ⟨weak, agrees.1 said⟩, fun said => ⟨weak, agrees.2 said⟩⟩

/-- The sorts that compare keys. -/
theorem keyed_sort {keyFn : Option (Function σ)} (method : String) {xs : List Value}
    (small : 3 * xs.length + 2 < 2 ^ 32) (large : 2 ≤ xs.length) {pre : σ → Prop}
    (inv : List Value → σ → Prop) (bad : Option Thrown → σ → Prop)
    (keyed : Triple pre (keysOf keyFn xs) inv fun thrown state => bad (some thrown) state)
    (thrown : ∀ keys error state, inv keys state →
      (∃ a b, compareValues compare method (element keys a) (element keys b) = .error error) →
      bad (some error) state) :
    Triple pre (sortSeq typeName compare keyFn none method xs)
      (fun out state => ∃ keys, inv keys state ∧ out.Perm xs ∧
        (keys.length = xs.length → StrictWeak (Less compare method) keys →
          SortedBy (Less compare method) keys xs out)) bad := by
  refine Triple.weaken (sort_triple typeName compare small large inv
    (fun keys a b answer =>
      answer = true ↔ Less compare method (element keys a) (element keys b))
    (KeyPlaced (Less compare method)) keyed (fun keys a b => ?_)
    fun keys a b c first second =>
      ⟨first.1, Placed.trans first.1 first.2 second.2⟩) ?_ fun _ _ => id
  · refine Triple.weaken (before_keys typeName compare method xs keys (inv keys) a b)
      (fun _ _ => id) ?_
    rintro error state ⟨raised, holds⟩
    exact thrown keys error state holds ⟨a, b, raised⟩
  · rintro out state ⟨keys, places, rfl, perm, ordered, holds⟩
    exact ⟨keys, holds, perm_of_places perm,
      fun length weak => sorted_places length weak perm ordered⟩

theorem sort_with_ordered {lt : Value → Value → Prop} {lessFn : Value → Function σ}
    {xs : List Value} (small : 3 * xs.length + 2 < 2 ^ 32) (weak : StrictWeak lt xs)
    (decides : Decides lt lessFn) :
    Triple (fun _ => True) (sortWith typeName compare lessFn xs)
      (fun out _ => SortedBy lt xs xs out) (fun _ _ => True) := by
  rcases Nat.lt_or_ge xs.length 2 with short | large
  · rw [sortWith, short_sort typeName compare none (some lessFn) _ short]
    exact Triple.pure fun _ _ => short_sorted lt xs short
  · refine Triple.weaken (sort_triple typeName compare small large (fun _ _ => True)
      (fun _ a b answer => answer = true ↔ lt (element xs a) (element xs b))
      (fun _ => KeyPlaced lt xs) ?_ (fun keys a b => ?_)
      fun _ a b c first second => ⟨first.1, Placed.trans first.1 first.2 second.2⟩) ?_
      fun _ _ => id
    · rw [no_keys]
      exact Triple.pure fun _ _ => trivial
    · exact Triple.weaken (before_answers typeName compare (fun a b => decides _ _) "sortWith" keys
        a b) (fun _ _ said => ⟨said, trivial⟩) fun _ _ => id
    · rintro out state ⟨keys, places, rfl, perm, ordered, -⟩
      exact sorted_places rfl weak perm ordered

/-! ## The calls of `keyFn` -/

abbrev Calls : Type := List (Value × Except Thrown Value)

/-- `keyFn`, with a log of its calls. -/
def logged (keyFn : Function σ) : Function (σ × Calls) := fun v state =>
  let ending := keyFn v state.1
  (ending.1, ending.2, state.2 ++ [(v, ending.1)])

def callsOf (elems keys : List Value) : Calls :=
  List.zipWith (fun v key => (v, .ok key)) elems keys

theorem calls_of_elements {elems keys : List Value} (length : keys.length = elems.length) :
    (callsOf elems keys).map Prod.fst = elems := by
  induction elems generalizing keys with
  | nil => rfl
  | cons v elems ih =>
      obtain ⟨key, keys, rfl⟩ := List.exists_cons_of_length_eq_add_one length
      have later := ih (Nat.succ.inj length)
      simpa [callsOf] using later

/-- One call for each of the elements so far. -/
def Called (elems keys : List Value) (state : σ × Calls) : Prop :=
  keys.length = elems.length ∧ state.2 = callsOf elems keys

theorem logged_keys (keyFn : Function σ) (xs : List Value) :
    Triple (fun state => state.2 = []) (keysOf (some (logged keyFn)) xs)
      (fun keys state => Called xs keys state)
      (fun _ state => state.2.map Prod.fst <+: xs) := by
  have step : ∀ done keys v rest, xs = done ++ v :: rest →
      Triple (Called done keys) (logged keyFn v)
        (fun key => Called (done ++ [v]) (keys ++ [key]))
        (fun _ state => state.2.map Prod.fst <+: xs) := by
    rintro done keys v rest split state ⟨length, calls⟩
    unfold logged
    simp only
    cases answered : (keyFn v state.1).1 with
    | ok key =>
        refine ⟨by simp [length], ?_⟩
        simp [callsOf, calls, List.zipWith_append length.symm]
    | error thrown =>
        simp only [ends, calls, List.map_append, calls_of_elements length]
        exact ⟨rest, by simp [split]⟩
  intro state empty
  exact keys_triple step [] [] xs rfl state ⟨rfl, empty⟩

theorem sort_by_calls (keyFn : Function σ) {xs : List Value}
    (small : 3 * xs.length + 2 < 2 ^ 32) (large : 2 ≤ xs.length) :
    Triple (fun state => state.2 = []) (sortBy typeName compare (logged keyFn) xs)
      (fun out state => ∃ keys, Called xs keys state ∧
        (StrictWeak (Less compare "sortBy") keys →
          SortedBy (Less compare "sortBy") keys xs out))
      (fun _ state => state.2.map Prod.fst <+: xs) := by
  refine Triple.weaken (keyed_sort typeName compare "sortBy" small large (Called xs)
    (fun _ state => state.2.map Prod.fst <+: xs) (logged_keys keyFn xs) ?_) ?_ fun _ _ => id
  · rintro keys error state ⟨length, calls⟩ -
    have made : state.2.map Prod.fst = xs := by
      rw [calls, calls_of_elements length]
    exact (congrArg (· <+: xs) made).mpr (List.prefix_refl xs)
  · rintro out state ⟨keys, called, -, ordered⟩
    exact ⟨keys, called, ordered called.1⟩

/-! ## The order of the kinds -/

theorem StrictWeak.of_rank {S : Type} [LinearOrder S] {lt : Value → Value → Prop}
    {members : List Value} (rank : Value → S)
    (ranked : ∀ a ∈ members, ∀ b ∈ members, (lt a b ↔ rank a < rank b)) :
    StrictWeak lt members := by
  refine ⟨fun a inA b inB first => ?_, fun a inA b inB c inC first second => ?_⟩
  · rw [ranked a inA b inB] at first
    rw [ranked b inB a inA]
    exact lt_asymm first
  · rw [ranked a inA b inB] at first
    rw [ranked b inB c inC] at second
    rw [ranked a inA c inC]
    exact not_lt_of_ge ((not_lt.mp second).trans (not_lt.mp first))

/-- The place of a number among the numbers. -/
def rank : Numeric → WithBot (WithTop Int)
  | .finite units => ((units : WithTop Int) : WithBot (WithTop Int))
  | .infinite true => ⊥
  | .infinite false => ((⊤ : WithTop Int) : WithBot (WithTop Int))
  | .nan => ⊥

/-- protoCore's `compare` orders numbers by their exact value and strings by `content`. -/
structure OrdersByContent {S : Type} [LinearOrder S] (content : List Byte → S) (compare : Compare) :
    Prop where
  numbers : ∀ x y, isNumberFast x = true → isNumberFast y = true → numeric x ≠ .nan →
    numeric y ≠ .nan → ∃ c, compare x y = some c ∧ (c < 0 ↔ rank (numeric x) < rank (numeric y))
  strings : ∀ x y, ∃ c, compare (.string x) (.string y) = some c ∧
    (c < 0 ↔ content x < content y)

/-- Numbers and characters, or strings, or booleans. -/
inductive OneKind (keys : List Value) : Prop
  | numbers (all : ∀ v ∈ keys, isNumeric v = true ∧ numeric (widenChar v) ≠ .nan)
  | strings (all : ∀ v ∈ keys, ∃ utf8, v = .string utf8)
  | booleans (all : ∀ v ∈ keys, ∃ b, v = .bool b)

theorem widened_number {v : Value} (number : isNumeric v = true) :
    isNumberFast (widenChar v) = true := by
  cases v <;> first | rfl | cases number

theorem number_cases {x : Value} (number : isNumberFast x = true) :
    (∃ n, x = .int n) ∨ ∃ bits, x = .double bits := by
  cases x with
  | int n => exact Or.inl ⟨n, rfl⟩
  | double bits => exact Or.inr ⟨bits, rfl⟩
  | _ => cases number

theorem compare_numbers {a b : Value} (method : String) (numberA : isNumberFast (widenChar a) = true)
    (numberB : isNumberFast (widenChar b) = true) {c : Int}
    (compared : compare (widenChar a) (widenChar b) = some c) :
    compareValues compare method a b = .ok c := by
  unfold compareValues
  rcases number_cases numberA with ⟨n, isA⟩ | ⟨bits, isA⟩ <;>
    rcases number_cases numberB with ⟨n', isB⟩ | ⟨bits', isB⟩ <;>
    rw [isA, isB] at compared <;>
    simp [isA, isB, isNumberFast, compared]

/-- `compareValues` answers on the keys of one kind, and its order is a strict weak order. -/
def textOf : Value → List Byte
  | .string utf8 => utf8
  | _ => []

def truthOf : Value → Bool
  | .bool b => b
  | _ => false

theorem one_kind_ordered {S : Type} [LinearOrder S] {content : List Byte → S}
    (orders : OrdersByContent content compare) {keys : List Value} (kind : OneKind keys)
    (method : String) :
    StrictWeak (Less compare method) keys ∧
      ∀ a ∈ keys, ∀ b ∈ keys, ∃ c, compareValues compare method a b = .ok c := by
  cases kind with
  | numbers all =>
      have answers : ∀ a ∈ keys, ∀ b ∈ keys, ∃ c, compareValues compare method a b = .ok c ∧
          (c < 0 ↔ rank (numeric (widenChar a)) < rank (numeric (widenChar b))) := by
        intro a inA b inB
        have numberA := widened_number (all a inA).1
        have numberB := widened_number (all b inB).1
        obtain ⟨c, compared, sign⟩ :=
          orders.numbers _ _ numberA numberB (all a inA).2 (all b inB).2
        exact ⟨c, compare_numbers compare method numberA numberB compared, sign⟩
      refine ⟨StrictWeak.of_rank (fun v => rank (numeric (widenChar v))) ?_, ?_⟩
      · intro a inA b inB
        obtain ⟨c, compared, sign⟩ := answers a inA b inB
        rw [← sign, Less]
        simp [compared]
      · intro a inA b inB
        obtain ⟨c, compared, -⟩ := answers a inA b inB
        exact ⟨c, compared⟩
  | strings all =>
      have answers : ∀ x y, ∃ c, compareValues compare method (.string x) (.string y) = .ok c ∧
          (c < 0 ↔ content x < content y) := by
        intro x y
        obtain ⟨c, compared, sign⟩ := orders.strings x y
        exact ⟨c, by simp [compareValues, widenChar, isStringTagFast, compared], sign⟩
      refine ⟨StrictWeak.of_rank (fun v => content (textOf v)) ?_, ?_⟩
      · intro a inA b inB
        obtain ⟨x, rfl⟩ := all a inA
        obtain ⟨y, rfl⟩ := all b inB
        obtain ⟨c, compared, sign⟩ := answers x y
        rw [textOf, textOf, ← sign, Less]
        simp [compared]
      · intro a inA b inB
        obtain ⟨x, rfl⟩ := all a inA
        obtain ⟨y, rfl⟩ := all b inB
        obtain ⟨c, compared, -⟩ := answers x y
        exact ⟨c, compared⟩
  | booleans all =>
      refine ⟨StrictWeak.of_rank truthOf ?_, ?_⟩
      · intro a inA b inB
        obtain ⟨p, rfl⟩ := all a inA
        obtain ⟨q, rfl⟩ := all b inB
        cases p <;> cases q <;> simp [Less, compareValues, widenChar, truthOf]
      · intro a inA b inB
        obtain ⟨p, rfl⟩ := all a inA
        obtain ⟨q, rfl⟩ := all b inB
        exact ⟨_, rfl⟩

/-! ## The claim -/

/-- What the sorts do with a sequence of this size. -/
structure Sorts (size : Nat) : Prop where
  /-- No computation wraps. -/
  permutes : ∀ {σ : Type} (typeName : Value → String) (compare : Compare)
    (keyFn : Option (Function σ)) (lessFn : Option (Value → Function σ)) (method : String)
    (xs : List Value), xs.length = size →
    Triple (fun _ => True) (sortSeq typeName compare keyFn lessFn method xs)
      (fun out _ => out.Perm xs)
      (fun stop _ => ∃ thrown, stop = some thrown ∧
        ThrownBy typeName compare keyFn lessFn method thrown)
  sortsWith : ∀ {σ : Type} (typeName : Value → String) (compare : Compare)
    (lt : Value → Value → Prop) (lessFn : Value → Function σ) (xs : List Value),
    xs.length = size → StrictWeak lt xs → Decides lt lessFn →
    Triple (fun _ => True) (sortWith typeName compare lessFn xs)
      (fun out _ => SortedBy lt xs xs out) (fun _ _ => True)
  sortsBy : ∀ {σ : Type} (typeName : Value → String) (compare : Compare) (keyFn : Function σ)
    (xs : List Value), xs.length = size → 2 ≤ size →
    Triple (fun state => state.2 = []) (sortBy typeName compare (logged keyFn) xs)
      (fun out state => ∃ keys, Called xs keys state ∧
        (StrictWeak (Less compare "sortBy") keys →
          SortedBy (Less compare "sortBy") keys xs out))
      (fun _ state => state.2.map Prod.fst <+: xs)
  sorts : ∀ {σ : Type} (typeName : Value → String) (compare : Compare) (xs : List Value),
    xs.length = size → StrictWeak (Less compare "sorted") xs →
    Triple (fun _ : σ => True) (sorted typeName compare xs)
      (fun out _ => SortedBy (Less compare "sorted") xs xs out) (fun _ _ => True)
  returnsShort : ∀ {σ : Type} (typeName : Value → String) (compare : Compare)
    (keyFn : Option (Function σ)) (lessFn : Option (Value → Function σ)) (method : String)
    (xs : List Value), xs.length = size → size < 2 →
    sortSeq typeName compare keyFn lessFn method xs = pure xs
  kinds : ∀ {S : Type} [LinearOrder S] (content : List Byte → S) (compare : Compare),
    OrdersByContent content compare → ∀ (keys : List Value) (method : String), OneKind keys →
    StrictWeak (Less compare method) keys ∧
      ∀ a ∈ keys, ∀ b ∈ keys, ∃ c, compareValues compare method a b = .ok c

theorem sorted_ordered {xs : List Value} (small : 3 * xs.length + 2 < 2 ^ 32)
    (weak : StrictWeak (Less compare "sorted") xs) :
    Triple (fun _ : σ => True) (sorted typeName compare xs)
      (fun out _ => SortedBy (Less compare "sorted") xs xs out) (fun _ _ => True) := by
  rcases Nat.lt_or_ge xs.length 2 with short | large
  · rw [sorted, short_sort typeName compare none none _ short]
    exact Triple.pure fun _ _ => short_sorted _ xs short
  · refine Triple.weaken (keyed_sort typeName compare "sorted" small large
      (fun keys _ => keys = xs) (fun _ _ => True) ?_ fun _ _ _ _ _ => trivial) ?_ fun _ _ => id
    · rw [no_keys]
      exact Triple.pure fun _ _ => rfl
    · rintro out state ⟨keys, rfl, -, ordered⟩
      exact ordered rfl weak

theorem sort_seq (size : Nat) (small : 3 * size + 2 < 2 ^ 32) : Sorts size where
  permutes typeName compare keyFn lessFn method _ length :=
    sort_permutes typeName compare keyFn lessFn method (length ▸ small)
  sortsWith typeName compare _ _ _ length weak decides :=
    sort_with_ordered typeName compare (length ▸ small) weak decides
  sortsBy typeName compare keyFn _ length large :=
    sort_by_calls typeName compare keyFn (length ▸ small) (length ▸ large)
  sorts typeName compare _ length weak := sorted_ordered typeName compare (length ▸ small) weak
  returnsShort typeName compare keyFn lessFn method _ length short :=
    short_sort typeName compare keyFn lessFn method (length ▸ short)
  kinds _ compare orders _ method kind := one_kind_ordered compare orders kind method

theorem sort_seq_largest : Sorts 1431655764 := sort_seq 1431655764 (by decide)

/-- The function of a `sortBy` is not called for the element of a sequence of one. -/
theorem single_element_not_called :
    (sortBy (fun _ => "") (fun _ _ => none) (logged fun v => (pure v : Code Unit Value))
      [.int 1] ((), [])).2.2.map Prod.fst ≠ [.int 1] := by
  rw [sortBy, short_sort _ _ _ _ _ (by decide)]
  exact List.cons_ne_nil _ _ |>.symm

end ProtoScala.Runtime.Sorting
