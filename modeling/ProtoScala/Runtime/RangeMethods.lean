import ProtoScala.Runtime.Calls
import ProtoScala.Runtime.RangeElements
import ProtoScala.Runtime.ValueEquality

/-!
# The methods of a Range

A Range answers its methods by closed forms and by loops of its own over its elements,
beside the methods of a List. A run of the model ends where an integer is built that is no
`SmallInteger`, or a computation leaves 64 bits.
-/

namespace ProtoScala.Runtime.RangeMethods

open ProtoScala.Library.Effects
open ProtoScala.Library.Effects.Eff
open ProtoScala.Runtime.Calls
open ProtoScala.Runtime.Values

set_option autoImplicit false

/-- The state of the program, and the values that its code was called on. -/
structure Run (σ : Type) where
  state : σ
  calls : List Value

/-- How a native ends without a result. -/
inductive Failure where
  | thrown (t : Thrown)
  /-- `makeSmallInt` of an integer that does not fit. -/
  | notSmall
  /-- A signed computation that leaves 64 bits. -/
  | overflow
  /-- `std::overflow_error`: an integer argument beyond 64 bits. -/
  | overflowError

abbrev Native (σ α : Type) : Type := Eff (Run σ) Failure α

variable {σ α β : Type}

def throwing (cls text : String) : Native σ α := Eff.raise (.thrown (.scalaError cls text))

def makeSmallInt (n : Int) : Native σ Value :=
  if isSmallInt n then pure (.int n) else Eff.raise .notSmall

def long (n : Int) : Native σ Int :=
  if -9223372036854775808 ≤ n ∧ n ≤ 9223372036854775807 then pure n else Eff.raise .overflow

/-- A call of the program's code, recorded. -/
def recorded (f : Function σ) : Function (Run σ) := fun x run =>
  match f x run.state with
  | (ending, state) => (ending, ⟨state, run.calls ++ [x]⟩)

def native (code : Code (Run σ) α) : Native σ α := fun run =>
  match code run with
  | (.ok result, run) => (.ok result, run)
  | (.error t, run) => (.error (.thrown t), run)

def invoke (f : Function σ) (x : Value) : Native σ Value := native (recorded f x)

/-! ## `RangeView` -/

namespace Range

def lastOf (r : Range) : Native σ Int :=
  if r.inclusive then pure r.stop
  else if 0 < r.step then long (r.stop - 1)
  else long (r.stop + 1)

def lengthOf (r : Range) : Native σ Int := do
  if r.step = 0 then return 0
  else
    let last ← lastOf r
    if (if 0 < r.step then last < r.start else r.start < last) then return 0
    else
      let distance ← long (last - r.start)
      let steps ← long (distance.tdiv r.step)
      long (steps + 1)

def atOf (r : Range) (i : Int) : Native σ Int := do
  let distance ← long (i * r.step)
  long (r.start + distance)

end Range

/-! ## Loops -/

/-- A loop's body goes on with `inl` and ends the loop with `inr`. -/
def goOn (rest : α → Native σ (α ⊕ β)) : α ⊕ β → Native σ (α ⊕ β)
  | .inl acc => rest acc
  | .inr result => pure (.inr result)

/-- A loop over the elements of a list. -/
def each (body : α → Value → Native σ (α ⊕ β)) : List Value → α → Native σ (α ⊕ β)
  | [], acc => pure (.inl acc)
  | x :: rest, acc => do goOn (each body rest) (← body acc x)

/-- `for (i = 0; i < n; ++i)` over the elements of a Range, from `i`. -/
def eachFrom (r : Range) (body : α → Value → Native σ (α ⊕ β)) :
    Nat → Int → α → Native σ (α ⊕ β)
  | 0, _, acc => pure (.inl acc)
  | n + 1, i, acc => do
      let x ← makeSmallInt (← Range.atOf r i)
      goOn (eachFrom r body n (i + 1)) (← body acc x)

def eachOf (r : Range) (body : α → Value → Native σ (α ⊕ β)) (acc : α) : Native σ (α ⊕ β) := do
  let n ← Range.lengthOf r
  eachFrom r body n.toNat 0 acc

/-- The elements of a Range, as its `toList` lists them. -/
def elements (r : Range) : List Value := r.integers.map .int

def collect (acc : List Value) (x : Value) : Native σ (List Value ⊕ Empty) :=
  pure (.inl (acc ++ [x]))

def finished {γ : Type} : γ ⊕ Empty → γ
  | .inl result => result

/-- `rangeToList`. -/
def rangeToList (r : Range) : Native σ (List Value) := finished <$> eachOf r collect []

theorem long_eq {n : Int} (low : -9223372036854775808 ≤ n) (high : n ≤ 9223372036854775807) :
    (long n : Native σ Int) = pure n := if_pos ⟨low, high⟩

theorem make_small {n : Int} (small : isSmallInt n = true) :
    (makeSmallInt n : Native σ Value) = pure (.int n) := if_pos small

theorem length_of_eq (r : Range) : (Range.lengthOf r : Native σ Int) = pure (r.size : Int) := by
  have bounds := r.small_bounds
  have last := r.stop_last
  have stop : (Range.lastOf r : Native σ Int) = pure r.last := by
    unfold Range.lastOf Values.Range.last
    split_ifs
    · rfl
    · exact long_eq (by omega) (by omega)
    · exact long_eq (by omega) (by omega)
  unfold Range.lengthOf
  rw [stop]
  unfold Values.Range.size
  by_cases flat : r.step = 0
  · rw [if_pos flat, if_pos (Or.inl flat)]
    rfl
  · rw [if_neg flat, pure_bind]
    by_cases crossed : if 0 < r.step then r.last < r.start else r.start < r.last
    · rw [if_pos crossed, if_pos (Or.inr crossed)]
      rfl
    · rw [if_neg crossed, if_neg (by tauto)]
      have reach := Int.natAbs_tdiv_le_natAbs (r.last - r.start) r.step
      have nonneg : 0 ≤ (r.last - r.start).tdiv r.step := by
        by_cases up : 0 < r.step
        · rw [if_pos up] at crossed
          exact Int.tdiv_nonneg (by omega) (by omega)
        · rw [if_neg up] at crossed
          rw [← Int.neg_tdiv_neg]
          exact Int.tdiv_nonneg (by omega) (by omega)
      rw [long_eq (by omega) (by omega), pure_bind, long_eq (by omega) (by omega), pure_bind,
        long_eq (by omega) (by omega)]
      congr 1
      omega

theorem at_of_eq (r : Range) {i : Nat} (inside : i < r.size) :
    (Range.atOf r i : Native σ Int) = pure (r.elementAt i) := by
  have bounds := r.small_bounds
  obtain ⟨small, low, high⟩ := r.element_bounds inside
  unfold Range.atOf
  rw [long_eq (by omega) (by omega), pure_bind]
  exact long_eq (by omega) (by omega)

theorem each_from_eq (r : Range) (body : α → Value → Native σ (α ⊕ β)) (n i : Nat) (acc : α)
    (inside : i + n ≤ r.size) :
    eachFrom r body n i acc =
      each body ((List.range' i n).map fun k : Nat => .int (r.elementAt k)) acc := by
  induction n generalizing i acc with
  | zero => rfl
  | succ n ih =>
      have here : i < r.size := by omega
      rw [eachFrom, at_of_eq r here, pure_bind, make_small (r.element_bounds here).1, pure_bind,
        List.range'_succ, List.map_cons, each]
      apply bind_congr
      intro next
      cases next with
      | inl acc => exact ih (i + 1) acc (by omega)
      | inr result => rfl

/-- A loop over a Range is the loop over its elements. -/
theorem each_of_eq (r : Range) (body : α → Value → Native σ (α ⊕ β)) (acc : α) :
    eachOf r body acc = each body (elements r) acc := by
  unfold eachOf
  rw [length_of_eq, pure_bind, Int.toNat_natCast]
  have whole := each_from_eq r body r.size 0 acc (by omega)
  rw [← List.range_eq_range'] at whole
  rw [elements, Values.Range.integers, List.map_map]
  exact whole

theorem each_collect (xs acc : List Value) :
    each collect xs acc = (pure (.inl (acc ++ xs)) : Native σ (List Value ⊕ Empty)) := by
  induction xs generalizing acc with
  | nil => rw [each, List.append_nil]
  | cons x rest ih =>
      rw [each, collect, pure_bind, goOn, ih, List.append_assoc]
      rfl

theorem range_to_list (r : Range) :
    (rangeToList r : Native σ (List Value)) = pure (elements r) := by
  unfold rangeToList
  rw [each_of_eq, each_collect]
  rfl

/-! ## The methods -/

/-- What the methods use of the program and of protoCore: class names, classes, the sends of
`isEmpty` and `get`, and the sum of two numbers of which one is a Double. -/
structure Machine (σ : Type) where
  typeName : Value → String
  classes : ClassTable
  isEmpty : Function σ
  get : Function σ
  addDouble : Value → Value → Value

inductive Result where
  | unit
  | bool (b : Bool)
  | value (v : Value)
  | option (found : Option Value)
  | list (elements : List Value)

variable (m : Machine σ)

def intArg (method : String) : Value → Native σ Int
  | .int n => if isSmallInt n then pure n else
      if -9223372036854775808 ≤ n ∧ n ≤ 9223372036854775807 then pure n
      else Eff.raise .overflowError
  | .char code => pure code.toNat
  | v => native (wrongType m.typeName method "an Int" v)

def rangeApply (r : Range) (index : Value) : Native σ Result := do
  let i ← intArg m "apply" index
  let n ← Range.lengthOf r
  if i < 0 ∨ n ≤ i then throwing "IndexOutOfBoundsException" (toString i)
  else return .value (← makeSmallInt (← Range.atOf r i))

def seqApply (xs : List Value) (index : Value) : Native σ Result := do
  let i ← intArg m "apply" index
  if i < 0 ∨ xs.length ≤ i then
    throwing "IndexOutOfBoundsException"
      (toString i ++ " is out of bounds (min 0, max " ++ toString ((xs.length : Int) - 1) ++ ")")
  else return .value (xs.getD i.toNat .null)

def rangeHead (r : Range) : Native σ Result := do
  if (← Range.lengthOf r) = 0 then throwing "NoSuchElementException" "head of empty range"
  else return .value (← makeSmallInt r.start)

def rangeLast (r : Range) : Native σ Result := do
  let n ← Range.lengthOf r
  if n = 0 then throwing "NoSuchElementException" "last of empty range"
  else return .value (← makeSmallInt (← Range.atOf r (← long (n - 1))))

def seqHead (xs : List Value) : Native σ Result :=
  match xs.head? with
  | none => throwing "NoSuchElementException" "head of empty list"
  | some x => pure (.value x)

def seqLast (xs : List Value) : Native σ Result :=
  match xs.getLast? with
  | none => throwing "NoSuchElementException" "last of empty list"
  | some x => pure (.value x)

def rangeContains (r : Range) (x : Value) : Native σ Result :=
  match x with
  | .int n =>
      if isSmallInt n then do
        let length ← Range.lengthOf r
        if length = 0 then return .bool false
        else
          let delta ← long (n - r.start)
          let rest ← long (delta.tmod r.step)
          if rest ≠ 0 then return .bool false
          else
            let i ← long (delta.tdiv r.step)
            return .bool (decide (0 ≤ i ∧ i < length))
      else pure (.bool false)
  | _ => pure (.bool false)

def seqContains (xs : List Value) (x : Value) : Native σ Result :=
  pure (.bool (xs.any fun e => valuesEqual m.classes e x))

/-- protoCore's `add` of two numbers. -/
def add : Value → Value → Value
  | .int a, .int b => .int (a + b)
  | a, b => m.addDouble a b

def seqSum : Value → List Value → Native σ Result
  | acc, [] => pure (.value acc)
  | acc, x :: rest =>
      if x.widenChar.isNumberFast then seqSum (add m acc x.widenChar) rest
      else native (wrongType m.typeName "sum" "a number" x.widenChar)

def rangeSum (r : Range) : Native σ Result := do
  let n ← Range.lengthOf r
  if n = 0 then return .value (← makeSmallInt 0)
  else
    let _ ← makeSmallInt r.start
    let last ← Range.atOf r (← long (n - 1))
    let _ ← makeSmallInt last
    let _ ← makeSmallInt n
    -- protoCore's integers: exact, promoted beyond a SmallInteger
    return .value (.int (((r.start + last) * n).tdiv 2))

def newRange (start stop step : Int) (inclusive : Bool) : Native σ Range :=
  if smallStart : isSmallInt start = true then
    if smallStop : isSmallInt stop = true then
      if smallStep : isSmallInt step = true then
        pure ⟨start, stop, step, inclusive, smallStart, smallStop, smallStep⟩
      else Eff.raise .notSmall
    else Eff.raise .notSmall
  else Eff.raise .notSmall

def rangeReverse (r : Range) : Native σ Range := do
  let n ← Range.lengthOf r
  if n = 0 then return r
  else
    let first ← Range.atOf r (← long (n - 1))
    let step ← long (-r.step)
    newRange first r.start step true

/-! ### The loops over a function -/

def listed (ending : List Value ⊕ Empty) : Native σ Result := pure (.list (finished ending))

def foreachBody (f : Function σ) (_ : Unit) (x : Value) : Native σ (Unit ⊕ Empty) := do
  let _ ← invoke f x
  return .inl ()

def mapBody (f : Function σ) (acc : List Value) (x : Value) : Native σ (List Value ⊕ Empty) := do
  let v ← invoke f x
  return .inl (acc ++ [v])

def rangeFlatMapBody (f : Function σ) (acc : List Value) (x : Value) :
    Native σ (List Value ⊕ Empty) := do
  let v ← invoke f x
  match seqViewOf v with
  | none =>
      throwing "IllegalArgumentException" ("flatMap expects a collection, got " ++ m.typeName v)
  | some view => return .inl (acc ++ (List.range view.size).map view.elemAt)

def seqFlatMapBody (f : Function σ) (acc : List Value) (x : Value) :
    Native σ (List Value ⊕ Empty) := do
  let v ← invoke f x
  let flat ← native (addFlat m.typeName (recorded m.isEmpty) (recorded m.get) "flatMap" v)
  return .inl (acc ++ flat)

/-- A loop over a predicate: what it does with an element that it holds for or not, and what
it answers behind the last one. -/
structure Search (α : Type) where
  method : String
  first : α
  onTrue : α → Value → α ⊕ Result
  onFalse : α → α ⊕ Result
  last : α → Except Failure Result
  lastSmall : ∀ acc, (∃ result, last acc = .ok result) ∨ last acc = .error .notSmall

def Search.finish (s : Search α) : α ⊕ Result → Native σ Result
  | .inl acc => fun run => (s.last acc, run)
  | .inr result => pure result

/-- `v == PROTO_TRUE`. -/
def isTrue : Value → Bool
  | .bool b => b
  | _ => false

/-- The Range's loops compare the answer with `PROTO_TRUE`. -/
def rangeBody (s : Search α) (p : Function σ) (acc : α) (x : Value) : Native σ (α ⊕ Result) := do
  let v ← invoke p x
  return if isTrue v then s.onTrue acc x else s.onFalse acc

/-- The List's loops ask `truth`. -/
def seqBody (s : Search α) (p : Function σ) (acc : α) (x : Value) : Native σ (α ⊕ Result) := do
  let v ← invoke p x
  let holds ← native (truth m.typeName s.method v)
  return if holds then s.onTrue acc x else s.onFalse acc

def rangeSearch (s : Search α) (r : Range) (p : Function σ) : Native σ Result := do
  s.finish (← eachOf r (rangeBody s p) s.first)

def seqSearch (s : Search α) (xs : List Value) (p : Function σ) : Native σ Result := do
  s.finish (← each (seqBody m s p) xs s.first)

def filtering : Search (List Value) where
  method := "filter"
  first := []
  onTrue acc x := .inl (acc ++ [x])
  onFalse acc := .inl acc
  last acc := .ok (.list acc)
  lastSmall _ := Or.inl ⟨_, rfl⟩

def existing : Search Unit where
  method := "exists"
  first := ()
  onTrue _ _ := .inr (.bool true)
  onFalse _ := .inl ()
  last _ := .ok (.bool false)
  lastSmall _ := Or.inl ⟨_, rfl⟩

def forAll : Search Unit where
  method := "forall"
  first := ()
  onTrue _ _ := .inl ()
  onFalse _ := .inr (.bool false)
  last _ := .ok (.bool true)
  lastSmall _ := Or.inl ⟨_, rfl⟩

def counting : Search Nat where
  method := "count"
  first := 0
  onTrue hits _ := .inl (hits + 1)
  onFalse hits := .inl hits
  last hits := if isSmallInt hits then .ok (.value (.int hits)) else .error .notSmall
  lastSmall hits := by
    split_ifs
    · exact Or.inl ⟨_, rfl⟩
    · exact Or.inr rfl

def finding : Search Unit where
  method := "find"
  first := ()
  onTrue _ x := .inr (.option (some x))
  onFalse _ := .inl ()
  last _ := .ok (.option none)
  lastSmall _ := Or.inl ⟨_, rfl⟩

/-! ### All of them -/

inductive Op (σ : Type) where
  | length
  | isEmpty
  | apply (index : Value)
  | head
  | last
  | contains (x : Value)
  | sum
  | reverse
  | foreach (f : Function σ)
  | map (f : Function σ)
  | flatMap (f : Function σ)
  | filter (p : Function σ)
  | exists_ (p : Function σ)
  | forall_ (p : Function σ)
  | count (p : Function σ)
  | find (p : Function σ)

def rangeOp (r : Range) : Op σ → Native σ Result
  | .length => do return .value (← makeSmallInt (← Range.lengthOf r))
  | .isEmpty => do return .bool ((← Range.lengthOf r) == 0)
  | .apply index => rangeApply m r index
  | .head => rangeHead r
  | .last => rangeLast r
  | .contains x => rangeContains r x
  | .sum => rangeSum r
  -- a Range; its elements are compared
  | .reverse => do return .list (elements (← rangeReverse r))
  | .foreach f => eachOf r (foreachBody f) () >>= fun _ => pure .unit
  | .map f => eachOf r (mapBody f) [] >>= listed
  | .flatMap f => eachOf r (rangeFlatMapBody m f) [] >>= listed
  | .filter p => rangeSearch filtering r p
  | .exists_ p => rangeSearch existing r p
  | .forall_ p => rangeSearch forAll r p
  | .count p => rangeSearch counting r p
  | .find p => rangeSearch finding r p

def listOp (xs : List Value) : Op σ → Native σ Result
  | .length => pure (.value (.int xs.length))
  | .isEmpty => pure (.bool (xs.length == 0))
  | .apply index => seqApply m xs index
  | .head => seqHead xs
  | .last => seqLast xs
  | .contains x => seqContains m xs x
  | .sum => seqSum m (.int 0) xs
  | .reverse => pure (.list xs.reverse)
  | .foreach f => each (foreachBody f) xs () >>= fun _ => pure .unit
  | .map f => each (mapBody f) xs [] >>= listed
  | .flatMap f => each (seqFlatMapBody m f) xs [] >>= listed
  | .filter p => seqSearch m filtering xs p
  | .exists_ p => seqSearch m existing xs p
  | .forall_ p => seqSearch m forAll xs p
  | .count p => seqSearch m counting xs p
  | .find p => seqSearch m finding xs p

/-! ## As the list of the elements -/

def Failure.class_ : Failure → Failure
  | .thrown (.scalaError cls _) => .thrown (.scalaError cls "")
  | other => other

/-- Where an index is out of bounds or there is no element, the text of the error names the
collection; there the class of the error is compared. -/
def observed : Op σ → Except Failure Result × Run σ → Except Failure Result × Run σ
  | .apply _, ending | .head, ending | .last, ending => (ending.1.mapError Failure.class_, ending.2)
  | _, ending => ending

/-- Every integer that was built is small, and no computation left 64 bits. -/
def Sound {γ : Type} (ending : Except Failure γ × Run σ) : Prop :=
  ending.1 ≠ .error .notSmall ∧ ending.1 ≠ .error .overflow

/-- The Range behaves as the list of its elements: the same result or error, and the same
calls of the program. -/
def Meets (r : Range) (op : Op σ) (run : Run σ) : Prop :=
  observed op (rangeOp m r op run) = observed op (listOp m (elements r) op run) ∧
    Sound (rangeOp m r op run)

/-- Every answer that `flatMap` gets is a List, a Vector or a Range. -/
def Sequences (f : Function σ) : List Value → σ → Prop
  | [], _ => True
  | x :: rest, state =>
      match f x state with
      | (.ok v, state') => seqViewOf v ≠ none ∧ Sequences f rest state'
      | (.error _, _) => True

/-- Every answer that the loop gets is a Boolean, and what it ends with fits. -/
def Answered (s : Search α) (p : Function σ) : List Value → α → σ → Prop
  | [], acc, _ => ∃ result, s.last acc = .ok result
  | x :: rest, acc, state =>
      match p x state with
      | (.ok v, state') =>
          ∃ b, v = .bool b ∧
            match (if b then s.onTrue acc x else s.onFalse acc) with
            | .inl acc' => Answered s p rest acc' state'
            | .inr _ => True
      | (.error _, _) => True

/-- Where a method of a Range does what the List's does. -/
def Right (r : Range) (state : σ) : Op σ → Prop
  | .length | .sum => r.size < 9007199254740992
  | .contains x =>
      (∃ n, x = .int n ∧ isSmallInt n = true) ∨
        ∀ e ∈ elements r, valuesEqual m.classes e x = false
  | .reverse => r.size = 0 ∨ r.step ≠ -9007199254740992
  | .flatMap f => Sequences f (elements r) state
  | .filter p => Answered filtering p (elements r) [] state
  | .exists_ p => Answered existing p (elements r) () state
  | .forall_ p => Answered forAll p (elements r) () state
  | .count p => Answered counting p (elements r) 0 state
  | .find p => Answered finding p (elements r) () state
  | _ => True

/-! ## Calls -/

attribute [local simp] each rangeOp listOp

theorem invoke_ok {f : Function σ} {x v : Value} {run : Run σ} {state : σ}
    (answered : f x run.state = (.ok v, state)) :
    invoke f x run = (.ok v, ⟨state, run.calls ++ [x]⟩) := by
  unfold invoke native recorded
  rw [answered]

theorem invoke_error {f : Function σ} {x : Value} {t : Thrown} {run : Run σ} {state : σ}
    (threw : f x run.state = (.error t, state)) :
    invoke f x run = (.error (.thrown t), ⟨state, run.calls ++ [x]⟩) := by
  unfold invoke native recorded
  rw [threw]

/-- The calls of a run only get more. -/
def Grows (code : Native σ α) : Prop :=
  ∀ run, run.calls.length ≤ (code run).2.calls.length

theorem grows_pure (result : α) : Grows (pure result : Native σ α) := fun _ => Nat.le_refl _

theorem bind_calls {first : Native σ α} {next : α → Native σ β}
    (later : ∀ result, Grows (next result)) (run : Run σ) :
    (first run).2.calls.length ≤ ((first >>= next) run).2.calls.length := by
  rw [bind_at]
  cases first run with
  | mk ending reached =>
      cases ending with
      | error failure => exact Nat.le_refl _
      | ok result => exact later result reached

theorem grows_bind {first : Native σ α} {next : α → Native σ β} (grows : Grows first)
    (later : ∀ result, Grows (next result)) : Grows (first >>= next) := fun run =>
  Nat.le_trans (grows run) (bind_calls later run)

theorem grows_invoke (f : Function σ) (x : Value) : Grows (invoke f x) := by
  intro run
  cases ran : f x run.state with
  | mk ending state =>
      cases ending with
      | error t => simp [invoke_error ran]
      | ok v => simp [invoke_ok ran]

theorem grows_each {body : α → Value → Native σ (α ⊕ β)} (grows : ∀ acc x, Grows (body acc x))
    (xs : List Value) (acc : α) : Grows (each body xs acc) := by
  induction xs generalizing acc with
  | nil => exact grows_pure _
  | cons x rest ih =>
      rw [each]
      apply grows_bind (grows acc x)
      intro next
      cases next with
      | inl acc' => exact ih acc'
      | inr result => exact grows_pure _

/-- A run without faults. -/
def Faultless (code : Native σ α) : Prop := ∀ run, Sound (code run)

theorem faultless_pure (result : α) : Faultless (pure result : Native σ α) := by
  intro run
  exact ⟨nofun, nofun⟩

theorem faultless_bind {first : Native σ α} {next : α → Native σ β} (sound : Faultless first)
    (later : ∀ result, Faultless (next result)) : Faultless (first >>= next) := by
  intro run
  have before := sound run
  rw [bind_at]
  cases ran : first run with
  | mk ending reached =>
      rw [ran] at before
      cases ending with
      | error failure =>
          constructor
          · intro fault
            exact before.1 (congrArg Except.error (Except.error.inj fault))
          · intro fault
            exact before.2 (congrArg Except.error (Except.error.inj fault))
      | ok result => exact later result reached

theorem faultless_native (code : Code (Run σ) α) : Faultless (native code : Native σ α) := by
  intro run
  unfold native
  cases code run with
  | mk ending reached => cases ending <;> exact ⟨nofun, nofun⟩

theorem faultless_throwing (cls text : String) : Faultless (throwing cls text : Native σ α) := by
  intro run
  exact ⟨nofun, nofun⟩

theorem faultless_each {body : α → Value → Native σ (α ⊕ β)}
    (sound : ∀ acc x, Faultless (body acc x)) (xs : List Value) (acc : α) :
    Faultless (each body xs acc) := by
  induction xs generalizing acc with
  | nil => exact faultless_pure _
  | cons x rest ih =>
      rw [each]
      apply faultless_bind (sound acc x)
      intro next
      cases next with
      | inl acc' => exact ih acc'
      | inr result => exact faultless_pure _

/-! ## The loops over a predicate -/

theorem range_body_ok (s : Search α) {p : Function σ} {acc : α} {x v : Value} {run : Run σ}
    {state : σ} (answered : p x run.state = (.ok v, state)) :
    rangeBody s p acc x run =
      (.ok (if isTrue v then s.onTrue acc x else s.onFalse acc), ⟨state, run.calls ++ [x]⟩) := by
  unfold rangeBody
  rw [bind_at, invoke_ok answered]
  rfl

theorem range_body_bool (s : Search α) {p : Function σ} {acc : α} {x : Value} {b : Bool}
    {run : Run σ} {state : σ} (answered : p x run.state = (.ok (.bool b), state)) :
    rangeBody s p acc x run =
      (.ok (if b then s.onTrue acc x else s.onFalse acc), ⟨state, run.calls ++ [x]⟩) :=
  range_body_ok s answered

theorem seq_body_bool (s : Search α) {p : Function σ} {acc : α} {x : Value} {b : Bool}
    {run : Run σ} {state : σ} (answered : p x run.state = (.ok (.bool b), state)) :
    seqBody m s p acc x run =
      (.ok (if b then s.onTrue acc x else s.onFalse acc), ⟨state, run.calls ++ [x]⟩) := by
  unfold seqBody
  rw [bind_at, invoke_ok answered]
  rfl

theorem seq_body_other (s : Search α) {p : Function σ} {acc : α} {x v : Value} {run : Run σ}
    {state : σ} (answered : p x run.state = (.ok v, state)) (other : ∀ b, v ≠ .bool b) :
    ∃ t, seqBody m s p acc x run = (.error (.thrown t), ⟨state, run.calls ++ [x]⟩) := by
  unfold seqBody
  rw [bind_at, invoke_ok answered]
  cases v with
  | bool b => exact absurd rfl (other b)
  | _ => exact ⟨_, rfl⟩

theorem grows_range_body (s : Search α) (p : Function σ) (acc : α) (x : Value) :
    Grows (rangeBody s p acc x) := by
  apply grows_bind (grows_invoke p x)
  intro v
  exact grows_pure _

/-- A loop that has called the program for its first element. -/
theorem range_loop_calls (s : Search α) (p : Function σ) (x : Value) (rest : List Value) (acc : α)
    (run : Run σ) :
    run.calls.length < (each (rangeBody s p) (x :: rest) acc run).2.calls.length := by
  rw [each, bind_at]
  have called : run.calls.length < (rangeBody s p acc x run).2.calls.length := by
    unfold rangeBody
    rw [bind_at]
    cases ran : p x run.state with
    | mk ending state =>
        cases ending with
        | error t =>
            rw [invoke_error ran]
            simp [follow]
        | ok v =>
            rw [invoke_ok ran]
            simp [follow, pure_at]
  cases ran : rangeBody s p acc x run with
  | mk ending reached =>
      rw [ran] at called
      cases ending with
      | error failure => exact called
      | ok next =>
          cases next with
          | inl acc' =>
              exact Nat.lt_of_lt_of_le called
                (grows_each (grows_range_body s p) rest acc' reached)
          | inr result => exact called

theorem finish_sound_iff (s : Search α) (acc : α) (run : Run σ) :
    Sound ((s.finish (.inl acc) : Native σ Result) run) ↔ ∃ result, s.last acc = .ok result := by
  unfold Search.finish Sound
  rcases s.lastSmall acc with ⟨result, ends⟩ | fault
  · simp [ends]
  · simp [fault]

/-- Behind an answer that is no Boolean the Range's loop does not end as the List's does. -/
theorem goes_on_apart (s : Search α) (p : Function σ) (rest : List Value) (next : α ⊕ Result)
    (run : Run σ) (t : Thrown) :
    (goOn (each (rangeBody s p) rest) next >>= s.finish) run ≠ (.error (.thrown t), run) := by
  cases next with
  | inr result =>
      intro same
      cases congrArg Prod.fst same
  | inl acc =>
      cases rest with
      | nil =>
          intro same
          have ends : s.last acc = .error (.thrown t) := congrArg Prod.fst same
          rcases s.lastSmall acc with ⟨result, ok⟩ | fault
          · rw [ok] at ends
            cases ends
          · rw [fault] at ends
            cases ends
      | cons x rest =>
          intro same
          have called := range_loop_calls s p x rest acc run
          have later : (each (rangeBody s p) (x :: rest) acc run).2.calls.length ≤
              run.calls.length := by
            rw [bind_at, goOn] at same
            cases ran : each (rangeBody s p) (x :: rest) acc run with
            | mk ending reached =>
                rw [ran] at same
                cases ending with
                | error failure =>
                    exact Nat.le_of_eq (congrArg (fun ending => ending.2.calls.length) same)
                | ok next =>
                    have ends := congrArg (fun ending => ending.2.calls.length) same
                    cases next with
                    | inl acc => exact Nat.le_of_eq ends
                    | inr result => exact Nat.le_of_eq ends
          omega

/-- The Range's loop over a predicate and the List's. -/
theorem search_meets_iff (s : Search α) (p : Function σ) (xs : List Value) (acc : α)
    (run : Run σ) :
    ((each (rangeBody s p) xs acc >>= s.finish) run =
        (each (seqBody m s p) xs acc >>= s.finish) run ∧
      Sound ((each (rangeBody s p) xs acc >>= s.finish) run)) ↔
      Answered s p xs acc run.state := by
  induction xs generalizing acc run with
  | nil =>
      rw [each, each, pure_bind, Answered, ← finish_sound_iff s acc run]
      exact and_iff_right rfl
  | cons x rest ih =>
      rw [each, each, bind_assoc, bind_assoc, bind_at, bind_at, Answered]
      cases ran : p x run.state with
      | mk ending state =>
          cases ending with
          | error t =>
              have left : rangeBody s p acc x run =
                  (.error (.thrown t), ⟨state, run.calls ++ [x]⟩) := by
                unfold rangeBody
                rw [bind_at, invoke_error ran]
                rfl
              have right : seqBody m s p acc x run =
                  (.error (.thrown t), ⟨state, run.calls ++ [x]⟩) := by
                unfold seqBody
                rw [bind_at, invoke_error ran]
                rfl
              rw [left, right]
              simp [follow, Sound]
          | ok v =>
              by_cases boolean : ∃ b, v = .bool b
              · obtain ⟨b, rfl⟩ := boolean
                rw [range_body_bool s ran, seq_body_bool m s ran]
                simp only [Value.bool.injEq, exists_eq_left', follow]
                generalize (if b = true then s.onTrue acc x else s.onFalse acc) = next
                cases next with
                | inl acc' => exact ih acc' ⟨state, run.calls ++ [x]⟩
                | inr result =>
                    simp only [iff_true]
                    exact ⟨rfl, faultless_pure result _⟩
              · obtain ⟨t, threw⟩ := seq_body_other m s ran fun b same => boolean ⟨b, same⟩
                rw [range_body_ok s ran, threw]
                constructor
                · rintro ⟨same, -⟩
                  exact absurd same (goes_on_apart s p rest
                    (if isTrue v then s.onTrue acc x else s.onFalse acc)
                    ⟨state, run.calls ++ [x]⟩ t)
                · rintro ⟨b, same, -⟩
                  exact absurd ⟨b, same⟩ boolean

/-! ## `flatMap` -/

theorem range_flat_map_ok {f : Function σ} {acc : List Value} {x v : Value} {run : Run σ}
    {state : σ} (answered : f x run.state = (.ok v, state))
    (next : List Value ⊕ Empty → Native σ β) :
    (rangeFlatMapBody m f acc x >>= next) run =
      (match seqViewOf v with
        | none => throwing "IllegalArgumentException"
            ("flatMap expects a collection, got " ++ m.typeName v)
        | some view => next (.inl (acc ++ (List.range view.size).map view.elemAt)))
        ⟨state, run.calls ++ [x]⟩ := by
  unfold rangeFlatMapBody
  rw [bind_assoc, bind_at, invoke_ok answered]
  simp only [follow]
  cases seqViewOf v <;> rfl

theorem seq_flat_map_ok {f : Function σ} {acc : List Value} {x v : Value} {run : Run σ}
    {state : σ} (answered : f x run.state = (.ok v, state))
    (next : List Value ⊕ Empty → Native σ β) :
    (seqFlatMapBody m f acc x >>= next) run =
      (native (addFlat m.typeName (recorded m.isEmpty) (recorded m.get) "flatMap" v) >>=
        fun flat => next (.inl (acc ++ flat))) ⟨state, run.calls ++ [x]⟩ := by
  unfold seqFlatMapBody
  rw [bind_assoc, bind_at, invoke_ok answered]
  simp only [follow, bind_assoc, pure_bind]

theorem native_after (code : Code (Run σ) α) (run : Run σ) :
    (native code run).2 = (code run).2 := by
  unfold native
  cases code run with
  | mk ending reached => cases ending <;> rfl

theorem recorded_calls {f : Function σ} {x : Value} {run reached : Run σ}
    {ending : Except Thrown Value} (ran : recorded f x run = (ending, reached)) :
    reached.calls = run.calls ++ [x] :=
  (congrArg (fun ending => ending.2.calls) ran).symm

/-- What `addFlat` does with the answer of `isEmpty`. -/
theorem get_grows (v empty : Value) (run : Run σ) :
    run.calls.length ≤ ((match empty with
      | .bool true => pure []
      | _ => do return [← recorded m.get v] : Code (Run σ) (List Value)) run).2.calls.length := by
  have got : run.calls.length ≤ ((do return [← recorded m.get v] : Code (Run σ) (List Value))
      run).2.calls.length := by
    rw [bind_at]
    cases ran : recorded m.get v run with
    | mk ending reached =>
        cases ending <;> simp [follow, pure_at, recorded_calls ran]
  split
  · exact Nat.le_refl _
  · exact got

/-- `addFlat` of an answer that is no sequence throws at once or calls the program. -/
theorem add_flat_other {v : Value} (other : seqViewOf v = none) (run : Run σ) :
    (∃ text, native (addFlat m.typeName (recorded m.isEmpty) (recorded m.get) "flatMap" v) run =
      (.error (.thrown (.scalaError "ClassCastException" text)), run)) ∨
      run.calls.length <
        (native (addFlat m.typeName (recorded m.isEmpty) (recorded m.get) "flatMap" v)
          run).2.calls.length := by
  rw [native_after]
  unfold addFlat
  rw [other]
  simp only
  by_cases scala : isScalaInstance v = true
  · right
    rw [if_pos scala, bind_at]
    cases ran : recorded m.isEmpty v run with
    | mk ending reached =>
        have called : run.calls.length < reached.calls.length := by
          simp [recorded_calls ran]
        cases ending with
        | error t => exact called
        | ok empty => exact Nat.lt_of_lt_of_le called (get_grows m v empty reached)
  · left
    rw [if_neg scala]
    exact ⟨_, rfl⟩

theorem grows_add_flat (v : Value) :
    Grows (native (addFlat m.typeName (recorded m.isEmpty) (recorded m.get) "flatMap" v)) := by
  intro run
  cases other : seqViewOf v with
  | some view =>
      rw [native_after]
      unfold addFlat
      rw [other]
      exact Nat.le_refl _
  | none =>
      rcases add_flat_other m other run with ⟨text, threw⟩ | called
      · rw [threw]
      · exact Nat.le_of_lt called

theorem grows_seq_flat_map (f : Function σ) (acc : List Value) (x : Value) :
    Grows (seqFlatMapBody m f acc x) := by
  apply grows_bind (grows_invoke f x)
  intro v
  apply grows_bind (grows_add_flat m v)
  intro flat
  exact grows_pure _

theorem flat_map_meets_iff (f : Function σ) (xs acc : List Value) (run : Run σ) :
    (each (rangeFlatMapBody m f) xs acc >>= listed) run =
        (each (seqFlatMapBody m f) xs acc >>= listed) run ↔
      Sequences f xs run.state := by
  induction xs generalizing acc run with
  | nil => exact iff_of_true rfl trivial
  | cons x rest ih =>
      rw [each, each, bind_assoc, bind_assoc, Sequences]
      cases ran : f x run.state with
      | mk ending state =>
          cases ending with
          | error t =>
              unfold rangeFlatMapBody seqFlatMapBody
              rw [bind_assoc, bind_assoc, bind_at, bind_at, invoke_error ran]
              exact iff_of_true rfl trivial
          | ok v =>
              rw [range_flat_map_ok m ran, seq_flat_map_ok m ran]
              cases view : seqViewOf v with
              | some sequence =>
                  have flat :
                      (addFlat m.typeName (recorded m.isEmpty) (recorded m.get) "flatMap" v :
                        Code (Run σ) (List Value)) =
                      pure ((List.range sequence.size).map sequence.elemAt) := by
                    unfold addFlat
                    rw [view]
                  have present : seqViewOf v ≠ none := by simp [view]
                  have native_pure (elements : List Value) :
                      native (pure elements : Code (Run σ) (List Value)) = pure elements := rfl
                  rw [flat, native_pure, pure_bind]
                  exact (ih _ ⟨state, run.calls ++ [x]⟩).trans (and_iff_right present).symm
              | none =>
                  apply iff_of_false ?_ fun sequences => sequences.1 view
                  intro same
                  rcases add_flat_other m view ⟨state, run.calls ++ [x]⟩ with ⟨text, threw⟩ | called
                  · rw [bind_at, threw] at same
                    have raised := congrArg Prod.fst same
                    simp [throwing, Eff.raise, follow] at raised
                  · have grows (flat : List Value) :
                        Grows (goOn (each (seqFlatMapBody m f) rest) (.inl (acc ++ flat)) >>=
                          listed) := by
                      apply grows_bind (grows_each (grows_seq_flat_map m f) rest _)
                      intro ending
                      exact grows_pure _
                    have after := Nat.lt_of_lt_of_le called
                      (bind_calls grows ⟨state, run.calls ++ [x]⟩)
                    rw [← same] at after
                    exact Nat.lt_irrefl _ after

/-! ## The closed forms -/

theorem small_iff_lt (n : Nat) : isSmallInt (n : Int) = true ↔ n < 9007199254740992 := by
  simp only [isSmallInt, decide_eq_true_eq]
  omega

theorem elements_length (r : Range) : (elements r).length = r.size := by
  rw [elements, List.length_map, r.integers_length]

theorem elements_getD (r : Range) {i : Nat} (inside : i < r.size) :
    (elements r)[i]? = some (.int (r.elementAt i)) := by
  have bound : i < r.integers.length := by rwa [r.integers_length]
  rw [elements, List.getElem?_map, List.getElem?_eq_getElem bound, r.integers_get bound]
  rfl

theorem elements_empty {r : Range} (empty : r.size = 0) : elements r = [] := by
  rw [← List.length_eq_zero_iff, elements_length, empty]

theorem last_element {r : Range} (some : r.size ≠ 0) :
    (r.elementAt ((r.size : Int) - 1)) = r.elementAt ((r.size - 1 : Nat) : Int) := by
  rw [Int.natCast_sub (Nat.one_le_iff_ne_zero.mpr some)]
  rfl

/-- The element behind the last step. -/
theorem at_last (r : Range) (some : r.size ≠ 0) :
    (long ((r.size : Int) - 1) >>= fun i => Range.atOf r i : Native σ Int) =
      pure (r.elementAt ((r.size : Int) - 1)) := by
  have bound := r.size_le
  rw [long_eq (by omega) (by omega), pure_bind, last_element some,
    ← at_of_eq r (Nat.sub_one_lt some), Int.natCast_sub (Nat.one_le_iff_ne_zero.mpr some)]
  rfl

theorem meets_of_eq {r : Range} {op : Op σ} {run : Run σ}
    (same : rangeOp m r op run = listOp m (elements r) op run)
    (sound : Sound (rangeOp m r op run)) : Meets m r op run :=
  ⟨congrArg (observed op) same, sound⟩

theorem length_meets_iff (r : Range) (run : Run σ) :
    Meets m r .length run ↔ r.size < 9007199254740992 := by
  have length : rangeOp m r .length =
      (makeSmallInt (r.size : Int) >>= fun v => pure (.value v) : Native σ Result) := by
    rw [rangeOp, length_of_eq, pure_bind]
  by_cases fits : isSmallInt (r.size : Int) = true
  · apply iff_of_true ?_ ((small_iff_lt r.size).mp fits)
    rw [make_small fits, pure_bind] at length
    apply meets_of_eq
    · rw [length, listOp, elements_length]
    · rw [length]
      exact faultless_pure _ run
  · apply iff_of_false ?_ fun below => fits ((small_iff_lt r.size).mpr below)
    rintro ⟨-, sound⟩
    rw [length, makeSmallInt, if_neg fits] at sound
    exact sound.1 rfl

theorem is_empty_meets (r : Range) (run : Run σ) : Meets m r .isEmpty run := by
  have empty : rangeOp m r .isEmpty = (listOp m (elements r) .isEmpty : Native σ Result) := by
    rw [rangeOp, length_of_eq, pure_bind, listOp, elements_length]
    congr 2
    rw [Bool.eq_iff_iff, beq_iff_eq, beq_iff_eq, Int.natCast_eq_zero]
  exact meets_of_eq m (congrFun empty run) (empty ▸ faultless_pure _ run)

theorem faultless_int_arg (method : String) (v : Value) : Faultless (intArg m method v) := by
  unfold intArg
  cases v with
  | int n =>
      simp only
      split_ifs
      · exact faultless_pure n
      · exact faultless_pure n
      · exact fun run => ⟨nofun, nofun⟩
  | char code => exact faultless_pure _
  | _ => exact faultless_native _

theorem apply_meets (r : Range) (index : Value) (run : Run σ) : Meets m r (.apply index) run := by
  unfold Meets
  rw [rangeOp, listOp, rangeApply, seqApply, bind_at, bind_at]
  have argument := faultless_int_arg m "apply" index run
  cases ran : intArg m "apply" index run with
  | mk ending reached =>
      rw [ran] at argument
      cases ending with
      | error failure =>
          refine ⟨rfl, fun fault => argument.1 ?_, fun fault => argument.2 ?_⟩
          · exact congrArg Except.error (Except.error.inj fault)
          · exact congrArg Except.error (Except.error.inj fault)
      | ok i =>
          simp only [follow]
          rw [length_of_eq, pure_bind, elements_length]
          by_cases outside : i < 0 ∨ (r.size : Int) ≤ i
          · rw [if_pos outside, if_pos outside]
            exact ⟨rfl, faultless_throwing _ _ reached⟩
          · rw [if_neg outside, if_neg outside]
            have inside : i.toNat < r.size := by omega
            have index : ((i.toNat : Nat) : Int) = i := by omega
            rw [← index, at_of_eq r inside, pure_bind, make_small (r.element_bounds inside).1,
              pure_bind, Int.toNat_natCast, List.getD_eq_getElem?_getD, elements_getD r inside]
            exact ⟨rfl, faultless_pure _ reached⟩

theorem head_meets (r : Range) (run : Run σ) : Meets m r .head run := by
  unfold Meets
  rw [rangeOp, listOp, rangeHead, seqHead, length_of_eq, pure_bind, List.head?_eq_getElem?]
  by_cases empty : r.size = 0
  · rw [if_pos (by omega), elements_empty empty]
    exact ⟨rfl, faultless_throwing _ _ run⟩
  · rw [if_neg (by omega), make_small r.smallStart, pure_bind,
      elements_getD r (Nat.pos_of_ne_zero empty)]
    have first : r.elementAt ((0 : Nat) : Int) = r.start := by
      unfold Values.Range.elementAt
      omega
    rw [first]
    exact ⟨rfl, faultless_pure _ run⟩

theorem last_meets (r : Range) (run : Run σ) : Meets m r .last run := by
  unfold Meets
  rw [rangeOp, listOp, rangeLast, seqLast, length_of_eq, pure_bind, List.getLast?_eq_getElem?,
    elements_length]
  by_cases empty : r.size = 0
  · rw [if_pos (by omega), elements_empty empty]
    exact ⟨rfl, faultless_throwing _ _ run⟩
  · have inside := Nat.sub_one_lt empty
    have last := at_last (σ := σ) r empty
    rw [if_neg (by omega), ← bind_assoc, last, pure_bind, last_element empty,
      make_small (r.element_bounds inside).1, pure_bind, elements_getD r inside]
    exact ⟨rfl, faultless_pure _ run⟩

/-! ### `contains` -/

theorem small_equal {e n : Int} (smallE : isSmallInt e = true) (smallN : isSmallInt n = true) :
    valuesEqual m.classes (.int e) (.int n) = (e == n) := by
  simp [valuesEqual, valuesEqualWithin, Value.isNumeric, Value.isNumberFast, numbersEqual,
    Value.widenChar, smallE, smallN]

theorem element_small {r : Range} {e : Int} (member : e ∈ r.integers) : isSmallInt e = true := by
  obtain ⟨i, inside, rfl⟩ := (r.mem_integers e).mp member
  exact (r.element_bounds inside).1

theorem range_contains_small (r : Range) {n : Int} (small : isSmallInt n = true) :
    (rangeContains r (.int n) : Native σ Result) = pure (.bool (decide (n ∈ r.integers))) := by
  unfold rangeContains
  simp only
  rw [if_pos small, length_of_eq, pure_bind]
  by_cases empty : r.size = 0
  · have none : r.integers = [] := by rw [← List.length_eq_zero_iff, r.integers_length, empty]
    rw [if_pos (by omega), none]
    rfl
  · have bounds := r.small_bounds
    simp only [isSmallInt, decide_eq_true_eq] at small
    have rest := Nat.mod_le (n - r.start).natAbs r.step.natAbs
    rw [← Int.natAbs_tmod] at rest
    have steps := Int.natAbs_tdiv_le_natAbs (n - r.start) r.step
    rw [if_neg (by omega), long_eq (by omega) (by omega), pure_bind,
      long_eq (by omega) (by omega), pure_bind]
    have member := r.mem_iff_multiple n empty
    by_cases divides : (n - r.start).tmod r.step = 0
    · rw [if_neg (by omega), long_eq (by omega) (by omega), pure_bind]
      congr 2
      rw [decide_eq_decide, member]
      exact (and_iff_right divides).symm
    · rw [if_pos divides]
      congr 2
      rw [eq_comm, decide_eq_false_iff_not, member]
      exact fun both => divides both.1

theorem range_contains_other (r : Range) {x : Value}
    (other : ¬∃ n, x = .int n ∧ isSmallInt n = true) :
    (rangeContains r x : Native σ Result) = pure (.bool false) := by
  unfold rangeContains
  cases x with
  | int n =>
      simp only
      rw [if_neg fun small => other ⟨n, rfl, small⟩]
  | _ => rfl

theorem contains_meets_iff (r : Range) (x : Value) (run : Run σ) :
    Meets m r (.contains x) run ↔ (∃ n, x = .int n ∧ isSmallInt n = true) ∨
      ∀ e ∈ elements r, valuesEqual m.classes e x = false := by
  by_cases integer : ∃ n, x = .int n ∧ isSmallInt n = true
  · apply iff_of_true ?_ (Or.inl integer)
    obtain ⟨n, rfl, small⟩ := integer
    have contains := range_contains_small (σ := σ) r small
    apply meets_of_eq
    · have found : decide (n ∈ r.integers) =
          (elements r).any fun e => valuesEqual m.classes e (.int n) := by
        rw [Bool.eq_iff_iff, decide_eq_true_eq, List.any_eq_true, elements]
        constructor
        · intro member
          refine ⟨.int n, List.mem_map_of_mem member, ?_⟩
          rw [small_equal m small small]
          exact beq_self_eq_true n
        · rintro ⟨e, member, equal⟩
          obtain ⟨k, inside, rfl⟩ := List.mem_map.mp member
          rw [small_equal m (element_small inside) small, beq_iff_eq] at equal
          exact equal ▸ inside
      rw [rangeOp, listOp, contains, seqContains, found]
    · rw [rangeOp, contains]
      exact faultless_pure _ run
  · have contains := range_contains_other (σ := σ) r integer
    unfold Meets
    rw [rangeOp, listOp, contains, seqContains, or_iff_right integer]
    constructor
    · rintro ⟨same, -⟩
      have answers : Except.ok (Result.bool false) = Except.ok (Result.bool
        ((elements r).any fun e => valuesEqual m.classes e x)) := congrArg Prod.fst same
      rw [Except.ok.injEq, Result.bool.injEq, eq_comm, List.any_eq_false] at answers
      simpa using answers
    · intro none
      have missing : ((elements r).any fun e => valuesEqual m.classes e x) = false := by
        simpa using none
      rw [missing]
      exact ⟨rfl, faultless_pure _ run⟩

/-! ### `sum` -/

theorem seq_sum_integers (ns : List Int) (acc : Int) :
    (seqSum m (.int acc) (ns.map .int) : Native σ Result) =
      pure (.value (.int (acc + ns.sum))) := by
  induction ns generalizing acc with
  | nil =>
      rw [List.map_nil, seqSum, List.sum_nil, Int.add_zero]
  | cons n rest ih =>
      have number : (Value.int n).widenChar.isNumberFast = true := rfl
      rw [List.map_cons, seqSum, if_pos number, List.sum_cons, ← Int.add_assoc]
      exact ih (acc + n)

theorem range_sum_eq (r : Range) :
    (rangeSum r : Native σ Result) =
      if r.size = 0 then pure (.value (.int 0))
      else makeSmallInt (r.size : Int) >>= fun _ => pure (.value (.int r.integers.sum)) := by
  unfold rangeSum
  rw [length_of_eq, pure_bind]
  by_cases empty : r.size = 0
  · rw [if_pos (by omega), if_pos empty, make_small (by decide), pure_bind]
  · have inside := Nat.sub_one_lt empty
    rw [if_neg (by omega), if_neg empty, make_small r.smallStart, pure_bind, ← bind_assoc,
      at_last r empty, pure_bind, last_element empty, make_small (r.element_bounds inside).1,
      pure_bind, ← last_element empty, r.closed_sum]

theorem sum_meets_iff (r : Range) (run : Run σ) :
    Meets m r .sum run ↔ r.size < 9007199254740992 := by
  have summed := range_sum_eq (σ := σ) r
  have list := seq_sum_integers (σ := σ) m r.integers 0
  rw [Int.zero_add] at list
  by_cases fits : isSmallInt (r.size : Int) = true
  · apply iff_of_true ?_ ((small_iff_lt r.size).mp fits)
    have total : (rangeSum r : Native σ Result) = pure (.value (.int r.integers.sum)) := by
      rw [summed, make_small fits, pure_bind]
      split_ifs with empty
      · have none : r.integers = [] := by rw [← List.length_eq_zero_iff, r.integers_length, empty]
        rw [none]
        rfl
      · rfl
    apply meets_of_eq
    · rw [rangeOp, listOp, total, elements, list]
    · rw [rangeOp, total]
      exact faultless_pure _ run
  · apply iff_of_false ?_ fun below => fits ((small_iff_lt r.size).mpr below)
    rintro ⟨-, sound⟩
    have some : r.size ≠ 0 := by
      intro empty
      rw [empty] at fits
      exact fits (by decide)
    rw [rangeOp, summed, if_neg some, makeSmallInt, if_neg fits] at sound
    exact sound.1 rfl

/-! ### `reverse` -/

theorem small_neg_iff (r : Range) :
    isSmallInt (-r.step) = true ↔ r.step ≠ -9007199254740992 := by
  have bounds := r.small_bounds
  simp only [isSmallInt, decide_eq_true_eq]
  omega

theorem range_reverse_eq (r : Range) (some : r.size ≠ 0) :
    (rangeReverse r : Native σ Range) =
      if small : isSmallInt (-r.step) = true then pure (r.back small some)
      else Eff.raise .notSmall := by
  have bounds := r.small_bounds
  have first : isSmallInt (r.elementAt ((r.size : Int) - 1)) = true := by
    rw [last_element some]
    exact (r.element_bounds (Nat.sub_one_lt some)).1
  unfold rangeReverse
  rw [length_of_eq, pure_bind, if_neg (by omega), ← bind_assoc, at_last r some, pure_bind,
    long_eq (by omega) (by omega), pure_bind, newRange, dif_pos first, dif_pos r.smallStart]
  rfl

theorem reverse_meets_iff (r : Range) (run : Run σ) :
    Meets m r .reverse run ↔ r.size = 0 ∨ r.step ≠ -9007199254740992 := by
  by_cases empty : r.size = 0
  · apply iff_of_true ?_ (Or.inl empty)
    have same : (rangeReverse r : Native σ Range) = pure r := by
      unfold rangeReverse
      rw [length_of_eq, pure_bind, if_pos (by omega)]
    apply meets_of_eq
    · rw [rangeOp, listOp, same, pure_bind, elements_empty empty]
      rfl
    · rw [rangeOp, same]
      exact faultless_pure _ run
  · rw [or_iff_right empty, ← small_neg_iff]
    have reversed := range_reverse_eq (σ := σ) r empty
    by_cases small : isSmallInt (-r.step) = true
    · apply iff_of_true ?_ small
      rw [dif_pos small] at reversed
      apply meets_of_eq
      · rw [rangeOp, listOp, reversed, pure_bind, elements, r.back_integers, List.map_reverse]
        rfl
      · rw [rangeOp, reversed]
        exact faultless_pure _ run
    · apply iff_of_false ?_ small
      rintro ⟨-, sound⟩
      rw [rangeOp, reversed, dif_neg small] at sound
      exact sound.1 rfl

/-! ## All methods -/

theorem faultless_invoke (f : Function σ) (x : Value) : Faultless (invoke f x) :=
  faultless_native _

theorem faultless_listed (ending : List Value ⊕ Empty) :
    Faultless (listed ending : Native σ Result) :=
  faultless_pure _

theorem foreach_meets (r : Range) (f : Function σ) (run : Run σ) : Meets m r (.foreach f) run := by
  have loops := each_of_eq r (foreachBody f) ()
  apply meets_of_eq
  · rw [rangeOp, listOp, loops]
  · rw [rangeOp, loops]
    apply faultless_bind (faultless_each ?_ _ _) (fun _ => faultless_pure _)
    intro acc x
    exact faultless_bind (faultless_invoke f x) fun _ => faultless_pure _

theorem map_meets (r : Range) (f : Function σ) (run : Run σ) : Meets m r (.map f) run := by
  have loops := each_of_eq r (mapBody f) []
  apply meets_of_eq
  · rw [rangeOp, listOp, loops]
  · rw [rangeOp, loops]
    apply faultless_bind (faultless_each ?_ _ _) faultless_listed
    intro acc x
    exact faultless_bind (faultless_invoke f x) fun _ => faultless_pure _

theorem flat_map_meets (r : Range) (f : Function σ) (run : Run σ) :
    Meets m r (.flatMap f) run ↔ Sequences f (elements r) run.state := by
  have loops := each_of_eq r (rangeFlatMapBody m f) []
  have sound : Faultless (each (rangeFlatMapBody m f) (elements r) [] >>= listed) := by
    apply faultless_bind (faultless_each ?_ _ _) faultless_listed
    intro acc x
    apply faultless_bind (faultless_invoke f x)
    intro v
    cases seqViewOf v with
    | none => exact faultless_throwing _ _
    | some view => exact faultless_pure _
  unfold Meets
  rw [rangeOp, listOp, loops, ← flat_map_meets_iff m f (elements r) [] run]
  exact and_iff_left (sound run)

theorem search_meets (s : Search α) (r : Range) (p : Function σ) (run : Run σ) :
    (rangeSearch s r p run = seqSearch m s (elements r) p run ∧ Sound (rangeSearch s r p run)) ↔
      Answered s p (elements r) s.first run.state := by
  unfold rangeSearch seqSearch
  rw [each_of_eq]
  exact search_meets_iff m s p (elements r) s.first run

/-- A Range behaves as the list of its elements exactly there: for every method, every Range
and every state of the program. -/
theorem range_methods (r : Range) (op : Op σ) (run : Run σ) :
    Meets m r op run ↔ Right m r run.state op := by
  cases op with
  | length => exact length_meets_iff m r run
  | isEmpty => exact iff_of_true (is_empty_meets m r run) trivial
  | apply index => exact iff_of_true (apply_meets m r index run) trivial
  | head => exact iff_of_true (head_meets m r run) trivial
  | last => exact iff_of_true (last_meets m r run) trivial
  | contains x => exact contains_meets_iff m r x run
  | sum => exact sum_meets_iff m r run
  | reverse => exact reverse_meets_iff m r run
  | foreach f => exact iff_of_true (foreach_meets m r f run) trivial
  | map f => exact iff_of_true (map_meets m r f run) trivial
  | flatMap f => exact flat_map_meets m r f run
  | filter p => exact search_meets m filtering r p run
  | exists_ p => exact search_meets m existing r p run
  | forall_ p => exact search_meets m forAll r p run
  | count p => exact search_meets m counting r p run
  | find p => exact search_meets m finding r p run

theorem zero_small : isSmallInt 0 = true := by decide

theorem one_small : isSmallInt 1 = true := by decide

/-- `0 until 1`. -/
def oneElement : Range where
  start := 0
  stop := 1
  step := 1
  inclusive := false
  smallStart := zero_small
  smallStop := one_small
  smallStep := one_small

def noClassNames : Machine Unit where
  typeName _ := "String"
  classes := ValueEquality.noClasses
  isEmpty _ state := (.ok (.bool true), state)
  get _ state := (.ok .null, state)
  addDouble _ _ := .null

/-- `(0 until 1).filter(x => "")` is the empty List, and the List's `filter` throws. -/
theorem filter_not_strict :
    ¬Meets noClassNames oneElement (.filter fun _ state => (.ok (.string []), state)) ⟨(), []⟩ := by
  rintro ⟨same, -⟩
  have endings := congrArg Prod.fst same
  cases endings

end ProtoScala.Runtime.RangeMethods
