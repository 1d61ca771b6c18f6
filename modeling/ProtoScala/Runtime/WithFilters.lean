import ProtoScala.Library.Stages
import ProtoScala.Runtime.MapEntries
import ProtoScala.Runtime.RangeElements

/-!
# `withFilter`

The WithFilter object keeps a List of the elements and a list of predicates, and tests an
element right before it is used; `filter` rebuilds a collection of its receiver's kind. The
functions are effect-free: they answer or throw.
-/

namespace ProtoScala.Runtime.WithFilters

open ProtoScala.Library.HashedMaps
open ProtoScala.Library.Stages
open ProtoScala.Runtime.Calls
open ProtoScala.Runtime.KeyedCollections
open ProtoScala.Runtime.MapEntries
open ProtoScala.Runtime.Values

set_option autoImplicit false

/-- An effect-free function of the program, with the number of its parameters. -/
structure Fn where
  arity : Nat
  invoke : List Value → Except Thrown Value

/-- Class names, the sends of `isEmpty` and `get`, and the pair of a key and its value. -/
structure Machine where
  typeName : Value → String
  isEmpty : Function Unit
  get : Function Unit
  makePair : Value → Value → Value

variable {L : RuntimeLayout} (map : HashedMap (scalaKeySemantics L) Value) (m : Machine)

inductive Coll where
  /-- A List or a Vector. -/
  | seq (isVector : Bool) (elements : List Value)
  | range (r : Range)
  /-- A Map or a Set. -/
  | keyed (isSet : Bool) (data : map.Data)

inductive Result where
  | unit
  | seq (isVector : Bool) (elements : List Value)
  | keyed (isSet : Bool) (data : map.Data)

inductive Op where
  | map
  | flatMap
  | foreach
  deriving DecidableEq

def truthOf (method : String) (v : Value) : Except Thrown Bool :=
  (truth m.typeName method v ()).1

/-- The predicate's answer for one element. -/
def testOne (method : String) (p : Fn) (x : Value) : Except Thrown Bool :=
  (p.invoke [x]).bind (truthOf m method)

/-- What the answer of the function adds to the result. -/
def contribution : Op → Value → Except Thrown (List Value)
  | .map, r => .ok [r]
  | .flatMap, r => (addFlat m.typeName m.isEmpty m.get "flatMap" r ()).1
  | .foreach, _ => .ok []

def stepOne (op : Op) (f : Fn) (x : Value) : Except Thrown (List Value) :=
  (f.invoke [x]).bind (contribution m op)

/-! ## The WithFilter object -/

def accepted : List Fn → Value → Except Thrown Bool
  | [], _ => .ok true
  | p :: ps, x =>
      match testOne m "withFilter" p x with
      | .error t => .error t
      | .ok true => accepted ps x
      | .ok false => .ok false

/-- The loop of `withFilterApply`. -/
def withFilterLoop (op : Op) (f : Fn) (preds : List Fn) : List Value → Except Thrown (List Value)
  | [] => .ok []
  | x :: rest =>
      match accepted m preds x with
      | .error t => .error t
      | .ok false => withFilterLoop op f preds rest
      | .ok true =>
          match stepOne m op f x with
          | .error t => .error t
          | .ok r => (withFilterLoop op f preds rest).map (r ++ ·)

/-- The elements of the List that the WithFilter object keeps. -/
def entryList : Coll map → List Value
  | .seq _ es => es
  | .range r => r.integers.map .int
  | .keyed isSet data => (map.entries data).map fun e => if isSet then e.1 else m.makePair e.1 e.2

/-- `c.withFilter(p1)...withFilter(pk)` and the operation. -/
def withFiltered (op : Op) (f : Fn) (preds : List Fn) (c : Coll map) :
    Except Thrown (Result map) :=
  (withFilterLoop m op f preds (entryList map m c)).map fun es =>
    if op = .foreach then .unit else .seq false es

/-! ## `filter` -/

/-- `callOnEntry`. -/
def callOnEntry (f : Fn) (isSet : Bool) (e : Value × Value) : Except Thrown Value :=
  if isSet || f.arity == 1 then f.invoke [if isSet then e.1 else m.makePair e.1 e.2]
  else f.invoke [e.1, e.2]

def testEntry (p : Fn) (isSet : Bool) (e : Value × Value) : Except Thrown Bool :=
  (callOnEntry m p isSet e).bind (truthOf m "filter")

/-- The test of `prim_range_filter`: the answer is `PROTO_TRUE`. -/
def testTrue (p : Fn) (x : Value) : Except Thrown Bool :=
  (p.invoke [x]).map fun v => match v with
    | .bool b => b
    | _ => false

def filterColl (p : Fn) : Coll map → Except Thrown (Coll map)
  | .seq isVector es => (keep (testOne m "filter" p) es).map (.seq isVector)
  | .range r => (keep (testTrue p) (r.integers.map .int)).map (.seq false)
  | .keyed isSet data =>
      (keep (testEntry m p isSet) (map.entries data)).map fun kept =>
        .keyed isSet (putAll map map.newMap kept)

def filterAll : List Fn → Coll map → Except Thrown (Coll map)
  | [], c => .ok c
  | p :: ps, c => (filterColl map m p c).bind (filterAll ps)

def seqResult (op : Op) (isVector : Bool) (es : List Value) : Result map :=
  if op = .foreach then .unit else .seq isVector es

/-- The Set of the results; the Map when all are tuples, and else the List. -/
def keyedResult (op : Op) (isSet : Bool) (results : List Value) : Except Thrown (Result map) :=
  if op = .foreach then .ok .unit
  else if isSet then .ok (.keyed true (putAll map map.newMap (results.map fun r => (r, r))))
  else
    match rebuild map (if op = .map then "map" else "flatMap") results with
    | .ok (.inl es) => .ok (.seq false es)
    | .ok (.inr data) => .ok (.keyed false data)
    -- not reached: all results are tuples
    | .error _ => .error (.scalaError "IllegalArgumentException" "")

/-- The operations of a Map and a Set: all calls, and behind them the flattening. -/
def visitOp (op : Op) (f : Fn) (isSet : Bool) (entries : List (Value × Value)) :
    Except Thrown (Result map) :=
  (eachThrough (fun e => (callOnEntry m f isSet e).map fun r => [r]) entries).bind fun results =>
    (eachThrough (contribution m op) results).bind (keyedResult map op isSet)

def applyOp (op : Op) (f : Fn) : Coll map → Except Thrown (Result map)
  | .seq isVector es => (eachThrough (stepOne m op f) es).map (seqResult map op isVector)
  | .range r =>
      (eachThrough (stepOne m op f) (r.integers.map .int)).map (seqResult map op false)
  | .keyed isSet data => visitOp map m op f isSet (map.entries data)

/-- `c.filter(p1)...filter(pk)` and the operation. -/
def filtered (op : Op) (f : Fn) (preds : List Fn) (c : Coll map) : Except Thrown (Result map) :=
  (filterAll map m preds c).bind (applyOp map m op f)

/-! ## Agreement -/

/-- The texts of the errors name the method; the class of an error is compared. -/
def errorClass : Thrown → Thrown
  | .scalaError cls _ => .scalaError cls ""
  | other => other

def Agrees (op : Op) (f : Fn) (preds : List Fn) (c : Coll map) : Prop :=
  (withFiltered map m op f preds c).mapError errorClass =
    (filtered map m op f preds c).mapError errorClass

/-- The failures are of one class, or there is none. -/
def Alike (first second : Option Thrown) : Prop :=
  first.map errorClass = second.map errorClass

/-- The failure that is met first when every element goes through all predicates and the
function before the next one. -/
def elementFailure (op : Op) (f : Fn) (preds : List Fn) (c : Coll map) : Option Thrown :=
  firstFailure (through (preds.map (testOne m "filter")) (stepOne m op f)) (entryList map m c)

def stepEntry (op : Op) (f : Fn) (isSet : Bool) (e : Value × Value) : Except Thrown (List Value) :=
  (callOnEntry m f isSet e).bind (contribution m op)

/-- The failure that is met first when all elements go through one predicate after the other;
a Range's first filter takes an answer that is no Boolean for false, and a Map and a Set
flatten behind all calls. -/
def filterFailure (op : Op) (f : Fn) (p : Fn) (ps : List Fn) : Coll map → Option Thrown
  | .seq _ es => stageFailure ((p :: ps).map (testOne m "filter")) (stepOne m op f) es
  | .range r =>
      stageFailure (testTrue p :: ps.map (testOne m "filter")) (stepOne m op f)
        (r.integers.map .int)
  | .keyed isSet data =>
      (stageFailure ((p :: ps).map fun p => testEntry m p isSet)
        (fun e => (callOnEntry m f isSet e).map fun r => [r]) (map.entries data)).or
        (stageFailure ((p :: ps).map fun p => testEntry m p isSet) (stepEntry m op f isSet)
          (map.entries data))

/-- The results for the accepted entries, called as the natives of a Map call. -/
def entryResults (op : Op) (f : Fn) (preds : List Fn) (isSet : Bool) (data : map.Data) :
    List Value :=
  (map.entries data).flatMap
    (outputs (through (preds.map fun p => testEntry m p isSet) (stepEntry m op f isSet)))

/-- The results for the accepted entries, called on pairs. -/
def pairResults (op : Op) (f : Fn) (preds : List Fn) (c : Coll map) : List Value :=
  (entryList map m c).flatMap
    (outputs (through (preds.map (testOne m "filter")) (stepOne m op f)))

/-- The kinds of the two results are one, where there are results. -/
def SameKind (op : Op) (f : Fn) (preds : List Fn) : Coll map → Prop
  | .seq isVector _ => isVector = false
  | .range _ => True
  | .keyed isSet data =>
      isSet = false ∧ (entryResults map m op f preds isSet data).all (isTupleInstance L) = false ∧
        entryResults map m op f preds isSet data =
          pairResults map m op f preds (.keyed isSet data)

/-- Where `withFilter` agrees with `filter`. -/
def Right (op : Op) (f : Fn) (p : Fn) (ps : List Fn) (c : Coll map) : Prop :=
  Alike (elementFailure map m op f (p :: ps) c) (filterFailure map m op f p ps c) ∧
    (op = .foreach ∨ elementFailure map m op f (p :: ps) c ≠ none ∨
      SameKind map m op f (p :: ps) c)

/-- Entries in ascending order of their hashes: a part of the entries, put into a new map, is
visited in the order that it had. -/
def InOrder : Prop :=
  ∀ d kept, kept.Sublist (map.entries d) → map.entries (putAll map map.newMap kept) = kept

/-! ## Outcomes -/

theorem agree_iff {α : Type} (left right : Except Thrown α) :
    left.mapError errorClass = right.mapError errorClass ↔
      Alike (errorOf left) (errorOf right) ∧ (errorOf left = none → left = right) := by
  cases left with
  | error t =>
      cases right with
      | error t' => simp [Except.mapError, Alike, errorOf]
      | ok r => simp [Except.mapError, Alike, errorOf]
  | ok r =>
      cases right with
      | error t => simp [Except.mapError, Alike, errorOf]
      | ok r' => simp [Except.mapError, Alike, errorOf]

theorem map_error_map {α β : Type} {left right : Except Thrown α} (f : α → β)
    (same : left.mapError errorClass = right.mapError errorClass) :
    (left.map f).mapError errorClass = (right.map f).mapError errorClass := by
  cases left with
  | error t =>
      cases right with
      | error t' => exact congrArg Except.error (Except.error.inj same)
      | ok r => cases same
  | ok r =>
      cases right with
      | error t => cases same
      | ok r' => exact congrArg (fun r => Except.ok (f r)) (Except.ok.inj same)

/-! ## The WithFilter object's loop -/

theorem test_alike (p : Fn) (x : Value) :
    (∃ b, testOne m "withFilter" p x = .ok b ∧ testOne m "filter" p x = .ok b) ∨
      ∃ t t', testOne m "withFilter" p x = .error t ∧ testOne m "filter" p x = .error t' ∧
        errorClass t = errorClass t' := by
  unfold testOne
  cases p.invoke [x] with
  | error t => exact Or.inr ⟨t, t, rfl, rfl, rfl⟩
  | ok v =>
      cases v with
      | bool b => exact Or.inl ⟨b, rfl, rfl⟩
      | _ => exact Or.inr ⟨_, _, rfl, rfl, rfl⟩

theorem accepted_cases (preds : List Fn) (g : Value → Except Thrown (List Value)) (x : Value) :
    (accepted m preds x = .ok true ∧ through (preds.map (testOne m "filter")) g x = g x) ∨
      (accepted m preds x = .ok false ∧ through (preds.map (testOne m "filter")) g x = .ok []) ∨
      ∃ t t', accepted m preds x = .error t ∧
        through (preds.map (testOne m "filter")) g x = .error t' ∧
        errorClass t = errorClass t' := by
  induction preds with
  | nil => exact Or.inl ⟨rfl, rfl⟩
  | cons p ps ih =>
      rw [List.map_cons, accepted, through]
      rcases test_alike m p x with ⟨b, first, second⟩ | ⟨t, t', first, second, alike⟩
      · rw [first, second]
        cases b with
        | true => exact ih
        | false => exact Or.inr (Or.inl ⟨rfl, rfl⟩)
      · rw [first, second]
        exact Or.inr (Or.inr ⟨t, t', rfl, rfl, alike⟩)

theorem loop_alike (op : Op) (f : Fn) (preds : List Fn) (xs : List Value) :
    (withFilterLoop m op f preds xs).mapError errorClass =
      (eachThrough (through (preds.map (testOne m "filter")) (stepOne m op f)) xs).mapError
        errorClass := by
  induction xs with
  | nil => rfl
  | cons x rest ih =>
      rw [withFilterLoop, eachThrough]
      rcases accepted_cases m preds (stepOne m op f) x with
        ⟨first, second⟩ | ⟨first, second⟩ | ⟨t, t', first, second, alike⟩
      · rw [first, second]
        cases stepOne m op f x with
        | error t => rfl
        | ok r => exact map_error_map (r ++ ·) ih
      · rw [first, second]
        simp only
        rw [ih]
        cases eachThrough (through (preds.map (testOne m "filter")) (stepOne m op f)) rest <;> rfl
      · rw [first, second]
        exact congrArg Except.error alike

/-- The outcome of the WithFilter object, with the texts of `filter`. -/
def byElement (op : Op) (f : Fn) (preds : List Fn) (c : Coll map) : Except Thrown (Result map) :=
  (eachThrough (through (preds.map (testOne m "filter")) (stepOne m op f)) (entryList map m c)).map
    fun es => if op = .foreach then .unit else .seq false es

theorem agrees_iff (op : Op) (f : Fn) (preds : List Fn) (c : Coll map) :
    Agrees map m op f preds c ↔
      Alike (elementFailure map m op f preds c) (errorOf (filtered map m op f preds c)) ∧
        (elementFailure map m op f preds c = none →
          byElement map m op f preds c = filtered map m op f preds c) := by
  have alike : (withFiltered map m op f preds c).mapError errorClass =
      (byElement map m op f preds c).mapError errorClass :=
    map_error_map _ (loop_alike m op f preds (entryList map m c))
  have fails : errorOf (byElement map m op f preds c) = elementFailure map m op f preds c := by
    rw [byElement, failure_map, each_failure]
    rfl
  rw [Agrees, alike, agree_iff, fails]

theorem by_element_ok {op : Op} {f : Fn} {preds : List Fn} {c : Coll map}
    (fine : elementFailure map m op f preds c = none) :
    byElement map m op f preds c =
      .ok (if op = .foreach then .unit else .seq false (pairResults map m op f preds c)) := by
  rw [byElement, each_ok fine]
  rfl

/-! ## `filter` of a List, a Vector and a Range -/

theorem filter_all_seq (op : Op) (f : Fn) (preds : List Fn) (isVector : Bool) (es : List Value) :
    filtered map m op f preds (.seq isVector es) =
      (staged (preds.map (testOne m "filter")) (stepOne m op f) es).map
        (seqResult map op isVector) := by
  induction preds generalizing es with
  | nil => rfl
  | cons p ps ih =>
      rw [filtered, filterAll, filterColl, List.map_cons, staged, keepAll]
      cases keep (testOne m "filter" p) es with
      | error t => rfl
      | ok kept => exact ih kept

theorem filter_all_range (op : Op) (f p : Fn) (ps : List Fn) (r : Range) :
    filtered map m op f (p :: ps) (.range r) =
      (staged (testTrue p :: ps.map (testOne m "filter")) (stepOne m op f)
        (r.integers.map .int)).map (seqResult map op false) := by
  rw [filtered, filterAll, filterColl, staged, keepAll]
  cases keep (testTrue p) (r.integers.map .int) with
  | error t => rfl
  | ok kept => exact filter_all_seq map m op f ps false kept

theorem seq_right_iff (op : Op) (f p : Fn) (ps : List Fn) (isVector : Bool) (es : List Value) :
    Agrees map m op f (p :: ps) (.seq isVector es) ↔
      Right map m op f p ps (.seq isVector es) := by
  rw [agrees_iff, Right, filterFailure, filter_all_seq, failure_map, staged_failure]
  apply and_congr_right
  intro _
  by_cases fine : elementFailure map m op f (p :: ps) (.seq isVector es) = none
  · have staged_fine : stageFailure ((p :: ps).map (testOne m "filter")) (stepOne m op f) es =
        none := (none_iff _ _ _).mp fine
    rw [by_element_ok map m fine, staged_ok staged_fine]
    simp only [fine, ne_eq, not_true_eq_false, false_or, forall_const, Except.map, SameKind,
      Except.ok.injEq, seqResult]
    by_cases unit : op = .foreach
    · simp [unit]
    · rw [if_neg unit, if_neg unit, or_iff_right unit, pairResults, entryList]
      simp [eq_comm]
  · exact iff_of_true (fun none => absurd none fine) (Or.inr (Or.inl fine))

/-- Where the strict test does not fail, the Range's test answers the same. -/
theorem test_true_eq {p : Fn} {x : Value} (fine : errorOf (testOne m "filter" p x) = none) :
    testTrue p x = testOne m "filter" p x := by
  unfold testTrue testOne at *
  cases ran : p.invoke [x] with
  | error t => rfl
  | ok v =>
      rw [ran] at fine
      cases v with
      | bool b => rfl
      | _ => cases fine

theorem range_right_iff (op : Op) (f p : Fn) (ps : List Fn) (r : Range) :
    Agrees map m op f (p :: ps) (.range r) ↔ Right map m op f p ps (.range r) := by
  rw [agrees_iff, Right, filterFailure, filter_all_range, failure_map, staged_failure]
  apply and_congr_right
  intro alike
  by_cases fine : elementFailure map m op f (p :: ps) (.range r) = none
  · apply iff_of_true ?_ (Or.inr (Or.inr trivial))
    intro _
    have staged_fine : stageFailure (testTrue p :: ps.map (testOne m "filter")) (stepOne m op f)
        (r.integers.map .int) = none := by
      rw [fine, Alike] at alike
      exact Option.map_eq_none_iff.mp alike.symm
    rw [by_element_ok map m fine, staged_ok staged_fine]
    have strict := (none_iff _ _ _).mp fine
    rw [List.map_cons, stageFailure, Option.or_eq_none_iff, first_failure_none] at strict
    have same : (r.integers.map .int).flatMap (outputs
        (through (testTrue p :: ps.map (testOne m "filter")) (stepOne m op f))) =
        pairResults map m op f (p :: ps) (.range r) := by
      apply List.flatMap_congr
      intro x member
      rw [outputs, outputs, List.map_cons, through, through, test_true_eq m (strict.1 x member)]
    rw [same]
    rfl
  · exact iff_of_true (fun none => absurd none fine) (Or.inr (Or.inl fine))

/-! ## `filter` of a Map and a Set -/

theorem keep_sublist {p : Value × Value → Except Thrown Bool} {xs kept : List (Value × Value)}
    (done : keep p xs = .ok kept) : kept.Sublist xs := by
  rw [keep_eq] at done
  cases fails : firstFailure p xs with
  | some t =>
      rw [fails] at done
      cases done
  | none =>
      rw [fails] at done
      rw [← Except.ok.inj done]
      exact List.filter_sublist

theorem filter_all_keyed (ordered : InOrder map) (op : Op) (f : Fn) (preds : List Fn)
    (isSet : Bool) (data : map.Data) :
    filtered map m op f preds (.keyed isSet data) =
      (keepAll (preds.map fun p => testEntry m p isSet) (map.entries data)).bind
        (visitOp map m op f isSet) := by
  induction preds generalizing data with
  | nil => rfl
  | cons p ps ih =>
      rw [filtered, filterAll, filterColl, List.map_cons, keepAll]
      cases done : keep (testEntry m p isSet) (map.entries data) with
      | error t => rfl
      | ok kept =>
          have rest := ih (putAll map map.newMap kept)
          rw [ordered data kept (keep_sublist done)] at rest
          exact rest

/-- Flattening behind all calls gives what flattening behind each call gives. -/
theorem two_phases (op : Op) (f : Fn) (isSet : Bool) {entries : List (Value × Value)}
    {results : List Value}
    (called : eachThrough (fun e => (callOnEntry m f isSet e).map fun r => [r]) entries =
      .ok results) :
    eachThrough (contribution m op) results = eachThrough (stepEntry m op f isSet) entries := by
  induction entries generalizing results with
  | nil =>
      cases called
      rfl
  | cons e rest ih =>
      rw [eachThrough] at called
      rw [eachThrough, stepEntry]
      cases ran : callOnEntry m f isSet e with
      | error t =>
          rw [ran] at called
          cases called
      | ok r =>
          rw [ran] at called
          cases later : eachThrough (fun e => (callOnEntry m f isSet e).map fun r => [r]) rest with
          | error t =>
              rw [later] at called
              cases called
          | ok others =>
              rw [later] at called
              cases called
              change eachThrough (contribution m op) (r :: others) = _
              rw [eachThrough, ih later]
              rfl

theorem keyed_result_ok (op : Op) (isSet : Bool) (results : List Value) :
    ∃ result, keyedResult map op isSet results = .ok result := by
  unfold keyedResult
  by_cases unit : op = .foreach
  · rw [if_pos unit]
    exact ⟨_, rfl⟩
  · rw [if_neg unit]
    by_cases set : isSet = true
    · rw [if_pos set]
      exact ⟨_, rfl⟩
    · obtain ⟨out, done⟩ := rebuild_total map (if op = .map then "map" else "flatMap") results
      rw [if_neg set, done]
      cases out <;> exact ⟨_, rfl⟩

/-- What the natives of a Map do behind the filters. -/
theorem visit_staged (op : Op) (f : Fn) (preds : List Fn) (isSet : Bool)
    (entries : List (Value × Value)) :
    (keepAll (preds.map fun p => testEntry m p isSet) entries).bind (visitOp map m op f isSet) =
      match stageFailure (preds.map fun p => testEntry m p isSet)
          (fun e => (callOnEntry m f isSet e).map fun r => [r]) entries with
      | some t => .error t
      | none =>
          (staged (preds.map fun p => testEntry m p isSet) (stepEntry m op f isSet) entries).bind
            (keyedResult map op isSet) := by
  rw [← staged_failure, staged, staged]
  cases keepAll (preds.map fun p => testEntry m p isSet) entries with
  | error t => rfl
  | ok kept =>
      change visitOp map m op f isSet kept = match errorOf
        (eachThrough (fun e => (callOnEntry m f isSet e).map fun r => [r]) kept) with
        | some t => .error t
        | none => (eachThrough (stepEntry m op f isSet) kept).bind (keyedResult map op isSet)
      rw [visitOp]
      cases called : eachThrough (fun e => (callOnEntry m f isSet e).map fun r => [r]) kept with
      | error t => rfl
      | ok results =>
          rw [← two_phases m op f isSet called]
          rfl

theorem keyed_fails (ordered : InOrder map) (op : Op) (f p : Fn) (ps : List Fn) (isSet : Bool)
    (data : map.Data) :
    errorOf (filtered map m op f (p :: ps) (.keyed isSet data)) =
      filterFailure map m op f p ps (.keyed isSet data) := by
  rw [filter_all_keyed map m ordered, visit_staged, filterFailure, ← staged_failure _
    (stepEntry m op f isSet)]
  cases stageFailure ((p :: ps).map fun p => testEntry m p isSet)
      (fun e => (callOnEntry m f isSet e).map fun r => [r]) (map.entries data) with
  | some t => rfl
  | none =>
      cases staged ((p :: ps).map fun p => testEntry m p isSet) (stepEntry m op f isSet)
          (map.entries data) with
      | error t => rfl
      | ok results =>
          obtain ⟨result, done⟩ := keyed_result_ok map op isSet results
          change errorOf (keyedResult map op isSet results) = none
          rw [done]
          rfl

theorem keyed_ok (ordered : InOrder map) {op : Op} {f p : Fn} {ps : List Fn} {isSet : Bool}
    {data : map.Data} (fine : filterFailure map m op f p ps (.keyed isSet data) = none) :
    filtered map m op f (p :: ps) (.keyed isSet data) =
      keyedResult map op isSet (entryResults map m op f (p :: ps) isSet data) := by
  rw [filterFailure, Option.or_eq_none_iff] at fine
  rw [filter_all_keyed map m ordered, visit_staged, fine.1, staged_ok fine.2]
  rfl

/-- A List is answered only for the results of a Map of which one is no tuple. -/
theorem keyed_result_seq (op : Op) (isSet : Bool) (results es : List Value)
    (values : op ≠ .foreach) :
    keyedResult map op isSet results = .ok (.seq false es) ↔
      isSet = false ∧ results.all (isTupleInstance L) = false ∧ results = es := by
  unfold keyedResult
  rw [if_neg values]
  cases isSet with
  | true => simp
  | false =>
      rw [if_neg (by decide)]
      cases tuples : results.all (isTupleInstance L) with
      | true =>
          obtain ⟨out, done⟩ := rebuild_total map (if op = .map then "map" else "flatMap") results
          rw [done]
          rw [rebuild, if_pos tuples] at done
          cases out with
          | inl es' =>
              cases found : entriesOf L true (if op = .map then "map" else "flatMap") results with
              | error reason => simp [found, Except.map] at done
              | ok entries => simp [found, Except.map] at done
          | inr data => simp
      | false =>
          have kept : rebuild map (if op = .map then "map" else "flatMap") results =
              .ok (.inl results) := by
            rw [rebuild, if_neg (by rw [tuples]; decide)]
          rw [kept]
          simp

theorem keyed_right_iff (ordered : InOrder map) (op : Op) (f p : Fn) (ps : List Fn)
    (isSet : Bool) (data : map.Data) :
    Agrees map m op f (p :: ps) (.keyed isSet data) ↔
      Right map m op f p ps (.keyed isSet data) := by
  rw [agrees_iff, Right, keyed_fails map m ordered]
  apply and_congr_right
  intro alike
  by_cases fine : elementFailure map m op f (p :: ps) (.keyed isSet data) = none
  · have filter_fine : filterFailure map m op f p ps (.keyed isSet data) = none := by
      rw [fine, Alike] at alike
      exact Option.map_eq_none_iff.mp alike.symm
    rw [by_element_ok map m fine, keyed_ok map m ordered filter_fine]
    simp only [fine, ne_eq, not_true_eq_false, false_or, forall_const]
    by_cases unit : op = .foreach
    · apply iff_of_true ?_ (Or.inl unit)
      rw [if_pos unit, keyedResult, if_pos unit]
    · rw [if_neg unit, or_iff_right unit, eq_comm, keyed_result_seq map op isSet _ _ unit]
      rfl
  · exact iff_of_true (fun none => absurd none fine) (Or.inr (Or.inl fine))

/-- `withFilter` agrees with `filter` exactly there: for every collection, every list of
predicates and every function. -/
theorem with_filter_agrees (ordered : InOrder map) (op : Op) (f p : Fn) (ps : List Fn)
    (c : Coll map) : Agrees map m op f (p :: ps) c ↔ Right map m op f p ps c := by
  cases c with
  | seq isVector es => exact seq_right_iff map m op f p ps isVector es
  | range r => exact range_right_iff map m op f p ps r
  | keyed isSet data => exact keyed_right_iff map m ordered op f p ps isSet data

/-! ## A hashed map whose parts keep their order -/

/-- Entries of which no key answers to a later one. -/
abbrev Apart (L : RuntimeLayout) : Type :=
  { entries : List (Value × Value) //
    entries.Pairwise fun x y => (scalaKeySemantics L).finds x.1 y.1 = false }

theorem replace_apart (entries : Apart L) (key v : Value) :
    (replace (scalaKeySemantics L) entries.1 key v).Pairwise
      fun x y => (scalaKeySemantics L).finds x.1 y.1 = false := by
  have keys (e : Value × Value) :
      (if (scalaKeySemantics L).finds e.1 key then (e.1, v) else e).1 = e.1 := by
    split <;> rfl
  rw [replace, List.pairwise_map]
  simp only [keys]
  exact entries.2

theorem append_apart (entries : Apart L) (key v : Value)
    (other : ¬(entries.1.any fun e => (scalaKeySemantics L).finds e.1 key) = true) :
    (entries.1 ++ [(key, v)]).Pairwise
      fun x y => (scalaKeySemantics L).finds x.1 y.1 = false := by
  rw [List.pairwise_append]
  refine ⟨entries.2, List.pairwise_singleton _ _, fun e member last same => ?_⟩
  rw [List.mem_singleton.mp same]
  by_contra found
  apply other
  rw [List.any_eq_true]
  exact ⟨e, member, by simpa using found⟩

def appendMap (L : RuntimeLayout) : HashedMap (scalaKeySemantics L) Value where
  Data := Apart L
  newMap := ⟨[], List.Pairwise.nil⟩
  hashedGet d key := lookup (scalaKeySemantics L) d.1 key
  hashedPut d key v :=
    if found : (d.1.any fun e => (scalaKeySemantics L).finds e.1 key) = true then
      ⟨replace (scalaKeySemantics L) d.1 key v, replace_apart d key v⟩
    else ⟨d.1 ++ [(key, v)], append_apart d key v found⟩
  hashedRemove d key :=
    ⟨d.1.filter fun e => !(scalaKeySemantics L).finds e.1 key, d.2.filter _⟩
  entries d := d.1

theorem put_all_append (kept : List (Value × Value)) (d : Apart L)
    (apart : (d.1 ++ kept).Pairwise fun x y => (scalaKeySemantics L).finds x.1 y.1 = false) :
    (appendMap L).entries (putAll (appendMap L) d kept) = d.1 ++ kept := by
  induction kept generalizing d with
  | nil => exact (List.append_nil _).symm
  | cons e rest ih =>
      have other : ¬(d.1.any fun x => (scalaKeySemantics L).finds x.1 e.1) = true := by
        rw [List.any_eq_true]
        rintro ⟨x, member, found⟩
        have never := (List.pairwise_append.mp apart).2.2 x member e List.mem_cons_self
        rw [never] at found
        cases found
      rw [List.append_cons] at apart ⊢
      have put : (appendMap L).hashedPut d e.1 e.2 =
          (⟨d.1 ++ [(e.1, e.2)], append_apart d e.1 e.2 other⟩ : Apart L) := dif_neg other
      change (appendMap L).entries
        (putAll (appendMap L) ((appendMap L).hashedPut d e.1 e.2) rest) = _
      rw [put]
      exact ih ⟨d.1 ++ [e], append_apart d e.1 e.2 other⟩ apart

theorem append_map_ordered (L : RuntimeLayout) : InOrder (appendMap L) := by
  intro d kept part
  exact put_all_append kept ⟨[], List.Pairwise.nil⟩ (d.2.sublist part)

def plainMachine : Machine where
  typeName _ := ""
  isEmpty _ state := (.ok (.bool true), state)
  get _ state := (.ok .null, state)
  makePair := pair 0

/-- `x => true` and `x => x`. -/
def always : Fn := ⟨1, fun _ => .ok (.bool true)⟩

def itself : Fn := ⟨1, fun args => .ok (args.headD .null)⟩

/-- `for x <- List(1) if true yield x`. -/
theorem list_agrees :
    Agrees (appendMap plainLayout) plainMachine .map itself [always] (.seq false [.int 1]) := by
  apply (with_filter_agrees (appendMap plainLayout) plainMachine (append_map_ordered plainLayout)
    .map itself always [] (.seq false [.int 1])).mpr
  exact ⟨rfl, Or.inr (Or.inr rfl)⟩

/-- `for x <- Vector(1) if true yield x` is a List. -/
theorem vector_becomes_list :
    ¬Agrees (appendMap plainLayout) plainMachine .map itself [always] (.seq true [.int 1]) := by
  intro same
  cases same

end ProtoScala.Runtime.WithFilters
