import ProtoScala.Runtime.Calls
import ProtoScala.Runtime.KeyedFaithful

/-!
# The entries of a Map

What the natives of a Map take for a (key, value) pair, and `map` and `flatMap` of a Map:
the function is called for every entry, and then the results, when all are tuples, become
the entries of a new Map.
-/

namespace ProtoScala.Runtime.MapEntries

open ProtoScala.Library.Effects
open ProtoScala.Library.Effects.Eff
open ProtoScala.Library.HashedMaps
open ProtoScala.Runtime.Calls
open ProtoScala.Runtime.KeyedCollections
open ProtoScala.Runtime.Values

set_option autoImplicit false

variable (L : RuntimeLayout)

/-! ## Pairs -/

/-- `isScalaInstance(e)` with a true `__tuple__`, which every tuple class has. -/
def isTupleInstance (e : Value) : Bool := (instanceOf e).any fun x => L.isTuple x.cls

/-- An object with a `_1` and a `_2` other than null. -/
def hasBoth (e : Value) : Bool :=
  !isNull (getAttribute L e L.first) && !isNull (getAttribute L e L.second)

/-- `e` is a Tuple2 with these components. -/
def Components (e : Value) (entry : Value × Value) : Prop :=
  ∃ cls, instanceOf e = some ⟨cls, [L.first, L.second], [entry.1, entry.2]⟩ ∧
    L.isTuple cls = true

def IsTuple2 (e : Value) : Prop := ∃ entry, Components L e entry

theorem tuple2_is_tuple {e : Value} (pair : IsTuple2 L e) : isTupleInstance L e = true := by
  obtain ⟨entry, cls, shape, tuple⟩ := pair
  rw [isTupleInstance, shape]
  exact tuple

theorem pair_of_components (distinct : L.first ≠ L.second) {e : Value} {entry : Value × Value}
    (components : Components L e entry) (method : String) : pairOf L e method = .ok entry := by
  have tuple := tuple2_is_tuple L ⟨entry, components⟩
  obtain ⟨cls, shape, -⟩ := components
  have apart : (L.second == L.first) = false := by simpa using distinct.symm
  unfold pairOf getAttribute
  rw [isTupleInstance, shape] at tuple
  rw [shape]
  simp only [tuple, Bool.not_true, Bool.and_false, Bool.false_eq_true, if_false]
  simp [List.lookup_cons, apart]

theorem pair_of_iff (e : Value) (method : String) :
    (∃ entry, pairOf L e method = .ok entry) ↔ isTupleInstance L e = true ∨ hasBoth L e = true := by
  unfold pairOf isTupleInstance hasBoth
  simp only
  cases (instanceOf e).any fun x => L.isTuple x.cls with
  | true => simp
  | false =>
      cases isNull (getAttribute L e L.first) <;>
        cases isNull (getAttribute L e L.second) <;> simp

theorem pair_of_error {e : Value} {method : String}
    (refused : ∀ entry, pairOf L e method ≠ .ok entry) :
    pairOf L e method = .error (.notAPair method) := by
  unfold pairOf at refused ⊢
  simp only at refused ⊢
  split_ifs at refused ⊢
  · rfl
  · exact absurd rfl (refused _)

/-! ## Taking elements as pairs -/

/-- The elements are taken when all are Tuple2s, and else the error about a pair is raised. -/
def Accepts {α : Type} (method : String) (elements : List Value) (outcome : Except Error α) :
    Prop :=
  ((∀ e ∈ elements, IsTuple2 L e) → ∃ result, outcome = .ok result) ∧
    ((∃ e ∈ elements, ¬ IsTuple2 L e) → outcome = .error (.notAPair method))

/-- Where all elements are tuples or have a `_1` and a `_2`, all are Tuple2s. -/
def OnlyTuple2 (elements : List Value) : Prop :=
  (∀ e ∈ elements, isTupleInstance L e = true ∨ hasBoth L e = true) →
    ∀ e ∈ elements, IsTuple2 L e

theorem entries_of_ok_iff (method : String) (elements : List Value) :
    (∃ entries, entriesOf L true method elements = .ok entries) ↔
      ∀ e ∈ elements, isTupleInstance L e = true ∨ hasBoth L e = true := by
  induction elements with
  | nil => simp [entriesOf]
  | cons e rest ih =>
      rw [List.forall_mem_cons, ← ih, ← pair_of_iff L e method, entriesOf]
      simp only [if_true]
      cases taken : pairOf L e method with
      | error reason => simp
      | ok entry =>
          cases entriesOf L true method rest with
          | error reason => simp [Except.map]
          | ok entries => simp [Except.map]

theorem entries_of_error (method : String) (elements : List Value) :
    (∃ entries, entriesOf L true method elements = .ok entries) ∨
      entriesOf L true method elements = .error (.notAPair method) := by
  induction elements with
  | nil => exact Or.inl ⟨[], rfl⟩
  | cons e rest ih =>
      rw [entriesOf]
      simp only [if_true]
      cases taken : pairOf L e method with
      | error reason =>
          right
          have refused : pairOf L e method = .error (.notAPair method) := by
            apply pair_of_error
            simp [taken]
          rw [taken] at refused
          rw [Except.error.inj refused]
      | ok entry =>
          rcases ih with ⟨entries, found⟩ | failed
          · left
            rw [found]
            exact ⟨_, rfl⟩
          · right
            rw [failed]
            rfl

/-- What is built from the entries is taken as the entries are. -/
theorem accepts_iff {α : Type} (method : String) (elements : List Value)
    (build : List (Value × Value) → α) :
    Accepts L method elements ((entriesOf L true method elements).map build) ↔
      OnlyTuple2 L elements := by
  have taken := entries_of_ok_iff L method elements
  constructor
  · intro accepts all
    obtain ⟨entries, found⟩ := taken.mpr all
    by_contra other
    have raised := accepts.2 (by simpa using other)
    rw [found] at raised
    cases raised
  · intro only
    constructor
    · intro pairs
      obtain ⟨entries, found⟩ := taken.mpr fun e member =>
        Or.inl (tuple2_is_tuple L (pairs e member))
      rw [found]
      exact ⟨_, rfl⟩
    · rintro ⟨e, member, other⟩
      rcases entries_of_error L method elements with found | failed
      · exact absurd (only (taken.mp found) e member) other
      · rw [failed]
        rfl

/-- What takes every element as it is. -/
theorem accepts_all_iff {α : Type} (method : String) (elements : List Value) (result : α) :
    Accepts L method elements (.ok result) ↔ ∀ e ∈ elements, IsTuple2 L e := by
  constructor
  · intro accepts
    by_contra other
    have raised := accepts.2 (by simpa using other)
    cases raised
  · intro pairs
    constructor
    · exact fun _ => ⟨result, rfl⟩
    · rintro ⟨e, member, other⟩
      exact absurd (pairs e member) other

/-! ## `map` and `flatMap` -/

variable {L} (map : HashedMap (scalaKeySemantics L) Value) {σ : Type}

/-- A List, or the data of a Map. -/
abbrev Rebuilt : Type := List Value ⊕ map.Data

def rebuild (method : String) (results : List Value) : Except Error (Rebuilt map) :=
  if results.all (isTupleInstance L) then
    (entriesOf L true method results).map fun entries =>
      .inr (putAll map map.newMap entries)
  else .ok (.inl results)

/-- What a call of the program throws, or an error about a pair. -/
abbrev Native (σ α : Type) : Type := Eff σ (Thrown ⊕ Error) α

def calling {α : Type} (code : Code σ α) : Native σ α := fun state =>
  match code state with
  | (.ok result, state) => (.ok result, state)
  | (.error thrown, state) => (.error (.inl thrown), state)

def checked {α : Type} : Except Error α → Native σ α
  | .ok result => pure result
  | .error reason => Eff.raise (.inr reason)

/-- `hashedForEach` with `mapVisit`; `f` is the call on a key and its value. -/
def mapVisit (f : Value → Function σ) : List (Value × Value) → Code σ (List Value)
  | [] => pure []
  | (k, v) :: rest => do
      let r ← f k v
      let later ← mapVisit f rest
      return r :: later

def mapMap (f : Value → Function σ) (data : map.Data) : Native σ (Rebuilt map) := do
  let results ← calling (mapVisit f (map.entries data))
  checked (rebuild map "map" results)

/-- `addFlat` of one result after the other. -/
def flattenAll (flat : Value → Code σ (List Value)) : List Value → Code σ (List Value)
  | [] => pure []
  | r :: rest => do
      let inner ← flat r
      let later ← flattenAll flat rest
      return inner ++ later

/-- The results of `f`, flattened; `isEmpty` and `get` are what `addFlat` sends. -/
def flatResults (typeName : Value → String) (isEmpty get : Function σ) (f : Value → Function σ)
    (entries : List (Value × Value)) : Code σ (List Value) := do
  let results ← mapVisit f entries
  flattenAll (addFlat typeName isEmpty get "flatMap") results

def mapFlatMap (typeName : Value → String) (isEmpty get : Function σ) (f : Value → Function σ)
    (data : map.Data) : Native σ (Rebuilt map) := do
  let flat ← calling (flatResults typeName isEmpty get f (map.entries data))
  checked (rebuild map "flatMap" flat)

/-- The entries are put one after the other, and over keys that the hashed map takes, each
key has the value of its last binding. -/
def LastWins (entries : List (Value × Value)) (data : map.Data) : Prop :=
  data = putAll map map.newMap entries ∧
    ∀ keys : Set Value, Agrees (scalaKeySemantics L) keys → Implements map keys →
      (∀ e ∈ entries, e.1 ∈ keys) → ∀ key ∈ keys,
        map.hashedGet data key = lookup (scalaKeySemantics L) entries.reverse key

/-- The Map of the results, the last binding winning, or the List of all the results. -/
def MapOrList (results : List Value) (out : Rebuilt map) : Prop :=
  ((∀ r ∈ results, IsTuple2 L r) → ∃ entries data,
      List.Forall₂ (Components L) results entries ∧ LastWins map entries data ∧ out = .inr data) ∧
    ((∃ r ∈ results, ¬ IsTuple2 L r) → out = .inl results)

/-- Where all results are tuples, all are Tuple2s. -/
def TuplesArePairs (L : RuntimeLayout) (results : List Value) : Prop :=
  (∀ r ∈ results, isTupleInstance L r = true) → ∀ r ∈ results, IsTuple2 L r

theorem entries_of_pairs (distinct : L.first ≠ L.second) (method : String) {results : List Value}
    (pairs : ∀ r ∈ results, IsTuple2 L r) :
    ∃ entries, List.Forall₂ (Components L) results entries ∧
      entriesOf L true method results = .ok entries := by
  induction results with
  | nil => exact ⟨[], List.Forall₂.nil, rfl⟩
  | cons r rest ih =>
      obtain ⟨entry, components⟩ := pairs r List.mem_cons_self
      obtain ⟨entries, all, found⟩ := ih fun x member => pairs x (List.mem_cons_of_mem r member)
      apply Exists.intro (entry :: entries)
      constructor
      · exact List.Forall₂.cons components all
      · rw [entriesOf]
        simp only [if_true]
        rw [pair_of_components L distinct components, found]
        rfl

theorem put_all_last_wins (entries : List (Value × Value)) :
    LastWins map entries (putAll map map.newMap entries) := by
  constructor
  · rfl
  · intro keys agrees implements within key inKeys
    rw [get_put_all agrees implements inKeys (new_holds implements) within,
      get_new implements inKeys, Option.or_none]

theorem rebuild_total (method : String) (results : List Value) :
    ∃ out, rebuild map method results = .ok out := by
  unfold rebuild
  split_ifs with tuples
  · obtain ⟨entries, found⟩ := (entries_of_ok_iff L method results).mpr fun r member =>
      Or.inl (List.all_eq_true.mp tuples r member)
    rw [found]
    exact ⟨_, rfl⟩
  · exact ⟨_, rfl⟩

theorem rebuild_iff (distinct : L.first ≠ L.second) (method : String) {results : List Value}
    {out : Rebuilt map} (rebuilt : rebuild map method results = .ok out) :
    MapOrList map results out ↔ TuplesArePairs L results := by
  unfold rebuild at rebuilt
  by_cases tuples : results.all (isTupleInstance L) = true
  · rw [if_pos tuples] at rebuilt
    have all := List.all_eq_true.mp tuples
    constructor
    · intro meets _
      by_contra other
      have kept := meets.2 (by simpa using other)
      subst kept
      cases found : entriesOf L true method results with
      | error reason => simp [found, Except.map] at rebuilt
      | ok entries => simp [found, Except.map] at rebuilt
    · intro only
      have pairs := only all
      obtain ⟨entries, components, found⟩ := entries_of_pairs distinct method pairs
      rw [found] at rebuilt
      constructor
      · exact fun _ => ⟨entries, _, components, put_all_last_wins map entries,
          (Except.ok.inj rebuilt).symm⟩
      · rintro ⟨r, member, other⟩
        exact absurd (pairs r member) other
  · rw [if_neg tuples] at rebuilt
    have some_other : ¬ ∀ r ∈ results, isTupleInstance L r = true := fun all =>
      tuples (List.all_eq_true.mpr all)
    constructor
    · exact fun _ all => absurd all some_other
    · intro _
      constructor
      · intro pairs
        exact absurd (fun r member => tuple2_is_tuple L (pairs r member)) some_other
      · exact fun _ => (Except.ok.inj rebuilt).symm

/-- The native answers what is rebuilt of the results of the code that calls the program, and
throws what that code throws. -/
def Rebuilds (code : Code σ (List Value)) (native : Native σ (Rebuilt map)) (state : σ) : Prop :=
  match code state with
  | (.ok results, state') => ∃ out, native state = (.ok out, state') ∧ MapOrList map results out
  | (.error thrown, state') => native state = (.error (.inl thrown), state')

theorem rebuilds_iff (distinct : L.first ≠ L.second) (method : String)
    (code : Code σ (List Value)) (state : σ) :
    Rebuilds map code (calling code >>= fun results => checked (rebuild map method results)) state ↔
      ∀ results state', code state = (.ok results, state') → TuplesArePairs L results := by
  unfold Rebuilds
  rw [bind_at, calling]
  cases ran : code state with
  | mk ending state' =>
      cases ending with
      | error thrown => simp [follow]
      | ok results =>
          obtain ⟨out, rebuilt⟩ := rebuild_total map method results
          simp only [follow, rebuilt]
          have met := rebuild_iff map distinct method rebuilt
          constructor
          · rintro ⟨out', same, meets⟩ results' state'' answered
            obtain ⟨rfl, rfl⟩ : results = results' ∧ state' = state'' := by simpa using answered
            obtain rfl : out = out' := by
              have answers := congrArg Prod.fst same
              exact Except.ok.inj answers
            exact met.mp meets
          · intro only
            exact ⟨out, rfl, met.mpr (only results state' rfl)⟩

/-! ## The natives of a Map -/

theorem to_map_sequence {v : Value} (noRange : ∀ r, v ≠ .range r) :
    toMap map (.sequence v) =
      (asKeyedData map (.sequence v) true "toMap").map (Collection.keyed false) := by
  cases v with
  | range r => exact absurd rfl (noRange r)
  | _ => rfl

/-- What the natives of a Map do with the elements they are given, and what `map` and
`flatMap` make of their results. -/
theorem map_entries (distinct : L.first ≠ L.second) :
    (∀ pairs, Accepts L "Map(...)" pairs (eval map (.mapOf pairs)) ↔ OnlyTuple2 L pairs) ∧
      (∀ data x, Accepts L "Map.+" [x] (plus map (.keyed false data) x) ↔ OnlyTuple2 L [x]) ∧
      (∀ data v view, seqViewOf v = some view →
        (Accepts L "++" (elementsOf view) (bulk map .add (.keyed false data) (.sequence v)) ↔
          OnlyTuple2 L (elementsOf view))) ∧
      (∀ data set, Accepts L "++" ((map.entries set).map Prod.fst)
          (bulk map .add (.keyed false data) (.keyed true set)) ↔
        ∀ e ∈ (map.entries set).map Prod.fst, IsTuple2 L e) ∧
      (∀ v view, seqViewOf v = some view → (∀ r, v ≠ .range r) →
        (Accepts L "toMap" (elementsOf view) (toMap map (.sequence v)) ↔
          OnlyTuple2 L (elementsOf view))) ∧
      (∀ set, Accepts L "toMap" ((map.entries set).map Prod.fst) (toMap map (.keyed true set)) ↔
        ∀ e ∈ (map.entries set).map Prod.fst, IsTuple2 L e) ∧
      (∀ (f : Value → Function σ) data state,
        Rebuilds map (mapVisit f (map.entries data)) (mapMap map f data) state ↔
          ∀ results state', mapVisit f (map.entries data) state = (.ok results, state') →
            TuplesArePairs L results) ∧
      ∀ typeName (isEmpty get : Function σ) (f : Value → Function σ) data state,
        Rebuilds map (flatResults typeName isEmpty get f (map.entries data))
            (mapFlatMap map typeName isEmpty get f data) state ↔
          ∀ results state',
            flatResults typeName isEmpty get f (map.entries data) state = (.ok results, state') →
              TuplesArePairs L results := by
  refine ⟨?_, ?_, ?_, ?_, ?_, ?_, ?_, ?_⟩
  · intro pairs
    exact accepts_iff L "Map(...)" pairs _
  · intro data x
    have single := accepts_iff L "Map.+" [x] fun entries =>
      Collection.keyed false (putAll map data entries)
    rw [← single, plus, entriesOf, entriesOf]
    simp only [if_true]
    cases pairOf L x "Map.+" <;> rfl
  · intro data v view sequence
    rw [← accepts_iff L "++" (elementsOf view) fun entries => Collection.keyed false
      (bulkData map .add data (putAll map map.newMap entries)), bulk, asKeyedData, sequence]
    simp only [Bool.not_false, BulkOp.method]
    cases entriesOf L true "++" (elementsOf view) <;> rfl
  · intro data set
    exact accepts_all_iff L "++" _ _
  · intro v view sequence noRange
    rw [← accepts_iff L "toMap" (elementsOf view) fun entries => Collection.keyed false
      (putAll map map.newMap entries)]
    rw [to_map_sequence map noRange, asKeyedData, sequence]
    simp only
    cases entriesOf L true "toMap" (elementsOf view) <;> rfl
  · intro set
    exact accepts_all_iff L "toMap" _ _
  · intro f data state
    exact rebuilds_iff map distinct "map" _ state
  · intro typeName isEmpty get f data state
    exact rebuilds_iff map distinct "flatMap" _ state

/-- `m + (1 -> 2)`. -/
theorem pair_accepted :
    Accepts plainLayout "Map.+" [pair 0 (.int 1) (.int 2)]
      (plus plainMap (.keyed false plainMap.newMap) (pair 0 (.int 1) (.int 2))) := by
  apply ((@map_entries plainLayout plainMap Unit (by decide)).2.1 _ _).mpr
  intro _ e member
  rw [List.mem_singleton.mp member]
  exact ⟨(.int 1, .int 2), 0, rfl, rfl⟩

/-- `m + (1, 2, 3)` binds 1 to 2. -/
theorem triple_accepted :
    ¬Accepts plainLayout "Map.+" [.product 0 0 [1, 2, 3] [.int 1, .int 2, .int 3]]
      (plus plainMap (.keyed false plainMap.newMap)
        (.product 0 0 [1, 2, 3] [.int 1, .int 2, .int 3])) := by
  intro accepts
  have raised := accepts.2 ⟨_, List.mem_singleton_self _, ?_⟩
  · cases raised
  · rintro ⟨entry, cls, shape, -⟩
    simp [instanceOf, plainLayout] at shape

end ProtoScala.Runtime.MapEntries
