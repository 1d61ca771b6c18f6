import ProtoScala.Runtime.KeyedMeaning

/-!
# The natives build the maps and sets they mean

Each operation keeps the relation between the data and its meaning: a lookup of a key finds
what the finite map has under it, no two entries have equal keys, and a Set stores each
element as key and as value.
-/

namespace ProtoScala.Runtime.KeyedCollections

open ProtoScala.Library.HashedMaps
open ProtoScala.Runtime.Values
open ProtoScala.Runtime.ValueFacts
open ProtoScala.Runtime.ValueEquality

set_option autoImplicit false

/-! ## What the data represents -/

section

variable {L : RuntimeLayout} {map : HashedMap (scalaKeySemantics L) Value} {keys : Set Value}

structure HoldsMap (map : HashedMap (scalaKeySemantics L) Value) (keys : Set Value)
    (d : map.Data) (f : Value → Option Value) : Prop where
  holds : Holds map keys d
  lookup : ∀ k ∈ keys, map.hashedGet d k = f k

/-- The element of an entry is its key and its value. -/
structure Paired (T : ClassTable) (keys : Set Value) (entry : Value × Value) : Prop where
  inKeys : entry.2 ∈ keys
  equal : entry.1 = entry.2 ∨ valuesEqual T entry.1 entry.2 = true

structure HoldsSet (map : HashedMap (scalaKeySemantics L) Value) (keys : Set Value)
    (d : map.Data) (s : Value → Bool) : Prop where
  holds : Holds map keys d
  lookup : ∀ k ∈ keys, (map.hashedGet d k).isSome = s k
  paired : ∀ e ∈ map.entries d, Paired L.classes keys e

/-- The collection has the meaning. -/
inductive Represents (map : HashedMap (scalaKeySemantics L) Value) (keys : Set Value) :
    Collection map.Data → Meaning → Prop
  | sequence {v : Value} {view : SeqView} (seen : seqViewOf v = some view) :
      Represents map keys (.sequence v) (.sequence (elementsOf view))
  | map {d : map.Data} {f : Value → Option Value} (holds : HoldsMap map keys d f) :
      Represents map keys (.keyed false d) (.map f)
  | set {d : map.Data} {s : Value → Bool} (holds : HoldsSet map keys d s) :
      Represents map keys (.keyed true d) (.set s)

/-! ## Single operations -/

theorem holds_map_new (implements : Implements map keys) :
    HoldsMap map keys map.newMap fun _ => none :=
  ⟨new_holds implements, fun _ inKeys => get_new implements inKeys⟩

theorem holds_set_new (implements : Implements map keys) :
    HoldsSet map keys map.newMap fun _ => false where
  holds := new_holds implements
  lookup := by
    intro k inKeys
    rw [get_new implements inKeys]
    rfl
  paired := by
    rw [implements.new]
    intro e member
    cases member

variable (uniform : Uniform L.classes keys) (implements : Implements map keys)
include uniform

/-- The element of an entry under an equal key. -/
theorem paired_of_found {e other : Value × Value} (inE : e.1 ∈ keys) (inOther : other.1 ∈ keys)
    (values : e.2 = other.2)
    (found : e.1 = other.1 ∨ (scalaKeySemantics L).finds e.1 other.1 = true)
    (paired : Paired L.classes keys other) : Paired L.classes keys e := by
  have inKeys : e.2 ∈ keys := values ▸ paired.inKeys
  refine ⟨inKeys, ?_⟩
  rw [values]
  rcases found with same | found
  · rw [same]
    exact paired.equal
  · rw [finds_iff_equal uniform inE inOther] at found
    rcases paired.equal with same | equal
    · exact .inr (same ▸ found)
    · exact .inr (equal_trans uniform inE inOther paired.inKeys found equal)

theorem any_finds {entries : List (Value × Value)} (within : ∀ e ∈ entries, e.1 ∈ keys)
    {k : Value} (inK : k ∈ keys) :
    (entries.any fun e => (scalaKeySemantics L).finds e.1 k) =
      entries.any fun e => valuesEqual L.classes e.1 k := by
  rw [Bool.eq_iff_iff, List.any_eq_true, List.any_eq_true]
  constructor
  · rintro ⟨e, member, found⟩
    exact ⟨e, member, (finds_iff_equal uniform (within e member) inK) ▸ found⟩
  · rintro ⟨e, member, equal⟩
    exact ⟨e, member, (finds_iff_equal uniform (within e member) inK).symm ▸ equal⟩

/-- Fewer keys, in a map or in a set. -/
theorem represents_without {isSet : Bool} {d d' : map.Data} {m : Meaning}
    (represents : Represents map keys (.keyed isSet d) m) {removed : Value → Bool}
    (holds : Holds map keys d')
    (lookup : ∀ k ∈ keys, map.hashedGet d' k = if removed k then none else map.hashedGet d k)
    (kept : ∀ e ∈ map.entries d', ∃ other ∈ map.entries d, e.2 = other.2 ∧
      (e.1 = other.1 ∨ (scalaKeySemantics L).finds e.1 other.1 = true)) :
    ∃ m', m.without removed = some m' ∧ Represents map keys (.keyed isSet d') m' := by
  cases represents with
  | map before =>
    refine ⟨_, rfl, .map ⟨holds, ?_⟩⟩
    intro k inK
    rw [lookup k inK, before.lookup k inK]
  | set before =>
    refine ⟨_, rfl, .set ⟨holds, ?_, ?_⟩⟩
    · intro k inK
      rw [lookup k inK, ← before.lookup k inK]
      cases removed k <;> rfl
    · intro e member
      obtain ⟨other, inOther, values, found⟩ := kept e member
      exact paired_of_found uniform (holds.within e member)
        (before.holds.within other inOther) values found (before.paired other inOther)

include implements

theorem holds_map_put {d : map.Data} {f : Value → Option Value} (holds : HoldsMap map keys d f)
    {entry : Value × Value} (inKeys : entry.1 ∈ keys) :
    HoldsMap map keys (map.hashedPut d entry.1 entry.2) (bindEntry L.classes f entry) where
  holds := put_holds (keys_agree uniform) implements holds.holds inKeys entry.2
  lookup := by
    intro k inK
    rw [get_put (keys_agree uniform) implements holds.holds inKeys inK,
      finds_iff_equal uniform inKeys inK, holds.lookup k inK]
    rfl

theorem holds_map_put_all {entries : List (Value × Value)} :
    ∀ {d : map.Data} {f : Value → Option Value}, HoldsMap map keys d f →
      (∀ e ∈ entries, e.1 ∈ keys) →
      HoldsMap map keys (putAll map d entries) (bindEntries L.classes f entries) := by
  induction entries with
  | nil =>
    intro d f holds within
    exact holds
  | cons e rest ih =>
    intro d f holds within
    exact ih (holds_map_put uniform implements holds (within e (.head _)))
      fun other member => within other (.tail _ member)

/-- What is stored under a key, over the entries. -/
theorem stored_any {d : map.Data} (holds : Holds map keys d) {k : Value} (inK : k ∈ keys) :
    (map.hashedGet d k).isSome = (map.entries d).any fun e => valuesEqual L.classes e.1 k := by
  rw [implements.get d holds k inK, lookup_is_some, any_finds uniform holds.within inK]

theorem holds_set_put_all {entries : List (Value × Value)} {d : map.Data} {s : Value → Bool}
    (holds : HoldsSet map keys d s) (within : ∀ e ∈ entries, e.1 ∈ keys)
    (paired : ∀ e ∈ entries, Paired L.classes keys e) :
    HoldsSet map keys (putAll map d entries) fun k =>
      s k || entries.any fun e => valuesEqual L.classes e.1 k where
  holds := put_all_holds (keys_agree uniform) implements holds.holds within
  lookup := by
    intro k inK
    rw [get_put_all (keys_agree uniform) implements inK holds.holds within, Option.isSome_or,
      lookup_is_some, List.any_reverse, holds.lookup k inK, Bool.or_comm,
      any_finds uniform within inK]
  paired := by
    intro e member
    have kept := put_all_holds (keys_agree uniform) implements holds.holds within
    rcases mem_put_all (keys_agree uniform) implements holds.holds within member with old | new
    · exact holds.paired e old
    · obtain ⟨other, inEntries, values, found⟩ := new
      exact paired_of_found uniform (kept.within e member) (within other inEntries) values found
        (paired other inEntries)

theorem holds_set_put {d : map.Data} {s : Value → Bool} (holds : HoldsSet map keys d s)
    {x : Value} (inKeys : x ∈ keys) :
    HoldsSet map keys (map.hashedPut d x x) fun k => s k || valuesEqual L.classes x k := by
  have within : ∀ e ∈ [(x, x)], e.1 ∈ keys :=
    fun e member => List.mem_singleton.mp member ▸ inKeys
  have paired : ∀ e ∈ [(x, x)], Paired L.classes keys e := by
    intro e member
    obtain rfl := List.mem_singleton.mp member
    exact ⟨inKeys, .inl rfl⟩
  have put := holds_set_put_all uniform implements holds within paired
  refine ⟨put.holds, ?_, put.paired⟩
  intro k inK
  have found := put.lookup k inK
  rw [List.any_cons, List.any_nil, Bool.or_false] at found
  exact found

theorem minus_represents {isSet : Bool} {d : map.Data} {m : Meaning}
    (represents : Represents map keys (.keyed isSet d) m) (holds : Holds map keys d) {k : Value}
    (inKeys : k ∈ keys) :
    ∃ m', m.without (valuesEqual L.classes k) = some m' ∧
      Represents map keys (.keyed isSet (map.hashedRemove d k)) m' := by
  refine represents_without uniform represents
    (remove_holds (keys_agree uniform) implements holds inKeys) ?_ ?_
  · intro other inOther
    rw [get_remove (keys_agree uniform) implements holds inKeys inOther,
      finds_iff_equal uniform inKeys inOther]
  · intro e member
    exact ⟨e, mem_remove implements holds inKeys member, rfl, .inl rfl⟩

theorem remove_all_represents {isSet : Bool} {d theirs : map.Data} {m : Meaning}
    (represents : Represents map keys (.keyed isSet d) m) (holds : Holds map keys d)
    (operand : Holds map keys theirs) {has : Value → Bool}
    (found : ∀ k ∈ keys, (map.hashedGet theirs k).isSome = has k) :
    ∃ m', m.without has = some m' ∧
      Represents map keys (.keyed isSet (removeAll map d (map.entries theirs))) m' := by
  refine represents_without uniform represents
    (remove_all_holds (keys_agree uniform) implements holds operand.within) ?_ ?_
  · intro k inK
    rw [get_remove_all (keys_agree uniform) implements inK holds operand.within,
      any_finds uniform operand.within inK, ← stored_any uniform implements operand inK,
      found k inK]
  · intro e member
    exact ⟨e, mem_remove_all (keys_agree uniform) implements holds operand.within member, rfl,
      .inl rfl⟩

omit uniform implements in
/-- Keeping entries puts those that pass the test. -/
theorem keep_if_eq (common : Bool) (mine theirs : map.Data) :
    keepIf map common mine theirs =
      putAll map map.newMap ((map.entries mine).filter fun e =>
        (map.hashedGet theirs e.1).isSome == common) := by
  unfold keepIf putAll
  rw [List.foldl_filter]

theorem keep_represents {isSet : Bool} {d theirs : map.Data} {m : Meaning} (common : Bool)
    (represents : Represents map keys (.keyed isSet d) m) (holds : Holds map keys d)
    (operand : Holds map keys theirs) {removed : Value → Bool}
    (found : ∀ k ∈ keys, removed k = !((map.hashedGet theirs k).isSome == common)) :
    ∃ m', m.without removed = some m' ∧
      Represents map keys (.keyed isSet (keepIf map common d theirs)) m' := by
  have agrees := keys_agree uniform
  have kept := distinct_filter holds fun e => (map.hashedGet theirs e.1).isSome == common
  have new := new_holds implements
  rw [keep_if_eq]
  refine represents_without uniform represents (put_all_holds agrees implements new kept.within)
    ?_ ?_
  · intro k inK
    -- the test does not tell equal keys apart
    let keep : Value → Bool := fun key => (map.hashedGet theirs key).isSome == common
    have respects : ∀ e ∈ map.entries d, ∀ key ∈ keys,
        (scalaKeySemantics L).finds e.1 key = true → keep e.1 = keep key := by
      intro e member key inKey found
      simp only [keep, get_congr agrees implements operand (holds.within e member) inKey found]
    rw [get_put_all agrees implements inK new kept.within, get_new implements inK, Option.or_none,
      lookup_perm agrees kept (List.reverse_perm _) inK,
      lookup_filter agrees holds keep respects inK, implements.get d holds k inK, found k inK]
    change (if keep k = true then _ else _) = if (!keep k) = true then _ else _
    cases keep k <;> rfl
  · intro e member
    rcases mem_put_all agrees implements new kept.within member with old | ⟨other, inOther, this⟩
    · rw [implements.new] at old
      cases old
    · exact ⟨other, (List.mem_filter.mp inOther).1, this⟩

end

/-! ## Entries of a sequence -/

section

variable {L : RuntimeLayout}

theorem pair_of_method {v : Value} {method : String} {entry : Value × Value}
    (found : pairOf L v method = .ok entry) (other : String) : pairOf L v other = .ok entry := by
  simp only [pairOf] at found ⊢
  split at found
  · cases found
  · next plain =>
    rw [if_neg plain]
    exact found

theorem entries_of_elements (method : String) (elements : List Value) :
    entriesOf L false method elements = .ok (elements.map fun e => (e, e)) := by
  induction elements with
  | nil => rfl
  | cons e rest ih =>
    simp only [entriesOf, Bool.false_eq_true, if_false, ih, List.map_cons]
    rfl

theorem entries_of_cons {pairs : Bool} {method : String} {e : Value} {rest : List Value}
    {entries : List (Value × Value)} (found : entriesOf L pairs method (e :: rest) = .ok entries) :
    ∃ entry later, (if pairs then pairOf L e method else .ok (e, e)) = .ok entry ∧
      entriesOf L pairs method rest = .ok later ∧ entries = entry :: later := by
  simp only [entriesOf] at found
  cases first : (if pairs then pairOf L e method else .ok (e, e)) with
  | error reason =>
    rw [first] at found
    cases found
  | ok entry =>
    rw [first] at found
    cases later : entriesOf L pairs method rest with
    | error reason =>
      rw [later] at found
      cases found
    | ok others =>
      rw [later] at found
      cases found
      exact ⟨entry, others, rfl, rfl, rfl⟩

theorem entries_of_method {pairs : Bool} {method : String} {elements : List Value} :
    ∀ {entries : List (Value × Value)}, entriesOf L pairs method elements = .ok entries →
      ∀ other, entriesOf L pairs other elements = .ok entries := by
  induction elements with
  | nil =>
    intro entries found other
    exact found
  | cons e rest ih =>
    intro entries found other
    obtain ⟨entry, later, first, others, rfl⟩ := entries_of_cons found
    have again : (if pairs then pairOf L e other else .ok (e, e)) = .ok entry := by
      cases pairs with
      | false => exact first
      | true => exact pair_of_method first other
    simp only [entriesOf, again, ih others other]
    rfl

theorem entry_keys_eq {pairs : Bool} {method : String} {elements : List Value}
    {entries : List (Value × Value)} (found : entriesOf L pairs method elements = .ok entries) :
    entryKeys L pairs elements = entries.map Prod.fst := by
  unfold entryKeys
  rw [entries_of_method found ""]
  rfl

/-- Bindings over a map win over it. -/
theorem bind_entries_or (T : ClassTable) {entries : List (Value × Value)} (k : Value) :
    ∀ f : Value → Option Value, bindEntries T f entries k =
      (bindEntries T (fun _ => none) entries k).or (f k) := by
  induction entries with
  | nil =>
    intro f
    rfl
  | cons e rest ih =>
    intro f
    have split : bindEntry T f e k = (bindEntry T (fun _ => none) e k).or (f k) := by
      unfold bindEntry
      cases valuesEqual T e.1 k <;> rfl
    change bindEntries T (bindEntry T f e) rest k =
      (bindEntries T (bindEntry T (fun _ => none) e) rest k).or (f k)
    rw [ih (bindEntry T f e), ih (bindEntry T (fun _ => none) e), split, Option.or_assoc]

end

/-! ## The operands of an operation -/

section

variable {L : RuntimeLayout} {map : HashedMap (scalaKeySemantics L) Value} {keys : Set Value}

theorem holds_of_represents {isSet : Bool} {d : map.Data} {m : Meaning}
    (represents : Represents map keys (.keyed isSet d) m) : Holds map keys d := by
  cases represents with
  | map holds => exact holds.holds
  | set holds => exact holds.holds

/-- The keys of the data are those the meaning has. -/
theorem has_of_represents {isSet : Bool} {d : map.Data} {m : Meaning}
    (represents : Represents map keys (.keyed isSet d) m) :
    ∀ k ∈ keys, (map.hashedGet d k).isSome = m.has L.classes k := by
  intro k inK
  cases represents with
  | map holds => exact congrArg Option.isSome (holds.lookup k inK)
  | set holds => exact holds.lookup k inK

variable (uniform : Uniform L.classes keys) (implements : Implements map keys)
include uniform implements

theorem elements_represent {elements : List Value} (inKeys : ∀ x ∈ elements, x ∈ keys) :
    HoldsSet map keys (putAll map map.newMap (elements.map fun e => (e, e)))
      ((Meaning.sequence elements).has L.classes) := by
  have within : ∀ e ∈ elements.map (fun e : Value => (e, e)), e.1 ∈ keys := by
    intro e member
    obtain ⟨x, inElements, rfl⟩ := List.mem_map.mp member
    exact inKeys x inElements
  have paired : ∀ e ∈ elements.map (fun e : Value => (e, e)), Paired L.classes keys e := by
    intro e member
    obtain ⟨x, inElements, rfl⟩ := List.mem_map.mp member
    exact ⟨inKeys x inElements, .inl rfl⟩
  have put := holds_set_put_all uniform implements (holds_set_new implements) within paired
  refine ⟨put.holds, ?_, put.paired⟩
  intro k inK
  rw [put.lookup k inK, Bool.false_or, List.any_map]
  rfl

/-- An operand of elements, seen as a set. -/
theorem keyed_elements {other : Collection map.Data} {m : Meaning}
    (represents : Represents map keys other m) (shape : m.shape ≠ .map)
    (inKeys : ∀ elements, m = .sequence elements → ∀ k ∈ entryKeys L false elements, k ∈ keys)
    {method : String} {theirs : map.Data}
    (result : asKeyedData map other false method = .ok theirs) :
    HoldsSet map keys theirs (m.has L.classes) := by
  cases represents with
  | @sequence v view seen =>
    simp only [asKeyedData, seen, entries_of_elements] at result
    cases result
    refine elements_represent uniform implements ?_
    intro x member
    refine inKeys _ rfl x ?_
    rw [entry_keys_eq (entries_of_elements "" _), List.map_map]
    exact List.mem_map.mpr ⟨x, member, rfl⟩
  | map holds => exact absurd rfl shape
  | set holds =>
    cases result
    exact holds

/-- An operand of entries, seen as a map. -/
theorem keyed_entries {other : Collection map.Data} {m : Meaning}
    (represents : Represents map keys other m) (shape : m.shape ≠ .set)
    (inKeys : ∀ elements, m = .sequence elements → ∀ k ∈ entryKeys L true elements, k ∈ keys)
    {method : String} {theirs : map.Data}
    (result : asKeyedData map other true method = .ok theirs) :
    ∃ g, m.toMap L = some (.map g) ∧ HoldsMap map keys theirs g := by
  cases represents with
  | @sequence v view seen =>
    simp only [asKeyedData, seen] at result
    cases found : entriesOf L true method (elementsOf view) with
    | error reason =>
      rw [found] at result
      cases result
    | ok entries =>
      rw [found] at result
      cases result
      refine ⟨bindEntries L.classes (fun _ => none) entries, ?_, ?_⟩
      · simp only [Meaning.toMap, entries_of_method found "toMap"]
        rfl
      · refine holds_map_put_all uniform implements (holds_map_new implements) ?_
        intro e member
        refine inKeys _ rfl e.1 ?_
        rw [entry_keys_eq found]
        exact List.mem_map.mpr ⟨e, member, rfl⟩
  | @map d g holds =>
    cases result
    exact ⟨g, rfl, holds⟩
  | set holds => exact absurd rfl shape

theorem union_maps {d theirs : map.Data} {f g : Value → Option Value}
    (mine : HoldsMap map keys d f) (operand : HoldsMap map keys theirs g) :
    HoldsMap map keys (putAll map d (map.entries theirs)) fun k => (g k).or (f k) where
  holds := put_all_holds (keys_agree uniform) implements mine.holds operand.holds.within
  lookup := by
    intro k inK
    rw [get_put_all (keys_agree uniform) implements inK mine.holds operand.holds.within,
      lookup_perm (keys_agree uniform) operand.holds (List.reverse_perm _) inK,
      ← implements.get theirs operand.holds k inK, operand.lookup k inK, mine.lookup k inK]

theorem union_sets {d theirs : map.Data} {s has : Value → Bool} (mine : HoldsSet map keys d s)
    (operand : HoldsSet map keys theirs has) :
    HoldsSet map keys (putAll map d (map.entries theirs)) fun k => s k || has k := by
  have put := holds_set_put_all uniform implements mine operand.holds.within operand.paired
  refine ⟨put.holds, ?_, put.paired⟩
  intro k inK
  rw [put.lookup k inK, ← stored_any uniform implements operand.holds inK, operand.lookup k inK]

theorem union_represents {isSet : Bool} {d : map.Data} {other : Collection map.Data}
    {m m' : Meaning} (mine : Represents map keys (.keyed isSet d) m)
    (operand : Represents map keys other m') (fit : accepts .add m.shape m'.shape = true)
    (inKeys : ∀ elements, m' = .sequence elements →
      ∀ k ∈ entryKeys L (!isSet) elements, k ∈ keys)
    {theirs : map.Data} (result : asKeyedData map other (!isSet) "++" = .ok theirs) :
    ∃ m'', m.union L m' = some m'' ∧
      Represents map keys (.keyed isSet (putAll map d (map.entries theirs))) m'' := by
  cases mine with
  | @map d f holds =>
    have shape : m'.shape ≠ .set := by simpa [accepts, Meaning.shape] using fit
    obtain ⟨g, toMap, entries⟩ := keyed_entries uniform implements operand shape inKeys result
    have both := union_maps uniform implements holds entries
    cases m' with
    | sequence elements =>
      simp only [Meaning.toMap] at toMap
      cases found : entriesOf L true "toMap" elements with
      | error reason => simp [found, Except.toOption] at toMap
      | ok bindings =>
        rw [found] at toMap
        cases toMap
        refine ⟨.map (bindEntries L.classes f bindings), ?_, .map ⟨both.holds, ?_⟩⟩
        · simp only [Meaning.union, entries_of_method found "++"]
          rfl
        · intro k inK
          rw [both.lookup k inK, bind_entries_or L.classes k f]
    | map g =>
      cases toMap
      exact ⟨_, rfl, .map both⟩
    | set has => exact absurd rfl shape
  | set holds =>
    have shape : m'.shape ≠ .map := by simpa [accepts, Meaning.shape] using fit
    have elements := keyed_elements uniform implements operand shape inKeys result
    exact ⟨_, rfl, .set (union_sets uniform implements holds elements)⟩

/-- What an operand that is only looked into holds. -/
theorem keyed_keys {isSet : Bool} {op : BulkOp} (looks : op ≠ .add) {d : map.Data}
    {other : Collection map.Data} {m m' : Meaning}
    (mine : Represents map keys (.keyed isSet d) m) (operand : Represents map keys other m')
    (fit : accepts op m.shape m'.shape = true)
    (inKeys : ∀ elements, m' = .sequence elements →
      ∀ k ∈ entryKeys L (!isSet) elements, k ∈ keys)
    {method : String} {theirs : map.Data}
    (result : asKeyedData map other (!isSet) method = .ok theirs) :
    Holds map keys theirs ∧
      ∀ k ∈ keys, (map.hashedGet theirs k).isSome = m'.has L.classes k := by
  cases mine with
  | map holds =>
    have shape : m'.shape ≠ .sequence := by
      cases op <;> simp_all [accepts, Meaning.shape]
    cases operand with
    | sequence seen => exact absurd rfl shape
    | map entries =>
      cases result
      exact ⟨entries.holds, has_of_represents (.map entries)⟩
    | set elements =>
      cases result
      exact ⟨elements.holds, has_of_represents (.set elements)⟩
  | set holds =>
    have shape : m'.shape ≠ .map := by simpa [accepts, Meaning.shape] using fit
    have elements := keyed_elements uniform implements operand shape inKeys result
    exact ⟨elements.holds, elements.lookup⟩

theorem bulk_represents {isSet : Bool} {op : BulkOp} {d : map.Data}
    {other : Collection map.Data} {m m' : Meaning}
    (mine : Represents map keys (.keyed isSet d) m) (operand : Represents map keys other m')
    (fit : accepts op m.shape m'.shape = true)
    (inKeys : ∀ elements, m' = .sequence elements →
      ∀ k ∈ entryKeys L (!isSet) elements, k ∈ keys)
    {theirs : map.Data} (result : asKeyedData map other (!isSet) op.method = .ok theirs) :
    ∃ m'', m.bulk L op m' = some m'' ∧
      Represents map keys (.keyed isSet (bulkData map op d theirs)) m'' := by
  have holds := holds_of_represents mine
  have looked := fun looks : op ≠ .add =>
    keyed_keys uniform implements looks mine operand fit inKeys result
  simp only [Meaning.bulk, fit, if_true]
  cases op with
  | add => exact union_represents uniform implements mine operand fit inKeys result
  | remove =>
    obtain ⟨theirsHold, found⟩ := looked (by decide)
    exact remove_all_represents uniform implements mine holds theirsHold found
  | keepCommon =>
    obtain ⟨theirsHold, found⟩ := looked (by decide)
    refine keep_represents uniform implements true mine holds theirsHold ?_
    intro k inK
    rw [found k inK, beq_true]
  | keepMissing =>
    obtain ⟨theirsHold, found⟩ := looked (by decide)
    refine keep_represents uniform implements false mine holds theirsHold ?_
    intro k inK
    rw [found k inK, beq_false, Bool.not_not]

end

/-! ## Building collections -/

section

theorem ok_of_bind {α β : Type} {x : Except Error α} {f : α → Except Error β} {r : β}
    (result : x.bind f = .ok r) : ∃ a, x = .ok a ∧ f a = .ok r := by
  cases x with
  | error reason => cases result
  | ok a => exact ⟨a, rfl, result⟩

theorem ok_of_map {α β : Type} {x : Except Error α} {f : α → β} {r : β}
    (result : x.map f = .ok r) : ∃ a, x = .ok a ∧ f a = r := by
  cases x with
  | error reason => cases result
  | ok a => exact ⟨a, rfl, Except.ok.inj result⟩

variable {L : RuntimeLayout} {map : HashedMap (scalaKeySemantics L) Value} {keys : Set Value}

/-- The collection an expression evaluates to has the expression's meaning. -/
structure Built (map : HashedMap (scalaKeySemantics L) Value) (keys : Set Value) (pairs : Bool)
    (e : Expr) (c : Collection map.Data) (m : Meaning) : Prop where
  means : meaning L e = some m
  shape : m.shape = shapeOf e
  represents : Represents map keys c m
  inKeys : ∀ elements, m = .sequence elements → ∀ k ∈ entryKeys L pairs elements, k ∈ keys

def keyedShape (isSet : Bool) : Shape := if isSet then .set else .map

theorem shape_of_represents {isSet : Bool} {d : map.Data} {m : Meaning}
    (represents : Represents map keys (.keyed isSet d) m) : m.shape = keyedShape isSet := by
  cases represents <;> rfl

theorem built_of_keyed {pairs isSet : Bool} {e : Expr} {d : map.Data} {m : Meaning}
    (means : meaning L e = some m) (shape : shapeOf e = keyedShape isSet)
    (represents : Represents map keys (.keyed isSet d) m) :
    Built map keys pairs e (.keyed isSet d) m where
  means := means
  shape := (shape_of_represents represents).trans shape.symm
  represents := represents
  inKeys := by
    rintro elements rfl
    cases represents

/-- A receiver that is a Map or a Set. -/
theorem built_keyed {pairs isSet : Bool} {e : Expr} {d : map.Data} {m : Meaning}
    (built : Built map keys pairs e (.keyed isSet d) m) :
    meaning L e = some m ∧ shapeOf e = keyedShape isSet ∧
      Represents map keys (.keyed isSet d) m :=
  ⟨built.means, built.shape.symm.trans (shape_of_represents built.represents), built.represents⟩

variable (uniform : Uniform L.classes keys) (implements : Implements map keys)
include uniform implements

theorem plus_built {pairs : Bool} {e : Expr} {c c' : Collection map.Data} {m : Meaning} {x : Value}
    (built : Built map keys pairs e c m)
    (inKeys : ∀ k ∈ entryKeys L (shapeOf e != .set) [x], k ∈ keys)
    (result : plus map c x = .ok c') : ∃ m', Built map keys pairs (.plus e x) c' m' := by
  cases c with
  | sequence v => cases result
  | keyed isSet d =>
    obtain ⟨means, shape, represents⟩ := built_keyed built
    cases represents with
    | map holds =>
      obtain ⟨entry, found, rfl⟩ := ok_of_map result
      have inEntry : entry.1 ∈ keys := by
        refine inKeys entry.1 ?_
        have only : entriesOf L true "Map.+" [x] = .ok [entry] := by
          simp only [entriesOf, if_true, found]
          rfl
        rw [shape, show (keyedShape false != .set) = true from rfl, entry_keys_eq only]
        exact .head _
      refine ⟨_, built_of_keyed ?_ shape (.map (holds_map_put uniform implements holds inEntry))⟩
      simp only [meaning, means, Option.bind_some, Meaning.plus, found]
      rfl
    | @set d s holds =>
      cases result
      have inX : x ∈ keys := by
        refine inKeys x ?_
        rw [shape, show (keyedShape true != .set) = false from rfl,
          entry_keys_eq (entries_of_elements "" [x])]
        exact .head _
      refine ⟨_, built_of_keyed ?_ shape (.set (holds_set_put uniform implements holds inX))⟩
      simp only [meaning, means, Option.bind_some, Meaning.plus]

theorem minus_built {pairs : Bool} {e : Expr} {c c' : Collection map.Data} {m : Meaning}
    {k : Value} (built : Built map keys pairs e c m) (inKeys : k ∈ keys)
    (result : minus map c k = .ok c') : ∃ m', Built map keys pairs (.minus e k) c' m' := by
  cases c with
  | sequence v => cases result
  | keyed isSet d =>
    cases result
    obtain ⟨means, shape, represents⟩ := built_keyed built
    obtain ⟨m', without, after⟩ := minus_represents uniform implements represents
      (holds_of_represents represents) inKeys
    refine ⟨m', built_of_keyed ?_ shape after⟩
    simp only [meaning, means, Option.bind_some, without]

theorem updated_built {pairs : Bool} {e : Expr} {c c' : Collection map.Data} {m : Meaning}
    {k v : Value} (built : Built map keys pairs e c m) (fit : shapeOf e = .map)
    (inKeys : k ∈ keys) (result : updated map c k v = .ok c') :
    ∃ m', Built map keys pairs (.updated e k v) c' m' := by
  cases c with
  | sequence _ => cases result
  | keyed isSet d =>
    cases result
    obtain ⟨means, shape, represents⟩ := built_keyed built
    cases represents with
    | map holds =>
      have put := holds_map_put uniform implements holds (show (k, v).1 ∈ keys from inKeys)
      refine ⟨_, built_of_keyed ?_ shape (.map put)⟩
      simp only [meaning, means, Option.bind_some, Meaning.updated]
    | set holds =>
      rw [shape] at fit
      cases fit

theorem bulk_built {pairs : Bool} {op : BulkOp} {e other : Expr} {c c' c'' : Collection map.Data}
    {m m' : Meaning} (built : Built map keys pairs e c m)
    (operand : Built map keys (shapeOf e != .set) other c' m')
    (fit : accepts op (shapeOf e) (shapeOf other) = true)
    (result : bulk map op c c' = .ok c'') :
    ∃ m'', Built map keys pairs (.bulk op e other) c'' m'' := by
  cases c with
  | sequence _ => cases result
  | keyed isSet d =>
    obtain ⟨means, shape, represents⟩ := built_keyed built
    obtain ⟨theirs, read, rfl⟩ := ok_of_map result
    rw [← built.shape, ← operand.shape] at fit
    have reading : (shapeOf e != .set) = !isSet := by
      rw [shape]
      cases isSet <;> rfl
    have inKeys := operand.inKeys
    rw [reading] at inKeys
    obtain ⟨m'', bulked, after⟩ := bulk_represents uniform implements represents
      operand.represents fit inKeys read
    refine ⟨m'', built_of_keyed ?_ shape after⟩
    simp only [meaning, means, operand.means, Option.bind_some, bulked]

theorem to_map_built {pairs : Bool} {e : Expr} {c c' : Collection map.Data} {m : Meaning}
    (built : Built map keys true e c m) (fit : shapeOf e ≠ .set) (result : toMap map c = .ok c') :
    ∃ m', Built map keys pairs (.toMap e) c' m' := by
  have shape : m.shape ≠ .set := built.shape ▸ fit
  obtain ⟨data, read, rfl⟩ : ∃ data, asKeyedData map c true "toMap" = .ok data ∧
      c' = .keyed false data := by
    unfold toMap at result
    split at result
    · cases result
      exact ⟨_, rfl, rfl⟩
    · cases result
    · obtain ⟨data, read, rfl⟩ := ok_of_map result
      exact ⟨data, read, rfl⟩
  obtain ⟨g, toMap, holds⟩ := keyed_entries uniform implements built.represents shape
    built.inKeys read
  refine ⟨_, built_of_keyed ?_ rfl (.map holds)⟩
  simp only [meaning, built.means, Option.bind_some, toMap]

theorem to_set_built {pairs : Bool} {e : Expr} {c c' : Collection map.Data} {m : Meaning}
    (built : Built map keys false e c m) (fit : shapeOf e ≠ .map) (result : toSet map c = .ok c') :
    ∃ m', Built map keys pairs (.toSet e) c' m' := by
  have shape : m.shape ≠ .map := built.shape ▸ fit
  obtain ⟨data, read, rfl⟩ : ∃ data, asKeyedData map c false "toSet" = .ok data ∧
      c' = .keyed true data := by
    unfold toSet at result
    split at result
    · cases result
      exact ⟨_, rfl, rfl⟩
    · obtain ⟨data, read, rfl⟩ := ok_of_map result
      exact ⟨data, read, rfl⟩
  have holds := keyed_elements uniform implements built.represents shape built.inKeys read
  refine ⟨_, built_of_keyed ?_ rfl (.set holds)⟩
  simp only [meaning, built.means, Option.bind_some]
  cases m with
  | sequence elements => rfl
  | map f => exact absurd rfl shape
  | set s => rfl

theorem key_set_built {pairs : Bool} {e : Expr} {c c' : Collection map.Data} {m : Meaning}
    (built : Built map keys pairs e c m) (result : keySet map c = .ok c') :
    ∃ m', Built map keys pairs (.keySet e) c' m' := by
  cases c with
  | sequence _ => cases result
  | keyed isSet d =>
    cases result
    obtain ⟨means, -, represents⟩ := built_keyed built
    have holds := holds_of_represents represents
    have inKeys : ∀ x ∈ (map.entries d).map Prod.fst, x ∈ keys := by
      intro x member
      obtain ⟨e, inEntries, rfl⟩ := List.mem_map.mp member
      exact holds.within e inEntries
    have put := elements_represent uniform implements inKeys
    rw [List.map_map] at put
    refine ⟨.set (m.has L.classes), built_of_keyed ?_ rfl (.set ⟨put.holds, ?_, put.paired⟩)⟩
    · simp only [meaning, means, Option.bind_some]
      cases represents <;> rfl
    · intro k inK
      refine (put.lookup k inK).trans ?_
      rw [← has_of_represents represents k inK, stored_any uniform implements holds inK]
      simp only [Meaning.has, List.any_map]
      rfl

/-- Every collection that is built has the meaning of its expression. -/
theorem eval_built (e : Expr) : ∀ {pairs : Bool} {c : Collection map.Data}, fits e = true →
    (∀ k ∈ keysOf L pairs e, k ∈ keys) → eval map e = .ok c →
    ∃ m, Built map keys pairs e c m := by
  induction e with
  | sequence v =>
    intro pairs c fit inKeys result
    cases result
    obtain ⟨view, seen⟩ := Option.isSome_iff_exists.mp fit
    refine ⟨.sequence (elementsOf view), ?_, rfl, .sequence seen, ?_⟩
    · simp only [meaning, seen, Option.map_some]
    · rintro elements ⟨⟩
      simp only [keysOf, seen] at inKeys
      exact inKeys
  | mapOf elements =>
    intro pairs c fit inKeys result
    obtain ⟨entries, found, rfl⟩ := ok_of_map result
    have within : ∀ e ∈ entries, e.1 ∈ keys := by
      intro e member
      refine inKeys e.1 ?_
      rw [keysOf, entry_keys_eq found]
      exact List.mem_map.mpr ⟨e, member, rfl⟩
    refine ⟨_, built_of_keyed ?_ rfl
      (.map (holds_map_put_all uniform implements (holds_map_new implements) within))⟩
    simp only [meaning, found]
    rfl
  | setOf elements =>
    intro pairs c fit inKeys result
    cases result
    exact ⟨_, built_of_keyed rfl rfl (.set (elements_represent uniform implements inKeys))⟩
  | plus e x ih =>
    intro pairs c fit inKeys result
    obtain ⟨c', before, result⟩ := ok_of_bind result
    obtain ⟨m, built⟩ := ih fit (fun k member => inKeys k (List.mem_append_right _ member)) before
    exact plus_built uniform implements built
      (fun k member => inKeys k (List.mem_append_left _ member)) result
  | minus e k ih =>
    intro pairs c fit inKeys result
    obtain ⟨c', before, result⟩ := ok_of_bind result
    obtain ⟨m, built⟩ := ih fit (fun k member => inKeys k (.tail _ member)) before
    exact minus_built uniform implements built (inKeys k (.head _)) result
  | updated e k v ih =>
    intro pairs c fit inKeys result
    simp only [fits, Bool.and_eq_true, beq_iff_eq] at fit
    obtain ⟨c', before, result⟩ := ok_of_bind result
    obtain ⟨m, built⟩ := ih fit.1 (fun k member => inKeys k (.tail _ member)) before
    exact updated_built uniform implements built fit.2 (inKeys k (.head _)) result
  | bulk op e other ih ih' =>
    intro pairs c fit inKeys result
    simp only [fits, Bool.and_eq_true] at fit
    obtain ⟨c', before, rest⟩ := ok_of_bind result
    obtain ⟨c'', operand, result⟩ := ok_of_bind rest
    obtain ⟨m, built⟩ := ih fit.1.1
      (fun k member => inKeys k (List.mem_append_left _ member)) before
    obtain ⟨m', built'⟩ := ih' fit.1.2
      (fun k member => inKeys k (List.mem_append_right _ member)) operand
    exact bulk_built uniform implements built built' fit.2 result
  | toMap e ih =>
    intro pairs c fit inKeys result
    simp only [fits, Bool.and_eq_true, bne_iff_ne] at fit
    obtain ⟨c', before, result⟩ := ok_of_bind result
    obtain ⟨m, built⟩ := ih fit.1 inKeys before
    exact to_map_built uniform implements built fit.2 result
  | toSet e ih =>
    intro pairs c fit inKeys result
    simp only [fits, Bool.and_eq_true, bne_iff_ne] at fit
    obtain ⟨c', before, result⟩ := ok_of_bind result
    obtain ⟨m, built⟩ := ih fit.1 inKeys before
    exact to_set_built uniform implements built fit.2 result
  | keySet e ih =>
    intro pairs c fit inKeys result
    obtain ⟨c', before, result⟩ := ok_of_bind result
    obtain ⟨m, built⟩ := ih fit inKeys before
    exact key_set_built uniform implements built result

omit implements in
theorem keys_differ {d : map.Data} (holds : Holds map keys d) :
    (map.entries d).Pairwise fun x y => valuesEqual L.classes x.1 y.1 = false := by
  refine holds.apart.imp_of_mem ?_
  intro x y inX inY apart
  rw [← finds_iff_equal uniform (holds.within x inX) (holds.within y inY)]
  exact apart

theorem denotes_of_represents {c : Collection map.Data} {m : Meaning}
    (represents : Represents map keys c m) : Denotes map keys c m := by
  cases represents with
  | sequence seen => exact congrArg (Option.map elementsOf) seen
  | map holds =>
    refine ⟨keys_differ uniform holds.holds, holds.holds.within, ?_⟩
    intro k inK
    refine ⟨holds.lookup k inK, ?_⟩
    intro v
    rw [← holds.lookup k inK, implements.get _ holds.holds k inK,
      lookup_eq_some (keys_agree uniform) holds.holds inK]
    constructor
    · rintro ⟨e, member, found, eq⟩
      exact ⟨e, member, finds_iff_equal uniform (holds.holds.within e member) inK ▸ found, eq⟩
    · rintro ⟨e, member, equal, eq⟩
      exact ⟨e, member, (finds_iff_equal uniform (holds.holds.within e member) inK).symm ▸ equal,
        eq⟩
  | set holds =>
    refine ⟨keys_differ uniform holds.holds, ?_, ?_⟩
    · intro e member
      exact ⟨holds.holds.within e member, (holds.paired e member).equal⟩
    · intro k inK
      refine ⟨holds.lookup k inK, ?_⟩
      rw [← holds.lookup k inK, stored_any uniform implements holds.holds inK, List.any_eq_true]

/-- `subsetOf` is inclusion; an element that does not equal itself is in no set. -/
theorem subset_of_iff {c c' : Collection map.Data} {m m' : Meaning} {d : map.Data}
    (mine : Represents map keys c m) (receiver : c = .keyed true d)
    (operand : Represents map keys c' m') (shape : m'.shape ≠ .map)
    (inKeys : ∀ elements, m' = .sequence elements → ∀ k ∈ entryKeys L false elements, k ∈ keys)
    {b : Bool} (result : subsetOf map c c' = .ok b) :
    b = true ↔ (∀ k ∈ keys, m.has L.classes k = true → m'.has L.classes k = true) ∧
      ∀ e ∈ map.entries d, m.has L.classes e.1 = true := by
  subst receiver
  obtain ⟨theirs, read, rfl⟩ := ok_of_map result
  have holds := holds_of_represents mine
  have has := has_of_represents mine
  have other := keyed_elements uniform implements operand shape inKeys read
  rw [List.all_eq_true]
  constructor
  · intro all
    refine ⟨?_, ?_⟩
    · intro k inK member
      rw [← has k inK, stored_any uniform implements holds inK] at member
      obtain ⟨e, inEntries, equal⟩ := List.any_eq_true.mp member
      have inE := holds.within e inEntries
      rw [← other.lookup k inK, ← get_congr (keys_agree uniform) implements other.holds inE inK
        (finds_iff_equal uniform inE inK ▸ equal)]
      exact all e inEntries
    · intro e inEntries
      have inE := holds.within e inEntries
      have found := all e inEntries
      rw [stored_any uniform implements other.holds inE] at found
      obtain ⟨y, inTheirs, equal⟩ := List.any_eq_true.mp found
      have inY := other.holds.within y inTheirs
      rw [← has e.1 inE, stored_any uniform implements holds inE]
      refine List.any_eq_true.mpr ⟨e, inEntries, ?_⟩
      exact equal_trans uniform inE inY inE (equal_symm uniform inY inE equal) equal
  · rintro ⟨included, own⟩ e inEntries
    have inE := holds.within e inEntries
    rw [other.lookup e.1 inE]
    exact included e.1 inE (own e inEntries)

end

/-- A program without classes of its own: class 0 is the class of pairs. -/
def plainLayout : RuntimeLayout where
  classes := noClasses
  classAttribute := fun _ _ => none
  first := 1
  second := 2
  isTuple := fun cls => cls == 0

def pair (ref : Nat) (a b : Value) : Value := .product ref 0 [1, 2] [a, b]

theorem alike_of_numbers {T : ClassTable} {a b : Value} (number : a.isNumeric = true)
    (apart : largeWithDouble a b = false) (same : Same T a b) : Alike T a b := by
  obtain ⟨depth, within⟩ := same
  have kind := kind_of_numeric.mp number
  cases depth with
  | zero => exact within.elim
  | succ depth =>
    rcases within with numbers | ⟨notNumber, -⟩ | seqs | instances | keyed
    · exact ⟨1, .inl ⟨numbers.1, numbers.2.1, numbers.2.2.1, fun _ => apart⟩⟩
    · rw [number] at notNumber
      cases notNumber
    · exact absurd ((kind_of_seqs seqs).1.symm.trans kind) (by decide)
    · exact absurd ((kind_of_instances instances).1.symm.trans kind) (by decide)
    · exact absurd ((kind_of_keyeds keyed).1.symm.trans kind) (by decide)

instance : DecidableEq Value := fun a b => decidable_of_iff _ (same_word_iff a b)

deriving instance DecidableEq for Collection

/-- Entries in a list. -/
def plainMap : HashedMap (scalaKeySemantics plainLayout) Value := listMap _ _

instance : DecidableEq plainMap.Data := inferInstanceAs (DecidableEq (List (Value × Value)))

/-- `(Map(1 -> 10) ++ List((1.0, 20), (65, 30)) - 'A').keySet`. -/
def sampleKeys : Expr :=
  .keySet (.minus (.bulk .add (.mapOf [pair 0 (.int 1) (.int 10)])
    (.sequence (.list 3 [pair 1 (.double 0x3FF0000000000000#64) (.int 20),
      pair 2 (.int 65) (.int 30)]))) (.char 65#32))

end ProtoScala.Runtime.KeyedCollections
