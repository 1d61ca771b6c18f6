import ProtoScala.Runtime.KeyedCollections

/-!
# Maps and sets as finite maps and finite sets

The meaning of an expression that builds a collection is a finite map or a finite set, with
keys that `valuesEqual` does not tell apart taken for one. The collections that the natives
build have that meaning where no operation reads a Map for the elements of a Set, or a Set
or a sequence of keys for the entries of a Map, and where the hash agrees with the equality
of the keys.
-/

namespace ProtoScala.Runtime.KeyedCollections

open ProtoScala.Library.HashedMaps
open ProtoScala.Runtime.Values
open ProtoScala.Runtime.ValueFacts
open ProtoScala.Runtime.ValueEquality

set_option autoImplicit false

/-! ## The keys -/

/-- Values that are the same are alike, and no Map or Set within one holds a key twice. -/
structure Uniform (T : ClassTable) (keys : Set Value) : Prop where
  apart : ∀ k ∈ keys, KeysApart T k
  alike : ∀ a ∈ keys, ∀ b ∈ keys, Same T a b → Alike T a b

section

variable {T : ClassTable} {keys : Set Value}

theorem same_of_equal (uniform : Uniform T keys) {a b : Value} (inA : a ∈ keys) (inB : b ∈ keys)
    (equal : valuesEqual T a b = true) : Same T a b :=
  ⟨_, values_equal_sound (uniform.apart a inA) (uniform.apart b inB) equal⟩

theorem equal_of_same (uniform : Uniform T keys) {a b : Value} (inA : a ∈ keys) (inB : b ∈ keys)
    (same : Same T a b) : valuesEqual T a b = true := by
  obtain ⟨depth, within⟩ := uniform.alike a inA b inB same
  refine values_equal_complete (uniform.apart a inA) (uniform.apart b inB)
    (same_within_height within) ?_
  omega

theorem equal_symm (uniform : Uniform T keys) {a b : Value} (inA : a ∈ keys) (inB : b ∈ keys)
    (equal : valuesEqual T a b = true) : valuesEqual T b a = true :=
  equal_of_same uniform inB inA (same_symm (same_of_equal uniform inA inB equal))

theorem equal_trans (uniform : Uniform T keys) {a b c : Value} (inA : a ∈ keys) (inB : b ∈ keys)
    (inC : c ∈ keys) (first : valuesEqual T a b = true) (second : valuesEqual T b c = true) :
    valuesEqual T a c = true :=
  equal_of_same uniform inA inC
    (same_trans (same_of_equal uniform inA inB first) (same_of_equal uniform inB inC second))

theorem hash_of_equal (uniform : Uniform T keys) {a b : Value} (inA : a ∈ keys) (inB : b ∈ keys)
    (equal : valuesEqual T a b = true) : scalaHash T a = scalaHash T b := by
  obtain ⟨depth, within⟩ := uniform.alike a inA b inB (same_of_equal uniform inA inB equal)
  exact hash_of_alike within

end

section

variable {L : RuntimeLayout} {keys : Set Value}

theorem keys_agree (uniform : Uniform L.classes keys) : Agrees (scalaKeySemantics L) keys where
  identical_symm := by
    intro a _ b _ same
    exact (same_word_iff b a).mpr ((same_word_iff a b).mp same).symm
  identical_trans := by
    intro a _ b _ c _ first second
    exact (same_word_iff a c).mpr
      (((same_word_iff a b).mp first).trans ((same_word_iff b c).mp second))
  equals_symm := fun _ inA _ inB equal => equal_symm uniform inA inB equal
  equals_trans := fun _ inA _ inB _ inC first second =>
    equal_trans uniform inA inB inC first second
  hashed := fun _ inA _ inB equal =>
    congrArg BitVec.toNat (hash_of_equal uniform inA inB equal)

/-- A stored key answers to the keys that equal it: the test of identity keys is no other
test. -/
theorem finds_iff_equal (uniform : Uniform L.classes keys) {a b : Value} (inA : a ∈ keys)
    (inB : b ∈ keys) :
    (scalaKeySemantics L).finds a b = valuesEqual L.classes a b := by
  rw [Bool.eq_iff_iff, finds_iff]
  constructor
  · rintro ⟨kinds, test⟩
    split at test
    · next identity =>
      obtain rfl := (same_word_iff a b).mp test
      exact equal_of_same uniform inA inA
        ⟨1, .inr (.inl ⟨identity_key_not_numeric identity, rfl⟩)⟩
    · exact test.2
  · intro equal
    have same := same_of_equal uniform inA inB equal
    split
    · next identity =>
      obtain ⟨depth, within⟩ := same_symm same
      obtain rfl := identity_key_same identity within
      exact ⟨rfl, (same_word_iff b b).mpr rfl⟩
    · next identity =>
      refine ⟨?_, congrArg BitVec.toNat (hash_of_equal uniform inA inB equal), equal⟩
      rw [Bool.not_eq_true] at identity
      rw [identity]
      by_contra identityA
      obtain ⟨depth, within⟩ := same
      rw [Bool.not_eq_false] at identityA
      obtain rfl := identity_key_same identityA within
      rw [identityA] at identity
      cases identity

end

/-! ## The meaning of an expression -/

inductive Shape where
  | sequence
  | map
  | set
  deriving DecidableEq

/-- The operand is read for what the receiver takes: a Set takes elements, a Map takes
entries to add and keys to look for. -/
def accepts : BulkOp → Shape → Shape → Bool
  | _, .set, operand => operand != .map
  | .add, .map, operand => operand != .set
  | _, .map, operand => operand != .sequence
  | _, .sequence, _ => true

/-- What a collection stands for. -/
inductive Meaning where
  | sequence (elements : List Value)
  | map (f : Value → Option Value)
  | set (s : Value → Bool)

section

variable (T : ClassTable)

/-- The finite map with one more binding. -/
def bindEntry (f : Value → Option Value) (entry : Value × Value) : Value → Option Value :=
  fun k => if valuesEqual T entry.1 k then some entry.2 else f k

/-- The bindings one after the other: the last one wins. -/
def bindEntries (f : Value → Option Value) (entries : List (Value × Value)) :
    Value → Option Value :=
  entries.foldl (bindEntry T) f

/-- The elements of a sequence or of a set, the keys of a map. -/
def Meaning.has : Meaning → Value → Bool
  | .sequence elements, k => elements.any fun x => valuesEqual T x k
  | .map f, k => (f k).isSome
  | .set s, k => s k

end

def Meaning.shape : Meaning → Shape
  | .sequence _ => .sequence
  | .map _ => .map
  | .set _ => .set

/-- The map or the set without some keys. -/
def Meaning.without (removed : Value → Bool) : Meaning → Option Meaning
  | .sequence _ => none
  | .map f => some (.map fun k => if removed k then none else f k)
  | .set s => some (.set fun k => !removed k && s k)

section

variable (L : RuntimeLayout)

def Meaning.plus (x : Value) : Meaning → Option Meaning
  | .sequence _ => none
  | .map f => (pairOf L x "Map.+").toOption.map fun entry => .map (bindEntry L.classes f entry)
  | .set s => some (.set fun k => s k || valuesEqual L.classes x k)

def Meaning.updated (k v : Value) : Meaning → Option Meaning
  | .map f => some (.map (bindEntry L.classes f (k, v)))
  | _ => none

/-- The union of two sets, or of two maps with the bindings of the second winning. -/
def Meaning.union : Meaning → Meaning → Option Meaning
  | .set s, other => some (.set fun k => s k || other.has L.classes k)
  | .map f, .map g => some (.map fun k => (g k).or (f k))
  | .map f, .sequence elements =>
      (entriesOf L true "++" elements).toOption.map fun entries =>
        .map (bindEntries L.classes f entries)
  | _, _ => none

/-- A Map is no collection of elements here, and neither is a Set one of entries. -/
def Meaning.bulk (op : BulkOp) (m other : Meaning) : Option Meaning :=
  if accepts op m.shape other.shape then
    match op with
    | .add => m.union L other
    | .remove | .keepMissing => m.without (other.has L.classes)
    | .keepCommon => m.without fun k => !other.has L.classes k
  else none

def Meaning.toMap : Meaning → Option Meaning
  | .map f => some (.map f)
  | .sequence elements =>
      (entriesOf L true "toMap" elements).toOption.map fun entries =>
        .map (bindEntries L.classes (fun _ => none) entries)
  | .set _ => none

def Meaning.toSet : Meaning → Option Meaning
  | .map _ => none
  | m => some (.set (m.has L.classes))

def Meaning.keySet : Meaning → Option Meaning
  | .sequence _ => none
  | m => some (.set (m.has L.classes))

/-- The finite map or set that an expression builds. -/
def meaning : Expr → Option Meaning
  | .sequence v => (seqViewOf v).map fun view => .sequence (elementsOf view)
  | .mapOf pairs =>
      (entriesOf L true "Map(...)" pairs).toOption.map fun entries =>
        .map (bindEntries L.classes (fun _ => none) entries)
  | .setOf elements => some (.set ((Meaning.sequence elements).has L.classes))
  | .plus e x => (meaning e).bind (Meaning.plus L x)
  | .minus e k => (meaning e).bind (Meaning.without (valuesEqual L.classes k))
  | .updated e k v => (meaning e).bind (Meaning.updated L k v)
  | .bulk op e other => (meaning e).bind fun m => (meaning other).bind (m.bulk L op)
  | .toMap e => (meaning e).bind (Meaning.toMap L)
  | .toSet e => (meaning e).bind (Meaning.toSet L)
  | .keySet e => (meaning e).bind (Meaning.keySet L)

attribute [local simp] meaning

end

/-! ## The condition -/

def shapeOf : Expr → Shape
  | .sequence _ => .sequence
  | .mapOf _ => .map
  | .setOf _ => .set
  | .plus e _ | .minus e _ | .updated e _ _ | .bulk _ e _ => shapeOf e
  | .toMap _ => .map
  | .toSet _ | .keySet _ => .set

def fits : Expr → Bool
  | .sequence v => (seqViewOf v).isSome
  | .mapOf _ | .setOf _ => true
  | .plus e _ | .minus e _ | .keySet e => fits e
  | .updated e _ _ => fits e && shapeOf e == .map
  | .bulk op e other => fits e && fits other && accepts op (shapeOf e) (shapeOf other)
  | .toMap e => fits e && shapeOf e != .set
  | .toSet e => fits e && shapeOf e != .map

section

variable (L : RuntimeLayout)

/-- The keys that the elements of a sequence stand for. -/
def entryKeys (pairs : Bool) (elements : List Value) : List Value :=
  ((entriesOf L pairs "" elements).toOption.getD []).map Prod.fst

/-- The keys that are put or looked for; `pairs` is how a sequence is read. -/
def keysOf (pairs : Bool) : Expr → List Value
  | .sequence v =>
      match seqViewOf v with
      | none => []
      | some view => entryKeys L pairs (elementsOf view)
  | .mapOf elements => entryKeys L true elements
  | .setOf elements => elements
  | .plus e x => entryKeys L (shapeOf e != .set) [x] ++ keysOf pairs e
  | .minus e k | .updated e k _ => k :: keysOf pairs e
  | .bulk _ e other => keysOf pairs e ++ keysOf (shapeOf e != .set) other
  | .toMap e => keysOf true e
  | .toSet e => keysOf false e
  | .keySet e => keysOf pairs e

end

/-! ## What a collection denotes -/

/-- The entries have keys that differ, a lookup finds the value of the entry with an equal
key, and these are the bindings of the finite map. An entry of a Set has its element as
key and as value. -/
def Denotes {L : RuntimeLayout} (map : HashedMap (scalaKeySemantics L) Value)
    (keys : Set Value) : Collection map.Data → Meaning → Prop
  | .sequence v, .sequence elements => (seqViewOf v).map elementsOf = some elements
  | .keyed false d, .map f =>
      ((map.entries d).Pairwise fun x y => valuesEqual L.classes x.1 y.1 = false) ∧
      (∀ e ∈ map.entries d, e.1 ∈ keys) ∧
      ∀ k ∈ keys, map.hashedGet d k = f k ∧
        ∀ v, f k = some v ↔ ∃ e ∈ map.entries d, valuesEqual L.classes e.1 k = true ∧ e.2 = v
  | .keyed true d, .set s =>
      ((map.entries d).Pairwise fun x y => valuesEqual L.classes x.1 y.1 = false) ∧
      (∀ e ∈ map.entries d, e.1 ∈ keys ∧
        (e.1 = e.2 ∨ valuesEqual L.classes e.1 e.2 = true)) ∧
      ∀ k ∈ keys, (map.hashedGet d k).isSome = s k ∧
        (s k = true ↔ ∃ e ∈ map.entries d, valuesEqual L.classes e.1 k = true)
  | _, _ => False

end ProtoScala.Runtime.KeyedCollections
