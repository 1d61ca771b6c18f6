import Mathlib.Data.Set.Basic
import ProtoScala.Library.Matching

/-!
# Hashed maps

A map over keys that come with their own hash and equality. Some keys are compared by
identity, the others by equality among the keys of one hash. Where the hash agrees with
the equality, and the equality is symmetric and transitive, the operations are those of a
finite map with keys told apart by it. A key that does not equal itself is kept but never
found.
-/

namespace ProtoScala.Library.HashedMaps

open ProtoScala.Library.Matching

set_option autoImplicit false

structure KeySemantics (Key : Type) where
  isIdentityKey : Key → Bool
  identical : Key → Key → Bool
  hash : Key → Nat
  equals : Key → Key → Bool

variable {Key Val : Type}

/-- A stored key answers to the key that is looked for. -/
def KeySemantics.finds (sem : KeySemantics Key) (stored key : Key) : Bool :=
  if sem.isIdentityKey key then sem.isIdentityKey stored && sem.identical stored key
  else !sem.isIdentityKey stored && sem.hash stored == sem.hash key && sem.equals stored key

/-- Over these keys the hash agrees with the equality. -/
structure Agrees (sem : KeySemantics Key) (keys : Set Key) : Prop where
  identical_symm : ∀ a ∈ keys, ∀ b ∈ keys, sem.identical a b = true → sem.identical b a = true
  identical_trans : ∀ a ∈ keys, ∀ b ∈ keys, ∀ c ∈ keys, sem.identical a b = true →
    sem.identical b c = true → sem.identical a c = true
  equals_symm : ∀ a ∈ keys, ∀ b ∈ keys, sem.equals a b = true → sem.equals b a = true
  equals_trans : ∀ a ∈ keys, ∀ b ∈ keys, ∀ c ∈ keys, sem.equals a b = true →
    sem.equals b c = true → sem.equals a c = true
  hashed : ∀ a ∈ keys, ∀ b ∈ keys, sem.equals a b = true → sem.hash a = sem.hash b

/-- The operations, with the entries in the order they are visited in. -/
structure HashedMap (sem : KeySemantics Key) (Val : Type) where
  Data : Type
  newMap : Data
  hashedGet : Data → Key → Option Val
  hashedPut : Data → Key → Val → Data
  hashedRemove : Data → Key → Data
  entries : Data → List (Key × Val)

/-- The entries' keys are of the given ones, and no two of them answer to each other. -/
structure Distinct (sem : KeySemantics Key) (keys : Set Key) (entries : List (Key × Val)) :
    Prop where
  within : ∀ e ∈ entries, e.1 ∈ keys
  apart : entries.Pairwise fun x y => sem.finds x.1 y.1 = false

/-- The value of the entry that answers to a key. -/
def lookup (sem : KeySemantics Key) (entries : List (Key × Val)) (key : Key) : Option Val :=
  (entries.find? fun e => sem.finds e.1 key).map Prod.snd

def replace (sem : KeySemantics Key) (entries : List (Key × Val)) (key : Key) (v : Val) :
    List (Key × Val) :=
  entries.map fun e => if sem.finds e.1 key then (e.1, v) else e

/-- The operations are those of a map, up to the order of its entries: putting an equal key
keeps the stored key and replaces its value. -/
structure Implements {sem : KeySemantics Key} (map : HashedMap sem Val) (keys : Set Key) :
    Prop where
  new : map.entries map.newMap = []
  get : ∀ d, Distinct sem keys (map.entries d) → ∀ key ∈ keys,
    map.hashedGet d key = lookup sem (map.entries d) key
  put_found : ∀ d, Distinct sem keys (map.entries d) → ∀ key ∈ keys, ∀ v,
    (∃ e ∈ map.entries d, sem.finds e.1 key = true) →
      (map.entries (map.hashedPut d key v)).Perm (replace sem (map.entries d) key v)
  put_new : ∀ d, Distinct sem keys (map.entries d) → ∀ key ∈ keys, ∀ v,
    (∀ e ∈ map.entries d, sem.finds e.1 key = false) →
      (map.entries (map.hashedPut d key v)).Perm ((key, v) :: map.entries d)
  remove : ∀ d, Distinct sem keys (map.entries d) → ∀ key ∈ keys,
    (map.entries (map.hashedRemove d key)).Perm
      ((map.entries d).filter fun e => !sem.finds e.1 key)

/-! ## Looking keys up -/

section

variable {sem : KeySemantics Key} {keys : Set Key}

theorem finds_iff {stored key : Key} :
    sem.finds stored key = true ↔ sem.isIdentityKey stored = sem.isIdentityKey key ∧
      (if sem.isIdentityKey key then sem.identical stored key = true
      else sem.hash stored = sem.hash key ∧ sem.equals stored key = true) := by
  unfold KeySemantics.finds
  cases sem.isIdentityKey key <;> cases sem.isIdentityKey stored <;> simp

theorem finds_symm (agrees : Agrees sem keys) {a b : Key} (inA : a ∈ keys) (inB : b ∈ keys)
    (found : sem.finds a b = true) : sem.finds b a = true := by
  rw [finds_iff] at found ⊢
  refine ⟨found.1.symm, ?_⟩
  have test := found.2
  rw [found.1]
  split at test
  · next identity =>
    rw [if_pos identity]
    exact agrees.identical_symm a inA b inB test
  · next identity =>
    rw [if_neg identity]
    exact ⟨test.1.symm, agrees.equals_symm a inA b inB test.2⟩

theorem finds_trans (agrees : Agrees sem keys) {a b c : Key} (inA : a ∈ keys) (inB : b ∈ keys)
    (inC : c ∈ keys) (first : sem.finds a b = true) (second : sem.finds b c = true) :
    sem.finds a c = true := by
  rw [finds_iff] at first second ⊢
  refine ⟨first.1.trans second.1, ?_⟩
  have one := first.2
  have two := second.2
  rw [second.1] at one
  split at two
  · next identity =>
    rw [if_pos identity] at one ⊢
    exact agrees.identical_trans a inA b inB c inC one two
  · next identity =>
    rw [if_neg identity] at one ⊢
    exact ⟨one.1.trans two.1, agrees.equals_trans a inA b inB c inC one.2 two.2⟩

/-- Entries that answer to each other are one. -/
theorem eq_of_finds (agrees : Agrees sem keys) {entries : List (Key × Val)}
    (distinct : Distinct sem keys entries) {x y : Key × Val} (inX : x ∈ entries)
    (inY : y ∈ entries) (found : sem.finds x.1 y.1 = true) : x = y := by
  let related : Key × Val → Key × Val → Prop := fun x y =>
    x.1 ∈ keys ∧ y.1 ∈ keys ∧ sem.finds x.1 y.1 = true
  have symmetric : ∀ x y, related x y → related y x :=
    fun x y both => ⟨both.2.1, both.1, finds_symm agrees both.1 both.2.1 both.2.2⟩
  have apart : entries.Pairwise fun x y => ¬related x y := by
    refine distinct.apart.imp ?_
    intro x y none both
    rw [both.2.2] at none
    cases none
  exact eq_of_related symmetric apart inX inY
    ⟨distinct.within x inX, distinct.within y inY, found⟩

/-- The one entry that answers to a key. -/
theorem lookup_eq_some (agrees : Agrees sem keys) {entries : List (Key × Val)}
    (distinct : Distinct sem keys entries) {key : Key} (inKeys : key ∈ keys) {v : Val} :
    lookup sem entries key = some v ↔ ∃ e ∈ entries, sem.finds e.1 key = true ∧ e.2 = v := by
  unfold lookup
  constructor
  · intro found
    obtain ⟨e, first, rfl⟩ := Option.map_eq_some_iff.mp found
    have answers := List.find?_some (p := fun e : Key × Val => sem.finds e.1 key) first
    exact ⟨e, List.mem_of_find?_eq_some first, answers, rfl⟩
  · rintro ⟨e, member, answers, rfl⟩
    cases first : entries.find? (fun e => sem.finds e.1 key) with
    | none => exact absurd answers (List.find?_eq_none.mp first e member)
    | some other =>
      have inOther := List.mem_of_find?_eq_some first
      have otherAnswers := List.find?_some (p := fun e : Key × Val => sem.finds e.1 key) first
      -- both answer to the key, hence to each other
      have each := finds_trans agrees (distinct.within other inOther) inKeys
        (distinct.within e member) otherAnswers
        (finds_symm agrees (distinct.within e member) inKeys answers)
      rw [eq_of_finds agrees distinct inOther member each]
      rfl

theorem lookup_is_some (entries : List (Key × Val)) (key : Key) :
    (lookup sem entries key).isSome = entries.any fun e => sem.finds e.1 key := by
  unfold lookup
  rw [Option.isSome_map, List.isSome_find?]

theorem distinct_perm (agrees : Agrees sem keys) {entries others : List (Key × Val)}
    (distinct : Distinct sem keys entries) (perm : others.Perm entries) :
    Distinct sem keys others := by
  have within : ∀ e ∈ others, e.1 ∈ keys :=
    fun e member => distinct.within e (perm.mem_iff.mp member)
  refine ⟨within, ?_⟩
  have both : entries.Pairwise fun x y =>
      ¬(x.1 ∈ keys ∧ y.1 ∈ keys ∧ sem.finds x.1 y.1 = true) := by
    refine distinct.apart.imp ?_
    intro x y none found
    rw [found.2.2] at none
    cases none
  have swapped := (perm.pairwise_iff (by
    intro x y none found
    exact none ⟨found.2.1, found.1, finds_symm agrees found.1 found.2.1 found.2.2⟩)).mpr both
  refine swapped.imp_of_mem ?_
  intro x y inX inY none
  by_contra found
  rw [Bool.not_eq_false] at found
  exact none ⟨within x inX, within y inY, found⟩

/-- The order of the entries does not matter. -/
theorem lookup_perm (agrees : Agrees sem keys) {entries others : List (Key × Val)}
    (distinct : Distinct sem keys entries) (perm : others.Perm entries) {key : Key}
    (inKeys : key ∈ keys) : lookup sem others key = lookup sem entries key := by
  ext v
  rw [lookup_eq_some agrees (distinct_perm agrees distinct perm) inKeys,
    lookup_eq_some agrees distinct inKeys]
  simp only [perm.mem_iff]

/-! ## One operation -/

theorem distinct_replace {entries : List (Key × Val)} (distinct : Distinct sem keys entries)
    (key : Key) (v : Val) : Distinct sem keys (replace sem entries key v) := by
  have keep : ∀ e : Key × Val, (if sem.finds e.1 key then (e.1, v) else e).1 = e.1 := by
    intro e
    split <;> rfl
  refine ⟨?_, ?_⟩
  · intro e member
    obtain ⟨old, inOld, rfl⟩ := List.mem_map.mp member
    rw [keep]
    exact distinct.within old inOld
  · unfold replace
    rw [List.pairwise_map]
    refine distinct.apart.imp ?_
    intro x y none
    rw [keep, keep]
    exact none

theorem distinct_cons {entries : List (Key × Val)} (distinct : Distinct sem keys entries)
    (agrees : Agrees sem keys) {key : Key} (inKeys : key ∈ keys) (v : Val)
    (none : ∀ e ∈ entries, sem.finds e.1 key = false) :
    Distinct sem keys ((key, v) :: entries) := by
  refine ⟨?_, List.pairwise_cons.mpr ⟨?_, distinct.apart⟩⟩
  · intro e member
    cases List.mem_cons.mp member with
    | inl this => exact this ▸ inKeys
    | inr old => exact distinct.within e old
  · intro e member
    by_contra found
    rw [Bool.not_eq_false] at found
    have back := finds_symm agrees inKeys (distinct.within e member) found
    rw [none e member] at back
    cases back

theorem distinct_filter {entries : List (Key × Val)} (distinct : Distinct sem keys entries)
    (keep : Key × Val → Bool) : Distinct sem keys (entries.filter keep) :=
  ⟨fun e member => distinct.within e (List.mem_filter.mp member).1, distinct.apart.filter keep⟩

theorem lookup_replace (agrees : Agrees sem keys) {entries : List (Key × Val)}
    (distinct : Distinct sem keys entries) {key other : Key} (inKeys : key ∈ keys)
    (inOther : other ∈ keys) (v : Val) (some_entry : ∃ e ∈ entries, sem.finds e.1 key = true) :
    lookup sem (replace sem entries key v) other =
      if sem.finds key other then some v else lookup sem entries other := by
  obtain ⟨held, inHeld, answers⟩ := some_entry
  ext w
  rw [lookup_eq_some agrees (distinct_replace distinct key v) inOther]
  split
  · next same =>
    constructor
    · rintro ⟨e, member, found, rfl⟩
      obtain ⟨old, inOld, rfl⟩ := List.mem_map.mp member
      have inKey := distinct.within old inOld
      split at found
      · next yes => simp [yes]
      · next no =>
        have back := finds_symm agrees inKeys inOther same
        exact absurd (finds_trans agrees inKey inOther inKeys found back) no
    · intro eq
      cases eq
      refine ⟨(held.1, v), List.mem_map.mpr ⟨held, inHeld, if_pos answers⟩, ?_, rfl⟩
      exact finds_trans agrees (distinct.within held inHeld) inKeys inOther answers same
  · next other_key =>
    rw [lookup_eq_some agrees distinct inOther]
    have untouched : ∀ e ∈ entries, sem.finds e.1 other = true → sem.finds e.1 key ≠ true := by
      intro e member found hit
      refine other_key (finds_trans agrees inKeys (distinct.within e member) inOther ?_ found)
      exact finds_symm agrees (distinct.within e member) inKeys hit
    constructor
    · rintro ⟨e, member, found, rfl⟩
      obtain ⟨old, inOld, rfl⟩ := List.mem_map.mp member
      split at found
      · next yes => exact absurd yes (untouched old inOld found)
      · next no => exact ⟨old, inOld, found, by rw [if_neg no]⟩
    · rintro ⟨e, member, found, rfl⟩
      exact ⟨e, List.mem_map.mpr ⟨e, member, if_neg (untouched e member found)⟩, found, rfl⟩

theorem lookup_cons {entries : List (Key × Val)} (key : Key) (v : Val) (other : Key) :
    lookup sem ((key, v) :: entries) other =
      if sem.finds key other then some v else lookup sem entries other := by
  unfold lookup
  rw [List.find?_cons]
  cases sem.finds key other <;> rfl

theorem lookup_remove (agrees : Agrees sem keys) {entries : List (Key × Val)}
    (distinct : Distinct sem keys entries) {key other : Key} (inKeys : key ∈ keys)
    (inOther : other ∈ keys) :
    lookup sem (entries.filter fun e => !sem.finds e.1 key) other =
      if sem.finds key other then none else lookup sem entries other := by
  ext w
  rw [lookup_eq_some agrees (distinct_filter distinct _) inOther]
  split
  · next same =>
    simp only [reduceCtorEq, iff_false]
    rintro ⟨e, member, found, -⟩
    obtain ⟨inEntries, missed⟩ := List.mem_filter.mp member
    have hit := finds_trans agrees (distinct.within e inEntries) inOther inKeys found
      (finds_symm agrees inKeys inOther same)
    simp [hit] at missed
  · next other_key =>
    rw [lookup_eq_some agrees distinct inOther]
    constructor
    · rintro ⟨e, member, found⟩
      exact ⟨e, (List.mem_filter.mp member).1, found⟩
    · rintro ⟨e, member, found, eq⟩
      refine ⟨e, List.mem_filter.mpr ⟨member, ?_⟩, found, eq⟩
      by_contra hit
      rw [Bool.not_eq_true, Bool.not_eq_eq_eq_not, Bool.not_false] at hit
      refine other_key (finds_trans agrees inKeys (distinct.within e member) inOther ?_ found)
      exact finds_symm agrees (distinct.within e member) inKeys hit

variable {map : HashedMap sem Val}

/-- The entries of the data are those of a finite map over the given keys. -/
def Holds (map : HashedMap sem Val) (keys : Set Key) (d : map.Data) : Prop :=
  Distinct sem keys (map.entries d)

theorem new_holds (implements : Implements map keys) : Holds map keys map.newMap := by
  unfold Holds
  rw [implements.new]
  exact ⟨by simp, List.Pairwise.nil⟩

theorem get_new (implements : Implements map keys) {key : Key} (inKeys : key ∈ keys) :
    map.hashedGet map.newMap key = none := by
  rw [implements.get _ (new_holds implements) key inKeys, implements.new]
  rfl

section

variable (agrees : Agrees sem keys) (implements : Implements map keys)
include agrees implements

omit agrees in
/-- What `hashedPut` does to the entries. -/
theorem put_cases {d : map.Data} (holds : Holds map keys d) {key : Key} (inKeys : key ∈ keys)
    (v : Val) :
    (∃ e ∈ map.entries d, sem.finds e.1 key = true) ∧
        (map.entries (map.hashedPut d key v)).Perm (replace sem (map.entries d) key v) ∨
      (∀ e ∈ map.entries d, sem.finds e.1 key = false) ∧
        (map.entries (map.hashedPut d key v)).Perm ((key, v) :: map.entries d) := by
  by_cases found : ∃ e ∈ map.entries d, sem.finds e.1 key = true
  · exact .inl ⟨found, implements.put_found d holds key inKeys v found⟩
  · have none : ∀ e ∈ map.entries d, sem.finds e.1 key = false := by
      intro e member
      by_contra hit
      rw [Bool.not_eq_false] at hit
      exact found ⟨e, member, hit⟩
    exact .inr ⟨none, implements.put_new d holds key inKeys v none⟩

theorem put_holds {d : map.Data} (holds : Holds map keys d) {key : Key} (inKeys : key ∈ keys)
    (v : Val) : Holds map keys (map.hashedPut d key v) := by
  rcases put_cases implements holds inKeys v with ⟨-, perm⟩ | ⟨none, perm⟩
  · exact distinct_perm agrees (distinct_replace holds key v) perm
  · exact distinct_perm agrees (distinct_cons holds agrees inKeys v none) perm

theorem get_put {d : map.Data} (holds : Holds map keys d) {key other : Key}
    (inKeys : key ∈ keys) (inOther : other ∈ keys) (v : Val) :
    map.hashedGet (map.hashedPut d key v) other =
      if sem.finds key other then some v else map.hashedGet d other := by
  rw [implements.get _ (put_holds agrees implements holds inKeys v) other inOther,
    implements.get d holds other inOther]
  rcases put_cases implements holds inKeys v with ⟨found, perm⟩ | ⟨none, perm⟩
  · rw [lookup_perm agrees (distinct_replace holds key v) perm inOther,
      lookup_replace agrees holds inKeys inOther v found]
  · rw [lookup_perm agrees (distinct_cons holds agrees inKeys v none) perm inOther, lookup_cons]

omit agrees in
/-- An entry after `hashedPut` is an old one, or has the value under the key or an equal
one. -/
theorem mem_put {d : map.Data} (holds : Holds map keys d) {key : Key} (inKeys : key ∈ keys)
    {v : Val} {e : Key × Val} (member : e ∈ map.entries (map.hashedPut d key v)) :
    e ∈ map.entries d ∨ e.2 = v ∧ (e.1 = key ∨ sem.finds e.1 key = true) := by
  rcases put_cases implements holds inKeys v with ⟨-, perm⟩ | ⟨-, perm⟩
  · obtain ⟨old, inOld, rfl⟩ := List.mem_map.mp (perm.mem_iff.mp member)
    by_cases hit : sem.finds old.1 key = true
    · rw [if_pos hit]
      exact .inr ⟨rfl, .inr hit⟩
    · rw [if_neg hit]
      exact .inl inOld
  · cases List.mem_cons.mp (perm.mem_iff.mp member) with
    | inl this => exact .inr ⟨congrArg Prod.snd this, .inl (congrArg Prod.fst this)⟩
    | inr old => exact .inl old

theorem remove_holds {d : map.Data} (holds : Holds map keys d) {key : Key}
    (inKeys : key ∈ keys) : Holds map keys (map.hashedRemove d key) :=
  distinct_perm agrees (distinct_filter holds _) (implements.remove d holds key inKeys)

theorem get_remove {d : map.Data} (holds : Holds map keys d) {key other : Key}
    (inKeys : key ∈ keys) (inOther : other ∈ keys) :
    map.hashedGet (map.hashedRemove d key) other =
      if sem.finds key other then none else map.hashedGet d other := by
  rw [implements.get _ (remove_holds agrees implements holds inKeys) other inOther,
    implements.get d holds other inOther,
    lookup_perm agrees (distinct_filter holds _) (implements.remove d holds key inKeys) inOther,
    lookup_remove agrees holds inKeys inOther]

/-- Keys that answer to each other have one value. -/
theorem get_congr {d : map.Data} (holds : Holds map keys d) {a b : Key} (inA : a ∈ keys)
    (inB : b ∈ keys) (found : sem.finds a b = true) : map.hashedGet d a = map.hashedGet d b := by
  rw [implements.get d holds a inA, implements.get d holds b inB]
  ext v
  rw [lookup_eq_some agrees holds inA, lookup_eq_some agrees holds inB]
  constructor
  · rintro ⟨e, member, answers, eq⟩
    exact ⟨e, member, finds_trans agrees (holds.within e member) inA inB answers found, eq⟩
  · rintro ⟨e, member, answers, eq⟩
    have back := finds_symm agrees inA inB found
    exact ⟨e, member, finds_trans agrees (holds.within e member) inB inA answers back, eq⟩

omit agrees in
theorem mem_remove {d : map.Data} (holds : Holds map keys d) {key : Key} (inKeys : key ∈ keys)
    {e : Key × Val} (member : e ∈ map.entries (map.hashedRemove d key)) :
    e ∈ map.entries d :=
  (List.mem_filter.mp ((implements.remove d holds key inKeys).mem_iff.mp member)).1

end

/-! ## Many operations -/

/-- The entries put one after the other. -/
def putAll (map : HashedMap sem Val) (d : map.Data) (entries : List (Key × Val)) : map.Data :=
  entries.foldl (fun d e => map.hashedPut d e.1 e.2) d

def removeAll (map : HashedMap sem Val) (d : map.Data) (entries : List (Key × Val)) : map.Data :=
  entries.foldl (fun d e => map.hashedRemove d e.1) d

theorem lookup_append (sem : KeySemantics Key) (first second : List (Key × Val)) (key : Key) :
    lookup sem (first ++ second) key = (lookup sem first key).or (lookup sem second key) := by
  unfold lookup
  rw [List.find?_append]
  cases first.find? fun e => sem.finds e.1 key <;> rfl

section

variable (agrees : Agrees sem keys) (implements : Implements map keys)
include agrees implements

theorem put_all_holds {entries : List (Key × Val)} :
    ∀ {d : map.Data}, Holds map keys d → (∀ e ∈ entries, e.1 ∈ keys) →
      Holds map keys (putAll map d entries) := by
  induction entries with
  | nil =>
    intro d holds within
    exact holds
  | cons e rest ih =>
    intro d holds within
    exact ih (put_holds agrees implements holds (within e (.head _)) e.2)
      fun other member => within other (.tail _ member)

/-- The last binding of a key wins. -/
theorem get_put_all {entries : List (Key × Val)} {key : Key} (inKeys : key ∈ keys) :
    ∀ {d : map.Data}, Holds map keys d → (∀ e ∈ entries, e.1 ∈ keys) →
      map.hashedGet (putAll map d entries) key =
        (lookup sem entries.reverse key).or (map.hashedGet d key) := by
  induction entries with
  | nil =>
    intro d holds within
    rfl
  | cons e rest ih =>
    intro d holds within
    have inFirst := within e (.head _)
    have later := ih (put_holds agrees implements holds inFirst e.2)
      fun other member => within other (.tail _ member)
    rw [List.reverse_cons, lookup_append, Option.or_assoc]
    change map.hashedGet (putAll map (map.hashedPut d e.1 e.2) rest) key = _
    rw [later, get_put agrees implements holds inFirst inKeys]
    congr 1
    unfold lookup
    rw [List.find?_singleton]
    cases sem.finds e.1 key <;> rfl

theorem mem_put_all {entries : List (Key × Val)} {e : Key × Val} :
    ∀ {d : map.Data}, Holds map keys d → (∀ e ∈ entries, e.1 ∈ keys) →
      e ∈ map.entries (putAll map d entries) →
      e ∈ map.entries d ∨
        ∃ other ∈ entries, e.2 = other.2 ∧ (e.1 = other.1 ∨ sem.finds e.1 other.1 = true) := by
  induction entries with
  | nil =>
    intro d holds within member
    exact .inl member
  | cons first rest ih =>
    intro d holds within member
    have inFirst := within first (.head _)
    rcases ih (put_holds agrees implements holds inFirst first.2)
        (fun other member => within other (.tail _ member)) member with old | new
    · rcases mem_put implements holds inFirst old with older | this
      · exact .inl older
      · exact .inr ⟨first, .head _, this⟩
    · obtain ⟨other, inRest, this⟩ := new
      exact .inr ⟨other, .tail _ inRest, this⟩

theorem remove_all_holds {entries : List (Key × Val)} :
    ∀ {d : map.Data}, Holds map keys d → (∀ e ∈ entries, e.1 ∈ keys) →
      Holds map keys (removeAll map d entries) := by
  induction entries with
  | nil =>
    intro d holds within
    exact holds
  | cons e rest ih =>
    intro d holds within
    exact ih (remove_holds agrees implements holds (within e (.head _)))
      fun other member => within other (.tail _ member)

theorem get_remove_all {entries : List (Key × Val)} {key : Key} (inKeys : key ∈ keys) :
    ∀ {d : map.Data}, Holds map keys d → (∀ e ∈ entries, e.1 ∈ keys) →
      map.hashedGet (removeAll map d entries) key =
        if entries.any fun e => sem.finds e.1 key then none else map.hashedGet d key := by
  induction entries with
  | nil =>
    intro d holds within
    rfl
  | cons e rest ih =>
    intro d holds within
    have inFirst := within e (.head _)
    have later := ih (remove_holds agrees implements holds inFirst)
      fun other member => within other (.tail _ member)
    change map.hashedGet (removeAll map (map.hashedRemove d e.1) rest) key = _
    rw [later, get_remove agrees implements holds inFirst inKeys, List.any_cons]
    cases sem.finds e.1 key <;> cases rest.any fun e => sem.finds e.1 key <;> rfl

theorem mem_remove_all {entries : List (Key × Val)} {e : Key × Val} :
    ∀ {d : map.Data}, Holds map keys d → (∀ e ∈ entries, e.1 ∈ keys) →
      e ∈ map.entries (removeAll map d entries) → e ∈ map.entries d := by
  induction entries with
  | nil =>
    intro d holds within member
    exact member
  | cons first rest ih =>
    intro d holds within member
    have inFirst := within first (.head _)
    exact mem_remove implements holds inFirst
      (ih (remove_holds agrees implements holds inFirst)
        (fun other member => within other (.tail _ member)) member)

end

theorem lookup_filter (agrees : Agrees sem keys) {entries : List (Key × Val)}
    (distinct : Distinct sem keys entries) (keep : Key → Bool)
    (respects : ∀ e ∈ entries, ∀ key ∈ keys, sem.finds e.1 key = true → keep e.1 = keep key)
    {key : Key} (inKeys : key ∈ keys) :
    lookup sem (entries.filter fun e => keep e.1) key =
      if keep key then lookup sem entries key else none := by
  ext v
  rw [lookup_eq_some agrees (distinct_filter distinct _) inKeys]
  split
  · next kept =>
    rw [lookup_eq_some agrees distinct inKeys]
    constructor
    · rintro ⟨e, member, found⟩
      exact ⟨e, (List.mem_filter.mp member).1, found⟩
    · rintro ⟨e, member, found, eq⟩
      refine ⟨e, List.mem_filter.mpr ⟨member, ?_⟩, found, eq⟩
      rw [respects e member key inKeys found]
      exact kept
  · next dropped =>
    simp only [reduceCtorEq, iff_false]
    rintro ⟨e, member, found, -⟩
    obtain ⟨inEntries, kept⟩ := List.mem_filter.mp member
    rw [respects e inEntries key inKeys found] at kept
    exact dropped kept

end

/-! ## Association lists -/

/-- The operations on a list of entries. -/
def listMap (sem : KeySemantics Key) (Val : Type) : HashedMap sem Val where
  Data := List (Key × Val)
  newMap := []
  hashedGet := lookup sem
  hashedPut := fun d key v =>
    if d.any fun e => sem.finds e.1 key then replace sem d key v else (key, v) :: d
  hashedRemove := fun d key => d.filter fun e => !sem.finds e.1 key
  entries := id

theorem list_map_implements (sem : KeySemantics Key) (Val : Type) (keys : Set Key) :
    Implements (listMap sem Val) keys where
  new := rfl
  get := fun _ _ _ _ => rfl
  put_found := by
    intro d _ key _ v found
    obtain ⟨e, member, answers⟩ := found
    have any : (List.any d fun e => sem.finds e.1 key) = true :=
      List.any_eq_true.mpr ⟨e, member, answers⟩
    simp only [listMap, any, if_true]
    exact .refl _
  put_new := by
    intro d _ key _ v none
    have any : (List.any d fun e => sem.finds e.1 key) = false :=
      List.any_eq_false.mpr fun e member => by simp [none e member]
    simp only [listMap, any]
    exact .refl _
  remove := fun _ _ _ _ => .refl _

end ProtoScala.Library.HashedMaps
