import Mathlib

/-!
# The fields of a constructor, stored as groups

`storeFieldsIfNew` stores the fields that an object does not have yet, up to 32 of them with one
`setAttributes`. Its counters are 32 bits wide.
-/

namespace ProtoScala.Runtime.FieldGroups

set_option autoImplicit false

/-- Objects, each with the store it lives in, and what is known of their own attributes. -/
structure Attributes (O K V : Type) [DecidableEq K] where
  own : O → K → Option V
  setAttribute : O → K → V → O
  setAttributes : O → List (K × V) → O
  own_setAttribute : ∀ self key v other,
    own (setAttribute self key v) other = if other = key then some v else own self other
  own_setAttributes : ∀ self entries other, (entries.map Prod.fst).Nodup →
    own (setAttributes self entries) other = (entries.lookup other).or (own self other)

/-- The keys and values of a group; their number is an `unsigned`. -/
structure Group (K V : Type) where
  entries : List (K × V)
  distinct : (entries.map Prod.fst).Nodup
  counted : entries.length < 2 ^ 32

variable {O K V : Type} [DecidableEq K] (core : Attributes O K V)

def hasOwnAttribute (self : O) (key : K) : Bool := (core.own self key).isSome

def storeFieldIfNew (self : O) (key : K) (v : V) : O :=
  if hasOwnAttribute core self key then self else core.setAttribute self key v

def kChunk : Nat := 32

/-- The inner loop: the entries from `k` on that are new. -/
def gather (self : O) (entries : List (K × V)) (limit k : Nat) : List (K × V) :=
  if h : k < entries.length ∧ k < limit then
    if hasOwnAttribute core self entries[k].1 then gather self entries limit (k + 1)
    else entries[k] :: gather self entries limit (k + 1)
  else []
termination_by entries.length - k

def storeChunk (self : O) (entries : List (K × V)) (base : Nat) : O :=
  let fresh := gather core self entries ((base + kChunk) % 2 ^ 32) base
  if fresh = [] then self else core.setAttributes self fresh

/-- The outer loop, for as many turns as there is fuel. -/
def storeFrom (entries : List (K × V)) : Nat → Nat → O → Option O
  | 0, _, _ => none
  | fuel + 1, base, self =>
      if base < entries.length then
        storeFrom entries fuel ((base + kChunk) % 2 ^ 32) (storeChunk core self entries base)
      else some self

def storeFieldsIfNew (self : O) (entries : List (K × V)) (fuel : Nat) : Option O :=
  storeFrom core entries fuel 0 self

/-- One `STORE_FIELD_IF_NEW` for each field. -/
def storeEach (self : O) (entries : List (K × V)) : O :=
  entries.foldl (fun self entry => storeFieldIfNew core self entry.1 entry.2) self

/-- The loop returns, with the fields of the single stores. -/
def StoresFields (self : O) (entries : List (K × V)) : Prop :=
  ∃ fuel out, storeFieldsIfNew core self entries fuel = some out ∧
    ∀ key, core.own out key = core.own (storeEach core self entries) key

/-! ## One chunk -/

theorem own_store_each (self : O) (entries : List (K × V)) (key : K) :
    core.own (storeEach core self entries) key =
      (core.own self key).or (entries.lookup key) := by
  induction entries generalizing self with
  | nil => exact (Option.or_none).symm
  | cons entry entries induction =>
      obtain ⟨name, v⟩ := entry
      rw [storeEach, List.foldl_cons, ← storeEach, induction, storeFieldIfNew, hasOwnAttribute]
      by_cases same : key = name
      · subst same
        rw [List.lookup_cons_self]
        cases held : core.own self key with
        | none => simp [core.own_setAttribute]
        | some v' => simp [held]
      · have other : (key == name) = false := beq_false_of_ne same
        rw [List.lookup_cons, other]
        split_ifs <;> simp [core.own_setAttribute, same]

theorem gather_eq (self : O) (entries : List (K × V)) (limit k : Nat) :
    gather core self entries limit k =
      ((entries.drop k).take (limit - k)).filter
        fun entry => !hasOwnAttribute core self entry.1 := by
  rw [gather]
  split_ifs with more held
  · rw [gather_eq self entries limit (k + 1), List.drop_eq_getElem_cons more.1]
    obtain ⟨size, shape⟩ := Nat.exists_eq_succ_of_ne_zero (Nat.sub_ne_zero_of_lt more.2)
    rw [shape, List.take_succ_cons, List.filter_cons_of_neg (by simpa using held),
      show limit - (k + 1) = size by omega]
  · rw [gather_eq self entries limit (k + 1), List.drop_eq_getElem_cons more.1]
    obtain ⟨size, shape⟩ := Nat.exists_eq_succ_of_ne_zero (Nat.sub_ne_zero_of_lt more.2)
    rw [shape, List.take_succ_cons, List.filter_cons_of_pos (by simpa using held),
      show limit - (k + 1) = size by omega]
  · rcases not_and_or.mp more with past | full
    · rw [List.drop_eq_nil_of_le (Nat.le_of_not_lt past), List.take_nil, List.filter_nil]
    · rw [Nat.sub_eq_zero_of_le (Nat.le_of_not_lt full), List.take_zero, List.filter_nil]
termination_by entries.length - k

/-- A key that the object does not have is found among the new entries alike. -/
theorem lookup_fresh (self : O) (entries : List (K × V)) (key : K) :
    ((entries.filter fun entry => !hasOwnAttribute core self entry.1).lookup key).or
        (core.own self key) = (core.own self key).or (entries.lookup key) := by
  induction entries with
  | nil => exact (Option.or_none).symm
  | cons entry entries induction =>
      obtain ⟨name, v⟩ := entry
      by_cases same : key = name
      · subst same
        cases held : core.own self key with
        | none =>
            rw [List.filter_cons_of_pos (by simp [hasOwnAttribute, held]), List.lookup_cons_self,
              List.lookup_cons_self]
            rfl
        | some v' =>
            rw [held] at induction
            rw [List.filter_cons_of_neg (by simp [hasOwnAttribute, held]), induction]
            rfl
      · have other : (key == name) = false := beq_false_of_ne same
        rw [List.lookup_cons, other, ← induction]
        by_cases held : hasOwnAttribute core self name = true
        · rw [List.filter_cons_of_neg (by simpa using held)]
        · rw [List.filter_cons_of_pos (by simpa using held), List.lookup_cons, other]

/-- A chunk stores the entries in it as single stores do, where its limit does not wrap. -/
theorem own_store_chunk (self : O) (entries : List (K × V)) {base : Nat}
    (distinct : (entries.map Prod.fst).Nodup) (below : base + kChunk < 2 ^ 32) (key : K) :
    core.own (storeChunk core self entries base) key =
      (core.own self key).or (((entries.drop base).take kChunk).lookup key) := by
  have wide : base + kChunk - base = kChunk := Nat.add_sub_cancel_left ..
  have part : (((entries.drop base).take kChunk).map Prod.fst).Nodup :=
    distinct.sublist (((List.take_sublist _ _).trans (List.drop_sublist _ _)).map _)
  rw [storeChunk, Nat.mod_eq_of_lt below, gather_eq, wide, ← lookup_fresh]
  split_ifs with nothing
  · rw [nothing]
    rfl
  · rw [core.own_setAttributes]
    exact part.sublist (List.filter_sublist.map _)

/-! ## All chunks -/

theorem store_from_returns (entries : List (K × V)) (distinct : (entries.map Prod.fst).Nodup)
    (bounded : entries.length ≤ 2 ^ 32 - kChunk) :
    ∀ rest base (self : O), entries.length ≤ base + rest → ∃ fuel out,
      storeFrom core entries fuel base self = some out ∧ ∀ key,
        core.own out key = (core.own self key).or ((entries.drop base).lookup key) := by
  intro rest
  induction rest using Nat.strongRecOn with
  | ind rest induction =>
      intro base self enough
      by_cases more : base < entries.length
      · have narrow : kChunk = 32 := rfl
        have below : base + kChunk < 2 ^ 32 := by omega
        obtain ⟨fuel, out, run, fields⟩ := induction (rest - kChunk) (by omega) (base + kChunk)
          (storeChunk core self entries base) (by omega)
        refine ⟨fuel + 1, out, ?_, fun key => ?_⟩
        · rw [storeFrom, if_pos more, Nat.mod_eq_of_lt below, run]
        · have cut := List.take_append_drop kChunk (entries.drop base)
          rw [fields, own_store_chunk core self entries distinct below, Option.or_assoc,
            ← List.lookup_append, ← List.drop_drop, cut]
      · refine ⟨1, self, ?_, fun key => ?_⟩
        · rw [storeFrom, if_neg more]
        · rw [List.drop_eq_nil_of_le (Nat.le_of_not_lt more)]
          exact (Option.or_none).symm

/-- With more entries the counter wraps before it reaches their number, and the loop goes on. -/
theorem store_from_endless {entries : List (K × V)} (many : 4294967264 < entries.length)
    (fuel base : Nat) (self : O) (aligned : 32 ∣ base) (inside : base < 2 ^ 32) :
    storeFrom core entries fuel base self = none := by
  have narrow : kChunk = 32 := rfl
  induction fuel generalizing base self with
  | zero => rfl
  | succ fuel induction =>
      rw [storeFrom, if_pos (by omega)]
      exact induction ((base + kChunk) % 2 ^ 32) _ (by omega) (Nat.mod_lt _ (by decide))

theorem stores_bounded {entries : List (K × V)} {self : O}
    (stores : StoresFields core self entries) : entries.length ≤ 4294967264 := by
  obtain ⟨fuel, out, run, _⟩ := stores
  by_contra many
  have endless := store_from_endless core (Nat.lt_of_not_le many) fuel 0 self
    (Nat.dvd_zero 32) (by decide)
  rw [storeFieldsIfNew, endless] at run
  cases run

/-- Objects that are the table of their own attributes. -/
def tables : Attributes (Nat → Option Unit) Nat Unit where
  own self := self
  setAttribute self key v other := if other = key then some v else self other
  setAttributes self entries other := (entries.lookup other).or (self other)
  own_setAttribute _ _ _ _ := rfl
  own_setAttributes _ _ _ _ := rfl

/-- A group of `n` numbered fields. -/
def numbered (n : Nat) (small : n < 2 ^ 32) : Group Nat Unit where
  entries := (List.range n).map fun key => (key, ())
  distinct := by
    rw [List.map_map]
    exact List.nodup_range.map fun _ _ same => same
  counted := by rwa [List.length_map, List.length_range]

theorem numbered_length (n : Nat) (small : n < 2 ^ 32) : (numbered n small).entries.length = n := by
  rw [numbered, List.length_map, List.length_range]

end ProtoScala.Runtime.FieldGroups
