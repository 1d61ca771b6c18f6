import Mathlib.Data.Finmap
import Mathlib.Data.Finset.Sort

/-!
# Maps and records in tables

A finite map is written down in the order of its keys and filled in again, entry by entry. A record
of a table refers to ranges of other tables, which only grow: what it says is read back from every
table that grew out of the one it was written for.
-/

namespace ProtoScala.Library.RecordTables

set_option autoImplicit false

/-! ## Maps in the order of their keys -/

section Maps

variable {K V : Type}

abbrev Map (K V : Type) := Finmap fun _ : K => V

variable [LinearOrder K]

def ordered (m : Map K V) : List (K × V) :=
  (m.keys.sort (· ≤ ·)).filterMap fun key => (m.lookup key).map (key, ·)

def fill (entries : List (K × V)) (m : Map K V) : Map K V :=
  entries.foldl (fun m entry => m.insert entry.1 entry.2) m

/-- Keeps the value that a key has. -/
def emplace (m : Map K V) (entry : K × V) : Map K V :=
  if entry.1 ∈ m then m else m.insert entry.1 entry.2

theorem mem_ordered {m : Map K V} {key : K} {value : V} :
    (key, value) ∈ ordered m ↔ m.lookup key = some value := by
  simp only [ordered, List.mem_filterMap, Finset.mem_sort, Option.map_eq_some_iff, Prod.mk.injEq]
  constructor
  · rintro ⟨_, _, _, there, rfl, rfl⟩
    exact there
  · intro there
    exact ⟨key, Finmap.mem_keys.mpr (Finmap.mem_iff.mpr ⟨value, there⟩), value, there, rfl, rfl⟩

theorem ordered_keys (m : Map K V) : (ordered m).map Prod.fst = m.keys.sort (· ≤ ·) := by
  have all : ∀ key ∈ m.keys.sort (· ≤ ·), ∃ value, m.lookup key = some value := by
    intro key mem
    exact Finmap.mem_iff.mp (Finmap.mem_keys.mp ((Finset.mem_sort _).mp mem))
  unfold ordered
  generalize m.keys.sort (· ≤ ·) = keys at all ⊢
  induction keys with
  | nil => rfl
  | cons key rest induction =>
      obtain ⟨value, there⟩ := all key List.mem_cons_self
      rw [List.filterMap_cons, there]
      simp only [Option.map_some, List.map_cons]
      rw [induction fun key mem => all key (List.mem_cons_of_mem _ mem)]

theorem ordered_nodup (m : Map K V) : ((ordered m).map Prod.fst).Nodup := by
  rw [ordered_keys]
  exact Finset.sort_nodup _ _

theorem lookup_fill_of_not_mem {key : K} (entries : List (K × V)) : ∀ m : Map K V,
    key ∉ entries.map Prod.fst → (fill entries m).lookup key = m.lookup key := by
  induction entries with
  | nil =>
      intro m _
      rfl
  | cons entry rest filled =>
      intro m absent
      obtain ⟨other, absent⟩ := not_or.mp (mt List.mem_cons.mpr absent)
      refine (filled (m.insert entry.1 entry.2) absent).trans ?_
      exact Finmap.lookup_insert_of_ne m other

theorem lookup_fill_of_mem {key : K} {value : V} (entries : List (K × V)) : ∀ m : Map K V,
    (entries.map Prod.fst).Nodup → (key, value) ∈ entries →
      (fill entries m).lookup key = some value := by
  induction entries with
  | nil => exact fun _ _ mem => absurd mem List.not_mem_nil
  | cons entry rest filled =>
      intro m nodup mem
      obtain ⟨absent, nodup⟩ := List.nodup_cons.mp nodup
      obtain rfl | mem := List.mem_cons.mp mem
      · refine (lookup_fill_of_not_mem rest (m.insert key value) absent).trans ?_
        exact Finmap.lookup_insert m
      · exact filled (m.insert entry.1 entry.2) nodup mem

/-- A map written down, with its values changed, and filled in over another one. -/
theorem lookup_fill_ordered {W : Type} (m : Map K V) (change : V → W) (start : Map K W) (key : K) :
    (fill ((ordered m).map fun entry => (entry.1, change entry.2)) start).lookup key =
      ((m.lookup key).map change).or (start.lookup key) := by
  have keys : ((ordered m).map fun entry => (entry.1, change entry.2)).map Prod.fst =
      (ordered m).map Prod.fst := by
    rw [List.map_map]
    rfl
  cases there : m.lookup key with
  | some value =>
      refine lookup_fill_of_mem _ start (by rw [keys]; exact ordered_nodup m) ?_
      exact List.mem_map.mpr ⟨(key, value), mem_ordered.mpr there, rfl⟩
  | none =>
      refine lookup_fill_of_not_mem _ start ?_
      rw [keys, ordered_keys, Finset.mem_sort, Finmap.mem_keys]
      exact Finmap.lookup_eq_none.mp there

theorem emplace_all (entries : List (K × V)) : ∀ m : Map K V, (entries.map Prod.fst).Nodup →
    (∀ key ∈ entries.map Prod.fst, key ∉ m) → entries.foldl emplace m = fill entries m := by
  induction entries with
  | nil =>
      intro m _ _
      rfl
  | cons entry rest emplaced =>
      intro m nodup absent
      obtain ⟨once, nodup⟩ := List.nodup_cons.mp nodup
      have first : emplace m entry = m.insert entry.1 entry.2 :=
        if_neg (absent entry.1 (by simp))
      rw [List.foldl_cons, first, emplaced _ nodup]
      · rfl
      · intro key mem there
        obtain rfl | there := Finmap.mem_insert.mp there
        · exact once mem
        · exact absent key (List.mem_cons_of_mem _ mem) there

theorem emplace_ordered (m : Map K V) : (ordered m).foldl emplace ∅ = m := by
  rw [emplace_all _ _ (ordered_nodup m) fun key _ => Finmap.notMem_empty]
  refine Finmap.ext_lookup fun key => ?_
  have filled := lookup_fill_ordered m id ∅ key
  rw [show (fun entry : K × V => (entry.1, id entry.2)) = id from rfl, List.map_id] at filled
  simpa using filled

end Maps

/-! ## Records over growing tables -/

section Records

variable {T E R X : Type} {add : T → E → T} {Grows : T → T → Prop} {records : T → List R}
  {read : T → R → X} {value : E → X}

/-- If every entry adds one record that is read back from every grown table, then so do all. -/
theorem fold_read_back (refl : ∀ t, Grows t t)
    (trans : ∀ {t t' t''}, Grows t t' → Grows t' t'' → Grows t t'') (entries : List E)
    (step : ∀ t, ∀ e ∈ entries, Grows t (add t e) ∧ ∃ r, records (add t e) = records t ++ [r] ∧
      ∀ t', Grows (add t e) t' → read t' r = value e) : ∀ t,
    Grows t (entries.foldl add t) ∧ ∃ recs, records (entries.foldl add t) = records t ++ recs ∧
      recs.length = entries.length ∧
      ∀ t', Grows (entries.foldl add t) t' → recs.map (read t') = entries.map value := by
  induction entries with
  | nil => exact fun t => ⟨refl t, [], by simp, rfl, fun _ _ => rfl⟩
  | cons e rest induction =>
      intro t
      obtain ⟨grown, r, added, reads⟩ := step t e List.mem_cons_self
      obtain ⟨later, recs, more, length, same⟩ :=
        induction (fun t e mem => step t e (List.mem_cons_of_mem _ mem)) (add t e)
      refine ⟨trans grown later, r :: recs, ?_, by simp [length], fun t' grows => ?_⟩
      · rw [List.foldl_cons, more, added, List.append_assoc]
        rfl
      · rw [List.map_cons, List.map_cons, reads t' (trans later grows), same t' grows]

end Records

end ProtoScala.Library.RecordTables
