import Mathlib.Data.List.Basic
import Mathlib.Data.List.Nodup

/-!
# Outlines

An outline is a list of items; an item is a leaf, or a node with a head and items of its
own. A position lists the indices that lead to a node. `positions` has every node once,
the nodes inside a node before it.

`walk` visits the nodes in that order with a context that grows from the outside in, and
`located` computes the same context for a single position.
-/

namespace ProtoScala.Library.Outlines

set_option autoImplicit false

inductive Item (Leaf Head : Type) where
  | leaf (l : Leaf)
  | node (head : Head) (items : List (Item Leaf Head))

section Positions

variable {Leaf Head : Type}

/-- The same position one item further on. -/
def next : List Nat → List Nat
  | [] => []
  | i :: p => (i + 1) :: p

mutual

/-- Positions in an item, its own last. -/
def within : Item Leaf Head → List (List Nat)
  | .leaf _ => []
  | .node _ items => positions items ++ [[]]

def positions : List (Item Leaf Head) → List (List Nat)
  | [] => []
  | item :: items => (within item).map (0 :: ·) ++ (positions items).map next

end

theorem next_injective : Function.Injective next := by
  intro p q h
  cases p with
  | nil =>
      cases q with
      | nil => rfl
      | cons j q => cases h
  | cons i p =>
      cases q with
      | nil => cases h
      | cons j q =>
          simp only [next, List.cons.injEq, Nat.add_right_cancel_iff] at h
          rw [h.1, h.2]

theorem positions_nonempty (items : List (Item Leaf Head)) : [] ∉ positions items := by
  induction items with
  | nil => simp [positions]
  | cons item items ih =>
      intro hmem
      simp only [positions, List.mem_append, List.mem_map] at hmem
      rcases hmem with ⟨p, _, hp⟩ | ⟨p, hmem, hp⟩
      · cases hp
      · cases p with
        | nil => exact ih hmem
        | cons i p => cases hp

mutual

theorem within_nodup (item : Item Leaf Head) : (within item).Nodup := by
  cases item with
  | leaf l => simp [within]
  | node head items =>
      rw [within, List.nodup_append]
      refine ⟨positions_nodup items, by simp, ?_⟩
      intro p hp q hq
      simp only [List.mem_singleton] at hq
      subst hq
      rintro rfl
      exact positions_nonempty items hp

/-- No node has two positions in the list. -/
theorem positions_nodup (items : List (Item Leaf Head)) : (positions items).Nodup := by
  cases items with
  | nil => simp [positions]
  | cons item items =>
      rw [positions, List.nodup_append]
      refine ⟨(within_nodup item).map fun p q h => (List.cons.inj h).2,
        (positions_nodup items).map next_injective, ?_⟩
      intro p hp q hq
      simp only [List.mem_map] at hp hq
      obtain ⟨p, _, rfl⟩ := hp
      obtain ⟨q, _, rfl⟩ := hq
      cases q with
      | nil => simp [next]
      | cons j q => simp [next]

end

end Positions

section Contexts

variable {Leaf Head C : Type} (enter : C → Head → List (Item Leaf Head) → C)

/-- A node with the context of the list it stands in. -/
def located : C → List (Item Leaf Head) → List Nat →
    Option (C × Head × List (Item Leaf Head))
  | _, _, [] => none
  | c, items, i :: p =>
    match items[i]? with
    | some (.node head inner) =>
      if p = [] then some (c, head, inner) else located (enter c head inner) inner p
    | _ => none

mutual

def walkItem (c : C) : Item Leaf Head → List (C × Head × List (Item Leaf Head))
  | .leaf _ => []
  | .node head items => walk (enter c head items) items ++ [(c, head, items)]

/-- Every node with its context, the nodes inside a node before it. -/
def walk (c : C) : List (Item Leaf Head) → List (C × Head × List (Item Leaf Head))
  | [] => []
  | item :: items => walkItem c item ++ walk c items

end

/-- The nodes of a list that are not the list's own. -/
def walkInside (c : C) : List (Item Leaf Head) → List (C × Head × List (Item Leaf Head))
  | [] => []
  | .leaf _ :: items => walkInside c items
  | .node head inner :: items => walk enter (enter c head inner) inner ++ walkInside c items

theorem located_next (c : C) (item : Item Leaf Head) (items : List (Item Leaf Head))
    {p : List Nat} (hne : p ≠ []) :
    located enter c (item :: items) (next p) = located enter c items p := by
  cases p with
  | nil => exact absurd rfl hne
  | cons i p => simp only [next, located, List.getElem?_cons_succ]

theorem located_first (c : C) (head : Head) (inner items : List (Item Leaf Head)) {p : List Nat}
    (hne : p ≠ []) :
    located enter c (.node head inner :: items) (0 :: p) =
      located enter (enter c head inner) inner p := by
  simp only [located, List.getElem?_cons_zero, if_neg hne]

theorem located_next_all (c : C) (item : Item Leaf Head) (items : List (Item Leaf Head))
    {ps : List (List Nat)} (hne : [] ∉ ps) :
    (ps.map next).map (located enter c (item :: items)) = ps.map (located enter c items) := by
  rw [List.map_map]
  refine List.map_congr_left fun p hp => ?_
  exact located_next enter c item items fun hnil => hne (hnil ▸ hp)

theorem located_first_all (c : C) (head : Head) (inner items : List (Item Leaf Head))
    {ps : List (List Nat)} (hne : [] ∉ ps) :
    (ps.map (0 :: ·)).map (located enter c (.node head inner :: items)) =
      ps.map (located enter (enter c head inner) inner) := by
  rw [List.map_map]
  refine List.map_congr_left fun p hp => ?_
  exact located_first enter c head inner items fun hnil => hne (hnil ▸ hp)

mutual

theorem within_located (c : C) (item : Item Leaf Head) (items : List (Item Leaf Head)) :
    ((within item).map (0 :: ·)).map (located enter c (item :: items)) =
      (walkItem enter c item).map some := by
  cases item with
  | leaf l => rfl
  | node head inner =>
      rw [within, walkItem, List.map_append, List.map_append, List.map_append,
        located_first_all enter c head inner items (positions_nonempty inner),
        positions_located (enter c head inner) inner]
      rfl

/-- The positions of an outline are located where `walk` visits them. -/
theorem positions_located (c : C) (items : List (Item Leaf Head)) :
    (positions items).map (located enter c items) = (walk enter c items).map some := by
  cases items with
  | nil => rfl
  | cons item items =>
      rw [positions, walk, List.map_append, List.map_append,
        located_next_all enter c item items (positions_nonempty items),
        within_located c item items, positions_located c items]

end

theorem mem_positions_at {items inner : List (Item Leaf Head)} {head : Head} {i : Nat}
    (hnode : items[i]? = some (.node head inner)) {p : List Nat}
    (hinside : p = [] ∨ p ∈ positions inner) : i :: p ∈ positions items := by
  induction items generalizing i with
  | nil => simp at hnode
  | cons item items ih =>
      rw [positions, List.mem_append]
      cases i with
      | zero =>
          simp only [List.getElem?_cons_zero, Option.some.injEq] at hnode
          subst hnode
          refine .inl (List.mem_map_of_mem ?_)
          rw [within, List.mem_append, List.mem_singleton]
          exact hinside.symm
      | succ i =>
          simp only [List.getElem?_cons_succ] at hnode
          exact .inr (List.mem_map.mpr ⟨i :: p, ih hnode, rfl⟩)

/-- The positions are exactly the places where a node stands. -/
theorem mem_positions (c : C) (items : List (Item Leaf Head)) (p : List Nat) :
    p ∈ positions items ↔ (located enter c items p).isSome = true := by
  constructor
  · intro hp
    have hmem := List.mem_map_of_mem (f := located enter c items) hp
    rw [positions_located] at hmem
    obtain ⟨found, _, hfound⟩ := List.mem_map.mp hmem
    rw [← hfound]
    rfl
  · induction p generalizing c items with
    | nil => simp [located]
    | cons i p ih =>
        intro hsome
        rw [located] at hsome
        split at hsome
        · rename_i head inner hnode
          refine mem_positions_at hnode ?_
          by_cases hp : p = []
          · exact .inl hp
          · rw [if_neg hp] at hsome
            exact .inr (ih _ _ hsome)
        · cases hsome

/-- Positions of the nodes that stand inside another one. -/
def nested (items : List (Item Leaf Head)) : List (List Nat) :=
  (positions items).filter fun p => 2 ≤ p.length

theorem nested_nodup (items : List (Item Leaf Head)) : (nested items).Nodup :=
  (positions_nodup items).filter _

theorem nested_first (item : Item Leaf Head) (items : List (Item Leaf Head)) :
    nested (item :: items) =
      ((within item).map (0 :: ·)).filter (fun p => 2 ≤ p.length) ++ (nested items).map next := by
  have hlength : ∀ p : List Nat, (next p).length = p.length := by
    intro p
    cases p <;> rfl
  have hrest : ((positions items).map next).filter (fun p => decide (2 ≤ p.length)) =
      ((positions items).filter fun p => decide (2 ≤ p.length)).map next := by
    rw [List.filter_map]
    simp only [Function.comp_def, hlength]
  rw [nested, positions, List.filter_append, nested, hrest]

theorem within_nested (head : Head) (inner : List (Item Leaf Head)) :
    ((within (.node head inner)).map (0 :: ·)).filter (fun p => 2 ≤ p.length) =
      (positions inner).map (0 :: ·) := by
  rw [within, List.map_append, List.filter_append]
  have hlong : ((positions inner).map (0 :: ·)).filter (fun p => decide (2 ≤ p.length)) =
      (positions inner).map (0 :: ·) := by
    rw [List.filter_eq_self]
    intro q hq
    obtain ⟨p, hp, rfl⟩ := List.mem_map.mp hq
    cases p with
    | nil => exact absurd hp (positions_nonempty inner)
    | cons i p => simp
  rw [hlong]
  simp

/-- The nodes inside others are located where `walkInside` visits them. -/
theorem nested_located (c : C) (items : List (Item Leaf Head)) :
    (nested items).map (located enter c items) = (walkInside enter c items).map some := by
  have hne : ∀ items : List (Item Leaf Head), [] ∉ nested items := by
    intro items hmem
    exact positions_nonempty items (List.mem_of_mem_filter hmem)
  induction items with
  | nil => rfl
  | cons item items ih =>
      rw [nested_first, List.map_append, located_next_all enter c item items (hne items), ih]
      cases item with
      | leaf l => rfl
      | node head inner =>
          rw [within_nested, located_first_all enter c head inner items (positions_nonempty inner),
            positions_located, walkInside, List.map_append]

end Contexts

end ProtoScala.Library.Outlines
