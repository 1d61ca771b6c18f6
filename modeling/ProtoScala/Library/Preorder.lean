import Mathlib.Data.List.Basic

/-!
# Trees in preorder

A tree is written as the list of its nodes in preorder, each with the position of its parent.
It is attached again from the last position to the first: a node takes its children in
ascending order, and each of them has taken its own before.
-/

namespace ProtoScala.Library.Preorder

set_option autoImplicit false

inductive Tree (α : Type) where
  | node (value : α) (blocks : List (Tree α))

variable {α : Type}

namespace Tree

def value : Tree α → α
  | .node value _ => value

def blocks : Tree α → List (Tree α)
  | .node _ blocks => blocks

/-- The node alone. -/
def bare (t : Tree α) : Tree α := .node t.value []

def addBlocks (t : Tree α) (more : List (Tree α)) : Tree α := .node t.value (t.blocks ++ more)

theorem bare_add_blocks (t : Tree α) : t.bare.addBlocks t.blocks = t := by
  cases t
  rfl

end Tree

mutual

/-- The subtrees in preorder from the position `self` on, each with its parent's position. -/
def marked : Tree α → Int → Nat → List (Int × Tree α)
  | .node value blocks, parent, self =>
      (parent, .node value blocks) :: markedAll blocks self (self + 1)

def markedAll : List (Tree α) → Nat → Nat → List (Int × Tree α)
  | [], _, _ => []
  | t :: blocks, parent, self =>
      marked t parent self ++ markedAll blocks parent (self + (marked t parent self).length)

end

/-- The nodes in preorder. -/
def flatten (t : Tree α) (parent : Int) (self : Nat) : List (Int × α) :=
  (marked t parent self).map fun entry => (entry.1, entry.2.value)

/-- The positions behind the first one that name `i` as their parent, in ascending order. -/
def childrenOf (parents : List Int) (i : Nat) : List Nat :=
  parents.zipIdx.filterMap fun (parent, j) => if 0 < j ∧ parent = (i : Int) then some j else none

def adopt (parents : List Int) (built : List (Tree α)) (i : Nat) : List (Tree α) :=
  built.modify i fun t => t.addBlocks ((childrenOf parents i).filterMap fun j => built[j]?)

/-- The loop over the positions, the last one first. -/
def adoptAll (parents : List Int) : Nat → List (Tree α) → List (Tree α)
  | 0, built => built
  | i + 1, built => adoptAll parents i (adopt parents built i)

def attach (nodes : List (Int × α)) : Option (Tree α) :=
  (adoptAll (nodes.map Prod.fst) nodes.length (nodes.map fun entry => .node entry.2 []))[0]?

/-! ## Positions -/

mutual

theorem marked_length : ∀ (t : Tree α) (parent parent' : Int) (self self' : Nat),
    (marked t parent self).length = (marked t parent' self').length
  | .node _ blocks, _, _, self, self' => by
      simp only [marked, List.length_cons, Nat.add_right_cancel_iff]
      exact marked_all_length blocks self self' (self + 1) (self' + 1)

theorem marked_all_length : ∀ (blocks : List (Tree α)) (parent parent' self self' : Nat),
    (markedAll blocks parent self).length = (markedAll blocks parent' self').length
  | [], _, _, _, _ => rfl
  | t :: blocks, parent, parent', self, self' => by
      simp only [markedAll, List.length_append]
      rw [marked_length t parent parent' self self', marked_all_length blocks parent parent']

end

/-- The parents of the subtrees of `t` are the one of `t` and positions inside of it. -/
def Within (entries : List (Int × Tree α)) (parent : Int) (self size : Nat) : Prop :=
  ∀ entry ∈ entries, entry.1 = parent ∨ (self : Int) ≤ entry.1 ∧ entry.1 < self + size

mutual

theorem marked_within : ∀ (t : Tree α) (parent : Int) (self : Nat),
    Within (marked t parent self) parent self (marked t parent self).length
  | .node value blocks, parent, self => by
      intro entry mem
      simp only [marked, List.mem_cons, List.length_cons] at mem ⊢
      rcases mem with rfl | mem
      · exact .inl rfl
      · have inside := marked_all_within blocks self (self + 1) entry mem
        refine .inr ?_
        push_cast at inside ⊢
        omega

theorem marked_all_within : ∀ (blocks : List (Tree α)) (parent self : Nat),
    Within (markedAll blocks parent self) parent self (markedAll blocks parent self).length
  | [], _, _ => by
      intro entry mem
      cases mem
  | t :: blocks, parent, self => by
      intro entry mem
      simp only [markedAll, List.mem_append, List.length_append] at mem ⊢
      push_cast
      rcases mem with mem | mem
      · have inside := marked_within t parent self entry mem
        omega
      · have inside := marked_all_within blocks parent _ entry mem
        push_cast at inside
        omega

end

/-- The subtrees that name `i` as their parent. -/
def named (entries : List (Int × Tree α)) (i : Nat) : List (Tree α) :=
  entries.filterMap fun entry => if entry.1 = (i : Int) then some entry.2 else none

theorem named_append (entries more : List (Int × Tree α)) (i : Nat) :
    named (entries ++ more) i = named entries i ++ named more i := by
  simp [named]

theorem named_none {entries : List (Int × Tree α)} {i : Nat}
    (other : ∀ entry ∈ entries, entry.1 ≠ (i : Int)) : named entries i = [] := by
  simp only [named, List.filterMap_eq_nil_iff]
  intro entry mem
  rw [if_neg (other entry mem)]

theorem named_all : ∀ (blocks : List (Tree α)) (parent self : Nat), parent < self →
    named (markedAll blocks parent self) parent = blocks
  | [], _, _, _ => rfl
  | .node value inner :: blocks, parent, self, before => by
      have rest : named (markedAll inner self (self + 1)) parent = [] := by
        refine named_none fun entry mem => ?_
        have inside := marked_all_within inner self (self + 1) entry mem
        omega
      have first : named (marked (.node value inner) parent self) parent =
          [.node value inner] := by
        rw [marked, named, List.filterMap_cons, if_pos rfl]
        exact congrArg _ rest
      rw [markedAll, named_append, first, named_all blocks parent _ (by omega)]
      rfl

/-- The entries of `t` stand at its position, and no other entry names a position of them. -/
structure Located (entries before : List (Int × Tree α)) (middle after : List (Int × Tree α))
    (parent : Int) : Prop where
  here : entries = before ++ middle ++ after
  earlier : ∀ entry ∈ before, entry.1 < (before.length : Int)
  above : parent < (before.length : Int)
  later : ∀ entry ∈ after, entry.1 < (before.length : Int) ∨
    (before.length + middle.length : Int) ≤ entry.1

theorem located_named {entries before after : List (Int × Tree α)} {parent : Int} {t : Tree α}
    (located : Located entries before (marked t parent before.length) after parent) :
    named entries before.length = t.blocks := by
  obtain ⟨value, blocks⟩ := t
  have middle : named (marked (.node value blocks) parent before.length) before.length = blocks := by
    rw [marked, named, List.filterMap_cons, if_neg (by have := located.above; simp; omega)]
    exact named_all blocks before.length (before.length + 1) (by omega)
  have front : named before before.length = [] :=
    named_none fun entry mem => by have := located.earlier entry mem; omega
  have back : named after before.length = [] := by
    refine named_none fun entry mem => ?_
    have := located.later entry mem
    simp only [marked, List.length_cons] at this
    push_cast at this
    omega
  rw [located.here, named_append, named_append, front, middle, back]
  simp [Tree.blocks]

theorem located_blocks {entries before after : List (Int × Tree α)} {parent : Int} {value : α}
    {blocks : List (Tree α)}
    (located : Located entries before (marked (.node value blocks) parent before.length) after
      parent) :
    Located entries (before ++ [(parent, Tree.node value blocks)])
      (markedAll blocks before.length (before.length + 1)) after before.length := by
  obtain ⟨here, earlier, above, later⟩ := located
  refine ⟨?_, fun entry mem => ?_, ?_, fun entry mem => ?_⟩
  · rw [here]
    simp [marked]
  · simp only [List.mem_append, List.mem_singleton, List.length_append,
      List.length_singleton] at mem ⊢
    push_cast
    rcases mem with mem | rfl
    · have := earlier entry mem
      omega
    · simp only
      omega
  · rw [List.length_append, List.length_singleton]
    omega
  · have := later entry mem
    simp only [marked, List.length_cons, List.length_append, List.length_nil] at this ⊢
    push_cast at this ⊢
    omega

theorem located_first {entries before after : List (Int × Tree α)} {parent : Nat} {t : Tree α}
    {blocks : List (Tree α)}
    (located : Located entries before (markedAll (t :: blocks) parent before.length) after parent) :
    Located entries before (marked t parent before.length)
      (markedAll blocks parent (before.length + (marked t parent before.length).length) ++ after)
      parent := by
  obtain ⟨here, earlier, above, later⟩ := located
  refine ⟨by rw [here]; simp [markedAll], earlier, above, fun entry mem => ?_⟩
  rcases List.mem_append.mp mem with mem | mem
  · have := marked_all_within blocks parent _ entry mem
    push_cast at this
    omega
  · have := later entry mem
    simp only [markedAll, List.length_append] at this
    push_cast at this
    omega

theorem located_rest {entries before after : List (Int × Tree α)} {parent : Nat} {t : Tree α}
    {blocks : List (Tree α)}
    (located : Located entries before (markedAll (t :: blocks) parent before.length) after parent) :
    Located entries (before ++ marked t parent before.length)
      (markedAll blocks parent (before ++ marked t parent before.length).length) after parent := by
  obtain ⟨here, earlier, above, later⟩ := located
  refine ⟨by rw [here]; simp [markedAll], fun entry mem => ?_, ?_, fun entry mem => ?_⟩
  · simp only [List.length_append]
    push_cast
    rcases List.mem_append.mp mem with mem | mem
    · have := earlier entry mem
      omega
    · have := marked_within t parent before.length entry mem
      omega
  · simp only [List.length_append]
    push_cast
    omega
  · have := later entry mem
    simp only [markedAll, List.length_append] at this ⊢
    push_cast at this ⊢
    omega

mutual

/-- At every position of a located tree, its parent stands before it and the entries that name it
are its blocks. -/
theorem named_at : ∀ (t : Tree α) (parent : Int) {entries before after : List (Int × Tree α)},
    Located entries before (marked t parent before.length) after parent →
    ∀ (j : Nat) (entry : Int × Tree α), (marked t parent before.length)[j]? = some entry →
      entry.1 < (before.length + j : Int) ∧
        named entries (before.length + j) = entry.2.blocks
  | .node value blocks, parent, entries, before, after, located, j, entry, at_ => by
      cases j with
      | zero =>
          simp only [marked, List.getElem?_cons_zero, Option.some.injEq] at at_
          subst at_
          exact ⟨by simpa using located.above, located_named located⟩
      | succ j =>
          simp only [marked, List.getElem?_cons_succ] at at_
          have length : (before ++ [(parent, Tree.node value blocks)]).length =
              before.length + 1 := by simp
          have inner := located_blocks located
          rw [← length] at inner at_
          obtain ⟨above, result⟩ := named_all_at blocks before.length inner j entry at_
          rw [length] at above result
          refine ⟨by push_cast at above ⊢; omega, ?_⟩
          rw [← result]
          congr 1
          omega

theorem named_all_at : ∀ (blocks : List (Tree α)) (parent : Nat)
    {entries before after : List (Int × Tree α)},
    Located entries before (markedAll blocks parent before.length) after parent →
    ∀ (j : Nat) (entry : Int × Tree α),
      (markedAll blocks parent before.length)[j]? = some entry →
      entry.1 < (before.length + j : Int) ∧
        named entries (before.length + j) = entry.2.blocks
  | [], _, _, _, _, _, _, _, at_ => by simp [markedAll] at at_
  | t :: blocks, parent, entries, before, after, located, j, entry, at_ => by
      have first := located_first located
      have rest := located_rest located
      rw [markedAll] at at_
      by_cases inFirst : j < (marked t parent before.length).length
      · rw [List.getElem?_append_left inFirst] at at_
        exact named_at t parent first j entry at_
      · rw [List.getElem?_append_right (by omega)] at at_
        obtain ⟨above, result⟩ := named_all_at blocks parent rest
          (j - (marked t parent before.length).length) entry
          (by rw [List.length_append]; exact at_)
        rw [List.length_append] at above result
        refine ⟨by omega, ?_⟩
        rw [← result]
        congr 1
        omega

end

/-! ## The round trip -/

theorem children_select (parents : List Int) (trees before : List (Tree α)) (i : Nat)
    (same : parents.length = trees.length) (start : before ≠ []) :
    ((parents.zipIdx before.length).filterMap fun (parent, j) =>
        if 0 < j ∧ parent = (i : Int) then some j else none).filterMap
      (fun j => (before ++ trees)[j]?) = named (parents.zip trees) i := by
  induction parents generalizing trees before with
  | nil => simp [named]
  | cons parent parents select =>
      cases trees with
      | nil => simp at same
      | cons t trees =>
          have positive : 0 < before.length := List.length_pos_of_ne_nil start
          have more := select trees (before ++ [t]) (by simpa using same) (by simp)
          simp only [List.length_append, List.length_singleton, List.append_assoc,
            List.singleton_append] at more
          rw [List.zipIdx_cons, List.filterMap_cons, List.zip_cons_cons, named, List.filterMap_cons]
          by_cases mine : parent = (i : Int)
          · simp only [mine, positive, and_self, if_true, List.filterMap_cons]
            rw [List.getElem?_append_right (Nat.le_refl _), Nat.sub_self, List.getElem?_cons_zero]
            exact congrArg _ more
          · simp only [mine, and_false, if_false]
            exact more

/-- The children of a position, looked up among the subtrees. -/
theorem children_of_marked (t : Tree α) (i : Nat) :
    (childrenOf ((marked t (-1) 0).map Prod.fst) i).filterMap
      (fun j => ((marked t (-1) 0).map Prod.snd)[j]?) = named (marked t (-1) 0) i := by
  obtain ⟨value, blocks⟩ := t
  have rest := children_select ((markedAll blocks 0 1).map Prod.fst)
    ((markedAll blocks 0 1).map Prod.snd) [Tree.node value blocks] i (by simp) (by simp)
  have root : ¬((-1 : Int) = (i : Int)) := by omega
  simp only [marked, childrenOf, named, List.map_cons, List.zipIdx_cons, List.filterMap_cons, root,
    and_false, if_false]
  refine rest.trans ?_
  rw [← List.zip_of_prod rfl rfl]
  rfl

theorem marked_at {t : Tree α} {i : Nat} {entry : Int × Tree α}
    (at_ : (marked t (-1) 0)[i]? = some entry) :
    entry.1 < (i : Int) ∧ named (marked t (-1) 0) i = entry.2.blocks := by
  have located : Located (marked t (-1) 0) [] (marked t (-1) ([] : List (Int × Tree α)).length) []
      (-1) := ⟨by simp, by simp, by simp, by simp⟩
  simpa using named_at t (-1) located i entry at_

theorem mem_children {parents : List Int} {i j : Nat} (mem : j ∈ childrenOf parents i) :
    parents[j]? = some (i : Int) := by
  obtain ⟨⟨parent, k⟩, there, chosen⟩ := List.mem_filterMap.mp mem
  simp only [Option.ite_none_right_eq_some, Option.some.injEq] at chosen
  obtain ⟨⟨_, rfl⟩, rfl⟩ := chosen
  exact (List.mem_zipIdx_iff_getElem?.mp there)

/-- The trees when the positions from `k` on have taken their children. -/
def attached (t : Tree α) (k : Nat) : List (Tree α) :=
  let trees := (marked t (-1) 0).map Prod.snd
  (trees.take k).map Tree.bare ++ trees.drop k

theorem attached_at (t : Tree α) (k j : Nat) :
    (attached t k)[j]? = ((marked t (-1) 0)[j]?).map fun entry =>
      if j < k then entry.2.bare else entry.2 := by
  rw [attached]
  by_cases early : j < k
  · cases at_ : (marked t (-1) 0)[j]? with
    | some entry =>
        have inside := (List.getElem?_eq_some_iff.mp at_).1
        rw [List.getElem?_append_left (by simp; omega)]
        simp [at_, early]
    | none =>
        have outside := List.getElem?_eq_none_iff.mp at_
        simp only [Option.map_none, List.getElem?_eq_none_iff, List.length_append, List.length_map,
          List.length_take, List.length_drop]
        omega
  · by_cases inside : k ≤ (marked t (-1) 0).length
    · rw [List.getElem?_append_right (by simp; omega)]
      simp only [List.length_map, List.length_take, List.getElem?_drop, List.getElem?_map, early,
        if_false]
      congr 2
      omega
    · have at_ : (marked t (-1) 0)[j]? = none := List.getElem?_eq_none_iff.mpr (by omega)
      simp only [at_, Option.map_none, List.getElem?_eq_none_iff, List.length_append,
        List.length_map, List.length_take, List.length_drop]
      omega

theorem adopt_attached (t : Tree α) (k : Nat) :
    adopt ((marked t (-1) 0).map Prod.fst) (attached t (k + 1)) k = attached t k := by
  have taken : ∀ entry, (marked t (-1) 0)[k]? = some entry →
      ((childrenOf ((marked t (-1) 0).map Prod.fst) k).filterMap fun j => (attached t (k + 1))[j]?) =
        entry.2.blocks := by
    intro entry at_
    rw [← (marked_at at_).2, ← children_of_marked]
    refine List.filterMap_congr fun j mem => ?_
    have parent := mem_children mem
    rw [List.getElem?_map] at parent
    obtain ⟨child, there, same⟩ := Option.map_eq_some_iff.mp parent
    have before := (marked_at there).1
    rw [attached_at, there, List.getElem?_map, there]
    simp only [Option.map_some, Option.some.injEq]
    rw [if_neg (by omega)]
  refine List.ext_getElem? fun j => ?_
  rw [adopt, List.getElem?_modify, attached_at, attached_at]
  cases at_ : (marked t (-1) 0)[j]? with
  | none => simp
  | some entry =>
      by_cases same : k = j
      · subst same
        simp only [Option.map_some, if_pos, Nat.lt_succ_self, Nat.lt_irrefl, if_false,
          Option.map_eq_map]
        rw [taken entry at_, Tree.bare_add_blocks]
      · simp only [Option.map_some, same, if_false, Option.map_eq_map]
        by_cases early : j < k
        · simp [early, Nat.lt_succ_of_lt early]
        · rw [if_neg early, if_neg (by omega)]

theorem adopt_all_attached (t : Tree α) (k : Nat) :
    adoptAll ((marked t (-1) 0).map Prod.fst) k (attached t k) = attached t 0 := by
  induction k with
  | zero => rfl
  | succ k rest => rw [adoptAll, adopt_attached, rest]

/-- Attaching the nodes of a tree again gives the tree. -/
theorem attach_flatten (t : Tree α) : attach (flatten t (-1) 0) = some t := by
  have start : ((flatten t (-1) 0).map fun entry => Tree.node entry.2 []) =
      attached t (marked t (-1) 0).length := by
    simp [flatten, attached, Function.comp_def, Tree.bare, List.take_of_length_le]
  have parents : (flatten t (-1) 0).map Prod.fst = (marked t (-1) 0).map Prod.fst := by
    simp [flatten]
  have length : (flatten t (-1) 0).length = (marked t (-1) 0).length := by simp [flatten]
  rw [attach, start, parents, length, adopt_all_attached, attached_at]
  cases t
  simp [marked]

/-- In the preorder of a tree, the first node alone has no parent before it. -/
theorem flatten_parents (t : Tree α) {i : Nat} {entry : Int × α}
    (at_ : (flatten t (-1) 0)[i]? = some entry) :
    entry.1 < (i : Int) ∧ (0 < i → 0 ≤ entry.1) ∧ (i = 0 → entry.1 = -1) := by
  rw [flatten, List.getElem?_map] at at_
  obtain ⟨marked_, there, rfl⟩ := Option.map_eq_some_iff.mp at_
  refine ⟨(marked_at there).1, fun positive => ?_, ?_⟩
  · obtain ⟨value, blocks⟩ := t
    obtain ⟨i, rfl⟩ := Nat.exists_eq_succ_of_ne_zero (Nat.pos_iff_ne_zero.mp positive)
    simp only [marked, List.getElem?_cons_succ] at there
    have inside := marked_all_within blocks 0 1 _ (List.mem_of_getElem? there)
    simp only
    omega
  · rintro rfl
    cases t
    simp only [marked, List.getElem?_cons_zero, Option.some.injEq] at there
    rw [← there]

end ProtoScala.Library.Preorder
