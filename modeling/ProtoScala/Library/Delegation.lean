import Mathlib.Order.WellFoundedSet

/-!
# Chains of delegation

Every node hands on to at most one other. A node ends when following it comes to a node
that hands on to none; among finitely many nodes all of them end exactly when no node
comes back to itself.
-/

namespace ProtoScala.Library.Delegation

set_option autoImplicit false

variable {Node : Type*} (next : Node → Option Node)

def HandsOn (node other : Node) : Prop := next node = some other

inductive Ends : Node → Prop where
  | last {node : Node} (none : next node = none) : Ends node
  | onward {node other : Node} (some : next node = some other) (later : Ends other) : Ends node

variable {next}

theorem not_cycle_of_ends {node : Node} (ends : Ends next node) :
    ¬Relation.TransGen (HandsOn next) node node := by
  induction ends with
  | last none =>
    intro cycle
    obtain ⟨other, step, -⟩ := Relation.TransGen.head'_iff.mp cycle
    exact absurd (none.symm.trans step) (by simp)
  | onward some later ih =>
    intro cycle
    obtain ⟨other, step, back⟩ := Relation.TransGen.head'_iff.mp cycle
    cases Option.some.inj (some.symm.trans step)
    exact ih (Relation.TransGen.tail' back some)

/-- Without a cycle every node ends, by induction along the chains: finitely many nodes
are well-founded under a relation that never comes back. -/
theorem ends_of_not_cycle {nodes : Set Node} (finite : nodes.Finite)
    (closed : ∀ node ∈ nodes, ∀ other, next node = some other → other ∈ nodes)
    (acyclic : ∀ node ∈ nodes, ¬Relation.TransGen (HandsOn next) node node) :
    ∀ node ∈ nodes, Ends next node := by
  let below : Node → Node → Prop := fun low high =>
    low ∈ nodes ∧ high ∈ nodes ∧ Relation.TransGen (HandsOn next) high low
  have strict : IsStrictOrder Node below :=
    { irrefl := fun node cycle => acyclic node cycle.1 cycle.2.2
      trans := fun _ _ _ first second => ⟨first.1, second.2.1, second.2.2.trans first.2.2⟩ }
  intro node member
  refine finite.wellFoundedOn.induction (r := below) member ?_
  intro node member lower
  cases shape : next node with
  | none => exact .last shape
  | some other =>
    have inside := closed node member other shape
    exact .onward shape (lower other inside ⟨inside, member, .single shape⟩)

theorem ends_iff_not_cycle {nodes : Set Node} (finite : nodes.Finite)
    (closed : ∀ node ∈ nodes, ∀ other, next node = some other → other ∈ nodes) :
    (∀ node ∈ nodes, Ends next node) ↔
      ∀ node ∈ nodes, ¬Relation.TransGen (HandsOn next) node node :=
  ⟨fun ends node member => not_cycle_of_ends (ends node member), ends_of_not_cycle finite closed⟩

end ProtoScala.Library.Delegation
