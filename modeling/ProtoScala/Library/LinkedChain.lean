import Mathlib.Data.List.Basic

/-!
# Chains of links

A singly linked list in a store: from `start`, the links `next` lead through the
cells of `chain` in order and end in `nil`.
-/

namespace ProtoScala.Library.LinkedChain

set_option autoImplicit false

variable {Cell : Type}

def Linked (next : Cell → Cell) (nil : Cell) : Cell → List Cell → Prop
  | start, [] => start = nil
  | start, cell :: rest => start = cell ∧ cell ≠ nil ∧ Linked next nil (next cell) rest

/-- A store that keeps the links of the chain's own cells keeps the chain. -/
theorem linked_congr {next next' : Cell → Cell} {nil start : Cell} {chain : List Cell}
    (linked : Linked next nil start chain)
    (kept : ∀ cell ∈ chain, next' cell = next cell) : Linked next' nil start chain := by
  induction chain generalizing start with
  | nil => exact linked
  | cons cell rest induction =>
      obtain ⟨head, real, tail⟩ := linked
      refine ⟨head, real, ?_⟩
      rw [kept cell List.mem_cons_self]
      apply induction tail
      intro other member
      exact kept other (List.mem_cons_of_mem cell member)

/-- A chain that does not start at `nil` has its start as first cell. -/
theorem linked_uncons {next : Cell → Cell} {nil start : Cell} {chain : List Cell}
    (linked : Linked next nil start chain) (real : start ≠ nil) :
    ∃ rest, chain = start :: rest ∧ Linked next nil (next start) rest := by
  cases chain with
  | nil => exact absurd linked real
  | cons cell rest =>
      obtain ⟨rfl, -, tail⟩ := linked
      exact ⟨rest, rfl, tail⟩

theorem linked_nil {next : Cell → Cell} {nil : Cell} {chain : List Cell}
    (linked : Linked next nil nil chain) : chain = [] := by
  cases chain with
  | nil => rfl
  | cons cell rest => exact absurd linked.1.symm linked.2.1

end ProtoScala.Library.LinkedChain
