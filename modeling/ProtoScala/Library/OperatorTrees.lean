import Mathlib.Data.List.Basic

/-!
# Trees of binary operators

A tree over operands `E` and operators `O` is read from left to right as an operand
followed by pairs of an operator and an operand. `Grouped` says that the tree follows
the levels and the associativity of its operators; a reading has at most one such tree,
and none when it mixes the associativity of one level.
-/

namespace ProtoScala.Library.OperatorTrees

set_option autoImplicit false

inductive Tree (E O : Type) where
  | operand (e : E)
  | node (left : Tree E O) (op : O) (right : Tree E O)

/-- A higher level binds tighter. -/
structure Fixity (O : Type) where
  level : O → Nat
  right : O → Bool

section Reading

variable {E O : Type}

def Tree.first : Tree E O → E
  | .operand e => e
  | .node left _ _ => left.first

/-- What follows the first operand. -/
def Tree.rest : Tree E O → List (O × E)
  | .operand _ => []
  | .node left op right => left.rest ++ (op, right.first) :: right.rest

def Tree.ops (t : Tree E O) : List O := t.rest.map Prod.fst

theorem ops_node (left : Tree E O) (op : O) (right : Tree E O) :
    (Tree.node left op right).ops = left.ops ++ op :: right.ops := by
  simp [Tree.ops, Tree.rest]

variable (F : Fixity O)

/-- The tree may be the left operand of `op`. -/
def FitsLeft (op : O) : Tree E O → Prop
  | .operand _ => True
  | .node _ inner _ =>
      F.level op < F.level inner ∨
        (F.level op = F.level inner ∧ F.right op = false ∧ F.right inner = false)

/-- The tree may be the right operand of `op`. -/
def FitsRight (op : O) : Tree E O → Prop
  | .operand _ => True
  | .node _ inner _ =>
      F.level op < F.level inner ∨
        (F.level op = F.level inner ∧ F.right op = true ∧ F.right inner = true)

/-- No operator is an operand of a tighter one, and operators of one level group to the
left or to the right as they associate. -/
def Grouped : Tree E O → Prop
  | .operand _ => True
  | .node left op right =>
      Grouped left ∧ Grouped right ∧ FitsLeft F op left ∧ FitsRight F op right

/-- Two operators of one level and different associativity with only tighter operators
between them. -/
def Mixed (ops : List O) : Prop :=
  ∃ before earlier between later after,
    ops = before ++ earlier :: (between ++ later :: after) ∧
      F.level earlier = F.level later ∧ F.right earlier ≠ F.right later ∧
      ∀ op ∈ between, F.level earlier < F.level op

/-! ## What the root tells -/

/-- The operators of a tree bind as tight as its root, and those of its level associate
like it. -/
def Led (op : O) (t : Tree E O) : Prop :=
  ∀ x ∈ t.ops, F.level op ≤ F.level x ∧ (F.level x = F.level op → F.right x = F.right op)

variable {F}

theorem led_of_grouped {t : Tree E O} (grouped : Grouped F t) :
    ∀ left op right, t = .node left op right → Led F op t := by
  induction t with
  | operand e => intro left op right same; cases same
  | node left op right inductionLeft inductionRight =>
      rintro _ _ _ ⟨⟩ x member
      obtain ⟨groupedLeft, groupedRight, fitsLeft, fitsRight⟩ := grouped
      rw [ops_node, List.mem_append, List.mem_cons] at member
      rcases member with inLeft | rfl | inRight
      · cases left with
        | operand e => simp [Tree.ops, Tree.rest] at inLeft
        | node l inner r =>
            have led := inductionLeft groupedLeft l inner r rfl x inLeft
            rcases fitsLeft with below | ⟨level, notRight, notRight'⟩
            · exact ⟨by omega, by omega⟩
            · refine ⟨by omega, fun same => ?_⟩
              rw [led.2 (by omega), notRight, notRight']
      · exact ⟨Nat.le_refl _, fun _ => rfl⟩
      · cases right with
        | operand e => simp [Tree.ops, Tree.rest] at inRight
        | node l inner r =>
            have led := inductionRight groupedRight l inner r rfl x inRight
            rcases fitsRight with below | ⟨level, isRight, isRight'⟩
            · exact ⟨by omega, by omega⟩
            · refine ⟨by omega, fun same => ?_⟩
              rw [led.2 (by omega), isRight, isRight']

/-- An operator of the level of the root stands left of it only when the root
associates to the left. -/
theorem left_of_root {left right : Tree E O} {op x : O}
    (grouped : Grouped F (.node left op right)) (member : x ∈ left.ops)
    (level : F.level x = F.level op) : F.right op = false := by
  cases left with
  | operand e => simp [Tree.ops, Tree.rest] at member
  | node l inner r =>
      have led := led_of_grouped grouped.1 l inner r rfl x member
      rcases grouped.2.2.1 with below | ⟨-, notRight, -⟩
      · omega
      · exact notRight

theorem right_of_root {left right : Tree E O} {op x : O}
    (grouped : Grouped F (.node left op right)) (member : x ∈ right.ops)
    (level : F.level x = F.level op) : F.right op = true := by
  cases right with
  | operand e => simp [Tree.ops, Tree.rest] at member
  | node l inner r =>
      have led := led_of_grouped grouped.2.1 l inner r rfl x member
      rcases grouped.2.2.2 with below | ⟨-, isRight, -⟩
      · omega
      · exact isRight

/-! ## Readings without a tree -/

/-- A grouped tree does not mix the associativity of a level. -/
theorem not_mixed {t : Tree E O} (grouped : Grouped F t) : ¬Mixed F t.ops := by
  induction t with
  | operand e =>
      rintro ⟨before, earlier, between, later, after, reading, -⟩
      simp [Tree.ops, Tree.rest] at reading
  | node left op right inductionLeft inductionRight =>
      have led := led_of_grouped grouped left op right rfl
      rintro ⟨before, earlier, between, later, after, reading, level, differ, tight⟩
      have inside : ∀ x, x = earlier ∨ x = later ∨ x ∈ between →
          x ∈ (Tree.node left op right).ops := by
        intro x
        rw [reading]
        simp
        tauto
      have first := led earlier (inside _ (Or.inl rfl))
      have second := led later (inside _ (Or.inr (Or.inl rfl)))
      -- one of the two at the level of the root makes both of them like the root
      have above : F.level op < F.level earlier := by
        rcases Nat.lt_or_ge (F.level op) (F.level earlier) with less | more
        · exact less
        · exact absurd ((first.2 (by omega)).trans (second.2 (by omega)).symm) differ
      rw [ops_node] at reading
      rcases List.append_eq_append_iff.mp reading with ⟨d, front, back⟩ | ⟨d, front, back⟩
      · cases d with
        | nil =>
            obtain rfl : op = earlier := (List.cons.inj back).1
            omega
        | cons x d =>
            obtain ⟨rfl, tail⟩ := List.cons.inj back
            exact inductionRight grouped.2.1
              ⟨d, earlier, between, later, after, tail, level, differ, tight⟩
      · cases d with
        | nil =>
            obtain rfl : earlier = op := (List.cons.inj back).1
            omega
        | cons x d =>
            obtain ⟨rfl, tail⟩ := List.cons.inj back
            rcases List.append_eq_append_iff.mp tail with ⟨e, front', back'⟩ | ⟨e, front', back'⟩
            · cases e with
              | nil =>
                  obtain rfl : later = op := (List.cons.inj back').1
                  omega
              | cons y e =>
                  obtain ⟨rfl, -⟩ := List.cons.inj back'
                  refine inductionLeft grouped.1
                    ⟨before, earlier, between, later, e, ?_, level, differ, tight⟩
                  rw [front, front']
            · cases e with
              | nil =>
                  obtain rfl : op = later := (List.cons.inj back').1
                  omega
              | cons y e =>
                  obtain ⟨rfl, -⟩ := List.cons.inj back'
                  have between' := tight op (by rw [front']; simp)
                  omega

/-! ## Uniqueness -/

/-- The root of a grouped tree is where the reading says. -/
theorem root_not_before {l r l' r' : Tree E O} {op op' : O}
    (grouped : Grouped F (.node l op r)) (grouped' : Grouped F (.node l' op' r'))
    (inLeft : op ∈ l'.ops) (inRight : op' ∈ r.ops) : False := by
  have led := led_of_grouped grouped l op r rfl op' (by rw [ops_node]; simp [inRight])
  have led' := led_of_grouped grouped' l' op' r' rfl op (by rw [ops_node]; simp [inLeft])
  have level : F.level op' = F.level op := by omega
  have isRight := right_of_root grouped inRight level
  have notRight := left_of_root grouped' inLeft level.symm
  have same := led.2 level
  rw [isRight, notRight] at same
  cases same

theorem grouped_unique {t t' : Tree E O} (grouped : Grouped F t) (grouped' : Grouped F t')
    (first : t.first = t'.first) (rest : t.rest = t'.rest) : t = t' := by
  induction t generalizing t' with
  | operand e =>
      cases t' with
      | operand e' => exact congrArg Tree.operand first
      | node l' op' r' => simp [Tree.rest] at rest
  | node l op r inductionLeft inductionRight =>
      cases t' with
      | operand e' => simp [Tree.rest] at rest
      | node l' op' r' =>
          simp only [Tree.rest] at rest
          rcases List.append_eq_append_iff.mp rest with ⟨d, front, back⟩ | ⟨d, front, back⟩
          · cases d with
            | nil =>
                obtain ⟨heads, tails⟩ := List.cons.inj back
                obtain ⟨rfl, firsts⟩ := Prod.mk.inj heads
                rw [inductionLeft grouped.1 grouped'.1 first (by simpa using front.symm),
                  inductionRight grouped.2.1 grouped'.2.1 firsts tails]
            | cons x d =>
                obtain ⟨rfl, tail⟩ := List.cons.inj back
                refine (root_not_before grouped grouped' ?_ ?_).elim
                · simp [Tree.ops, front]
                · rw [Tree.ops, tail]
                  simp
          · cases d with
            | nil =>
                obtain ⟨heads, tails⟩ := List.cons.inj back
                obtain ⟨rfl, firsts⟩ := Prod.mk.inj heads
                rw [inductionLeft grouped.1 grouped'.1 first (by simpa using front),
                  inductionRight grouped.2.1 grouped'.2.1 firsts.symm tails.symm]
            | cons x d =>
                obtain ⟨rfl, tail⟩ := List.cons.inj back
                refine (root_not_before grouped' grouped ?_ ?_).elim
                · simp [Tree.ops, front]
                · rw [Tree.ops, tail]
                  simp

end Reading

end ProtoScala.Library.OperatorTrees
