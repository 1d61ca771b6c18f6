import Mathlib.Data.List.Basic

/-!
# Well-nested words

A word over arbitrary letters, some of which open or close a bracket. The
brackets open after a prefix form a stack, innermost first, and a `guard` may
restrict which letters are allowed under which stack.
-/

namespace ProtoScala.Library.Nesting

set_option autoImplicit false

/-- What a letter does to the open brackets. -/
inductive Role (Bracket : Type*)
  | opens (bracket : Bracket)
  | closes (bracket : Bracket)
  | plain

section

variable {Letter Bracket : Type*} [DecidableEq Bracket] (role : Letter → Role Bracket)

/-- A closer has to match the innermost open bracket. -/
def nestStep (stack : List Bracket) (letter : Letter) : Option (List Bracket) :=
  match role letter with
  | .opens bracket => some (bracket :: stack)
  | .closes bracket => if stack.head? = some bracket then some stack.tail else none
  | .plain => some stack

/-- The brackets left open by a word, or nothing when some closer mismatches. -/
def openBrackets (word : List Letter) : Option (List Bracket) :=
  word.foldlM (nestStep role) []

/-- The word leaves exactly `stack` open and every letter of it is allowed
under the brackets open before it. -/
structure NestedTo (guard : Letter → List Bracket → Prop) (word : List Letter)
    (stack : List Bracket) : Prop where
  leaves : openBrackets role word = some stack
  guarded : ∀ before letter after, word = before ++ letter :: after →
    ∀ around, openBrackets role before = some around → guard letter around

variable {role} {guard : Letter → List Bracket → Prop} {word : List Letter}
  {stack stack' : List Bracket}

theorem nested_to_nil : NestedTo role guard [] [] where
  leaves := rfl
  guarded := by simp

theorem open_brackets_snoc (word : List Letter) (letter : Letter)
    (leaves : openBrackets role word = some stack) :
    openBrackets role (word ++ [letter]) = nestStep role stack letter := by
  unfold openBrackets at *
  rw [List.foldlM_append, leaves]
  simp

theorem nested_to_snoc {letter : Letter} (nested : NestedTo role guard word stack)
    (allowed : guard letter stack) (step : nestStep role stack letter = some stack') :
    NestedTo role guard (word ++ [letter]) stack' where
  leaves := by rw [open_brackets_snoc word letter nested.leaves, step]
  guarded := by
    intro before other after split around opened
    rcases List.eq_nil_or_concat after with rfl | ⟨more, last, rfl⟩
    · obtain ⟨rfl, same⟩ := List.append_inj' split rfl
      obtain rfl : letter = other := by simpa using same
      have same : stack = around := by
        have := nested.leaves.symm.trans opened
        exact Option.some.inj this
      exact same ▸ allowed
    · have shape : word = before ++ other :: more := by
        have whole : word ++ [letter] = (before ++ other :: more) ++ [last] := by
          rw [split]
          simp
        exact (List.append_inj' whole rfl).1
      exact nested.guarded before other more shape around opened

/-- Closing `count` equal brackets in a row. -/
theorem nested_to_close_many {letter : Letter} {bracket : Bracket}
    (closes : role letter = .closes bracket) (count : Nat)
    (nested : NestedTo role guard word (List.replicate count bracket ++ stack))
    (allowed : ∀ left, guard letter (List.replicate (left + 1) bracket ++ stack)) :
    NestedTo role guard (word ++ List.replicate count letter) stack := by
  induction count generalizing word with
  | zero => simpa using nested
  | succ count induction =>
      have closed : NestedTo role guard (word ++ [letter])
          (List.replicate count bracket ++ stack) := by
        refine nested_to_snoc nested (allowed count) ?_
        simp [nestStep, closes, List.replicate_succ]
      rw [List.replicate_succ, ← List.singleton_append, ← List.append_assoc]
      exact induction closed

end

end ProtoScala.Library.Nesting
