import Mathlib.Data.List.Basic
import Mathlib.Tactic.Common

/-!
# Elements through stages

A list of elements goes through tests and a last step. `through` takes one element through
all of them; `staged` takes all elements through one test after the other. Both give the
same when nothing fails, and the failure that is met first may differ.
-/

namespace ProtoScala.Library.Stages

set_option autoImplicit false

variable {γ δ ε : Type}

def errorOf {α : Type} : Except ε α → Option ε
  | .error t => some t
  | .ok _ => none

/-- A step for every element in turn, with what all of them give. -/
def eachThrough (g : γ → Except ε (List δ)) : List γ → Except ε (List δ)
  | [] => .ok []
  | x :: rest =>
      match g x with
      | .error t => .error t
      | .ok r => (eachThrough g rest).map (r ++ ·)

/-- The elements that a test holds for. -/
def keep (p : γ → Except ε Bool) : List γ → Except ε (List γ)
  | [] => .ok []
  | x :: rest =>
      match p x with
      | .error t => .error t
      | .ok true => (keep p rest).map (x :: ·)
      | .ok false => keep p rest

def through : List (γ → Except ε Bool) → (γ → Except ε (List δ)) → γ → Except ε (List δ)
  | [], g, x => g x
  | p :: ps, g, x =>
      match p x with
      | .error t => .error t
      | .ok true => through ps g x
      | .ok false => .ok []

def keepAll : List (γ → Except ε Bool) → List γ → Except ε (List γ)
  | [], xs => .ok xs
  | p :: ps, xs => (keep p xs).bind (keepAll ps)

def staged (ps : List (γ → Except ε Bool)) (g : γ → Except ε (List δ)) (xs : List γ) :
    Except ε (List δ) := (keepAll ps xs).bind (eachThrough g)

/-! ## Failures -/

def firstFailure {α : Type} (g : γ → Except ε α) (xs : List γ) : Option ε :=
  xs.findSome? fun x => errorOf (g x)

def holds (p : γ → Except ε Bool) (x : γ) : Bool :=
  match p x with
  | .ok b => b
  | .error _ => false

def outputs (g : γ → Except ε (List δ)) (x : γ) : List δ :=
  match g x with
  | .ok r => r
  | .error _ => []

/-- The failure of the earliest stage that fails for an element that reaches it. -/
def stageFailure : List (γ → Except ε Bool) → (γ → Except ε (List δ)) → List γ → Option ε
  | [], g, xs => firstFailure g xs
  | p :: ps, g, xs => (firstFailure p xs).or (stageFailure ps g (xs.filter (holds p)))

theorem failure_map {α β : Type} (f : α → β) (outcome : Except ε α) :
    errorOf (outcome.map f) = errorOf outcome := by
  cases outcome <;> rfl

theorem first_failure_none {α : Type} {g : γ → Except ε α} {xs : List γ} :
    firstFailure g xs = none ↔ ∀ x ∈ xs, errorOf (g x) = none := by
  rw [firstFailure, List.findSome?_eq_none_iff]

theorem first_failure_cons {α : Type} (g : γ → Except ε α) (x : γ) (rest : List γ) :
    firstFailure g (x :: rest) = (errorOf (g x)).or (firstFailure g rest) := by
  rw [firstFailure, List.findSome?_cons]
  cases errorOf (g x) <;> rfl

theorem each_failure (g : γ → Except ε (List δ)) (xs : List γ) :
    errorOf (eachThrough g xs) = firstFailure g xs := by
  induction xs with
  | nil => rfl
  | cons x rest ih =>
      rw [eachThrough, first_failure_cons, ← ih]
      cases g x with
      | error t => rfl
      | ok r => exact failure_map _ _

theorem each_ok {g : γ → Except ε (List δ)} {xs : List γ} (fine : firstFailure g xs = none) :
    eachThrough g xs = .ok (xs.flatMap (outputs g)) := by
  induction xs with
  | nil => rfl
  | cons x rest ih =>
      have all := first_failure_none.mp fine
      rw [List.forall_mem_cons] at all
      rw [eachThrough, List.flatMap_cons, outputs]
      cases ran : g x with
      | error t =>
          rw [ran] at all
          cases all.1
      | ok r =>
          simp only
          rw [ih (first_failure_none.mpr all.2)]
          rfl

theorem keep_eq (p : γ → Except ε Bool) (xs : List γ) :
    keep p xs =
      match firstFailure p xs with
      | some t => .error t
      | none => .ok (xs.filter (holds p)) := by
  induction xs with
  | nil => rfl
  | cons x rest ih =>
      rw [keep, first_failure_cons, List.filter_cons, holds, ih]
      cases p x with
      | error t => rfl
      | ok b => cases b <;> cases firstFailure p rest <;> rfl

theorem staged_cons (p : γ → Except ε Bool) (ps : List (γ → Except ε Bool))
    (g : γ → Except ε (List δ)) (xs : List γ) :
    staged (p :: ps) g xs =
      match firstFailure p xs with
      | some t => .error t
      | none => staged ps g (xs.filter (holds p)) := by
  rw [staged, keepAll, keep_eq]
  cases firstFailure p xs <;> rfl

theorem staged_failure (ps : List (γ → Except ε Bool)) (g : γ → Except ε (List δ)) (xs : List γ) :
    errorOf (staged ps g xs) = stageFailure ps g xs := by
  induction ps generalizing xs with
  | nil => exact each_failure g xs
  | cons p ps ih =>
      rw [staged_cons, stageFailure]
      cases firstFailure p xs with
      | some t => rfl
      | none => exact ih _

theorem through_cons_ok {p : γ → Except ε Bool} {ps : List (γ → Except ε Bool)}
    {g : γ → Except ε (List δ)} {x : γ} (fine : errorOf (p x) = none) :
    through (p :: ps) g x = if holds p x then through ps g x else .ok [] := by
  rw [through, holds]
  cases ran : p x with
  | error t =>
      rw [ran] at fine
      cases fine
  | ok b => cases b <;> rfl

/-- The elements that a test holds for give all of the outputs. -/
theorem outputs_filter {p : γ → Except ε Bool} {ps : List (γ → Except ε Bool)}
    {g : γ → Except ε (List δ)} {xs : List γ} (fine : firstFailure p xs = none) :
    (xs.filter (holds p)).flatMap (outputs (through ps g)) =
      xs.flatMap (outputs (through (p :: ps) g)) := by
  induction xs with
  | nil => rfl
  | cons x rest ih =>
      have all := first_failure_none.mp fine
      rw [List.forall_mem_cons] at all
      rw [List.flatMap_cons, ← ih (first_failure_none.mpr all.2), List.filter_cons]
      have here : outputs (through (p :: ps) g) x =
          if holds p x then outputs (through ps g) x else [] := by
        rw [outputs, through_cons_ok all.1]
        cases holds p x <;> rfl
      rw [here]
      cases holds p x <;> rfl

theorem staged_ok {ps : List (γ → Except ε Bool)} {g : γ → Except ε (List δ)} {xs : List γ}
    (fine : stageFailure ps g xs = none) :
    staged ps g xs = .ok (xs.flatMap (outputs (through ps g))) := by
  induction ps generalizing xs with
  | nil => exact each_ok fine
  | cons p ps ih =>
      rw [stageFailure, Option.or_eq_none_iff] at fine
      rw [staged_cons, fine.1, ← outputs_filter fine.1]
      exact ih fine.2

/-- Nothing fails element by element exactly where nothing fails stage by stage. -/
theorem none_iff (ps : List (γ → Except ε Bool)) (g : γ → Except ε (List δ)) (xs : List γ) :
    firstFailure (through ps g) xs = none ↔ stageFailure ps g xs = none := by
  induction ps generalizing xs with
  | nil => exact Iff.rfl
  | cons p ps ih =>
      rw [stageFailure, Option.or_eq_none_iff, ← ih, first_failure_none, first_failure_none,
        first_failure_none]
      constructor
      · intro all
        have tests : ∀ x ∈ xs, errorOf (p x) = none := by
          intro x member
          have here := all x member
          rw [through] at here
          cases ran : p x with
          | error t =>
              rw [ran] at here
              exact here
          | ok b => rfl
        refine ⟨tests, fun x member => ?_⟩
        obtain ⟨inside, passes⟩ := List.mem_filter.mp member
        have here := all x inside
        rwa [through_cons_ok (tests x inside), if_pos passes] at here
      · rintro ⟨tests, rest⟩ x member
        rw [through_cons_ok (tests x member)]
        by_cases passes : holds p x = true
        · rw [if_pos passes]
          exact rest x (List.mem_filter.mpr ⟨member, passes⟩)
        · rw [if_neg passes]
          rfl

end ProtoScala.Library.Stages
