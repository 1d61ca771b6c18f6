import Mathlib.Data.List.Basic

/-!
# Flat traversals that may fail

`gather f xs` concatenates what `f` gives for the elements of a list, and fails when it
fails for one of them. Traversing the result of a traversal is one traversal.
-/

namespace ProtoScala.Library.Gathering

set_option autoImplicit false

variable {α β γ : Type}

def gather (f : α → Option (List β)) : List α → Option (List β)
  | [] => some []
  | x :: rest => do
      let first ← f x
      let others ← gather f rest
      some (first ++ others)

theorem gather_singleton (f : α → Option (List β)) (x : α) : gather f [x] = f x := by
  cases given : f x <;> simp [gather, given]

theorem gather_congr {f g : α → Option (List β)} {xs : List α} (same : ∀ x ∈ xs, f x = g x) :
    gather f xs = gather g xs := by
  induction xs with
  | nil => rfl
  | cons x rest ih =>
      simp only [gather]
      rw [same x List.mem_cons_self, ih fun y member => same y (List.mem_cons_of_mem x member)]

theorem gather_append (f : α → Option (List β)) (left right : List α) :
    gather f (left ++ right) =
      (gather f left).bind fun first => (gather f right).map (first ++ ·) := by
  induction left with
  | nil => simp [gather]
  | cons x rest ih =>
      simp only [List.cons_append, gather, ih]
      cases f x with
      | none => rfl
      | some first =>
          cases gather f rest with
          | none => rfl
          | some others => cases gather f right <;> simp

/-- Traversing what a traversal gave is one traversal. -/
theorem gather_bind (f : α → Option (List β)) (g : β → Option (List γ)) (xs : List α) :
    ((gather f xs).bind fun ys => gather g ys) =
      gather (fun x => (f x).bind fun ys => gather g ys) xs := by
  induction xs with
  | nil => rfl
  | cons x rest ih =>
      simp only [gather, ← ih]
      cases f x with
      | none => rfl
      | some first =>
          simp only [Option.bind_eq_bind, Option.bind_some]
          cases gather f rest with
          | none => cases gather g first <;> rfl
          | some others =>
              simp only [Option.bind_some, gather_append]
              cases gather g first with
              | none => rfl
              | some one => cases gather g others <;> rfl

end ProtoScala.Library.Gathering
