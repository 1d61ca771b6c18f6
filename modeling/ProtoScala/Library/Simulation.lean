import Mathlib.Order.Basic
import Mathlib.Logic.Function.Iterate
import Mathlib.Data.Nat.Init

/-!
# Refinement mappings between deterministic machines

Two machines step on their own states, and `view` reads a state of the first as a
state of the second. Where an invariant and a condition hold, one step of the
first either is one step of the second or leaves the view as it was and lowers a
rank. `view_run` then follows a run of the first machine in the second, and
`run_view` finds every run of the second in the first, so the two halt alike.
-/

namespace ProtoScala.Library.Simulation

set_option autoImplicit false

variable {S T : Type} {step : S → S} {spec : T → T} {view : S → T}
  {met Inv : S → Prop} {rank : S → Nat}

/-- One step against the other machine. -/
def Matches (step : S → S) (spec : T → T) (view : S → T) (rank : S → Nat) (s : S) : Prop :=
  view (step s) = spec (view s) ∨ (view (step s) = view s ∧ rank (step s) < rank s)

theorem iterate_invariant (keeps : ∀ s, Inv s → met s → Inv (step s)) {s : S} (start : Inv s)
    {n : Nat} (meets : ∀ i < n, met (step^[i] s)) : Inv (step^[n] s) := by
  induction n with
  | zero => exact start
  | succ n induction =>
      rw [Function.iterate_succ_apply']
      exact keeps _ (induction fun i before => meets i (Nat.lt_succ_of_lt before))
        (meets n (Nat.lt_succ_self n))

theorem view_run (keeps : ∀ s, Inv s → met s → Inv (step s))
    (matched : ∀ s, Inv s → met s → Matches step spec view rank s) {s : S} (start : Inv s)
    {n : Nat} (meets : ∀ i < n, met (step^[i] s)) :
    ∃ m ≤ n, view (step^[n] s) = spec^[m] (view s) := by
  induction n with
  | zero => exact ⟨0, Nat.le_refl 0, rfl⟩
  | succ n induction =>
      have before : ∀ i < n, met (step^[i] s) := fun i small => meets i (Nat.lt_succ_of_lt small)
      obtain ⟨m, bound, same⟩ := induction before
      have now := matched _ (iterate_invariant keeps start before) (meets n (Nat.lt_succ_self n))
      rw [Function.iterate_succ_apply']
      rcases now with moves | ⟨stays, -⟩
      · refine ⟨m + 1, Nat.succ_le_succ bound, ?_⟩
        rw [moves, same, Function.iterate_succ_apply']
      · exact ⟨m, Nat.le_succ_of_le bound, stays.trans same⟩

/-- The steps that leave the view as it was come to an end. -/
theorem next_move (keeps : ∀ s, Inv s → met s → Inv (step s))
    (matched : ∀ s, Inv s → met s → Matches step spec view rank s) {s : S} (start : Inv s)
    (meets : ∀ i, met (step^[i] s)) :
    ∃ n, 0 < n ∧ view (step^[n] s) = spec (view s) := by
  induction bound : rank s using Nat.strong_induction_on generalizing s with
  | _ r induction =>
      subst bound
      rcases matched s start (meets 0) with moves | ⟨stays, lower⟩
      · exact ⟨1, Nat.one_pos, moves⟩
      · obtain ⟨n, -, reaches⟩ := induction (rank (step s)) lower (keeps s start (meets 0))
          (fun i => meets (i + 1)) rfl
        exact ⟨n + 1, Nat.succ_pos n, reaches.trans (congrArg spec stays)⟩

theorem run_view (keeps : ∀ s, Inv s → met s → Inv (step s))
    (matched : ∀ s, Inv s → met s → Matches step spec view rank s) {s : S} (start : Inv s)
    (meets : ∀ i, met (step^[i] s)) (m : Nat) :
    ∃ n, m ≤ n ∧ view (step^[n] s) = spec^[m] (view s) := by
  induction m with
  | zero => exact ⟨0, Nat.le_refl 0, rfl⟩
  | succ m induction =>
      obtain ⟨n, far, same⟩ := induction
      have later : ∀ i, met (step^[i] (step^[n] s)) := by
        intro i
        rw [← Function.iterate_add_apply]
        exact meets (i + n)
      obtain ⟨k, positive, moves⟩ := next_move keeps matched
        (iterate_invariant keeps start fun i _ => meets i) later
      refine ⟨k + n, by omega, ?_⟩
      rw [Function.iterate_add_apply, moves, same, Function.iterate_succ_apply']

theorem iterate_fixed {s : S} {n k : Nat} (fixed : step (step^[n] s) = step^[n] s) (far : n ≤ k) :
    step^[k] s = step^[n] s := by
  obtain ⟨more, rfl⟩ := Nat.exists_eq_add_of_le' far
  rw [Function.iterate_add_apply, Function.iterate_fixed fixed]

/-- The two machines halt in the same states, when a halted state is recognised
in the view. -/
theorem halts_iff (keeps : ∀ s, Inv s → met s → Inv (step s))
    (matched : ∀ s, Inv s → met s → Matches step spec view rank s) {s : S} (start : Inv s)
    (meets : ∀ i, met (step^[i] s)) {halted : S → Prop} {viewHalted : T → Prop}
    (recognised : ∀ s, Inv s → (halted s ↔ viewHalted (view s))) :
    (∃ n, halted (step^[n] s)) ↔ ∃ m, viewHalted (spec^[m] (view s)) := by
  constructor
  · rintro ⟨n, stops⟩
    obtain ⟨m, -, same⟩ := view_run keeps matched start (n := n) fun i _ => meets i
    refine ⟨m, ?_⟩
    rw [← same]
    exact (recognised _ (iterate_invariant keeps start fun i _ => meets i)).mp stops
  · rintro ⟨m, stops⟩
    obtain ⟨n, -, same⟩ := run_view keeps matched start meets m
    refine ⟨n, ?_⟩
    rw [← same] at stops
    exact (recognised _ (iterate_invariant keeps start fun i _ => meets i)).mpr stops

end ProtoScala.Library.Simulation
