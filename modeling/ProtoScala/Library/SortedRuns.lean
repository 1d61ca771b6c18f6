import Mathlib.Data.List.Basic
import Mathlib.Order.Basic
import Mathlib.Tactic.Ring

/-!
# Runs of a list

A list in runs of one width, each ordered, where the run at place `c` holds the items
whose own places are those of the run. Merging neighbours doubles the width.
-/

namespace ProtoScala.Library.SortedRuns

set_option autoImplicit false

variable {α : Type} (place : α → Nat) (r : α → α → Prop)

def run (w c : Nat) (l : List α) : List α := (l.drop (c * w)).take w

/-- The items of `part` are the ordered items of the places from `lo` to before `hi`. -/
structure Run (lo hi : Nat) (part : List α) : Prop where
  ordered : part.Pairwise r
  above : ∀ x ∈ part, lo ≤ place x
  below : ∀ x ∈ part, place x < hi

def Runs (w base : Nat) (l : List α) : Prop :=
  ∀ c, Run place r (base + c * w) (base + (c + 1) * w) (run w c l)

variable {place r}

theorem Run.nil (lo hi : Nat) : Run place r lo hi [] :=
  ⟨List.Pairwise.nil, by simp, by simp⟩

theorem Runs.nil (w base : Nat) : Runs place r w base [] := by
  intro c
  simpa [run] using Run.nil _ _

theorem run_drop (w c k : Nat) (l : List α) : run w c (l.drop (k * w)) = run w (c + k) l := by
  unfold run
  rw [List.drop_drop, Nat.add_mul, Nat.add_comm (k * w)]

theorem Runs.rest {w base : Nat} {l : List α} (runs : Runs place r w base l) (k : Nat) :
    Runs place r w (base + k * w) (l.drop (k * w)) := by
  intro c
  rw [run_drop]
  have behind := runs (c + k)
  rwa [show base + (c + k) * w = base + k * w + c * w by ring,
    show base + (c + k + 1) * w = base + k * w + (c + 1) * w by ring] at behind

theorem Runs.first {w base : Nat} {l : List α} (runs : Runs place r w base l) :
    Run place r base (base + w) (l.take w) := by
  simpa [run] using runs 0

theorem Runs.whole {w base : Nat} {l : List α} (runs : Runs place r w base l)
    (short : l.length ≤ w) : l.Pairwise r := by
  have first := runs.first.ordered
  rwa [List.take_of_length_le short] at first

/-- A run is put before the runs of the places behind it; it is short only at the end. -/
theorem Runs.cons {w base : Nat} {first rest : List α} (run : Run place r base (base + w) first)
    (full : first.length = w ∨ first.length ≤ w ∧ rest = [])
    (runs : Runs place r w (base + w) rest) : Runs place r w base (first ++ rest) := by
  intro c
  cases c with
  | zero =>
      have taken : SortedRuns.run w 0 (first ++ rest) = first := by
        unfold SortedRuns.run
        rw [Nat.zero_mul, List.drop_zero]
        rcases full with full | ⟨short, rfl⟩
        · exact List.take_left' full
        · rw [List.append_nil, List.take_of_length_le short]
      rw [taken]
      simpa using run
  | succ c =>
      have behind : SortedRuns.run w (c + 1) (first ++ rest) = SortedRuns.run w c rest := by
        unfold SortedRuns.run
        rcases full with full | ⟨short, rfl⟩
        · rw [Nat.succ_mul, Nat.add_comm, ← List.drop_drop, List.drop_left' full]
        · rw [List.append_nil, List.drop_nil, List.drop_of_length_le]
          exact Nat.le_trans short (Nat.le_mul_of_pos_left w (Nat.succ_pos c))
      rw [behind]
      have next := runs c
      rwa [show base + w + c * w = base + (c + 1) * w by ring,
        show base + w + (c + 1) * w = base + (c + 1 + 1) * w by ring] at next

/-- One item a run. -/
theorem Runs.single {l : List α} {base : Nat}
    (places : ∀ i x, l[i]? = some x → place x = base + i) : Runs place r 1 base l := by
  intro c
  unfold run
  rw [Nat.mul_one, Nat.mul_one]
  cases rest : l.drop c with
  | nil => exact Run.nil _ _
  | cons x later =>
      have here := places c x (by rw [← List.head?_drop, rest]; rfl)
      exact ⟨List.pairwise_singleton r x, by simp [here], by simp [here]⟩

/-- Two neighbours in one order are a run of both. -/
theorem Run.merged {lo mid hi : Nat} {first second merged : List α}
    (left : Run place r lo mid first) (right : Run place r mid hi second)
    (middle : lo ≤ mid ∧ mid ≤ hi) (perm : merged.Perm (first ++ second))
    (ordered : merged.Pairwise r) : Run place r lo hi merged := by
  refine ⟨ordered, ?_, ?_⟩
  · intro x member
    rcases List.mem_append.mp (perm.mem_iff.mp member) with inFirst | inSecond
    · exact left.above x inFirst
    · exact Nat.le_trans middle.1 (right.above x inSecond)
  · intro x member
    rcases List.mem_append.mp (perm.mem_iff.mp member) with inFirst | inSecond
    · exact Nat.lt_of_lt_of_le (left.below x inFirst) middle.2
    · exact right.below x inSecond

end ProtoScala.Library.SortedRuns
