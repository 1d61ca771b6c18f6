import Mathlib.Data.List.Pairwise
import Mathlib.Data.Multiset.ZeroCons
import Mathlib.Data.Multiset.MapFold

/-!
# Matching two collections

Two collections match when their items can be paired off by a relation, in any
order: `Multiset.Rel`. A search that finds a partner for every item of one
collection, and never one partner for two items, is such a matching.
-/

namespace ProtoScala.Library.Matching

set_option autoImplicit false

variable {α β γ : Type} {R : α → β → Prop}

/-- Partners that no two items share make a matching of collections of one
size. -/
theorem rel_of_partners {xs : List α} {ys : List β} (size : xs.length = ys.length)
    (partner : ∀ x ∈ xs, ∃ y ∈ ys, R x y)
    (apart : xs.Pairwise fun x x' => ∀ y, R x y → ¬ R x' y) :
    Multiset.Rel R (xs : Multiset α) (ys : Multiset β) := by
  induction xs generalizing ys with
  | nil =>
      obtain rfl : ys = [] := List.length_eq_zero_iff.mp size.symm
      exact Multiset.Rel.zero
  | cons x xs induction =>
      obtain ⟨y, member, related⟩ := partner x List.mem_cons_self
      obtain ⟨before, after, rfl⟩ := List.append_of_mem member
      have moved : (before ++ y :: after).Perm (y :: (before ++ after)) := List.perm_middle
      rw [← Multiset.cons_coe, Multiset.coe_eq_coe.mpr moved, ← Multiset.cons_coe]
      apply Multiset.Rel.cons related
      apply induction
      · simp only [List.length_cons, List.length_append] at size ⊢
        omega
      · intro x' later
        obtain ⟨y', member', related'⟩ := partner x' (List.mem_cons_of_mem x later)
        refine ⟨y', ?_, related'⟩
        rcases List.mem_cons.mp (moved.mem_iff.mp member') with same | other
        · rw [same] at related'
          exact absurd related' ((List.pairwise_cons.mp apart).1 x' later y related)
        · exact other
      · exact (List.pairwise_cons.mp apart).2

/-- What partners share, matching collections share as a whole. -/
theorem map_eq_of_matched {f : α → γ} {g : β → γ} {s : Multiset α} {t : Multiset β}
    (matched : Multiset.Rel R s t) (shared : ∀ x ∈ s, ∀ y ∈ t, R x y → f x = g y) :
    s.map f = t.map g := by
  induction matched with
  | zero => rfl
  | cons related rest induction =>
      rw [Multiset.map_cons, Multiset.map_cons,
        shared _ (Multiset.mem_cons_self _ _) _ (Multiset.mem_cons_self _ _) related, induction]
      intro x member y member'
      exact shared x (Multiset.mem_cons_of_mem member) y (Multiset.mem_cons_of_mem member')

/-- Of items that are pairwise unrelated, two that are related are one. -/
theorem eq_of_related {R : α → α → Prop} (symmetric : ∀ x y, R x y → R y x) {xs : List α}
    (apart : xs.Pairwise fun x y => ¬ R x y) {x y : α} (first : x ∈ xs) (second : y ∈ xs)
    (related : R x y) : x = y := by
  by_contra different
  have unrelated : Std.Symm fun x y => ¬ R x y :=
    ⟨fun x y separate back => separate (symmetric y x back)⟩
  exact apart.forall first second different related

end ProtoScala.Library.Matching
