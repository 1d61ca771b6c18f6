import Mathlib.Data.List.Nodup
import Mathlib.Data.List.Infix
import Mathlib.Order.WellFounded

/-!
# Lists ordered from descendants to ancestors

A list is an ancestor order for a relation `above` when it repeats nothing,
holds every element above one of its own, and never places an element after
something below it. The one operation is the merge that keeps the new elements
of one list in front of another list.
-/

namespace ProtoScala.Library.AncestorOrder

set_option autoImplicit false

section

variable {Node : Type*} (above : Node → Node → Prop)

structure AncestorOrdered (nodes : List Node) : Prop where
  nodup : nodes.Nodup
  closed : ∀ node ∈ nodes, ∀ upper, above upper node → upper ∈ nodes
  descending : nodes.Pairwise fun earlier later => ¬above earlier later

theorem ancestor_ordered_nil : AncestorOrdered above [] where
  nodup := List.nodup_nil
  closed := by simp
  descending := List.Pairwise.nil

variable {above}

/-- The elements of the first list that the second lacks, then the second. -/
theorem ancestor_ordered_merge {front back : List Node} (keep : Node → Bool)
    (keeps : ∀ node, keep node = true ↔ node ∉ back)
    (frontOrdered : AncestorOrdered above front)
    (backOrdered : AncestorOrdered above back) :
    AncestorOrdered above (front.filter keep ++ back) where
  nodup := by
    refine List.Nodup.append (frontOrdered.nodup.filter _) backOrdered.nodup ?_
    intro node inFront inBack
    exact (keeps node).mp (List.mem_filter.mp inFront).2 inBack
  closed := by
    intro node member upper higher
    by_cases inBack : upper ∈ back
    · exact List.mem_append_right _ inBack
    · have fresh : keep upper = true := (keeps upper).mpr inBack
      rcases List.mem_append.mp member with inFront | nodeInBack
      · have reached := frontOrdered.closed node (List.mem_filter.mp inFront).1 upper higher
        exact List.mem_append_left _ (List.mem_filter.mpr ⟨reached, fresh⟩)
      · exact absurd (backOrdered.closed node nodeInBack upper higher) inBack
  descending := by
    rw [List.pairwise_append]
    refine ⟨frontOrdered.descending.sublist List.filter_sublist, backOrdered.descending, ?_⟩
    intro earlier inFront later inBack higher
    have reached := backOrdered.closed later inBack earlier higher
    exact (keeps earlier).mp (List.mem_filter.mp inFront).2 reached

theorem ancestor_ordered_cons {node : Node} {nodes : List Node}
    (ordered : AncestorOrdered above nodes) (fresh : node ∉ nodes)
    (direct : ∀ upper, above upper node → upper ∈ nodes)
    (lowest : ∀ other ∈ nodes, ¬above node other) :
    AncestorOrdered above (node :: nodes) where
  nodup := List.nodup_cons.mpr ⟨fresh, ordered.nodup⟩
  closed := by
    intro other member upper higher
    rcases List.mem_cons.mp member with rfl | later
    · exact List.mem_cons_of_mem _ (direct upper higher)
    · exact List.mem_cons_of_mem _ (ordered.closed other later upper higher)
  descending := List.pairwise_cons.mpr ⟨lowest, ordered.descending⟩

/-- In an ancestor order of an irreflexive relation an element stands before
everything above it. -/
theorem ancestor_ordered_before {nodes : List Node}
    (irreflexive : ∀ node, ¬above node node)
    (ordered : AncestorOrdered above nodes) {node upper : Node} (member : node ∈ nodes)
    (higher : above upper node) : [node, upper].Sublist nodes := by
  have upperMember := ordered.closed node member upper higher
  have different : node ≠ upper := by
    rintro rfl
    exact irreflexive node higher
  obtain ⟨front, back, rfl⟩ := List.append_of_mem member
  rcases List.mem_append.mp upperMember with inFront | inBack
  · have split := List.pairwise_append.mp ordered.descending
    exact absurd higher (split.2.2 upper inFront node (List.mem_cons_self))
  · have later : upper ∈ back := by
      rcases List.mem_cons.mp inBack with same | later
      · exact absurd same.symm different
      · exact later
    have tail : [upper].Sublist back := List.singleton_sublist.mpr later
    exact (tail.cons_cons node).trans (List.sublist_append_right front _)

end

end ProtoScala.Library.AncestorOrder
