import Mathlib.Order.WellFoundedSet
import ProtoScala.Library.AncestorOrder

/-!
# Class linearization

`linearize` merges the linearizations of the direct parents from the first one
on and puts the class in front. A hierarchy is a finite acyclic set of classes
whose linearizations all come from that function.
-/

namespace ProtoScala.Frontend.Linearizer

open ProtoScala.Library.AncestorOrder

set_option autoImplicit false

/-- One round of the loop over the parents: the elements of `next` that `acc`
does not hold yet, followed by `acc`. -/
def mergeParent (acc next : List String) : List String :=
  next.filter (fun x => !acc.contains x) ++ acc

/-- The value of `acc` after the loop. -/
def mergeParents : List (List String) → List String
  | [] => []
  | first :: rest => rest.foldl mergeParent first

def linearize (self : String) (parents : List (List String)) : List String :=
  self :: (mergeParents parents).filter (fun x => x != self)

section

variable {above : String → String → Prop}

theorem merge_parent_ordered {acc next : List String}
    (accOrdered : AncestorOrdered above acc) (nextOrdered : AncestorOrdered above next) :
    AncestorOrdered above (mergeParent acc next) :=
  ancestor_ordered_merge _ (by simp) nextOrdered accOrdered

theorem mem_merge_parent (acc next : List String) (x : String) :
    x ∈ mergeParent acc next ↔ x ∈ next ∨ x ∈ acc := by
  simp only [mergeParent, List.mem_append, List.mem_filter, List.contains_eq_mem,
    Bool.not_eq_eq_eq_not, Bool.not_true, decide_eq_false_iff_not]
  tauto

theorem merge_fold_ordered (rest : List (List String)) (acc : List String)
    (accOrdered : AncestorOrdered above acc)
    (restOrdered : ∀ next ∈ rest, AncestorOrdered above next) :
    AncestorOrdered above (rest.foldl mergeParent acc) := by
  induction rest generalizing acc with
  | nil => exact accOrdered
  | cons next rest induction =>
      apply induction
      · exact merge_parent_ordered accOrdered (restOrdered next List.mem_cons_self)
      · intro later member
        exact restOrdered later (List.mem_cons_of_mem _ member)

theorem mem_merge_fold (rest : List (List String)) (acc : List String) (x : String) :
    x ∈ rest.foldl mergeParent acc ↔ x ∈ acc ∨ ∃ next ∈ rest, x ∈ next := by
  induction rest generalizing acc with
  | nil => simp
  | cons next rest induction =>
      rw [List.foldl_cons, induction, mem_merge_parent]
      simp only [List.mem_cons, exists_eq_or_imp]
      tauto

/-- Every round only adds in front, so the first parent's linearization stays
the end of the merge. -/
theorem suffix_merge_fold (rest : List (List String)) (acc : List String) :
    acc <:+ rest.foldl mergeParent acc := by
  induction rest generalizing acc with
  | nil => exact List.suffix_rfl
  | cons next rest induction =>
      exact (List.suffix_append _ _).trans (induction (mergeParent acc next))

end

/-- A finite set of classes with their direct parents, in source order, and
their linearizations. -/
structure Hierarchy where
  classes : List String
  parents : String → List String
  lin : String → List String
  closed : ∀ c ∈ classes, ∀ p ∈ parents c, p ∈ classes
  acyclic : ∀ c, ¬Relation.TransGen (fun p c => c ∈ classes ∧ p ∈ parents c) c c
  computed : ∀ c ∈ classes, lin c = linearize c ((parents c).map lin)

namespace Hierarchy

variable (h : Hierarchy)

def Parent (p c : String) : Prop := c ∈ h.classes ∧ p ∈ h.parents c

def Ancestor (a c : String) : Prop := Relation.TransGen h.Parent a c

theorem ancestor_irreflexive (c : String) : ¬h.Ancestor c c := h.acyclic c

theorem ancestor_trans {a b c : String} (first : h.Ancestor a b) (second : h.Ancestor b c) :
    h.Ancestor a c := Relation.TransGen.trans first second

/-- An ancestor is a direct parent, or an ancestor of one. -/
theorem ancestor_iff_parent (a c : String) :
    h.Ancestor a c ↔ ∃ p, h.Parent p c ∧ (a = p ∨ h.Ancestor a p) := by
  constructor
  · intro higher
    cases higher with
    | single direct => exact ⟨a, direct, Or.inl rfl⟩
    | tail higher direct => exact ⟨_, direct, Or.inr higher⟩
  · rintro ⟨p, direct, rfl | higher⟩
    · exact Relation.TransGen.single direct
    · exact Relation.TransGen.tail higher direct

theorem ancestor_mem_classes {a c : String} (higher : h.Ancestor a c) : a ∈ h.classes := by
  induction higher using Relation.TransGen.head_induction_on with
  | single direct => exact h.closed _ direct.1 _ direct.2
  | head direct later induction => exact h.closed _ direct.1 _ direct.2

/-- The classes are well-founded under the ancestor relation, because there are
finitely many of them and none is its own ancestor. -/
theorem hierarchy_induction {motive : String → Prop}
    (step : ∀ c ∈ h.classes, (∀ a, h.Ancestor a c → motive a) → motive c) :
    ∀ c ∈ h.classes, motive c := by
  have : IsStrictOrder String h.Ancestor :=
    { irrefl := h.ancestor_irreflexive
      trans := fun _ _ _ => h.ancestor_trans }
  have finite : {c | c ∈ h.classes}.Finite := List.finite_toSet h.classes
  intro c member
  refine finite.wellFoundedOn.induction (r := h.Ancestor) member ?_
  intro c member lower
  exact step c member fun a higher => lower a (h.ancestor_mem_classes higher) higher

/-- What a linearization of one class has to be. -/
structure Linearized (c : String) (result : List String) : Prop where
  ordered : AncestorOrdered h.Ancestor result
  members : ∀ x, x ∈ result ↔ x = c ∨ h.Ancestor x c

variable {h}

theorem merged_parents_ordered {c : String}
    (parents : ∀ p ∈ h.parents c, h.Linearized p (h.lin p)) :
    AncestorOrdered h.Ancestor (mergeParents ((h.parents c).map h.lin)) := by
  cases shape : h.parents c with
  | nil => exact ancestor_ordered_nil _
  | cons first rest =>
      rw [shape] at parents
      apply merge_fold_ordered
      · exact (parents first List.mem_cons_self).ordered
      · intro next member
        obtain ⟨p, inRest, rfl⟩ := List.mem_map.mp member
        exact (parents p (List.mem_cons_of_mem _ inRest)).ordered

theorem mem_merged_parents {c : String} (member : c ∈ h.classes)
    (parents : ∀ p ∈ h.parents c, h.Linearized p (h.lin p)) (x : String) :
    x ∈ mergeParents ((h.parents c).map h.lin) ↔ h.Ancestor x c := by
  have direct : (∃ p ∈ h.parents c, x ∈ h.lin p) ↔ h.Ancestor x c := by
    rw [ancestor_iff_parent]
    constructor
    · rintro ⟨p, inParents, inLin⟩
      exact ⟨p, ⟨member, inParents⟩, ((parents p inParents).members x).mp inLin⟩
    · rintro ⟨p, inParents, reached⟩
      exact ⟨p, inParents.2, ((parents p inParents.2).members x).mpr reached⟩
  rw [← direct]
  cases h.parents c with
  | nil => simp [mergeParents]
  | cons first rest =>
      simp only [List.map_cons, mergeParents, mem_merge_fold, List.mem_map, List.mem_cons,
        exists_eq_or_imp, exists_exists_and_eq_and]

/-- Nothing equals the class itself among the merged parents, so the last
filter of `linearize` keeps them all. -/
theorem lin_eq_cons {c : String} (member : c ∈ h.classes)
    (parents : ∀ p ∈ h.parents c, h.Linearized p (h.lin p)) :
    h.lin c = c :: mergeParents ((h.parents c).map h.lin) := by
  rw [h.computed c member, linearize]
  congr 1
  rw [List.filter_eq_self]
  intro x merged
  have higher := (mem_merged_parents member parents x).mp merged
  have different : x ≠ c := by
    rintro rfl
    exact h.ancestor_irreflexive x higher
  simpa using different

theorem linearized_step {c : String} (member : c ∈ h.classes)
    (parents : ∀ p ∈ h.parents c, h.Linearized p (h.lin p)) :
    h.Linearized c (h.lin c) := by
  have merged := mem_merged_parents member parents
  rw [lin_eq_cons member parents]
  constructor
  · apply ancestor_ordered_cons (merged_parents_ordered parents)
    · intro inMerge
      exact h.ancestor_irreflexive c ((merged c).mp inMerge)
    · intro upper higher
      exact (merged upper).mpr higher
    · intro other inMerge lower
      exact h.ancestor_irreflexive c (h.ancestor_trans lower ((merged other).mp inMerge))
  · intro x
    rw [List.mem_cons, merged]

theorem linearized (h : Hierarchy) : ∀ c ∈ h.classes, h.Linearized c (h.lin c) := by
  apply h.hierarchy_induction (motive := fun c => h.Linearized c (h.lin c))
  intro c member lower
  apply linearized_step member
  intro p inParents
  exact lower p (Relation.TransGen.single ⟨member, inParents⟩)

end Hierarchy

/-- The linearization of every class of an acyclic hierarchy starts with the
class, holds the class and each of its ancestors exactly once and nothing else,
places every class before that class's own ancestors, and ends with the
linearization of the first parent. -/
theorem linearization_of_hierarchy (h : Hierarchy) (c : String) (member : c ∈ h.classes) :
    (h.lin c).head? = some c ∧
      (h.lin c).Nodup ∧
      (∀ x, x ∈ h.lin c ↔ x = c ∨ h.Ancestor x c) ∧
      (∀ x ∈ h.lin c, ∀ a, h.Ancestor a x → [x, a].Sublist (h.lin c)) ∧
      ∀ first rest, h.parents c = first :: rest → h.lin first <:+ h.lin c := by
  have all := h.linearized
  have parents : ∀ p ∈ h.parents c, h.Linearized p (h.lin p) :=
    fun p inParents => all p (h.closed c member p inParents)
  have shape := Hierarchy.lin_eq_cons member parents
  have own := all c member
  refine ⟨?_, own.ordered.nodup, own.members, ?_, ?_⟩
  · rw [shape, List.head?_cons]
  · intro x inLin a higher
    exact ancestor_ordered_before h.ancestor_irreflexive own.ordered inLin higher
  · intro first rest parentsEq
    rw [shape, parentsEq, List.map_cons]
    exact (suffix_merge_fold _ _).trans (List.suffix_cons _ _)

/-- A diamond: `C` extends `A` with the trait `T`, both over `AnyRef`. -/
def diamondParents (c : String) : List String :=
  if c = "A" then ["AnyRef"] else if c = "T" then ["AnyRef"]
  else if c = "C" then ["A", "T"] else []

def diamondHeight (c : String) : Nat :=
  if c = "C" then 2 else if c = "AnyRef" then 0 else 1

theorem diamond_parent_lower : ∀ c ∈ ["AnyRef", "A", "T", "C"], ∀ p ∈ diamondParents c,
    diamondHeight p < diamondHeight c := by
  decide

def diamond : Hierarchy where
  classes := ["AnyRef", "A", "T", "C"]
  parents := diamondParents
  lin := fun c =>
    if c = "A" then ["A", "AnyRef"] else if c = "T" then ["T", "AnyRef"]
    else if c = "C" then ["C", "T", "A", "AnyRef"] else [c]
  closed := by decide
  acyclic := by
    intro c path
    have lower : diamondHeight c < diamondHeight c := by
      refine Relation.TransGen.trans_induction_on (motive := fun {p c} _ =>
        diamondHeight p < diamondHeight c) path ?_ ?_
      · intro p c direct
        exact diamond_parent_lower c direct.1 p direct.2
      · intro _ _ _ _ _ first second
        exact first.trans second
    exact Nat.lt_irrefl _ lower
  computed := by decide

theorem linearization_of_diamond :
    "C" ∈ diamond.classes ∧ diamond.lin "C" = ["C", "T", "A", "AnyRef"] ∧
      (diamond.lin "C").Nodup ∧ diamond.lin "A" <:+ diamond.lin "C" := by
  have member : "C" ∈ diamond.classes := by decide
  have all := linearization_of_hierarchy diamond "C" member
  exact ⟨member, by decide, all.2.1, all.2.2.2.2 "A" ["T"] (by decide)⟩

end ProtoScala.Frontend.Linearizer
