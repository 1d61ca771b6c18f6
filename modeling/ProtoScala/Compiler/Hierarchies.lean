import Mathlib.Data.List.TakeWhile
import ProtoScala.Compiler.Templates

/-!
# Hierarchies of templates

What holds of the types that a session describes: every linearization starts with its
own key, holds each key once and only keys described before, and the classes in it form
one chain. The superclass's linearization is the end of the template's own when the
parents before the one that brings the superclass in add nothing to that end:
`linearize` starts from the first parent as written, also when that is a trait and the
superclass comes in with a later one.
-/

namespace ProtoScala.Compiler.Hierarchies

open ProtoScala.Compiler.Templates
open ProtoScala.Frontend.Linearizer

set_option autoImplicit false

/-! ## Looking types up -/

theorem find_some {types : List ClassInfo} {key : String} {info : ClassInfo}
    (found : findTypeByKey types key = some info) : info ∈ types ∧ info.key = key := by
  refine ⟨List.mem_of_find?_eq_some found, ?_⟩
  simpa using List.find?_some found

theorem find_keyed {α : Type} {key : α → String} {list : List α}
    (distinct : (list.map key).Nodup) {a : α} (member : a ∈ list) :
    (list.find? fun other => key other == key a) = some a := by
  induction list with
  | nil => cases member
  | cons first rest ih =>
    rw [List.map_cons, List.nodup_cons] at distinct
    rw [List.find?_cons]
    by_cases same : key first = key a
    · cases List.mem_cons.mp member with
      | inl this => simp [this]
      | inr later => exact absurd (same ▸ List.mem_map_of_mem later) distinct.1
    · have later : a ∈ rest := by
        cases List.mem_cons.mp member with
        | inl this => exact absurd (congrArg key this).symm same
        | inr later => exact later
      rw [beq_eq_false_iff_ne.mpr same]
      exact ih distinct.2 later

theorem find_of_mem {types : List ClassInfo} (distinct : (types.map ClassInfo.key).Nodup)
    {info : ClassInfo} (member : info ∈ types) : findTypeByKey types info.key = some info :=
  find_keyed distinct member

/-- Types told apart by their keys. -/
theorem eq_of_key {types : List ClassInfo} (distinct : (types.map ClassInfo.key).Nodup)
    {i j : ClassInfo} (first : i ∈ types) (second : j ∈ types) (same : i.key = j.key) : i = j := by
  have found := find_of_mem distinct first
  rw [same, find_of_mem distinct second] at found
  exact (Option.some.inj found).symm

theorem find_append {types : List ClassInfo} {key : String} {info : ClassInfo}
    (found : findTypeByKey types key = some info) (more : List ClassInfo) :
    findTypeByKey (types ++ more) key = some info := by
  unfold findTypeByKey at *
  rw [List.find?_append, found]
  rfl

theorem user_class_some {types : List ClassInfo} {key : String} {info : ClassInfo} :
    findUserClass types key = some info ↔
      findTypeByKey types key = some info ∧ info.userClass = true := by
  unfold findUserClass
  rw [Option.filter_eq_some_iff]

/-! ## What holds of a table of types -/

/-- A key's place in the table. -/
def rank (types : List ClassInfo) (key : String) : Nat := (types.map ClassInfo.key).idxOf key

structure Linked (types : List ClassInfo) : Prop where
  distinct : (types.map ClassInfo.key).Nodup
  headed : ∀ i ∈ types, i.linearization = i.key :: i.linearization.tail
  nodup : ∀ i ∈ types, i.linearization.Nodup
  known : ∀ i ∈ types, ∀ key ∈ i.linearization.tail,
    ∃ j ∈ types, j.key = key ∧ j.kind ≠ .object_ ∧ rank types key < rank types i.key
  closed : ∀ i ∈ types, ∀ j ∈ types, j.key ∈ i.linearization →
    ∀ key ∈ j.linearization, key ∈ i.linearization
  native : ∀ i ∈ types, i.builtin = true → ∀ j ∈ types, j.key ∈ i.linearization →
    j.builtin = true
  chain : ∀ i ∈ types, ∀ super, superclassOf types i = some super →
    ∀ j ∈ types, j.userClass = true → j.key ∈ i.linearization.tail →
      j.key ∈ super.linearization
  rooted : ∃ anyRef ∈ types, anyRef.builtin = true ∧ anyRef.kind = .class_ ∧
    anyRef.linearization = [kAnyRefKey, kAnyKey]

theorem superclass_some {types : List ClassInfo} {info super : ClassInfo}
    (chosen : superclassOf types info = some super) :
    super ∈ types ∧ super.userClass = true ∧ super.key ∈ info.linearization.tail := by
  obtain ⟨key, member, found⟩ := List.exists_of_findSome?_eq_some chosen
  obtain ⟨byKey, user⟩ := user_class_some.mp found
  obtain ⟨inTypes, same⟩ := find_some byKey
  exact ⟨inTypes, user, same ▸ member⟩

theorem builtin_types_builtin : ∀ i ∈ builtinTypes, i.builtin = true := by decide

theorem builtin_types_distinct : (builtinTypes.map ClassInfo.key).Nodup := by decide

theorem builtin_types_headed :
    ∀ i ∈ builtinTypes, i.linearization = i.key :: i.linearization.tail := by decide

theorem linked_builtin : Linked builtinTypes where
  distinct := builtin_types_distinct
  headed := builtin_types_headed
  nodup := by decide
  known := by decide
  closed := by
    have above : ∀ i ∈ builtinTypes, ∀ key ∈ i.linearization.tail,
        ∃ j ∈ builtinTypes, j.key = key ∧ ∀ other ∈ j.linearization, other ∈ i.linearization := by
      decide
    intro i inI j inJ inherits other member
    rw [builtin_types_headed i inI, List.mem_cons] at inherits
    rcases inherits with same | inTail
    · rwa [eq_of_key builtin_types_distinct inJ inI same] at member
    · obtain ⟨found, inFound, sameKey, inside⟩ := above i inI j.key inTail
      rw [eq_of_key builtin_types_distinct inFound inJ sameKey] at inside
      exact inside other member
  native := fun _ _ _ j inJ _ => builtin_types_builtin j inJ
  chain := by
    intro i member super chosen
    obtain ⟨inTypes, user, -⟩ := superclass_some chosen
    simp [ClassInfo.userClass, builtin_types_builtin super inTypes] at user
  rooted := by decide

section

variable {types : List ClassInfo}

theorem rank_of_inherits (linked : Linked types) {i j : ClassInfo} (inI : i ∈ types)
    (inherits : j.key ∈ i.linearization) (different : j.key ≠ i.key) :
    rank types j.key < rank types i.key := by
  rw [linked.headed i inI, List.mem_cons] at inherits
  obtain ⟨-, -, -, -, lower⟩ := linked.known i inI j.key (inherits.resolve_left different)
  exact lower

/-- Two types that inherit from each other are one. -/
theorem eq_of_mutual (linked : Linked types) {i j : ClassInfo} (inI : i ∈ types)
    (inJ : j ∈ types) (first : i.key ∈ j.linearization) (second : j.key ∈ i.linearization) :
    i = j := by
  refine eq_of_key linked.distinct inI inJ ?_
  by_contra different
  have lower := rank_of_inherits linked inJ first different
  have higher := rank_of_inherits linked inI second (Ne.symm different)
  omega

/-! ## Merging the parents -/

theorem merge_parents_eq_fold (lins : List (List String)) :
    mergeParents lins = lins.foldl mergeParent [] := by
  cases lins with
  | nil => rfl
  | cons first rest => simp [mergeParents, mergeParent]

theorem mem_merge_parents (lins : List (List String)) (key : String) :
    key ∈ mergeParents lins ↔ ∃ lin ∈ lins, key ∈ lin := by
  rw [merge_parents_eq_fold, mem_merge_fold]
  simp

theorem merge_fold_nodup (rest : List (List String)) :
    ∀ acc : List String, acc.Nodup → (∀ lin ∈ rest, lin.Nodup) →
      (rest.foldl mergeParent acc).Nodup := by
  induction rest with
  | nil =>
    intro acc nodup all
    exact nodup
  | cons next rest ih =>
    intro acc nodup all
    refine ih _ ?_ fun lin member => all lin (.tail _ member)
    refine List.Nodup.append ((all next (.head _)).filter _) nodup ?_
    intro key inFilter inAcc
    simp only [List.mem_filter] at inFilter
    simp [inAcc] at inFilter

theorem linearize_fresh {key : String} {lins : List (List String)}
    (fresh : ∀ lin ∈ lins, key ∉ lin) : linearize key lins = key :: mergeParents lins := by
  unfold linearize
  rw [List.filter_eq_self.mpr]
  intro other member
  obtain ⟨lin, inLins, inLin⟩ := (mem_merge_parents lins other).mp member
  have different : other ≠ key := by
    rintro rfl
    exact fresh lin inLins inLin
  simpa using different

/-- What a parent adds in front of an end of a list leaves the list its end. -/
theorem suffix_merge_parent {acc lin super : List String} (nodup : super.Nodup)
    (ends : acc <:+ super) (suffix : super <:+ lin) : super <:+ mergeParent acc lin := by
  obtain ⟨front, rfl⟩ := suffix
  obtain ⟨own, rfl⟩ := ends
  have apart := (List.nodup_append.mp nodup).2.2
  have kept : own.filter (fun key => !acc.contains key) = own := by
    rw [List.filter_eq_self]
    intro key inOwn
    have outside : key ∉ acc := fun inAcc => apart key inOwn key inAcc rfl
    simpa using outside
  have gone : acc.filter (fun key => !acc.contains key) = [] := by
    rw [List.filter_eq_nil_iff]
    intro key inAcc
    simpa using inAcc
  refine ⟨front.filter fun key => !acc.contains key, ?_⟩
  rw [mergeParent, List.filter_append, List.filter_append, kept, gone, List.append_nil,
    List.append_assoc]

/-! ## A description -/

/-- A template described over a table: its parents there, and what was checked. A
template without parents has `AnyRef` for one. -/
structure Described (types : List ClassInfo) (parents : List ClassInfo) (info : ClassInfo) :
    Prop where
  parent : ∀ p ∈ parents, p ∈ types ∧ p.kind ≠ .object_
  some_parent : parents ≠ []
  user : info.builtin = false
  linearized : info.linearization = linearize info.key (parents.map ClassInfo.linearization)
  related : ∀ j ∈ types, j.userClass = true → j.key ∈ info.linearization → j.key ≠ info.key →
    ∃ base, baseOf types info parents = some base ∧ j.key ∈ base.linearization

theorem described_tail (linked : Linked types) {parents : List ClassInfo} {info : ClassInfo}
    (described : Described types parents info) (fresh : info.key ∉ types.map ClassInfo.key) :
    info.linearization = info.key :: mergeParents (parents.map ClassInfo.linearization) := by
  rw [described.linearized]
  refine linearize_fresh ?_
  intro lin inLins inLin
  obtain ⟨p, inParents, rfl⟩ := List.mem_map.mp inLins
  have inTypes := (described.parent p inParents).1
  rw [linked.headed p inTypes, List.mem_cons] at inLin
  cases inLin with
  | inl own => exact fresh (own ▸ List.mem_map_of_mem inTypes)
  | inr above =>
    obtain ⟨j, inJ, same, -⟩ := linked.known p inTypes _ above
    exact fresh (same ▸ List.mem_map_of_mem inJ)

theorem mem_above {parents : List ClassInfo} {key : String} :
    key ∈ mergeParents (parents.map ClassInfo.linearization) ↔
      ∃ p ∈ parents, key ∈ p.linearization := by
  rw [mem_merge_parents]
  simp

theorem user_class_find (linked : Linked types) {j : ClassInfo} (inJ : j ∈ types)
    (user : j.userClass = true) : findUserClass types j.key = some j :=
  user_class_some.mpr ⟨find_of_mem linked.distinct inJ, user⟩

theorem native_of_builtin_class (linked : Linked types) {i j : ClassInfo} (inI : i ∈ types)
    (builtin : i.builtin = true) (inJ : j ∈ types) (user : j.userClass = true) :
    j.key ∉ i.linearization := by
  intro inherits
  have native := linked.native i inI builtin j inJ inherits
  simp [ClassInfo.userClass, native] at user

/-- A class that is the first parent is the superclass, since no other class stands
before it in the linearization. -/
theorem superclass_of_first {first : ClassInfo} {rest : List ClassInfo} {info : ClassInfo}
    (linked : Linked types) (described : Described types (first :: rest) info)
    (fresh : info.key ∉ types.map ClassInfo.key) (isClass : first.kind = .class_)
    (user : first.userClass = true) : superclassOf types info = some first := by
  have inFirst := (described.parent first (.head _)).1
  have tail := described_tail linked described fresh
  obtain ⟨front, split⟩ := suffix_merge_fold (rest.map ClassInfo.linearization)
    first.linearization
  have merged : mergeParents ((first :: rest).map ClassInfo.linearization) =
      front ++ first.linearization := split.symm
  have nodup : (front ++ first.linearization).Nodup := by
    rw [← merged, merge_parents_eq_fold]
    refine merge_fold_nodup _ _ List.nodup_nil ?_
    intro lin inLins
    obtain ⟨p, inParents, rfl⟩ := List.mem_map.mp inLins
    exact linked.nodup p (described.parent p inParents).1
  have no_front : front.findSome? (findUserClass types) = none := by
    rw [List.findSome?_eq_none_iff]
    intro key inFront
    cases found : findUserClass types key with
    | none => rfl
    | some j =>
      obtain ⟨byKey, jUser⟩ := user_class_some.mp found
      obtain ⟨inJ, rfl⟩ := find_some byKey
      have inInfo : j.key ∈ info.linearization := by
        rw [tail, merged]
        simp [inFront]
      have different : j.key ≠ info.key := by
        intro same
        exact fresh (same ▸ List.mem_map_of_mem inJ)
      obtain ⟨base, base_eq, inBase⟩ := described.related j inJ jUser inInfo different
      simp only [baseOf, isClass, if_true, Option.some.injEq] at base_eq
      subst base_eq
      exact absurd rfl ((List.nodup_append.mp nodup).2.2 _ inFront _ inBase)
  rw [superclassOf, tail, List.tail_cons, merged, List.findSome?_append, no_front,
    linked.headed first inFirst, List.findSome?_cons, user_class_find linked inFirst user]
  rfl

/-- Every inherited class is the superclass or one of its ancestors. -/
theorem described_chain {parents : List ClassInfo} {info : ClassInfo}
    (linked : Linked types) (described : Described types parents info)
    (fresh : info.key ∉ types.map ClassInfo.key) {super : ClassInfo}
    (chosen : superclassOf types info = some super) {j : ClassInfo} (inJ : j ∈ types)
    (user : j.userClass = true) (inherits : j.key ∈ info.linearization.tail) :
    j.key ∈ super.linearization := by
  have different : j.key ≠ info.key := by
    intro same
    exact fresh (same ▸ List.mem_map_of_mem inJ)
  obtain ⟨base, base_eq, inBase⟩ := described.related j inJ user (List.mem_of_mem_tail inherits)
    different
  cases parents with
  | nil => exact absurd rfl described.some_parent
  | cons first rest =>
    have inFirst := (described.parent first (.head _)).1
    by_cases isClass : first.kind = .class_
    · simp only [baseOf, isClass, if_true, Option.some.injEq] at base_eq
      subst base_eq
      by_cases builtin : first.builtin = true
      · exact absurd inBase (native_of_builtin_class linked inFirst builtin inJ user)
      · have firstUser : first.userClass = true := by
          simp [ClassInfo.userClass, isClass, builtin]
        rw [superclass_of_first linked described fresh isClass firstUser] at chosen
        cases chosen
        exact inBase
    · simp only [baseOf, isClass, if_false] at base_eq
      rw [chosen] at base_eq
      cases base_eq
      exact inBase

end

/-! ## A type more -/

section

variable {types : List ClassInfo} {info : ClassInfo}

theorem user_class_more {key : String} {j : ClassInfo} (inJ : j ∈ types) (same : j.key = key)
    (distinct : (types.map ClassInfo.key).Nodup) (more : List ClassInfo) :
    findUserClass (types ++ more) key = findUserClass types key := by
  subst same
  have found := find_of_mem distinct inJ
  unfold findUserClass
  rw [find_append found, found]

theorem superclass_more (distinct : (types.map ClassInfo.key).Nodup) {i : ClassInfo}
    (known : ∀ key ∈ i.linearization.tail, ∃ j ∈ types, j.key = key) (more : List ClassInfo) :
    superclassOf (types ++ more) i = superclassOf types i := by
  unfold superclassOf
  rw [← List.head?_filterMap, ← List.head?_filterMap]
  refine congrArg List.head? (List.filterMap_congr ?_)
  intro key inTail
  obtain ⟨j, inJ, same⟩ := known key inTail
  exact user_class_more inJ same distinct more

theorem rank_more {key : String} (inside : key ∈ types.map ClassInfo.key) (more : List ClassInfo) :
    rank (types ++ more) key = rank types key := by
  unfold rank
  rw [List.map_append, List.idxOf_append_of_mem inside]

theorem rank_last (fresh : info.key ∉ types.map ClassInfo.key) :
    rank (types ++ [info]) info.key = types.length := by
  unfold rank
  rw [List.map_append, List.idxOf_append_of_notMem fresh]
  simp

theorem rank_lt {key : String} (inside : key ∈ types.map ClassInfo.key) :
    rank types key < types.length := by
  unfold rank
  have := List.idxOf_lt_length_of_mem inside
  simpa using this

theorem key_known (linked : Linked types) {i : ClassInfo} (inI : i ∈ types) {key : String}
    (inherits : key ∈ i.linearization) : key ∈ types.map ClassInfo.key := by
  rw [linked.headed i inI, List.mem_cons] at inherits
  cases inherits with
  | inl own => exact own ▸ List.mem_map_of_mem inI
  | inr above =>
    obtain ⟨j, inJ, same, -⟩ := linked.known i inI key above
    exact same ▸ List.mem_map_of_mem inJ

variable {parents : List ClassInfo}

theorem described_nodup (linked : Linked types) (described : Described types parents info)
    (fresh : info.key ∉ types.map ClassInfo.key) : info.linearization.Nodup := by
  rw [described_tail linked described fresh, List.nodup_cons, mem_above]
  constructor
  · rintro ⟨p, inParents, inherits⟩
    exact fresh (key_known linked (described.parent p inParents).1 inherits)
  · rw [merge_parents_eq_fold]
    refine merge_fold_nodup _ _ List.nodup_nil ?_
    intro lin inLins
    obtain ⟨p, inParents, rfl⟩ := List.mem_map.mp inLins
    exact linked.nodup p (described.parent p inParents).1

/-- What stands behind the template in its linearization was known before. -/
theorem described_known (linked : Linked types) (described : Described types parents info)
    (fresh : info.key ∉ types.map ClassInfo.key) {key : String}
    (above : key ∈ info.linearization.tail) :
    ∃ j ∈ types, j.key = key ∧ j.kind ≠ .object_ := by
  rw [described_tail linked described fresh, List.tail_cons, mem_above] at above
  obtain ⟨p, inParents, inherits⟩ := above
  obtain ⟨inTypes, kind⟩ := described.parent p inParents
  rw [linked.headed p inTypes, List.mem_cons] at inherits
  cases inherits with
  | inl own => exact ⟨p, inTypes, own.symm, kind⟩
  | inr higher =>
    obtain ⟨j, inJ, same, jKind, -⟩ := linked.known p inTypes key higher
    exact ⟨j, inJ, same, jKind⟩

theorem mem_more {i : ClassInfo} (member : i ∈ types ++ [info]) : i ∈ types ∨ i = info := by
  simpa using member

theorem linked_more (linked : Linked types) (described : Described types parents info)
    (fresh : info.key ∉ types.map ClassInfo.key) : Linked (types ++ [info]) where
  distinct := by
    rw [List.map_append, List.map_singleton]
    refine List.Nodup.append linked.distinct (List.nodup_singleton _) ?_
    intro key old new
    exact fresh (List.mem_singleton.mp new ▸ old)
  headed := by
    intro i inI
    rcases mem_more inI with old | rfl
    · exact linked.headed i old
    · rw [described_tail linked described fresh, List.tail_cons]
  nodup := by
    intro i inI
    rcases mem_more inI with old | rfl
    · exact linked.nodup i old
    · exact described_nodup linked described fresh
  known := by
    intro i inI key above
    rcases mem_more inI with old | rfl
    · obtain ⟨j, inJ, same, kind, lower⟩ := linked.known i old key above
      refine ⟨j, List.mem_append_left _ inJ, same, kind, ?_⟩
      rw [rank_more (same ▸ List.mem_map_of_mem inJ), rank_more (List.mem_map_of_mem old)]
      exact lower
    · obtain ⟨j, inJ, same, kind⟩ := described_known linked described fresh above
      refine ⟨j, List.mem_append_left _ inJ, same, kind, ?_⟩
      have inside : key ∈ types.map ClassInfo.key := same ▸ List.mem_map_of_mem inJ
      rw [rank_more inside, rank_last fresh]
      exact rank_lt inside
  closed := by
    intro i inI j inJ inherits key inKey
    rcases mem_more inI with oldI | rfl
    · rcases mem_more inJ with oldJ | rfl
      · exact linked.closed i oldI j oldJ inherits key inKey
      · exact absurd (key_known linked oldI inherits) fresh
    · rcases mem_more inJ with oldJ | rfl
      · have tail := described_tail linked described fresh
        have above : j.key ∈ mergeParents (parents.map ClassInfo.linearization) := by
          rw [tail, List.mem_cons] at inherits
          refine inherits.resolve_left ?_
          intro same
          exact fresh (same ▸ List.mem_map_of_mem oldJ)
        obtain ⟨p, inParents, inP⟩ := mem_above.mp above
        rw [tail]
        refine List.mem_cons_of_mem _ (mem_above.mpr ⟨p, inParents, ?_⟩)
        exact linked.closed p (described.parent p inParents).1 j oldJ inP key inKey
      · exact inKey
  native := by
    intro i inI builtin j inJ inherits
    rcases mem_more inI with oldI | rfl
    · rcases mem_more inJ with oldJ | rfl
      · exact linked.native i oldI builtin j oldJ inherits
      · exact absurd (key_known linked oldI inherits) fresh
    · rw [described.user] at builtin
      cases builtin
  chain := by
    intro i inI super chosen j inJ user inherits
    rcases mem_more inI with oldI | rfl
    · rw [superclass_more linked.distinct] at chosen
      · rcases mem_more inJ with oldJ | rfl
        · exact linked.chain i oldI super chosen j oldJ user inherits
        · exact absurd (key_known linked oldI (List.mem_of_mem_tail inherits)) fresh
      · intro key above
        obtain ⟨known, inKnown, same, -⟩ := linked.known i oldI key above
        exact ⟨known, inKnown, same⟩
    · rw [superclass_more linked.distinct] at chosen
      · rcases mem_more inJ with oldJ | rfl
        · exact described_chain linked described fresh chosen oldJ user inherits
        · obtain ⟨known, inKnown, same, -⟩ := described_known linked described fresh inherits
          exact absurd (same ▸ List.mem_map_of_mem inKnown) fresh
      · intro key above
        obtain ⟨known, inKnown, same, -⟩ := described_known linked described fresh above
        exact ⟨known, inKnown, same⟩
  rooted := by
    obtain ⟨anyRef, member, facts⟩ := linked.rooted
    exact ⟨anyRef, List.mem_append_left _ member, facts⟩

end

/-! ## Where the superclass comes in -/

/-- The linearizations that the template's own one is merged from. -/
def mergedLins (types : List ClassInfo) (t : TemplateDef) : List (List String) :=
  parentLinearizations (t.parents.filterMap fun p => findTypeByKey types p.type)

/-- A class that a parent brings in, and that every class a parent brings in is an
ancestor of, or is. -/
def MostDerived (types : List ClassInfo) (lins : List (List String)) (s : ClassInfo) : Prop :=
  s.userClass = true ∧ (∃ lin ∈ lins, s.key ∈ lin) ∧
    ∀ a ∈ types, a.userClass = true → (∃ lin ∈ lins, a.key ∈ lin) → a.key ∈ s.linearization

instance (types : List ClassInfo) (lins : List (List String)) (s : ClassInfo) :
    Decidable (MostDerived types lins s) :=
  inferInstanceAs (Decidable (_ ∧ _ ∧ _))

/-- The parents before the first one that brings the most derived class in add nothing
to the end of that class's own linearization. So it is when the first parent brings the
class in, or is it. -/
def Led (types : List ClassInfo) (t : TemplateDef) : Prop :=
  ∀ s ∈ types, MostDerived types (mergedLins types t) s →
    mergeParents ((mergedLins types t).takeWhile fun lin => !lin.contains s.key) <:+
      s.linearization

instance (types : List ClassInfo) (t : TemplateDef) : Decidable (Led types t) :=
  inferInstanceAs (Decidable (∀ s ∈ types, _ → _))

/-- A description with its parents in a table. -/
structure Placed (types : List ClassInfo) (t : TemplateDef) (info : ClassInfo) : Prop where
  resolved : ∀ p ∈ t.parents, ∃ parent, findTypeByKey types p.type = some parent
  parent : ∀ lin ∈ mergedLins types t, ∃ p ∈ types, p.linearization = lin
  tail : info.linearization = info.key :: mergeParents (mergedLins types t)
  key_eq : info.key = t.key
  kind_eq : info.kind = t.kind
  user : info.builtin = false

section

variable {types : List ClassInfo}

theorem merged_lins_more {t : TemplateDef}
    (resolved : ∀ p ∈ t.parents, ∃ parent, findTypeByKey types p.type = some parent)
    (more : List ClassInfo) : mergedLins (types ++ more) t = mergedLins types t := by
  unfold mergedLins
  refine congrArg parentLinearizations (List.filterMap_congr ?_)
  intro p member
  obtain ⟨parent, found⟩ := resolved p member
  rw [found, find_append found]

theorem placed_more {t : TemplateDef} {info : ClassInfo} (placed : Placed types t info)
    (more : List ClassInfo) : Placed (types ++ more) t info where
  resolved := by
    intro p member
    obtain ⟨parent, found⟩ := placed.resolved p member
    exact ⟨parent, find_append found more⟩
  parent := by
    rw [merged_lins_more placed.resolved]
    intro lin member
    obtain ⟨p, inTypes, same⟩ := placed.parent lin member
    exact ⟨p, List.mem_append_left _ inTypes, same⟩
  tail := by
    rw [merged_lins_more placed.resolved]
    exact placed.tail
  key_eq := placed.key_eq
  kind_eq := placed.kind_eq
  user := placed.user

theorem superclass_most_derived (linked : Linked types) {t : TemplateDef} {info super : ClassInfo}
    (inInfo : info ∈ types) (placed : Placed types t info)
    (chosen : superclassOf types info = some super) :
    MostDerived types (mergedLins types t) super := by
  have tail : info.linearization.tail = mergeParents (mergedLins types t) := by
    rw [placed.tail, List.tail_cons]
  obtain ⟨-, user, inherits⟩ := superclass_some chosen
  refine ⟨user, ?_, ?_⟩
  · rw [tail] at inherits
    exact (mem_merge_parents _ _).mp inherits
  · intro a inA aUser brought
    refine linked.chain info inInfo super chosen a inA aUser ?_
    rw [tail]
    exact (mem_merge_parents _ _).mpr brought

/-- The parent that brings the superclass in ends with the superclass's linearization. -/
theorem suffix_of_parent (linked : Linked types) {p super : ClassInfo} (inP : p ∈ types)
    (inSuper : super ∈ types) (user : super.userClass = true)
    (brings : super.key ∈ p.linearization)
    (below : ∀ j ∈ types, j.userClass = true → j.key ∈ p.linearization →
      j.key ∈ super.linearization)
    (earlier : ∀ s, superclassOf types p = some s → s.linearization <:+ p.linearization) :
    super.linearization <:+ p.linearization := by
  by_cases same : super.key = p.key
  · rw [eq_of_key linked.distinct inSuper inP same]
  · have inTail : super.key ∈ p.linearization.tail := by
      rw [linked.headed p inP, List.mem_cons] at brings
      exact brings.resolve_left same
    cases chosen : superclassOf types p with
    | none =>
      have none := List.findSome?_eq_none_iff.mp chosen super.key inTail
      rw [user_class_find linked inSuper user] at none
      cases none
    | some s =>
      -- each of the two is an ancestor of the other, or is the other
      obtain ⟨inS, sUser, sTail⟩ := superclass_some chosen
      have first := linked.chain p inP s chosen super inSuper user inTail
      have second := below s inS sUser (List.mem_of_mem_tail sTail)
      rw [eq_of_mutual linked inSuper inS first second]
      exact earlier s chosen

theorem suffix_of_led (linked : Linked types) {t : TemplateDef} {info super : ClassInfo}
    (inInfo : info ∈ types) (placed : Placed types t info) (led : Led types t)
    (earlier : ∀ p ∈ types, p.linearization ∈ mergedLins types t →
      ∀ s, superclassOf types p = some s → s.linearization <:+ p.linearization)
    (chosen : superclassOf types info = some super) :
    super.linearization <:+ info.linearization := by
  obtain ⟨inSuper, user, -⟩ := superclass_some chosen
  have most := superclass_most_derived linked inInfo placed chosen
  have ends := led super inSuper most
  set lins := mergedLins types t with lins_eq
  set outside : List String → Bool := fun lin => !lin.contains super.key with outside_eq
  obtain ⟨lin, inLins, inLin⟩ := most.2.1
  have split := List.takeWhile_append_dropWhile (p := outside) (l := lins)
  cases rest_eq : lins.dropWhile outside with
  | nil =>
    rw [List.dropWhile_eq_nil_iff] at rest_eq
    have := rest_eq lin inLins
    simp [outside_eq, inLin] at this
  | cons found later =>
    have brings : super.key ∈ found := by
      have head := List.head?_dropWhile_not outside lins
      rw [rest_eq] at head
      simpa [outside_eq] using head
    have inFound : found ∈ lins := by
      rw [← split, rest_eq]
      simp
    obtain ⟨p, inP, rfl⟩ := placed.parent found inFound
    have suffix : super.linearization <:+ p.linearization := by
      refine suffix_of_parent linked inP inSuper user brings ?_ (earlier p inP inFound)
      intro j inJ jUser inherits
      exact most.2.2 j inJ jUser ⟨_, inFound, inherits⟩
    have merged := suffix_merge_parent (linked.nodup super inSuper) ends suffix
    rw [placed.tail, ← lins_eq, ← split, rest_eq, merge_parents_eq_fold, List.foldl_append,
      ← merge_parents_eq_fold, List.foldl_cons]
    exact (merged.trans (suffix_merge_fold later _)).trans (List.suffix_cons _ _)

end

/-! ## Describing a unit -/

section

variable {types : List ClassInfo} {t : TemplateDef}

theorem resolve_parents_ok {refs : List ParentRef} :
    ∀ {index : Nat} {parents : List ClassInfo},
      resolveParents types t index refs = .ok parents →
      (refs.filterMap fun p => findTypeByKey types p.type) = parents ∧
        (∀ p ∈ refs, ∃ parent, findTypeByKey types p.type = some parent) ∧
        ∀ parent ∈ parents, parent ∈ types ∧ parent.kind ≠ .object_ := by
  induction refs with
  | nil =>
    intro index parents resolved
    cases resolved
    simp
  | cons p rest ih =>
    intro index parents resolved
    rw [resolveParents] at resolved
    cases found : findTypeByKey types p.type with
    | none => simp [found] at resolved
    | some parent =>
      simp only [found] at resolved
      cases message : parentError t index p parent with
      | some text => simp [message] at resolved
      | none =>
        simp only [message] at resolved
        cases later : resolveParents types t (index + 1) rest with
        | error text => simp [later, Except.map] at resolved
        | ok others =>
          simp only [later, Except.map, Except.ok.injEq] at resolved
          subst resolved
          obtain ⟨found_eq, all, members⟩ := ih later
          have kind : parent.kind ≠ .object_ := by
            intro isObject
            simp [parentError, isObject] at message
          refine ⟨?_, ?_, ?_⟩
          · simp [found, found_eq]
          · intro q member
            cases List.mem_cons.mp member with
            | inl this => exact ⟨parent, this ▸ found⟩
            | inr inRest => exact all q inRest
          · intro q member
            cases List.mem_cons.mp member with
            | inl this => exact this ▸ ⟨(find_some found).1, kind⟩
            | inr inRest => exact members q inRest

theorem aux_arities_ok {seen arities : List Nat} {rest : List (Nat × AuxBody)}
    (ok : auxAritiesOf t seen rest = .ok arities) : arities = seen ++ rest.map Prod.fst := by
  induction rest generalizing seen with
  | nil =>
    cases ok
    simp
  | cons first rest ih =>
    rw [auxAritiesOf] at ok
    split at ok
    · cases ok
    · split at ok
      · cases ok
      · rw [ih ok]
        simp

/-- What an accepted description is. -/
theorem build_class_info_ok {info : ClassInfo} (built : buildClassInfo types t = .ok info) :
    ∃ parents, (t.parents.filterMap fun p => findTypeByKey types p.type) = parents ∧
      (∀ p ∈ t.parents, ∃ parent, findTypeByKey types p.type = some parent) ∧
      (∀ parent ∈ parents, parent ∈ types ∧ parent.kind ≠ .object_) ∧
      unrelatedClass types (describeParents t parents) parents = none ∧
      info = describeConstructors t (describeParents t parents)
        (t.auxConstructors.map Prod.fst) := by
  unfold buildClassInfo at built
  cases resolved : resolveParents types t 0 t.parents with
  | error message => simp [resolved] at built
  | ok parents =>
    simp only [resolved] at built
    obtain ⟨found, all, members⟩ := resolve_parents_ok resolved
    cases unrelated : unrelatedClass types (describeParents t parents) parents with
    | some a => simp [unrelated] at built
    | none =>
      simp only [unrelated] at built
      split at built
      · cases built
      · cases arities : auxAritiesOf t [] t.auxConstructors with
        | error message => simp [arities, Except.map] at built
        | ok list =>
          simp only [arities, Except.map, Except.ok.injEq] at built
          have list_eq := aux_arities_ok arities
          simp only [List.nil_append] at list_eq
          subst list_eq
          exact ⟨parents, found, all, members, unrelated, built.symm⟩

theorem related_of_none {parents : List ClassInfo} {c j : ClassInfo} (linked : Linked types)
    (some_parent : parents ≠ []) (none : unrelatedClass types c parents = none)
    (inJ : j ∈ types) (user : j.userClass = true) (inherits : j.key ∈ c.linearization)
    (different : j.key ≠ c.key) :
    ∃ base, baseOf types c parents = some base ∧ j.key ∈ base.linearization := by
  unfold unrelatedClass at none
  rw [if_neg (by simpa using some_parent), List.findSome?_eq_none_iff] at none
  have this := none j.key (by simp [inherits, different])
  rw [user_class_find linked inJ user] at this
  cases base_eq : baseOf types c parents with
  | none => simp [base_eq] at this
  | some base =>
    simp only [base_eq, Option.any_some, Option.filter_eq_none_iff] at this
    refine ⟨base, rfl, ?_⟩
    simpa using this j rfl

theorem described_of_build (linked : Linked types) {info : ClassInfo}
    (built : buildClassInfo types t = .ok info) :
    ∃ parents, parents.map ClassInfo.linearization = mergedLins types t ∧
      Described types parents info := by
  obtain ⟨resolved, found, -, members, unrelated, rfl⟩ := build_class_info_ok built
  have merged : mergedLins types t = parentLinearizations resolved := by
    rw [mergedLins, found]
  by_cases none : resolved = []
  · subst none
    obtain ⟨anyRef, inTypes, builtin, kind, lin⟩ := linked.rooted
    have lins : [anyRef].map ClassInfo.linearization = parentLinearizations [] := by
      simp [parentLinearizations, lin]
    refine ⟨[anyRef], by rw [merged, lins], ?_, by simp, rfl, ?_, ?_⟩
    · intro p member
      cases List.mem_singleton.mp member
      exact ⟨inTypes, by simp [kind]⟩
    · rw [lins]
      rfl
    · intro j inJ user inherits different
      have outside := native_of_builtin_class linked inTypes builtin inJ user
      rw [lin] at outside
      -- only `AnyRef` and `Any` stand behind the template
      change j.key ∈ linearize t.key [[kAnyRefKey, kAnyKey]] at inherits
      unfold linearize at inherits
      cases List.mem_cons.mp inherits with
      | inl own => exact absurd own different
      | inr above => exact absurd (List.mem_filter.mp above).1 outside
  · have lins : parentLinearizations resolved = resolved.map ClassInfo.linearization := by
      simp [parentLinearizations, none]
    refine ⟨resolved, by rw [merged, lins], members, none, rfl, ?_, ?_⟩
    · rw [← lins]
      rfl
    · intro j inJ user inherits different
      obtain ⟨base, base_eq, inBase⟩ :=
        related_of_none linked none unrelated inJ user inherits different
      exact ⟨base, base_eq, inBase⟩

theorem placed_of_build (linked : Linked types) {info : ClassInfo}
    (built : buildClassInfo types t = .ok info) (fresh : t.key ∉ types.map ClassInfo.key) :
    Placed types t info ∧ Linked (types ++ [info]) := by
  obtain ⟨parents, lins, described⟩ := described_of_build linked built
  obtain ⟨resolved, -, all, -, -, info_eq⟩ := build_class_info_ok built
  have key_eq : info.key = t.key := by rw [info_eq]; rfl
  rw [← key_eq] at fresh
  refine ⟨⟨all, ?_, ?_, key_eq, ?_, described.user⟩, linked_more linked described fresh⟩
  · rw [← lins]
    intro lin member
    obtain ⟨p, inParents, rfl⟩ := List.mem_map.mp member
    exact ⟨p, (described.parent p inParents).1, rfl⟩
  · rw [← lins]
    exact described_tail linked described fresh
  · rw [info_eq]
    rfl

end

/-! ## A session -/

/-- What the compiler recorded of a template, whose constructors were compiled from
the types it could see. -/
structure Recorded (types : List ClassInfo) (c : CompiledClass) : Prop where
  described : c.info ∈ types
  placed : Placed types c.template c.info
  constructors : c.info = describeConstructors c.template c.info
    (c.template.auxConstructors.map Prod.fst)
  compiled : compileTemplate types c.template c.info = .ok c

structure Sound (s : Session) : Prop where
  linked : Linked s.types
  recorded : ∀ c ∈ s.classes, Recorded s.types c
  every : ∀ i ∈ s.types, i.builtin = false → ∃ c ∈ s.classes, c.info = i
  distinct : (s.classes.map fun c => c.info.key).Nodup

theorem sound_start : Sound start where
  linked := linked_builtin
  recorded := by
    intro c member
    cases member
  every := by decide
  distinct := List.nodup_nil

theorem find_more {types : List ClassInfo} {key : String}
    (inside : key ∈ types.map ClassInfo.key) (distinct : (types.map ClassInfo.key).Nodup)
    (more : List ClassInfo) : findTypeByKey (types ++ more) key = findTypeByKey types key := by
  obtain ⟨j, inJ, rfl⟩ := List.mem_map.mp inside
  have found := find_of_mem distinct inJ
  rw [find_append found, found]

/-- A template compiled again, with more types around, compiles alike. -/
theorem compile_template_more {types : List ClassInfo} (linked : Linked types) {info : ClassInfo}
    (inInfo : info ∈ types) (t : TemplateDef) (more : List ClassInfo) :
    compileTemplate (types ++ more) t info = compileTemplate types t info := by
  have super : superclassOf (types ++ more) info = superclassOf types info := by
    refine superclass_more linked.distinct ?_ more
    intro key above
    obtain ⟨j, inJ, same, -⟩ := linked.known info inInfo key above
    exact ⟨j, inJ, same⟩
  have traits : ∀ s, traitsToInit (types ++ more) info s = traitsToInit types info s := by
    intro s
    refine List.filterMap_congr ?_
    intro key member
    have inside := key_known linked inInfo (List.mem_reverse.mp member)
    unfold traitToInit
    rw [find_more inside linked.distinct]
  have calls : compileCalls (types ++ more) t info = compileCalls types t info := by
    unfold compileCalls
    simp only [super, traits]
  unfold compileTemplate compileConstructor
  rw [calls]

theorem recorded_more {types : List ClassInfo} (linked : Linked types) {c : CompiledClass}
    (recorded : Recorded types c) (more : List ClassInfo) : Recorded (types ++ more) c where
  described := List.mem_append_left _ recorded.described
  placed := placed_more recorded.placed more
  constructors := recorded.constructors
  compiled := by
    rw [compile_template_more linked recorded.described]
    exact recorded.compiled

theorem describe_all_ok {unit : List TemplateDef} :
    ∀ {types types' : List ClassInfo}, describeAll unit types = .ok types' → Linked types →
      (types.map ClassInfo.key ++ unit.map TemplateDef.key).Nodup →
      Linked types' ∧ (∃ more, types' = types ++ more) ∧
        (∀ t ∈ unit, ∃ info ∈ types', Placed types' t info ∧
          info = describeConstructors t info (t.auxConstructors.map Prod.fst)) ∧
        ∀ i ∈ types', i ∈ types ∨ ∃ t ∈ unit, i.key = t.key := by
  induction unit with
  | nil =>
    intro types types' ok linked fresh
    cases ok
    exact ⟨linked, ⟨[], by simp⟩, by simp, fun i member => .inl member⟩
  | cons t rest ih =>
    intro types types' ok linked fresh
    rw [describeAll] at ok
    cases built : buildClassInfo types t with
    | error message => simp [built] at ok
    | ok info =>
      simp only [built] at ok
      rw [List.map_cons] at fresh
      have outside : t.key ∉ types.map ClassInfo.key := by
        intro inside
        exact (List.nodup_append.mp fresh).2.2 _ inside _ (.head _) rfl
      obtain ⟨placed, linked'⟩ := placed_of_build linked built outside
      have fresh' : ((types ++ [info]).map ClassInfo.key ++ rest.map TemplateDef.key).Nodup := by
        simpa [placed.key_eq] using fresh
      obtain ⟨last, ⟨more, rfl⟩, each, only⟩ := ih ok linked' fresh'
      refine ⟨last, ⟨info :: more, by simp⟩, ?_, ?_⟩
      · intro other member
        cases List.mem_cons.mp member with
        | inl this =>
          subst this
          refine ⟨info, by simp, ?_, ?_⟩
          · have kept := placed_more placed (info :: more)
            simpa using kept
          · obtain ⟨parents, -, -, -, -, info_eq⟩ := build_class_info_ok built
            rw [info_eq]
            rfl
        | inr later => exact each other later
      · intro i member
        rcases only i member with old | ⟨other, inRest, same⟩
        · rcases mem_more old with older | rfl
          · exact .inl older
          · exact .inr ⟨t, .head _, placed.key_eq⟩
        · exact .inr ⟨other, .tail _ inRest, same⟩

theorem describe_all_keys {unit : List TemplateDef} :
    ∀ {types types' : List ClassInfo}, describeAll unit types = .ok types' →
      types'.map ClassInfo.key = types.map ClassInfo.key ++ unit.map TemplateDef.key := by
  induction unit with
  | nil =>
    intro types types' ok
    cases ok
    simp
  | cons t rest ih =>
    intro types types' ok
    rw [describeAll] at ok
    cases built : buildClassInfo types t with
    | error message => simp [built] at ok
    | ok info =>
      simp only [built] at ok
      obtain ⟨parents, -, -, -, -, info_eq⟩ := build_class_info_ok built
      have key_eq : info.key = t.key := by rw [info_eq]; rfl
      rw [ih ok]
      simp [key_eq]

theorem compile_template_fields {types : List ClassInfo} {t : TemplateDef} {info : ClassInfo}
    {c : CompiledClass} (compiled : compileTemplate types t info = .ok c) :
    c.template = t ∧ c.info = info := by
  unfold compileTemplate at compiled
  split at compiled
  · cases compiled
  · cases aux : compileAuxConstructors info t.auxConstructors with
    | error message => simp [aux, Except.map] at compiled
    | ok list =>
      simp only [aux, Except.map, Except.ok.injEq] at compiled
      subst compiled
      exact ⟨rfl, rfl⟩

theorem compile_all_ok {types : List ClassInfo} {unit : List TemplateDef} :
    ∀ {classes : List CompiledClass}, compileAll types unit = .ok classes →
      classes.map CompiledClass.template = unit ∧
        ∀ c ∈ classes, findTypeByKey types c.template.key = some c.info ∧
          compileTemplate types c.template c.info = .ok c := by
  induction unit with
  | nil =>
    intro classes ok
    cases ok
    simp
  | cons t rest ih =>
    intro classes ok
    rw [compileAll] at ok
    cases found : findTypeByKey types t.key with
    | none => simp [found] at ok
    | some info =>
      simp only [found] at ok
      cases compiled : compileTemplate types t info with
      | error message => simp [compiled] at ok
      | ok c =>
        simp only [compiled] at ok
        cases later : compileAll types rest with
        | error message => simp [later, Except.map] at ok
        | ok others =>
          simp only [later, Except.map, Except.ok.injEq] at ok
          subst ok
          obtain ⟨templates, each⟩ := ih later
          obtain ⟨template_eq, info_eq⟩ := compile_template_fields compiled
          refine ⟨by rw [List.map_cons, templates, template_eq], ?_⟩
          intro other member
          cases List.mem_cons.mp member with
          | inl this =>
            subst this
            rw [template_eq, info_eq]
            exact ⟨found, compiled⟩
          | inr inRest => exact each other inRest

/-- The keys that `declareType` gave to the templates of the units. -/
def keysOf (units : List (List TemplateDef)) : List String :=
  units.flatten.map TemplateDef.key

theorem sound_unit {s next : Session} (sound : Sound s) {unit : List TemplateDef}
    (ok : compileUnit s unit = .ok next)
    (fresh : (s.types.map ClassInfo.key ++ unit.map TemplateDef.key).Nodup) :
    Sound next ∧ next.types.map ClassInfo.key = s.types.map ClassInfo.key ++
      unit.map TemplateDef.key := by
  unfold compileUnit at ok
  cases described : describeAll unit s.types with
  | error message => simp [described] at ok
  | ok types =>
    simp only [described] at ok
    cases compiled : compileAll types unit with
    | error message => simp [compiled, Except.map] at ok
    | ok classes =>
      simp only [compiled, Except.map, Except.ok.injEq] at ok
      subst ok
      have keys := describe_all_keys described
      obtain ⟨linked, ⟨more, rfl⟩, each, only⟩ := describe_all_ok described sound.linked fresh
      obtain ⟨templates, recorded⟩ := compile_all_ok compiled
      have new : ∀ c ∈ classes, Recorded (s.types ++ more) c := by
        intro c member
        obtain ⟨found, fine⟩ := recorded c member
        have inUnit : c.template ∈ unit := templates ▸ List.mem_map_of_mem member
        obtain ⟨info, inTypes, placed, constructors⟩ := each c.template inUnit
        have same : c.info = info := by
          rw [← placed.key_eq, find_of_mem linked.distinct inTypes] at found
          exact (Option.some.inj found).symm
        exact ⟨same ▸ inTypes, same ▸ placed, same ▸ constructors, fine⟩
      refine ⟨⟨linked, ?_, ?_, ?_⟩, keys⟩
      · intro c member
        cases List.mem_append.mp member with
        | inl old => exact recorded_more sound.linked (sound.recorded c old) more
        | inr this => exact new c this
      · intro i member user
        rcases only i member with old | ⟨t, inUnit, same⟩
        · obtain ⟨c, inClasses, info_eq⟩ := sound.every i old user
          exact ⟨c, List.mem_append_left _ inClasses, info_eq⟩
        · rw [← templates] at inUnit
          obtain ⟨c, inClasses, rfl⟩ := List.mem_map.mp inUnit
          refine ⟨c, List.mem_append_right _ inClasses, ?_⟩
          refine eq_of_key linked.distinct (new c inClasses).described member ?_
          rw [(new c inClasses).placed.key_eq, same]
      · have newKeys : classes.map (fun c => c.info.key) = unit.map TemplateDef.key := by
          rw [← templates, List.map_map]
          refine List.map_congr_left ?_
          intro c member
          exact (new c member).placed.key_eq
        rw [List.map_append, newKeys]
        refine List.Nodup.append sound.distinct (List.nodup_append.mp fresh).2.1 ?_
        intro key old inUnit
        obtain ⟨c, inClasses, rfl⟩ := List.mem_map.mp old
        have inside := List.mem_map_of_mem (f := ClassInfo.key)
          (sound.recorded c inClasses).described
        exact (List.nodup_append.mp fresh).2.2 _ inside _ inUnit rfl

theorem sound_run {units : List (List TemplateDef)} :
    ∀ {s last : Session}, Sound s → runUnits units s = .ok last →
      (s.types.map ClassInfo.key ++ keysOf units).Nodup → Sound last := by
  induction units with
  | nil =>
    intro s last sound ok fresh
    cases ok
    exact sound
  | cons unit rest ih =>
    intro s last sound ok fresh
    rw [runUnits] at ok
    have keys_eq : keysOf (unit :: rest) = unit.map TemplateDef.key ++ keysOf rest := by
      simp [keysOf]
    rw [keys_eq, ← List.append_assoc] at fresh
    cases compiled : compileUnit s unit with
    | error message => simp [compiled] at ok
    | ok next =>
      simp only [compiled] at ok
      obtain ⟨soundNext, keys⟩ := sound_unit sound compiled (List.nodup_append.mp fresh).1
      exact ih soundNext ok (keys ▸ fresh)

end ProtoScala.Compiler.Hierarchies
