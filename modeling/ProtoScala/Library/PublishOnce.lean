import Mathlib.Data.List.Nodup
import Mathlib.Logic.Function.Basic

/-!
# Publishing a value once

Any number of processes compute the values of keys and publish them. A process that
computes a key's value holds the key from the moment it found the value missing; it
completes the value, publishes it and lets go of the key, or gives up and lets go. A
process may hold several keys, the innermost first, and the values it has completed
and not published are pending.

`Once` is what holds as long as a key is only taken when nobody holds it and no value
is published for it: a key is completed once, and everybody obtains that value. The
lemmas say that each transition keeps it.
-/

namespace ProtoScala.Library.PublishOnce

set_option autoImplicit false

variable {Key Value Process : Type}

structure Once (published : Key → Option Value) (completed : List (Key × Value))
    (obtained : List (Process × Key × Value)) (heldOf : Process → List Key)
    (pendingOf : Process → List (Key × Value)) : Prop where
  nodup : ∀ process, (heldOf process).Nodup
  exclusive : ∀ process other key, key ∈ heldOf process → key ∈ heldOf other → other = process
  unpublished : ∀ process, ∀ key ∈ heldOf process, published key = none
  pendingHeld : ∀ process, ∀ entry ∈ pendingOf process, entry.1 ∈ heldOf process
  origin : ∀ key value, (key, value) ∈ completed ↔
    published key = some value ∨ ∃ process, (key, value) ∈ pendingOf process
  completedOnce : (completed.map Prod.fst).Nodup
  obtainedPublished : ∀ process key value, (process, key, value) ∈ obtained →
    published key = some value

variable {published : Key → Option Value} {completed : List (Key × Value)}
  {obtained : List (Process × Key × Value)} {heldOf : Process → List Key}
  {pendingOf : Process → List (Key × Value)}

theorem once_nothing (empty : ∀ process, heldOf process = [])
    (nothing : ∀ process, pendingOf process = []) :
    Once (fun _ => none) [] [] heldOf pendingOf := by
  refine ⟨?_, ?_, ?_, ?_, ?_, ?_, ?_⟩ <;> simp [empty, nothing]

/-- A key completes once. -/
theorem Once.completes_once [DecidableEq Key]
    (once : Once published completed obtained heldOf pendingOf) (key : Key) :
    (completed.filter fun entry => decide (entry.1 = key)).length ≤ 1 := by
  have count := List.nodup_iff_count_le_one.mp once.completedOnce key
  rw [List.count_eq_countP, List.countP_map] at count
  rw [← List.countP_eq_length_filter]
  exact count

/-- All who obtain the value of a key obtain the same one. -/
theorem Once.obtained_same (once : Once published completed obtained heldOf pendingOf)
    {first second : Process} {key : Key} {value value' : Value}
    (left : (first, key, value) ∈ obtained) (right : (second, key, value') ∈ obtained) :
    value = value' := by
  have one := once.obtainedPublished first key value left
  rw [once.obtainedPublished second key value' right] at one
  exact (Option.some.inj one).symm

/-- While a process has not completed the key it holds, nobody has. -/
theorem Once.not_completed (once : Once published completed obtained heldOf pendingOf)
    {process : Process} {key : Key} {outer : List Key} (top : heldOf process = key :: outer)
    (below : ∀ entry ∈ pendingOf process, entry.1 ∈ outer) (value : Value) :
    (key, value) ∉ completed := by
  have own : key ∈ heldOf process := top ▸ List.mem_cons_self
  have nodup := once.nodup process
  rw [top, List.nodup_cons] at nodup
  intro member
  rcases (once.origin key value).mp member with found | ⟨other, waiting⟩
  · rw [once.unpublished process key own] at found
    cases found
  · obtain rfl := once.exclusive process other key own (once.pendingHeld other _ waiting)
    exact nodup.1 (below _ waiting)

theorem once_obtain (once : Once published completed obtained heldOf pendingOf)
    {process : Process} {key : Key} {value : Value} (found : published key = some value) :
    Once published completed ((process, key, value) :: obtained) heldOf pendingOf := by
  refine { once with obtainedPublished := ?_ }
  intro other key' value' member
  rcases List.mem_cons.mp member with equal | earlier
  · obtain ⟨-, rfl, rfl⟩ : other = process ∧ key' = key ∧ value' = value := by simpa using equal
    exact found
  · exact once.obtainedPublished other key' value' earlier

variable [DecidableEq Process] {process : Process}

/-- The entries of all processes when one of them changes its own. -/
theorem exists_update (entries : List (Key × Value)) (entry : Key × Value) :
    (∃ other, entry ∈ Function.update pendingOf process entries other) ↔
      entry ∈ entries ∨ ∃ other, other ≠ process ∧ entry ∈ pendingOf other := by
  constructor
  · rintro ⟨other, member⟩
    by_cases same : other = process
    · subst same
      exact Or.inl (by simpa using member)
    · exact Or.inr ⟨other, same, by simpa [Function.update_of_ne same] using member⟩
  · rintro (member | ⟨other, differs, member⟩)
    · exact ⟨process, by simpa using member⟩
    · exact ⟨other, by simpa [Function.update_of_ne differs] using member⟩

/-- A process takes a key that nobody holds and that has no value. -/
theorem once_take (once : Once published completed obtained heldOf pendingOf) {key : Key}
    (free : ∀ other, key ∉ heldOf other) (fresh : published key = none) :
    Once published completed obtained
      (Function.update heldOf process (key :: heldOf process)) pendingOf := by
  have held : ∀ other key', key' ∈ Function.update heldOf process (key :: heldOf process) other →
      (other = process ∧ key' = key) ∨ key' ∈ heldOf other := by
    intro other key' member
    by_cases same : other = process
    · subst same
      simpa using member
    · exact Or.inr (by simpa [Function.update_of_ne same] using member)
  refine { once with nodup := ?_, exclusive := ?_, unpublished := ?_, pendingHeld := ?_ }
  · intro other
    by_cases same : other = process
    · subst same
      simpa using ⟨free other, once.nodup other⟩
    · simpa [Function.update_of_ne same] using once.nodup other
  · intro first second key' left right
    rcases held first key' left with ⟨rfl, rfl⟩ | before
    · rcases held second key' right with ⟨same, -⟩ | before
      · exact same
      · exact absurd before (free second)
    · rcases held second key' right with ⟨-, rfl⟩ | before'
      · exact absurd before (free first)
      · exact once.exclusive first second key' before before'
  · intro other key' member
    rcases held other key' member with ⟨-, rfl⟩ | member
    · exact fresh
    · exact once.unpublished other key' member
  · intro other entry member
    have before := once.pendingHeld other entry member
    by_cases same : other = process
    · subst same
      simpa using Or.inr before
    · simpa [Function.update_of_ne same] using before

/-- A process completes the value of the key it took last. -/
theorem once_complete (once : Once published completed obtained heldOf pendingOf) {key : Key}
    {outer : List Key} (top : heldOf process = key :: outer)
    (below : ∀ entry ∈ pendingOf process, entry.1 ∈ outer) (value : Value) :
    Once published ((key, value) :: completed) obtained heldOf
      (Function.update pendingOf process ((key, value) :: pendingOf process)) := by
  refine { once with pendingHeld := ?_, origin := ?_, completedOnce := ?_ }
  · intro other entry member
    by_cases same : other = process
    · subst same
      rw [Function.update_self] at member
      rcases List.mem_cons.mp member with rfl | earlier
      · rw [top]
        exact List.mem_cons_self
      · exact once.pendingHeld other entry earlier
    · rw [Function.update_of_ne same] at member
      exact once.pendingHeld other entry member
  · intro key' value'
    rw [exists_update, List.mem_cons, List.mem_cons, once.origin key' value']
    constructor
    · rintro (same | found | ⟨other, waiting⟩)
      · exact Or.inr (Or.inl (Or.inl same))
      · exact Or.inl found
      · by_cases same : other = process
        · subst same
          exact Or.inr (Or.inl (Or.inr waiting))
        · exact Or.inr (Or.inr ⟨other, same, waiting⟩)
    · rintro (found | (same | waiting) | ⟨other, -, waiting⟩)
      · exact Or.inr (Or.inl found)
      · exact Or.inl same
      · exact Or.inr (Or.inr ⟨process, waiting⟩)
      · exact Or.inr (Or.inr ⟨other, waiting⟩)
  · refine List.nodup_cons.mpr ⟨?_, once.completedOnce⟩
    intro member
    obtain ⟨⟨key', value'⟩, inside, rfl⟩ := List.mem_map.mp member
    exact once.not_completed top below value' inside

/-- What the holders keep when one of them lets go of its innermost key. -/
theorem held_released {key : Key} {outer : List Key} (top : heldOf process = key :: outer)
    {other : Process} {key' : Key}
    (member : key' ∈ Function.update heldOf process outer other) : key' ∈ heldOf other := by
  by_cases same : other = process
  · subst same
    rw [Function.update_self] at member
    rw [top]
    exact List.mem_cons_of_mem _ member
  · simpa [Function.update_of_ne same] using member

theorem nodup_released {key : Key} {outer : List Key} (top : heldOf process = key :: outer)
    (nodup : ∀ other, (heldOf other).Nodup) (other : Process) :
    (Function.update heldOf process outer other).Nodup := by
  by_cases same : other = process
  · subst same
    have own := nodup other
    rw [top, List.nodup_cons] at own
    simpa using own.2
  · simpa [Function.update_of_ne same] using nodup other

theorem pending_released {outer : List Key} {entries : List (Key × Value)}
    (pendingHeld : ∀ other, ∀ entry ∈ pendingOf other, entry.1 ∈ heldOf other)
    (below : ∀ entry ∈ entries, entry.1 ∈ outer) (other : Process) :
    ∀ entry ∈ Function.update pendingOf process entries other,
      entry.1 ∈ Function.update heldOf process outer other := by
  by_cases same : other = process
  · subst same
    simpa using below
  · simpa [Function.update_of_ne same] using pendingHeld other

/-- A process gives up the key it took last. -/
theorem once_abandon (once : Once published completed obtained heldOf pendingOf) {key : Key}
    {outer : List Key} (top : heldOf process = key :: outer)
    (below : ∀ entry ∈ pendingOf process, entry.1 ∈ outer) :
    Once published completed obtained (Function.update heldOf process outer) pendingOf := by
  refine { once with
    nodup := nodup_released top once.nodup, exclusive := ?_, unpublished := ?_, pendingHeld := ?_ }
  · intro first second key' left right
    exact once.exclusive first second key' (held_released top left) (held_released top right)
  · intro other key' member
    exact once.unpublished other key' (held_released top member)
  · have kept : ∀ other, ∀ entry ∈ Function.update pendingOf process (pendingOf process) other,
        entry.1 ∈ Function.update heldOf process outer other :=
      pending_released once.pendingHeld below
    rwa [Function.update_eq_self] at kept

/-- A process publishes the value of the key it took last. -/
theorem once_publish [DecidableEq Key]
    (once : Once published completed obtained heldOf pendingOf) {key : Key} {outer : List Key}
    {value : Value} {others : List (Key × Value)} (top : heldOf process = key :: outer)
    (waiting : pendingOf process = (key, value) :: others)
    (below : ∀ entry ∈ others, entry.1 ∈ outer) :
    Once (Function.update published key (some value)) completed obtained
      (Function.update heldOf process outer) (Function.update pendingOf process others) := by
  have own : key ∈ heldOf process := top ▸ List.mem_cons_self
  have nodup := once.nodup process
  rw [top, List.nodup_cons] at nodup
  have completes : (key, value) ∈ completed :=
    (once.origin key value).mpr (Or.inr ⟨process, waiting ▸ List.mem_cons_self⟩)
  have released : ∀ other, key ∉ Function.update heldOf process outer other := by
    intro other member
    by_cases same : other = process
    · subst same
      exact nodup.1 (by simpa using member)
    · exact same (once.exclusive process other key own (held_released top member))
  have pendingHeld : ∀ other, ∀ entry ∈ Function.update pendingOf process others other,
      entry.1 ∈ Function.update heldOf process outer other :=
    pending_released once.pendingHeld below
  refine ⟨nodup_released top once.nodup, ?_, ?_, pendingHeld, ?_, once.completedOnce, ?_⟩
  · intro first second key' left right
    exact once.exclusive first second key' (held_released top left) (held_released top right)
  · intro other key' member
    have differs : key' ≠ key := fun same => released other (same ▸ member)
    rw [Function.update_of_ne differs]
    exact once.unpublished other key' (held_released top member)
  · intro key' value'
    by_cases same : key' = key
    · subst same
      rw [Function.update_self, Option.some.injEq]
      constructor
      · intro member
        -- the same key completed once, so with the same value
        have equal := List.inj_on_of_nodup_map once.completedOnce completes member rfl
        exact Or.inl (congrArg Prod.snd equal)
      · rintro (rfl | ⟨other, member⟩)
        · exact completes
        · exact absurd (pendingHeld other _ member) (released other)
    · rw [Function.update_of_ne same, exists_update, once.origin key' value']
      refine or_congr Iff.rfl ⟨?_, ?_⟩
      · rintro ⟨other, member⟩
        by_cases mine : other = process
        · subst mine
          rw [waiting] at member
          rcases List.mem_cons.mp member with equal | later
          · exact absurd (congrArg Prod.fst equal) same
          · exact Or.inl later
        · exact Or.inr ⟨other, mine, member⟩
      · rintro (member | ⟨other, -, member⟩)
        · exact ⟨process, waiting ▸ List.mem_cons_of_mem _ member⟩
        · exact ⟨other, member⟩
  · intro other key' value' member
    have found := once.obtainedPublished other key' value' member
    by_cases same : key' = key
    · subst same
      rw [once.unpublished process key' own] at found
      cases found
    · rwa [Function.update_of_ne same]

end ProtoScala.Library.PublishOnce
