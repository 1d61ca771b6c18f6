import Mathlib.Algebra.Order.Group.Multiset
import Mathlib.Data.Multiset.Filter

/-!
# Histories of a stack

The sequential stack that a concurrent one is compared with. A history lists the
effects of the operations in the order in which they took place: `Replays` says
that a sequential stack, empty at first, can take them one by one and ends with
the given contents.
-/

namespace ProtoScala.Library.StackHistory

set_option autoImplicit false

variable {V : Type}

/-- What an operation did: `empty` is a pop that found nothing. -/
inductive Event (V : Type)
  | push (value : V)
  | pop (value : V)
  | empty
deriving DecidableEq, Repr

inductive Replays : List (Event V) → List V → Prop
  | start : Replays [] []
  | push {history : List (Event V)} {stack : List V} (value : V) :
      Replays history stack → Replays (history ++ [Event.push value]) (value :: stack)
  | pop {history : List (Event V)} {stack : List V} {value : V} :
      Replays history (value :: stack) → Replays (history ++ [Event.pop value]) stack
  | empty {history : List (Event V)} :
      Replays history [] → Replays (history ++ [Event.empty]) []

namespace Event

def pushed? : Event V → Option V
  | push value => some value
  | _ => none

def popped? : Event V → Option V
  | pop value => some value
  | _ => none

end Event

def pushed (history : List (Event V)) : Multiset V :=
  (history.filterMap Event.pushed? : Multiset V)

def popped (history : List (Event V)) : Multiset V :=
  (history.filterMap Event.popped? : Multiset V)

/-- Nothing is lost and nothing is duplicated: what was pushed was popped or is
still there. -/
theorem pushed_eq_popped_add {history : List (Event V)} {stack : List V}
    (replays : Replays history stack) : pushed history = popped history + ↑stack := by
  unfold pushed popped
  induction replays with
  | start => rfl
  | push value _ induction =>
      rw [List.filterMap_append, List.filterMap_append, ← Multiset.coe_add, ← Multiset.coe_add,
        induction, ← Multiset.cons_coe]
      simp only [Event.pushed?, Event.popped?, List.filterMap_cons, List.filterMap_nil,
        Multiset.coe_nil, add_zero, Multiset.coe_singleton]
      rw [Multiset.add_cons, add_comm, Multiset.singleton_add]
  | pop _ induction =>
      rw [List.filterMap_append, List.filterMap_append, ← Multiset.coe_add, ← Multiset.coe_add,
        induction, ← Multiset.cons_coe]
      simp only [Event.pushed?, Event.popped?, List.filterMap_cons, List.filterMap_nil,
        Multiset.coe_nil, add_zero, Multiset.coe_singleton]
      rw [add_assoc, Multiset.singleton_add]
  | empty _ induction =>
      rw [List.filterMap_append, List.filterMap_append, ← Multiset.coe_add, ← Multiset.coe_add,
        induction]
      simp only [Event.pushed?, Event.popped?, List.filterMap_cons, List.filterMap_nil,
        Multiset.coe_nil, add_zero]

/-- What an event says of the stack it found. -/
def Event.Finds : Event V → List V → Prop
  | .push _, _ => True
  | .pop value, stack => ∃ rest, stack = value :: rest
  | .empty, stack => stack = []

/-- Every event of a history found the stack as the earlier events left it. -/
theorem replays_at {history : List (Event V)} {stack : List V} (replays : Replays history stack)
    {place : Nat} {event : Event V} (there : history[place]? = some event) :
    ∃ found, Replays (history.take place) found ∧ event.Finds found := by
  have last : ∀ {earlier : List (Event V)} {found : List V} {added : Event V},
      Replays earlier found → added.Finds found →
      (earlier[place]? = some event →
        ∃ found, Replays (earlier.take place) found ∧ event.Finds found) →
      (earlier ++ [added])[place]? = some event →
      ∃ found, Replays ((earlier ++ [added]).take place) found ∧ event.Finds found := by
    intro earlier found added before finds induction there
    rcases Nat.lt_trichotomy place earlier.length with less | same | more
    · rw [List.getElem?_append_left less] at there
      rw [List.take_append_of_le_length (by omega)]
      exact induction there
    · rw [same, List.getElem?_concat_length] at there
      rw [same, List.take_left]
      rw [← Option.some.inj there]
      exact ⟨found, before, finds⟩
    · rw [List.getElem?_eq_none (by simp; omega)] at there
      contradiction
  induction replays with
  | start => simp at there
  | push value before induction => exact last before trivial induction there
  | pop before induction => exact last before ⟨_, rfl⟩ induction there
  | empty before induction => exact last before rfl induction there

end ProtoScala.Library.StackHistory
