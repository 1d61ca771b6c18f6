import Mathlib.Data.List.Induction

/-!
# Histories of a queue

The sequential queue that a concurrent one is compared with: values are pushed one
by one and taken all together. A history lists the effects of the operations in
the order in which they took place, `replay` runs it on an empty queue.
-/

namespace ProtoScala.Library.QueueHistory

set_option autoImplicit false

variable {V : Type}

/-- What an operation did, and what it answered. -/
inductive Event (V : Type)
  | push (value : V)
  | takeAll (batch : List V)
  | isEmpty (answer : Bool)
deriving DecidableEq, Repr

namespace Event

def pushed? : Event V → Option V
  | push value => some value
  | _ => none

def batch : Event V → List V
  | takeAll batch => batch
  | _ => []

variable [DecidableEq V]

/-- The queue after an operation; none where it did not answer as the queue does. -/
def after (queue : List V) : Event V → Option (List V)
  | push value => some (queue ++ [value])
  | takeAll batch => if batch = queue then some [] else none
  | isEmpty answer => if answer = queue.isEmpty then some queue else none

end Event

def pushed (history : List (Event V)) : List V :=
  history.filterMap Event.pushed?

def taken (history : List (Event V)) : List V :=
  history.flatMap Event.batch

section Replay

variable [DecidableEq V]

def replay (history : List (Event V)) : Option (List V) :=
  history.foldlM Event.after []

theorem replay_append (history : List (Event V)) (event : Event V) :
    replay (history ++ [event]) = (replay history).bind fun queue => event.after queue := by
  simp only [replay, List.foldlM_append, List.foldlM_cons, List.foldlM_nil, bind_pure]
  rfl

/-- Every part of a history, from its start, replays too. -/
theorem replay_take {history : List (Event V)} {queue : List V}
    (replays : replay history = some queue) (place : Nat) :
    ∃ found, replay (history.take place) = some found := by
  rw [← List.take_append_drop place history, replay, List.foldlM_append] at replays
  obtain ⟨found, before, -⟩ := Option.bind_eq_some_iff.mp replays
  exact ⟨found, before⟩

/-- Every operation of a history answered as the queue then was. -/
theorem replay_at {history : List (Event V)} {queue : List V}
    (replays : replay history = some queue) {place : Nat} {event : Event V}
    (there : history[place]? = some event) :
    ∃ found, replay (history.take place) = some found ∧ (event.after found).isSome := by
  obtain ⟨inside, rfl⟩ := List.getElem?_eq_some_iff.mp there
  obtain ⟨next, after⟩ := replay_take replays (place + 1)
  rw [List.take_succ_eq_append_getElem inside, replay_append] at after
  obtain ⟨found, before, step⟩ := Option.bind_eq_some_iff.mp after
  exact ⟨found, before, by rw [step]; rfl⟩

/-- Nothing is lost, nothing is doubled and nothing is overtaken: the batches one after the other,
and then what is still queued, are what was pushed, in the order in which it was pushed. -/
theorem pushed_eq_taken_append {history : List (Event V)} {queue : List V}
    (replays : replay history = some queue) : pushed history = taken history ++ queue := by
  induction history using List.reverseRecOn generalizing queue with
  | nil =>
      obtain rfl : [] = queue := by simpa [replay] using replays
      rfl
  | append_singleton earlier event induction =>
      rw [replay_append] at replays
      obtain ⟨found, before, step⟩ := Option.bind_eq_some_iff.mp replays
      have sofar := induction before
      unfold pushed taken at sofar ⊢
      rw [List.filterMap_append, List.flatMap_append, sofar]
      cases event with
      | push value =>
          obtain rfl : found ++ [value] = queue := Option.some.inj step
          simp [Event.pushed?, Event.batch]
      | takeAll batch =>
          simp only [Event.after, Option.ite_none_right_eq_some, Option.some.injEq] at step
          obtain ⟨rfl, rfl⟩ := step
          simp [Event.pushed?, Event.batch]
      | isEmpty answer =>
          simp only [Event.after, Option.ite_none_right_eq_some, Option.some.injEq] at step
          obtain ⟨-, rfl⟩ := step
          simp [Event.pushed?, Event.batch]

end Replay

end ProtoScala.Library.QueueHistory
