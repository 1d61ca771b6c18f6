import Mathlib.Data.Fintype.Defs
import ProtoScala.Library.Processes
import ProtoScala.Library.PublishOnce

/-!
# Lazy values and objects

`makeLazy` builds a mutable holder with a thunk; an `object` is the holder that
`compileObjectHolder` makes, whose thunk instantiates the class. `force` tests the
holder for a stored value, runs the thunk when there is none, and stores the result:
three steps with arbitrary code in the middle and no lock around them. A thread is
the stack of its `force` calls, since a thunk may force other values.

Two threads that both find the holder empty both run the thunk, and so does a thunk
that forces its own holder. Where no run of a thunk starts while another run for the
same holder is between its test and its store, the initialiser completes once and all
forces return its value.
-/

namespace ProtoScala.Runtime.LazyValues

open ProtoScala.Library.Processes
open ProtoScala.Library.PublishOnce

set_option autoImplicit false

variable {Thread Value : Type}

/-- A call of `force` by where it stands. -/
inductive Frame (Value : Type) where
  | testing (value : Value)
  | running (holder : Value)
  | storing (holder result : Value)
  deriving DecidableEq, Repr

/-- What the code of a thread does: it forces a value, the call at hand goes on, or
the thunk it runs ends with a result or throws. -/
inductive Move (Value : Type) where
  | force (value : Value)
  | advance
  | complete (result : Value)
  | throw
  deriving DecidableEq, Repr

/-- The stored values of the holders, the thunks that completed and what the calls of
`force` returned. -/
structure Heap (Thread Value : Type) where
  stored : Value → Option Value
  completed : List (Value × Value)
  returned : List (Thread × Value × Value)

variable [DecidableEq Value]

/-- The test of `force`: a value that is no lazy holder is its own result. -/
def test (isLazy : Value → Bool) (thread : Thread) (heap : Heap Thread Value) (value : Value)
    (callers : List (Frame Value)) : Heap Thread Value × List (Frame Value) :=
  if isLazy value then
    match heap.stored value with
    | some result => ({ heap with returned := (thread, value, result) :: heap.returned }, callers)
    | none => (heap, .running value :: callers)
  else ({ heap with returned := (thread, value, value) :: heap.returned }, callers)

def act (isLazy : Value → Bool) :
    Act (Heap Thread Value) Thread (List (Frame Value)) (Move Value) :=
  fun move thread heap stack =>
    match move, stack with
    | .force value, [] => (heap, [.testing value])
    | .force value, .running holder :: callers =>
        (heap, .testing value :: .running holder :: callers)
    | .advance, .testing value :: callers => test isLazy thread heap value callers
    | .complete result, .running holder :: callers =>
        ({ heap with completed := (holder, result) :: heap.completed },
          .storing holder result :: callers)
    | .throw, .running _ :: callers => (heap, callers)
    | .advance, .storing holder result :: callers =>
        ({ heap with
            stored := Function.update heap.stored holder (some result)
            returned := (thread, holder, result) :: heap.returned }, callers)
    | _, stack => (heap, stack)

abbrev Forcing (Thread Value : Type) := System (Heap Thread Value) Thread (List (Frame Value))

/-- No value has been forced. -/
def unforced : Forcing Thread Value where
  shared := { stored := fun _ => none, completed := [], returned := [] }
  locals := fun _ => []

def Frame.holder : Frame Value → Option Value
  | .testing _ => none
  | .running holder | .storing holder _ => some holder

def Frame.result : Frame Value → Option (Value × Value)
  | .storing holder result => some (holder, result)
  | .testing _ | .running _ => none

/-- The holders whose thunk a thread has started and whose result it has not stored. -/
def initialising (stack : List (Frame Value)) : List Value := stack.filterMap Frame.holder

def results (stack : List (Frame Value)) : List (Value × Value) := stack.filterMap Frame.result

/-- The holder whose thunk a step starts. -/
def starts (isLazy : Value → Bool) (system : Forcing Thread Value) (turn : Thread × Move Value) :
    Option Value :=
  match turn.2, system.locals turn.1 with
  | .advance, .testing value :: _ =>
      if isLazy value && (system.shared.stored value).isNone then some value else none
  | _, _ => none

/-- A thunk is started only while no thread, this one included, is between the test
and the store of the same holder. -/
def StartsAlone (isLazy : Value → Bool) (system : Forcing Thread Value)
    (turn : Thread × Move Value) : Prop :=
  ∀ value ∈ starts isLazy system turn, ∀ thread, value ∉ initialising (system.locals thread)

instance [Fintype Thread] (isLazy : Value → Bool) (system : Forcing Thread Value)
    (turn : Thread × Move Value) : Decidable (StartsAlone isLazy system turn) :=
  inferInstanceAs (Decidable (∀ value ∈ starts isLazy system turn, ∀ thread,
    value ∉ initialising (system.locals thread)))

variable [DecidableEq Thread]

/-- An initialiser completes once, the forces of a value that return agree, and a
thunk that throws leaves the holder as it was before it was forced, so that the next
force runs the thunk again. -/
structure InitialisedOnce (isLazy : Value → Bool) (system : Forcing Thread Value) : Prop where
  completes : ∀ holder,
    (system.shared.completed.filter fun entry => decide (entry.1 = holder)).length ≤ 1
  same : ∀ first second value result result', (first, value, result) ∈ system.shared.returned →
    (second, value, result') ∈ system.shared.returned → result = result'
  retry : ∀ thread holder callers, system.locals thread = .running holder :: callers →
    let after := system.step (act isLazy) (thread, .throw)
    after.shared.stored holder = none ∧
      (∀ other, holder ∉ initialising (after.locals other)) ∧
      ∀ other callers', after.locals other = .testing holder :: callers' →
        (after.step (act isLazy) (other, .advance)).locals other = .running holder :: callers'

omit [DecidableEq Value] in
theorem results_initialising (stack : List (Frame Value)) :
    ∀ entry ∈ results stack, entry.1 ∈ initialising stack := by
  intro entry member
  obtain ⟨frame, inside, result⟩ := List.mem_filterMap.mp member
  refine List.mem_filterMap.mpr ⟨frame, inside, ?_⟩
  cases frame with
  | storing holder value =>
      cases result
      rfl
  | testing | running => cases result

/-- The forces of lazy holders that returned. -/
def forced (isLazy : Value → Bool) (returned : List (Thread × Value × Value)) :
    List (Thread × Value × Value) :=
  returned.filter fun entry => isLazy entry.2.1

omit [DecidableEq Value] [DecidableEq Thread] in
theorem forced_cons (isLazy : Value → Bool) (entry : Thread × Value × Value)
    (returned : List (Thread × Value × Value)) :
    forced isLazy (entry :: returned) =
      if isLazy entry.2.1 then entry :: forced isLazy returned else forced isLazy returned :=
  List.filter_cons

/-- The state of the holders while no initialiser has run twice. -/
structure OnceIn (isLazy : Value → Bool) (system : Forcing Thread Value) : Prop where
  once : Once system.shared.stored system.shared.completed (forced isLazy system.shared.returned)
    (fun thread => initialising (system.locals thread)) (fun thread => results (system.locals thread))
  lazy : ∀ thread, ∀ holder ∈ initialising (system.locals thread), isLazy holder = true
  plain : ∀ thread value result, (thread, value, result) ∈ system.shared.returned →
    isLazy value = false → result = value

theorem once_act {isLazy : Value → Bool} {heldOf : Thread → List Value}
    {pendingOf : Thread → List (Value × Value)} {thread : Thread} {heap : Heap Thread Value}
    {stack : List (Frame Value)} {move : Move Value}
    (ownHeld : heldOf thread = initialising stack) (ownPending : pendingOf thread = results stack)
    (lazy : ∀ holder ∈ initialising stack, isLazy holder = true)
    (alone : ∀ value callers, move = .advance → stack = .testing value :: callers →
      isLazy value = true → heap.stored value = none → ∀ other, value ∉ heldOf other)
    (once : Once heap.stored heap.completed (forced isLazy heap.returned) heldOf pendingOf) :
    Once (act isLazy move thread heap stack).1.stored (act isLazy move thread heap stack).1.completed
      (forced isLazy (act isLazy move thread heap stack).1.returned)
      (Function.update heldOf thread (initialising (act isLazy move thread heap stack).2))
      (Function.update pendingOf thread (results (act isLazy move thread heap stack).2)) := by
  have stay : Once heap.stored heap.completed (forced isLazy heap.returned)
      (Function.update heldOf thread (initialising stack))
      (Function.update pendingOf thread (results stack)) := by
    rwa [← ownHeld, ← ownPending, Function.update_eq_self, Function.update_eq_self]
  unfold act
  split
  · exact stay
  · exact stay
  · next value callers =>
      unfold test
      split
      · next isHolder =>
          split
          · next result found =>
              rw [forced_cons, if_pos isHolder]
              exact once_obtain stay found
          · next missing =>
              have taken : Once _ _ _ (Function.update heldOf thread (value :: heldOf thread))
                  pendingOf := once_take once (alone value callers rfl rfl isHolder missing) missing
              rw [ownHeld] at taken
              have same : Function.update pendingOf thread (results (.running value :: callers)) =
                  pendingOf := by
                rw [show results (.running value :: callers) = pendingOf thread from ownPending.symm]
                exact Function.update_eq_self _ _
              rw [same]
              exact taken
      · next plain =>
          rw [forced_cons, if_neg plain]
          exact stay
  · next result holder callers =>
      have completed := once_complete once ownHeld
        (ownPending ▸ results_initialising callers) result
      rw [ownPending] at completed
      have same : Function.update heldOf thread (initialising (.storing holder result :: callers)) =
          heldOf := by
        rw [show initialising (.storing holder result :: callers) = heldOf thread from ownHeld.symm]
        exact Function.update_eq_self _ _
      rw [same]
      exact completed
  · next holder callers =>
      have released := once_abandon once ownHeld (ownPending ▸ results_initialising callers)
      have same : Function.update pendingOf thread (results callers) = pendingOf := by
        rw [show results callers = pendingOf thread from ownPending.symm]
        exact Function.update_eq_self _ _
      rw [same]
      exact released
  · next holder result callers =>
      have stored := once_publish once ownHeld ownPending (results_initialising callers)
      have isHolder : isLazy holder = true := lazy holder List.mem_cons_self
      rw [forced_cons, if_pos isHolder]
      exact once_obtain stored (Function.update_self _ _ _)
  · exact stay

omit [DecidableEq Thread] in
/-- A step starts thunks of lazy holders only. -/
theorem lazy_act {isLazy : Value → Bool} {thread : Thread} {heap : Heap Thread Value}
    {stack : List (Frame Value)} (move : Move Value)
    (lazy : ∀ holder ∈ initialising stack, isLazy holder = true) :
    ∀ holder ∈ initialising (act isLazy move thread heap stack).2, isLazy holder = true := by
  unfold act
  split
  · exact lazy
  · exact lazy
  · next value callers =>
      unfold test
      split
      · next isHolder =>
          split
          · exact lazy
          · intro holder member
            rcases List.mem_cons.mp member with rfl | inside
            · exact isHolder
            · exact lazy holder inside
      · exact lazy
  · exact lazy
  · exact fun holder member => lazy holder (List.mem_cons_of_mem _ member)
  · exact fun holder member => lazy holder (List.mem_cons_of_mem _ member)
  · exact lazy

omit [DecidableEq Thread] in
theorem plain_act {isLazy : Value → Bool} {thread : Thread} {heap : Heap Thread Value}
    {stack : List (Frame Value)} (move : Move Value)
    (lazy : ∀ holder ∈ initialising stack, isLazy holder = true)
    (plain : ∀ thread value result, (thread, value, result) ∈ heap.returned →
      isLazy value = false → result = value) :
    ∀ other value result,
      (other, value, result) ∈ (act isLazy move thread heap stack).1.returned →
      isLazy value = false → result = value := by
  unfold act
  split
  · exact plain
  · exact plain
  · next value callers =>
      unfold test
      split
      · next isHolder =>
          split
          · intro other value' result member unlazy
            rcases List.mem_cons.mp member with equal | earlier
            · obtain ⟨-, rfl, -⟩ : other = thread ∧ value' = value ∧ _ = _ := by
                simpa using equal
              exact absurd isHolder (by simp [unlazy])
            · exact plain other value' result earlier unlazy
          · exact plain
      · intro other value' result member unlazy
        rcases List.mem_cons.mp member with equal | earlier
        · obtain ⟨-, rfl, rfl⟩ : other = thread ∧ value' = value ∧ result = value := by
            simpa using equal
          rfl
        · exact plain other value' result earlier unlazy
  · exact plain
  · exact plain
  · next holder stored callers =>
      intro other value' result member unlazy
      rcases List.mem_cons.mp member with equal | earlier
      · obtain ⟨-, rfl, -⟩ : other = thread ∧ value' = holder ∧ result = stored := by
          simpa using equal
        exact absurd (lazy value' List.mem_cons_self) (by simp [unlazy])
      · exact plain other value' result earlier unlazy
  · exact plain

theorem once_step {isLazy : Value → Bool} (system : Forcing Thread Value)
    (turn : Thread × Move Value) (alone : StartsAlone isLazy system turn)
    (once : OnceIn isLazy system) : OnceIn isLazy (system.step (act isLazy) turn) := by
  have own := once.lazy turn.1
  refine ⟨?_, ?_, plain_act turn.2 own once.plain⟩
  · unfold System.step
    simp only [map_update]
    refine once_act ?_ ?_ own ?_ once.once
    · rfl
    · rfl
    · intro value callers advances top isHolder missing
      apply alone value
      simp [starts, advances, top, isHolder, missing]
  · intro other
    by_cases same : other = turn.1
    · subst same
      simpa [System.step] using lazy_act turn.2 own
    · simpa [System.step, Function.update_of_ne same] using once.lazy other

omit [DecidableEq Value] [DecidableEq Thread] in
theorem once_unforced (isLazy : Value → Bool) : OnceIn isLazy (unforced : Forcing Thread Value) where
  once := once_nothing (fun _ => rfl) (fun _ => rfl)
  lazy := by simp [unforced, initialising]
  plain := by simp [unforced]

/-- A thunk that throws leaves its holder free. -/
theorem retry_of_once {isLazy : Value → Bool} {system : Forcing Thread Value}
    (once : OnceIn isLazy system) {thread : Thread} {holder : Value} {callers : List (Frame Value)}
    (top : system.locals thread = .running holder :: callers) :
    let after := system.step (act isLazy) (thread, .throw)
    after.shared.stored holder = none ∧
      (∀ other, holder ∉ initialising (after.locals other)) ∧
      ∀ other callers', after.locals other = .testing holder :: callers' →
        (after.step (act isLazy) (other, .advance)).locals other = .running holder :: callers' := by
  have inside : holder ∈ initialising (system.locals thread) := by
    rw [top]
    exact List.mem_cons_self
  have missing : system.shared.stored holder = none := once.once.unpublished thread holder inside
  have isHolder := once.lazy thread holder inside
  have next : system.step (act isLazy) (thread, .throw) =
      { system with locals := Function.update system.locals thread callers } := by
    simp [System.step, act, top]
  rw [next]
  refine ⟨missing, ?_, ?_⟩
  · intro other member
    by_cases same : other = thread
    · subst same
      have nodup : (holder :: initialising callers).Nodup := by
        have whole := once.once.nodup other
        rwa [top] at whole
      exact (List.nodup_cons.mp nodup).1 (by simpa using member)
    · have theirs : holder ∈ initialising (system.locals other) := by
        simpa [Function.update_of_ne same] using member
      exact same (once.once.exclusive thread other holder inside theirs)
  · intro other callers' testing
    have locals : (Function.update system.locals thread callers) other = .testing holder :: callers' :=
      testing
    simp [System.step, act, test, locals, isHolder, missing]

theorem initialised_once_of_once {isLazy : Value → Bool} {system : Forcing Thread Value}
    (once : OnceIn isLazy system) : InitialisedOnce isLazy system where
  completes := once.once.completes_once
  same := by
    intro first second value result result' left right
    cases isHolder : isLazy value with
    | true =>
        exact once.once.obtained_same (List.mem_filter.mpr ⟨left, isHolder⟩)
          (List.mem_filter.mpr ⟨right, isHolder⟩)
    | false =>
        rw [once.plain first value result left isHolder,
          once.plain second value result' right isHolder]
  retry := fun _ _ _ top => retry_of_once once top

/-- The first force throws, the second runs the thunk again, and another thread then
finds its result. -/
def forcedAgain : List (Fin 2 × Move Nat) :=
  [(0, .force 5), (0, .advance), (0, .throw), (0, .force 5), (0, .advance), (0, .complete 9),
    (0, .advance), (1, .force 5), (1, .advance)]

/-- Both threads find the holder of an object empty. -/
def forcedTogether : List (Fin 2 × Move Nat) :=
  [(0, .force 5), (1, .force 5), (0, .advance), (1, .advance), (0, .complete 9),
    (1, .complete 10), (0, .advance), (1, .advance)]

end ProtoScala.Runtime.LazyValues
