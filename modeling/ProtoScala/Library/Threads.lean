import Mathlib.Algebra.Order.Group.Multiset
import Mathlib.Data.Multiset.Bind
import Mathlib.Data.Multiset.Filter

/-!
# Interleaved call stacks

A system of threads over one shared state. A thread is a stack of frames, the
innermost call first; one atomic step runs the innermost frame of one thread and
replaces it by the frames it leaves behind. A schedule names the thread of every
step and the choice its frame makes where the frame does not decide for itself.

Invariants are stated over the frames of all threads together, without their
order: `run_invariant` asks for one step of one frame amid arbitrary others, and
`run_invariant_meeting` does so for the schedules whose steps meet a condition,
`run_invariant_admitted` for a condition that does not read the choice.
-/

namespace ProtoScala.Library.Threads

set_option autoImplicit false

variable {Shared Frame Choice : Type}

/-- The shared state and the stacks of all threads. -/
structure Machine (Shared Frame : Type) where
  shared : Shared
  threads : List (List Frame)

/-- What one frame does: the next shared state and the frames that replace it. -/
abbrev FrameStep (Shared Frame Choice : Type) :=
  Choice → Shared → Frame → Shared × List Frame

namespace Machine

/-- One step of one thread; a thread that has returned, or does not exist, does
nothing. -/
def step (frameStep : FrameStep Shared Frame Choice) (machine : Machine Shared Frame)
    (scheduled : Nat × Choice) : Machine Shared Frame :=
  match machine.threads[scheduled.1]? with
  | some (frame :: callers) =>
      let next := frameStep scheduled.2 machine.shared frame
      { shared := next.1
        threads := machine.threads.set scheduled.1 (next.2 ++ callers) }
  | _ => machine

def run (frameStep : FrameStep Shared Frame Choice) (machine : Machine Shared Frame)
    (schedule : List (Nat × Choice)) : Machine Shared Frame :=
  schedule.foldl (step frameStep) machine

/-- Whether a step meets a condition on its choice, the state and the frame it
runs. -/
def meetsStep (met : Choice → Shared → Frame → Bool) (machine : Machine Shared Frame)
    (scheduled : Nat × Choice) : Bool :=
  match machine.threads[scheduled.1]? with
  | some (frame :: _) => met scheduled.2 machine.shared frame
  | _ => true

/-- Whether every step of a schedule meets a condition. -/
def meets (frameStep : FrameStep Shared Frame Choice) (met : Choice → Shared → Frame → Bool) :
    Machine Shared Frame → List (Nat × Choice) → Bool
  | _, [] => true
  | machine, scheduled :: later =>
      machine.meetsStep met scheduled &&
        meets frameStep met (machine.step frameStep scheduled) later

/-- Whether the frame that a step runs is admitted in the state it runs in. -/
def admitsStep (admitted : Shared → Frame → Bool) (machine : Machine Shared Frame)
    (scheduled : Nat × Choice) : Bool :=
  match machine.threads[scheduled.1]? with
  | some (frame :: _) => admitted machine.shared frame
  | _ => true

/-- Whether every step of a schedule is admitted. -/
def admits (frameStep : FrameStep Shared Frame Choice) (admitted : Shared → Frame → Bool) :
    Machine Shared Frame → List (Nat × Choice) → Bool
  | _, [] => true
  | machine, scheduled :: later =>
      machine.admitsStep admitted scheduled &&
        admits frameStep admitted (machine.step frameStep scheduled) later

/-- Whether every step of a schedule meets a condition on the whole machine and the
thread that is scheduled. -/
def Along (frameStep : FrameStep Shared Frame Choice)
    (met : Machine Shared Frame → Nat × Choice → Prop) :
    Machine Shared Frame → List (Nat × Choice) → Prop
  | _, [] => True
  | machine, scheduled :: later =>
      met machine scheduled ∧ Along frameStep met (machine.step frameStep scheduled) later

/-- The frames of all threads. -/
def frames (machine : Machine Shared Frame) : Multiset Frame :=
  (machine.threads.flatten : Multiset Frame)

end Machine

theorem flatten_of_get {threads : List (List Frame)} {thread : Nat} {stack : List Frame}
    (found : threads[thread]? = some stack) :
    ∃ others : Multiset Frame, (threads.flatten : Multiset Frame) = ↑stack + others ∧
      ∀ next : List Frame,
        ((threads.set thread next).flatten : Multiset Frame) = ↑next + others := by
  induction threads generalizing thread with
  | nil => simp at found
  | cons head tail induction =>
      cases thread with
      | zero =>
          obtain rfl : head = stack := by simpa using found
          exact ⟨(tail.flatten : Multiset Frame), by simp, by simp⟩
      | succ thread =>
          obtain ⟨others, whole, replaced⟩ := induction (by simpa using found)
          refine ⟨↑head + others, ?_, ?_⟩
          · rw [List.flatten_cons, ← Multiset.coe_add, whole]
            exact add_left_comm _ _ _
          · intro next
            rw [List.set_cons_succ, List.flatten_cons, ← Multiset.coe_add, replaced]
            exact add_left_comm _ _ _

/-- A step is the step of one frame amid the others, or nothing. -/
theorem step_frames (frameStep : FrameStep Shared Frame Choice)
    (machine : Machine Shared Frame) (scheduled : Nat × Choice) :
    machine.step frameStep scheduled = machine ∨
      ∃ frame others, machine.frames = frame ::ₘ others ∧
        (∀ met : Choice → Shared → Frame → Bool, machine.meetsStep met scheduled = true →
          met scheduled.2 machine.shared frame = true) ∧
        (machine.step frameStep scheduled).shared =
          (frameStep scheduled.2 machine.shared frame).1 ∧
        (machine.step frameStep scheduled).frames =
          ↑(frameStep scheduled.2 machine.shared frame).2 + others := by
  unfold Machine.step Machine.frames Machine.meetsStep
  split
  · next frame callers found =>
      obtain ⟨others, whole, replaced⟩ := flatten_of_get found
      refine Or.inr ⟨frame, ↑callers + others, ?_, ?_, rfl, ?_⟩
      · rw [whole, ← Multiset.cons_coe, Multiset.cons_add]
      · exact fun met holds => holds
      · rw [replaced, ← Multiset.coe_add, add_assoc]
  · exact Or.inl rfl

theorem step_of_get (frameStep : FrameStep Shared Frame Choice) {shared : Shared}
    {threads : List (List Frame)} {thread : Nat} {frame : Frame} {callers : List Frame}
    (found : threads[thread]? = some (frame :: callers)) (choice : Choice) :
    (Machine.mk shared threads).step frameStep (thread, choice) =
      { shared := (frameStep choice shared frame).1
        threads := threads.set thread ((frameStep choice shared frame).2 ++ callers) } := by
  simp only [Machine.step, found]

/-- A step runs the innermost frame of one thread, or nothing. -/
theorem step_thread (frameStep : FrameStep Shared Frame Choice) (machine : Machine Shared Frame)
    (scheduled : Nat × Choice) :
    machine.step frameStep scheduled = machine ∨
      ∃ frame callers, machine.threads[scheduled.1]? = some (frame :: callers) ∧
        machine.step frameStep scheduled =
          { shared := (frameStep scheduled.2 machine.shared frame).1
            threads := machine.threads.set scheduled.1
              ((frameStep scheduled.2 machine.shared frame).2 ++ callers) } := by
  unfold Machine.step
  split
  · next frame callers found => exact Or.inr ⟨frame, callers, found, rfl⟩
  · exact Or.inl rfl

theorem meets_step_of_get (met : Choice → Shared → Frame → Bool) {machine : Machine Shared Frame}
    {scheduled : Nat × Choice} {frame : Frame} {callers : List Frame}
    (found : machine.threads[scheduled.1]? = some (frame :: callers))
    (meets : machine.meetsStep met scheduled = true) :
    met scheduled.2 machine.shared frame = true := by
  simpa only [Machine.meetsStep, found] using meets

theorem run_invariant_along {frameStep : FrameStep Shared Frame Choice}
    {met : Machine Shared Frame → Nat × Choice → Prop} {invariant : Machine Shared Frame → Prop}
    (preserved : ∀ machine scheduled, met machine scheduled → invariant machine →
      invariant (machine.step frameStep scheduled))
    {machine : Machine Shared Frame} (start : invariant machine)
    {schedule : List (Nat × Choice)} (all : machine.Along frameStep met schedule) :
    invariant (machine.run frameStep schedule) := by
  induction schedule generalizing machine with
  | nil => exact start
  | cons scheduled later induction => exact induction (preserved machine scheduled all.1 start) all.2

/-- A condition on the frame that a step runs and on the frames of all threads. -/
def Machine.StepMeets (met : Shared → Frame → Multiset Frame → Prop)
    (machine : Machine Shared Frame) (scheduled : Nat × Choice) : Prop :=
  ∀ frame callers, machine.threads[scheduled.1]? = some (frame :: callers) →
    met machine.shared frame machine.frames

instance (met : Shared → Frame → Multiset Frame → Prop)
    [∀ shared frame frames, Decidable (met shared frame frames)] (machine : Machine Shared Frame)
    (scheduled : Nat × Choice) : Decidable (Machine.StepMeets met machine scheduled) :=
  match found : machine.threads[scheduled.1]? with
  | some (frame :: callers) =>
      decidable_of_iff (met machine.shared frame machine.frames) (by simp [Machine.StepMeets, found])
  | some [] => .isTrue (by simp [Machine.StepMeets, found])
  | none => .isTrue (by simp [Machine.StepMeets, found])

instance decidableAlong (frameStep : FrameStep Shared Frame Choice)
    (met : Machine Shared Frame → Nat × Choice → Prop)
    [∀ machine scheduled, Decidable (met machine scheduled)] :
    ∀ (machine : Machine Shared Frame) (schedule : List (Nat × Choice)),
      Decidable (machine.Along frameStep met schedule)
  | _, [] => .isTrue trivial
  | machine, scheduled :: later =>
      letI := decidableAlong frameStep met (machine.step frameStep scheduled) later
      inferInstanceAs (Decidable (met machine scheduled ∧ _))

/-- What every step of a single frame that meets a condition on all frames
preserves amid arbitrary others holds after every schedule whose steps all meet
it. -/
theorem run_invariant_amid (frameStep : FrameStep Shared Frame Choice)
    (met : Shared → Frame → Multiset Frame → Prop) (invariant : Shared → Multiset Frame → Prop)
    (preserved : ∀ choice shared frame others, met shared frame (frame ::ₘ others) →
      invariant shared (frame ::ₘ others) →
      invariant (frameStep choice shared frame).1 (↑(frameStep choice shared frame).2 + others))
    {machine : Machine Shared Frame} (start : invariant machine.shared machine.frames)
    {schedule : List (Nat × Choice)}
    (all : machine.Along frameStep (Machine.StepMeets met) schedule) :
    invariant (machine.run frameStep schedule).shared (machine.run frameStep schedule).frames := by
  have step : ∀ (machine : Machine Shared Frame) (scheduled : Nat × Choice),
      machine.StepMeets met scheduled → invariant machine.shared machine.frames →
      invariant (machine.step frameStep scheduled).shared
        (machine.step frameStep scheduled).frames := by
    intro machine scheduled meets holds
    unfold Machine.step Machine.frames
    split
    · next frame callers found =>
        obtain ⟨others, whole, replaced⟩ := flatten_of_get found
        have here := meets frame callers found
        unfold Machine.frames at here holds
        rw [whole, ← Multiset.cons_coe, Multiset.cons_add] at here holds
        rw [replaced, ← Multiset.coe_add, add_assoc]
        exact preserved scheduled.2 machine.shared frame (↑callers + others) here holds
    · exact holds
  exact run_invariant_along step start all

theorem along_of_meets {frameStep : FrameStep Shared Frame Choice}
    {met : Choice → Shared → Frame → Bool} {machine : Machine Shared Frame}
    {schedule : List (Nat × Choice)} (all : machine.meets frameStep met schedule = true) :
    machine.Along frameStep (fun machine scheduled => machine.meetsStep met scheduled = true)
      schedule := by
  induction schedule generalizing machine with
  | nil => trivial
  | cons scheduled later induction =>
      simp only [Machine.meets, Bool.and_eq_true] at all
      exact ⟨all.1, induction all.2⟩

theorem along_and {frameStep : FrameStep Shared Frame Choice}
    {met met' : Machine Shared Frame → Nat × Choice → Prop} {machine : Machine Shared Frame}
    {schedule : List (Nat × Choice)} (first : machine.Along frameStep met schedule)
    (second : machine.Along frameStep met' schedule) :
    machine.Along frameStep (fun machine scheduled => met machine scheduled ∧ met' machine scheduled)
      schedule := by
  induction schedule generalizing machine with
  | nil => trivial
  | cons scheduled later induction =>
      exact ⟨⟨first.1, second.1⟩, induction first.2 second.2⟩

theorem admits_step_of_get (admitted : Shared → Frame → Bool) {shared : Shared}
    {threads : List (List Frame)} {thread : Nat} {frame : Frame} {callers : List Frame}
    (found : threads[thread]? = some (frame :: callers)) (choice : Choice) :
    (Machine.mk shared threads).admitsStep admitted (thread, choice) = admitted shared frame := by
  simp only [Machine.admitsStep, found]

theorem admits_append (frameStep : FrameStep Shared Frame Choice) (admitted : Shared → Frame → Bool)
    (machine : Machine Shared Frame) (past later : List (Nat × Choice)) :
    machine.admits frameStep admitted (past ++ later) =
      (machine.admits frameStep admitted past &&
        (machine.run frameStep past).admits frameStep admitted later) := by
  induction past generalizing machine with
  | nil => simp [Machine.admits, Machine.run]
  | cons scheduled rest induction =>
      simp only [List.cons_append, Machine.admits, induction, Bool.and_assoc]
      rfl

theorem admits_eq_meets (frameStep : FrameStep Shared Frame Choice)
    (admitted : Shared → Frame → Bool) (machine : Machine Shared Frame)
    (schedule : List (Nat × Choice)) :
    machine.admits frameStep admitted schedule =
      machine.meets frameStep (fun _ => admitted) schedule := by
  induction schedule generalizing machine with
  | nil => rfl
  | cons scheduled later induction =>
      simp only [Machine.admits, Machine.meets, induction]
      rfl

theorem meets_append (frameStep : FrameStep Shared Frame Choice)
    (met : Choice → Shared → Frame → Bool) (machine : Machine Shared Frame)
    (past later : List (Nat × Choice)) :
    machine.meets frameStep met (past ++ later) =
      (machine.meets frameStep met past &&
        (machine.run frameStep past).meets frameStep met later) := by
  induction past generalizing machine with
  | nil => simp [Machine.meets, Machine.run]
  | cons scheduled rest induction =>
      simp only [List.cons_append, Machine.meets, induction, Bool.and_assoc]
      rfl

/-- What every step of a single frame that meets the condition preserves amid
arbitrary others holds after every schedule whose steps all meet it. -/
theorem run_invariant_meeting (frameStep : FrameStep Shared Frame Choice)
    (met : Choice → Shared → Frame → Bool) (invariant : Shared → Multiset Frame → Prop)
    (preserved : ∀ choice shared frame others, met choice shared frame = true →
      invariant shared (frame ::ₘ others) →
      invariant (frameStep choice shared frame).1 (↑(frameStep choice shared frame).2 + others))
    {machine : Machine Shared Frame} (start : invariant machine.shared machine.frames)
    {schedule : List (Nat × Choice)}
    (all : machine.meets frameStep met schedule = true) :
    invariant (machine.run frameStep schedule).shared (machine.run frameStep schedule).frames := by
  induction schedule generalizing machine with
  | nil => exact start
  | cons scheduled later induction =>
      simp only [Machine.meets, Bool.and_eq_true] at all
      apply induction
      · rcases step_frames frameStep machine scheduled with
          same | ⟨frame, others, whole, top, next, left⟩
        · rw [same]
          exact start
        · rw [next, left]
          rw [whole] at start
          exact preserved scheduled.2 machine.shared frame others (top met all.1) start
      · exact all.2

/-- What every admitted step of a single frame amid arbitrary others preserves
holds after every schedule whose steps are all admitted. -/
theorem run_invariant_admitted (frameStep : FrameStep Shared Frame Choice)
    (admitted : Shared → Frame → Bool) (invariant : Shared → Multiset Frame → Prop)
    (preserved : ∀ choice shared frame others, admitted shared frame = true →
      invariant shared (frame ::ₘ others) →
      invariant (frameStep choice shared frame).1 (↑(frameStep choice shared frame).2 + others))
    {machine : Machine Shared Frame} (start : invariant machine.shared machine.frames)
    {schedule : List (Nat × Choice)}
    (all : machine.admits frameStep admitted schedule = true) :
    invariant (machine.run frameStep schedule).shared (machine.run frameStep schedule).frames := by
  rw [admits_eq_meets] at all
  exact run_invariant_meeting frameStep (fun _ => admitted) invariant preserved start all

theorem admits_every (frameStep : FrameStep Shared Frame Choice)
    (machine : Machine Shared Frame) (schedule : List (Nat × Choice)) :
    machine.admits frameStep (fun _ _ => true) schedule = true := by
  induction schedule generalizing machine with
  | nil => rfl
  | cons scheduled later induction =>
      simp only [Machine.admits, induction, Bool.and_true]
      unfold Machine.admitsStep
      split <;> rfl

/-- What every step of a single frame amid arbitrary others preserves holds
after every schedule. -/
theorem run_invariant (frameStep : FrameStep Shared Frame Choice)
    (invariant : Shared → Multiset Frame → Prop)
    (preserved : ∀ choice shared frame others, invariant shared (frame ::ₘ others) →
      invariant (frameStep choice shared frame).1 (↑(frameStep choice shared frame).2 + others))
    {machine : Machine Shared Frame} (start : invariant machine.shared machine.frames)
    (schedule : List (Nat × Choice)) :
    invariant (machine.run frameStep schedule).shared (machine.run frameStep schedule).frames :=
  run_invariant_admitted frameStep (fun _ _ => true) invariant
    (fun choice shared frame others _ => preserved choice shared frame others) start
    (admits_every frameStep machine schedule)

/-- An item that no two frames share is had by at most one frame. -/
theorem count_le_one_of_nodup {Item : Type} [DecidableEq Item] {items : Frame → Multiset Item}
    {frames : List Frame} (apart : ((frames : Multiset Frame).bind items).Nodup) (item : Item) :
    frames.countP (fun frame => decide (item ∈ items frame)) ≤ 1 := by
  induction frames with
  | nil => exact Nat.zero_le 1
  | cons frame rest induction =>
      rw [← Multiset.cons_coe, Multiset.cons_bind] at apart
      obtain ⟨-, restApart, disjoint⟩ := Multiset.nodup_add.mp apart
      have later := induction restApart
      by_cases here : item ∈ items frame
      · have none : rest.countP (fun frame => decide (item ∈ items frame)) = 0 := by
          apply List.countP_eq_zero.mpr
          intro other member
          have elsewhere := Multiset.disjoint_left.mp disjoint here
          simp only [Multiset.mem_bind, Multiset.mem_coe, not_exists, not_and] at elsewhere
          simpa using elsewhere other member
        simp [here, none]
      · simpa [here] using later

/-- A kind of frame that occurs at most once occurs in one thread only. -/
theorem same_thread_of_once {threads : List (List Frame)} {kind : Frame → Bool}
    (once : threads.flatten.countP kind ≤ 1) {i j : Nat} {stack stack' : List Frame}
    (first : threads[i]? = some stack) (second : threads[j]? = some stack')
    (inFirst : ∃ frame ∈ stack, kind frame = true)
    (inSecond : ∃ frame ∈ stack', kind frame = true) : i = j := by
  have occurs : ∀ {stack : List Frame}, (∃ frame ∈ stack, kind frame = true) →
      0 < stack.countP kind := List.countP_pos_iff.mpr
  induction threads generalizing i j with
  | nil => simp at first
  | cons head tail induction =>
      have split : head.countP kind + tail.flatten.countP kind ≤ 1 := by
        simpa using once
      have inTail : ∀ {k : Nat} {stack : List Frame}, tail[k]? = some stack →
          (∃ frame ∈ stack, kind frame = true) → 0 < tail.flatten.countP kind := by
        intro k stack found ⟨frame, member, holds⟩
        exact List.countP_pos_iff.mpr
          ⟨frame, List.mem_flatten.mpr ⟨stack, List.mem_of_getElem? found, member⟩, holds⟩
      cases i with
      | zero =>
          cases j with
          | zero => rfl
          | succ j =>
              obtain rfl : head = stack := by simpa using first
              have here := occurs inFirst
              have there := inTail (by simpa using second) inSecond
              omega
      | succ i =>
          cases j with
          | zero =>
              obtain rfl : head = stack' := by simpa using second
              have here := occurs inSecond
              have there := inTail (by simpa using first) inFirst
              omega
          | succ j =>
              have same := induction (by omega) (by simpa using first) (by simpa using second)
              rw [same]

end ProtoScala.Library.Threads
