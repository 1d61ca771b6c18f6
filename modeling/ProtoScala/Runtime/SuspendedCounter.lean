import Mathlib.Data.Set.Card
import ProtoScala.Runtime.SchedulerSuspension

/-!
# The counter of suspended actors

`finishTurn` parks an actor by a compare-and-swap and counts it afterwards;
`resume` wakes it by another one and takes it off the count afterwards. The
counter is the number of parked actors, less those that are parked and not
counted yet, plus those that are woken and still counted, modulo its width. It
falls below zero when a wake overtakes the count of the park it undoes.
-/

namespace ProtoScala.Runtime.SuspendedCounter

open ProtoScala.Library.Threads
open ProtoScala.Runtime.ActorScheduler
open ProtoScala.Runtime.SchedulerClaims

set_option autoImplicit false

def suspendedActors (s : Shared) : Set ActorId := {a | s.sched a = .suspended}

/-- The actor a frame has parked and not counted. -/
def uncounted : Frame → Multiset ActorId
  | .finish a _ .parkCount => {a}
  | _ => 0

/-- The actor a frame has woken and not taken off the count. -/
def uncleared : Frame → Multiset ActorId
  | .resume a .count => {a}
  | _ => 0

section

attribute [local simp] uncounted uncleared

end

def parking (frames : Multiset Frame) : Multiset ActorId := frames.bind uncounted

def waking (frames : Multiset Frame) : Multiset ActorId := frames.bind uncleared

/-- A step that has nothing to do with parking. -/
structure Quiet (s : Shared) (frame : Frame) (next : Shared × List Frame) : Prop where
  suspended : suspendedActors next.1 = suspendedActors s
  counter : next.1.suspended = s.suspended
  before : uncounted frame = 0 ∧ uncleared frame = 0
  after : ∀ left ∈ next.2, uncounted left = 0 ∧ uncleared left = 0

/-- The four steps that park, count, wake and clear, and all others. -/
inductive CounterStep (s : Shared) : Frame → Shared × List Frame → Prop
  | quiet (frame : Frame) (next : Shared × List Frame) (quiet : Quiet s frame next) :
      CounterStep s frame next
  | park (a : ActorId) (home : Option Phase) (claimed : s.sched a = .claimed) :
      CounterStep s (.finish a home .park) (s.setSched a .suspended, [.finish a home .parkCount])
  | counted (a : ActorId) (home : Option Phase) :
      CounterStep s (.finish a home .parkCount)
        ({ s with suspended := s.suspended + 1 }, back home)
  | wake (a : ActorId) (suspended : s.sched a = .suspended) :
      CounterStep s (.resume a .wake) (s.setSched a .claimed, [.resume a .count])
  | cleared (a : ActorId) :
      CounterStep s (.resume a .count)
        ({ s with suspended := s.suspended - 1 }, [.handoff a (.pendingOf .high)])

theorem suspended_congr {s s' : Shared} (same : ∀ a, s'.sched a = s.sched a) :
    suspendedActors s' = suspendedActors s := by
  unfold suspendedActors
  ext a
  rw [Set.mem_ofPred_eq, Set.mem_ofPred_eq, same a]

/-- The word of an actor that is not suspended moves to another such value. -/
theorem suspended_setSched (s : Shared) {a : ActorId} {sched : Sched}
    (before : s.sched a ≠ .suspended) (after : sched ≠ .suspended) :
    suspendedActors (s.setSched a sched) = suspendedActors s := by
  ext a'
  by_cases same : a' = a
  · subst same
    simp [suspendedActors, before, after]
  · simp [suspendedActors, same]

theorem back_quiet (home : Option Phase) :
    ∀ left ∈ back home, uncounted left = 0 ∧ uncleared left = 0 := by
  cases home <;> simp [back, uncounted, uncleared]

/-- A step that leaves every word `sched` and the counter. -/
theorem quiet_of_same {s s' : Shared} {frame : Frame} {next : List Frame}
    (same : ∀ a, s'.sched a = s.sched a) (counter : s'.suspended = s.suspended)
    (before : uncounted frame = 0 ∧ uncleared frame = 0)
    (after : ∀ left ∈ next, uncounted left = 0 ∧ uncleared left = 0) :
    CounterStep s frame (s', next) :=
  .quiet _ _ ⟨suspended_congr same, counter, before, after⟩

/-- A step that moves one word `sched` between two values that do not mean
suspended. -/
theorem quiet_of_moved {s : Shared} {a : ActorId} {sched : Sched} {frame : Frame}
    {next : List Frame} (leaves : s.sched a ≠ .suspended) (after : sched ≠ .suspended)
    (before : uncounted frame = 0 ∧ uncleared frame = 0)
    (left : ∀ left ∈ next, uncounted left = 0 ∧ uncleared left = 0) :
    CounterStep s frame (s.setSched a sched, next) :=
  .quiet _ _ ⟨suspended_setSched s leaves after, rfl, before, left⟩

theorem send_counter (s : Shared) (a : ActorId) (b : Band) (pc : SendPc) :
    CounterStep s (.send a b pc) (sendStep s a b pc) := by
  cases pc with
  | push env =>
      refine quiet_of_same (fun a' => ?_) rfl ⟨rfl, rfl⟩ (by simp [uncounted, uncleared])
      by_cases same : a' = a
      · subst same
        simp [Shared.sched]
      · simp [Shared.sched, same]
  | load =>
      rw [sendStep]
      split <;>
        exact quiet_of_same (fun _ => rfl) rfl ⟨rfl, rfl⟩ (by simp [uncounted, uncleared])
  | claim =>
      rw [sendStep]
      split_ifs with idle
      · exact quiet_of_moved (by simp [idle]) (by decide) ⟨rfl, rfl⟩ (by simp [uncounted, uncleared])
      · exact quiet_of_same (fun _ => rfl) rfl ⟨rfl, rfl⟩ (by simp [uncounted, uncleared])
  | mark =>
      rw [sendStep]
      split_ifs with claimed
      · exact quiet_of_moved (by simp [claimed]) (by decide) ⟨rfl, rfl⟩ (by simp)
      · exact quiet_of_same (fun _ => rfl) rfl ⟨rfl, rfl⟩ (by simp [uncounted, uncleared])

theorem resume_counter (s : Shared) (a : ActorId) (pc : ResumePc) :
    CounterStep s (.resume a pc) (resumeStep s a pc) := by
  cases pc with
  | load =>
      rw [resumeStep]
      split <;>
        exact quiet_of_same (fun _ => rfl) rfl ⟨rfl, rfl⟩ (by simp [uncounted, uncleared])
  | wake =>
      rw [resumeStep]
      split_ifs with suspended
      · exact .wake a suspended
      · exact quiet_of_same (fun _ => rfl) rfl ⟨rfl, rfl⟩ (by simp [uncounted, uncleared])
  | count => exact .cleared a
  | mark =>
      rw [resumeStep]
      split_ifs with claimed
      · exact quiet_of_moved (by simp [claimed]) (by decide) ⟨rfl, rfl⟩ (by simp)
      · exact quiet_of_same (fun _ => rfl) rfl ⟨rfl, rfl⟩ (by simp [uncounted, uncleared])
  | claim =>
      rw [resumeStep]
      split_ifs with idle
      · exact quiet_of_moved (by simp [idle]) (by decide) ⟨rfl, rfl⟩ (by simp [uncounted, uncleared])
      · exact quiet_of_same (fun _ => rfl) rfl ⟨rfl, rfl⟩ (by simp [uncounted, uncleared])

/-- A call of `finishTurn` works for an actor that is not suspended. -/
theorem finish_counter (s : Shared) (a : ActorId) (home : Option Phase) (pc : FinishPc)
    (claimed : holds a (.finish a home pc) = true → claimsOf (s.sched a) = 1)
    (scans : scansClaimed (.finish a home pc) = true) :
    CounterStep s (.finish a home pc) (finishStep s a home pc) := by
  have later := back_quiet home
  have handed : ∀ left ∈ Frame.handoff a (.pendingOf .high) :: back home,
      uncounted left = 0 ∧ uncleared left = 0 := by
    intro left member
    rcases List.mem_cons.mp member with rfl | rest
    · exact ⟨rfl, rfl⟩
    · exact later left rest
  cases pc with
  | park =>
      rw [finishStep]
      split_ifs with claimed
      · exact .park a home claimed
      · exact quiet_of_same (fun _ => rfl) rfl ⟨rfl, rfl⟩ (by simp [uncounted, uncleared])
  | parkCount => exact .counted a home
  | unpark =>
      have once := claimed (by simp [holds])
      refine quiet_of_moved ?_ (by decide) ⟨rfl, rfl⟩ handed
      intro suspended
      rw [suspended] at once
      cases once
  | load =>
      rw [finishStep]
      split_ifs <;>
        exact quiet_of_same (fun _ => rfl) rfl ⟨rfl, rfl⟩ (by simp [uncounted, uncleared])
  | demote =>
      rw [finishStep]
      split_ifs with wake
      · exact quiet_of_moved (by simp [wake]) (by decide) ⟨rfl, rfl⟩ (by simp [uncounted, uncleared])
      · exact quiet_of_same (fun _ => rfl) rfl ⟨rfl, rfl⟩ (by simp [uncounted, uncleared])
  | pendingOf loaded b =>
      rw [finishStep]
      split_ifs
      · exact quiet_of_same (fun _ => rfl) rfl ⟨rfl, rfl⟩ handed
      · exact quiet_of_same (fun _ => rfl) rfl ⟨rfl, rfl⟩ (by simp [uncounted, uncleared])
  | mailboxOf loaded b =>
      rw [finishStep]
      split_ifs
      · exact quiet_of_same (fun _ => rfl) rfl ⟨rfl, rfl⟩ handed
      · split <;>
          exact quiet_of_same (fun _ => rfl) rfl ⟨rfl, rfl⟩ (by simp [uncounted, uncleared])
  | release loaded =>
      obtain rfl : loaded = .claimed := by simpa [scansClaimed] using scans
      rw [finishStep]
      split_ifs with equal
      · exact quiet_of_moved (by simp [equal]) (by decide) ⟨rfl, rfl⟩ later
      · exact quiet_of_same (fun _ => rfl) rfl ⟨rfl, rfl⟩ (by simp [uncounted, uncleared])

/-- A step that changes no word `sched` and not the counter. -/
def Untouched (s : Shared) (next : Shared × List Frame) : Prop :=
  (∀ a, next.1.sched a = s.sched a) ∧ next.1.suspended = s.suspended ∧
    ∀ left ∈ next.2, uncounted left = 0 ∧ uncleared left = 0

theorem complete_frames_quiet (future : Option FutureId) (value : Ref) (failed : Bool) :
    ∀ left ∈ completeFrames future value failed, uncounted left = 0 ∧ uncleared left = 0 := by
  cases future <;> simp [completeFrames, uncounted, uncleared]

theorem running_untouched (choice : Choice) (s : Shared) (a : ActorId) (home : Option Phase)
    (call : Invocation) : Untouched s (runningStep choice s a home call) := by
  have replied : ∀ (value : Ref) (failed : Bool) (pc : TurnPc),
      ∀ left ∈ completeFrames call.future value failed ++ [Frame.turn a home pc],
        uncounted left = 0 ∧ uncleared left = 0 := by
    intro value failed pc left member
    rcases List.mem_append.mp member with completes | goes
    · exact complete_frames_quiet _ _ _ left completes
    · rw [List.mem_singleton] at goes
      rw [goes]
      exact ⟨rfl, rfl⟩
  cases choice with
  | returns newState reply => exact ⟨by simp [runningStep], rfl, replied _ _ _⟩
  | throws error => exact ⟨fun _ => rfl, rfl, replied _ _ _⟩
  | _ => exact ⟨by simp [runningStep], rfl, by simp [runningStep, uncounted, uncleared]⟩

theorem await_untouched (choice : Choice) (s : Shared) (a : ActorId) (home : Option Phase)
    (pc : TurnPc) : Untouched s (awaitStep choice s a home pc) := by
  unfold awaitStep
  repeat' split
  all_goals exact ⟨by simp, rfl, by simp [uncounted, uncleared]⟩

theorem turn_untouched (choice : Choice) (s : Shared) (a : ActorId) (home : Option Phase)
    (pc : TurnPc) : Untouched s (turnStep choice s a home pc) := by
  unfold turnStep
  split
  · split_ifs <;> exact ⟨by simp, rfl, by simp [uncounted, uncleared]⟩
  · split <;> exact ⟨by simp, rfl, by simp [uncounted, uncleared]⟩
  · split_ifs <;> exact ⟨by simp, rfl, by simp [uncounted, uncleared]⟩
  · exact ⟨by simp, rfl, by simp [uncounted, uncleared]⟩
  · exact ⟨by simp, rfl, by simp [uncounted, uncleared]⟩
  · split <;> exact ⟨by simp, rfl, by simp [uncounted, uncleared]⟩
  · split
    · exact ⟨by simp, rfl, by simp [uncounted, uncleared]⟩
    · split <;> exact ⟨by simp, rfl, by simp [uncounted, uncleared]⟩
  · exact ⟨by simp, rfl, by simp [uncounted, uncleared]⟩
  · exact ⟨fun _ => rfl, rfl, by simp [uncounted, uncleared]⟩
  · exact ⟨by simp, rfl, by simp [uncounted, uncleared]⟩
  · exact running_untouched choice s a home _
  · exact await_untouched choice s a home _

theorem worker_untouched (s : Shared) (pc : WorkerPc) : Untouched s (workerStep s pc) := by
  unfold workerStep Phase.nothingReady
  repeat' split
  all_goals exact ⟨by simp [Shared.sched], rfl, by simp [uncounted, uncleared]⟩

theorem handoff_untouched (s : Shared) (a : ActorId) (pc : HandoffPc) :
    Untouched s (handoffStep s a pc) := by
  unfold handoffStep
  repeat' split
  all_goals exact ⟨by simp [Shared.sched], rfl, by simp [uncounted, uncleared]⟩

theorem complete_untouched (s : Shared) (f : FutureId) (pc : CompletePc) :
    Untouched s (completeStep s f pc) := by
  unfold completeStep
  repeat' split
  all_goals exact ⟨by simp, rfl, by simp [uncounted, uncleared]⟩

theorem continuations_untouched (s : Shared) (f : FutureId) (pc : ContinuationsPc) :
    Untouched s (continuationsStep s f pc) := by
  unfold continuationsStep
  repeat' split
  all_goals exact ⟨by simp, rfl, by simp [uncounted, uncleared]⟩

theorem on_complete_untouched (s : Shared) (f : FutureId) (k : Ref) (pc : OnCompletePc) :
    Untouched s (onCompleteStep s f k pc) := by
  unfold onCompleteStep
  repeat' split
  all_goals exact ⟨by simp, rfl, by simp [uncounted, uncleared]⟩

theorem user_untouched (choice : Choice) (s : Shared) : Untouched s (userStep choice s) := by
  unfold userStep
  repeat' split
  all_goals exact ⟨by simp, rfl, by simp [uncounted, uncleared]⟩

theorem shutdown_untouched (s : Shared) (pc : ShutdownPc) : Untouched s (shutdownStep s pc) := by
  unfold shutdownStep
  split
  all_goals exact ⟨by simp [Shared.sched], rfl, by simp [uncounted, uncleared]⟩

theorem quiet_of_untouched {s : Shared} {frame : Frame} {next : Shared × List Frame}
    (before : uncounted frame = 0 ∧ uncleared frame = 0) (untouched : Untouched s next) :
    CounterStep s frame next :=
  quiet_of_same untouched.1 untouched.2.1 before untouched.2.2

theorem step_counter (choice : Choice) (s : Shared) (frame : Frame)
    (claimed : ∀ a, holds a frame = true → claimsOf (s.sched a) = 1)
    (scans : scansClaimed frame = true) : CounterStep s frame (frameStep choice s frame) := by
  cases frame with
  | send a b pc => exact send_counter s a b pc
  | resume a pc => exact resume_counter s a pc
  | finish a home pc => exact finish_counter s a home pc (claimed a) scans
  | handoff a pc => exact quiet_of_untouched ⟨rfl, rfl⟩ (handoff_untouched s a pc)
  | worker pc => exact quiet_of_untouched ⟨rfl, rfl⟩ (worker_untouched s pc)
  | turn a home pc => exact quiet_of_untouched ⟨rfl, rfl⟩ (turn_untouched choice s a home pc)
  | complete f pc => exact quiet_of_untouched ⟨rfl, rfl⟩ (complete_untouched s f pc)
  | continuations f pc => exact quiet_of_untouched ⟨rfl, rfl⟩ (continuations_untouched s f pc)
  | onComplete f k pc => exact quiet_of_untouched ⟨rfl, rfl⟩ (on_complete_untouched s f k pc)
  | user => exact quiet_of_untouched ⟨rfl, rfl⟩ (user_untouched choice s)
  | shutdown pc => exact quiet_of_untouched ⟨rfl, rfl⟩ (shutdown_untouched s pc)

/-- The counter of every reached state, with what the threads still owe it. -/
structure Counted (s : Shared) (frames : Multiset Frame) : Prop where
  finite : (suspendedActors s).Finite
  balance : s.suspended + BitVec.ofNat 32 (parking frames).card =
    BitVec.ofNat 32 ((suspendedActors s).ncard + (waking frames).card)

/-- Every park that is not counted yet still stands. -/
structure Standing (s : Shared) (frames : Multiset Frame) : Prop where
  once : (parking frames).Nodup
  suspended : ∀ a ∈ parking frames, s.sched a = .suspended

theorem parking_cons (frame : Frame) (others : Multiset Frame) :
    parking (frame ::ₘ others) = uncounted frame + parking others := Multiset.cons_bind _ _ _

theorem waking_cons (frame : Frame) (others : Multiset Frame) :
    waking (frame ::ₘ others) = uncleared frame + waking others := Multiset.cons_bind _ _ _

theorem parking_left {left : List Frame} (others : Multiset Frame)
    (none : ∀ frame ∈ left, uncounted frame = 0 ∧ uncleared frame = 0) :
    parking (↑left + others) = parking others ∧ waking (↑left + others) = waking others := by
  have counted : (↑left : Multiset Frame).bind uncounted = 0 := by
    refine Multiset.eq_zero_of_forall_notMem fun a member => ?_
    obtain ⟨frame, inside, here⟩ := Multiset.mem_bind.mp member
    simp [(none frame inside).1] at here
  have cleared : (↑left : Multiset Frame).bind uncleared = 0 := by
    refine Multiset.eq_zero_of_forall_notMem fun a member => ?_
    obtain ⟨frame, inside, here⟩ := Multiset.mem_bind.mp member
    simp [(none frame inside).2] at here
  unfold parking waking
  rw [Multiset.add_bind, Multiset.add_bind, counted, cleared, zero_add, zero_add]
  exact ⟨rfl, rfl⟩

theorem suspended_parked (s : Shared) (a : ActorId) :
    suspendedActors (s.setSched a .suspended) = insert a (suspendedActors s) := by
  ext a'
  by_cases same : a' = a
  · subst same
    simp [suspendedActors]
  · simp [suspendedActors, same]

theorem suspended_woken (s : Shared) (a : ActorId) :
    suspendedActors (s.setSched a .claimed) = suspendedActors s \ {a} := by
  ext a'
  by_cases same : a' = a
  · subst same
    simp [suspendedActors]
  · simp [suspendedActors, same]

theorem counted_step (choice : Choice) (s : Shared) (frame : Frame) (others : Multiset Frame)
    (claimed : ClaimedOnce s (frame ::ₘ others)) (counted : Counted s (frame ::ₘ others)) :
    Counted (frameStep choice s frame).1 (↑(frameStep choice s frame).2 + others) := by
  have step := step_counter choice s frame (fun a held => (claimed_of_holds claimed held).2.2)
    (claimed.scans frame (Multiset.mem_cons_self frame others))
  obtain ⟨finite, balance⟩ := counted
  rw [parking_cons, waking_cons] at balance
  generalize frameStep choice s frame = next at step
  cases step with
  | quiet frame next quiet =>
      obtain ⟨same, kept, ⟨noPark, noWake⟩, after⟩ := quiet
      obtain ⟨parks, wakes⟩ := parking_left others after
      rw [noPark, noWake, zero_add, zero_add] at balance
      refine ⟨same ▸ finite, ?_⟩
      rw [parks, wakes, same, kept]
      exact balance
  | park a home free =>
      have fresh : a ∉ suspendedActors s := by simp [suspendedActors, free]
      have one : parking (↑[Frame.finish a home .parkCount] + others) = a ::ₘ parking others := by
        simp [parking, uncounted]
      have none : waking (↑[Frame.finish a home .parkCount] + others) = waking others := by
        simp [waking, uncleared]
      refine ⟨?_, ?_⟩
      · rw [suspended_parked]
        exact finite.insert a
      · rw [suspended_parked, Set.ncard_insert_of_notMem fresh finite, one, none,
          Multiset.card_cons, BitVec.ofNat_add, ← BitVec.add_assoc]
        change s.suspended + _ + _ = _
        simp only [uncounted, uncleared, zero_add] at balance
        rw [balance, ← BitVec.ofNat_add]
        congr 1
        omega
  | counted a home =>
      obtain ⟨parks, wakes⟩ := parking_left others (back_quiet home)
      refine ⟨finite, ?_⟩
      rw [parks, wakes]
      change s.suspended + 1 + _ = BitVec.ofNat 32 ((suspendedActors s).ncard + _)
      simp only [uncounted, uncleared, zero_add, Multiset.card_add, Multiset.card_singleton,
        BitVec.ofNat_add] at balance
      rw [BitVec.add_assoc, BitVec.ofNat_add]
      exact balance
  | wake a parked =>
      have member : a ∈ suspendedActors s := parked
      have positive := (Set.ncard_pos finite).mpr ⟨a, member⟩
      have none : parking (↑[Frame.resume a .count] + others) = parking others := by
        simp [parking, uncounted]
      have one : waking (↑[Frame.resume a .count] + others) = a ::ₘ waking others := by
        simp [waking, uncleared]
      refine ⟨?_, ?_⟩
      · rw [suspended_woken]
        exact finite.subset Set.sdiff_subset
      · rw [suspended_woken, Set.ncard_sdiff_singleton_of_mem member, one, none, Multiset.card_cons]
        simp only [uncounted, uncleared, zero_add] at balance
        change s.suspended + _ = _
        rw [balance]
        congr 1
        omega
  | cleared a =>
      have after : ∀ left ∈ [Frame.handoff a (.pendingOf .high)],
          uncounted left = 0 ∧ uncleared left = 0 := by simp [uncounted, uncleared]
      obtain ⟨parks, wakes⟩ := parking_left others after
      refine ⟨finite, ?_⟩
      rw [parks, wakes]
      change s.suspended - 1 + _ = BitVec.ofNat 32 ((suspendedActors s).ncard + _)
      simp only [uncounted, uncleared, zero_add, Multiset.card_add, Multiset.card_singleton] at balance
      have whole : BitVec.ofNat 32 ((suspendedActors s).ncard + (1 + (waking others).card)) =
          BitVec.ofNat 32 ((suspendedActors s).ncard + (waking others).card) + 1 := by
        rw [← Nat.add_assoc, Nat.add_right_comm, BitVec.ofNat_add]
        rfl
      rw [whole] at balance
      rw [BitVec.sub_add_comm, balance]
      exact BitVec.add_sub_cancel _ _

/-- The actor a frame is about to wake. -/
def wakes : Frame → Multiset ActorId
  | .resume a .wake => {a}
  | _ => 0

/-- A wake undoes a park that has been counted. -/
def CountedBeforeWoken (_ : Shared) (frame : Frame) (frames : Multiset Frame) : Prop :=
  ∀ a ∈ wakes frame, a ∉ parking frames

instance (s : Shared) (frame : Frame) (frames : Multiset Frame) :
    Decidable (CountedBeforeWoken s frame frames) :=
  inferInstanceAs (Decidable (∀ a ∈ wakes frame, a ∉ parking frames))

theorem standing_step (choice : Choice) (s : Shared) (frame : Frame) (others : Multiset Frame)
    (claimed : ClaimedOnce s (frame ::ₘ others))
    (ordered : CountedBeforeWoken s frame (frame ::ₘ others))
    (standing : Standing s (frame ::ₘ others)) :
    Standing (frameStep choice s frame).1 (↑(frameStep choice s frame).2 + others) := by
  have step := step_counter choice s frame (fun a held => (claimed_of_holds claimed held).2.2)
    (claimed.scans frame (Multiset.mem_cons_self frame others))
  obtain ⟨once, suspended⟩ := standing
  rw [parking_cons] at once suspended
  generalize frameStep choice s frame = next at step
  cases step with
  | quiet frame next quiet =>
      obtain ⟨same, -, ⟨noPark, -⟩, after⟩ := quiet
      rw [noPark, zero_add] at once suspended
      refine ⟨by rwa [(parking_left others after).1], fun a member => ?_⟩
      rw [(parking_left others after).1] at member
      have stays : a ∈ suspendedActors next.1 := by
        rw [same]
        exact suspended a member
      exact stays
  | park a home free =>
      have one : parking (↑[Frame.finish a home .parkCount] + others) = a ::ₘ parking others := by
        simp [parking, uncounted]
      simp only [uncounted, zero_add] at once suspended
      have fresh : a ∉ parking others := by
        intro member
        rw [suspended a member] at free
        cases free
      refine ⟨by rw [one]; exact Multiset.nodup_cons.mpr ⟨fresh, once⟩, fun a' member => ?_⟩
      by_cases same : a' = a
      · subst same
        simp
      · rw [one] at member
        have old := suspended a' ((Multiset.mem_cons.mp member).resolve_left same)
        simpa [same] using old
  | counted a home =>
      have parks := (parking_left others (back_quiet home)).1
      simp only [uncounted, Multiset.singleton_add] at once suspended
      rw [Multiset.nodup_cons] at once
      refine ⟨by rw [parks]; exact once.2, fun a' member => ?_⟩
      rw [parks] at member
      exact suspended a' (Multiset.mem_cons_of_mem member)
  | wake a parked =>
      have none : parking (↑[Frame.resume a .count] + others) = parking others := by
        simp [parking, uncounted]
      have settled := ordered a (Multiset.mem_singleton_self a)
      simp only [parking_cons, uncounted, zero_add] at once suspended settled
      refine ⟨by rw [none]; exact once, fun a' member => ?_⟩
      rw [none] at member
      have other : a' ≠ a := fun same => settled (same ▸ member)
      simpa [other] using suspended a' member
  | cleared a =>
      have parks : parking (↑[Frame.handoff a (.pendingOf .high)] + others) = parking others := by
        simp [parking, uncounted]
      simp only [uncounted, zero_add] at once suspended
      refine ⟨by rw [parks]; exact once, fun a' member => ?_⟩
      rw [parks] at member
      exact suspended a' member

theorem initial_idle (states : ActorId → Ref) (workers programs : Nat) :
    suspendedActors (initial states workers programs).shared = ∅ ∧
      parking (initial states workers programs).frames = 0 ∧
      waking (initial states workers programs).frames = 0 := by
  have plain := initial_frames states workers programs
  refine ⟨?_, ?_, ?_⟩
  · exact Set.eq_empty_of_forall_notMem fun a suspended => nomatch (show Sched.idle = _ from suspended)
  · refine Multiset.eq_zero_of_forall_notMem fun a member => ?_
    obtain ⟨frame, inside, here⟩ := Multiset.mem_bind.mp member
    rcases plain frame inside with rfl | rfl <;> simp [uncounted] at here
  · refine Multiset.eq_zero_of_forall_notMem fun a member => ?_
    obtain ⟨frame, inside, here⟩ := Multiset.mem_bind.mp member
    rcases plain frame inside with rfl | rfl <;> simp [uncleared] at here

theorem initial_counted (states : ActorId → Ref) (workers programs : Nat) :
    Counted (initial states workers programs).shared (initial states workers programs).frames := by
  obtain ⟨none, parks, wakes⟩ := initial_idle states workers programs
  refine ⟨none ▸ Set.finite_empty, ?_⟩
  rw [none, parks, wakes, Set.ncard_empty]
  rfl

/-- The balance holds after every schedule. -/
theorem reached_counted (states : ActorId → Ref) (workers programs : Nat)
    (schedule : List (Nat × Choice)) :
    Counted (reached states workers programs schedule).shared
      (reached states workers programs schedule).frames := by
  have both := run_invariant frameStep (fun s frames => ClaimedOnce s frames ∧ Counted s frames)
    (fun choice s frame others holds => ⟨claimed_once_step choice s frame others holds.1,
      counted_step choice s frame others holds.1 holds.2⟩)
    ⟨initial_claimed_once states workers programs, initial_counted states workers programs⟩ schedule
  exact both.2

/-- A schedule in which every wake undoes a park that has been counted. -/
def WakesInOrder (states : ActorId → Ref) (workers programs : Nat)
    (schedule : List (Nat × Choice)) : Prop :=
  (initial states workers programs).Along frameStep (Machine.StepMeets CountedBeforeWoken) schedule

instance (states : ActorId → Ref) (workers programs : Nat) (schedule : List (Nat × Choice)) :
    Decidable (WakesInOrder states workers programs schedule) :=
  inferInstanceAs (Decidable ((initial states workers programs).Along frameStep
    (Machine.StepMeets CountedBeforeWoken) schedule))

theorem reached_standing {states : ActorId → Ref} {workers programs : Nat}
    {schedule : List (Nat × Choice)} (ordered : WakesInOrder states workers programs schedule) :
    Standing (reached states workers programs schedule).shared
      (reached states workers programs schedule).frames := by
  obtain ⟨-, parks, -⟩ := initial_idle states workers programs
  have start : Standing (initial states workers programs).shared
      (initial states workers programs).frames := by
    refine ⟨?_, ?_⟩
    · rw [parks]
      exact Multiset.nodup_zero
    · intro a member
      rw [parks] at member
      exact absurd member (Multiset.notMem_zero a)
  have both := run_invariant_amid frameStep CountedBeforeWoken
    (fun s frames => ClaimedOnce s frames ∧ Standing s frames)
    (fun choice s frame others meets holds => ⟨claimed_once_step choice s frame others holds.1,
      standing_step choice s frame others holds.1 meets holds.2⟩)
    ⟨initial_claimed_once states workers programs, start⟩ ordered
  exact both.2

theorem parking_le {s : Shared} {frames : Multiset Frame} (standing : Standing s frames)
    (finite : (suspendedActors s).Finite) : (parking frames).card ≤ (suspendedActors s).ncard := by
  rw [← Multiset.toFinset_card_of_nodup standing.once, ← Set.ncard_coe_finset]
  refine Set.ncard_le_ncard (fun a member => ?_) finite
  exact standing.suspended a (Multiset.mem_toFinset.mp member)

/-- The next step takes one off a counter that is zero. -/
def WrapsBelowZero (machine : Machine Shared Frame) (next : Nat × Choice) : Prop :=
  ∃ a callers, machine.threads[next.1]? = some (.resume a .count :: callers) ∧
    machine.shared.suspended = 0

/-- No thread stands between a compare-and-swap that parks or wakes an actor and
the update of the counter behind it. -/
def CounterSettled (machine : Machine Shared Frame) : Prop :=
  parking machine.frames = 0 ∧ waking machine.frames = 0

/-- In every run the settled counter is the number of suspended actors, and it
never falls below zero when every wake undoes a park that has been counted. -/
theorem suspended_counter_exact (states : ActorId → Ref) (workers programs : Nat)
    (schedule : List (Nat × Choice))
    (few : (suspendedActors (reached states workers programs schedule).shared).ncard +
      (waking (reached states workers programs schedule).frames).card < 2 ^ 32) :
    (suspendedActors (reached states workers programs schedule).shared).Finite ∧
      (CounterSettled (reached states workers programs schedule) →
        (reached states workers programs schedule).shared.suspended.toNat =
          (suspendedActors (reached states workers programs schedule).shared).ncard) ∧
      (WakesInOrder states workers programs schedule →
        ∀ next, ¬WrapsBelowZero (reached states workers programs schedule) next) := by
  obtain ⟨finite, balance⟩ := reached_counted states workers programs schedule
  refine ⟨finite, ?_, ?_⟩
  · rintro ⟨noPark, noWake⟩
    rw [noWake] at few
    rw [noPark, noWake] at balance
    simp only [Multiset.card_zero, Nat.add_zero, BitVec.add_zero] at balance few
    rw [balance, BitVec.toNat_ofNat, Nat.mod_eq_of_lt few]
  · rintro ordered next ⟨a, callers, found, zero⟩
    have parks := parking_le (reached_standing ordered) finite
    have woken : 0 < (waking (reached states workers programs schedule).frames).card := by
      obtain ⟨others, whole, -⟩ := flatten_of_get found
      have member : Frame.resume a .count ∈ (reached states workers programs schedule).frames := by
        unfold Machine.frames
        rw [whole]
        simp
      refine Multiset.card_pos_iff_exists_mem.mpr ⟨a, Multiset.mem_bind.mpr ⟨_, member, ?_⟩⟩
      simp [uncleared]
    rw [zero, BitVec.ofNat_eq_ofNat, BitVec.zero_add] at balance
    have numbers := congrArg BitVec.toNat balance
    rw [BitVec.toNat_ofNat, BitVec.toNat_ofNat, Nat.mod_eq_of_lt (by omega),
      Nat.mod_eq_of_lt few] at numbers
    omega

/-- The actors the counter stands for when every park is counted. -/
noncomputable def owed (machine : Machine Shared Frame) : Nat :=
  (suspendedActors machine.shared).ncard + (waking machine.frames).card

theorem owed_step {s : Shared} {frame : Frame} (others : Multiset Frame)
    {next : Shared × List Frame} (step : CounterStep s frame next)
    (finite : (suspendedActors s).Finite) :
    (suspendedActors next.1).ncard + (waking (↑next.2 + others)).card ≤
      (suspendedActors s).ncard + (waking (frame ::ₘ others)).card + 1 := by
  rw [waking_cons]
  cases step with
  | quiet frame next quiet =>
      rw [(parking_left others quiet.after).2, quiet.suspended, quiet.before.2, zero_add]
      exact Nat.le_succ _
  | park a home free =>
      have grows := Set.ncard_insert_le a (suspendedActors s)
      have none : waking (↑[Frame.finish a home .parkCount] + others) = waking others := by
        simp [waking, uncleared]
      rw [suspended_parked, none]
      simp only [uncleared, zero_add]
      omega
  | counted a home =>
      rw [(parking_left others (back_quiet home)).2]
      simp only [uncleared, zero_add]
      exact Nat.le_succ _
  | wake a parked =>
      have shrinks := Set.ncard_le_ncard (Set.sdiff_subset (s := suspendedActors s) (t := {a})) finite
      have one : waking (↑[Frame.resume a .count] + others) = a ::ₘ waking others := by
        simp [waking, uncleared]
      rw [suspended_woken, one, Multiset.card_cons]
      simp only [uncleared, zero_add]
      omega
  | cleared a =>
      have after : ∀ left ∈ [Frame.handoff a (.pendingOf .high)],
          uncounted left = 0 ∧ uncleared left = 0 := by simp [uncounted, uncleared]
      rw [(parking_left others after).2]
      simp only [uncleared, Multiset.card_add, Multiset.card_singleton]
      change (suspendedActors s).ncard + _ ≤ _
      omega

/-- A run owes at most as many actors as it has steps. -/
theorem owed_le_length (states : ActorId → Ref) (workers programs : Nat)
    (schedule : List (Nat × Choice)) :
    owed (reached states workers programs schedule) ≤ schedule.length := by
  induction schedule using List.reverseRecOn with
  | nil =>
      obtain ⟨none, -, wakes⟩ := initial_idle states workers programs
      change (suspendedActors (initial states workers programs).shared).ncard +
        (waking (initial states workers programs).frames).card ≤ 0
      rw [none, wakes, Set.ncard_empty]
      exact Nat.le_refl 0
  | append_singleton schedule next induction =>
      have claimed := reached_claimed_once states workers programs schedule
      have finite := (reached_counted states workers programs schedule).finite
      have after : reached states workers programs (schedule ++ [next]) =
          (reached states workers programs schedule).step frameStep next := by
        simp [reached, Machine.run]
      rw [List.length_append, List.length_singleton, after]
      rcases step_frames frameStep (reached states workers programs schedule) next with
        same | ⟨frame, others, whole, -, shared, frames⟩
      · rw [same]
        omega
      · rw [whole] at claimed
        have step := step_counter next.2 (reached states workers programs schedule).shared frame
          (fun a held => (claimed_of_holds claimed held).2.2)
          (claimed.scans frame (Multiset.mem_cons_self frame others))
        have grows := owed_step others step finite
        unfold owed at induction ⊢
        rw [shared, frames]
        rw [whole] at induction
        omega

open ProtoScala.Runtime.SchedulerSuspension (awaitThenComplete)

/-- The worker counts the park before the program wakes the actor. -/
theorem awaited_actor_counted :
    WakesInOrder (fun _ => 0) 1 1 awaitThenComplete ∧
      ∀ next, ¬WrapsBelowZero (reached (fun _ => 0) 1 1 awaitThenComplete) next := by
  have ordered : WakesInOrder (fun _ => 0) 1 1 awaitThenComplete := by decide +kernel
  have short : awaitThenComplete.length < 2 ^ 32 := by decide
  have few := Nat.lt_of_le_of_lt (owed_le_length (fun _ => 0) 1 1 awaitThenComplete) short
  exact ⟨ordered, (suspended_counter_exact (fun _ => 0) 1 1 awaitThenComplete few).2.2 ordered⟩

/-- The program completes the future between the compare-and-swap of the worker
and its update of the counter. -/
def wokenEarly : List (Nat × Choice) :=
  (1, Choice.send 0 .low ⟨7, none⟩) :: List.replicate 5 (1, Choice.proceed) ++
    List.replicate 13 (0, Choice.proceed) ++
    (0, Choice.await 3) :: List.replicate 7 (0, Choice.proceed) ++
    (0, Choice.record 9) :: List.replicate 3 (0, Choice.proceed) ++
    (1, Choice.complete 3 42 false) :: List.replicate 7 (1, Choice.proceed)

theorem wake_overtakes_count :
    WrapsBelowZero (reached (fun _ => 0) 1 1 wokenEarly) (1, Choice.proceed) ∧
      (reached (fun _ => 0) 1 1 (wokenEarly ++ [(1, Choice.proceed)])).shared.suspended =
        4294967295#32 := by
  refine ⟨⟨0, [.complete 3 (.wake []), .user], ?_, ?_⟩, ?_⟩
  · decide +kernel
  · decide +kernel
  · decide +kernel

end ProtoScala.Runtime.SuspendedCounter
