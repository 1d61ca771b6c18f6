import ProtoScala.Runtime.SchedulerClaims

/-!
# The permits of the worker pool

`enqueue` pushes an actor on a ready stack and releases one permit of the semaphore;
a worker takes a permit only when it parks. A worker that finds an entry while it
spins leaves the permit of that entry behind, so the count and the entries drift
apart: the count only bounds the entries that no worker is about to look at.

A worker `reaches` a band when it looks at that stack once more before it parks, and
`serves` a band when it does before it leaves its loop. While no permit is released
at the greatest `int` and no worker is lost to an unknown error, every entry has a
permit, a release on its way or a worker that reaches it; and after a shutdown every
entry has a worker that serves it, as long as only workers push.

The count of the model is a natural number. It is the `int` of the code as long as no
release is made at the greatest one, and the first such release is where the code's
count turns negative.
-/

namespace ProtoScala.Runtime.WorkerPermits

open ProtoScala.Library.Threads
open ProtoScala.Runtime.ActorScheduler
open ProtoScala.Runtime.SchedulerClaims

set_option autoImplicit false

/-- The greatest value of the semaphore's `int`. -/
def maxCount : Nat := 2 ^ 31 - 1

/-- A thread between its push on a ready stack and its release. -/
def releasing : Frame → Bool
  | .handoff _ .release => true
  | _ => false

/-- The frames that release a permit. -/
def releases : Frame → Bool
  | .handoff _ .release => true
  | .shutdown (.release (_ + 1)) => true
  | _ => false

/-- An error of a handler that the turn does not know and the worker dies of. -/
def unknownError : Choice → Frame → Bool
  | .defect, .turn _ _ (.running _) => true
  | _, _ => false

/-- A permit is released only below the greatest count, and no worker is lost. -/
def bounded (choice : Choice) (s : Shared) (frame : Frame) : Bool :=
  (!releases frame || decide (s.work < maxCount)) && !unknownError choice frame

/-- The frames of a worker's own loop. -/
def ofWorker : Frame → Bool
  | .worker _ => true
  | .turn _ home _ | .finish _ home _ => home.isSome
  | _ => false

/-- A worker looks at a band once more before it parks. -/
def reaches (b : Band) : Frame → Bool
  | .worker (.drain .looping _) | .worker .checkShutdown => true
  | .worker (.drain (.spinning round) at') =>
      decide (round + 1 < kSpinRounds) || decide (at'.rank ≤ b.rank)
  | .worker (.drain .closing at') => decide (at'.rank ≤ b.rank)
  | .turn _ home _ | .finish _ home _ => home.isSome
  | _ => false

/-- A worker looks at a band once more before it leaves its loop. -/
def serves (b : Band) : Frame → Bool
  | .worker (.drain .closing at') => decide (at'.rank ≤ b.rank)
  | .worker _ => true
  | .turn _ home _ | .finish _ home _ => home.isSome
  | _ => false

/-- A worker that has not seen the shutdown. -/
def working : Frame → Bool
  | .worker (.drain .closing _) => false
  | .worker _ => true
  | .turn _ home _ | .finish _ home _ => home.isSome && decide (home ≠ some .closing)
  | _ => false

theorem serves_of_reaches {b : Band} {frame : Frame} (reach : reaches b frame = true) :
    serves b frame = true := by
  unfold reaches at reach
  split at reach <;> simp_all [serves]

theorem serves_of_working {frame : Frame} (works : working frame = true) (b : Band) :
    serves b frame = true := by
  unfold working at works
  split at works <;> simp_all [serves]

/-- What a step of a worker's frame leaves: the loop goes on below the calls it made,
or the worker has seen the shutdown and leaves with the bands it served empty. -/
inductive GoesOn (s : Shared) (frame : Frame) (next : Shared × List Frame) : Prop where
  | loops (calls : List Frame) (last : Frame) (left : next.2 = calls ++ [last])
      (outside : ∀ call ∈ calls, ofWorker call = false) (stays : ofWorker last = true)
      (called : calls ≠ [] → ∀ b, reaches b last = true)
      (reach : ∀ b, next.1.ready b ≠ [] → reaches b frame = true → reaches b last = true)
      (serve : ∀ b, next.1.ready b ≠ [] → serves b frame = true → serves b last = true)
      (works : working frame = true → s.shuttingDown = false → working last = true)
  | leaves (left : next.2 = []) (same : next.1 = s) (closing : working frame = false)
      (empty : ∀ b, serves b frame = true → s.ready b = [])

theorem rank_next {b lower other : Band} (next : b.next? = some lower) (differs : other ≠ b)
    (above : b.rank ≤ other.rank) : lower.rank ≤ other.rank := by
  cases b <;> simp [Band.next?] at next <;> subst next <;> cases other <;>
    simp_all [Band.rank]

theorem rank_last {b other : Band} (last : b.next? = none) (above : b.rank ≤ other.rank) :
    other = b := by
  cases b <;> simp [Band.next?] at last
  cases other <;> simp_all [Band.rank]

theorem drain_goes_on (s : Shared) (phase : Phase) (b : Band) :
    GoesOn s (.worker (.drain phase b)) (workerStep s (.drain phase b)) := by
  rw [workerStep]
  split
  · next a stack found =>
      refine .loops [] _ rfl (by simp) (by simp [ofWorker]) (by simp) ?_ ?_ ?_
      · simp [reaches]
      · simp [serves]
      · cases phase <;> simp [working, Phase.afterTurn]
  · next empty =>
      have elsewhere : ∀ other, s.ready other ≠ [] → other ≠ b := by
        rintro other full rfl
        exact full empty
      split
      · next lower next =>
          have below : ∀ other, s.ready other ≠ [] → b.rank ≤ other.rank →
              lower.rank ≤ other.rank :=
            fun other full => rank_next next (elsewhere other full)
          refine .loops [] _ rfl (by simp) (by simp [ofWorker]) (by simp) ?_ ?_ ?_
          · intro other full reach
            cases phase with
            | looping => rfl
            | closing => simpa [reaches] using below other full (by simpa [reaches] using reach)
            | spinning round =>
                simp only [reaches, Bool.or_eq_true, decide_eq_true_eq] at reach ⊢
                exact reach.imp_right (below other full)
          · intro other full serve
            cases phase with
            | looping | spinning => rfl
            | closing => simpa [serves] using below other full (by simpa [serves] using serve)
          · cases phase <;> simp [working]
      · next last =>
          have only : ∀ other, s.ready other ≠ [] → ¬b.rank ≤ other.rank :=
            fun other full above => elsewhere other full (rank_last last above)
          cases phase with
          | looping =>
              refine .loops [] _ rfl (by simp) rfl (by simp) ?_ ?_ ?_ <;>
                simp [reaches, serves, working]
          | closing =>
              refine .leaves rfl rfl rfl ?_
              intro other serve
              by_contra full
              exact only other full (by simpa [serves] using serve)
          | spinning round =>
              by_cases more : round + 1 < kSpinRounds
              · simp only [Phase.nothingReady, more, if_true]
                refine .loops [] _ rfl (by simp) rfl (by simp) ?_ ?_ ?_ <;>
                  simp [reaches, serves, working, Band.rank]
              · simp only [Phase.nothingReady, more, if_false]
                refine .loops [] _ rfl (by simp) rfl (by simp) ?_ ?_ ?_
                · intro other full reach
                  simp only [reaches, more, decide_false, Bool.false_or, decide_eq_true_eq] at reach
                  exact absurd reach (only other full)
                · simp [serves]
                · simp [working]

theorem worker_goes_on (s : Shared) (pc : WorkerPc) : GoesOn s (.worker pc) (workerStep s pc) := by
  cases pc with
  | drain phase b => exact drain_goes_on s phase b
  | checkShutdown =>
      rw [workerStep]
      split
      · next shut =>
          refine .loops [] _ rfl (by simp) rfl (by simp) ?_ ?_ ?_ <;>
            simp [reaches, serves, Band.rank, shut]
      · refine .loops [] _ rfl (by simp) rfl (by simp) ?_ ?_ ?_ <;>
          simp [reaches, serves, working, Band.rank]
  | acquire =>
      rw [workerStep]
      split <;> refine .loops [] _ rfl (by simp) rfl (by simp) ?_ ?_ ?_ <;>
        simp [reaches, serves, working]

/-- A turn of a worker in a phase of its loop, from the pop to the next scan. -/
inductive Homed (phase : Phase) : Frame → Prop where
  | turn (a : ActorId) (pc : TurnPc) : Homed phase (.turn a (some phase) pc)
  | finish (a : ActorId) (pc : FinishPc) : Homed phase (.finish a (some phase) pc)
  | scan : Homed phase (.worker (.drain phase .high))

theorem Homed.reaches {phase : Phase} {frame : Frame} (homed : Homed phase frame) (b : Band) :
    reaches b frame = true := by
  cases homed with
  | turn | finish => rfl
  | scan => cases phase <;> simp [WorkerPermits.reaches, Band.rank]

theorem Homed.working {phase : Phase} {frame last : Frame} (homed : Homed phase frame)
    (later : Homed phase last) (works : working frame = true) : working last = true := by
  cases homed <;> cases later <;> cases phase <;> simp_all [WorkerPermits.working]

theorem homed_goes_on {s : Shared} {phase : Phase} {frame last : Frame}
    {next : Shared × List Frame} (calls : List Frame) (homed : Homed phase frame)
    (later : Homed phase last) (left : next.2 = calls ++ [last])
    (outside : ∀ call ∈ calls, ofWorker call = false) : GoesOn s frame next := by
  have stays : ofWorker last = true := by cases later <;> rfl
  exact .loops calls last left outside stays (fun _ => later.reaches) (fun b _ _ => later.reaches b)
    (fun b _ _ => serves_of_reaches (later.reaches b)) (fun works _ => homed.working later works)

theorem complete_frames_outside (future : Option FutureId) (value : Ref) (failed : Bool) :
    ∀ call ∈ completeFrames future value failed, ofWorker call = false := by
  cases future <;> simp [completeFrames, ofWorker]

theorem turn_goes_on (choice : Choice) (s : Shared) (a : ActorId) (phase : Phase) (pc : TurnPc)
    (known : unknownError choice (.turn a (some phase) pc) = false) :
    GoesOn s (.turn a (some phase) pc) (turnStep choice s a (some phase) pc) := by
  have here : Homed phase (.turn a (some phase) pc) := Homed.turn a pc
  have going : ∀ pc', Homed phase (.turn a (some phase) pc') := Homed.turn a
  have ends : ∀ pc', Homed phase (.finish a (some phase) pc') := Homed.finish a
  unfold turnStep awaitStep runningStep
  repeat' split
  all_goals first
    | exact homed_goes_on [] here (going _) rfl (by simp)
    | exact homed_goes_on [] here (ends _) rfl (by simp)
    | exact homed_goes_on _ here (going _) rfl (complete_frames_outside _ _ _)
    | exact homed_goes_on [_] here (going _) rfl (by simp [ofWorker])
    | simp [unknownError] at known

theorem finish_goes_on (s : Shared) (a : ActorId) (phase : Phase) (pc : FinishPc) :
    GoesOn s (.finish a (some phase) pc) (finishStep s a (some phase) pc) := by
  have here : Homed phase (.finish a (some phase) pc) := Homed.finish a pc
  have ends : ∀ pc', Homed phase (.finish a (some phase) pc') := Homed.finish a
  unfold finishStep
  repeat' split
  all_goals first
    | exact homed_goes_on [] here (ends _) rfl (by simp)
    | exact homed_goes_on [] here .scan rfl (by simp)
    | exact homed_goes_on [_] here .scan rfl (by simp [ofWorker])

theorem own_goes_on (choice : Choice) (s : Shared) (frame : Frame) (own : ofWorker frame = true)
    (known : unknownError choice frame = false) :
    GoesOn s frame (frameStep choice s frame) := by
  cases frame with
  | worker pc => exact worker_goes_on s pc
  | turn a home pc =>
      cases home with
      | none => cases own
      | some phase => exact turn_goes_on choice s a phase pc known
  | finish a home pc =>
      cases home with
      | none => cases own
      | some phase => exact finish_goes_on s a phase pc
  | send | resume | handoff | complete | continuations | onComplete | user | shutdown => cases own

/-- The frames that touch neither the ready stacks nor the semaphore. -/
def apart : Frame → Bool
  | .handoff _ (.push _) | .handoff _ .release | .worker _ | .shutdown _ => false
  | _ => true

/-- The state that the pool reads. -/
def SamePool (s next : Shared) : Prop :=
  next.ready = s.ready ∧ next.work = s.work ∧ next.shuttingDown = s.shuttingDown

theorem apart_same_pool (choice : Choice) (s : Shared) (frame : Frame)
    (outside : apart frame = true) : SamePool s (frameStep choice s frame).1 := by
  cases frame with
  | worker | shutdown => cases outside
  | handoff a pc =>
      cases pc with
      | push | release => cases outside
      | pendingOf | mailboxOf =>
          simp only [frameStep, handoffStep]
          repeat' split
          all_goals exact ⟨rfl, rfl, rfl⟩
  | send a b pc =>
      simp only [frameStep]
      unfold sendStep
      repeat' split
      all_goals exact ⟨rfl, rfl, rfl⟩
  | resume a pc =>
      simp only [frameStep]
      unfold resumeStep
      repeat' split
      all_goals exact ⟨rfl, rfl, rfl⟩
  | turn a home pc =>
      simp only [frameStep]
      unfold turnStep awaitStep runningStep
      repeat' split
      all_goals exact ⟨rfl, rfl, rfl⟩
  | finish a home pc =>
      simp only [frameStep]
      unfold finishStep
      repeat' split
      all_goals exact ⟨rfl, rfl, rfl⟩
  | complete f pc =>
      simp only [frameStep]
      unfold completeStep
      repeat' split
      all_goals exact ⟨rfl, rfl, rfl⟩
  | continuations f pc =>
      simp only [frameStep]
      unfold continuationsStep
      repeat' split
      all_goals exact ⟨rfl, rfl, rfl⟩
  | onComplete f k pc =>
      simp only [frameStep]
      unfold onCompleteStep
      repeat' split
      all_goals exact ⟨rfl, rfl, rfl⟩
  | user =>
      simp only [frameStep]
      unfold userStep
      split <;> exact ⟨rfl, rfl, rfl⟩

/-- What a step does to the ready stacks: a push leaves a release behind it, and no
other step fills an empty stack. -/
theorem ready_step (choice : Choice) (s : Shared) (frame : Frame) (b : Band)
    (full : (frameStep choice s frame).1.ready b ≠ []) :
    s.ready b ≠ [] ∨ ∃ a, frame = .handoff a (.push b) := by
  cases outside : apart frame with
  | true =>
      rw [(apart_same_pool choice s frame outside).1] at full
      exact Or.inl full
  | false =>
      cases frame with
      | handoff a pc =>
          cases pc with
          | push b' =>
              by_cases same : b = b'
              · subst same
                exact Or.inr ⟨a, rfl⟩
              · simp only [frameStep, handoffStep, ready_setReady, same, if_false] at full
                exact Or.inl full
          | release => exact Or.inl full
          | pendingOf | mailboxOf => cases outside
      | worker pc =>
          refine Or.inl ?_
          cases pc with
          | drain phase b' =>
              simp only [frameStep, workerStep] at full
              split at full
              · next a stack found =>
                  by_cases same : b = b'
                  · subst same
                    simp [found]
                  · simpa [same] using full
              · split at full <;> exact full
          | checkShutdown =>
              simp only [frameStep, workerStep] at full
              split at full <;> exact full
          | acquire =>
              simp only [frameStep, workerStep] at full
              split at full <;> exact full
      | shutdown pc =>
          refine Or.inl ?_
          cases pc with
          | flag => exact full
          | release left => cases left <;> exact full
      | send | resume | turn | finish | complete | continuations | onComplete | user => cases outside

/-- Permits are taken only by a worker that parks. -/
theorem work_step (choice : Choice) (s : Shared) (frame : Frame) :
    s.work ≤ (frameStep choice s frame).1.work ∨
      (frame = .worker .acquire ∧
        (frameStep choice s frame).2 = [.worker (.drain .looping .high)]) := by
  cases outside : apart frame with
  | true => exact Or.inl (apart_same_pool choice s frame outside).2.1.ge
  | false =>
      cases frame with
      | handoff a pc =>
          cases pc with
          | push => exact Or.inl (Nat.le_refl _)
          | release => exact Or.inl (Nat.le_succ _)
          | pendingOf | mailboxOf => cases outside
      | worker pc =>
          cases pc with
          | drain phase b =>
              refine Or.inl ?_
              simp only [frameStep, workerStep]
              split
              · exact Nat.le_refl _
              · split <;> exact Nat.le_refl _
          | checkShutdown =>
              refine Or.inl ?_
              simp only [frameStep, workerStep]
              split <;> exact Nat.le_refl _
          | acquire =>
              by_cases positive : 0 < s.work
              · exact Or.inr ⟨rfl, by simp [frameStep, workerStep, positive]⟩
              · exact Or.inl (by simp [frameStep, workerStep, positive])
      | shutdown pc =>
          refine Or.inl ?_
          cases pc with
          | flag => exact Nat.le_refl _
          | release left => cases left <;> simp [frameStep, shutdownStep]
      | send | resume | turn | finish | complete | continuations | onComplete | user => cases outside

/-- Every entry has a permit, a release on its way, or a worker that reaches it. -/
def Permitted (s : Shared) (frames : Multiset Frame) : Prop :=
  ∀ b, s.ready b ≠ [] → 0 < s.work ∨ (∃ frame ∈ frames, releasing frame = true) ∨
    ∃ frame ∈ frames, reaches b frame = true

theorem own_of_reaches {b : Band} {frame : Frame} (reach : reaches b frame = true) :
    ofWorker frame = true := by
  unfold reaches at reach
  split at reach <;> simp_all [ofWorker]

theorem known_of_bounded {choice : Choice} {s : Shared} {frame : Frame}
    (met : bounded choice s frame = true) : unknownError choice frame = false := by
  simp only [bounded, Bool.and_eq_true, Bool.not_eq_true'] at met
  exact met.2

theorem permitted_step (choice : Choice) (s : Shared) (frame : Frame) (others : Multiset Frame)
    (met : bounded choice s frame = true) (permitted : Permitted s (frame ::ₘ others)) :
    Permitted (frameStep choice s frame).1 (↑(frameStep choice s frame).2 + others) := by
  have known := known_of_bounded met
  intro b full
  rcases ready_step choice s frame b full with before | ⟨a, rfl⟩
  · rcases permitted b before with positive | ⟨releaser, member, releases⟩ | ⟨worker, member, reach⟩
    · rcases work_step choice s frame with grows | ⟨-, next⟩
      · exact Or.inl (Nat.lt_of_lt_of_le positive grows)
      · refine Or.inr (Or.inr ⟨.worker (.drain .looping .high), ?_, rfl⟩)
        simp [next]
    · rcases Multiset.mem_cons.mp member with rfl | elsewhere
      · cases releaser with
        | handoff a pc =>
            cases pc with
            | release => exact Or.inl (Nat.succ_pos _)
            | push | pendingOf | mailboxOf => cases releases
        | send | resume | worker | turn | finish | complete | continuations | onComplete | user
        | shutdown => cases releases
      · exact Or.inr (Or.inl ⟨releaser, Multiset.mem_add.mpr (Or.inr elsewhere), releases⟩)
    · rcases Multiset.mem_cons.mp member with rfl | elsewhere
      · cases own_goes_on choice s worker (own_of_reaches reach) known with
        | loops calls last left _ _ _ reached =>
            refine Or.inr (Or.inr ⟨last, ?_, reached b full reach⟩)
            simp [left]
        | leaves left same closing empty =>
            exact absurd (empty b (serves_of_reaches reach)) before
      · exact Or.inr (Or.inr ⟨worker, Multiset.mem_add.mpr (Or.inr elsewhere), reach⟩)
  · refine Or.inr (Or.inl ⟨.handoff a .release, ?_, rfl⟩)
    simp [frameStep, handoffStep]

/-- The calls of a worker, and program threads, never become a worker. -/
theorem calls_stay_outside (choice : Choice) (s : Shared) (frame : Frame)
    (outside : ofWorker frame = false) :
    ∀ left ∈ (frameStep choice s frame).2, ofWorker left = false := by
  have replies := complete_frames_outside
  cases frame with
  | worker pc => cases outside
  | turn a home pc =>
      cases home with
      | some phase => cases outside
      | none =>
          simp only [frameStep]
          unfold turnStep awaitStep runningStep
          repeat' split
          all_goals first
            | exact List.forall_mem_append.mpr ⟨replies _ _ _, List.forall_mem_singleton.mpr rfl⟩
            | simp [ofWorker]
  | finish a home pc =>
      cases home with
      | some phase => cases outside
      | none =>
          simp only [frameStep]
          unfold finishStep
          repeat' split
          all_goals simp [ofWorker, back]
  | send a b pc =>
      simp only [frameStep]
      unfold sendStep
      repeat' split
      all_goals simp [ofWorker]
  | resume a pc =>
      simp only [frameStep]
      unfold resumeStep
      repeat' split
      all_goals simp [ofWorker]
  | handoff a pc =>
      simp only [frameStep]
      unfold handoffStep
      repeat' split
      all_goals simp [ofWorker]
  | complete f pc =>
      simp only [frameStep]
      unfold completeStep
      repeat' split
      all_goals simp [ofWorker]
  | continuations f pc =>
      simp only [frameStep]
      unfold continuationsStep
      repeat' split
      all_goals simp [ofWorker]
  | onComplete f k pc =>
      simp only [frameStep]
      unfold onCompleteStep
      repeat' split
      all_goals simp [ofWorker]
  | user =>
      simp only [frameStep]
      unfold userStep
      split <;> simp [ofWorker]
  | shutdown pc =>
      simp only [frameStep]
      unfold shutdownStep
      split <;> simp [ofWorker]

/-- The stack of a worker: its loop, below the calls it waits for. -/
def Manned (stack : List Frame) : Prop :=
  ∃ calls last, stack = calls ++ [last] ∧ (∀ call ∈ calls, ofWorker call = false) ∧
    ofWorker last = true ∧ (calls ≠ [] → ∀ b, reaches b last = true)

theorem manned_step {choice : Choice} {s : Shared} {frame : Frame} {callers : List Frame}
    (known : unknownError choice frame = false) (manned : Manned (frame :: callers)) :
    (frameStep choice s frame).2 ++ callers = [] ∨
      Manned ((frameStep choice s frame).2 ++ callers) := by
  obtain ⟨calls, last, shape, outside, own, called⟩ := manned
  cases calls with
  | nil =>
      obtain ⟨rfl, rfl⟩ : frame = last ∧ callers = [] := by simpa using shape
      rw [List.append_nil]
      cases own_goes_on choice s frame own known with
      | loops calls last left outside stays called _ _ _ =>
          exact Or.inr ⟨calls, last, left, outside, stays, called⟩
      | leaves left _ _ _ => exact Or.inl left
  | cons call calls =>
      obtain ⟨rfl, rfl⟩ : frame = call ∧ callers = calls ++ [last] := by simpa using shape
      refine Or.inr ⟨(frameStep choice s frame).2 ++ calls, last, by simp, ?_, own, ?_⟩
      · intro left member
        rcases List.mem_append.mp member with now | waiting
        · exact calls_stay_outside choice s frame (outside frame List.mem_cons_self) left now
        · exact outside left (List.mem_cons_of_mem _ waiting)
      · exact fun _ => called (List.cons_ne_nil _ _)

/-- The first threads are the workers, the others have no worker's frame, and before
a shutdown every worker is in its loop. -/
structure Staffed (workers : Nat) (machine : Machine Shared Frame) : Prop where
  manned : ∀ i < workers, ∃ stack, machine.threads[i]? = some stack ∧ (stack = [] ∨ Manned stack)
  outside : ∀ i stack, workers ≤ i → machine.threads[i]? = some stack →
    ∀ frame ∈ stack, ofWorker frame = false
  started : machine.shared.shuttingDown = false →
    ∀ i < workers, ∃ calls last, machine.threads[i]? = some (calls ++ [last]) ∧
      working last = true

/-- A thread other than the one that is scheduled keeps its stack. -/
theorem get_set_of_ne {threads : List (List Frame)} {i j : Nat} (differs : j ≠ i)
    (next : List Frame) : (threads.set i next)[j]? = threads[j]? :=
  List.getElem?_set_ne (Ne.symm differs)

theorem get_set_self {threads : List (List Frame)} {i : Nat} {stack : List Frame}
    (found : threads[i]? = some stack) (next : List Frame) :
    (threads.set i next)[i]? = some next := by
  obtain ⟨bound, -⟩ := List.getElem?_eq_some_iff.mp found
  simp [bound]

/-- Only the shutdown sets its flag. -/
theorem flag_step (choice : Choice) (s : Shared) (frame : Frame)
    (before : s.shuttingDown = true) : (frameStep choice s frame).1.shuttingDown = true := by
  cases outside : apart frame with
  | true =>
      rw [(apart_same_pool choice s frame outside).2.2]
      exact before
  | false =>
      cases frame with
      | handoff a pc =>
          cases pc with
          | push | release => exact before
          | pendingOf | mailboxOf => cases outside
      | worker pc =>
          cases pc with
          | drain phase b =>
              simp only [frameStep, workerStep]
              split
              · exact before
              · split <;> exact before
          | checkShutdown =>
              simp only [frameStep, workerStep]
              split <;> exact before
          | acquire =>
              simp only [frameStep, workerStep]
              split <;> exact before
      | shutdown pc =>
          cases pc with
          | flag => rfl
          | release left => cases left <;> exact before
      | send | resume | turn | finish | complete | continuations | onComplete | user => cases outside

/-- The last frame of a worker's stack while the worker has not seen a shutdown. -/
theorem working_step {choice : Choice} {s : Shared} {frame : Frame} {callers calls : List Frame}
    {last : Frame} (known : unknownError choice frame = false)
    (shape : frame :: callers = calls ++ [last]) (works : working last = true)
    (own : ofWorker last = true) (open' : s.shuttingDown = false) :
    ∃ calls' last', (frameStep choice s frame).2 ++ callers = calls' ++ [last'] ∧
      working last' = true := by
  cases calls with
  | nil =>
      obtain ⟨rfl, rfl⟩ : frame = last ∧ callers = [] := by simpa using shape
      cases own_goes_on choice s frame own known with
      | loops calls last left _ _ _ _ _ keeps =>
          exact ⟨calls, last, by rw [left, List.append_nil], keeps works open'⟩
      | leaves _ _ closing _ =>
          rw [closing] at works
          cases works
  | cons call calls =>
      obtain ⟨rfl, rfl⟩ : frame = call ∧ callers = calls ++ [last] := by simpa using shape
      exact ⟨(frameStep choice s frame).2 ++ calls, last, by simp, works⟩

theorem own_of_working {frame : Frame} (works : working frame = true) :
    ofWorker frame = true := by
  unfold working at works
  split at works <;> simp_all [ofWorker]

theorem staffed_step {workers : Nat} (machine : Machine Shared Frame) (scheduled : Nat × Choice)
    (met : machine.meetsStep bounded scheduled = true) (staffed : Staffed workers machine) :
    Staffed workers (machine.step frameStep scheduled) := by
  rcases step_thread frameStep machine scheduled with same | ⟨frame, callers, found, next⟩
  · rw [same]
    exact staffed
  · have known := known_of_bounded (meets_step_of_get bounded found met)
    rw [next]
    refine ⟨?_, ?_, ?_⟩
    · intro i worker
      by_cases here : i = scheduled.1
      · subst here
        refine ⟨_, get_set_self found _, ?_⟩
        obtain ⟨stack, stands, shape⟩ := staffed.manned scheduled.1 worker
        obtain rfl : stack = frame :: callers := Option.some.inj (stands.symm.trans found)
        exact manned_step known (shape.resolve_left (List.cons_ne_nil _ _))
      · obtain ⟨stack, stands, shape⟩ := staffed.manned i worker
        exact ⟨stack, (get_set_of_ne here _).trans stands, shape⟩
    · intro i stack program stands
      by_cases here : i = scheduled.1
      · subst here
        obtain rfl := Option.some.inj (stands.symm.trans (get_set_self found _))
        have outside := staffed.outside scheduled.1 _ program found
        intro left member
        rcases List.mem_append.mp member with now | waiting
        · exact calls_stay_outside _ _ frame (outside frame List.mem_cons_self) left now
        · exact outside left (List.mem_cons_of_mem _ waiting)
      · rw [get_set_of_ne here] at stands
        exact staffed.outside i stack program stands
    · intro flag i worker
      have before : machine.shared.shuttingDown = false := by
        by_contra set
        have kept := flag_step scheduled.2 machine.shared frame (by simpa using set)
        simp [kept] at flag
      obtain ⟨calls, last, stands, works⟩ := staffed.started before i worker
      by_cases here : i = scheduled.1
      · subst here
        have shape := Option.some.inj (found.symm.trans stands)
        obtain ⟨calls', last', after, works'⟩ :=
          working_step known shape works (own_of_working works) before
        exact ⟨calls', last', (get_set_self found _).trans (congrArg some after), works'⟩
      · exact ⟨calls, last, (get_set_of_ne here _).trans stands, works⟩

/-- Once the shutdown has begun, only workers push on a ready stack. -/
def SilentOutside (workers : Nat) (machine : Machine Shared Frame) (scheduled : Nat × Choice) :
    Prop :=
  machine.shared.shuttingDown = true → workers ≤ scheduled.1 →
    ∀ a b callers, machine.threads[scheduled.1]? ≠ some (.handoff a (.push b) :: callers)

/-- Once the shutdown has begun, every entry has a worker that looks at its stack
again. -/
def Served (workers : Nat) (machine : Machine Shared Frame) : Prop :=
  machine.shared.shuttingDown = true → ∀ b, machine.shared.ready b ≠ [] →
    ∃ i < workers, ∃ calls last, machine.threads[i]? = some (calls ++ [last]) ∧
      serves b last = true

/-- A worker that serves a band goes on serving it while the band has an entry. -/
theorem serves_step {choice : Choice} {s : Shared} {frame : Frame} {callers calls : List Frame}
    {last : Frame} {b : Band} (known : unknownError choice frame = false)
    (shape : frame :: callers = calls ++ [last]) (serve : serves b last = true)
    (before : s.ready b ≠ []) (full : (frameStep choice s frame).1.ready b ≠ []) :
    ∃ calls' last', (frameStep choice s frame).2 ++ callers = calls' ++ [last'] ∧
      serves b last' = true := by
  cases calls with
  | nil =>
      obtain ⟨rfl, rfl⟩ : frame = last ∧ callers = [] := by simpa using shape
      have own : ofWorker frame = true := by
        unfold serves at serve
        split at serve <;> simp_all [ofWorker]
      cases own_goes_on choice s frame own known with
      | loops calls last left _ _ _ _ keeps _ =>
          exact ⟨calls, last, by rw [left, List.append_nil], keeps b full serve⟩
      | leaves _ _ _ empty => exact absurd (empty b serve) before
  | cons call calls =>
      obtain ⟨rfl, rfl⟩ : frame = call ∧ callers = calls ++ [last] := by simpa using shape
      exact ⟨(frameStep choice s frame).2 ++ calls, last, by simp, serve⟩

theorem served_step {workers : Nat} (some' : 0 < workers) (machine : Machine Shared Frame)
    (scheduled : Nat × Choice) (met : machine.meetsStep bounded scheduled = true)
    (silent : SilentOutside workers machine scheduled) (staffed : Staffed workers machine)
    (served : Served workers machine) : Served workers (machine.step frameStep scheduled) := by
  rcases step_thread frameStep machine scheduled with same | ⟨frame, callers, found, next⟩
  · rw [same]
    exact served
  · have known := known_of_bounded (meets_step_of_get bounded found met)
    -- a worker that serves a filled band before the step serves it after the step
    have keeps : ∀ b, machine.shared.ready b ≠ [] →
        (frameStep scheduled.2 machine.shared frame).1.ready b ≠ [] →
        (∃ i < workers, ∃ calls last, machine.threads[i]? = some (calls ++ [last]) ∧
          serves b last = true) →
        ∃ i < workers, ∃ calls last, (machine.threads.set scheduled.1
          ((frameStep scheduled.2 machine.shared frame).2 ++ callers))[i]? =
            some (calls ++ [last]) ∧ serves b last = true := by
      rintro b before full ⟨i, worker, calls, last, stands, serve⟩
      by_cases here : i = scheduled.1
      · subst here
        have shape := Option.some.inj (found.symm.trans stands)
        obtain ⟨calls', last', after, serve'⟩ := serves_step known shape serve before full
        exact ⟨scheduled.1, worker, calls', last',
          (get_set_self found _).trans (congrArg some after), serve'⟩
      · exact ⟨i, worker, calls, last, (get_set_of_ne here _).trans stands, serve⟩
    rw [next]
    intro flag b full
    rcases ready_step scheduled.2 machine.shared frame b full with before | ⟨a, rfl⟩
    · apply keeps b before full
      cases shut : machine.shared.shuttingDown with
      | true => exact served shut b before
      | false =>
          obtain ⟨calls, last, stands, works⟩ := staffed.started shut 0 some'
          exact ⟨0, some', calls, last, stands, serves_of_working works b⟩
    · -- the push: its thread is a worker, whose loop waits below the call
      have shut : machine.shared.shuttingDown = true := flag
      have worker : scheduled.1 < workers := by
        by_contra program
        exact silent shut (Nat.le_of_not_lt program) a b callers found
      obtain ⟨stack, stands, shape⟩ := staffed.manned scheduled.1 worker
      obtain rfl : stack = .handoff a (.push b) :: callers :=
        Option.some.inj (stands.symm.trans found)
      obtain ⟨calls, last, shape, -, own, called⟩ := shape.resolve_left (List.cons_ne_nil _ _)
      cases calls with
      | nil =>
          obtain ⟨rfl, -⟩ : Frame.handoff a (.push b) = last ∧ callers = [] := by simpa using shape
          cases own
      | cons call calls =>
          obtain ⟨-, rfl⟩ : Frame.handoff a (.push b) = call ∧ callers = calls ++ [last] := by
            simpa using shape
          refine ⟨scheduled.1, worker, (frameStep scheduled.2 machine.shared
            (.handoff a (.push b))).2 ++ calls, last, ?_, ?_⟩
          · rw [get_set_self found, List.append_assoc]
          · exact serves_of_reaches (called (List.cons_ne_nil _ _) b)

theorem initial_staffed (states : ActorId → Ref) (workers programs : Nat) :
    Staffed workers (initial states workers programs) := by
  have first : ∀ i < workers, (initial states workers programs).threads[i]? =
      some [.worker (.drain .looping .high)] := by
    intro i worker
    simp [initial, List.getElem?_append, worker]
  refine ⟨?_, ?_, ?_⟩
  · intro i worker
    refine ⟨_, first i worker, Or.inr ⟨[], _, rfl, by simp, rfl, by simp⟩⟩
  · intro i stack program stands
    have member : stack ∈ List.replicate programs [Frame.user] := by
      have later : ¬i < (List.replicate workers [Frame.worker (.drain .looping .high)]).length := by
        simpa using program
      simp only [initial, List.getElem?_append, later, if_false] at stands
      exact List.mem_of_getElem? stands
    obtain rfl := List.eq_of_mem_replicate member
    simp [ofWorker]
  · intro _ i worker
    exact ⟨[], _, first i worker, rfl⟩

/-- The permits of the pool do what they are for: an entry that no thread is still
releasing a permit for has a permit left or a worker that is not parked, the count is
within the range of an `int`, and when all workers have left after a shutdown in
which nobody else sent, no entry is left behind. -/
structure PermitsSuffice (states : ActorId → Ref) (workers programs : Nat)
    (schedule : List (Nat × Choice)) : Prop where
  awake : ∀ b, (reached states workers programs schedule).shared.ready b ≠ [] →
    (∀ frame ∈ (reached states workers programs schedule).frames, releasing frame = false) →
    0 < (reached states workers programs schedule).shared.work ∨
      ∃ i < workers, ∃ stack,
        (reached states workers programs schedule).threads[i]? = some stack ∧
          stack ≠ [] ∧ stack ≠ [.worker .acquire]
  inRange : (reached states workers programs schedule).shared.work ≤ maxCount
  drained : (initial states workers programs).Along frameStep (SilentOutside workers) schedule →
    (∀ i < workers, (reached states workers programs schedule).threads[i]? = some []) →
    ∀ b, (reached states workers programs schedule).shared.ready b = []

/-- Only a release adds a permit, and it adds one. -/
theorem work_grows (choice : Choice) (s : Shared) (frame : Frame) :
    (frameStep choice s frame).1.work ≤ s.work ∨
      (releases frame = true ∧ (frameStep choice s frame).1.work = s.work + 1) := by
  cases outside : apart frame with
  | true => exact Or.inl (apart_same_pool choice s frame outside).2.1.le
  | false =>
      cases frame with
      | handoff a pc =>
          cases pc with
          | push => exact Or.inl (Nat.le_refl _)
          | release => exact Or.inr ⟨rfl, rfl⟩
          | pendingOf | mailboxOf => cases outside
      | worker pc =>
          refine Or.inl ?_
          cases pc with
          | drain phase b =>
              simp only [frameStep, workerStep]
              split
              · exact Nat.le_refl _
              · split <;> exact Nat.le_refl _
          | checkShutdown =>
              simp only [frameStep, workerStep]
              split <;> exact Nat.le_refl _
          | acquire =>
              simp only [frameStep, workerStep]
              split
              · exact Nat.sub_le _ _
              · exact Nat.le_refl _
      | shutdown pc =>
          cases pc with
          | flag => exact Or.inl (Nat.le_refl _)
          | release left =>
              cases left with
              | zero => exact Or.inl (Nat.le_refl _)
              | succ left => exact Or.inr ⟨rfl, rfl⟩
      | send | resume | turn | finish | complete | continuations | onComplete | user => cases outside

theorem in_range_step (choice : Choice) (s : Shared) (frame : Frame)
    (met : bounded choice s frame = true) (inRange : s.work ≤ maxCount) :
    (frameStep choice s frame).1.work ≤ maxCount := by
  rcases work_grows choice s frame with less | ⟨release, more⟩
  · exact less.trans inRange
  · simp only [bounded, release, Bool.not_true, Bool.false_or, Bool.and_eq_true,
      decide_eq_true_eq] at met
    rw [more]
    exact met.1

/-- A frame of some thread is on the stack of one. -/
theorem frame_thread {machine : Machine Shared Frame} {frame : Frame}
    (member : frame ∈ machine.frames) :
    ∃ (i : Nat) (stack : List Frame), machine.threads[i]? = some stack ∧ frame ∈ stack := by
  obtain ⟨stack, inside, here⟩ := List.mem_flatten.mp (Multiset.mem_coe.mp member)
  obtain ⟨i, found⟩ := List.mem_iff_getElem?.mp inside
  exact ⟨i, stack, found, here⟩

/-- A worker that reaches a band is a worker that is not parked. -/
theorem not_parked_of_reaches {workers : Nat} {machine : Machine Shared Frame}
    (staffed : Staffed workers machine) {b : Band} {frame : Frame}
    (member : frame ∈ machine.frames) (reach : reaches b frame = true) :
    ∃ i < workers, ∃ stack, machine.threads[i]? = some stack ∧
      stack ≠ [] ∧ stack ≠ [.worker .acquire] := by
  obtain ⟨i, stack, found, here⟩ := frame_thread member
  refine ⟨i, ?_, stack, found, List.ne_nil_of_mem here, ?_⟩
  · by_contra program
    have outside := staffed.outside i stack (Nat.le_of_not_lt program) found frame here
    rw [own_of_reaches reach] at outside
    cases outside
  · rintro rfl
    obtain rfl := List.mem_singleton.mp here
    cases reach

/-- Over every interleaving in which a permit is released only below the greatest
count and no worker dies of an unknown error, the permits of the pool suffice. -/
theorem permits_suffice (states : ActorId → Ref) (workers programs : Nat)
    (schedule : List (Nat × Choice)) (some' : 0 < workers)
    (met : (initial states workers programs).meets frameStep bounded schedule = true) :
    PermitsSuffice states workers programs schedule := by
  have along := along_of_meets met
  have staffed : Staffed workers (reached states workers programs schedule) :=
    run_invariant_along staffed_step (initial_staffed states workers programs) along
  refine ⟨?_, ?_, ?_⟩
  · have permitted : Permitted (reached states workers programs schedule).shared
        (reached states workers programs schedule).frames :=
      run_invariant_meeting frameStep bounded Permitted permitted_step
        (by simp [Permitted, initial]) met
    intro b full quiet
    rcases permitted b full with positive | ⟨frame, member, release⟩ | ⟨frame, member, reach⟩
    · exact Or.inl positive
    · rw [quiet frame member] at release
      cases release
    · exact Or.inr (not_parked_of_reaches staffed member reach)
  · exact run_invariant_meeting frameStep bounded (fun s _ => s.work ≤ maxCount)
      (fun choice s frame _ met inRange => in_range_step choice s frame met inRange)
      (Nat.zero_le _) met
  · intro silent joined b
    have step : ∀ machine scheduled, machine.meetsStep bounded scheduled = true ∧
        SilentOutside workers machine scheduled →
        Staffed workers machine ∧ Served workers machine →
        Staffed workers (machine.step frameStep scheduled) ∧
          Served workers (machine.step frameStep scheduled) := by
      rintro machine scheduled ⟨met, silent⟩ ⟨staffed, served⟩
      exact ⟨staffed_step machine scheduled met staffed,
        served_step some' machine scheduled met silent staffed served⟩
    have invariant := run_invariant_along step
      ⟨initial_staffed states workers programs, by simp [Served, initial]⟩ (along_and along silent)
    have gone : ∀ i < workers, ∀ calls last,
        (reached states workers programs schedule).threads[i]? ≠ some (calls ++ [last]) := by
      intro i worker calls last stands
      rw [joined i worker] at stands
      simp at stands
    cases shut : (reached states workers programs schedule).shared.shuttingDown with
    | false =>
        obtain ⟨calls, last, stands, -⟩ := staffed.started shut 0 some'
        exact absurd stands (gone 0 some' calls last)
    | true =>
        by_contra full
        obtain ⟨i, worker, calls, last, stands, -⟩ := invariant.2 shut b full
        exact gone i worker calls last stands

/-! ## The drift of the count -/

def parcel : Envelope := ⟨7, none⟩

/-- A program thread sends one message. -/
def sending : List (Nat × Choice) :=
  (1, Choice.send 0 .high parcel) :: List.replicate 5 (1, Choice.proceed)

/-- A worker that has not parked takes the entry and runs the turn. -/
def serving : List (Nat × Choice) :=
  List.replicate 7 (0, Choice.proceed) ++
    (0, Choice.returns 0 0) :: List.replicate 14 (0, Choice.proceed)

theorem permits_suffice_served :
    (reached (fun _ => 0) 1 1 (sending ++ serving)).shared.work = 1 ∧
      PermitsSuffice (fun _ => 0) 1 1 (sending ++ serving) :=
  ⟨by decide, permits_suffice (fun _ => 0) 1 1 (sending ++ serving) (by decide)
    (by decide)⟩

/-- One worker at the head of its loop, one program thread, and one actor with the
given mail whose entries are on the stack of its band. -/
structure Resting (machine : Machine Shared Frame) (entries : List ActorId)
    (mail : List Envelope) (sched : Sched) (count : Nat) : Prop where
  threads : machine.threads = [[.worker (.drain .looping .high)], [.user]]
  ready : machine.shared.ready = Function.update (fun _ => []) .high entries
  sched : (machine.shared.actors 0).sched = sched
  mailbox : (machine.shared.actors 0).mailbox = Function.update (fun _ => []) .high mail
  leftover : ∀ b, ((machine.shared.actors 0).pending b).drop
    ((machine.shared.actors 0).pendingIdx b) = []
  snapshot : (machine.shared.actors 0).snapshot = none
  count : machine.shared.work = count

theorem sending_run {machine : Machine Shared Frame} {count : Nat}
    (resting : Resting machine [] [] .idle count) :
    Resting (machine.run frameStep sending) [0] [parcel] .claimed (count + 1) := by
  obtain ⟨s, threads⟩ := machine
  obtain ⟨same, ready, sched, mailbox, leftover, snapshot, count⟩ := resting
  simp only at *
  subst same
  refine ⟨?_, ?_, ?_, ?_, ?_, ?_, ?_⟩ <;>
    simp [sending, Machine.run, Machine.step, frameStep, userStep, sendStep, handoffStep,
      Shared.sched, Shared.setSched, Shared.modifyActor, Shared.setReady, List.replicate, ready,
      sched, mailbox, leftover, snapshot, count]

/-- The turn leaves everything as it was, the permit included. -/
theorem serving_run {machine : Machine Shared Frame} {count : Nat}
    (resting : Resting machine [0] [parcel] .claimed count) :
    Resting (machine.run frameStep serving) [] [] .idle count := by
  obtain ⟨s, threads⟩ := machine
  obtain ⟨same, ready, sched, mailbox, leftover, snapshot, count⟩ := resting
  simp only at *
  subst same
  have taken : ∀ b, (Function.update (s.actors 0).pending .high [(⟨7, none⟩ : Envelope)] b).length ≤
      Function.update (s.actors 0).pendingIdx .high 1 b := by
    intro b
    have before := leftover b
    rw [List.drop_eq_nil_iff] at before
    cases b <;> simp_all
  refine ⟨?_, ?_, ?_, ?_, ?_, ?_, ?_⟩ <;>
    simp [serving, Machine.run, Machine.step, frameStep, workerStep, turnStep, runningStep,
      finishStep, Shared.sched, Shared.setSched, Shared.modifyActor, Shared.setReady,
      List.replicate, ready, sched, mailbox, leftover, snapshot, count, taken, kBatchSize,
      Actor.leftover, Band.next?, Phase.afterTurn, completeFrames, parcel, back]

/-- A worker that never parks leaves a permit behind for every message. -/
theorem count_drifts (count : Nat) :
    ∃ schedule, Resting (reached (fun _ => 0) 1 1 schedule) [] [] .idle count := by
  induction count with
  | zero =>
      refine ⟨[], rfl, ?_, rfl, ?_, fun _ => rfl, rfl, rfl⟩
      · funext b
        cases b <;> rfl
      · funext b
        cases b <;> rfl
  | succ count induction =>
      obtain ⟨schedule, resting⟩ := induction
      refine ⟨schedule ++ (sending ++ serving), ?_⟩
      have next := serving_run (sending_run resting)
      simpa only [reached, Machine.run, List.foldl_append] using next

theorem count_overflows :
    ¬∀ (states : ActorId → Ref) (workers programs : Nat) (schedule : List (Nat × Choice)),
      0 < workers → PermitsSuffice states workers programs schedule := by
  intro always
  obtain ⟨schedule, resting⟩ := count_drifts (2 ^ 31)
  have inRange := (always (fun _ => 0) 1 1 schedule Nat.one_pos).inRange
  rw [resting.count] at inRange
  exact absurd inRange (by decide)

end ProtoScala.Runtime.WorkerPermits
