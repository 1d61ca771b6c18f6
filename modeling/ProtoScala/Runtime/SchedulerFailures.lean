import ProtoScala.Runtime.SchedulerSuspension

/-!
# Handlers that fail

A handler that ends in an exception leaves its actor's state value alone, and
normally nothing of a suspension either: the record of an `await` is taken back or
ends up parked with the turn. The exception is a yield that some frame refuses
after the record was made: the error that takes its place leaves the record on the
actor.
-/

namespace ProtoScala.Runtime.SchedulerFailures

open ProtoScala.Library.Threads
open ProtoScala.Runtime.ActorScheduler
open ProtoScala.Runtime.SchedulerClaims
open ProtoScala.Runtime.SchedulerTurns
open ProtoScala.Runtime.SchedulerSuspension

set_option autoImplicit false

/-- Nothing of a suspended invocation is recorded on the actor. -/
structure Unrecorded (actor : Actor) : Prop where
  snapshot : actor.snapshot = none
  waitingOn : actor.waitingOn = none
  turnFuture : actor.turnFuture = none

/-- No frame refuses a yield whose record is on the actor already. -/
def unrefused (choice : Choice) (_ : Shared) (frame : Frame) : Bool :=
  match choice, frame with
  | .refused, .turn _ _ (.yielding _ _) => false
  | _, _ => true

/-- The step ends an invocation of a handler of `a`. -/
def endsInvocation (a : ActorId) (choice : Choice) (_ : Shared) (frame : Frame) : Bool :=
  match choice, frame with
  | .returns _ _, .turn held _ (.running _) => held == a
  | .throws _, .turn held _ (.running _) => held == a
  | .defect, .turn held _ (.running _) => held == a
  | _, _ => false

/-- The step records a new suspension of `a`. -/
def recordsAwait (a : ActorId) (_ : Choice) (_ : Shared) (frame : Frame) : Bool :=
  match frame with
  | .turn held _ (.awaitSnapshot _ _) => held == a
  | _ => false

/-! ## What is recorded at each point of a turn -/

/-- Between turns a record is complete or absent. -/
def RestRecord (s : Shared) (a : ActorId) : Prop :=
  (s.actors a).snapshot = none → Unrecorded (s.actors a)

def TurnRecord (s : Shared) (a : ActorId) : TurnPc → Prop
  | .start => RestRecord s a
  | .resumeRead | .resumeState _ _ => (s.actors a).snapshot.isSome = true
  | .resumeClear _ _ => True
  | .awaitWaiting _ _ | .waiterState _ _ | .waiterRead _ _ | .waiterCas _ _ _
  | .waiterRecheck _ _ | .awaitUndo _ _ | .yielding _ _ | .caught _ _ =>
      (s.actors a).snapshot.isSome = true ∧ (s.actors a).turnFuture = none
  | _ => Unrecorded (s.actors a)

theorem unrecorded_congr {actor actor' : Actor} (unrecorded : Unrecorded actor)
    (snapshot : actor'.snapshot = actor.snapshot) (waitingOn : actor'.waitingOn = actor.waitingOn)
    (turnFuture : actor'.turnFuture = actor.turnFuture) : Unrecorded actor' :=
  ⟨snapshot.trans unrecorded.snapshot, waitingOn.trans unrecorded.waitingOn,
    turnFuture.trans unrecorded.turnFuture⟩

theorem rest_record_congr {s s' : Shared} {a : ActorId} (rest : RestRecord s a)
    (snapshot : (s'.actors a).snapshot = (s.actors a).snapshot)
    (waitingOn : (s'.actors a).waitingOn = (s.actors a).waitingOn)
    (turnFuture : (s'.actors a).turnFuture = (s.actors a).turnFuture) : RestRecord s' a :=
  fun absent => unrecorded_congr (rest (snapshot.symm.trans absent)) snapshot waitingOn turnFuture

theorem turn_record_congr {s s' : Shared} {a : ActorId} {pc : TurnPc} (record : TurnRecord s a pc)
    (snapshot : (s'.actors a).snapshot = (s.actors a).snapshot)
    (waitingOn : (s'.actors a).waitingOn = (s.actors a).waitingOn)
    (turnFuture : (s'.actors a).turnFuture = (s.actors a).turnFuture) : TurnRecord s' a pc := by
  cases pc with
  | start => exact rest_record_congr record snapshot waitingOn turnFuture
  | resumeRead | resumeState =>
      simp only [TurnRecord] at record ⊢
      rw [snapshot]
      exact record
  | resumeClear => trivial
  | awaitWaiting | waiterState | waiterRead | waiterCas | waiterRecheck | awaitUndo | yielding
  | caught =>
      simp only [TurnRecord] at record ⊢
      rw [snapshot, turnFuture]
      exact record
  | next | take | store | count | deliver | running | awaitState | awaitSnapshot =>
      exact unrecorded_congr record snapshot waitingOn turnFuture

theorem outside_record {choice : Choice} {s : Shared} {frame : Frame} {a : ActorId}
    (outside : holds a frame = false) :
    ((frameStep choice s frame).1.actors a).snapshot = (s.actors a).snapshot ∧
      ((frameStep choice s frame).1.actors a).waitingOn = (s.actors a).waitingOn ∧
      ((frameStep choice s frame).1.actors a).turnFuture = (s.actors a).turnFuture ∧
      ((frameStep choice s frame).1.actors a).state = (s.actors a).state := by
  have change := outside_step choice s frame a outside
  generalize (frameStep choice s frame).1.actors a = after at change
  cases change <;> exact ⟨rfl, rfl, rfl, rfl⟩

/-- What a step of the turn leaves on the actor. -/
structure TurnRecorded (a : ActorId) (next : Shared × List Frame) : Prop where
  ended : (∀ left ∈ next.2, turnOf a left = false) → RestRecord next.1 a
  goes : ∀ home pc, .turn a home pc ∈ next.2 → TurnRecord next.1 a pc

theorem recorded_turn {a : ActorId} {home : Option Phase} {pc : TurnPc} {s : Shared}
    {calls : List Frame} (begun : ∀ call ∈ calls, begins call = true)
    (record : TurnRecord s a pc) : TurnRecorded a (s, calls ++ [Frame.turn a home pc]) := by
  refine ⟨?_, ?_⟩
  · intro none
    have here := none (.turn a home pc) (by simp)
    simp [turnOf] at here
  · intro home' pc' member
    rcases List.mem_append.mp member with call | last
    · have here := begun _ call
      simp [begins] at here
    · obtain ⟨rfl, rfl⟩ : home' = home ∧ pc' = pc := by simpa using last
      exact record

theorem recorded_next {a : ActorId} {home : Option Phase} {s : Shared} {pc : TurnPc}
    (record : TurnRecord s a pc) : TurnRecorded a (s, [.turn a home pc]) :=
  recorded_turn (List.forall_mem_nil _) record

theorem recorded_finish {a : ActorId} {home : Option Phase} {pc : FinishPc} {s : Shared}
    (rest : RestRecord s a) : TurnRecorded a (s, [.finish a home pc]) := by
  refine ⟨fun _ => rest, ?_⟩
  intro home' pc' member
  simp at member

theorem rest_of_unrecorded {s : Shared} {a : ActorId} (unrecorded : Unrecorded (s.actors a)) :
    RestRecord s a := fun _ => unrecorded

theorem rest_of_snapshot {s : Shared} {a : ActorId}
    (present : (s.actors a).snapshot.isSome = true) : RestRecord s a := by
  intro absent
  rw [absent] at present
  cases present

theorem running_recorded (choice : Choice) (s : Shared) (a : ActorId) (home : Option Phase)
    (call : Invocation) (unrecorded : Unrecorded (s.actors a)) :
    TurnRecorded a (runningStep choice s a home call) := by
  have again : TurnRecorded a (s, [.turn a home (.running call)]) := recorded_next unrecorded
  have calls : ∀ (s' : Shared) (first : Frame), begins first = true →
      Unrecorded (s'.actors a) →
      TurnRecorded a (s', [first] ++ [Frame.turn a home (.running call)]) := by
    intro s' first begun unrecorded
    exact recorded_turn (List.forall_mem_singleton.mpr begun) unrecorded
  have replies : ∀ value failed, ∀ first ∈ completeFrames call.future value failed,
      begins first = true := by
    intro value failed
    cases call.future <;> simp [completeFrames, begins]
  cases choice with
  | send target b env => exact calls s _ rfl unrecorded
  | complete f value failed => exact calls s _ rfl unrecorded
  | onComplete f k => exact calls _ _ rfl unrecorded
  | await f => exact recorded_next unrecorded
  | returns newState reply =>
      refine recorded_turn (replies reply false) ?_
      refine unrecorded_congr unrecorded ?_ ?_ ?_ <;> rw [actors_modifyActor_self]
  | throws error => exact recorded_turn (replies error true) unrecorded
  | defect => exact recorded_finish (rest_of_unrecorded unrecorded)
  | record frame => exact again
  | refused => exact again
  | shutdown => exact again
  | proceed => exact again

theorem await_recorded (choice : Choice) (s : Shared) (a : ActorId) (home : Option Phase)
    (pc : TurnPc) (awaiting : awaits pc = true)
    (unrefusedStep : unrefused choice s (.turn a home pc) = true) (record : TurnRecord s a pc) :
    TurnRecorded a (awaitStep choice s a home pc) := by
  cases pc with
  | awaitState call f =>
      rw [awaitStep]
      split_ifs
      · exact recorded_next record
      · exact recorded_next record
      · exact recorded_next record
  | awaitSnapshot call f =>
      refine recorded_next ⟨?_, ?_⟩
      · simp
      · rw [actors_modifyActor_self]
        exact record.turnFuture
  | awaitWaiting call f =>
      refine recorded_next ⟨?_, ?_⟩ <;> rw [actors_modifyActor_self]
      · exact record.1
      · exact record.2
  | waiterState call f =>
      rw [awaitStep]
      split_ifs
      · exact recorded_next record
      · exact recorded_next record
  | waiterRead call f => exact recorded_next record
  | waiterCas call f cur =>
      rw [awaitStep]
      split_ifs
      · exact recorded_next record
      · exact recorded_next record
  | waiterRecheck call f =>
      rw [awaitStep]
      split_ifs
      · exact recorded_next record
      · exact recorded_next record
  | awaitUndo call f =>
      refine recorded_next ⟨?_, ?_, ?_⟩ <;> rw [actors_modifyActor_self]
      exact record.2
  | yielding call f =>
      cases choice with
      | record frame =>
          refine recorded_next ⟨?_, ?_⟩ <;> rw [actors_modifyActor_self]
          · simpa using record.1
          · exact record.2
      | refused => simp [unrefused] at unrefusedStep
      | _ => exact recorded_next record
  | caught call f =>
      refine recorded_finish (rest_of_snapshot ?_)
      rw [actors_modifyActor_self]
      exact record.1
  | _ => simp [awaits] at awaiting

theorem turn_step_recorded (choice : Choice) (s : Shared) (a : ActorId) (home : Option Phase)
    (pc : TurnPc) (unrefusedStep : unrefused choice s (.turn a home pc) = true)
    (record : TurnRecord s a pc) : TurnRecorded a (turnStep choice s a home pc) := by
  have queues : ∀ (s' : Shared) (pc' : TurnPc), TurnRecord s' a pc' →
      TurnRecorded a (s', [.turn a home pc']) := fun _ _ => recorded_next
  cases pc with
  | start =>
      rw [turnStep]
      split_ifs with present
      · exact recorded_next present
      · exact recorded_next (record (by simpa using present))
  | resumeRead =>
      rw [turnStep]
      split
      · refine recorded_next ⟨?_, ?_, ?_⟩ <;> rw [actors_modifyActor_self]
      · exact recorded_next record
  | resumeState f future =>
      rw [turnStep]
      split_ifs
      · exact recorded_next trivial
      · refine recorded_finish (rest_of_snapshot ?_)
        rw [actors_modifyActor_self]
        exact record
  | resumeClear f future =>
      refine recorded_next ⟨?_, ?_, ?_⟩ <;> rw [actors_modifyActor_self]
  | next budget b seen =>
      cases budget with
      | zero => exact recorded_finish (rest_of_unrecorded record)
      | succ budget =>
          rw [turnStep]
          split
          · refine queues _ (.count budget b _) ?_
            refine unrecorded_congr record ?_ ?_ ?_ <;> rw [actors_modifyActor_self]
          · exact recorded_next record
  | take budget b seen =>
      rw [turnStep]
      split
      · refine queues _ (.store budget b _ _) ?_
        refine unrecorded_congr record ?_ ?_ ?_ <;> rw [actors_modifyActor_self]
      · split
        · exact recorded_next record
        · exact recorded_finish (rest_of_unrecorded record)
  | store budget b env batch =>
      refine queues _ (.count budget b env) ?_
      refine unrecorded_congr record ?_ ?_ ?_ <;> rw [actors_modifyActor_self]
  | count budget b env => exact queues _ (.deliver budget b env) record
  | deliver budget b env =>
      refine queues _ (.running _) ?_
      refine unrecorded_congr record ?_ ?_ ?_ <;> rw [actors_modifyActor_self]
  | running call => exact running_recorded choice s a home call record
  | _ =>
      rw [turn_step_await _ _ _ _ _ rfl]
      exact await_recorded choice s a home _ rfl unrefusedStep record

theorem record_rule : TurnRuleUnder RestRecord TurnRecord unrefused where
  outsideFree := by
    intro choice s frame a _ outside rest
    obtain ⟨snapshot, waitingOn, turnFuture, -⟩ :=
      (outside_record outside : ((frameStep choice s frame).1.actors a).snapshot = _ ∧ _)
    exact rest_record_congr rest snapshot waitingOn turnFuture
  outsideBusy := by
    intro choice s frame a pc _ outside record
    obtain ⟨snapshot, waitingOn, turnFuture, -⟩ :=
      (outside_record outside : ((frameStep choice s frame).1.actors a).snapshot = _ ∧ _)
    exact turn_record_congr record snapshot waitingOn turnFuture
  holder := by
    intro choice s frame a _ held other rest
    obtain ⟨⟨sched, same⟩, -, -⟩ :=
      (holder_step held other : (∃ sched, (frameStep choice s frame).1.actors a = _) ∧ _)
    refine rest_record_congr rest ?_ ?_ ?_ <;> rw [same]
  begins := fun _ _ rest => rest
  ended := fun choice s a home pc met record =>
    (turn_step_recorded choice s a home pc met record).ended
  goes := fun choice s a home home' pc pc' met record =>
    (turn_step_recorded choice s a home pc met record).goes home' pc'

/-! ## What one step does to the state value and the snapshot -/

/-- Only the end of an invocation stores a state value. -/
theorem step_state (choice : Choice) (s : Shared) (frame : Frame) (a : ActorId)
    (goesOn : endsInvocation a choice s frame = false) :
    ((frameStep choice s frame).1.actors a).state = (s.actors a).state := by
  cases held : holds a frame with
  | false => exact (outside_record held).2.2.2
  | true =>
      cases turn : turnOf a frame with
      | false =>
          obtain ⟨⟨sched, same⟩, -, -⟩ :=
            (holder_step held turn : (∃ sched, (frameStep choice s frame).1.actors a = _) ∧ _)
          rw [same]
      | true =>
          obtain ⟨home, pc, rfl⟩ := turn_of_mem turn
          simp only [frameStep]
          cases pc with
          | running call => cases choice <;> simp_all [turnStep, runningStep, endsInvocation]
          | yielding call f =>
              rw [turn_step_await _ _ _ _ _ rfl]
              cases choice <;> simp [awaitStep]
          | next budget b seen =>
              cases budget with
              | zero => rfl
              | succ budget =>
                  rw [turnStep]
                  split <;> simp
          | _ =>
              simp only [turnStep, awaitStep]
              repeat' split
              all_goals simp

/-- Only `future_await` begins a record. -/
theorem step_snapshot (choice : Choice) (s : Shared) (frame : Frame) (a : ActorId)
    (goesOn : recordsAwait a choice s frame = false) (absent : (s.actors a).snapshot = none) :
    ((frameStep choice s frame).1.actors a).snapshot = none := by
  cases held : holds a frame with
  | false => exact (outside_record held).1.trans absent
  | true =>
      cases turn : turnOf a frame with
      | false =>
          obtain ⟨⟨sched, same⟩, -, -⟩ :=
            (holder_step held turn : (∃ sched, (frameStep choice s frame).1.actors a = _) ∧ _)
          rw [same]
          exact absent
      | true =>
          obtain ⟨home, pc, rfl⟩ := turn_of_mem turn
          simp only [frameStep]
          cases pc with
          | awaitSnapshot call f => simp [recordsAwait] at goesOn
          | running call => cases choice <;> simp [turnStep, runningStep, absent]
          | yielding call f =>
              rw [turn_step_await _ _ _ _ _ rfl]
              cases choice <;> simp [awaitStep, absent]
          | next budget b seen =>
              cases budget with
              | zero => exact absent
              | succ budget =>
                  rw [turnStep]
                  split <;> simp [absent]
          | _ =>
              simp only [turnStep, awaitStep]
              repeat' split
              all_goals simp [absent]

theorem run_state {machine : Machine Shared Frame} {schedule : List (Nat × Choice)} {a : ActorId}
    (goesOn : machine.meets frameStep
      (fun choice s frame => !endsInvocation a choice s frame) schedule = true) :
    ((machine.run frameStep schedule).shared.actors a).state = (machine.shared.actors a).state :=
  run_invariant_meeting frameStep (fun choice s frame => !endsInvocation a choice s frame)
    (fun s _ => (s.actors a).state = (machine.shared.actors a).state)
    (fun choice s frame _ met same =>
      (step_state choice s frame a (by simpa using met)).trans same) rfl goesOn

theorem run_snapshot {machine : Machine Shared Frame} {schedule : List (Nat × Choice)}
    {a : ActorId} (absent : (machine.shared.actors a).snapshot = none)
    (goesOn : machine.meets frameStep
      (fun choice s frame => !recordsAwait a choice s frame) schedule = true) :
    ((machine.run frameStep schedule).shared.actors a).snapshot = none :=
  run_invariant_meeting frameStep (fun choice s frame => !recordsAwait a choice s frame)
    (fun s _ => (s.actors a).snapshot = none)
    (fun choice s frame _ met absent =>
      step_snapshot choice s frame a (by simpa using met) absent) absent goesOn

/-! ## The failed invocation -/

section

variable (states : ActorId → Ref) (workers programs : Nat)

/-- The actor after the step in which a handler of `a`, running on top of `callers`
in `thread`, ends in `error`. `later` is the rest of the run. -/
structure Intact (past later : List (Nat × Choice)) (thread : Nat) (error : Ref) (a : ActorId)
    (home : Option Phase) (call : Invocation) (callers : List Frame) : Prop where
  unrecorded :
    Unrecorded ((reached states workers programs
      (past ++ [(thread, Choice.throws error)])).shared.actors a)
  /-- The turn goes on to the next message. -/
  goesOn :
    (reached states workers programs (past ++ [(thread, Choice.throws error)])).threads[thread]? =
      some (completeFrames call.future error true ++
        .turn a home (.next call.budget .high []) :: callers)
  /-- The state value is the one the message was delivered on. -/
  state : ∀ before delivering during home' budget b env callers',
    past = before ++ delivering :: during →
    (reached states workers programs before).threads[delivering.1]? =
      some (.turn a home' (.deliver budget b env) :: callers') →
    (reached states workers programs (before ++ [delivering])).meets frameStep
      (fun choice s frame => !endsInvocation a choice s frame) during = true →
    ((reached states workers programs
      (past ++ [(thread, Choice.throws error)])).shared.actors a).state =
      ((reached states workers programs before).shared.actors a).state
  /-- Until the actor awaits again, there is nothing a turn could resume. -/
  notResumed : ∀ next, next <+: later →
    (reached states workers programs (past ++ [(thread, Choice.throws error)])).meets frameStep
      (fun choice s frame => !recordsAwait a choice s frame) next = true →
    ((reached states workers programs (past ++ (thread, Choice.throws error) :: next)).shared.actors
      a).snapshot = none

end

section

variable {states : ActorId → Ref} {workers programs : Nat}

theorem reached_append (past later : List (Nat × Choice)) :
    reached states workers programs (past ++ later) =
      (reached states workers programs past).run frameStep later := by
  simp [reached, Machine.run]

theorem reached_step {past : List (Nat × Choice)} {thread : Nat} {choice : Choice} {frame : Frame}
    {callers : List Frame}
    (found : (reached states workers programs past).threads[thread]? = some (frame :: callers)) :
    reached states workers programs (past ++ [(thread, choice)]) =
      { shared := (frameStep choice (reached states workers programs past).shared frame).1
        threads := (reached states workers programs past).threads.set thread
          ((frameStep choice (reached states workers programs past).shared frame).2 ++ callers) } := by
  rw [reached_append]
  exact step_of_get frameStep found choice

end

/-- A message reaches the one actor and its handler awaits a pending future, up to
the frame that begins to let the yield pass. -/
def awaitingRun : List (Nat × Choice) :=
  (1, Choice.send 0 .medium ⟨4, none⟩) :: List.replicate 5 (1, Choice.proceed) ++
    List.replicate 10 (0, Choice.proceed) ++ [(0, Choice.await 0)] ++
    List.replicate 7 (0, Choice.proceed)

/-- The handler fails while it has not awaited anything. -/
def directRun : List (Nat × Choice) :=
  (1, Choice.send 0 .medium ⟨4, none⟩) :: List.replicate 5 (1, Choice.proceed) ++
    List.replicate 10 (0, Choice.proceed)

/-- The inner frame of the handler is recorded and the outer one refuses the
yield. -/
def refusedRun : List (Nat × Choice) := awaitingRun ++ [(0, Choice.record 7), (0, Choice.refused)]

/-- The turn ends, the future is completed, and the next turn finds the record and
runs the frames of the failed invocation to their end. -/
def resumedRun : List (Nat × Choice) :=
  refusedRun ++ [(0, Choice.throws 3)] ++ List.replicate 16 (0, Choice.proceed) ++
    [(1, Choice.complete 0 5 false)] ++ List.replicate 11 (1, Choice.proceed) ++
    List.replicate 8 (0, Choice.proceed) ++ [(0, Choice.returns 99 0)]

end ProtoScala.Runtime.SchedulerFailures
