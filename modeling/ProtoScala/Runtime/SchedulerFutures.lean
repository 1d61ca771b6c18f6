import ProtoScala.Runtime.SchedulerClaims

/-!
# What a step does to a future

Every attribute of a future has one kind of call that writes it, and `future_step`
says which. The registered actors of a future only grow, and only the write of
the final state settles it.
-/

namespace ProtoScala.Runtime.SchedulerFutures

open ProtoScala.Library.Threads
open ProtoScala.Runtime.ActorScheduler
open ProtoScala.Runtime.SchedulerClaims

set_option autoImplicit false

inductive FutureChange (f : FutureId) (frame : Frame) (future : Future) : Future → Prop
  | same : FutureChange f frame future future
  | claim (value : Ref) (failed : Bool) (call : frame = .complete f (.claim value failed))
      (free : future.fstate = .pending) :
      FutureChange f frame future { future with fstate := .claiming }
  | value (value : Ref) (failed : Bool) (call : frame = .complete f (.setValue value failed)) :
      FutureChange f frame future (if failed then { future with ferror := some value }
        else { future with fvalue := some value })
  | settle (failed : Bool) (call : frame = .complete f (.setState failed)) :
      FutureChange f frame future { future with
        fstate := if failed then .failure else .success }
  | list (a : ActorId) (home : Option Phase) (invocation : Invocation) (cur : List ActorId)
      (call : frame = .turn a home (.waiterCas invocation f cur)) (found : future.waiters = cur) :
      FutureChange f frame future { future with waiters := cur ++ [a] }
  | append (k : Ref) (cur : List Ref) (call : frame = .onComplete f k (.cas cur))
      (found : future.conts = cur) :
      FutureChange f frame future { future with conts := cur ++ [k] }
  | take (conts : List Ref) (call : frame = .continuations f (.take conts))
      (found : future.conts = conts) : FutureChange f frame future { future with conts := [] }
  | runs (k : Ref) : FutureChange f frame future { future with ran := future.ran ++ [k] }
  | registers (k : Ref) :
      FutureChange f frame future { future with registered := future.registered ++ [k] }

theorem future_modified {f g : FutureId} {frame : Frame} {s : Shared}
    {change : Future → Future}
    (changed : g = f → FutureChange f frame (s.futures f) (change (s.futures f))) :
    FutureChange f frame (s.futures f) ((s.modifyFuture g change).futures f) := by
  rw [futures_modifyFuture]
  split_ifs with same
  · subst same
    exact changed rfl
  · exact .same

theorem turn_future_step (choice : Choice) (s : Shared) (a : ActorId) (home : Option Phase)
    (pc : TurnPc) (f : FutureId) :
    FutureChange f (.turn a home pc) (s.futures f)
      ((turnStep choice s a home pc).1.futures f) := by
  cases pc with
  | running call =>
      simp only [turnStep]
      unfold runningStep
      split
      case h_3 g k =>
          dsimp only
          apply future_modified
          intro _
          exact .registers k
      all_goals exact .same
  | waiterCas call g cur =>
      simp only [turnStep, awaitStep]
      split_ifs with found
      · dsimp only
        apply future_modified
        rintro rfl
        exact .list a home call cur rfl found
      · exact .same
  | next budget b seen =>
      cases budget with
      | zero => exact .same
      | succ budget =>
          simp only [turnStep]
          split <;> exact .same
  | _ =>
      simp only [turnStep, awaitStep]
      repeat' split
      all_goals exact .same

theorem complete_future_step (s : Shared) (g f : FutureId) (pc : CompletePc) :
    FutureChange f (.complete g pc) (s.futures f) ((completeStep s g pc).1.futures f) := by
  cases pc with
  | claim value failed =>
      rw [completeStep]
      split_ifs with free
      · dsimp only
        apply future_modified
        rintro rfl
        exact .claim value failed rfl free
      · exact .same
  | setValue value failed =>
      rw [completeStep]
      dsimp only
      apply future_modified
      rintro rfl
      exact .value value failed rfl
  | setState failed =>
      rw [completeStep]
      dsimp only
      apply future_modified
      rintro rfl
      exact .settle failed rfl
  | readWaiters => exact .same
  | wake waiters => cases waiters <;> exact .same

theorem continuations_future_step (s : Shared) (g f : FutureId) (pc : ContinuationsPc) :
    FutureChange f (.continuations g pc) (s.futures f)
      ((continuationsStep s g pc).1.futures f) := by
  cases pc with
  | read =>
      rw [continuationsStep]
      split_ifs <;> exact .same
  | take conts =>
      rw [continuationsStep]
      split_ifs with found
      · dsimp only
        apply future_modified
        rintro rfl
        exact .take conts rfl found
      · exact .same
  | runEach conts =>
      cases conts with
      | nil => exact .same
      | cons k conts =>
          rw [continuationsStep]
          dsimp only
          apply future_modified
          intro _
          exact .runs k

theorem on_complete_future_step (s : Shared) (g f : FutureId) (k : Ref) (pc : OnCompletePc) :
    FutureChange f (.onComplete g k pc) (s.futures f) ((onCompleteStep s g k pc).1.futures f) := by
  cases pc with
  | state =>
      rw [onCompleteStep]
      split_ifs
      · dsimp only
        apply future_modified
        intro _
        exact .runs k
      · exact .same
  | read => exact .same
  | cas cur =>
      rw [onCompleteStep]
      split_ifs with found
      · dsimp only
        apply future_modified
        rintro rfl
        exact .append k cur rfl found
      · exact .same
  | recheck =>
      rw [onCompleteStep]
      split_ifs <;> exact .same

theorem future_step (choice : Choice) (s : Shared) (frame : Frame) (f : FutureId) :
    FutureChange f frame (s.futures f) ((frameStep choice s frame).1.futures f) := by
  cases frame with
  | turn a home pc => exact turn_future_step choice s a home pc f
  | complete g pc => exact complete_future_step s g f pc
  | continuations g pc => exact continuations_future_step s g f pc
  | onComplete g k pc => exact on_complete_future_step s g f k pc
  | user =>
      simp only [frameStep]
      unfold userStep
      split
      case h_3 g k =>
          dsimp only
          apply future_modified
          intro _
          exact .registers k
      all_goals exact .same
  | send a b pc =>
      simp only [frameStep]
      unfold sendStep
      repeat' split
      all_goals exact .same
  | resume a pc =>
      simp only [frameStep]
      unfold resumeStep
      repeat' split
      all_goals exact .same
  | handoff a pc =>
      simp only [frameStep]
      unfold handoffStep
      repeat' split
      all_goals exact .same
  | worker pc =>
      simp only [frameStep]
      unfold workerStep
      repeat' split
      all_goals exact .same
  | finish a home pc =>
      simp only [frameStep]
      unfold finishStep
      repeat' split
      all_goals exact .same
  | shutdown pc =>
      simp only [frameStep]
      unfold shutdownStep
      split <;> exact .same

/-- The registered actors of a future only grow. -/
theorem waiters_grow {choice : Choice} {s : Shared} {frame : Frame} {f : FutureId}
    {a : ActorId} (listed : a ∈ (s.futures f).waiters) :
    a ∈ ((frameStep choice s frame).1.futures f).waiters := by
  have change := future_step choice s frame f
  generalize (frameStep choice s frame).1.futures f = after at change
  cases change with
  | value value failed call =>
      split_ifs
      · exact listed
      · exact listed
  | list a' home invocation cur call found =>
      rw [found] at listed
      exact List.mem_append_left _ listed
  | _ => exact listed

/-- Only the write of the final state settles a future. -/
theorem settles_by_completer {choice : Choice} {s : Shared} {frame : Frame} {f : FutureId}
    (settled : (frameStep choice s frame).1.settled f = true) :
    s.settled f = true ∨ ∃ failed, frame = .complete f (.setState failed) := by
  have change := future_step choice s frame f
  unfold Shared.settled at *
  generalize (frameStep choice s frame).1.futures f = after at change settled
  cases change with
  | claim value failed call free => simp [Future.settled] at settled
  | value value failed call =>
      refine Or.inl ?_
      split_ifs at settled
      · exact settled
      · exact settled
  | settle failed call => exact Or.inr ⟨failed, call⟩
  | _ => exact Or.inl settled

end ProtoScala.Runtime.SchedulerFutures
