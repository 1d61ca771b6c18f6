import Mathlib.Algebra.BigOperators.Group.Multiset.Basic
import Mathlib.Algebra.Ring.Nat
import ProtoScala.Runtime.SchedulerFutures

/-!
# Every continuation once

A continuation given to `onComplete` is in the hands of its own call, in the list
of the future, in the hands of the call that took the list, or has been called.
`runContinuations` may give its turn up when the list has changed, because on a
settled future every list that is not empty has a call that will look at it.
-/

namespace ProtoScala.Runtime.SchedulerContinuations

open ProtoScala.Library.Threads
open ProtoScala.Runtime.ActorScheduler
open ProtoScala.Runtime.SchedulerClaims
open ProtoScala.Runtime.SchedulerFutures

set_option autoImplicit false

/-! ## Where a continuation is -/

/-- How often a call in progress is going to call `k` because of `f`. -/
def keeps (f : FutureId) (k : Ref) : Frame → Nat
  | .onComplete _ _ .recheck => 0
  | .onComplete g j _ => if g = f ∧ j = k then 1 else 0
  | .continuations g (.runEach conts) => if g = f then conts.count k else 0
  | _ => 0

def kept (f : FutureId) (k : Ref) (frames : Multiset Frame) : Nat :=
  (frames.map (keeps f k)).sum

def Tallied (s : Shared) (frames : Multiset Frame) : Prop :=
  ∀ f k, (s.futures f).registered.count k =
    (s.futures f).ran.count k + (s.futures f).conts.count k + kept f k frames

/-- What one step does to the places of `k`. -/
def Moves (f : FutureId) (k : Ref) (future : Future) (frame : Frame) (future' : Future)
    (left : List Frame) : Prop :=
  future'.registered.count k + (future.ran.count k + future.conts.count k + keeps f k frame) =
    future.registered.count k +
      (future'.ran.count k + future'.conts.count k + (left.map (keeps f k)).sum)

theorem moves_same {f : FutureId} {k : Ref} {future : Future} {frame : Frame}
    {left : List Frame} (same : (left.map (keeps f k)).sum = keeps f k frame) :
    Moves f k future frame future left := by
  unfold Moves
  rw [same]

theorem keeps_back (f : FutureId) (k : Ref) (home : Option Phase) :
    ((back home).map (keeps f k)).sum = 0 := by
  cases home <;> rfl

theorem keeps_nothing_ready (f : FutureId) (k : Ref) (phase : Phase) :
    (phase.nothingReady.map (keeps f k)).sum = 0 := by
  unfold Phase.nothingReady
  split
  · rfl
  · rfl
  · split_ifs <;> rfl

theorem register_moves (f g : FutureId) (k j : Ref) (s : Shared) (frame caller : Frame)
    (plain : keeps f k frame = 0) (quiet : keeps f k caller = 0) :
    Moves f k (s.futures f) frame
      ((s.modifyFuture g fun future =>
        { future with registered := future.registered ++ [j] }).futures f)
      [.onComplete g j .state, caller] := by
  have first : keeps f k (.onComplete g j .state) = if g = f ∧ j = k then 1 else 0 := rfl
  rw [futures_modifyFuture]
  unfold Moves
  by_cases same : f = g
  · subst same
    simp only [if_true, List.count_append, List.count_singleton, List.map_cons, List.map_nil,
      List.sum_cons, List.sum_nil, first, plain, quiet, true_and, beq_iff_eq]
    omega
  · simp [first, plain, quiet, same, Ne.symm same]

theorem turn_moves (choice : Choice) (s : Shared) (a : ActorId) (home : Option Phase)
    (pc : TurnPc) (f : FutureId) (k : Ref) :
    Moves f k (s.futures f) (.turn a home pc) ((turnStep choice s a home pc).1.futures f)
      (turnStep choice s a home pc).2 := by
  have replies : ∀ future value failed next, ((completeFrames future value failed ++
      [Frame.turn a home next]).map (keeps f k)).sum = 0 := by
    intro future value failed next
    cases future <;> rfl
  cases pc with
  | running call =>
      cases choice with
      | onComplete g j => exact register_moves f g k j s _ _ rfl rfl
      | returns newState reply => exact moves_same (replies _ _ _ _)
      | throws error => exact moves_same (replies _ _ _ _)
      | _ => exact moves_same rfl
  | waiterCas call g cur =>
      simp only [turnStep, awaitStep]
      split_ifs
      · unfold Moves
        rw [futures_modifyFuture]
        split_ifs with same
        · subst same
          rfl
        · rfl
      · exact moves_same rfl
  | next budget b seen =>
      cases budget with
      | zero => exact moves_same rfl
      | succ budget =>
          simp only [turnStep]
          split <;> exact moves_same rfl
  | _ =>
      simp only [turnStep, awaitStep]
      repeat' split
      all_goals exact moves_same rfl

theorem future_kept_moves {f g : FutureId} {k : Ref} {s : Shared} {frame : Frame}
    {left : List Frame} {change : Future → Future}
    (registered : (change (s.futures g)).registered = (s.futures g).registered)
    (ran : (change (s.futures g)).ran = (s.futures g).ran)
    (conts : (change (s.futures g)).conts = (s.futures g).conts)
    (same : (left.map (keeps f k)).sum = keeps f k frame) :
    Moves f k (s.futures f) frame ((s.modifyFuture g change).futures f) left := by
  unfold Moves
  rw [futures_modifyFuture, same]
  split_ifs with equal
  · subst equal
    rw [registered, ran, conts]
  · rfl

theorem complete_moves (s : Shared) (g f : FutureId) (pc : CompletePc) (k : Ref) :
    Moves f k (s.futures f) (.complete g pc) ((completeStep s g pc).1.futures f)
      (completeStep s g pc).2 := by
  cases pc with
  | claim value failed =>
      rw [completeStep]
      split_ifs
      · dsimp only
        apply future_kept_moves <;> rfl
      · exact moves_same rfl
  | setValue value failed =>
      rw [completeStep]
      dsimp only
      apply future_kept_moves
      · cases failed <;> rfl
      · cases failed <;> rfl
      · cases failed <;> rfl
      · rfl
  | setState failed =>
      rw [completeStep]
      dsimp only
      apply future_kept_moves <;> rfl
  | readWaiters => exact moves_same rfl
  | wake waiters => cases waiters <;> exact moves_same rfl

theorem continuations_moves (s : Shared) (g f : FutureId) (pc : ContinuationsPc) (k : Ref) :
    Moves f k (s.futures f) (.continuations g pc) ((continuationsStep s g pc).1.futures f)
      (continuationsStep s g pc).2 := by
  cases pc with
  | read =>
      rw [continuationsStep]
      split_ifs <;> exact moves_same rfl
  | take conts =>
      rw [continuationsStep]
      split_ifs with found
      · unfold Moves
        dsimp only
        rw [futures_modifyFuture]
        by_cases same : f = g
        · subst same
          simp [keeps, found]
        · simp [keeps, same, Ne.symm same]
      · exact moves_same rfl
  | runEach conts =>
      cases conts with
      | nil => exact moves_same (by simp [continuationsStep, keeps])
      | cons j conts =>
          rw [continuationsStep]
          unfold Moves
          dsimp only
          rw [futures_modifyFuture]
          by_cases same : f = g
          · subst same
            simp only [if_true, List.map_cons, List.map_nil, List.sum_cons, List.sum_nil, keeps,
              List.count_append, List.count_cons, List.count_nil]
            omega
          · simp [keeps, same, Ne.symm same]

theorem on_complete_moves (s : Shared) (g f : FutureId) (j k : Ref) (pc : OnCompletePc) :
    Moves f k (s.futures f) (.onComplete g j pc) ((onCompleteStep s g j pc).1.futures f)
      (onCompleteStep s g j pc).2 := by
  cases pc with
  | state =>
      rw [onCompleteStep]
      split_ifs
      · unfold Moves
        dsimp only
        rw [futures_modifyFuture]
        by_cases same : f = g
        · subst same
          simp only [if_true, List.map_cons, List.map_nil, List.sum_cons, List.sum_nil, keeps,
            List.count_append, List.count_singleton, true_and, beq_iff_eq]
          omega
        · simp [keeps, same, Ne.symm same]
      · exact moves_same rfl
  | read => exact moves_same rfl
  | cas cur =>
      rw [onCompleteStep]
      split_ifs with found
      · unfold Moves
        dsimp only
        rw [futures_modifyFuture]
        by_cases same : f = g
        · subst same
          simp only [if_true, List.map_cons, List.map_nil, List.sum_cons, List.sum_nil, keeps,
            List.count_append, List.count_singleton, true_and, beq_iff_eq, found]
          omega
        · simp [keeps, same, Ne.symm same]
      · exact moves_same rfl
  | recheck =>
      rw [onCompleteStep]
      split_ifs <;> exact moves_same rfl

theorem step_moves (choice : Choice) (s : Shared) (frame : Frame) (f : FutureId) (k : Ref) :
    Moves f k (s.futures f) frame ((frameStep choice s frame).1.futures f)
      (frameStep choice s frame).2 := by
  cases frame with
  | turn a home pc => exact turn_moves choice s a home pc f k
  | complete g pc => exact complete_moves s g f pc k
  | continuations g pc => exact continuations_moves s g f pc k
  | onComplete g j pc => exact on_complete_moves s g f j k pc
  | user =>
      cases choice with
      | onComplete g j => exact register_moves f g k j s _ _ rfl rfl
      | _ => exact moves_same rfl
  | send a b pc =>
      simp only [frameStep]
      unfold sendStep
      repeat' split
      all_goals exact moves_same rfl
  | resume a pc =>
      simp only [frameStep]
      unfold resumeStep
      repeat' split
      all_goals exact moves_same rfl
  | handoff a pc =>
      simp only [frameStep]
      unfold handoffStep
      repeat' split
      all_goals exact moves_same rfl
  | worker pc =>
      simp only [frameStep]
      unfold workerStep
      repeat' split
      all_goals first
        | exact moves_same rfl
        | exact moves_same (keeps_nothing_ready f k _)
  | finish a home pc =>
      have handed : ((Frame.handoff a (.pendingOf .high) :: back home).map (keeps f k)).sum =
          0 := by
        rw [List.map_cons, List.sum_cons, keeps_back]
        rfl
      simp only [frameStep]
      unfold finishStep
      repeat' split
      all_goals first
        | exact moves_same rfl
        | exact moves_same (keeps_back f k home)
        | exact moves_same handed
  | shutdown pc =>
      simp only [frameStep]
      unfold shutdownStep
      split <;> exact moves_same rfl

theorem tallied_step (choice : Choice) (s : Shared) (frame : Frame) (others : Multiset Frame)
    (tallied : Tallied s (frame ::ₘ others)) :
    Tallied (frameStep choice s frame).1 (↑(frameStep choice s frame).2 + others) := by
  intro f k
  have before := tallied f k
  have moves := step_moves choice s frame f k
  unfold kept at before ⊢
  rw [Multiset.map_cons, Multiset.sum_cons] at before
  rw [Multiset.map_add, Multiset.sum_add, Multiset.map_coe, Multiset.sum_coe]
  unfold Moves at moves
  omega

/-! ## Who looks at the list -/

/-- The calls that will look at the list of `f`: those that have not read it yet,
and the one that has read it as it is. -/
def responsible (f : FutureId) (conts : List Ref) : Frame → Bool
  | .complete g .readWaiters => g == f
  | .complete g (.wake _) => g == f
  | .continuations g .read => g == f
  | .continuations g (.take seen) => g == f && seen == conts
  | .onComplete g _ .recheck => g == f
  | _ => false

def LookedAfter (s : Shared) (frames : Multiset Frame) : Prop :=
  ∀ f, s.settled f = true → (s.futures f).conts ≠ [] →
    ∃ frame ∈ frames, responsible f (s.futures f).conts frame = true

/-- A call that is responsible for a list on a settled future stays responsible
until the list is taken. -/
theorem responsible_goes_on {choice : Choice} {s : Shared} {frame : Frame} {f : FutureId}
    (settled : s.settled f = true) (more : (s.futures f).conts ≠ [])
    (looks : responsible f (s.futures f).conts frame = true) :
    ((frameStep choice s frame).1.futures f).conts = [] ∨
      ∃ left ∈ (frameStep choice s frame).2, responsible f (s.futures f).conts left = true := by
  unfold responsible at looks
  split at looks
  · next g =>
      obtain rfl : g = f := beq_iff_eq.mp looks
      exact Or.inr ⟨.complete g (.wake (s.futures g).waiters), by simp [frameStep, completeStep],
        by simp [responsible]⟩
  · next g waiters =>
      obtain rfl : g = f := beq_iff_eq.mp looks
      cases waiters with
      | nil =>
          exact Or.inr ⟨.continuations g .read, by simp [frameStep, completeStep],
            by simp [responsible]⟩
      | cons a rest =>
          exact Or.inr ⟨.complete g (.wake rest), by simp [frameStep, completeStep],
            by simp [responsible]⟩
  · next g =>
      obtain rfl : g = f := beq_iff_eq.mp looks
      refine Or.inr ⟨.continuations g (.take (s.futures g).conts), ?_, by simp [responsible]⟩
      simp [frameStep, continuationsStep, more]
  · next g seen =>
      obtain ⟨rfl, rfl⟩ : g = f ∧ seen = (s.futures f).conts := by simpa using looks
      refine Or.inl ?_
      simp [frameStep, continuationsStep]
  · next g j =>
      obtain rfl : g = f := beq_iff_eq.mp looks
      refine Or.inr ⟨.continuations g .read, ?_, by simp [responsible]⟩
      simp [frameStep, onCompleteStep, settled]
  · contradiction

/-- The list of a future is changed by an appending or a taking call only. -/
theorem conts_change (choice : Choice) (s : Shared) (frame : Frame) (f : FutureId) :
    ((frameStep choice s frame).1.futures f).conts = (s.futures f).conts ∨
      ((frameStep choice s frame).1.futures f).conts = [] ∨
      ∃ k cur, frame = .onComplete f k (.cas cur) ∧ (s.futures f).conts = cur := by
  have change := future_step choice s frame f
  generalize (frameStep choice s frame).1.futures f = after at change
  cases change with
  | value value failed call =>
      refine Or.inl ?_
      split_ifs <;> rfl
  | append k cur call found => exact Or.inr (Or.inr ⟨k, cur, call, found⟩)
  | take conts call found => exact Or.inr (Or.inl rfl)
  | _ => exact Or.inl rfl

theorem looked_after_step (choice : Choice) (s : Shared) (frame : Frame)
    (others : Multiset Frame) (looked : LookedAfter s (frame ::ₘ others)) :
    LookedAfter (frameStep choice s frame).1 (↑(frameStep choice s frame).2 + others) := by
  intro f settled more
  have new : ∀ left ∈ (frameStep choice s frame).2,
      responsible f ((frameStep choice s frame).1.futures f).conts left = true →
      ∃ left ∈ (↑(frameStep choice s frame).2 + others : Multiset Frame),
        responsible f ((frameStep choice s frame).1.futures f).conts left = true :=
    fun left member looks => ⟨left, Multiset.mem_add.mpr (Or.inl member), looks⟩
  rcases settles_by_completer settled with before | ⟨failed, rfl⟩
  · rcases conts_change choice s frame f with same | empty | ⟨k, cur, rfl, found⟩
    · rw [same] at more ⊢
      obtain ⟨looker, member, looks⟩ := looked f before more
      rcases Multiset.mem_cons.mp member with rfl | old
      · rcases responsible_goes_on before more looks with empty | ⟨left, leftMember, still⟩
        · rw [same] at empty
          exact absurd empty more
        · exact ⟨left, Multiset.mem_add.mpr (Or.inl leftMember), still⟩
      · exact ⟨looker, Multiset.mem_add.mpr (Or.inr old), looks⟩
    · exact absurd empty more
    · refine new (.onComplete f k .recheck) ?_ (by simp [responsible])
      simp [frameStep, onCompleteStep, found]
  · exact new (.complete f .readWaiters) (by simp [frameStep, completeStep])
      (by simp [responsible])

theorem reached_tallied (states : ActorId → Ref) (workers programs : Nat)
    (schedule : List (Nat × Choice)) :
    Tallied (reached states workers programs schedule).shared
      (reached states workers programs schedule).frames := by
  apply run_invariant frameStep Tallied tallied_step
  intro f k
  have nothing : kept f k (initial states workers programs).frames = 0 := by
    rw [kept, Multiset.sum_eq_zero]
    intro count member
    obtain ⟨frame, inside, rfl⟩ := Multiset.mem_map.mp member
    rcases initial_frames states workers programs frame inside with rfl | rfl <;> rfl
  rw [nothing]
  rfl

theorem reached_looked_after (states : ActorId → Ref) (workers programs : Nat)
    (schedule : List (Nat × Choice)) :
    LookedAfter (reached states workers programs schedule).shared
      (reached states workers programs schedule).frames := by
  apply run_invariant frameStep LookedAfter looked_after_step
  intro f settled
  contradiction

/-- A call of `onComplete`, `complete` or `runContinuations` for `f` that has not
returned. -/
def calls (f : FutureId) : Frame → Bool
  | .complete g _ => g == f
  | .continuations g _ => g == f
  | .onComplete g _ _ => g == f
  | _ => false

theorem keeps_of_other {f : FutureId} {k : Ref} {frame : Frame} (other : calls f frame = false) :
    keeps f k frame = 0 := by
  unfold keeps
  split
  · rfl
  · next g j pc _ =>
      have different : ¬(g = f ∧ j = k) := by
        rintro ⟨rfl, -⟩
        simp [calls] at other
      rw [if_neg different]
  · next g conts =>
      have different : g ≠ f := by
        rintro rfl
        simp [calls] at other
      rw [if_neg different]
  · rfl

/-- A continuation is never called more often than it was registered, and on a
settled future with no call in progress exactly as often. -/
theorem continuations_run_once (states : ActorId → Ref) (workers programs : Nat)
    (schedule : List (Nat × Choice)) (f : FutureId) (k : Ref) :
    let machine := reached states workers programs schedule
    let future := machine.shared.futures f
    future.ran.count k ≤ future.registered.count k ∧
      (machine.shared.settled f = true → (∀ frame ∈ machine.frames, calls f frame = false) →
        future.ran.count k = future.registered.count k) := by
  intro machine future
  have tallied : future.registered.count k =
      future.ran.count k + future.conts.count k + kept f k machine.frames :=
    reached_tallied states workers programs schedule f k
  refine ⟨by omega, ?_⟩
  intro settled quiet
  have nothing : kept f k machine.frames = 0 := by
    rw [kept, Multiset.sum_eq_zero]
    intro count member
    obtain ⟨frame, inside, rfl⟩ := Multiset.mem_map.mp member
    exact keeps_of_other (quiet frame inside)
  have empty : future.conts = [] := by
    by_contra more
    obtain ⟨looker, member, looks⟩ :=
      reached_looked_after states workers programs schedule f settled more
    have other := quiet looker member
    unfold responsible at looks
    split at looks <;> simp_all [calls]
  rw [empty, List.count_nil] at tallied
  omega

/-- A continuation is registered, and the program completes the future. -/
def registerThenComplete : List (Nat × Choice) :=
  (0, Choice.onComplete 3 5) :: List.replicate 4 (0, Choice.proceed) ++
    (0, Choice.complete 3 42 false) :: List.replicate 10 (0, Choice.proceed)

theorem registered_runs_once :
    ((reached (fun _ => 0) 0 1 registerThenComplete).shared.futures 3).registered.count 5 = 1 ∧
      ((reached (fun _ => 0) 0 1 registerThenComplete).shared.futures 3).ran.count 5 =
        ((reached (fun _ => 0) 0 1 registerThenComplete).shared.futures 3).registered.count 5 :=
  ⟨by decide,
    (continuations_run_once (fun _ => 0) 0 1 registerThenComplete 3 5).2 (by decide)
      (by decide)⟩

end ProtoScala.Runtime.SchedulerContinuations
