import ProtoScala.Runtime.ActorScheduler

/-!
# The claim on an actor

An actor that is neither idle nor suspended is claimed exactly once: by its one
entry on a ready stack, or by the one call that works for it. Every other result
about the scheduler rests on this count.
-/

namespace ProtoScala.Runtime.SchedulerClaims

open ProtoScala.Library.Threads
open ProtoScala.Runtime.ActorScheduler

set_option autoImplicit false

/-! ## What the updates of the shared state leave alone -/

section

variable (s : Shared) (a a' : ActorId) (f f' : FutureId) (b b' : Band)

@[simp] theorem actors_modifyActor (change : Actor → Actor) :
    (s.modifyActor a change).actors a' =
      if a' = a then change (s.actors a) else s.actors a' := by
  simp [Shared.modifyActor, Function.update_apply]

theorem actors_modifyActor_self (change : Actor → Actor) :
    (s.modifyActor a change).actors a = change (s.actors a) := by
  rw [actors_modifyActor, if_pos rfl]

@[simp] theorem actors_modifyFuture (change : Future → Future) :
    (s.modifyFuture f change).actors = s.actors := rfl

@[simp] theorem actors_setReady (stack : List ActorId) :
    (s.setReady b stack).actors = s.actors := rfl

@[simp] theorem futures_modifyFuture (change : Future → Future) :
    (s.modifyFuture f change).futures f' =
      if f' = f then change (s.futures f) else s.futures f' := by
  simp [Shared.modifyFuture, Function.update_apply]

@[simp] theorem futures_modifyActor (change : Actor → Actor) :
    (s.modifyActor a change).futures = s.futures := rfl

@[simp] theorem futures_setReady (stack : List ActorId) :
    (s.setReady b stack).futures = s.futures := rfl

@[simp] theorem ready_modifyActor (change : Actor → Actor) :
    (s.modifyActor a change).ready = s.ready := rfl

@[simp] theorem ready_modifyFuture (change : Future → Future) :
    (s.modifyFuture f change).ready = s.ready := rfl

@[simp] theorem ready_setReady (stack : List ActorId) :
    (s.setReady b stack).ready b' = if b' = b then stack else s.ready b' := by
  simp [Shared.setReady, Function.update_apply]

end

/-! ## Who holds a claim -/

/-- The calls that work for an actor they claimed: a worker from the pop of the
ready stack to the releasing step of `finishTurn`, and every caller between its
winning compare-and-swap and its push on a ready stack. -/
def holds (a : ActorId) : Frame → Bool
  | .resume held .count => held == a
  | .handoff _ .release => false
  | .handoff held _ => held == a
  | .turn held _ _ => held == a
  | .finish _ _ .parkCount => false
  | .finish held _ _ => held == a
  | _ => false

def holders (frames : Multiset Frame) (a : ActorId) : Nat :=
  frames.countP fun frame => holds a frame

/-- The entries of an actor on the three ready stacks. -/
def entries (s : Shared) (a : ActorId) : Nat :=
  (s.ready .high).count a + (s.ready .medium).count a + (s.ready .low).count a

def claimsOf : Sched → Nat
  | .claimed | .claimedWake => 1
  | .idle | .suspended => 0

/-- The only value `finishTurn` scans and releases with. -/
def scansClaimed : Frame → Bool
  | .finish _ _ (.pendingOf loaded _) => loaded == .claimed
  | .finish _ _ (.mailboxOf loaded _) => loaded == .claimed
  | .finish _ _ (.release loaded) => loaded == .claimed
  | _ => true

structure ClaimedOnce (s : Shared) (frames : Multiset Frame) : Prop where
  once : ∀ a, entries s a + holders frames a = claimsOf (s.sched a)
  scans : ∀ frame ∈ frames, scansClaimed frame = true

/-- What one step of a frame does to the claims on `a`: the entries, the
holders and the word `sched` change together. -/
def Balanced (a : ActorId) (s : Shared) (frame : Frame) (next : Shared × List Frame) : Prop :=
  entries next.1 a + next.2.countP (holds a) + claimsOf (s.sched a) =
    entries s a + [frame].countP (holds a) + claimsOf (next.1.sched a)

@[simp] theorem holds_back (a : ActorId) (home : Option Phase) :
    (back home).countP (holds a) = 0 := by
  cases home <;> simp [back, holds]

@[simp] theorem holds_completeFrames (a : ActorId) (future : Option FutureId) (value : Ref)
    (failed : Bool) : (completeFrames future value failed).countP (holds a) = 0 := by
  cases future <;> simp [completeFrames, holds]

@[simp] theorem entries_modifyActor (s : Shared) (a a' : ActorId) (change : Actor → Actor) :
    entries (s.modifyActor a change) a' = entries s a' := rfl

@[simp] theorem entries_modifyFuture (s : Shared) (f : FutureId) (a : ActorId)
    (change : Future → Future) : entries (s.modifyFuture f change) a = entries s a := rfl

@[simp] theorem entries_setSched (s : Shared) (a a' : ActorId) (sched : Sched) :
    entries (s.setSched a sched) a' = entries s a' := rfl

theorem entries_push (s : Shared) (a a' : ActorId) (b : Band) :
    entries (s.setReady b (a :: s.ready b)) a' =
      entries s a' + (if a = a' then 1 else 0) := by
  unfold entries
  cases b <;> simp [List.count_cons] <;> omega

theorem entries_pop (s : Shared) (a a' : ActorId) (b : Band) (stack : List ActorId)
    (found : s.ready b = a :: stack) :
    entries (s.setReady b stack) a' + (if a = a' then 1 else 0) = entries s a' := by
  unfold entries
  cases b <;> simp [found, List.count_cons] <;> omega

@[simp] theorem sched_setSched (s : Shared) (a a' : ActorId) (sched : Sched) :
    (s.setSched a sched).sched a' = if a' = a then sched else s.sched a' := by
  unfold Shared.sched Shared.setSched
  rw [actors_modifyActor]
  split_ifs <;> rfl

/-- An update that keeps the word of its actor keeps every word. -/
@[simp] theorem sched_modifyActor (s : Shared) (a a' : ActorId) (change : Actor → Actor)
    (keeps : ∀ actor, (change actor).sched = actor.sched) :
    (s.modifyActor a change).sched a' = s.sched a' := by
  unfold Shared.sched
  rw [actors_modifyActor]
  split_ifs with same
  · rw [keeps, same]
  · rfl

@[simp] theorem sched_modifyFuture (s : Shared) (f : FutureId) (a : ActorId)
    (change : Future → Future) : (s.modifyFuture f change).sched a = s.sched a := rfl

@[simp] theorem sched_setReady (s : Shared) (b : Band) (a : ActorId) (stack : List ActorId) :
    (s.setReady b stack).sched a = s.sched a := rfl

theorem send_balanced (s : Shared) (a held : ActorId) (b : Band) (pc : SendPc) :
    Balanced a s (.send held b pc) (sendStep s held b pc) := by
  unfold Balanced
  cases pc with
  | push env => simp [sendStep, holds]
  | load =>
      rw [sendStep]
      split <;> simp [holds]
  | claim =>
      rw [sendStep]
      split_ifs with idle
      · by_cases same : a = held
        · subst same
          simp [holds, idle, claimsOf]
        · simp [holds, same, Ne.symm same]
      · simp [holds]
  | mark =>
      rw [sendStep]
      split_ifs with claimed
      · by_cases same : a = held
        · subst same
          simp [holds, claimed, claimsOf]
        · simp [holds, same]
      · simp [holds]

theorem resume_balanced (s : Shared) (a held : ActorId) (pc : ResumePc) :
    Balanced a s (.resume held pc) (resumeStep s held pc) := by
  unfold Balanced
  cases pc with
  | load =>
      rw [resumeStep]
      split <;> simp [holds]
  | wake =>
      rw [resumeStep]
      split_ifs with suspended
      · by_cases same : a = held
        · subst same
          simp [holds, suspended, claimsOf]
        · simp [holds, same, Ne.symm same]
      · simp [holds]
  | count =>
      simp only [resumeStep, holds, List.countP_cons, List.countP_nil]
      rfl
  | mark =>
      rw [resumeStep]
      split_ifs with claimed
      · by_cases same : a = held
        · subst same
          simp [holds, claimed, claimsOf]
        · simp [holds, same]
      · simp [holds]
  | claim =>
      rw [resumeStep]
      split_ifs with idle
      · by_cases same : a = held
        · subst same
          simp [holds, idle, claimsOf]
        · simp [holds, same, Ne.symm same]
      · simp [holds]

theorem handoff_balanced (s : Shared) (a held : ActorId) (pc : HandoffPc) :
    Balanced a s (.handoff held pc) (handoffStep s held pc) := by
  unfold Balanced
  cases pc with
  | pendingOf b =>
      rw [handoffStep]
      split_ifs <;> simp [holds]
  | mailboxOf b =>
      rw [handoffStep]
      split_ifs
      · simp [holds]
      · split <;> simp [holds]
  | push b =>
      simp [handoffStep, entries_push, holds]
  | release =>
      simp only [handoffStep, List.countP_nil]
      rfl

theorem nothing_ready_holds (a : ActorId) (phase : Phase) :
    phase.nothingReady.countP (holds a) = 0 := by
  unfold Phase.nothingReady
  split
  · rfl
  · rfl
  · split_ifs <;> rfl

theorem worker_balanced (s : Shared) (a : ActorId) (pc : WorkerPc) :
    Balanced a s (.worker pc) (workerStep s pc) := by
  unfold Balanced
  cases pc with
  | drain phase b =>
      rw [workerStep]
      split
      · next popped stack found =>
          have popped := entries_pop s popped a b stack found
          simp only [holds, List.countP_cons, List.countP_nil, sched_setReady, Bool.false_eq_true,
            if_false, beq_iff_eq]
          omega
      · split
        · simp [holds]
        · rw [nothing_ready_holds]
          simp [holds]
  | checkShutdown =>
      rw [workerStep]
      split_ifs <;> simp [holds]
  | acquire =>
      rw [workerStep]
      split_ifs
      · simp only [holds, List.countP_cons, List.countP_nil]
        rfl
      · simp [holds]

theorem running_balanced (choice : Choice) (s : Shared) (a held : ActorId)
    (home : Option Phase) (call : Invocation) :
    Balanced a s (.turn held home (.running call)) (runningStep choice s held home call) := by
  unfold Balanced
  cases choice <;> simp [runningStep, holds]

theorem await_balanced (choice : Choice) (s : Shared) (a held : ActorId)
    (home : Option Phase) (pc : TurnPc) :
    Balanced a s (.turn held home pc) (awaitStep choice s held home pc) := by
  unfold Balanced awaitStep
  split
  · split_ifs <;> simp [holds]
  · simp [holds]
  · simp [holds]
  · split_ifs <;> simp [holds]
  · simp [holds]
  · split_ifs <;> simp [holds]
  · split_ifs <;> simp [holds]
  · simp [holds]
  · split <;> simp [holds]
  · simp [holds]
  · simp [holds]

theorem turn_balanced (choice : Choice) (s : Shared) (a held : ActorId)
    (home : Option Phase) (pc : TurnPc) :
    Balanced a s (.turn held home pc) (turnStep choice s held home pc) := by
  unfold turnStep
  split
  · unfold Balanced
    split_ifs <;> simp [holds]
  · unfold Balanced
    split <;> simp [holds]
  · unfold Balanced
    split_ifs <;> simp [holds]
  · simp [Balanced, holds]
  · simp [Balanced, holds]
  · unfold Balanced
    split <;> simp [holds]
  · unfold Balanced
    split
    · simp [holds]
    · split <;> simp [holds]
  · simp [Balanced, holds]
  · simp only [Balanced, holds, List.countP_cons, List.countP_nil]
    rfl
  · simp [Balanced, holds]
  · exact running_balanced choice s a held home _
  · exact await_balanced choice s a held home _

/-- The steps of `finishTurn` rely on the claim: the plain store of `unpark`
meets a claimed actor, and only the value `claimed` is released. -/
theorem finish_balanced (s : Shared) (a held : ActorId) (home : Option Phase) (pc : FinishPc)
    (claimed : holds held (.finish held home pc) = true → claimsOf (s.sched held) = 1)
    (scans : scansClaimed (.finish held home pc) = true) :
    Balanced a s (.finish held home pc) (finishStep s held home pc) := by
  unfold Balanced
  cases pc with
  | park =>
      rw [finishStep]
      split_ifs with claimed
      · by_cases same : a = held
        · subst same
          simp [holds, claimed, claimsOf]
        · simp [holds, same, Ne.symm same]
      · simp [holds]
  | parkCount =>
      simp only [finishStep, holds_back, holds, List.countP_cons, List.countP_nil]
      rfl
  | unpark =>
      have once := claimed (by simp [holds])
      by_cases same : a = held
      · subst same
        have afterwards : claimsOf .claimed = 1 := rfl
        simp [finishStep, holds, once, afterwards]
      · simp [finishStep, holds, same, Ne.symm same]
  | load =>
      rw [finishStep]
      split_ifs <;> simp [holds]
  | demote =>
      rw [finishStep]
      split_ifs with wake
      · by_cases same : a = held
        · subst same
          simp [holds, wake, claimsOf]
        · simp [holds, same, Ne.symm same]
      · simp [holds]
  | pendingOf loaded b =>
      rw [finishStep]
      split_ifs <;> simp [holds, List.countP_cons]
  | mailboxOf loaded b =>
      rw [finishStep]
      split_ifs
      · simp [holds, List.countP_cons]
      · split <;> simp [holds]
  | release loaded =>
      obtain rfl : loaded = .claimed := by simpa [scansClaimed] using scans
      rw [finishStep]
      split_ifs with equal
      · by_cases same : a = held
        · subst same
          simp [holds, equal, claimsOf]
        · simp [holds, same, Ne.symm same]
      · simp [holds]

theorem complete_balanced (s : Shared) (a : ActorId) (f : FutureId) (pc : CompletePc) :
    Balanced a s (.complete f pc) (completeStep s f pc) := by
  unfold Balanced completeStep
  split
  · split_ifs <;> simp [holds]
  all_goals simp [holds]

theorem continuations_balanced (s : Shared) (a : ActorId) (f : FutureId)
    (pc : ContinuationsPc) :
    Balanced a s (.continuations f pc) (continuationsStep s f pc) := by
  unfold Balanced continuationsStep
  split
  · split_ifs <;> simp [holds]
  · split_ifs <;> simp [holds]
  all_goals simp [holds]

theorem on_complete_balanced (s : Shared) (a : ActorId) (f : FutureId) (k : Ref)
    (pc : OnCompletePc) : Balanced a s (.onComplete f k pc) (onCompleteStep s f k pc) := by
  unfold Balanced onCompleteStep
  split
  · split_ifs <;> simp [holds]
  · simp [holds]
  · split_ifs <;> simp [holds]
  · split_ifs <;> simp [holds]

theorem user_balanced (choice : Choice) (s : Shared) (a : ActorId) :
    Balanced a s .user (userStep choice s) := by
  unfold Balanced
  cases choice <;> simp [userStep, holds]

theorem shutdown_balanced (s : Shared) (a : ActorId) (pc : ShutdownPc) :
    Balanced a s (.shutdown pc) (shutdownStep s pc) := by
  unfold Balanced shutdownStep
  split <;> rfl

theorem step_balanced (choice : Choice) (s : Shared) (frame : Frame)
    (claimed : ∀ a, holds a frame = true → claimsOf (s.sched a) = 1)
    (scans : scansClaimed frame = true) (a : ActorId) :
    Balanced a s frame (frameStep choice s frame) := by
  cases frame with
  | send held b pc => exact send_balanced s a held b pc
  | resume held pc => exact resume_balanced s a held pc
  | handoff held pc => exact handoff_balanced s a held pc
  | worker pc => exact worker_balanced s a pc
  | turn held home pc => exact turn_balanced choice s a held home pc
  | finish held home pc => exact finish_balanced s a held home pc (claimed held) scans
  | complete f pc => exact complete_balanced s a f pc
  | continuations f pc => exact continuations_balanced s a f pc
  | onComplete f k pc => exact on_complete_balanced s a f k pc
  | user => exact user_balanced choice s a
  | shutdown pc => exact shutdown_balanced s a pc

/-! ## Every step keeps the count -/

theorem back_scans (home : Option Phase) : ∀ frame ∈ back home, scansClaimed frame = true := by
  cases home <;> simp [back, scansClaimed]

theorem finish_scans (s : Shared) (held : ActorId) (home : Option Phase) (pc : FinishPc)
    (claimed : holds held (.finish held home pc) = true → claimsOf (s.sched held) = 1)
    (scans : scansClaimed (.finish held home pc) = true) :
    ∀ frame ∈ (finishStep s held home pc).2, scansClaimed frame = true := by
  have later := back_scans home
  have handed : ∀ frame ∈ .handoff held (.pendingOf .high) :: back home,
      scansClaimed frame = true := List.forall_mem_cons.mpr ⟨rfl, later⟩
  cases pc with
  | park =>
      rw [finishStep]
      split_ifs <;> simp [scansClaimed]
  | parkCount => exact later
  | unpark => exact handed
  | load =>
      have once := claimed (by simp [holds])
      rw [finishStep]
      split_ifs with wake
      · simp [scansClaimed]
      · have owned : s.sched held = .claimed := by
          cases sched : s.sched held with
          | claimed => rfl
          | claimedWake => exact absurd sched wake
          | _ =>
              rw [sched] at once
              cases once
        rw [owned]
        exact List.forall_mem_singleton.mpr rfl
  | demote =>
      rw [finishStep]
      split_ifs <;> simp [scansClaimed]
  | pendingOf loaded b =>
      rw [finishStep]
      split_ifs
      · exact handed
      · exact List.forall_mem_singleton.mpr scans
  | mailboxOf loaded b =>
      rw [finishStep]
      split_ifs
      · exact handed
      · split <;> exact List.forall_mem_singleton.mpr scans
  | release loaded =>
      rw [finishStep]
      split_ifs
      · exact later
      · simp [scansClaimed]

/-- The program counters of `future_await` and of a passing yield. -/
def awaits : TurnPc → Bool
  | .awaitState _ _ | .awaitSnapshot _ _ | .awaitWaiting _ _ | .waiterState _ _
  | .waiterRead _ _ | .waiterCas _ _ _ | .waiterRecheck _ _ | .awaitUndo _ _
  | .yielding _ _ | .caught _ _ => true
  | _ => false

theorem turn_step_await (choice : Choice) (s : Shared) (held : ActorId) (home : Option Phase)
    (pc : TurnPc) (waits : awaits pc = true) :
    turnStep choice s held home pc = awaitStep choice s held home pc := by
  cases pc <;> first | rfl | simp [awaits] at waits

/-- The calls a handler makes, at their first step. -/
def begins : Frame → Bool
  | .send _ _ (.push _) => true
  | .complete _ (.claim _ _) => true
  | .onComplete _ _ .state => true
  | _ => false

/-- A turn goes on, ends its work, or makes a call and waits for it. -/
def TurnLeaves (held : ActorId) (home : Option Phase) (left : Frame) : Prop :=
  begins left = true ∨ (∃ pc, left = .turn held home pc) ∨
    left = .finish held home .park ∨ ∃ home', left = .finish held home' .load

theorem turn_leaves (choice : Choice) (s : Shared) (held : ActorId) (home : Option Phase)
    (pc : TurnPc) : ∀ left ∈ (turnStep choice s held home pc).2, TurnLeaves held home left := by
  have going : ∀ pc, TurnLeaves held home (.turn held home pc) := fun pc => Or.inr (Or.inl ⟨pc, rfl⟩)
  have parks : TurnLeaves held home (.finish held home .park) := Or.inr (Or.inr (Or.inl rfl))
  have ends : ∀ home', TurnLeaves held home (.finish held home' .load) :=
    fun home' => Or.inr (Or.inr (Or.inr ⟨home', rfl⟩))
  have replies : ∀ future value failed, ∀ left ∈ completeFrames future value failed,
      TurnLeaves held home left := by
    intro future value failed left member
    cases future with
    | none => simp [completeFrames] at member
    | some f =>
        obtain rfl : left = .complete f (.claim value failed) := by
          simpa [completeFrames] using member
        exact Or.inl rfl
  have calls : ∀ first pc, begins first = true → ∀ left ∈ [first, .turn held home pc],
      TurnLeaves held home left := by
    intro first pc begun
    exact List.forall_mem_cons.mpr ⟨Or.inl begun, List.forall_mem_singleton.mpr (going pc)⟩
  cases pc with
  | next budget b seen =>
      cases budget with
      | zero => exact List.forall_mem_singleton.mpr (ends _)
      | succ budget =>
          simp only [turnStep]
          split <;> exact List.forall_mem_singleton.mpr (going _)
  | running call =>
      simp only [turnStep, runningStep]
      split
      all_goals first
        | exact List.forall_mem_singleton.mpr (going _)
        | exact List.forall_mem_singleton.mpr (ends _)
        | exact calls _ _ rfl
        | exact List.forall_mem_append.mpr ⟨replies _ _ _, List.forall_mem_singleton.mpr (going _)⟩
  | _ =>
      simp only [turnStep, awaitStep]
      repeat' split
      all_goals first
        | exact List.forall_mem_singleton.mpr (going _)
        | exact List.forall_mem_singleton.mpr parks
        | exact List.forall_mem_singleton.mpr (ends _)

/-- The frames of a worker inside `drainOne`. -/
def ofTurn : Frame → Bool
  | .turn _ _ _ => true
  | .finish _ _ _ => true
  | _ => false

/-- Outside a turn, only the pop of a ready stack begins one. -/
theorem other_leaves (choice : Choice) (s : Shared) (frame : Frame)
    (other : ofTurn frame = false) :
    ∀ left ∈ (frameStep choice s frame).2,
      ofTurn left = false ∨ ∃ a home, left = .turn a home .start := by
  have plain : ∀ frames : List Frame, (frames.all fun left => !ofTurn left) = true →
      ∀ left ∈ frames, ofTurn left = false ∨ ∃ a home, left = .turn a home .start := by
    intro frames all left member
    exact .inl (by simpa using List.all_eq_true.mp all left member)
  cases frame with
  | turn held home pc => simp [ofTurn] at other
  | finish held home pc => simp [ofTurn] at other
  | send held b pc =>
      simp only [frameStep]
      unfold sendStep
      repeat' split
      all_goals exact plain _ rfl
  | resume held pc =>
      simp only [frameStep]
      unfold resumeStep
      repeat' split
      all_goals exact plain _ rfl
  | handoff held pc =>
      simp only [frameStep]
      unfold handoffStep
      repeat' split
      all_goals exact plain _ rfl
  | worker pc =>
      simp only [frameStep]
      unfold workerStep Phase.nothingReady
      repeat' split
      all_goals first
        | exact plain _ rfl
        | exact List.forall_mem_singleton.mpr (.inr ⟨_, _, rfl⟩)
  | complete f pc =>
      simp only [frameStep]
      unfold completeStep
      repeat' split
      all_goals exact plain _ rfl
  | continuations f pc =>
      simp only [frameStep]
      unfold continuationsStep
      repeat' split
      all_goals exact plain _ rfl
  | onComplete f k pc =>
      simp only [frameStep]
      unfold onCompleteStep
      repeat' split
      all_goals exact plain _ rfl
  | user =>
      simp only [frameStep]
      unfold userStep
      split <;> exact plain _ rfl
  | shutdown pc =>
      simp only [frameStep]
      unfold shutdownStep
      split <;> exact plain _ rfl

theorem step_scans (choice : Choice) (s : Shared) (frame : Frame)
    (claimed : ∀ a, holds a frame = true → claimsOf (s.sched a) = 1)
    (scans : scansClaimed frame = true) :
    ∀ left ∈ (frameStep choice s frame).2, scansClaimed left = true := by
  cases kind : ofTurn frame with
  | false =>
      intro left member
      have plain : ∀ left, ofTurn left = false → scansClaimed left = true := by
        intro left other
        unfold scansClaimed
        split <;> first | rfl | simp [ofTurn] at other
      rcases other_leaves choice s frame kind left member with other | ⟨a, home, rfl⟩
      · exact plain left other
      · rfl
  | true =>
      cases frame with
      | finish held home pc => exact finish_scans s held home pc (claimed held) scans
      | turn held home pc =>
          intro left member
          rcases turn_leaves choice s held home pc left member with
            begun | ⟨pc', rfl⟩ | rfl | ⟨home', rfl⟩
          · unfold begins at begun
            split at begun <;> first | rfl | contradiction
          · rfl
          · rfl
          · rfl
      | _ => simp [ofTurn] at kind

theorem holders_cons (frame : Frame) (others : Multiset Frame) (a : ActorId) :
    holders (frame ::ₘ others) a = [frame].countP (holds a) + holders others a := by
  simp [holders, Multiset.countP_cons, List.countP_cons, Nat.add_comm]

theorem holders_add (left : List Frame) (others : Multiset Frame) (a : ActorId) :
    holders (↑left + others) a = left.countP (holds a) + holders others a := by
  simp [holders]

theorem claimed_of_holds {s : Shared} {frame : Frame} {others : Multiset Frame}
    (once : ClaimedOnce s (frame ::ₘ others)) {a : ActorId} (held : holds a frame = true) :
    entries s a = 0 ∧ holders others a = 0 ∧ claimsOf (s.sched a) = 1 := by
  have count := once.once a
  rw [holders_cons] at count
  have bound : claimsOf (s.sched a) ≤ 1 := by
    cases s.sched a <;> simp [claimsOf]
  simp only [List.countP_cons, List.countP_nil, held, if_true] at count
  omega

/-- A frame that holds the claim is the only one. -/
theorem only_holder {s : Shared} {frames : Multiset Frame} (once : ClaimedOnce s frames)
    {holder : Frame} (member : holder ∈ frames) {a : ActorId} (held : holds a holder = true) :
    claimsOf (s.sched a) = 1 ∧ ∀ other ∈ frames, holds a other = true → other = holder := by
  obtain ⟨others, rfl⟩ := Multiset.exists_cons_of_mem member
  obtain ⟨-, none, claimed⟩ := claimed_of_holds once held
  refine ⟨claimed, ?_⟩
  intro other otherMember otherHeld
  rcases Multiset.mem_cons.mp otherMember with same | rest
  · exact same
  · rw [holders, Multiset.countP_eq_zero] at none
    exact absurd otherHeld (none other rest)

theorem outside_of_other {s : Shared} {frame : Frame} {others : Multiset Frame}
    (once : ClaimedOnce s (frame ::ₘ others)) {holder : Frame} (member : holder ∈ others)
    {a : ActorId} (held : holds a holder = true) : holds a frame = false := by
  by_contra heldHere
  have none := (claimed_of_holds once (by simpa using heldHere)).2.1
  rw [holders, Multiset.countP_eq_zero] at none
  exact none holder member held

theorem claimed_once_step (choice : Choice) (s : Shared) (frame : Frame)
    (others : Multiset Frame) (once : ClaimedOnce s (frame ::ₘ others)) :
    ClaimedOnce (frameStep choice s frame).1 (↑(frameStep choice s frame).2 + others) := by
  have claimed : ∀ a, holds a frame = true → claimsOf (s.sched a) = 1 :=
    fun a held => (claimed_of_holds once held).2.2
  have scans := once.scans frame (Multiset.mem_cons_self frame others)
  refine ⟨?_, ?_⟩
  · intro a
    have balanced := step_balanced choice s frame claimed scans a
    have count := once.once a
    unfold Balanced at balanced
    rw [holders_cons] at count
    rw [holders_add]
    omega
  · intro left member
    rcases Multiset.mem_add.mp member with new | old
    · exact step_scans choice s frame claimed scans left new
    · exact once.scans left (Multiset.mem_cons_of_mem old)

theorem initial_frames (states : ActorId → Ref) (workers programs : Nat) :
    ∀ frame ∈ (initial states workers programs).frames,
      frame = .worker (.drain .looping .high) ∨ frame = .user := by
  intro frame member
  simp only [initial, Machine.frames, Multiset.mem_coe, List.mem_flatten, List.mem_append,
    List.mem_replicate] at member
  obtain ⟨stack, kind, inside⟩ := member
  rcases kind with ⟨-, rfl⟩ | ⟨-, rfl⟩
  · exact Or.inl (by simpa using inside)
  · exact Or.inr (by simpa using inside)

theorem initial_claimed_once (states : ActorId → Ref) (workers programs : Nat) :
    ClaimedOnce (initial states workers programs).shared
      (initial states workers programs).frames := by
  have plain := initial_frames states workers programs
  refine ⟨?_, ?_⟩
  · intro a
    have none : holders (initial states workers programs).frames a = 0 := by
      rw [holders, Multiset.countP_eq_zero]
      intro frame member
      rcases plain frame member with rfl | rfl <;> simp [holds]
    rw [none]
    rfl
  · intro frame member
    rcases plain frame member with rfl | rfl <;> rfl

theorem reached_claimed_once (states : ActorId → Ref) (workers programs : Nat)
    (schedule : List (Nat × Choice)) :
    ClaimedOnce (reached states workers programs schedule).shared
      (reached states workers programs schedule).frames :=
  run_invariant frameStep ClaimedOnce claimed_once_step
    (initial_claimed_once states workers programs) schedule

/-! ## What a call does to an actor it does not hold -/

/-- A call without the claim on `a` pushes a message, or moves the word `sched`
in one of three ways. -/
inductive OutsideChange (a : ActorId) (frame : Frame) (actor : Actor) : Actor → Prop
  | same : OutsideChange a frame actor actor
  | pushed (b : Band) (env : Envelope) (sender : frame = .send a b (.push env)) :
      OutsideChange a frame actor { actor with
        mailbox := Function.update actor.mailbox b (actor.mailbox b ++ [env])
        pushed := Function.update actor.pushed b (actor.pushed b ++ [env]) }
  | claimed (free : actor.sched = .idle) :
      OutsideChange a frame actor { actor with sched := .claimed }
  | woken (parked : actor.sched = .suspended) :
      OutsideChange a frame actor { actor with sched := .claimed }
  | marked (taken : actor.sched = .claimed) :
      OutsideChange a frame actor { actor with sched := .claimedWake }

theorem turn_other_actor (choice : Choice) (s : Shared) {a held : ActorId}
    (home : Option Phase) (pc : TurnPc) (other : a ≠ held) :
    (turnStep choice s held home pc).1.actors a = s.actors a := by
  cases pc with
  | next budget b seen =>
      cases budget with
      | zero => rfl
      | succ budget =>
          simp only [turnStep]
          split <;> simp [other]
  | running call =>
      simp only [turnStep, runningStep]
      split <;> simp [other]
  | _ =>
      simp only [turnStep, awaitStep]
      repeat' split
      all_goals simp [other]

theorem finish_other_actor (s : Shared) {a held : ActorId} (home : Option Phase)
    (pc : FinishPc) (other : a ≠ held) :
    (finishStep s held home pc).1.actors a = s.actors a := by
  unfold finishStep
  repeat' split
  all_goals simp [Shared.setSched, other]

theorem send_outside (s : Shared) (held a : ActorId) (b : Band) (pc : SendPc) :
    OutsideChange a (.send held b pc) (s.actors a) ((sendStep s held b pc).1.actors a) := by
  by_cases same : a = held
  · subst same
    cases pc with
    | push env =>
        rw [sendStep, actors_modifyActor_self]
        exact .pushed b env rfl
    | load =>
        rw [sendStep]
        split <;> exact .same
    | claim =>
        rw [sendStep]
        split_ifs with idle
        · rw [Shared.setSched, actors_modifyActor_self]
          exact .claimed idle
        · exact .same
    | mark =>
        rw [sendStep]
        split_ifs with claimed
        · rw [Shared.setSched, actors_modifyActor_self]
          exact .marked claimed
        · exact .same
  · have unchanged : (sendStep s held b pc).1.actors a = s.actors a := by
      unfold sendStep
      repeat' split
      all_goals simp [Shared.setSched, same]
    rw [unchanged]
    exact .same

theorem resume_outside (s : Shared) (held a : ActorId) (pc : ResumePc) :
    OutsideChange a (.resume held pc) (s.actors a) ((resumeStep s held pc).1.actors a) := by
  by_cases same : a = held
  · subst same
    cases pc with
    | load =>
        rw [resumeStep]
        split <;> exact .same
    | wake =>
        rw [resumeStep]
        split_ifs with suspended
        · rw [Shared.setSched, actors_modifyActor_self]
          exact .woken suspended
        · exact .same
    | count => exact .same
    | mark =>
        rw [resumeStep]
        split_ifs with claimed
        · rw [Shared.setSched, actors_modifyActor_self]
          exact .marked claimed
        · exact .same
    | claim =>
        rw [resumeStep]
        split_ifs with idle
        · rw [Shared.setSched, actors_modifyActor_self]
          exact .claimed idle
        · exact .same
  · have unchanged : (resumeStep s held pc).1.actors a = s.actors a := by
      unfold resumeStep
      repeat' split
      all_goals simp [Shared.setSched, same]
    rw [unchanged]
    exact .same

theorem outside_step (choice : Choice) (s : Shared) (frame : Frame) (a : ActorId)
    (outside : holds a frame = false) :
    OutsideChange a frame (s.actors a) ((frameStep choice s frame).1.actors a) := by
  have unchanged : ∀ actor, actor = s.actors a → OutsideChange a frame (s.actors a) actor := by
    rintro actor rfl
    exact .same
  cases frame with
  | send held b pc => exact send_outside s held a b pc
  | resume held pc => exact resume_outside s held a pc
  | handoff held pc =>
      apply unchanged
      simp only [frameStep]
      unfold handoffStep
      repeat' split
      all_goals rfl
  | worker pc =>
      apply unchanged
      simp only [frameStep]
      unfold workerStep
      repeat' split
      all_goals rfl
  | turn held home pc =>
      apply unchanged
      have other : a ≠ held := by
        rintro rfl
        simp [holds] at outside
      exact turn_other_actor choice s home pc other
  | finish held home pc =>
      apply unchanged
      by_cases same : a = held
      · subst same
        cases pc with
        | parkCount => rfl
        | _ => simp [holds] at outside
      · exact finish_other_actor s home pc same
  | complete f pc =>
      apply unchanged
      simp only [frameStep]
      unfold completeStep
      repeat' split
      all_goals rfl
  | continuations f pc =>
      apply unchanged
      simp only [frameStep]
      unfold continuationsStep
      repeat' split
      all_goals rfl
  | onComplete f k pc =>
      apply unchanged
      simp only [frameStep]
      unfold onCompleteStep
      repeat' split
      all_goals rfl
  | user =>
      apply unchanged
      simp only [frameStep]
      unfold userStep
      split <;> rfl
  | shutdown pc =>
      apply unchanged
      simp only [frameStep]
      unfold shutdownStep
      split <;> rfl

/-! ## What the holder of a claim does to the word -/

theorem turn_keeps_sched (choice : Choice) (s : Shared) (held a : ActorId)
    (home : Option Phase) (pc : TurnPc) :
    (turnStep choice s held home pc).1.sched a = s.sched a := by
  cases pc with
  | next budget b seen =>
      cases budget with
      | zero => rfl
      | succ budget =>
          simp only [turnStep]
          split
          · simp
          · rfl
  | running call =>
      simp only [turnStep, runningStep]
      split <;> simp
  | _ =>
      simp only [turnStep, awaitStep]
      repeat' split
      all_goals first | rfl | simp

theorem handoff_keeps_sched (s : Shared) (held a : ActorId) (pc : HandoffPc) :
    (handoffStep s held pc).1.sched a = s.sched a := by
  unfold handoffStep
  repeat' split
  all_goals rfl

theorem finish_sched (s : Shared) (a : ActorId) (home : Option Phase) (pc : FinishPc) :
    (finishStep s a home pc).1.sched a = s.sched a ∨
      (finishStep s a home pc).1.sched a = .claimed ∨
      (pc = .park ∧ s.sched a = .claimed ∧ (finishStep s a home pc).1.sched a = .suspended) ∨
      ∃ loaded, pc = .release loaded ∧ s.sched a = loaded ∧
        (finishStep s a home pc).1.sched a = .idle := by
  cases pc with
  | park =>
      rw [finishStep]
      split_ifs with claimed
      · exact Or.inr (Or.inr (Or.inl ⟨rfl, claimed, by simp⟩))
      · exact Or.inl rfl
  | parkCount => exact Or.inl rfl
  | unpark => exact Or.inr (Or.inl (by simp [finishStep]))
  | load =>
      rw [finishStep]
      split_ifs <;> exact Or.inl rfl
  | demote =>
      rw [finishStep]
      split_ifs
      · exact Or.inr (Or.inl (by simp))
      · exact Or.inl rfl
  | pendingOf loaded b =>
      rw [finishStep]
      split_ifs <;> exact Or.inl rfl
  | mailboxOf loaded b =>
      rw [finishStep]
      split_ifs
      · exact Or.inl rfl
      · split <;> exact Or.inl rfl
  | release loaded =>
      rw [finishStep]
      split_ifs with equal
      · exact Or.inr (Or.inr (Or.inr ⟨loaded, rfl, equal, by simp⟩))
      · exact Or.inl rfl

/-- Of the calls that hold the claim only the last step of `finishTurn` makes the
actor idle, and only its `park` suspends it. -/
theorem holder_gives_up {choice : Choice} {s : Shared} {frame : Frame} {a : ActorId}
    (held : holds a frame = true) (claimed : claimsOf (s.sched a) = 1) :
    ((frameStep choice s frame).1.sched a = .idle →
        ∃ home loaded, frame = .finish a home (.release loaded) ∧ s.sched a = loaded) ∧
      ((frameStep choice s frame).1.sched a = .suspended →
        ∃ home, frame = .finish a home .park ∧ s.sched a = .claimed) := by
  have busy : s.sched a ≠ .idle ∧ s.sched a ≠ .suspended := by
    constructor <;> intro free <;> simp [free, claimsOf] at claimed
  have keeps : (frameStep choice s frame).1.sched a = s.sched a →
      ((frameStep choice s frame).1.sched a = .idle → False) ∧
        ((frameStep choice s frame).1.sched a = .suspended → False) := by
    intro same
    rw [same]
    exact busy
  cases frame with
  | resume a' pc =>
      cases pc with
      | count => exact ⟨fun idle => ((keeps rfl).1 idle).elim, fun gone => ((keeps rfl).2 gone).elim⟩
      | _ => simp [holds] at held
  | handoff a' pc =>
      have none := keeps (handoff_keeps_sched s a' a pc)
      exact ⟨fun idle => (none.1 idle).elim, fun gone => (none.2 gone).elim⟩
  | turn a' home pc =>
      have none := keeps (turn_keeps_sched choice s a' a home pc)
      exact ⟨fun idle => (none.1 idle).elim, fun gone => (none.2 gone).elim⟩
  | finish a' home pc =>
      obtain rfl : a' = a := by
        cases pc <;> simp_all [holds]
      simp only [frameStep] at keeps ⊢
      rcases finish_sched s a' home pc with
        same | again | ⟨rfl, claimed, suspended⟩ | ⟨loaded, rfl, equal, idle⟩
      · have none := keeps same
        exact ⟨fun idle => (none.1 idle).elim, fun gone => (none.2 gone).elim⟩
      · rw [again]
        exact ⟨fun idle => by contradiction, fun gone => by contradiction⟩
      · rw [suspended]
        exact ⟨fun idle => by contradiction, fun _ => ⟨home, rfl, claimed⟩⟩
      · rw [idle]
        exact ⟨fun _ => ⟨home, loaded, rfl, equal⟩, fun gone => by contradiction⟩
  | _ => simp [holds] at held

/-- A worker between the pop of `a` from a ready stack and the releasing step of
its `finishTurn`. -/
def worksOn (a : ActorId) : Frame → Bool
  | .turn held _ _ => held == a
  | .finish _ _ .parkCount => false
  | .finish held _ _ => held == a
  | _ => false

theorem holds_of_works {a : ActorId} {frame : Frame} (works : worksOn a frame = true) :
    holds a frame = true := by
  unfold worksOn at works
  split at works
  · exact works
  · contradiction
  · next held home pc other => cases pc <;> first | exact works | exact absurd rfl other
  · contradiction

/-- In every reachable state the entries of an actor on the ready stacks, the
workers on it and the callers about to push it are one in all when the actor is
claimed and none when it is idle or suspended, and all workers on it are the same
thread. -/
theorem single_method (states : ActorId → Ref) (workers programs : Nat)
    (schedule : List (Nat × Choice)) (a : ActorId) :
    let machine := reached states workers programs schedule
    entries machine.shared a + holders machine.frames a = claimsOf (machine.shared.sched a) ∧
      entries machine.shared a + machine.frames.countP (fun frame => worksOn a frame) ≤ 1 ∧
      (machine.shared.sched a = .idle ∨ machine.shared.sched a = .suspended →
        entries machine.shared a = 0 ∧ holders machine.frames a = 0) ∧
      ∀ (i j : Nat) (stack stack' : List Frame),
        machine.threads[i]? = some stack → machine.threads[j]? = some stack' →
        (∃ frame ∈ stack, worksOn a frame = true) →
        (∃ frame ∈ stack', worksOn a frame = true) → i = j := by
  intro machine
  have once : entries machine.shared a + holders machine.frames a =
      claimsOf (machine.shared.sched a) :=
    (reached_claimed_once states workers programs schedule).once a
  have count : machine.frames.countP (fun frame => worksOn a frame) =
      machine.threads.flatten.countP (worksOn a) := by
    simp [Machine.frames]
  have fewer : machine.threads.flatten.countP (worksOn a) ≤ holders machine.frames a := by
    simp only [holders, Machine.frames, Multiset.coe_countP, Bool.decide_eq_true]
    exact List.countP_mono_left fun frame _ works => holds_of_works works
  have bound : claimsOf (machine.shared.sched a) ≤ 1 := by
    cases machine.shared.sched a <;> simp [claimsOf]
  refine ⟨once, by omega, ?_, ?_⟩
  · intro free
    have none : claimsOf (machine.shared.sched a) = 0 := by
      rcases free with idle | suspended
      · rw [idle, claimsOf]
      · rw [suspended, claimsOf]
    omega
  · intro i j stack stack' first second inFirst inSecond
    have atMostOne : machine.threads.flatten.countP (worksOn a) ≤ 1 := by omega
    exact same_thread_of_once atMostOne first second inFirst inSecond

end ProtoScala.Runtime.SchedulerClaims
