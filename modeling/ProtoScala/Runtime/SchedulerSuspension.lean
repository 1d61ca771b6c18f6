import ProtoScala.Runtime.SchedulerFutures
import ProtoScala.Runtime.SchedulerTurns
import ProtoScala.Runtime.SchedulerWakeups

/-!
# No completion is lost

An actor that ends a turn on a future registers with the future before it looks
at it once more, and a completion settles the future before it reads the
registered actors. So while an actor is suspended, or is about to be, its future
is not settled, or a call is on its way that will resume it.
-/

namespace ProtoScala.Runtime.SchedulerSuspension

open ProtoScala.Library.Threads
open ProtoScala.Runtime.ActorScheduler
open ProtoScala.Runtime.SchedulerClaims
open ProtoScala.Runtime.SchedulerFutures
open ProtoScala.Runtime.SchedulerTurns
open ProtoScala.Runtime.SchedulerWakeups

set_option autoImplicit false

/-! ## The attributes of a suspended turn -/

/-- The actor is registered with the future its attribute names. -/
def Listed (s : Shared) (a : ActorId) : Prop :=
  ∀ f, (s.actors a).waitingOn = some f → a ∈ (s.futures f).waiters

/-- A turn that ended on a future left its frames and the future behind. -/
def Parked (actor : Actor) : Prop :=
  ∀ f, actor.parkedOn = some f → actor.snapshot.isSome = true ∧ actor.waitingOn = some f

/-- The attributes of an actor whose turn is inside `future_await`. -/
structure Awaiting (actor : Actor) (f : FutureId) : Prop where
  unparked : actor.parkedOn = none
  snapshot : actor.snapshot.isSome = true
  waiting : actor.waitingOn = some f

def RestWaits (s : Shared) (a : ActorId) : Prop := Listed s a ∧ Parked (s.actors a)

def TurnWaits (s : Shared) (a : ActorId) : TurnPc → Prop
  | .start => RestWaits s a
  | .resumeRead => RestWaits s a ∧ (s.actors a).snapshot.isSome = true
  | .resumeState f _ => RestWaits s a ∧ (s.actors a).snapshot.isSome = true ∧
      (s.actors a).waitingOn = some f
  | .resumeClear _ _ => True
  | .awaitWaiting _ _ => Listed s a ∧ (s.actors a).parkedOn = none ∧
      (s.actors a).snapshot.isSome = true
  | .waiterState _ f | .waiterRead _ f | .waiterCas _ f _ | .awaitUndo _ f =>
      Awaiting (s.actors a) f
  | .waiterRecheck _ f | .yielding _ f | .caught _ f =>
      Awaiting (s.actors a) f ∧ a ∈ (s.futures f).waiters
  | _ => Listed s a ∧ (s.actors a).parkedOn = none

theorem rest_waits_congr {s s' : Shared} {a : ActorId} (rest : RestWaits s a)
    (waiting : (s'.actors a).waitingOn = (s.actors a).waitingOn)
    (snapshot : (s'.actors a).snapshot = (s.actors a).snapshot)
    (parkedOn : (s'.actors a).parkedOn = (s.actors a).parkedOn)
    (grow : ∀ f, a ∈ (s.futures f).waiters → a ∈ (s'.futures f).waiters) :
    RestWaits s' a := by
  refine ⟨?_, ?_⟩
  · intro f now
    rw [waiting] at now
    exact grow f (rest.1 f now)
  · intro f now
    rw [parkedOn] at now
    rw [waiting, snapshot]
    exact rest.2 f now

theorem listed_congr {s s' : Shared} {a : ActorId} (listed : Listed s a)
    (waiting : (s'.actors a).waitingOn = (s.actors a).waitingOn)
    (grow : ∀ f, a ∈ (s.futures f).waiters → a ∈ (s'.futures f).waiters) :
    Listed s' a := by
  intro f now
  rw [waiting] at now
  exact grow f (listed f now)

theorem awaiting_congr {actor actor' : Actor} {f : FutureId} (awaiting : Awaiting actor f)
    (waiting : actor'.waitingOn = actor.waitingOn) (snapshot : actor'.snapshot = actor.snapshot)
    (parkedOn : actor'.parkedOn = actor.parkedOn) : Awaiting actor' f :=
  ⟨parkedOn.trans awaiting.unparked, snapshot ▸ awaiting.snapshot,
    waiting.trans awaiting.waiting⟩

/-- A step that leaves the attributes of the actor alone. -/
theorem turn_waits_congr {s s' : Shared} {a : ActorId} {pc : TurnPc}
    (waits : TurnWaits s a pc) (waiting : (s'.actors a).waitingOn = (s.actors a).waitingOn)
    (snapshot : (s'.actors a).snapshot = (s.actors a).snapshot)
    (parkedOn : (s'.actors a).parkedOn = (s.actors a).parkedOn)
    (grow : ∀ f, a ∈ (s.futures f).waiters → a ∈ (s'.futures f).waiters) :
    TurnWaits s' a pc := by
  have rest : RestWaits s a → RestWaits s' a :=
    fun rest => rest_waits_congr rest waiting snapshot parkedOn grow
  have listed : Listed s a → Listed s' a := fun listed => listed_congr listed waiting grow
  have awaiting : ∀ f, Awaiting (s.actors a) f → Awaiting (s'.actors a) f :=
    fun f awaiting => awaiting_congr awaiting waiting snapshot parkedOn
  unfold TurnWaits at *
  split at waits
  · exact rest waits
  · exact ⟨rest waits.1, snapshot ▸ waits.2⟩
  · exact ⟨rest waits.1, snapshot ▸ waits.2.1, waiting.trans waits.2.2⟩
  · trivial
  · exact ⟨listed waits.1, parkedOn.trans waits.2.1, snapshot ▸ waits.2.2⟩
  · exact awaiting _ waits
  · exact awaiting _ waits
  · exact awaiting _ waits
  · exact awaiting _ waits
  · exact ⟨awaiting _ waits.1, grow _ waits.2⟩
  · exact ⟨awaiting _ waits.1, grow _ waits.2⟩
  · exact ⟨awaiting _ waits.1, grow _ waits.2⟩
  · exact ⟨listed waits.1, parkedOn.trans waits.2⟩

/-- A call without the claim leaves the attributes alone. -/
theorem outside_attributes {choice : Choice} {s : Shared} {frame : Frame} {a : ActorId}
    (outside : holds a frame = false) :
    ((frameStep choice s frame).1.actors a).waitingOn = (s.actors a).waitingOn ∧
      ((frameStep choice s frame).1.actors a).snapshot = (s.actors a).snapshot ∧
      ((frameStep choice s frame).1.actors a).parkedOn = (s.actors a).parkedOn := by
  have change := outside_step choice s frame a outside
  generalize (frameStep choice s frame).1.actors a = after at change
  cases change <;> exact ⟨rfl, rfl, rfl⟩

/-- What a step of the turn leaves: the attributes fit the next frame of the
turn, or are at rest when the turn is over, and a turn that is going to release
its claim has nothing parked. -/
structure TurnWatched (a : ActorId) (next : Shared × List Frame) : Prop where
  ended : (∀ left ∈ next.2, turnOf a left = false) → RestWaits next.1 a
  goes : ∀ home pc, .turn a home pc ∈ next.2 → TurnWaits next.1 a pc
  released : ∀ home, .finish a home .load ∈ next.2 → (next.1.actors a).parkedOn = none

theorem watched_turn {a : ActorId} {home : Option Phase} {pc : TurnPc} {s : Shared}
    {calls : List Frame} (begun : ∀ call ∈ calls, begins call = true)
    (waits : TurnWaits s a pc) : TurnWatched a (s, calls ++ [Frame.turn a home pc]) := by
  refine ⟨?_, ?_, ?_⟩
  · intro none
    have here := none (.turn a home pc) (by simp)
    simp [turnOf] at here
  · intro home' pc' member
    rcases List.mem_append.mp member with call | last
    · have here := begun _ call
      simp [begins] at here
    · obtain ⟨rfl, rfl⟩ : home' = home ∧ pc' = pc := by simpa using last
      exact waits
  · intro home' member
    rcases List.mem_append.mp member with call | last
    · have here := begun _ call
      simp [begins] at here
    · simp at last

theorem watched_next {a : ActorId} {home : Option Phase} (s : Shared) (pc : TurnPc)
    (waits : TurnWaits s a pc) : TurnWatched a (s, [.turn a home pc]) :=
  watched_turn (List.forall_mem_nil _) waits

theorem watched_finish {a : ActorId} {home : Option Phase} {pc : FinishPc} {s : Shared}
    (rest : RestWaits s a) (released : pc = .load → (s.actors a).parkedOn = none) :
    TurnWatched a (s, [.finish a home pc]) := by
  refine ⟨fun _ => rest, ?_, ?_⟩
  · intro home' pc' member
    simp at member
  · intro home' member
    obtain ⟨-, same⟩ : home' = home ∧ .load = pc := by simpa using member
    exact released same.symm

/-- A handler at work waits for nothing. -/
theorem parked_of_none {actor : Actor} (none : actor.parkedOn = none) : Parked actor := by
  intro f now
  rw [none] at now
  contradiction

theorem running_watched (choice : Choice) (s : Shared) (a : ActorId) (home : Option Phase)
    (call : Invocation) (listed : Listed s a) (none : (s.actors a).parkedOn = none) :
    TurnWatched a (runningStep choice s a home call) := by
  have waits : TurnWaits s a (.running call) := ⟨listed, none⟩
  have next : TurnWaits s a (.next call.budget .high []) := ⟨listed, none⟩
  have calls : ∀ (s' : Shared) (first : Frame), begins first = true →
      TurnWaits s' a (.running call) →
      TurnWatched a (s', [first] ++ [Frame.turn a home (.running call)]) := by
    intro s' first begun waits
    exact watched_turn (List.forall_mem_singleton.mpr begun) waits
  have replies : ∀ value failed, ∀ first ∈ completeFrames call.future value failed,
      begins first = true := by
    intro value failed
    cases call.future <;> simp [completeFrames, begins]
  have idles : TurnWatched a (s, [.turn a home (.running call)]) := watched_next s _ waits
  cases choice with
  | send target b env => exact calls s _ rfl ⟨listed, none⟩
  | complete f value failed => exact calls s _ rfl ⟨listed, none⟩
  | onComplete f k =>
      refine calls _ _ rfl (turn_waits_congr waits rfl rfl rfl ?_)
      intro g member
      rw [futures_modifyFuture]
      split_ifs with same
      · subst same
        exact member
      · exact member
  | await f =>
      exact watched_next s (.awaitState call f) ⟨listed, none⟩
  | returns newState reply =>
      refine watched_turn (replies reply false)
        (turn_waits_congr next ?_ ?_ ?_ fun _ => id) <;>
        rw [actors_modifyActor_self]
  | throws error => exact watched_turn (replies error true) ⟨listed, none⟩
  | defect => exact watched_finish ⟨listed, parked_of_none none⟩ fun _ => none
  | record frame => exact idles
  | refused => exact idles
  | shutdown => exact idles
  | proceed => exact idles

theorem await_watched (choice : Choice) (s : Shared) (a : ActorId) (home : Option Phase)
    (pc : TurnPc) (awaiting : awaits pc = true) (waits : TurnWaits s a pc) :
    TurnWatched a (awaitStep choice s a home pc) := by
  cases pc with
  | awaitState call f =>
      rw [awaitStep]
      split_ifs
      · exact watched_next s (.running call) waits
      · exact watched_next s (.running call) waits
      · exact watched_next s (.awaitSnapshot call f) waits
  | awaitSnapshot call f =>
      refine watched_next _ (.awaitWaiting call f) ⟨listed_congr waits.1 ?_ fun _ => id, ?_, ?_⟩
      · rw [actors_modifyActor_self]
      · rw [actors_modifyActor_self]
        exact waits.2
      · rw [actors_modifyActor_self]
        rfl
  | awaitWaiting call f =>
      refine watched_next _ (.waiterState call f) ?_
      rw [TurnWaits, actors_modifyActor_self]
      exact ⟨waits.2.1, waits.2.2, rfl⟩
  | waiterState call f =>
      rw [awaitStep]
      split_ifs
      · exact watched_next s (.awaitUndo call f) waits
      · exact watched_next s (.waiterRead call f) waits
  | waiterRead call f => exact watched_next s (.waiterCas call f _) waits
  | waiterCas call f cur =>
      rw [awaitStep]
      split_ifs
      · refine watched_next _ (.waiterRecheck call f) ⟨waits, ?_⟩
        rw [futures_modifyFuture, if_pos rfl]
        simp
      · exact watched_next s (.waiterState call f) waits
  | waiterRecheck call f =>
      rw [awaitStep]
      split_ifs
      · exact watched_next s (.awaitUndo call f) waits.1
      · exact watched_next s (.yielding call f) waits
  | awaitUndo call f =>
      refine watched_next _ (.running call) ⟨?_, ?_⟩
      · intro g now
        rw [actors_modifyActor_self] at now
        contradiction
      · rw [actors_modifyActor_self]
        exact waits.unparked
  | yielding call f =>
      have again : ∀ frame : Ref, TurnWaits (s.modifyActor a fun actor =>
          { actor with snapshot := actor.snapshot.map (frame :: ·) }) a (.yielding call f) := by
        intro frame
        refine ⟨?_, waits.2⟩
        rw [actors_modifyActor_self]
        exact ⟨waits.1.unparked, by simpa using waits.1.snapshot, waits.1.waiting⟩
      cases choice with
      | record frame => exact watched_next _ (.yielding call f) (again frame)
      | refused =>
          refine watched_next s (.running call) ⟨?_, waits.1.unparked⟩
          intro g now
          rw [waits.1.waiting] at now
          cases now
          exact waits.2
      | _ => exact watched_next s (.caught call f) waits
  | caught call f =>
      refine watched_finish ⟨?_, ?_⟩ (by simp)
      · intro g now
        rw [actors_modifyActor_self] at now
        rw [futures_modifyActor]
        obtain rfl : f = g := by simpa [waits.1.waiting] using now
        exact waits.2
      · rw [actors_modifyActor_self]
        intro g now
        obtain rfl : f = g := by simpa using now
        exact ⟨waits.1.snapshot, waits.1.waiting⟩
  | _ => simp [awaits] at awaiting

theorem turn_step_watched (choice : Choice) (s : Shared) (a : ActorId) (home : Option Phase)
    (pc : TurnPc) (waits : TurnWaits s a pc) : TurnWatched a (turnStep choice s a home pc) := by
  have queues : ∀ (change : Actor → Actor) (pc' : TurnPc),
      (change (s.actors a)).waitingOn = (s.actors a).waitingOn →
      (change (s.actors a)).snapshot = (s.actors a).snapshot →
      (change (s.actors a)).parkedOn = (s.actors a).parkedOn → TurnWaits s a pc' →
      TurnWatched a (s.modifyActor a change, [.turn a home pc']) := by
    intro change pc' waiting snapshot parkedOn next
    refine watched_next _ pc' (turn_waits_congr next ?_ ?_ ?_ fun _ => id) <;>
      rw [actors_modifyActor_self] <;> assumption
  have cleared : ∀ change : Actor → Actor, (change (s.actors a)).waitingOn = none →
      (change (s.actors a)).parkedOn = none →
      Listed (s.modifyActor a change) a ∧ ((s.modifyActor a change).actors a).parkedOn = none := by
    intro change waiting parkedOn
    refine ⟨?_, ?_⟩
    · intro f now
      rw [actors_modifyActor_self, waiting] at now
      contradiction
    · rw [actors_modifyActor_self, parkedOn]
  cases pc with
  | start =>
      rw [turnStep]
      split_ifs with suspended
      · exact watched_next s .resumeRead ⟨waits, suspended⟩
      · refine watched_next s (.next kBatchSize .high []) ⟨waits.1, ?_⟩
        cases parkedOn : (s.actors a).parkedOn with
        | none => rfl
        | some f => exact absurd (waits.2 f parkedOn).1 suspended
  | resumeRead =>
      rw [turnStep]
      split
      · next nothing =>
          have unparked : (s.actors a).parkedOn = none := by
            cases parkedOn : (s.actors a).parkedOn with
            | none => rfl
            | some f =>
                have waiting := (waits.1.2 f parkedOn).2
                rw [nothing] at waiting
                contradiction
          exact watched_next _ (.next kBatchSize .high []) (cleared _ rfl unparked)
      · next f found => exact watched_next s (.resumeState f _) ⟨waits.1, waits.2, found⟩
  | resumeState f future =>
      rw [turnStep]
      split_ifs
      · exact watched_next s (.resumeClear f future) trivial
      · refine watched_finish ⟨?_, ?_⟩ (by simp)
        · refine listed_congr waits.1.1 ?_ fun _ => id
          rw [actors_modifyActor_self]
        · rw [actors_modifyActor_self]
          intro g now
          obtain rfl : f = g := by simpa using now
          exact waits.2
  | resumeClear f future => exact watched_next _ (.running _) (cleared _ rfl rfl)
  | next budget b seen =>
      cases budget with
      | zero => exact watched_finish ⟨waits.1, parked_of_none waits.2⟩ fun _ => waits.2
      | succ budget =>
          rw [turnStep]
          split
          · exact queues _ (.count budget b _) rfl rfl rfl waits
          · exact watched_next s (.take budget b seen) waits
  | take budget b seen =>
      rw [turnStep]
      split
      · exact queues _ (.store budget b _ _) rfl rfl rfl waits
      · split
        · exact watched_next s (.next _ _ _) waits
        · exact watched_finish ⟨waits.1, parked_of_none waits.2⟩ fun _ => waits.2
  | store budget b env batch => exact queues _ (.count budget b env) rfl rfl rfl waits
  | count budget b env => exact watched_next _ (.deliver budget b env) waits
  | deliver budget b env => exact queues _ (.running _) rfl rfl rfl waits
  | running call => exact running_watched choice s a home call waits.1 waits.2
  | _ =>
      rw [turn_step_await _ _ _ _ _ rfl]
      exact await_watched choice s a home _ rfl waits

theorem suspension_rule : TurnRule RestWaits TurnWaits where
  outsideFree := by
    intro choice s frame a outside rest
    obtain ⟨waiting, snapshot, parkedOn⟩ :=
      (outside_attributes outside : _ ∧ _ ∧ ((frameStep choice s frame).1.actors a).parkedOn = _)
    exact rest_waits_congr rest waiting snapshot parkedOn fun _ => waiters_grow
  outsideBusy := by
    intro choice s frame a pc outside waits
    obtain ⟨waiting, snapshot, parkedOn⟩ :=
      (outside_attributes outside : _ ∧ _ ∧ ((frameStep choice s frame).1.actors a).parkedOn = _)
    exact turn_waits_congr waits waiting snapshot parkedOn fun _ => waiters_grow
  holder := by
    intro choice s frame a held other rest
    obtain ⟨⟨sched, same⟩, futures, -⟩ :=
      (holder_step held other : (∃ sched, (frameStep choice s frame).1.actors a = _) ∧ _)
    refine rest_waits_congr rest ?_ ?_ ?_ fun _ => waiters_grow <;> rw [same]
  begins := fun _ _ rest => rest
  ended := fun choice s a home pc waits => (turn_step_watched choice s a home pc waits).ended
  goes := fun choice s a home home' pc pc' waits =>
    (turn_step_watched choice s a home pc waits).goes home' pc'

/-! ## The wake that is on its way -/

/-- The calls that are going to resume `a` because of `f`. -/
def wakes (a : ActorId) (f : FutureId) : Frame → Bool
  | .complete g .readWaiters => g == f
  | .complete g (.wake waiters) => g == f && decide (a ∈ waiters)
  | .resume _ .count => false
  | .resume held _ => held == a
  | _ => false

def Coming (s : Shared) (frames : Multiset Frame) (a : ActorId) (f : FutureId) : Prop :=
  s.settled f = false ∨ ∃ frame ∈ frames, wakes a f frame = true

/-- The future the actor waits on is not settled, or the actor will be resumed. -/
def Expected (s : Shared) (frames : Multiset Frame) (a : ActorId) : Prop :=
  ∃ f, (s.actors a).waitingOn = some f ∧ Coming s frames a f

/-- A turn on its way to `finishTurn(suspended)`. -/
def suspends (a : ActorId) : Frame → Bool
  | .turn held _ (.yielding _ _) => held == a
  | .turn held _ (.caught _ _) => held == a
  | .finish held _ .park => held == a
  | _ => false

/-- A turn on its way to the release of its claim. -/
def releases : FinishPc → Bool
  | .park | .parkCount | .unpark => false
  | _ => true

structure Watched (s : Shared) (frames : Multiset Frame) : Prop where
  claims : ClaimedOnce s frames
  turns : TurnInvariant RestWaits TurnWaits s frames
  releasing : ∀ a home pc, .finish a home pc ∈ frames → releases pc = true →
    (s.actors a).parkedOn = none
  idle : ∀ a, s.sched a = .idle → (s.actors a).parkedOn = none
  parked : ∀ a, s.sched a = .suspended → Expected s frames a
  parking : ∀ a, ∀ frame ∈ frames, suspends a frame = true →
    s.sched a = .claimedWake ∨ Expected s frames a

/-- A call that is about to resume the actor goes on to do it, finds the claim
marked, or marks or takes it. -/
theorem resume_goes_on (s : Shared) (a : ActorId) (pc : ResumePc) (waiting : pc ≠ .count) :
    (∃ left ∈ (resumeStep s a pc).2, ∀ f, wakes a f left = true) ∨
      (resumeStep s a pc).1.sched a = .claimedWake ∨
      (claimsOf (s.sched a) = 0 ∧ (resumeStep s a pc).1.sched a = .claimed) := by
  cases pc with
  | load =>
      rw [resumeStep]
      split
      · exact Or.inl ⟨.resume a .wake, by simp, fun _ => by simp [wakes]⟩
      · exact Or.inl ⟨.resume a .mark, by simp, fun _ => by simp [wakes]⟩
      · exact Or.inl ⟨.resume a .claim, by simp, fun _ => by simp [wakes]⟩
      · next marked => exact Or.inr (Or.inl marked)
  | wake =>
      rw [resumeStep]
      split_ifs with suspended
      · exact Or.inr (Or.inr ⟨by rw [suspended, claimsOf], by simp⟩)
      · exact Or.inl ⟨.resume a .load, by simp, fun _ => by simp [wakes]⟩
  | count => exact absurd rfl waiting
  | mark =>
      rw [resumeStep]
      split_ifs with claimed
      · exact Or.inr (Or.inl (by simp))
      · exact Or.inl ⟨.resume a .load, by simp, fun _ => by simp [wakes]⟩
  | claim =>
      rw [resumeStep]
      split_ifs with idle
      · exact Or.inr (Or.inr ⟨by rw [idle, claimsOf], by simp⟩)
      · exact Or.inl ⟨.resume a .load, by simp, fun _ => by simp [wakes]⟩

theorem coming_step {choice : Choice} {s : Shared} {frame : Frame} {others : Multiset Frame}
    {a : ActorId} {f : FutureId} (listed : a ∈ (s.futures f).waiters)
    (coming : Coming s (frame ::ₘ others) a f) :
    Coming (frameStep choice s frame).1 (↑(frameStep choice s frame).2 + others) a f ∨
      (frameStep choice s frame).1.sched a = .claimedWake ∨
      (claimsOf (s.sched a) = 0 ∧ (frameStep choice s frame).1.sched a = .claimed) := by
  have new : ∀ left ∈ (frameStep choice s frame).2, wakes a f left = true →
      Coming (frameStep choice s frame).1 (↑(frameStep choice s frame).2 + others) a f :=
    fun left member waking => Or.inr ⟨left, Multiset.mem_add.mpr (Or.inl member), waking⟩
  rcases coming with pending | ⟨waker, member, waking⟩
  · cases settled : (frameStep choice s frame).1.settled f with
    | false => exact Or.inl (Or.inl settled)
    | true =>
        rcases settles_by_completer settled with before | ⟨failed, rfl⟩
        · rw [pending] at before
          contradiction
        · exact Or.inl (new (.complete f .readWaiters) (by simp [frameStep, completeStep])
            (by simp [wakes]))
  · rcases Multiset.mem_cons.mp member with rfl | old
    · unfold wakes at waking
      split at waking
      · next g =>
          obtain rfl : g = f := beq_iff_eq.mp waking
          refine Or.inl (new (.complete g (.wake (s.futures g).waiters)) ?_ ?_)
          · simp [frameStep, completeStep]
          · simpa [wakes] using listed
      · next g waiters =>
          obtain ⟨rfl, member⟩ : g = f ∧ a ∈ waiters := by simpa using waking
          cases waiters with
          | nil => simp at member
          | cons first rest =>
              rcases List.mem_cons.mp member with rfl | later
              · exact Or.inl (new (.resume a .load) (by simp [frameStep, completeStep])
                  (by simp [wakes]))
              · exact Or.inl (new (.complete g (.wake rest)) (by simp [frameStep, completeStep])
                  (by simpa [wakes] using later))
      · contradiction
      · next held pc waiting =>
          obtain rfl : held = a := beq_iff_eq.mp waking
          rcases resume_goes_on s held pc waiting with ⟨left, member, waking⟩ | done
          · exact Or.inl (new left member (waking f))
          · exact Or.inr done
      · contradiction
    · exact Or.inl (Or.inr ⟨waker, Multiset.mem_add.mpr (Or.inr old), waking⟩)

/-- A call without the claim keeps a mark and cannot suspend the actor. -/
theorem outside_marks {choice : Choice} {s : Shared} {frame : Frame} {a : ActorId}
    (outside : holds a frame = false) :
    (s.sched a = .claimedWake → (frameStep choice s frame).1.sched a = .claimedWake) ∧
      ((frameStep choice s frame).1.sched a = .suspended → s.sched a = .suspended) := by
  have change := outside_step choice s frame a outside
  unfold Shared.sched
  generalize (frameStep choice s frame).1.actors a = after at change
  cases change with
  | same => exact ⟨id, id⟩
  | pushed b env sender => exact ⟨id, id⟩
  | claimed free => simp [free]
  | woken parked => simp [parked]
  | marked taken => simp

theorem expected_outside {choice : Choice} {s : Shared} {frame : Frame}
    {others : Multiset Frame} {a : ActorId} (outside : holds a frame = false)
    (listed : Listed s a) (expected : Expected s (frame ::ₘ others) a) :
    Expected (frameStep choice s frame).1 (↑(frameStep choice s frame).2 + others) a ∨
      (frameStep choice s frame).1.sched a = .claimedWake ∨
      (claimsOf (s.sched a) = 0 ∧ (frameStep choice s frame).1.sched a = .claimed) := by
  obtain ⟨f, waiting, coming⟩ := expected
  rcases coming_step (listed f waiting) coming with still | done
  · exact Or.inl ⟨f, (outside_attributes outside).1.trans waiting, still⟩
  · exact Or.inr done

/-- The frames of a turn wake nobody. -/
theorem expected_kept {s s' : Shared} {frame : Frame} {left : List Frame}
    {others : Multiset Frame} {a : ActorId} (turn : ofTurn frame = true)
    (waiting : (s'.actors a).waitingOn = (s.actors a).waitingOn)
    (futures : s'.futures = s.futures) (expected : Expected s (frame ::ₘ others) a) :
    Expected s' (↑left + others) a := by
  obtain ⟨f, now, coming⟩ := expected
  refine ⟨f, waiting.trans now, ?_⟩
  rcases coming with pending | ⟨waker, member, waking⟩
  · refine Or.inl ?_
    rw [Shared.settled, futures]
    exact pending
  · rcases Multiset.mem_cons.mp member with rfl | old
    · unfold ofTurn at turn
      split at turn <;> simp [wakes] at waking turn
    · exact Or.inr ⟨waker, Multiset.mem_add.mpr (Or.inr old), waking⟩

theorem holds_of_suspends {a : ActorId} {frame : Frame} (suspending : suspends a frame = true) :
    holds a frame = true := by
  unfold suspends at suspending
  split at suspending <;> first | exact suspending | contradiction

theorem listed_of_suspends {s : Shared} {frames : Multiset Frame}
    (claims : ClaimedOnce s frames) (turns : TurnInvariant RestWaits TurnWaits s frames)
    {a : ActorId} {frame : Frame} (member : frame ∈ frames)
    (suspending : suspends a frame = true) : Listed s a := by
  have only := (only_holder claims member (holds_of_suspends suspending)).2
  have awaits : ∀ f, Awaiting (s.actors a) f ∧ a ∈ (s.futures f).waiters → Listed s a := by
    intro f awaiting g now
    rw [awaiting.1.waiting] at now
    cases now
    exact awaiting.2
  unfold suspends at suspending
  split at suspending
  · next held home call f =>
      obtain rfl : held = a := beq_iff_eq.mp suspending
      exact awaits f (turns.busy held home _ member)
  · next held home call f =>
      obtain rfl : held = a := beq_iff_eq.mp suspending
      exact awaits f (turns.busy held home _ member)
  · next held home =>
      refine (turns.free a ?_).1
      intro other otherMember
      by_contra turn
      have same := only other otherMember (turn_held (by simpa using turn))
      subst same
      simp [turnOf] at turn
  · contradiction

/-- A turn starts to suspend on a future it has just seen pending. -/
theorem suspends_origin {choice : Choice} {s : Shared} {a : ActorId} {home : Option Phase}
    {pc : TurnPc} (waits : TurnWaits s a pc) {left : Frame}
    (new : left ∈ (turnStep choice s a home pc).2) (suspending : suspends a left = true) :
    (suspends a (.turn a home pc) = true ∧
        ((turnStep choice s a home pc).1.actors a).waitingOn = (s.actors a).waitingOn ∧
        (turnStep choice s a home pc).1.futures = s.futures) ∨
      ∃ f, ((turnStep choice s a home pc).1.actors a).waitingOn = some f ∧
        (turnStep choice s a home pc).1.settled f = false := by
  cases pc with
  | waiterRecheck call f =>
      refine Or.inr ⟨f, ?_⟩
      rw [turn_step_await _ _ _ _ _ rfl, awaitStep] at new ⊢
      split_ifs at new ⊢ with settled
      · obtain rfl : left = .turn a home (.awaitUndo call f) := by simpa using new
        simp [suspends] at suspending
      · exact ⟨waits.1.waiting, by simpa using settled⟩
  | yielding call f =>
      refine Or.inl ⟨by simp [suspends], ?_⟩
      cases choice with
      | record frame =>
          refine ⟨?_, rfl⟩
          simp only [turnStep, awaitStep]
          rw [actors_modifyActor_self]
      | _ => exact ⟨rfl, rfl⟩
  | caught call f =>
      refine Or.inl ⟨by simp [suspends], ?_, rfl⟩
      simp only [turnStep, awaitStep]
      rw [actors_modifyActor_self]
  | resumeState f future =>
      refine Or.inr ⟨f, ?_⟩
      rw [turnStep] at new ⊢
      split_ifs at new ⊢ with settled
      · obtain rfl : left = .turn a home (.resumeClear f future) := by simpa using new
        simp [suspends] at suspending
      · refine ⟨?_, Bool.eq_false_of_not_eq_true settled⟩
        dsimp only
        rw [actors_modifyActor_self]
        exact waits.2.2
  | running call =>
      simp only [turnStep] at new
      have replies : ∀ value failed, left ∈ completeFrames call.future value failed ++
          [Frame.turn a home (.next call.budget .high [])] → suspends a left = false := by
        intro value failed member
        rcases List.mem_append.mp member with reply | last
        · cases future : call.future with
          | none => simp [future, completeFrames] at reply
          | some f =>
              obtain rfl : left = .complete f (.claim value failed) := by
                simpa [future, completeFrames] using reply
              rfl
        · obtain rfl : left = .turn a home (.next call.budget .high []) := by simpa using last
          rfl
      cases choice with
      | returns newState reply => simp [replies reply false new] at suspending
      | throws error => simp [replies error true new] at suspending
      | _ =>
          simp only [runningStep, List.mem_cons, List.not_mem_nil, or_false] at new
          rcases new with rfl | rfl <;> simp [suspends] at suspending
  | next budget b seen =>
      cases budget with
      | zero =>
          obtain rfl : left = .finish a home .load := by simpa [turnStep] using new
          simp [suspends] at suspending
      | succ budget =>
          simp only [turnStep] at new
          split at new
          all_goals
            simp only [List.mem_cons, List.not_mem_nil, or_false] at new
            subst new
            simp [suspends] at suspending
  | _ =>
      simp only [turnStep, awaitStep] at new
      repeat' split at new
      all_goals
        simp only [List.mem_cons, List.not_mem_nil, or_false] at new
        subst new
        simp [suspends] at suspending

/-! ## Every step keeps the watch -/

theorem finish_leaves_finish {s : Shared} {held a : ActorId} {home home' : Option Phase}
    {pc pc' : FinishPc} (new : .finish a home' pc' ∈ (finishStep s held home pc).2) :
    a = held ∧ pc' ≠ .park ∧ (releases pc' = true → releases pc = true) := by
  have later : .finish a home' pc' ∉ back home := by
    cases home <;> simp [back]
  unfold finishStep at new
  repeat' split at new
  all_goals simp_all [releases]

theorem releasing_step (choice : Choice) (s : Shared) (frame : Frame) (others : Multiset Frame)
    (watched : Watched s (frame ::ₘ others)) (a : ActorId) (home : Option Phase) (pc : FinishPc)
    (member : .finish a home pc ∈ (↑(frameStep choice s frame).2 + others : Multiset Frame))
    (releasing : releases pc = true) :
    ((frameStep choice s frame).1.actors a).parkedOn = none := by
  have first : frame ∈ frame ::ₘ others := Multiset.mem_cons_self frame others
  have heldBy : ∀ {home pc}, releases pc = true → holds a (.finish a home pc) = true := by
    intro home pc releasing
    cases pc <;> simp_all [holds, releases]
  rcases Multiset.mem_add.mp member with new | old
  · cases kind : ofTurn frame with
    | false =>
        rcases other_leaves choice s frame kind _ new with plain | ⟨a', home', same⟩
        · simp [ofTurn] at plain
        · cases same
    | true =>
        cases frame with
        | turn held home' pc' =>
            rcases turn_leaves choice s held home' pc' _ new with
              begun | ⟨pc'', same⟩ | same | ⟨home'', same⟩
            · simp [begins] at begun
            · cases same
            · cases same
              simp [releases] at releasing
            · cases same
              have waits := watched.turns.busy a home' pc' first
              exact (turn_step_watched choice s a home' pc' waits).released home new
        | finish held home' pc' =>
            obtain ⟨rfl, -, before⟩ := finish_leaves_finish new
            have none := watched.releasing a home' pc' first (before releasing)
            obtain ⟨⟨sched, same⟩, -⟩ :=
              (holder_step (heldBy (before releasing)) rfl :
                (∃ sched, (frameStep choice s (.finish a home' pc')).1.actors a = _) ∧ _)
            rw [same]
            exact none
        | _ => simp [ofTurn] at kind
  · have outside := outside_of_other watched.claims old (heldBy releasing)
    rw [(outside_attributes outside).2.2]
    exact watched.releasing a home pc (Multiset.mem_cons_of_mem old) releasing

theorem unparked_step (choice : Choice) (s : Shared) (frame : Frame) (others : Multiset Frame)
    (watched : Watched s (frame ::ₘ others)) (a : ActorId)
    (idle : (frameStep choice s frame).1.sched a = .idle) :
    ((frameStep choice s frame).1.actors a).parkedOn = none := by
  cases held : holds a frame with
  | false =>
      rw [(outside_attributes held).2.2]
      exact watched.idle a ((outside_sched held).1 idle)
  | true =>
      obtain ⟨home, loaded, rfl, -⟩ :=
        (holder_gives_up held (claimed_of_holds watched.claims held).2.2).1 idle
      have none := watched.releasing a home _ (Multiset.mem_cons_self _ _) rfl
      obtain ⟨⟨sched, same⟩, -⟩ :=
        (holder_step held rfl :
          (∃ sched, (frameStep choice s (.finish a home (.release loaded))).1.actors a = _) ∧ _)
      rw [same]
      exact none

theorem parked_step (choice : Choice) (s : Shared) (frame : Frame) (others : Multiset Frame)
    (watched : Watched s (frame ::ₘ others)) (a : ActorId)
    (suspended : (frameStep choice s frame).1.sched a = .suspended) :
    Expected (frameStep choice s frame).1 (↑(frameStep choice s frame).2 + others) a := by
  cases held : holds a frame with
  | false =>
      have before := (outside_marks held).2 suspended
      have noTurn : ∀ other ∈ frame ::ₘ others, turnOf a other = false := by
        intro other member
        by_contra turn
        have claimed := (only_holder watched.claims member (turn_held (by simpa using turn))).1
        simp [before, claimsOf] at claimed
      have listed := (watched.turns.free a noTurn).1
      rcases expected_outside held listed (watched.parked a before) with
        still | marked | ⟨-, claimed⟩
      · exact still
      · rw [suspended] at marked
        contradiction
      · rw [suspended] at claimed
        contradiction
  | true =>
      obtain ⟨home, rfl, claimed⟩ :=
        (holder_gives_up held (claimed_of_holds watched.claims held).2.2).2 suspended
      rcases watched.parking a _ (Multiset.mem_cons_self _ _) (by simp [suspends]) with
        marked | expected
      · rw [claimed] at marked
        contradiction
      · obtain ⟨⟨sched, same⟩, futures, -⟩ :=
          (holder_step held rfl :
            (∃ sched, (frameStep choice s (.finish a home .park)).1.actors a = _) ∧ _)
        exact expected_kept rfl (by rw [same]) futures expected

theorem parking_step (choice : Choice) (s : Shared) (frame : Frame) (others : Multiset Frame)
    (watched : Watched s (frame ::ₘ others)) (a : ActorId) (left : Frame)
    (member : left ∈ (↑(frameStep choice s frame).2 + others : Multiset Frame))
    (suspending : suspends a left = true) :
    (frameStep choice s frame).1.sched a = .claimedWake ∨
      Expected (frameStep choice s frame).1 (↑(frameStep choice s frame).2 + others) a := by
  have first : frame ∈ frame ::ₘ others := Multiset.mem_cons_self frame others
  rcases Multiset.mem_add.mp member with new | old
  · cases kind : ofTurn frame with
    | false =>
        rcases other_leaves choice s frame kind left new with plain | ⟨a', home', rfl⟩
        · unfold suspends at suspending
          split at suspending <;> simp_all [ofTurn]
        · simp [suspends] at suspending
    | true =>
        cases frame with
        | turn held home pc =>
            obtain rfl : held = a := by
              rcases turn_leaves choice s held home pc left new with
                begun | ⟨pc', rfl⟩ | rfl | ⟨home', rfl⟩
              · unfold begins at begun
                split at begun <;> simp_all [suspends]
              · exact beq_iff_eq.mp (holds_of_suspends suspending)
              · exact beq_iff_eq.mp suspending
              · simp [suspends] at suspending
            have waits := watched.turns.busy held home pc first
            have sched := turn_keeps_sched choice s held held home pc
            rcases suspends_origin waits new suspending with
              ⟨before, waiting, futures⟩ | ⟨f, waiting, pending⟩
            · rcases watched.parking held _ first before with marked | expected
              · exact Or.inl (sched.trans marked)
              · exact Or.inr (expected_kept rfl waiting futures expected)
            · exact Or.inr ⟨f, waiting, Or.inl pending⟩
        | finish held home pc =>
            have noTurn := finish_leaves_no_turn s held a home pc left new
            unfold suspends at suspending
            split at suspending
            · simp_all [turnOf]
            · simp_all [turnOf]
            · exact absurd rfl (finish_leaves_finish new).2.1
            · contradiction
        | _ => simp [ofTurn] at kind
  · have held := holds_of_suspends suspending
    have inFrames : left ∈ frame ::ₘ others := Multiset.mem_cons_of_mem old
    have outside := outside_of_other watched.claims old held
    have claimed := (only_holder watched.claims inFrames held).1
    rcases watched.parking a left inFrames suspending with marked | expected
    · exact Or.inl ((outside_marks outside).1 marked)
    · have listed := listed_of_suspends watched.claims watched.turns inFrames suspending
      rcases expected_outside outside listed expected with still | marked | ⟨free, -⟩
      · exact Or.inr still
      · exact Or.inl marked
      · rw [claimed] at free
        contradiction

theorem watched_step (choice : Choice) (s : Shared) (frame : Frame) (others : Multiset Frame)
    (watched : Watched s (frame ::ₘ others)) :
    Watched (frameStep choice s frame).1 (↑(frameStep choice s frame).2 + others) where
  claims := claimed_once_step choice s frame others watched.claims
  turns := turn_invariant_step suspension_rule choice s frame others watched.claims watched.turns
  releasing := releasing_step choice s frame others watched
  idle := unparked_step choice s frame others watched
  parked := parked_step choice s frame others watched
  parking := parking_step choice s frame others watched

theorem reached_watched (states : ActorId → Ref) (workers programs : Nat)
    (schedule : List (Nat × Choice)) :
    Watched (reached states workers programs schedule).shared
      (reached states workers programs schedule).frames := by
  apply run_invariant frameStep Watched watched_step
  have plain := initial_frames states workers programs
  refine ⟨initial_claimed_once states workers programs, ?_, ?_, fun _ _ => rfl, ?_, ?_⟩
  · apply turn_invariant_initial
    intro a
    exact ⟨fun f now => by contradiction, fun f now => by contradiction⟩
  · intro a home pc member
    rcases plain _ member with same | same <;> cases same
  · intro a suspended
    contradiction
  · intro a frame member suspending
    rcases plain frame member with rfl | rfl <;> simp [suspends] at suspending

/-- A call of `complete` for `f` that won the claim and has not returned. -/
def completing (f : FutureId) : Frame → Bool
  | .complete _ (.claim _ _) => false
  | .complete g _ => g == f
  | .continuations g _ => g == f
  | _ => false

/-- No completion is lost: when the future an actor waits on is settled, its
completer has returned and no call for the actor is in progress, the actor is not
suspended, and if its frames have not been resumed since its turn ended on the
future, it is on exactly one ready stack. -/
theorem no_lost_completion (states : ActorId → Ref) (workers programs : Nat)
    (schedule : List (Nat × Choice)) (a : ActorId) (f : FutureId)
    (waiting : ((reached states workers programs schedule).shared.actors a).waitingOn = some f)
    (settled : (reached states workers programs schedule).shared.settled f = true)
    (returned : ∀ frame ∈ (reached states workers programs schedule).frames,
      completing f frame = false)
    (quiet : ∀ frame ∈ (reached states workers programs schedule).frames,
      inside a frame = false) :
    let s := (reached states workers programs schedule).shared
    s.sched a ≠ .suspended ∧ ((s.actors a).parkedOn = none ∨ entries s a = 1) := by
  intro s
  have watched := reached_watched states workers programs schedule
  have awake : s.sched a ≠ .suspended := by
    intro suspended
    obtain ⟨g, waitingOn, coming⟩ := watched.parked a suspended
    rw [waiting] at waitingOn
    cases waitingOn
    rcases coming with pending | ⟨waker, member, waking⟩
    · rw [settled] at pending
      contradiction
    · have notInside := quiet waker member
      have notCompleting := returned waker member
      unfold wakes at waking
      split at waking
      · simp_all [completing]
      · simp_all [completing]
      · contradiction
      · simp_all [inside]
      · contradiction
  refine ⟨awake, ?_⟩
  have none : holders (reached states workers programs schedule).frames a = 0 := by
    rw [holders, Multiset.countP_eq_zero]
    intro frame member held
    simpa [quiet frame member] using inside_of_holds held
  have once := watched.claims.once a
  rw [none, Nat.add_zero] at once
  have word : ∀ sched, s.sched a = sched → entries s a = claimsOf sched := by
    rintro sched rfl
    exact once
  cases sched : s.sched a with
  | idle => exact Or.inl (watched.idle a sched)
  | claimed => exact Or.inr (word _ sched)
  | claimedWake => exact Or.inr (word _ sched)
  | suspended => exact absurd sched awake

/-- A worker runs a handler that awaits future 3 and suspends; then the program
completes the future. -/
def awaitThenComplete : List (Nat × Choice) :=
  (1, Choice.send 0 .low ⟨7, none⟩) :: List.replicate 5 (1, Choice.proceed) ++
    List.replicate 13 (0, Choice.proceed) ++
    (0, Choice.await 3) :: List.replicate 7 (0, Choice.proceed) ++
    (0, Choice.record 9) :: List.replicate 4 (0, Choice.proceed) ++
    (1, Choice.complete 3 42 false) :: List.replicate 19 (1, Choice.proceed)

theorem completed_await_is_ready :
    let s := (reached (fun _ => 0) 1 1 awaitThenComplete).shared
    s.sched 0 ≠ .suspended ∧ ((s.actors 0).parkedOn = none ∨ entries s 0 = 1) :=
  no_lost_completion (fun _ => 0) 1 1 awaitThenComplete 0 3 (by decide +kernel)
    (by decide +kernel) (by decide +kernel) (by decide +kernel)

end ProtoScala.Runtime.SchedulerSuspension
