import Mathlib.Logic.Function.Basic
import ProtoScala.Library.Threads

/-!
# The actor scheduler

The shared state of `ActorScheduler` and `Futures` and every atomic step of the
code that runs over it: `send`, `resume`, `enqueue`, `highestPendingBand`,
`workerLoop`, `drainOne`, `runTurn`, `resumeSuspendedTurn`, `nextMessage`,
`deliver`, `finishTurn`, `shutdown`, `future_await`, `complete`, `addWaiter`,
`runContinuations` and `onComplete`. A frame is one call in progress, with its
program counter and the locals it still reads; the steps are sequentially
consistent.

One step is one atomic load, store or compare-and-swap, one push or pop of a
ready stack, or one operation of a mailbox. What only the holder of an actor's
claim touches (`pendingIdx`, the three attributes of a suspended turn) moves
together with the step beside it. Handlers, continuations and the program's own
threads are arbitrary: a `Choice` says what they do next.

The fields named as history are written and never read.
-/

namespace ProtoScala.Runtime.ActorScheduler

open ProtoScala.Library.Threads

set_option autoImplicit false

abbrev ActorId := Nat
abbrev FutureId := Nat

/-- A reference to an object of the runtime. -/
abbrev Ref := Nat

inductive Band
  | high | medium | low
deriving DecidableEq, Repr

namespace Band

/-- The loops over the bands go from `high` to `low`. -/
def next? : Band → Option Band
  | high => some medium
  | medium => some low
  | low => none

def rank : Band → Nat
  | high => 0
  | medium => 1
  | low => 2

end Band

/-- Messages per turn. -/
def kBatchSize : Nat := 8

def kSpinRounds : Nat := 8

/-- The word `sched` of an actor. -/
inductive Sched
  | idle | claimed | claimedWake | suspended
deriving DecidableEq, Repr

/-- A message object: the message and, for an ask, the future of its reply. -/
structure Envelope where
  msg : Ref
  future : Option FutureId
deriving DecidableEq, Repr

structure Actor where
  sched : Sched := .idle
  mailbox : Band → List Envelope := fun _ => []
  pending : Band → List Envelope := fun _ => []
  pendingIdx : Band → Nat := fun _ => 0
  state : Ref
  snapshot : Option (List Ref) := none
  waitingOn : Option FutureId := none
  turnFuture : Option FutureId := none
  /-- History: every envelope pushed to a band, in order. -/
  pushed : Band → List Envelope := fun _ => []
  /-- History: every envelope handed to `deliver`, in order. -/
  delivered : Band → List Envelope := fun _ => []
  /-- History: the future on which a turn of the actor ended, while its frames
  have not been resumed. -/
  parkedOn : Option FutureId := none

inductive FState
  | pending | success | failure | claiming
deriving DecidableEq, Repr

structure Future where
  fstate : FState := .pending
  fvalue : Option Ref := none
  ferror : Option Ref := none
  waiters : List ActorId := []
  conts : List Ref := []
  /-- History: every continuation given to `onComplete`. -/
  registered : List Ref := []
  /-- History: every continuation called. -/
  ran : List Ref := []

/-- `futures::state(f) != kPending`: a future that is being claimed still reads
as pending. -/
def Future.settled (future : Future) : Bool :=
  match future.fstate with
  | .success | .failure => true
  | .pending | .claiming => false

/-- `pool` is the number of workers, `work` the count of the semaphore they park
on. -/
structure Shared where
  actors : ActorId → Actor
  futures : FutureId → Future
  ready : Band → List ActorId
  work : Nat
  shuttingDown : Bool
  pool : Nat
  messages : Nat
  suspended : BitVec 32

namespace Shared

def modifyActor (s : Shared) (a : ActorId) (change : Actor → Actor) : Shared :=
  { s with actors := Function.update s.actors a (change (s.actors a)) }

def modifyFuture (s : Shared) (f : FutureId) (change : Future → Future) : Shared :=
  { s with futures := Function.update s.futures f (change (s.futures f)) }

def setSched (s : Shared) (a : ActorId) (sched : Sched) : Shared :=
  s.modifyActor a fun actor => { actor with sched := sched }

def setReady (s : Shared) (b : Band) (stack : List ActorId) : Shared :=
  { s with ready := Function.update s.ready b stack }

def sched (s : Shared) (a : ActorId) : Sched := (s.actors a).sched

def settled (s : Shared) (f : FutureId) : Bool := (s.futures f).settled

end Shared

/-- What of the last batch of a band is not delivered yet. -/
def Actor.leftover (actor : Actor) (b : Band) : List Envelope :=
  (actor.pending b).drop (actor.pendingIdx b)

inductive SendPc
  | push (env : Envelope) | load | claim | mark
deriving DecidableEq, Repr

inductive ResumePc
  | load | wake | count | mark | claim
deriving DecidableEq, Repr

/-- `enqueue(a, highestPendingBand(ctx, a))`, or `enqueue` alone from `push` on. -/
inductive HandoffPc
  | pendingOf (b : Band) | mailboxOf (b : Band) | push (b : Band) | release
deriving DecidableEq, Repr

/-- The three calls of `drainOne` in `workerLoop`. -/
inductive Phase
  | looping | closing | spinning (round : Nat)
deriving DecidableEq, Repr

/-- Where the worker goes after a turn: a spin round that got a turn starts the
loop again. -/
def Phase.afterTurn : Phase → Phase
  | .looping => .looping
  | .closing => .closing
  | .spinning _ => .looping

inductive WorkerPc
  | drain (phase : Phase) (b : Band) | checkShutdown | acquire
deriving DecidableEq, Repr

/-- One invocation of a handler: the future of its message, the messages the
turn may still take after it, and whether it is a resumed one. -/
structure Invocation where
  future : Option FutureId
  budget : Nat
  resumed : Bool
deriving DecidableEq, Repr

/-- `seen` lists the bands whose `takeAll` found nothing in the scan so far. -/
inductive TurnPc
  | start
  | resumeRead
  | resumeState (f : FutureId) (future : Option FutureId)
  | resumeClear (f : FutureId) (future : Option FutureId)
  | next (budget : Nat) (b : Band) (seen : List Band)
  | take (budget : Nat) (b : Band) (seen : List Band)
  | store (budget : Nat) (b : Band) (env : Envelope) (batch : List Envelope)
  | count (budget : Nat) (b : Band) (env : Envelope)
  | deliver (budget : Nat) (b : Band) (env : Envelope)
  | running (call : Invocation)
  | awaitState (call : Invocation) (f : FutureId)
  | awaitSnapshot (call : Invocation) (f : FutureId)
  | awaitWaiting (call : Invocation) (f : FutureId)
  | waiterState (call : Invocation) (f : FutureId)
  | waiterRead (call : Invocation) (f : FutureId)
  | waiterCas (call : Invocation) (f : FutureId) (cur : List ActorId)
  | waiterRecheck (call : Invocation) (f : FutureId)
  | awaitUndo (call : Invocation) (f : FutureId)
  | yielding (call : Invocation) (f : FutureId)
  | caught (call : Invocation) (f : FutureId)
deriving DecidableEq, Repr

/-- `s` is the value of `sched` that `finishTurn` loaded. -/
inductive FinishPc
  | park | parkCount | unpark
  | load | demote
  | pendingOf (s : Sched) (b : Band)
  | mailboxOf (s : Sched) (b : Band)
  | release (s : Sched)
deriving DecidableEq, Repr

inductive CompletePc
  | claim (value : Ref) (failed : Bool)
  | setValue (value : Ref) (failed : Bool)
  | setState (failed : Bool)
  | readWaiters
  | wake (waiters : List ActorId)
deriving DecidableEq, Repr

inductive ContinuationsPc
  | read | take (conts : List Ref) | runEach (conts : List Ref)
deriving DecidableEq, Repr

inductive OnCompletePc
  | state | read | cas (cur : List Ref) | recheck
deriving DecidableEq, Repr

inductive ShutdownPc
  | flag | release (left : Nat)
deriving DecidableEq, Repr

/-- The calls in progress. `home` is what a worker does after its turn; an
unknown error leaves the worker without one. `user` is a program thread or a
continuation. -/
inductive Frame
  | send (a : ActorId) (b : Band) (pc : SendPc)
  | resume (a : ActorId) (pc : ResumePc)
  | handoff (a : ActorId) (pc : HandoffPc)
  | worker (pc : WorkerPc)
  | turn (a : ActorId) (home : Option Phase) (pc : TurnPc)
  | finish (a : ActorId) (home : Option Phase) (pc : FinishPc)
  | complete (f : FutureId) (pc : CompletePc)
  | continuations (f : FutureId) (pc : ContinuationsPc)
  | onComplete (f : FutureId) (k : Ref) (pc : OnCompletePc)
  | user
  | shutdown (pc : ShutdownPc)
deriving DecidableEq, Repr

/-- What program code does next. `record` is a frame that appends itself to the
snapshot while a yield passes through it, `refused` a place that cannot be
suspended, `defect` an error that no handler of the scheduler knows. -/
inductive Choice
  | send (a : ActorId) (b : Band) (env : Envelope)
  | complete (f : FutureId) (value : Ref) (failed : Bool)
  | onComplete (f : FutureId) (k : Ref)
  | await (f : FutureId)
  | returns (newState reply : Ref)
  | throws (error : Ref)
  | record (frame : Ref)
  | refused
  | defect
  | shutdown
  | proceed
deriving DecidableEq, Repr

/-- The worker's loop after a turn. -/
def back : Option Phase → List Frame
  | none => []
  | some phase => [.worker (.drain phase .high)]

def sendStep (s : Shared) (a : ActorId) (b : Band) : SendPc → Shared × List Frame
  | .push env =>
      (s.modifyActor a fun actor => { actor with
        mailbox := Function.update actor.mailbox b (actor.mailbox b ++ [env])
        pushed := Function.update actor.pushed b (actor.pushed b ++ [env]) },
        [.send a b .load])
  | .load =>
      match s.sched a with
      | .idle => (s, [.send a b .claim])
      | .claimed => (s, [.send a b .mark])
      | .claimedWake | .suspended => (s, [])
  | .claim =>
      if s.sched a = .idle then (s.setSched a .claimed, [.handoff a (.push b)])
      else (s, [.send a b .load])
  | .mark =>
      if s.sched a = .claimed then (s.setSched a .claimedWake, [])
      else (s, [.send a b .load])

def resumeStep (s : Shared) (a : ActorId) : ResumePc → Shared × List Frame
  | .load =>
      match s.sched a with
      | .suspended => (s, [.resume a .wake])
      | .claimed => (s, [.resume a .mark])
      | .idle => (s, [.resume a .claim])
      | .claimedWake => (s, [])
  | .wake =>
      if s.sched a = .suspended then (s.setSched a .claimed, [.resume a .count])
      else (s, [.resume a .load])
  | .count => ({ s with suspended := s.suspended - 1 }, [.handoff a (.pendingOf .high)])
  | .mark =>
      if s.sched a = .claimed then (s.setSched a .claimedWake, [])
      else (s, [.resume a .load])
  | .claim =>
      if s.sched a = .idle then (s.setSched a .claimed, [.handoff a (.push .medium)])
      else (s, [.resume a .load])

def handoffStep (s : Shared) (a : ActorId) : HandoffPc → Shared × List Frame
  | .pendingOf b =>
      if (s.actors a).leftover b ≠ [] then (s, [.handoff a (.push b)])
      else (s, [.handoff a (.mailboxOf b)])
  | .mailboxOf b =>
      if (s.actors a).mailbox b ≠ [] then (s, [.handoff a (.push b)])
      else
        match b.next? with
        | some lower => (s, [.handoff a (.pendingOf lower)])
        | none => (s, [.handoff a (.push .medium)])
  | .push b => (s.setReady b (a :: s.ready b), [.handoff a .release])
  | .release => ({ s with work := s.work + 1 }, [])

/-- `drainOne` found every ready stack empty. -/
def Phase.nothingReady : Phase → List Frame
  | .looping => [.worker .checkShutdown]
  | .closing => []
  | .spinning round =>
      if round + 1 < kSpinRounds then [.worker (.drain (.spinning (round + 1)) .high)]
      else [.worker .acquire]

def workerStep (s : Shared) : WorkerPc → Shared × List Frame
  | .drain phase b =>
      match s.ready b with
      | a :: stack => (s.setReady b stack, [.turn a (some phase.afterTurn) .start])
      | [] =>
          match b.next? with
          | some lower => (s, [.worker (.drain phase lower)])
          | none => (s, phase.nothingReady)
  | .checkShutdown =>
      if s.shuttingDown then (s, [.worker (.drain .closing .high)])
      else (s, [.worker (.drain (.spinning 0) .high)])
  | .acquire =>
      if 0 < s.work then ({ s with work := s.work - 1 }, [.worker (.drain .looping .high)])
      else (s, [.worker .acquire])

/-- The completion of the message's own future, when it has one. -/
def completeFrames (future : Option FutureId) (value : Ref) (failed : Bool) : List Frame :=
  match future with
  | none => []
  | some f => [.complete f (.claim value failed)]

/-- A handler at work. A handler that returns nothing at all is one that
throws. -/
def runningStep (choice : Choice) (s : Shared) (a : ActorId) (home : Option Phase)
    (call : Invocation) : Shared × List Frame :=
  match choice with
  | .send target b env => (s, [.send target b (.push env), .turn a home (.running call)])
  | .complete f value failed =>
      (s, [.complete f (.claim value failed), .turn a home (.running call)])
  | .onComplete f k =>
      (s.modifyFuture f fun future => { future with registered := future.registered ++ [k] },
        [.onComplete f k .state, .turn a home (.running call)])
  | .await f => (s, [.turn a home (.awaitState call f)])
  | .returns newState reply =>
      (s.modifyActor a fun actor => { actor with state := newState },
        completeFrames call.future reply false ++ [.turn a home (.next call.budget .high [])])
  | .throws error =>
      (s, completeFrames call.future error true ++ [.turn a home (.next call.budget .high [])])
  | .defect => (s, [.finish a none .load])
  | .record _ | .refused | .shutdown | .proceed => (s, [.turn a home (.running call)])

/-- `future_await` and `addWaiter` in a turn, and the way of a yield up to the
`catch` of the turn. -/
def awaitStep (choice : Choice) (s : Shared) (a : ActorId) (home : Option Phase) :
    TurnPc → Shared × List Frame
  | .awaitState call f =>
      if s.settled f then (s, [.turn a home (.running call)])
      else if choice = .refused then (s, [.turn a home (.running call)])
      else (s, [.turn a home (.awaitSnapshot call f)])
  | .awaitSnapshot call f =>
      (s.modifyActor a fun actor => { actor with snapshot := some [] },
        [.turn a home (.awaitWaiting call f)])
  | .awaitWaiting call f =>
      (s.modifyActor a fun actor => { actor with waitingOn := some f },
        [.turn a home (.waiterState call f)])
  | .waiterState call f =>
      if s.settled f then (s, [.turn a home (.awaitUndo call f)])
      else (s, [.turn a home (.waiterRead call f)])
  | .waiterRead call f => (s, [.turn a home (.waiterCas call f (s.futures f).waiters)])
  | .waiterCas call f cur =>
      if (s.futures f).waiters = cur then
        (s.modifyFuture f fun future => { future with waiters := cur ++ [a] },
          [.turn a home (.waiterRecheck call f)])
      else (s, [.turn a home (.waiterState call f)])
  | .waiterRecheck call f =>
      if s.settled f then (s, [.turn a home (.awaitUndo call f)])
      else (s, [.turn a home (.yielding call f)])
  | .awaitUndo call _ =>
      (s.modifyActor a fun actor => { actor with snapshot := none, waitingOn := none },
        [.turn a home (.running call)])
  | .yielding call f =>
      match choice with
      | .record frame =>
          (s.modifyActor a fun actor => { actor with
            snapshot := actor.snapshot.map (frame :: ·) }, [.turn a home (.yielding call f)])
      | .refused => (s, [.turn a home (.running call)])
      | _ => (s, [.turn a home (.caught call f)])
  | .caught call f =>
      (s.modifyActor a fun actor => { actor with
        turnFuture := if call.future.isNone && call.resumed then actor.turnFuture
          else call.future
        parkedOn := some f }, [.finish a home .park])
  | pc => (s, [.turn a home pc])

/-- `runTurn` and `resumeSuspendedTurn` around the handlers. -/
def turnStep (choice : Choice) (s : Shared) (a : ActorId) (home : Option Phase) :
    TurnPc → Shared × List Frame
  | .start =>
      if (s.actors a).snapshot.isSome then (s, [.turn a home .resumeRead])
      else (s, [.turn a home (.next kBatchSize .high [])])
  | .resumeRead =>
      match (s.actors a).waitingOn with
      | none =>
          (s.modifyActor a fun actor => { actor with
            snapshot := none, waitingOn := none, turnFuture := none },
            [.turn a home (.next kBatchSize .high [])])
      | some f => (s, [.turn a home (.resumeState f (s.actors a).turnFuture)])
  | .resumeState f future =>
      if s.settled f then (s, [.turn a home (.resumeClear f future)])
      else
        (s.modifyActor a fun actor => { actor with parkedOn := some f },
          [.finish a home .park])
  | .resumeClear _ future =>
      (s.modifyActor a fun actor => { actor with
        snapshot := none, waitingOn := none, turnFuture := none, parkedOn := none },
        [.turn a home (.running ⟨future, kBatchSize, true⟩)])
  | .next 0 _ _ => (s, [.finish a home .load])
  | .next (budget + 1) b seen =>
      match (s.actors a).leftover b with
      | env :: _ =>
          (s.modifyActor a fun actor => { actor with
            pendingIdx := Function.update actor.pendingIdx b (actor.pendingIdx b + 1) },
            [.turn a home (.count budget b env)])
      | [] => (s, [.turn a home (.take budget b seen)])
  | .take budget b seen =>
      match (s.actors a).mailbox b with
      | env :: batch =>
          (s.modifyActor a fun actor => { actor with
            mailbox := Function.update actor.mailbox b [] },
            [.turn a home (.store budget b env batch)])
      | [] =>
          match b.next? with
          | some lower => (s, [.turn a home (.next (budget + 1) lower (b :: seen))])
          | none => (s, [.finish a home .load])
  | .store budget b env batch =>
      (s.modifyActor a fun actor => { actor with
        pending := Function.update actor.pending b (env :: batch)
        pendingIdx := Function.update actor.pendingIdx b 1 },
        [.turn a home (.count budget b env)])
  | .count budget b env =>
      ({ s with messages := s.messages + 1 }, [.turn a home (.deliver budget b env)])
  | .deliver budget b env =>
      (s.modifyActor a fun actor => { actor with
        delivered := Function.update actor.delivered b (actor.delivered b ++ [env]) },
        [.turn a home (.running ⟨env.future, budget, false⟩)])
  | .running call => runningStep choice s a home call
  | pc => awaitStep choice s a home pc

def finishStep (s : Shared) (a : ActorId) (home : Option Phase) :
    FinishPc → Shared × List Frame
  | .park =>
      if s.sched a = .claimed then (s.setSched a .suspended, [.finish a home .parkCount])
      else (s, [.finish a home .unpark])
  | .parkCount => ({ s with suspended := s.suspended + 1 }, back home)
  | .unpark => (s.setSched a .claimed, .handoff a (.pendingOf .high) :: back home)
  | .load =>
      if s.sched a = .claimedWake then (s, [.finish a home .demote])
      else (s, [.finish a home (.pendingOf (s.sched a) .high)])
  | .demote =>
      if s.sched a = .claimedWake then
        (s.setSched a .claimed, [.finish a home (.pendingOf .claimed .high)])
      else (s, [.finish a home .load])
  | .pendingOf loaded b =>
      if (s.actors a).leftover b ≠ [] then (s, .handoff a (.pendingOf .high) :: back home)
      else (s, [.finish a home (.mailboxOf loaded b)])
  | .mailboxOf loaded b =>
      if (s.actors a).mailbox b ≠ [] then (s, .handoff a (.pendingOf .high) :: back home)
      else
        match b.next? with
        | some lower => (s, [.finish a home (.pendingOf loaded lower)])
        | none => (s, [.finish a home (.release loaded)])
  | .release loaded =>
      if s.sched a = loaded then (s.setSched a .idle, back home)
      else (s, [.finish a home .load])

def completeStep (s : Shared) (f : FutureId) : CompletePc → Shared × List Frame
  | .claim value failed =>
      if (s.futures f).fstate = .pending then
        (s.modifyFuture f fun future => { future with fstate := .claiming },
          [.complete f (.setValue value failed)])
      else (s, [])
  | .setValue value failed =>
      (s.modifyFuture f fun future =>
        if failed then { future with ferror := some value }
        else { future with fvalue := some value }, [.complete f (.setState failed)])
  | .setState failed =>
      (s.modifyFuture f fun future => { future with
        fstate := if failed then .failure else .success }, [.complete f .readWaiters])
  | .readWaiters => (s, [.complete f (.wake (s.futures f).waiters)])
  | .wake [] => (s, [.continuations f .read])
  | .wake (a :: waiters) => (s, [.resume a .load, .complete f (.wake waiters)])

def continuationsStep (s : Shared) (f : FutureId) : ContinuationsPc → Shared × List Frame
  | .read =>
      if (s.futures f).conts = [] then (s, [])
      else (s, [.continuations f (.take (s.futures f).conts)])
  | .take conts =>
      if (s.futures f).conts = conts then
        (s.modifyFuture f fun future => { future with conts := [] },
          [.continuations f (.runEach conts)])
      else (s, [])
  | .runEach [] => (s, [])
  | .runEach (k :: conts) =>
      (s.modifyFuture f fun future => { future with ran := future.ran ++ [k] },
        [.user, .continuations f (.runEach conts)])

def onCompleteStep (s : Shared) (f : FutureId) (k : Ref) : OnCompletePc → Shared × List Frame
  | .state =>
      if s.settled f then
        (s.modifyFuture f fun future => { future with ran := future.ran ++ [k] }, [.user])
      else (s, [.onComplete f k .read])
  | .read => (s, [.onComplete f k (.cas (s.futures f).conts)])
  | .cas cur =>
      if (s.futures f).conts = cur then
        (s.modifyFuture f fun future => { future with conts := cur ++ [k] },
          [.onComplete f k .recheck])
      else (s, [.onComplete f k .state])
  | .recheck => if s.settled f then (s, [.continuations f .read]) else (s, [])

/-- A program thread or a continuation: it calls the scheduler until it
returns. -/
def userStep (choice : Choice) (s : Shared) : Shared × List Frame :=
  match choice with
  | .send a b env => (s, [.send a b (.push env), .user])
  | .complete f value failed => (s, [.complete f (.claim value failed), .user])
  | .onComplete f k =>
      (s.modifyFuture f fun future => { future with registered := future.registered ++ [k] },
        [.onComplete f k .state, .user])
  | .shutdown => (s, [.shutdown .flag, .user])
  | _ => (s, [])

def shutdownStep (s : Shared) : ShutdownPc → Shared × List Frame
  | .flag => ({ s with shuttingDown := true }, [.shutdown (.release s.pool)])
  | .release 0 => (s, [])
  | .release (left + 1) => ({ s with work := s.work + 1 }, [.shutdown (.release left)])

def frameStep : FrameStep Shared Frame Choice := fun choice s frame =>
  match frame with
  | .send a b pc => sendStep s a b pc
  | .resume a pc => resumeStep s a pc
  | .handoff a pc => handoffStep s a pc
  | .worker pc => workerStep s pc
  | .turn a home pc => turnStep choice s a home pc
  | .finish a home pc => finishStep s a home pc
  | .complete f pc => completeStep s f pc
  | .continuations f pc => continuationsStep s f pc
  | .onComplete f k pc => onCompleteStep s f k pc
  | .user => userStep choice s
  | .shutdown pc => shutdownStep s pc

/-- The scheduler after `ensureStarted`, with the actors and futures the program
is going to use: a worker is at the head of its loop, a program thread has not
called anything yet. -/
def initial (states : ActorId → Ref) (workers programs : Nat) : Machine Shared Frame where
  shared :=
    { actors := fun a => { state := states a }
      futures := fun _ => {}
      ready := fun _ => []
      work := 0
      shuttingDown := false
      pool := workers
      messages := 0
      suspended := 0 }
  threads := List.replicate workers [.worker (.drain .looping .high)] ++
    List.replicate programs [.user]

/-- The machine after a schedule. -/
def reached (states : ActorId → Ref) (workers programs : Nat)
    (schedule : List (Nat × Choice)) : Machine Shared Frame :=
  (initial states workers programs).run frameStep schedule

end ProtoScala.Runtime.ActorScheduler
