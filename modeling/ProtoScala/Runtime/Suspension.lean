import ProtoScala.Library.Simulation
import ProtoScala.Runtime.ExecutionEngine

/-!
# Suspending an actor's handler at an await

An await of a pending future leaves the handler through a C++ exception: every
frame it passes is recorded and the actor parks. Once the future has completed
`resumeFrames` rebuilds the recorded frames from the outermost one inwards. The
reference machine answers the same await in place.

An activation is one entry of the C++ call stack: a frame inside `runFrame`, a
C++ function with work left to do, or a frame of `resumeFrames` that waits for
the frames it is rebuilding. Only the first kind is recorded by a later await and
only the first kind searches its handlers. `suspension_transparent` shows the two
machines alike in every run in which neither difference comes to bear.
-/

namespace ProtoScala.Runtime.Suspension

open ProtoScala.Compiler.Bytecode
open ProtoScala.Runtime.ExecutionEngine
open ProtoScala.Library.Simulation

set_option autoImplicit false

inductive Activation (V N : Type) where
  /-- A frame in `runFrame` at a call; `pending` when it knows where the result goes. -/
  | vm (frame : Frame V) (pending : Bool)
  | native (work : N)
  /-- A frame of `resumeFrames` whose callees are being rebuilt. -/
  | resuming (frame : Frame V)

/-- One record of a suspended chain: where to continue, and the values that were
live below the call in flight. -/
structure SuspendedFrame (V : Type) where
  mod : BytecodeModule
  ip : Nat
  fbase : Nat
  fslots : List V
  deriving DecidableEq

/-- How a pending future is settled: whether the actor was registered as a waiter
before that, the outcome, and the world at the actor's next step. -/
structure Settlement (V W : Type) where
  registered : Bool
  outcome : Except V V
  world : W

inductive Control (V : Type) where
  | running (frame : Frame V)
  | replying (result : Except V V)
  | awaiting (future : V)
  /-- `FutureYield` is leaving the activations. -/
  | yielding (future : V)
  /-- The turn has ended with the actor suspended. -/
  | parked (future : V)
  | resuming (injected : Except V V) (frames : List (SuspendedFrame V))
  | finished (result : Except V V)
  | defect

/-- A handler in the middle of its work; the innermost activation comes first, and
the settlements of the futures it has yet to wait for are given in advance. -/
structure Config (V W N : Type) where
  control : Control V
  activations : List (Activation V N)
  snapshot : Option (List (SuspendedFrame V)) := none
  world : W
  settlements : List (Settlement V W)

variable {V W N : Type}

def appendSuspendedFrame (frame : Frame V) (pendingBase : Nat)
    (snapshot : List (SuspendedFrame V)) : List (SuspendedFrame V) :=
  { mod := frame.mod, ip := frame.ip, fbase := pendingBase
    fslots := frame.live.take pendingBase } :: snapshot

/-- The frame that `resumeFrames` builds from a record. -/
def SuspendedFrame.frame (rec : SuspendedFrame V) : Frame V :=
  { mod := rec.mod, ip := rec.ip, live := rec.fslots.take rec.fbase }

def refusedInNative (P : Platform V W N) : V :=
  P.scalaError "UnsupportedOperationException"
    ("await is not supported inside a native higher-order method (map, foreach, a Future " ++
      "continuation): the call chain cannot be suspended")

def refusedAtInstruction (P : Platform V W N) (mod : BytecodeModule) : V :=
  P.scalaError "UnsupportedOperationException"
    ("await is not supported here: " ++ mod.name ++ " cannot be suspended at this instruction")

def nativeReentryDepth (P : Platform V W N) (activations : List (Activation V N)) : Nat :=
  activations.countP fun
    | .native work => P.native work
    | _ => false

namespace Config

/-- What a C++ function's reply does to the activations. -/
def answer (c : Config V W N) : Reply V W N → Config V W N
  | .answer result w => { c with control := .replying result, world := w }
  | .execute callee work w =>
      { c with
        control := .running callee
        activations := work.map .native ++ c.activations
        world := w }
  | .await future work w =>
      { c with
        control := .awaiting future
        activations := work.map .native ++ c.activations
        world := w }

/-- An exception of a frame in `runFrame`. -/
def raise (c : Config V W N) (frame : Frame V) (value : V) : Config V W N :=
  match frame.catching value with
  | some handling => { c with control := .running handling }
  | none => { c with control := .replying (.error value) }

def resultIn (c : Config V W N) (frame : Frame V) : Except V V → Config V W N
  | .ok v => { c with control := .running (frame.push v) }
  | .error e => c.raise frame e

/-- The call in flight has returned or raised. -/
def reply (P : Platform V W N) (c : Config V W N) (result : Except V V) : Config V W N :=
  match c.activations with
  | [] => { c with control := .finished result }
  | .vm frame _ :: callers => { c with activations := callers }.resultIn frame result
  | .native work :: callers =>
      { c with activations := callers }.answer (P.proceed work result c.world)
  | .resuming frame :: callers =>
      match result with
      | .ok v => { c with control := .running (frame.push v), activations := callers }
      | .error e => { c with control := .replying (.error e), activations := callers }

/-- One activation is left by `FutureYield`. -/
def yield (P : Platform V W N) (c : Config V W N) (future : V) : Config V W N :=
  match c.activations with
  | [] => { c with control := .parked future }
  | .vm frame true :: callers =>
      { c with
        activations := callers
        snapshot := c.snapshot.map (appendSuspendedFrame frame frame.live.length) }
  | .vm frame false :: callers =>
      { c with activations := callers }.raise frame (refusedAtInstruction P frame.mod)
  | .native _ :: callers => { c with activations := callers }
  | .resuming _ :: callers => { c with activations := callers }

/-- `future_await` in an actor's turn; its own native call is the first of the
depth. -/
def await (P : Platform V W N) (c : Config V W N) (future : V) : Config V W N :=
  match P.futureResult future c.world with
  | some result => { c with control := .replying result }
  | none =>
      if 1 + nativeReentryDepth P c.activations > 1 then
        { c with control := .replying (.error (refusedInNative P)) }
      else
        match c.settlements with
        | ⟨false, outcome, w⟩ :: later =>
            { c with control := .replying outcome, world := w, settlements := later }
        | _ => { c with control := .yielding future, snapshot := some [] }

/-- The turn that starts on a suspended frame, once the future has completed. -/
def resumeSuspendedTurn (c : Config V W N) : Config V W N :=
  match c.settlements with
  | [] => c
  | ⟨_, outcome, w⟩ :: later =>
      { c with
        control := .resuming outcome (c.snapshot.getD [])
        snapshot := none
        world := w
        settlements := later }

/-- `resumeFrames` at one record. The innermost one receives the value, or goes on
where `runFrameRaising` finds a handler for the failure; the others wait for the
frames inside them. -/
def resumeFrames (c : Config V W N) (injected : Except V V) :
    List (SuspendedFrame V) → Config V W N
  | [] => { c with control := .defect }
  | [rec] => c.resultIn rec.frame injected
  | rec :: inner =>
      { c with
        control := .resuming injected inner
        activations := .resuming rec.frame :: c.activations }

/-- One instruction of the innermost frame. -/
def dispatch (P : Platform V W N) (c : Config V W N) (frame : Frame V) : Config V W N :=
  match P.runLoop frame c.world with
  | .next frame w => { c with control := .running frame, world := w }
  | .returns v w => { c with control := .replying (.ok v), world := w }
  | .raises frame value w => { c with world := w }.raise frame value
  | .calls caller pending reply =>
      { c with activations := .vm caller pending :: c.activations }.answer reply
  | .defect => { c with control := .defect }

def step (P : Platform V W N) (c : Config V W N) : Config V W N :=
  match c.control with
  | .running frame => c.dispatch P frame
  | .replying result => c.reply P result
  | .awaiting future => c.await P future
  | .yielding future => c.yield P future
  | .parked _ => c.resumeSuspendedTurn
  | .resuming injected frames => c.resumeFrames injected frames
  | .finished _ => c
  | .defect => c

/-- An await that returns the future's value, or raises its failure, in place. -/
def awaitInPlace (P : Platform V W N) (c : Config V W N) (future : V) : Config V W N :=
  match P.futureResult future c.world with
  | some result => { c with control := .replying result }
  | none =>
      if 1 + nativeReentryDepth P c.activations > 1 then
        { c with control := .replying (.error (refusedInNative P)) }
      else
        match c.settlements with
        | [] => c
        | ⟨_, outcome, w⟩ :: later =>
            { c with control := .replying outcome, world := w, settlements := later }

/-- The reference machine. -/
def stepInPlace (P : Platform V W N) (c : Config V W N) : Config V W N :=
  match c.control with
  | .awaiting future => c.awaitInPlace P future
  | _ => c.step P

end Config

/-- The call of a bytecode handler. -/
def start (handler : Frame V) (w : W) (settlements : List (Settlement V W)) : Config V W N :=
  { control := .running handler, activations := [], world := w, settlements := settlements }

/-- A frame that `FutureYield` records. -/
def Activation.recordable : Activation V N → Bool
  | .vm _ pending => pending
  | _ => false

/-- Whether `future_await` throws `FutureYield`. -/
def suspends (P : Platform V W N) (c : Config V W N) (future : V) : Bool :=
  (P.futureResult future c.world).isNone && nativeReentryDepth P c.activations == 0 &&
    c.settlements.head?.all fun settlement => settlement.registered

/-- Where suspension cannot be told from an answer in place: an await suspends
only frames that are all recorded, and no exception passes a rebuilt frame that
has a handler for it. -/
def transparent (P : Platform V W N) (c : Config V W N) : Bool :=
  match c.control with
  | .awaiting future =>
      !suspends P c future || (!c.activations.isEmpty && c.activations.all Activation.recordable)
  | .replying (.error _) =>
      match c.activations with
      | .resuming frame :: _ => (frame.mod.handlerFor (frame.ip - 1)).isNone
      | _ => true
  | _ => true

def Activation.view : Activation V N → Activation V N
  | .resuming frame => .vm frame true
  | activation => activation

/-- The activations that a snapshot stands for, the innermost first. -/
def recorded (frames : List (SuspendedFrame V)) : List (Activation V N) :=
  frames.reverse.map fun rec => .vm rec.frame true

/-- The configuration of the reference machine. -/
def view (c : Config V W N) : Config V W N :=
  let callers := c.activations.map Activation.view
  match c.control with
  | .yielding future | .parked future =>
      { c with
        control := .awaiting future
        activations := recorded (c.snapshot.getD []) ++ callers
        snapshot := none }
  | .resuming injected frames =>
      { c with
        control := .replying injected
        activations := recorded frames ++ callers
        snapshot := none }
  | _ => { c with activations := callers, snapshot := none }

/-- What holds while a suspension is under way. -/
def Invariant (P : Platform V W N) (c : Config V W N) : Prop :=
  match c.control with
  | .yielding future =>
      P.futureResult future c.world = none ∧ (∀ a ∈ c.activations, a.recordable = true) ∧
        ∃ frames, c.snapshot = some frames ∧ (frames ≠ [] ∨ c.activations ≠ [])
  | .parked future =>
      P.futureResult future c.world = none ∧ c.activations = [] ∧
        ∃ frames, c.snapshot = some frames ∧ frames ≠ []
  | .resuming _ frames => frames ≠ []
  | _ => True

/-- The steps left until the reference machine moves. -/
def rank (c : Config V W N) : Nat :=
  match c.control with
  | .awaiting _ => c.activations.length + 2
  | .yielding _ => c.activations.length + 1
  | .resuming _ frames => frames.length
  | _ => 0

/-- No suspension is under way. -/
def Control.ordinary : Control V → Bool
  | .yielding _ | .parked _ | .resuming _ _ => false
  | _ => true

/-- The view where no suspension is under way. -/
def Config.plain (c : Config V W N) : Config V W N :=
  { c with activations := c.activations.map Activation.view, snapshot := none }

theorem view_ordinary {c : Config V W N} (ordinary : c.control.ordinary = true) :
    view c = c.plain := by
  unfold view Config.plain
  split <;> simp_all [Control.ordinary]

theorem invariant_ordinary (P : Platform V W N) {c : Config V W N}
    (ordinary : c.control.ordinary = true) : Invariant P c := by
  unfold Invariant
  split <;> simp_all [Control.ordinary]

/-! ## Steps outside a suspension -/

section Ordinary

variable (P : Platform V W N)

theorem answer_ordinary (c : Config V W N) (reply : Reply V W N) :
    (c.answer reply).control.ordinary = true := by
  cases reply <;> rfl

theorem answer_plain (c : Config V W N) (reply : Reply V W N) :
    (c.answer reply).plain = c.plain.answer reply := by
  cases reply <;> simp [Config.answer, Config.plain, Activation.view]

theorem raise_ordinary (c : Config V W N) (frame : Frame V) (value : V) :
    (c.raise frame value).control.ordinary = true := by
  unfold Config.raise
  split <;> rfl

theorem raise_plain (c : Config V W N) (frame : Frame V) (value : V) :
    (c.raise frame value).plain = c.plain.raise frame value := by
  unfold Config.raise
  split <;> rfl

theorem result_in_ordinary (c : Config V W N) (frame : Frame V) (result : Except V V) :
    (c.resultIn frame result).control.ordinary = true := by
  cases result with
  | ok v => rfl
  | error e => exact raise_ordinary c frame e

theorem result_in_plain (c : Config V W N) (frame : Frame V) (result : Except V V) :
    (c.resultIn frame result).plain = c.plain.resultIn frame result := by
  cases result with
  | ok v => rfl
  | error e => exact raise_plain c frame e

/-- Where the machine was before does not matter to the frame that goes on. -/
theorem result_in_control (c : Config V W N) (control : Control V) (frame : Frame V)
    (result : Except V V) :
    { c with control := control }.resultIn frame result = c.resultIn frame result := by
  cases result with
  | ok v => rfl
  | error e =>
      simp only [Config.resultIn, Config.raise]

theorem dispatch_ordinary (c : Config V W N) (frame : Frame V) :
    (c.dispatch P frame).control.ordinary = true := by
  unfold Config.dispatch
  split
  · rfl
  · rfl
  · exact raise_ordinary _ _ _
  · exact answer_ordinary _ _
  · rfl

theorem dispatch_plain (c : Config V W N) (frame : Frame V) :
    (c.dispatch P frame).plain = c.plain.dispatch P frame := by
  have world : c.plain.world = c.world := rfl
  unfold Config.dispatch
  rw [world]
  cases P.runLoop frame c.world with
  | next frame w => rfl
  | returns v w => rfl
  | raises frame value w => exact raise_plain _ frame value
  | calls caller pending reply => exact answer_plain _ reply
  | defect => rfl

theorem reply_ordinary (c : Config V W N) (result : Except V V) :
    (c.reply P result).control.ordinary = true := by
  unfold Config.reply
  split
  · rfl
  · exact result_in_ordinary _ _ _
  · exact answer_ordinary _ _
  · split <;> rfl

/-- A rebuilt frame takes a value as a frame in `runFrame` does, and passes on an
exception it has no handler for. -/
theorem reply_plain (c : Config V W N) (result : Except V V)
    (unhandled : ∀ frame callers e, c.activations = .resuming frame :: callers →
      result = .error e → frame.mod.handlerFor (frame.ip - 1) = none) :
    (c.reply P result).plain = c.plain.reply P result := by
  obtain ⟨control, activations, snapshot, world, settlements⟩ := c
  cases activations with
  | nil => rfl
  | cons activation callers =>
      cases activation with
      | vm frame pending => exact result_in_plain _ frame result
      | native work => exact answer_plain _ _
      | resuming frame =>
          cases result with
          | ok v => rfl
          | error e =>
              have none := unhandled frame callers e rfl rfl
              simp [Config.reply, Config.plain, Config.resultIn, Config.raise, Frame.catching,
                Activation.view, none]

theorem native_depth_view (activations : List (Activation V N)) :
    nativeReentryDepth P (activations.map Activation.view) = nativeReentryDepth P activations := by
  unfold nativeReentryDepth
  rw [List.countP_map]
  congr 1
  funext activation
  cases activation <;> rfl

theorem await_suspends {c : Config V W N} {future : V} (yields : suspends P c future = true) :
    c.await P future = { c with control := .yielding future, snapshot := some [] } := by
  simp only [suspends, Bool.and_eq_true, Option.isNone_iff_eq_none, beq_iff_eq] at yields
  obtain ⟨⟨pending, shallow⟩, registered⟩ := yields
  unfold Config.await
  rw [pending, shallow]
  cases settled : c.settlements with
  | nil => simp
  | cons settlement later =>
      obtain ⟨first, outcome, w⟩ := settlement
      rw [settled] at registered
      obtain rfl : first = true := by simpa using registered
      simp

theorem await_answers {c : Config V W N} {future : V} (answers : suspends P c future = false) :
    c.await P future = c.awaitInPlace P future ∧
      (c.awaitInPlace P future).control.ordinary = true := by
  unfold Config.await Config.awaitInPlace
  cases pending : P.futureResult future c.world with
  | some result => exact ⟨rfl, rfl⟩
  | none =>
      by_cases deep : 1 + nativeReentryDepth P c.activations > 1
      · simp [deep, Control.ordinary]
      · have shallow : nativeReentryDepth P c.activations = 0 := by omega
        cases settled : c.settlements with
        | nil => simp [suspends, pending, shallow, settled] at answers
        | cons settlement later =>
            obtain ⟨first, outcome, w⟩ := settlement
            obtain rfl : first = false := by
              simpa [suspends, pending, shallow, settled] using answers
            simp [deep, Control.ordinary]

theorem await_in_place_plain (c : Config V W N) (future : V) :
    (c.awaitInPlace P future).plain = c.plain.awaitInPlace P future := by
  have depth : nativeReentryDepth P c.plain.activations = nativeReentryDepth P c.activations :=
    native_depth_view P c.activations
  have world : c.plain.world = c.world := rfl
  have settlements : c.plain.settlements = c.settlements := rfl
  unfold Config.awaitInPlace
  rw [depth, world, settlements]
  split
  · rfl
  · split
    · rfl
    · split <;> rfl

end Ordinary

/-! ## Steps of a suspension -/

section Suspending

variable (P : Platform V W N)

theorem recorded_append (frame : Frame V) (frames : List (SuspendedFrame V))
    (callers : List (Activation V N)) :
    recorded (appendSuspendedFrame frame frame.live.length frames) ++ callers =
      recorded frames ++ .vm frame true :: callers := by
  simp [recorded, appendSuspendedFrame, SuspendedFrame.frame]

theorem recorded_native_depth (frames : List (SuspendedFrame V)) :
    nativeReentryDepth P (recorded frames) = 0 := by
  simp [nativeReentryDepth, recorded, List.countP_eq_zero]

variable {P} {c : Config V W N}

theorem yield_matches {future : V} (invariant : Invariant P c) (yields : c.control = .yielding future) :
    view (c.yield P future) = view c ∧ rank (c.yield P future) < rank c ∧
      Invariant P (c.yield P future) := by
  obtain ⟨control, activations, snapshot, world, settlements⟩ := c
  obtain rfl : control = .yielding future := yields
  obtain ⟨pending, recordable, frames, kept, nonempty⟩ := invariant
  obtain rfl : snapshot = some frames := kept
  cases activations with
  | nil =>
      refine ⟨rfl, Nat.one_pos, pending, rfl, frames, rfl, ?_⟩
      exact nonempty.resolve_right (fun other => other rfl)
  | cons activation callers =>
      cases activation with
      | native work => exact absurd (recordable _ List.mem_cons_self) Bool.false_ne_true
      | resuming frame => exact absurd (recordable _ List.mem_cons_self) Bool.false_ne_true
      | vm frame noted =>
          obtain rfl : noted = true := recordable _ List.mem_cons_self
          refine ⟨?_, Nat.lt_succ_self _, pending, ?_, _, rfl, .inl (List.cons_ne_nil _ _)⟩
          · simp only [Config.yield, view, Option.map_some, Option.getD_some, recorded_append,
              List.map_cons, Activation.view]
          · exact fun a member => recordable a (List.mem_cons_of_mem _ member)

theorem parked_matches {future : V} (invariant : Invariant P c) (parks : c.control = .parked future) :
    view c.resumeSuspendedTurn = (view c).stepInPlace P ∧ Invariant P c.resumeSuspendedTurn := by
  obtain ⟨control, activations, snapshot, world, settlements⟩ := c
  obtain rfl : control = .parked future := parks
  obtain ⟨pending, rfl, frames, rfl, nonempty⟩ := invariant
  have depth := recorded_native_depth P frames
  dsimp only at pending
  cases settlements with
  | nil =>
      refine ⟨?_, pending, rfl, frames, rfl, nonempty⟩
      simp [Config.resumeSuspendedTurn, view, Config.stepInPlace, Config.awaitInPlace, pending,
        depth]
  | cons settlement later =>
      refine ⟨?_, nonempty⟩
      simp [Config.resumeSuspendedTurn, view, Config.stepInPlace, Config.awaitInPlace, pending,
        depth]

theorem resume_matches {injected : Except V V} {frames : List (SuspendedFrame V)}
    (resumes : c.control = .resuming injected frames) (nonempty : frames ≠ []) :
    Matches (Config.step P) (Config.stepInPlace P) view rank c ∧ Invariant P (c.step P) := by
  have steps : c.step P = c.resumeFrames injected frames := by
    unfold Config.step
    rw [resumes]
  unfold Matches
  rw [steps]
  obtain ⟨control, activations, snapshot, world, settlements⟩ := c
  obtain rfl : control = .resuming injected frames := resumes
  match frames, nonempty with
  | [rec], _ =>
      have ordinary := result_in_ordinary
        (⟨.resuming injected [rec], activations, snapshot, world, settlements⟩ : Config V W N)
        rec.frame injected
      refine ⟨.inl ?_, invariant_ordinary P ordinary⟩
      simp only [Config.resumeFrames]
      rw [view_ordinary ordinary, result_in_plain]
      exact (result_in_control _ (.replying injected) rec.frame injected).symm
  | rec :: inner :: more, _ =>
      refine ⟨.inr ⟨?_, ?_⟩, List.cons_ne_nil inner more⟩
      · simp [Config.resumeFrames, view, recorded, Activation.view]
      · simp [Config.resumeFrames, rank]

end Suspending

/-! ## Runs -/

section Runs

variable {P : Platform V W N} {c : Config V W N}

/-- One step that meets the condition, against the reference machine. -/
theorem step_matches (invariant : Invariant P c) (met : transparent P c = true) :
    Matches (Config.step P) (Config.stepInPlace P) view rank c ∧ Invariant P (c.step P) := by
  cases now : c.control with
  | running frame =>
      have ordinary := dispatch_ordinary P c frame
      have shown : view c = c.plain := view_ordinary (by rw [now]; rfl)
      have steps : c.step P = c.dispatch P frame := by simp only [Config.step, now]
      refine ⟨.inl ?_, by rw [steps]; exact invariant_ordinary P ordinary⟩
      rw [steps, view_ordinary ordinary, shown, dispatch_plain]
      simp only [Config.stepInPlace, Config.step, Config.plain, now]
  | replying result =>
      have ordinary := reply_ordinary P c result
      have shown : view c = c.plain := view_ordinary (by rw [now]; rfl)
      have steps : c.step P = c.reply P result := by simp only [Config.step, now]
      have unhandled : ∀ frame callers e, c.activations = .resuming frame :: callers →
          result = .error e → frame.mod.handlerFor (frame.ip - 1) = none := by
        rintro frame callers e inside rfl
        simpa [transparent, now, inside] using met
      refine ⟨.inl ?_, by rw [steps]; exact invariant_ordinary P ordinary⟩
      rw [steps, view_ordinary ordinary, shown, reply_plain P c result unhandled]
      simp only [Config.stepInPlace, Config.step, Config.plain, now]
  | awaiting future =>
      have shown : view c = c.plain := view_ordinary (by rw [now]; rfl)
      have steps : c.step P = c.await P future := by simp only [Config.step, now]
      cases yields : suspends P c future with
      | false =>
          obtain ⟨same, ordinary⟩ := await_answers P yields
          refine ⟨.inl ?_, by rw [steps, same]; exact invariant_ordinary P ordinary⟩
          rw [steps, same, view_ordinary ordinary, shown, await_in_place_plain]
          simp only [Config.stepInPlace, Config.plain, now]
      | true =>
          have stacked : c.activations ≠ [] ∧ ∀ a ∈ c.activations, a.recordable = true := by
            simpa [transparent, now, yields] using met
          have pending : P.futureResult future c.world = none := by
            simp only [suspends, Bool.and_eq_true, Option.isNone_iff_eq_none] at yields
            exact yields.1.1
          unfold Matches
          rw [steps, await_suspends P yields]
          refine ⟨.inr ⟨?_, ?_⟩, pending, stacked.2, [], rfl, .inr stacked.1⟩
          · rw [shown]
            simp only [view, Config.plain, recorded, Option.getD_some, List.reverse_nil,
              List.map_nil, List.nil_append, now]
          · simp only [rank, now]
            omega
  | yielding future =>
      obtain ⟨same, lower, later⟩ := yield_matches invariant now
      have steps : c.step P = c.yield P future := by simp only [Config.step, now]
      unfold Matches
      rw [steps]
      exact ⟨.inr ⟨same, lower⟩, later⟩
  | parked future =>
      obtain ⟨moves, later⟩ := parked_matches invariant now
      have steps : c.step P = c.resumeSuspendedTurn := by simp only [Config.step, now]
      unfold Matches
      rw [steps]
      exact ⟨.inl moves, later⟩
  | resuming injected frames =>
      have nonempty : frames ≠ [] := by simpa [Invariant, now] using invariant
      exact resume_matches now nonempty
  | finished result =>
      have steps : c.step P = c := by simp only [Config.step, now]
      have shown : view c = c.plain := view_ordinary (by rw [now]; rfl)
      refine ⟨.inl ?_, by rw [steps]; exact invariant⟩
      rw [steps, shown]
      simp only [Config.stepInPlace, Config.step, Config.plain, now]
  | defect =>
      have steps : c.step P = c := by simp only [Config.step, now]
      have shown : view c = c.plain := view_ordinary (by rw [now]; rfl)
      refine ⟨.inl ?_, by rw [steps]; exact invariant⟩
      rw [steps, shown]
      simp only [Config.stepInPlace, Config.step, Config.plain, now]

end Runs

def run (P : Platform V W N) (n : Nat) (c : Config V W N) : Config V W N :=
  (Config.step P)^[n] c

def runInPlace (P : Platform V W N) (n : Nat) (c : Config V W N) : Config V W N :=
  (Config.stepInPlace P)^[n] c

/-- The handler has returned or failed, with the world it leaves behind. -/
def Config.Finished (result : Except V V) (w : W) (c : Config V W N) : Prop :=
  c.control = .finished result ∧ c.world = w

theorem finished_view {P : Platform V W N} (result : Except V V) (w : W) (c : Config V W N)
    (_ : Invariant P c) : c.Finished result w ↔ (view c).Finished result w := by
  unfold view Config.Finished
  split <;> simp_all

theorem suspension_transparent (P : Platform V W N) (handler : Frame V) (w : W)
    (settlements : List (Settlement V W))
    (met : ∀ n, transparent P (run P n (start handler w settlements)) = true) :
    (∀ n, ∃ m ≤ n, view (run P n (start handler w settlements)) =
      runInPlace P m (start handler w settlements)) ∧
    (∀ m, ∃ n, m ≤ n ∧ view (run P n (start handler w settlements)) =
      runInPlace P m (start handler w settlements)) ∧
    ∀ result w', (∃ n, (run P n (start handler w settlements)).Finished result w') ↔
      ∃ m, (runInPlace P m (start handler w settlements)).Finished result w' := by
  have keeps : ∀ c, Invariant P c → transparent P c = true → Invariant P (c.step P) :=
    fun c invariant met => (step_matches invariant met).2
  have matched : ∀ c, Invariant P c → transparent P c = true →
      Matches (Config.step P) (Config.stepInPlace P) view rank c :=
    fun c invariant met => (step_matches invariant met).1
  have initial : Invariant P (start handler w settlements) := trivial
  refine ⟨fun n => ?_, fun m => ?_, fun result w' => ?_⟩
  · exact view_run keeps matched initial fun i _ => met i
  · exact run_view keeps matched initial met m
  · exact halts_iff keeps matched initial met (finished_view result w')

theorem step_finished {P : Platform V W N} {c : Config V W N} {result : Except V V} {w : W}
    (finished : c.Finished result w) : c.step P = c := by
  simp only [Config.step, finished.1]

theorem met_of_finished {P : Platform V W N} {c : Config V W N} {result : Except V V} {w : W}
    {k : Nat} (finished : (run P k c).Finished result w)
    (before : ∀ i < k, transparent P (run P i c) = true) (n : Nat) :
    transparent P (run P n c) = true := by
  rcases Nat.lt_or_ge n k with early | late
  · exact before n early
  · have same : run P n c = run P k c := iterate_fixed (step_finished finished) late
    rw [same]
    simp only [transparent, finished.1]

/-- A run that has finished does not finish otherwise. -/
theorem finished_unique {P : Platform V W N} {c : Config V W N} {result result' : Except V V}
    {w w' : W} {n n' : Nat} (finished : (run P n c).Finished result w)
    (finished' : (run P n' c).Finished result' w') : result = result' ∧ w = w' := by
  have same : run P n c = run P n' c := by
    rcases Nat.le_total n n' with early | late
    · exact (iterate_fixed (step_finished finished) early).symm
    · exact iterate_fixed (step_finished finished') late
  rw [same] at finished
  exact ⟨Control.finished.inj (finished.1.symm.trans finished'.1),
    finished.2.symm.trans finished'.2⟩

/-! ## Runs in which a suspension shows -/

inductive Value where
  | unit | future
  | int (n : Nat)
  | function (mod : BytecodeModule)
  deriving DecidableEq

def Value.number : Value → Nat
  | .int n => n
  | _ => 0

def symbol (name : String) : Instr :=
  .pushGlobal { kind := .symbol, sval := name }

def integer (n : Int64) : Instr :=
  .pushConst { kind := .int, ival := n }

def select (name : String) (argc : UInt32) : Instr :=
  .send { kind := .sendSite, sval := name, argc := argc }

/-- Function values, one pending future, and `println` of a number: the world is
what has been printed. -/
def printing (globals : String → Value) : Platform Value (List Nat) Empty where
  unit := .unit
  null := .unit
  trueValue := .int 1
  falseValue := .int 0
  truthy v _ := .ok (v == .int 1)
  primitive p _ w :=
    match p with
    | .constantOf c => (.ok (.int c.ival.toNatClampNeg), w)
    | .pushGlobal name => (.ok (globals name.sval), w)
    | _ => (.ok .unit, w)
  ownAttribute v _ _ := v
  uncons v _ := (v, v)
  failure _ v w := (v, w)
  scalaError _ _ := .unit
  isZeroArgThunk _ _ := false
  operate _ _ w := .answer (.ok .unit) w
  perform
    | .call _, .function mod :: _, w =>
        .execute ⟨mod, 0, List.replicate mod.localCount .unit⟩ [] w
    | .send site, v :: arguments, w =>
        if site.sval = "await" then .await v [] w
        else .answer (.ok .unit) (w ++ arguments.map Value.number)
    | _, _, w => .answer (.ok .unit) w
  proceed work _ _ := work.elim
  native work := work.elim
  futureResult _ _ := none

/-- The future completes with `n` after the actor has parked. -/
def arrives (n : Nat) (printed : List Nat) : Settlement Value (List Nat) :=
  { registered := true, outcome := .ok (.int n), world := printed }

/-- `def inner = { future.await; throw 9 }` -/
def awaitThenThrow : BytecodeModule :=
  { name := "inner", arity := 0, localCount := 0
    code := [symbol "future", select "await" 0, .pop, integer 9, .throw] }

/-- `try inner catch { case _ => 7 }` -/
def catching : BytecodeModule :=
  { name := "handler", arity := 0, localCount := 1
    code := [symbol "inner", .call 0, .ret, integer 7, .ret]
    handlers := [⟨0, 2, 3, 0, 0, .catch⟩] }

/-- `def inner = { future.await; future.await }` -/
def awaitTwice : BytecodeModule :=
  { name := "inner", arity := 0, localCount := 0
    code := [symbol "future", select "await" 0, .pop, symbol "future", select "await" 0, .ret] }

/-- `inner; println(3); 7` -/
def printing7 : BytecodeModule :=
  { name := "handler", arity := 0, localCount := 0
    code := [symbol "inner", .call 0, .pop, symbol "console", integer 3, select "println" 1, .pop,
      integer 7, .ret] }

def calling (inner : BytecodeModule) : Platform Value (List Nat) Empty :=
  printing fun name => if name = "inner" then .function inner else .future

def entering (handler : BytecodeModule) (settlements : List (Settlement Value (List Nat))) :
    Config Value (List Nat) Empty :=
  start ⟨handler, 0, List.replicate handler.localCount .unit⟩ [] settlements

/-- The outer frame's `catch` misses the exception of a resumed frame, and a
second await in a resumed frame loses the frame that called it. -/
theorem suspension_not_transparent :
    ¬ ((∃ n, (run (calling awaitThenThrow) n (entering catching [arrives 5 []])).Finished
          (.ok (.int 7)) []) ↔
        ∃ m, (runInPlace (calling awaitThenThrow) m (entering catching [arrives 5 []])).Finished
          (.ok (.int 7)) []) ∧
    ¬ ((∃ n, (run (calling awaitTwice) n (entering printing7 [arrives 5 [], arrives 6 []])).Finished
          (.ok (.int 7)) [3]) ↔
        ∃ m, (runInPlace (calling awaitTwice) m
          (entering printing7 [arrives 5 [], arrives 6 []])).Finished (.ok (.int 7)) [3]) := by
  have uncaught : (run (calling awaitThenThrow) 20 (entering catching [arrives 5 []])).Finished
      (.error (.int 9)) [] := ⟨rfl, rfl⟩
  have lost : (run (calling awaitTwice) 40
      (entering printing7 [arrives 5 [], arrives 6 []])).Finished (.ok (.int 6)) [] := ⟨rfl, rfl⟩
  constructor
  · intro alike
    obtain ⟨n, finished⟩ := alike.mpr ⟨20, rfl, rfl⟩
    exact absurd (finished_unique finished uncaught).1 (by decide)
  · intro alike
    obtain ⟨n, finished⟩ := alike.mpr ⟨40, rfl, rfl⟩
    exact absurd (finished_unique finished lost).1 (by decide)

/-- `def inner = future.await` -/
def awaitOnce : BytecodeModule :=
  { name := "inner", arity := 0, localCount := 0
    code := [symbol "future", select "await" 0, .ret] }

/-- `inner; println(3); future.await` -/
def awaitAgain : BytecodeModule :=
  { name := "handler", arity := 0, localCount := 0
    code := [symbol "inner", .call 0, .pop, symbol "console", integer 3, select "println" 1, .pop,
      symbol "future", select "await" 0, .ret] }

theorem suspension_transparent_two_awaits :
    (∀ n, transparent (calling awaitOnce)
      (run (calling awaitOnce) n (entering awaitAgain [arrives 5 [], arrives 6 [3]])) = true) ∧
    ∃ m, (runInPlace (calling awaitOnce) m
      (entering awaitAgain [arrives 5 [], arrives 6 [3]])).Finished (.ok (.int 6)) [3] := by
  have finished : (run (calling awaitOnce) 40
      (entering awaitAgain [arrives 5 [], arrives 6 [3]])).Finished (.ok (.int 6)) [3] :=
    ⟨rfl, rfl⟩
  have met := met_of_finished finished (by decide)
  exact ⟨met, ((suspension_transparent (calling awaitOnce) _ [] _ met).2.2 _ _).mp ⟨40, finished⟩⟩

end ProtoScala.Runtime.Suspension
