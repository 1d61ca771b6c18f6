import ProtoScala.Runtime.ExecutionEngine

/-!
# Runs of one frame

`Outcome` is how an evaluation ends: with a value, by raising, by returning from
the method around it, or never. An `Engine` is a platform together with the way
its calls end, so that a call is one step of the frame that makes it.

`Exec` follows a frame to the points where its postcondition lets it stop. The
compiled code of a construct is then described by what it needs to hold at those
points, and one rule per instruction moves the frame on.
-/

namespace ProtoScala.Runtime.FrameExecution

open ProtoScala.Compiler.Bytecode
open ProtoScala.Compiler.ConstantPool (Const)
open ProtoScala.Runtime.ExecutionEngine

set_option autoImplicit false

inductive Outcome (V S α : Type) where
  | done (a : α) (s : S)
  | raised (value : V) (s : S)
  | returned (value : V) (s : S)
  | diverged

def Outcome.value {V S α : Type} : Outcome V S α → Option α
  | .done a _ => some a
  | _ => none

theorem outcome_value {V S α : Type} {out : Outcome V S α} {a : α} (valued : out.value = some a) :
    ∃ s, out = .done a s := by
  cases out with
  | done b s =>
      obtain rfl := Option.some.inj valued
      exact ⟨s, rfl⟩
  | _ => cases valued

/-- An evaluation in a state. -/
def Eval (V S α : Type) : Type := S → Outcome V S α

variable {V S W N α β : Type}

def Eval.bind (x : Eval V S α) (f : α → Eval V S β) : Eval V S β := fun s =>
  match x s with
  | .done a s => f a s
  | .raised value s => .raised value s
  | .returned value s => .returned value s
  | .diverged => .diverged

instance : Monad (Eval V S) where
  pure a := fun s => .done a s
  bind := Eval.bind

theorem bind_pure_self (x : Eval V S α) : x.bind (fun a => pure a) = x := by
  funext s
  unfold Eval.bind
  cases x s <;> rfl

theorem bind_bind {γ : Type} (x : Eval V S α) (f : α → Eval V S β) (g : β → Eval V S γ) :
    (x.bind f).bind g = x.bind fun a => (f a).bind g := by
  funext s
  unfold Eval.bind
  cases x s <;> rfl

instance : LawfulMonad (Eval V S) :=
  LawfulMonad.mk' _ bind_pure_self (fun _ _ => rfl) bind_bind

/-- What is asked of the ends of an evaluation. -/
structure Ends (V S : Type) where
  raises : V → S → Prop
  returns : V → S → Prop
  diverges : Prop

/-- Every end of an evaluation is as asked. -/
def Outcome.Follows (ends : Ends V S) (k : α → S → Prop) : Outcome V S α → Prop
  | .done a s => k a s
  | .raised value s => ends.raises value s
  | .returned value s => ends.returns value s
  | .diverged => ends.diverges

@[simp] theorem follows_pure (ends : Ends V S) (k : α → S → Prop) (a : α) (s : S) :
    ((pure a : Eval V S α) s).Follows ends k ↔ k a s := Iff.rfl

@[simp] theorem follows_bind (ends : Ends V S) (k : β → S → Prop) (x : Eval V S α)
    (f : α → Eval V S β) (s : S) :
    ((x >>= f) s).Follows ends k ↔ (x s).Follows ends fun a s => (f a s).Follows ends k := by
  change (Eval.bind x f s).Follows ends k ↔ _
  unfold Eval.bind
  cases x s <;> rfl

theorem follows_mono {ends ends' : Ends V S} {k k' : α → S → Prop} {out : Outcome V S α}
    (follows : out.Follows ends k) (done : ∀ a s, k a s → k' a s)
    (raised : ∀ value s, ends.raises value s → ends'.raises value s)
    (returned : ∀ value s, ends.returns value s → ends'.returns value s)
    (diverged : ends.diverges → ends'.diverges) : out.Follows ends' k' := by
  cases out with
  | done a s => exact done a s follows
  | raised value s => exact raised value s follows
  | returned value s => exact returned value s follows
  | diverged => exact diverged follows

/-- A platform and the end of each of its calls. A `MatchError` is always
thrown. -/
structure Engine (V W N : Type) where
  platform : Platform V W N
  finish : Reply V W N → Outcome V W V
  match_error_throws : ∀ v w r w', finish (platform.operate .matchError [v] w) ≠ .done r w'

namespace Engine

def primitive (M : Engine V W N) (p : Primitive) (operands : List V) : Eval V W V := fun w =>
  match M.platform.primitive p operands w with
  | (.ok v, w) => .done v w
  | (.error e, w) => .raised e w

def truthy (M : Engine V W N) (v : V) : Eval V W Bool := fun w =>
  match M.platform.truthy v w with
  | .ok b => .done b w
  | .error e => .raised e w

def operate (M : Engine V W N) (operator : Operator) (operands : List V) : Eval V W V := fun w =>
  M.finish (M.platform.operate operator operands w)

def perform (M : Engine V W N) (request : Request) (operands : List V) : Eval V W V := fun w =>
  M.finish (M.platform.perform request operands w)

end Engine

/-- A frame of a module between two instructions. -/
structure Point (V W : Type) where
  pc : Nat
  live : List V
  world : W
  deriving DecidableEq

/-- One pass of the dispatch loop, its calls included. -/
inductive Pass (V W : Type) where
  | moved (next : Point V W)
  | raised (live : List V) (value : V) (w : W)
  | returned (value : V) (w : W)
  | diverged
  | defect

def Point.frame (mod : BytecodeModule) (point : Point V W) : Frame V :=
  { mod := mod, ip := point.pc, live := point.live }

def Engine.pass (M : Engine V W N) (mod : BytecodeModule) (point : Point V W) : Pass V W :=
  match M.platform.runLoop (point.frame mod) point.world with
  | .next frame w => .moved ⟨frame.ip, frame.live, w⟩
  | .returns v w => .returned v w
  | .raises frame value w => .raised frame.live value w
  | .calls caller _ reply =>
      match M.finish reply with
      | .done v w => .moved ⟨caller.ip, caller.live ++ [v], w⟩
      | .raised value w => .raised caller.live value w
      | .returned value w => .returned value w
      | .diverged => .diverged
  | .defect => .defect

/-- Where a run may stop: at a point, with the instruction at a point raising, by
a return, or in a call that never ends. -/
structure Post (V W : Type) where
  stops : Point V W → Prop
  raises : Point V W → V → Prop
  returns : V → W → Prop
  diverges : Prop

/-- The frame runs from a point until its postcondition lets it stop. -/
inductive Exec (M : Engine V W N) (mod : BytecodeModule) (post : Post V W) : Point V W → Prop where
  | stop {point : Point V W} (stops : post.stops point) : Exec M mod post point
  | step {point next : Point V W} (moves : M.pass mod point = .moved next)
      (rest : Exec M mod post next) : Exec M mod post point
  | raise {point : Point V W} {live : List V} {value : V} {w : W}
      (raised : M.pass mod point = .raised live value w)
      (raises : post.raises ⟨point.pc, live, w⟩ value) : Exec M mod post point
  | handle {point : Point V W} {live : List V} {value : V} {w : W} {h : Handler}
      (raised : M.pass mod point = .raised live value w)
      (found : mod.handlerFor point.pc = some h)
      (rest : Exec M mod post ⟨h.handlerPc,
        (live.set h.slot value).take (mod.stackBase + h.stackDepth), w⟩) : Exec M mod post point
  | return {point : Point V W} {value : V} {w : W}
      (returned : M.pass mod point = .returned value w)
      (returns : post.returns value w) : Exec M mod post point
  | diverge {point : Point V W} (diverged : M.pass mod point = .diverged)
      (diverges : post.diverges) : Exec M mod post point

/-- The ends of an operation of the instruction at `pc`. -/
def Post.ends (post : Post V W) (pc : Nat) (live : List V) : Ends V W where
  raises value w := post.raises ⟨pc, live, w⟩ value
  returns := post.returns
  diverges := post.diverges

/-! ## One rule per instruction -/

section Rules

variable {M : Engine V W N} {mod : BytecodeModule} {post : Post V W} {pc : Nat} {live : List V}
  {w : W}

theorem exec_push_local {slot : Nat} (fetched : mod.code[pc]? = some (.pushLocal slot))
    (rest : Exec M mod post ⟨pc + 1, live ++ [live.getD slot M.platform.null], w⟩) :
    Exec M mod post ⟨pc, live, w⟩ := by
  refine .step ?_ rest
  simp [Engine.pass, Platform.runLoop, Point.frame, fetched, Frame.jump, Frame.push, Platform.slot]

theorem exec_store_local {slot : Nat} {v : V} (fetched : mod.code[pc]? = some (.storeLocal slot))
    (rest : Exec M mod post ⟨pc + 1, live.set slot v, w⟩) :
    Exec M mod post ⟨pc, live ++ [v], w⟩ := by
  refine .step ?_ rest
  simp [Engine.pass, Platform.runLoop, Point.frame, fetched, Frame.jump, Frame.drop, Frame.store,
    Platform.operand]

theorem exec_pop {v : V} (fetched : mod.code[pc]? = some .pop)
    (rest : Exec M mod post ⟨pc + 1, live, w⟩) : Exec M mod post ⟨pc, live ++ [v], w⟩ := by
  refine .step ?_ rest
  simp [Engine.pass, Platform.runLoop, Point.frame, fetched, Frame.jump, Frame.drop]

theorem exec_dup {v : V} (fetched : mod.code[pc]? = some .dup)
    (rest : Exec M mod post ⟨pc + 1, live ++ [v] ++ [v], w⟩) :
    Exec M mod post ⟨pc, live ++ [v], w⟩ := by
  refine .step ?_ rest
  simp [Engine.pass, Platform.runLoop, Point.frame, fetched, Frame.jump, Frame.push,
    Platform.operand]

theorem exec_jump {offset : Nat} (fetched : mod.code[pc]? = some (.jump offset))
    (rest : Exec M mod post ⟨pc + 1 + offset, live, w⟩) : Exec M mod post ⟨pc, live, w⟩ := by
  refine .step ?_ rest
  simp [Engine.pass, Platform.runLoop, Point.frame, fetched, Frame.jump]

theorem exec_return {v : V} (fetched : mod.code[pc]? = some .ret) (returns : post.returns v w) :
    Exec M mod post ⟨pc, live ++ [v], w⟩ := by
  refine .return ?_ returns
  simp [Engine.pass, Platform.runLoop, Point.frame, fetched, Frame.jump, Platform.operand]

theorem exec_rethrow {slot : Nat} (fetched : mod.code[pc]? = some (.rethrow slot))
    {value : V} {w' : W}
    (fails : M.platform.failure .rethrow (live.getD slot M.platform.null) w = (value, w'))
    (raises : post.raises ⟨pc, live, w'⟩ value) : Exec M mod post ⟨pc, live, w⟩ := by
  refine .raise ?_ raises
  simp only [Engine.pass, Platform.runLoop, Point.frame, fetched, Frame.jump, Platform.fail,
    Platform.slot, fails]

theorem exec_uncons {v : V} (fetched : mod.code[pc]? = some .uncons)
    (rest : Exec M mod post ⟨pc + 1, live ++ [(M.platform.uncons v w).1] ++
      [(M.platform.uncons v w).2], w⟩) : Exec M mod post ⟨pc, live ++ [v], w⟩ := by
  refine .step ?_ rest
  simp [Engine.pass, Platform.runLoop, Point.frame, fetched, Frame.jump, Frame.push, Frame.drop,
    Platform.operand]

theorem exec_unapply_fields {keys : Const} {v : V}
    (fetched : mod.code[pc]? = some (.unapplyFields keys))
    (rest : Exec M mod post ⟨pc + 1, live ++ keys.names.map fun key =>
      M.platform.ownAttribute v key w, w⟩) : Exec M mod post ⟨pc, live ++ [v], w⟩ := by
  refine .step ?_ rest
  simp [Engine.pass, Platform.runLoop, Point.frame, fetched, Frame.jump, Frame.drop,
    Platform.operand]

/-- An instruction that computes one value. -/
theorem exec_compute {point : Point V W} (frame : Frame V) (place : V → Frame V) {p : Primitive}
    {operands : List V}
    (runs : M.platform.runLoop (point.frame mod) point.world =
      M.platform.compute frame p operands point.world place)
    (follows : (M.primitive p operands point.world).Follows (post.ends point.pc frame.live)
      fun v w => Exec M mod post ⟨(place v).ip, (place v).live, w⟩) : Exec M mod post point := by
  unfold Engine.primitive at follows
  unfold Platform.compute at runs
  generalize M.platform.primitive p operands point.world = result at runs follows
  obtain ⟨outcome, w⟩ := result
  cases outcome with
  | ok v => exact .step (by simp only [Engine.pass, runs]) follows
  | error e => exact .raise (by simp only [Engine.pass, runs]) follows

/-- An instruction that branches on the value on top. -/
theorem exec_branch {v : V} (frame : Frame V) (target : Bool → Frame V)
    (top : frame.live = live ++ [v])
    (runs : M.platform.runLoop ⟨mod, pc, live ++ [v]⟩ w = M.platform.branch frame w target)
    (follows : (M.truthy v w).Follows (post.ends pc live)
      fun b w => Exec M mod post ⟨(target b).ip, (target b).live, w⟩) :
    Exec M mod post ⟨pc, live ++ [v], w⟩ := by
  have operand : M.platform.operand frame 1 = v := by simp [Platform.operand, top]
  have dropped : (frame.drop 1).live = live := by simp [Frame.drop, top]
  unfold Engine.truthy at follows
  unfold Platform.branch at runs
  rw [operand] at runs
  generalize M.platform.truthy v w = outcome at runs follows
  cases outcome with
  | ok b => exact .step (by simp only [Engine.pass, Point.frame, runs]) follows
  | error e => exact .raise (by simp only [Engine.pass, Point.frame, runs, dropped]) follows

/-- An instruction that calls. -/
theorem exec_call {point : Point V W} {caller : Frame V} {pending : Bool} {reply : Reply V W N}
    (runs : M.platform.runLoop (point.frame mod) point.world = .calls caller pending reply)
    (follows : (M.finish reply).Follows (post.ends point.pc caller.live)
      fun v w => Exec M mod post ⟨caller.ip, caller.live ++ [v], w⟩) : Exec M mod post point := by
  cases ends : M.finish reply with
  | done v w =>
      rw [ends] at follows
      exact .step (by simp only [Engine.pass, runs, ends]) follows
  | raised value w =>
      rw [ends] at follows
      exact .raise (by simp only [Engine.pass, runs, ends]) follows
  | returned value w =>
      rw [ends] at follows
      exact .return (by simp only [Engine.pass, runs, ends]) follows
  | diverged =>
      rw [ends] at follows
      exact .diverge (by simp only [Engine.pass, runs, ends]) follows

theorem top_append (mod : BytecodeModule) (pc : Nat) (live operands : List V) :
    (⟨mod, pc, live ++ operands⟩ : Frame V).top operands.length = operands := by
  simp [Frame.top]

theorem drop_append (mod : BytecodeModule) (pc : Nat) (live operands : List V) :
    (⟨mod, pc, live ++ operands⟩ : Frame V).drop operands.length = ⟨mod, pc, live⟩ := by
  simp [Frame.drop]

theorem exec_push_const {c : Const} (fetched : mod.code[pc]? = some (.pushConst c))
    (follows : (M.primitive (.constantOf c) [] w).Follows (post.ends pc live)
      fun v w => Exec M mod post ⟨pc + 1, live ++ [v], w⟩) : Exec M mod post ⟨pc, live, w⟩ := by
  refine exec_compute ⟨mod, pc + 1, live⟩ (Frame.push ⟨mod, pc + 1, live⟩) ?_ follows
  simp only [Platform.runLoop, Point.frame, fetched, Frame.jump]

theorem exec_push_global {symbol : Const} (fetched : mod.code[pc]? = some (.pushGlobal symbol))
    (follows : (M.primitive (.pushGlobal symbol) [] w).Follows (post.ends pc live)
      fun v w => Exec M mod post ⟨pc + 1, live ++ [v], w⟩) : Exec M mod post ⟨pc, live, w⟩ := by
  refine exec_compute ⟨mod, pc + 1, live⟩ (Frame.push ⟨mod, pc + 1, live⟩) ?_ follows
  simp only [Platform.runLoop, Point.frame, fetched, Frame.jump]

theorem exec_push_cell {slot : Nat} (fetched : mod.code[pc]? = some (.pushCell slot))
    (follows : (M.primitive .cellGet [live.getD slot M.platform.null] w).Follows (post.ends pc live)
      fun v w => Exec M mod post ⟨pc + 1, live ++ [v], w⟩) : Exec M mod post ⟨pc, live, w⟩ := by
  refine exec_compute ⟨mod, pc + 1, live⟩ (Frame.push ⟨mod, pc + 1, live⟩) ?_ follows
  simp only [Platform.runLoop, Point.frame, fetched, Frame.jump, Platform.slot]

/-- A test of the value on top. -/
theorem exec_test {v : V} {p : Primitive}
    (fetched : (∃ code, p = .testType code ∧ mod.code[pc]? = some (.testType code)) ∨
      ∃ key, p = .testProto key ∧ mod.code[pc]? = some (.testProto key))
    (follows : (M.primitive p [v] w).Follows (post.ends pc (live ++ [v]))
      fun r w => Exec M mod post ⟨pc + 1, live ++ [r], w⟩) :
    Exec M mod post ⟨pc, live ++ [v], w⟩ := by
  have top : (⟨mod, pc + 1, live ++ [v]⟩ : Frame V).top 1 = [v] := top_append mod _ live [v]
  have rest : (⟨mod, pc + 1, live ++ [v]⟩ : Frame V).drop 1 = ⟨mod, pc + 1, live⟩ :=
    drop_append mod _ live [v]
  refine exec_compute ⟨mod, pc + 1, live ++ [v]⟩ (Frame.push ⟨mod, pc + 1, live⟩) ?_ follows
  rcases fetched with ⟨code, rfl, fetched⟩ | ⟨key, rfl, fetched⟩ <;>
    simp only [Platform.runLoop, Point.frame, fetched, Frame.jump, top, rest]

theorem exec_jump_if_false {v : V} {offset : Nat}
    (fetched : mod.code[pc]? = some (.jumpIfFalse offset))
    (follows : (M.truthy v w).Follows (post.ends pc live) fun b w =>
      Exec M mod post ⟨if b then pc + 1 else pc + 1 + offset, live, w⟩) :
    Exec M mod post ⟨pc, live ++ [v], w⟩ := by
  have rest : (⟨mod, pc + 1, live ++ [v]⟩ : Frame V).drop 1 = ⟨mod, pc + 1, live⟩ :=
    drop_append mod _ live [v]
  refine exec_branch ⟨mod, pc + 1, live ++ [v]⟩
    (fun b => ⟨mod, if b then pc + 1 else pc + 1 + offset, live⟩) rfl ?_ follows
  simp only [Platform.runLoop, fetched, Frame.jump, rest]
  congr 1
  funext b
  cases b <;> rfl

theorem exec_jump_if_true {v : V} {offset : Nat}
    (fetched : mod.code[pc]? = some (.jumpIfTrue offset))
    (follows : (M.truthy v w).Follows (post.ends pc live) fun b w =>
      Exec M mod post ⟨if b then pc + 1 + offset else pc + 1, live, w⟩) :
    Exec M mod post ⟨pc, live ++ [v], w⟩ := by
  have rest : (⟨mod, pc + 1, live ++ [v]⟩ : Frame V).drop 1 = ⟨mod, pc + 1, live⟩ :=
    drop_append mod _ live [v]
  refine exec_branch ⟨mod, pc + 1, live ++ [v]⟩
    (fun b => ⟨mod, if b then pc + 1 + offset else pc + 1, live⟩) rfl ?_ follows
  simp only [Platform.runLoop, fetched, Frame.jump, rest]
  congr 1
  funext b
  cases b <;> rfl

/-- A call with a pending base; its callee and arguments are on top. -/
theorem exec_pending_call {request : Request} {operands : List V}
    (runs : M.platform.runLoop ⟨mod, pc, live ++ operands⟩ w =
      M.platform.pendingCall ⟨mod, pc + 1, live ++ operands⟩ request operands.length w)
    (follows : (M.perform request operands w).Follows (post.ends pc live)
      fun v w => Exec M mod post ⟨pc + 1, live ++ [v], w⟩) :
    Exec M mod post ⟨pc, live ++ operands, w⟩ := by
  rw [Platform.pendingCall, drop_append, top_append] at runs
  exact exec_call runs follows

/-- An operator on the operands on top. -/
theorem exec_operation {operator : Operator} {operands : List V}
    (runs : M.platform.runLoop ⟨mod, pc, live ++ operands⟩ w =
      M.platform.operation ⟨mod, pc + 1, live ++ operands⟩ operator operands.length w)
    (follows : (M.operate operator operands w).Follows (post.ends pc live)
      fun v w => Exec M mod post ⟨pc + 1, live ++ [v], w⟩) :
    Exec M mod post ⟨pc, live ++ operands, w⟩ := by
  rw [Platform.operation, drop_append, top_append] at runs
  exact exec_call runs follows

theorem exec_send {site : Const} {operands : List V} (fetched : mod.code[pc]? = some (.send site))
    (arguments : operands.length = site.argc.toNat + 1)
    (follows : (M.perform (.send site) operands w).Follows (post.ends pc live)
      fun v w => Exec M mod post ⟨pc + 1, live ++ [v], w⟩) :
    Exec M mod post ⟨pc, live ++ operands, w⟩ :=
  exec_pending_call (by simp only [Platform.runLoop, fetched, Frame.jump, arguments]) follows

theorem exec_call_value {argc : Nat} {operands : List V}
    (fetched : mod.code[pc]? = some (.call argc)) (arguments : operands.length = argc + 1)
    (follows : (M.perform (.call argc) operands w).Follows (post.ends pc live)
      fun v w => Exec M mod post ⟨pc + 1, live ++ [v], w⟩) :
    Exec M mod post ⟨pc, live ++ operands, w⟩ :=
  exec_pending_call (by simp only [Platform.runLoop, fetched, Frame.jump, arguments]) follows

theorem exec_eq {a b : V} (fetched : mod.code[pc]? = some .eq)
    (follows : (M.operate .eq [a, b] w).Follows (post.ends pc live)
      fun v w => Exec M mod post ⟨pc + 1, live ++ [v], w⟩) :
    Exec M mod post ⟨pc, live ++ [a, b], w⟩ :=
  exec_operation (by simp only [Platform.runLoop, fetched, Frame.jump]; rfl) follows

theorem exec_ge {a b : V} (fetched : mod.code[pc]? = some .ge)
    (follows : (M.operate .ge [a, b] w).Follows (post.ends pc live)
      fun v w => Exec M mod post ⟨pc + 1, live ++ [v], w⟩) :
    Exec M mod post ⟨pc, live ++ [a, b], w⟩ :=
  exec_operation (by simp only [Platform.runLoop, fetched, Frame.jump]; rfl) follows

theorem exec_not {a : V} (fetched : mod.code[pc]? = some .not)
    (follows : (M.operate .not [a] w).Follows (post.ends pc live)
      fun v w => Exec M mod post ⟨pc + 1, live ++ [v], w⟩) :
    Exec M mod post ⟨pc, live ++ [a], w⟩ :=
  exec_operation (by simp only [Platform.runLoop, fetched, Frame.jump]; rfl) follows

theorem exec_match_error {v : V} (fetched : mod.code[pc]? = some .matchError)
    (follows : (M.operate .matchError [v] w).Follows (post.ends pc live)
      fun v w => Exec M mod post ⟨pc + 1, live ++ [v], w⟩) :
    Exec M mod post ⟨pc, live ++ [v], w⟩ :=
  exec_operation (by simp only [Platform.runLoop, fetched, Frame.jump]; rfl) follows

end Rules

/-! ## Running a frame forward -/

/-- The point `n` instructions further on, none of them at `stop`. -/
def Engine.forward (M : Engine V W N) (mod : BytecodeModule) (stop : Nat) :
    Nat → Point V W → Option (Point V W)
  | 0, point => some point
  | n + 1, point =>
      if point.pc = stop then none
      else match M.pass mod point with
        | .moved next => M.forward mod stop n next
        | _ => none

/-- A run that may only stop at `stop` goes through the points before it. -/
theorem exec_forward {M : Engine V W N} {mod : BytecodeModule} {post : Post V W} {stop : Nat}
    (only : ∀ point, post.stops point → point.pc = stop) (n : Nat) :
    ∀ {point last : Point V W}, Exec M mod post point → M.forward mod stop n point = some last →
    Exec M mod post last := by
  induction n with
  | zero =>
      intro point last exec reached
      obtain rfl := Option.some.inj reached
      exact exec
  | succ n induction =>
      intro point last exec reached
      unfold Engine.forward at reached
      split at reached
      · cases reached
      rename_i elsewhere
      split at reached
      · rename_i next moved
        refine induction ?_ reached
        cases exec with
        | stop stops => exact absurd (only point stops) elsewhere
        | step moves rest =>
            obtain rfl := Pass.moved.inj (moves.symm.trans moved)
            exact rest
        | raise raised _ => exact absurd (raised.symm.trans moved) (by simp)
        | handle raised _ _ => exact absurd (raised.symm.trans moved) (by simp)
        | «return» returned _ => exact absurd (returned.symm.trans moved) (by simp)
        | diverge diverged _ => exact absurd (diverged.symm.trans moved) (by simp)
      · cases reached

/-- Behind the end of the code there is nothing to run. -/
theorem exec_end {M : Engine V W N} {mod : BytecodeModule} {post : Post V W} {point : Point V W}
    (beyond : mod.code[point.pc]? = none) (exec : Exec M mod post point) : post.stops point := by
  have stuck : M.pass mod point = .defect := by
    simp [Engine.pass, Platform.runLoop, Point.frame, beyond]
  cases exec with
  | stop stops => exact stops
  | step moves _ => exact absurd (stuck.symm.trans moves) (by simp)
  | raise raised _ => exact absurd (stuck.symm.trans raised) (by simp)
  | handle raised _ _ => exact absurd (stuck.symm.trans raised) (by simp)
  | «return» returned _ => exact absurd (stuck.symm.trans returned) (by simp)
  | diverge diverged _ => exact absurd (stuck.symm.trans diverged) (by simp)

end ProtoScala.Runtime.FrameExecution
