import ProtoScala.Compiler.Bytecode

/-!
# The dispatch loop

`runLoop` dispatches one instruction of one frame. The operations on values come
from a `Platform`; a call leaves the loop and is answered by a C++ function, which
may run other frames and go on afterwards.

A frame is modelled by the values below its stack pointer. The slots above it are
dead, and no handler that the compiler emits raises the stack pointer.
-/

namespace ProtoScala.Runtime.ExecutionEngine

open ProtoScala.Compiler.Bytecode
open ProtoScala.Compiler.ConstantPool (Const)

set_option autoImplicit false

/-- One activation of a module: where it continues, and its slots up to the stack
pointer (parameters, locals, operands). -/
structure Frame (V : Type) where
  mod : BytecodeModule
  ip : Nat
  live : List V
  deriving DecidableEq

/-- The operations that compute one value and call no Scala code. -/
inductive Primitive where
  | constantOf (c : Const)
  | makeCell | cellGet | cellSet
  | pushGlobal (symbol : Const)
  | storeGlobal (symbol : Const)
  | makeFunctionObject (block : Nat)
  | makeLazy
  | makeClass (spec : Const)
  | makeTuple
  | storeField (key : Const)
  | storeFieldIfNew (key : Const)
  | storeFieldsIfNew (keys : Const)
  | setField (key : Const)
  | testType (code : TypeCode)
  | testProto (key : Const)

/-- The operations that only raise. -/
inductive Failure where
  | castFail (typeName : Const)
  | throwValue
  | rethrow

/-- The operations that may call Scala code while the frame has no pending call. -/
inductive Operator where
  | add | sub | mul | lt | le | gt | ge | eq | ne | neg | not | concat | matchError

/-- The calls that note where their result goes. -/
inductive Request where
  | call (argc : Nat)
  | callSpread (argc : Nat)
  | send (site : Const)
  | sendApply (site : Const)
  | force | forceThunk
  | new (site : Const)
  | newSpread (site : Const)
  | invokeInit (site : Const)
  | sendSuper (site : Const)
  | sendKw (site : Const)
  | callKw (site : Const)

/-- How a C++ function answers: with a value or an exception, by running a frame,
or by awaiting a future. `work` lists the C++ functions that wait for the frame or
the future and go on afterwards, the innermost first. -/
inductive Reply (V W N : Type) where
  | answer (result : Except V V) (w : W)
  | execute (callee : Frame V) (work : List N) (w : W)
  | await (future : V) (work : List N) (w : W)

/-- What the interpreter is given: the values `V`, everything outside the frames
`W`, and the C++ functions `N` that can wait for Scala code. -/
structure Platform (V W N : Type) where
  unit : V
  null : V
  trueValue : V
  falseValue : V
  truthy : V → W → Except V Bool
  primitive : Primitive → List V → W → Except V V × W
  /-- An own attribute, `null` where the object has none. -/
  ownAttribute : V → String → W → V
  uncons : V → W → V × V
  failure : Failure → V → W → V × W
  scalaError : String → String → V
  isZeroArgThunk : V → W → Bool
  operate : Operator → List V → W → Reply V W N
  perform : Request → List V → W → Reply V W N
  /-- What a waiting C++ function does with the result it waited for. -/
  proceed : N → Except V V → W → Reply V W N
  /-- Whether it was entered through `callNative`, which counts the depth. -/
  native : N → Bool
  /-- The result of a completed future; `none` while it is pending. -/
  futureResult : V → W → Option (Except V V)

namespace Frame

variable {V : Type}

def push (frame : Frame V) (v : V) : Frame V :=
  { frame with live := frame.live ++ [v] }

/-- Without the topmost `n` operands. -/
def drop (frame : Frame V) (n : Nat) : Frame V :=
  { frame with live := frame.live.take (frame.live.length - n) }

/-- The topmost `n` operands, the deepest first. -/
def top (frame : Frame V) (n : Nat) : List V :=
  frame.live.drop (frame.live.length - n)

def store (frame : Frame V) (slot : Nat) (v : V) : Frame V :=
  { frame with live := frame.live.set slot v }

def jump (frame : Frame V) (offset : Nat) : Frame V :=
  { frame with ip := frame.ip + offset }

/-- The caught value goes to the handler's slot and the operands above the try's
entry depth are dropped. -/
def enterHandler (frame : Frame V) (h : Handler) (value : V) : Frame V :=
  { frame with
    ip := h.handlerPc
    live := (frame.live.set h.slot value).take (frame.mod.stackBase + h.stackDepth) }

/-- The handler search of `runFrame` for an exception of the instruction before
`ip`. -/
def catching (frame : Frame V) (value : V) : Option (Frame V) :=
  (frame.mod.handlerFor (frame.ip - 1)).map fun h => frame.enterHandler h value

end Frame

/-- How one pass of the dispatch loop ends. -/
inductive Arm (V W N : Type) where
  | next (frame : Frame V) (w : W)
  | returns (v : V) (w : W)
  | raises (frame : Frame V) (value : V) (w : W)
  | calls (caller : Frame V) (pending : Bool) (reply : Reply V W N)
  | defect

variable {V W N : Type}

namespace Platform

/-- `sp[-k]`. -/
def operand (P : Platform V W N) (frame : Frame V) (k : Nat) : V :=
  frame.live.getD (frame.live.length - k) P.null

def slot (P : Platform V W N) (frame : Frame V) (k : Nat) : V :=
  frame.live.getD k P.null

def compute (P : Platform V W N) (frame : Frame V) (primitive : Primitive) (operands : List V)
    (w : W) (place : V → Frame V) : Arm V W N :=
  match P.primitive primitive operands w with
  | (.ok v, w) => .next (place v) w
  | (.error e, w) => .raises frame e w

def branch (P : Platform V W N) (frame : Frame V) (w : W) (target : Bool → Frame V) :
    Arm V W N :=
  match P.truthy (P.operand frame 1) w with
  | .ok b => .next (target b) w
  | .error e => .raises (frame.drop 1) e w

def fail (P : Platform V W N) (frame : Frame V) (failure : Failure) (v : V) (w : W) :
    Arm V W N :=
  let (value, w) := P.failure failure v w
  .raises frame value w

/-- An operation on the topmost `n` operands during which the frame cannot be
suspended. -/
def operation (P : Platform V W N) (frame : Frame V) (operator : Operator) (n : Nat) (w : W) :
    Arm V W N :=
  .calls (frame.drop n) false (P.operate operator (frame.top n) w)

/-- A call whose callee and arguments are the topmost `n` operands; its result
replaces them. -/
def pendingCall (P : Platform V W N) (frame : Frame V) (request : Request) (n : Nat) (w : W) :
    Arm V W N :=
  .calls (frame.drop n) true (P.perform request (frame.top n) w)

/-- One instruction; `ip` has moved past it before it runs. -/
def runLoop (P : Platform V W N) (frame : Frame V) (w : W) : Arm V W N :=
  match frame.mod.code[frame.ip]? with
  | none => .defect
  | some instr =>
      let frame := frame.jump 1
      match instr with
      | .pushConst c => P.compute frame (.constantOf c) [] w frame.push
      | .pushUnit => .next (frame.push P.unit) w
      | .pushNull => .next (frame.push P.null) w
      | .pushTrue => .next (frame.push P.trueValue) w
      | .pushFalse => .next (frame.push P.falseValue) w
      | .pop => .next (frame.drop 1) w
      | .dup => .next (frame.push (P.operand frame 1)) w
      | .pushLocal slot => .next (frame.push (P.slot frame slot)) w
      | .storeLocal slot => .next ((frame.drop 1).store slot (P.operand frame 1)) w
      | .makeCell slot => P.compute frame .makeCell [] w (frame.store slot)
      | .pushCell slot => P.compute frame .cellGet [P.slot frame slot] w frame.push
      | .storeCell slot =>
          P.compute frame .cellSet [P.slot frame slot, P.operand frame 1] w
            ((frame.drop 1).store slot)
      | .pushGlobal symbol => P.compute frame (.pushGlobal symbol) [] w frame.push
      | .storeGlobal symbol =>
          P.compute frame (.storeGlobal symbol) [P.operand frame 1] w fun _ => frame.drop 1
      | .makeFn block captureCount =>
          P.compute frame (.makeFunctionObject block) (frame.top captureCount) w
            (frame.drop captureCount).push
      | .call argc => P.pendingCall frame (.call argc) (argc + 1) w
      | .callSpread argc => P.pendingCall frame (.callSpread argc) (argc + 2) w
      | .send site => P.pendingCall frame (.send site) (site.argc.toNat + 1) w
      | .sendApply site => P.pendingCall frame (.sendApply site) (site.argc.toNat + 1) w
      | .ret => .returns (P.operand frame 1) w
      | .makeLazy => P.compute frame .makeLazy (frame.top 1) w (frame.drop 1).push
      | .force => P.pendingCall frame .force 1 w
      | .forceThunk =>
          if P.isZeroArgThunk (P.operand frame 1) w then P.pendingCall frame .forceThunk 1 w
          else .next frame w
      | .jump offset => .next (frame.jump offset) w
      | .jumpIfFalse offset =>
          P.branch frame w fun b => if b then frame.drop 1 else (frame.drop 1).jump offset
      | .jumpIfTrue offset =>
          P.branch frame w fun b => if b then (frame.drop 1).jump offset else frame.drop 1
      | .jumpBack offset => .next { frame with ip := frame.ip - offset } w
      | .add => P.operation frame .add 2 w
      | .sub => P.operation frame .sub 2 w
      | .mul => P.operation frame .mul 2 w
      | .lt => P.operation frame .lt 2 w
      | .le => P.operation frame .le 2 w
      | .gt => P.operation frame .gt 2 w
      | .ge => P.operation frame .ge 2 w
      | .eq => P.operation frame .eq 2 w
      | .ne => P.operation frame .ne 2 w
      | .neg => P.operation frame .neg 1 w
      | .not => P.operation frame .not 1 w
      | .concat pieces => if pieces < 2 then .defect else P.operation frame .concat pieces w
      | .makeClass spec =>
          let members := spec.argc.toNat + spec.names.length
          P.compute frame (.makeClass spec) (frame.top members) w (frame.drop members).push
      | .new site =>
          P.pendingCall frame (.new site) (site.argc.toNat + site.names.length + 1) w
      | .newSpread site => P.pendingCall frame (.newSpread site) (site.argc.toNat + 2) w
      | .invokeInit site => P.pendingCall frame (.invokeInit site) (site.argc.toNat + 2) w
      | .storeField key =>
          P.compute frame (.storeField key) [P.slot frame 0, P.operand frame 1] w
            ((frame.drop 1).store 0)
      | .storeFieldIfNew key =>
          P.compute frame (.storeFieldIfNew key) [P.slot frame 0, P.operand frame 1] w
            ((frame.drop 1).store 0)
      | .storeFieldsIfNew keys =>
          P.compute frame (.storeFieldsIfNew keys)
            (P.slot frame 0 :: frame.top keys.names.length) w
            ((frame.drop keys.names.length).store 0)
      | .setField key => P.compute frame (.setField key) (frame.top 2) w fun _ => frame.drop 2
      | .sendSuper site => P.pendingCall frame (.sendSuper site) (site.argc.toNat + 1) w
      | .testType code => P.compute frame (.testType code) (frame.top 1) w (frame.drop 1).push
      | .testProto key => P.compute frame (.testProto key) (frame.top 1) w (frame.drop 1).push
      | .unapplyFields keys =>
          let fields := keys.names.map fun key => P.ownAttribute (P.operand frame 1) key w
          .next { frame.drop 1 with live := (frame.drop 1).live ++ fields } w
      | .uncons =>
          let (head, tail) := P.uncons (P.operand frame 1) w
          .next (((frame.drop 1).push head).push tail) w
      | .matchError => P.operation frame .matchError 1 w
      | .castFail typeName => P.fail frame (.castFail typeName) (P.operand frame 1) w
      | .makeTuple arity =>
          if arity < 2 ∨ 22 < arity then .defect
          else P.compute frame .makeTuple (frame.top arity) w (frame.drop arity).push
      | .sendKw site =>
          P.pendingCall frame (.sendKw site) (site.argc.toNat + site.names.length + 1) w
      | .callKw site =>
          P.pendingCall frame (.callKw site) (site.argc.toNat + site.names.length + 1) w
      | .throw => P.fail (frame.drop 1) .throwValue (P.operand frame 1) w
      | .rethrow slot => P.fail frame .rethrow (P.slot frame slot) w

end Platform

end ProtoScala.Runtime.ExecutionEngine
