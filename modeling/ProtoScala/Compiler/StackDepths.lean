import Mathlib.Logic.Relation
import ProtoScala.Library.Propagation
import ProtoScala.Runtime.FrameExecution

/-!
# The operand depth of each instruction

`CppEmitter` writes the operand stack of a module as numbered C++ variables, so it has to know
how deep the stack is at every instruction. `depths` propagates the depth from the entry and from
the handlers along the jumps, with the stack effect of each instruction.

The depths are compared with the dispatch loop: along every run of a frame, through its jumps,
its calls and its handlers, the slots above the locals are as many as the depth of the
instruction the frame stands at.
-/

namespace ProtoScala.Compiler.StackDepths

open ProtoScala.Compiler.Bytecode
open ProtoScala.Compiler.ConstantPool (Const)
open ProtoScala.Library.Propagation
open ProtoScala.Runtime.ExecutionEngine
open ProtoScala.Runtime.FrameExecution

set_option autoImplicit false

/-! ## The analysis -/

/-- An instruction with where it starts and where the next one does. -/
structure Decoded where
  op : Instr
  pc : Nat
  next : Nat

def decode (mod : BytecodeModule) : List Decoded :=
  mod.code.zipIdx.map fun (instr, at_) => ⟨instr, at_, at_ + 1⟩

/-- `static_cast<int>`. -/
def toInt (n : Nat) : Int := (n : Int).bmod 4294967296

/-- The effect of an instruction that does not fall through. -/
def kTerminal : Int := -1000000

def effect : Instr → Int
  | .pushConst _ | .pushUnit | .pushNull | .pushTrue | .pushFalse | .pushLocal _ | .pushCell _
  | .pushGlobal _ | .dup => 1
  | .pop | .storeLocal _ | .storeCell _ | .storeGlobal _ | .storeField _ | .storeFieldIfNew _
  | .jumpIfFalse _ | .jumpIfTrue _ | .add | .sub | .mul | .lt | .le | .gt | .ge | .eq | .ne => -1
  | .setField _ => -2
  | .makeCell _ | .makeLazy | .force | .forceThunk | .neg | .not | .testType _ | .testProto _ => 0
  | .makeFn _ captureCount => 1 - toInt captureCount
  | .call argc => -toInt argc
  | .callSpread argc => -(toInt argc + 1)
  | .send site | .sendApply site | .sendSuper site => -toInt site.argc.toNat
  | .concat pieces | .makeTuple pieces => 1 - toInt pieces
  | .uncons => 1
  | .unapplyFields keys => toInt keys.names.length - 1
  | .storeFieldsIfNew keys => -toInt keys.names.length
  | .makeClass spec => 1 - toInt (spec.argc.toNat + spec.names.length)
  | .new site | .sendKw site | .callKw site => -toInt (site.argc.toNat + site.names.length)
  | .newSpread site | .invokeInit site => -toInt site.argc.toNat - 1
  | .jump _ | .jumpBack _ => 0
  | .ret | .matchError | .castFail _ | .throw | .rethrow _ => kTerminal

/-- The texts of the `std::logic_error`s of `depths`. -/
inductive Thrown where
  | boundary (how : String) (targetPc : Nat)
  | twoDepths (targetPc : Nat) (first second : Int)
  | negative (pc : Nat)
  deriving DecidableEq, Repr

def Thrown.what (name : String) : Thrown → String
  | .boundary how targetPc =>
      "a " ++ how ++ " in " ++ name ++ " targets word " ++ toString targetPc ++
        ", which is not an instruction boundary"
  | .twoDepths targetPc first second =>
      "two paths reach word " ++ toString targetPc ++ " of " ++ name ++
        " at operand-stack depths " ++ toString first ++ " and " ++ toString second
  | .negative pc =>
      "the operand stack of " ++ name ++ " goes negative at word " ++ toString pc

def indexOf (ins : List Decoded) (pc : Nat) : Option Nat := ins.findIdx? fun d => d.pc == pc

/-- A call of `reach`. -/
def edgeTo (ins : List Decoded) (targetPc : Nat) (d : Int) (how : String) : Edge Int Thrown where
  target :=
    match indexOf ins targetPc with
    | some i => .ok i
    | none => .error (.boundary how targetPc)
  label := d
  clash old := .twoDepths targetPc old d

/-- `next - operand` over `std::size_t`. -/
def backwards (next operand : Nat) : Nat :=
  if operand ≤ next then next - operand else 18446744073709551616 + next - operand

/-- The edges of one round of the loop. -/
def edges (ins : List Decoded) (codeSize : Nat) (d : Decoded) (after : Int) :
    List (Edge Int Thrown) :=
  match d.op with
  | .jump operand => [edgeTo ins (d.next + operand) after "JUMP"]
  | .jumpBack operand => [edgeTo ins (backwards d.next operand) after "JUMP_BACK"]
  | .jumpIfFalse operand | .jumpIfTrue operand =>
      [edgeTo ins (d.next + operand) after "conditional jump",
        edgeTo ins d.next after "fall-through"]
  | _ => if d.next < codeSize then [edgeTo ins d.next after "fall-through"] else []

def flow (ins : List Decoded) (codeSize : Nat) (i : Nat) (depth : Int) :
    Except Thrown (List (Edge Int Thrown)) :=
  match ins[i]? with
  | none => .ok []
  | some d =>
      if effect d.op = kTerminal then .ok []
      else if depth + effect d.op < 0 then .error (.negative d.pc)
      else .ok (edges ins codeSize d (depth + effect d.op))

/-- The entry, and the handlers whose bodies start at an instruction. -/
def seeds (ins : List Decoded) (handlers : List Handler) : List (Nat × Int) :=
  (if ins.isEmpty then [] else [(0, 0)]) ++
    handlers.filterMap fun h => (indexOf ins h.handlerPc).map fun i => (i, (h.stackDepth : Int))

/-- The depths of the instructions that are reached. -/
def reached (mod : BytecodeModule) : Except Thrown (List (Option Int)) :=
  labels (flow (decode mod) mod.code.length) (decode mod).length
    (seeds (decode mod) mod.handlers)

/-- An instruction that nothing reaches has depth 0. -/
def depths (mod : BytecodeModule) : Except Thrown (List Int) :=
  (reached mod).map fun found => found.map fun depth => depth.getD 0

/-! ## What an instruction does to the stack -/

/-- The operands that an instruction takes off the stack. -/
def pops : Instr → Nat
  | .pushConst _ | .pushUnit | .pushNull | .pushTrue | .pushFalse | .pushLocal _ | .pushCell _
  | .pushGlobal _ | .dup | .makeCell _ | .jump _ | .jumpBack _ | .rethrow _ => 0
  | .pop | .storeLocal _ | .storeCell _ | .storeGlobal _ | .storeField _ | .storeFieldIfNew _
  | .jumpIfFalse _ | .jumpIfTrue _ | .makeLazy | .force | .forceThunk | .neg | .not
  | .testType _ | .testProto _ | .uncons | .unapplyFields _ | .ret | .matchError | .castFail _
  | .throw => 1
  | .add | .sub | .mul | .lt | .le | .gt | .ge | .eq | .ne | .setField _ => 2
  | .makeFn _ captureCount => captureCount
  | .call argc => argc + 1
  | .callSpread argc => argc + 2
  | .send site | .sendApply site | .sendSuper site => site.argc.toNat + 1
  | .concat pieces | .makeTuple pieces => pieces
  | .storeFieldsIfNew keys => keys.names.length
  | .makeClass spec => spec.argc.toNat + spec.names.length
  | .new site | .sendKw site | .callKw site => site.argc.toNat + site.names.length + 1
  | .newSpread site | .invokeInit site => site.argc.toNat + 2

/-- The values that an instruction leaves on it. -/
def pushes : Instr → Nat
  | .pop | .storeLocal _ | .storeCell _ | .storeGlobal _ | .storeField _ | .storeFieldIfNew _
  | .storeFieldsIfNew _ | .setField _ | .jumpIfFalse _ | .jumpIfTrue _ | .makeCell _ | .jump _
  | .jumpBack _ | .ret | .castFail _ | .throw | .rethrow _ => 0
  | .uncons => 2
  | .unapplyFields keys => keys.names.length
  | _ => 1

def terminal : Instr → Bool
  | .ret | .matchError | .castFail _ | .throw | .rethrow _ => true
  | _ => false

/-- Where the dispatch loop goes on after an instruction at `pc`. -/
def landings (pc : Nat) : Instr → List Nat
  | .jump offset => [pc + 1 + offset]
  | .jumpBack offset => [pc + 1 - offset]
  | .jumpIfFalse offset | .jumpIfTrue offset => [pc + 1 + offset, pc + 1]
  | _ => [pc + 1]

theorem to_int_small {n : Nat} (small : n < 1000000) : toInt n = n := by
  unfold toInt
  exact Int.bmod_eq_of_le (by omega) (by omega)

/-- The effect is what is left less what is taken off. -/
theorem effect_eq {instr : Instr} (falls : terminal instr = false)
    (small : pops instr + pushes instr < 1000000) :
    effect instr = (pushes instr : Int) - pops instr := by
  cases instr <;> simp only [terminal, Bool.true_eq_false] at falls <;>
    simp only [effect, pops, pushes] at small ⊢ <;>
    first
      | omega
      | (rw [to_int_small (by omega)]; omega)

theorem effect_terminal {instr : Instr} (ends : terminal instr = true) :
    effect instr = kTerminal := by
  cases instr <;> first | exact absurd ends Bool.false_ne_true | rfl

theorem effect_not_terminal {instr : Instr} (falls : terminal instr = false)
    (small : pops instr + pushes instr < 1000000) : effect instr ≠ kTerminal := by
  rw [effect_eq falls small, kTerminal]
  omega

section Step

variable {V W N : Type}

/-- What one pass of the dispatch loop may do to the frame. -/
def Settles (frame : Frame V) (low after : Nat) (targets : List Nat) : Arm V W N → Prop
  | .next moved _ => moved.live.length = after ∧ moved.ip ∈ targets
  | .returns _ _ | .defect => True
  | .raises left _ _ => low ≤ left.live.length ∧ left.live.length ≤ frame.live.length
  | .calls caller _ _ =>
      caller.live.length + 1 = after ∧ caller.ip ∈ targets ∧ low ≤ caller.live.length

variable (P : Platform V W N) {frame : Frame V} {w : W} {low after : Nat} {targets : List Nat}

theorem compute_settles (primitive : Primitive) (operands : List V) (place : V → Frame V)
    {base : Frame V} (same : base.live = frame.live) (atMost : low ≤ frame.live.length)
    (placed : ∀ v, (place v).live.length = after ∧ (place v).ip ∈ targets) :
    Settles frame low after targets (P.compute base primitive operands w place) := by
  unfold Platform.compute
  split
  · exact placed _
  · exact ⟨same ▸ atMost, le_of_eq (congrArg List.length same)⟩

@[simp] theorem drop_length (frame : Frame V) (n : Nat) :
    (frame.drop n).live.length = frame.live.length - n := by
  simp [Frame.drop]

@[simp] theorem push_length (frame : Frame V) (v : V) :
    (frame.push v).live.length = frame.live.length + 1 := by
  simp [Frame.push]

@[simp] theorem store_length (frame : Frame V) (slot : Nat) (v : V) :
    (frame.store slot v).live.length = frame.live.length := by
  simp [Frame.store]

@[simp] theorem jump_live (frame : Frame V) (offset : Nat) :
    (frame.jump offset).live = frame.live := rfl

@[simp] theorem drop_ip (frame : Frame V) (n : Nat) : (frame.drop n).ip = frame.ip := rfl
@[simp] theorem push_ip (frame : Frame V) (v : V) : (frame.push v).ip = frame.ip := rfl
@[simp] theorem store_ip (frame : Frame V) (slot : Nat) (v : V) :
    (frame.store slot v).ip = frame.ip := rfl
@[simp] theorem jump_ip (frame : Frame V) (offset : Nat) :
    (frame.jump offset).ip = frame.ip + offset := rfl

theorem branch_settles {base : Frame V} (target : Bool → Frame V) (same : base.live = frame.live)
    (atMost : low ≤ frame.live.length - 1)
    (moved : ∀ b, (target b).live.length = after ∧ (target b).ip ∈ targets) :
    Settles frame low after targets (P.branch base w target) := by
  unfold Platform.branch
  split
  · exact moved _
  · simp only [Settles, drop_length, same]
    omega

theorem operation_settles {base : Frame V} (operator : Operator) (n : Nat)
    (same : base.live = frame.live) (next : base.ip ∈ targets)
    (left : frame.live.length - n + 1 = after) (atMost : low ≤ frame.live.length - n) :
    Settles frame low after targets (P.operation base operator n w) := by
  simp only [Platform.operation, Settles, drop_length, drop_ip, same]
  exact ⟨left, next, atMost⟩

theorem pending_settles {base : Frame V} (request : Request) (n : Nat)
    (same : base.live = frame.live) (next : base.ip ∈ targets)
    (left : frame.live.length - n + 1 = after) (atMost : low ≤ frame.live.length - n) :
    Settles frame low after targets (P.pendingCall base request n w) := by
  simp only [Platform.pendingCall, Settles, drop_length, drop_ip, same]
  exact ⟨left, next, atMost⟩

/-- One pass takes off the operands of the instruction and leaves its values, and it goes on at
one of the landings. -/
theorem run_loop_settles {instr : Instr} (fetched : frame.mod.code[frame.ip]? = some instr)
    (enough : pops instr ≤ frame.live.length) :
    Settles frame (frame.live.length - pops instr)
      (frame.live.length - pops instr + pushes instr) (landings frame.ip instr)
      (P.runLoop frame w) := by
  cases instr
  all_goals
    simp only [Platform.runLoop, fetched]
    simp only [pops] at enough
    simp only [pops, pushes, landings]
  case pushConst | pushGlobal | makeFn | makeLazy | makeClass | testType | testProto | makeCell
      | pushCell | storeCell | storeGlobal | storeField | storeFieldIfNew | storeFieldsIfNew
      | setField =>
    refine compute_settles P _ _ _ rfl (by omega) fun v => ⟨?_, by simp⟩
    simp
    try omega
  case jumpIfFalse | jumpIfTrue =>
    refine branch_settles P _ rfl (by omega) fun b => ?_
    cases b <;> simp
  case add | sub | mul | lt | le | gt | ge | eq | ne | neg | not | matchError =>
    exact operation_settles P _ _ rfl (by simp) (by simp) (by simp)
  case call | callSpread | send | sendApply | sendSuper | force | new | newSpread | invokeInit
      | sendKw | callKw =>
    exact pending_settles P _ _ rfl (by simp) (by simp) (by simp)
  case pushUnit | pushNull | pushTrue | pushFalse | pop | dup | pushLocal | storeLocal | jump
      | jumpBack | ret | unapplyFields | uncons | castFail | throw | rethrow =>
    simp [Settles, Platform.fail]
    try omega
  case forceThunk =>
    split
    · exact pending_settles P _ _ rfl (by simp) (by simp) (by simp)
    · simp [Settles]
      omega
  case concat =>
    split
    · trivial
    · exact operation_settles P _ _ rfl (by simp) (by simp) (by simp)
  case makeTuple =>
    split
    · trivial
    · exact compute_settles P _ _ _ rfl (by omega) fun v => ⟨by simp, by simp⟩

variable (M : Engine V W N) {mod : BytecodeModule} {point next : Point V W}

theorem pass_moved {instr : Instr} (fetched : mod.code[point.pc]? = some instr)
    (enough : pops instr ≤ point.live.length) (moved : M.pass mod point = .moved next) :
    next.live.length = point.live.length - pops instr + pushes instr ∧
      next.pc ∈ landings point.pc instr := by
  have settled : Settles (point.frame mod) _ _ _
      (M.platform.runLoop (point.frame mod) point.world) :=
    run_loop_settles M.platform fetched enough
  unfold Engine.pass at moved
  cases arm : M.platform.runLoop (point.frame mod) point.world with
  | next frame w =>
      rw [arm] at settled moved
      obtain rfl := Pass.moved.inj moved
      exact settled
  | calls caller pending reply =>
      rw [arm] at settled moved
      simp only at moved
      split at moved
      · obtain rfl := Pass.moved.inj moved
        obtain ⟨left, lands, _⟩ := settled
        exact ⟨by rw [List.length_append]; exact left, lands⟩
      all_goals cases moved
  | returns v w => simp [arm] at moved
  | raises frame value w => simp [arm] at moved
  | defect => simp [arm] at moved

theorem pass_raised {instr : Instr} {live : List V} {value : V} {w : W}
    (fetched : mod.code[point.pc]? = some instr) (enough : pops instr ≤ point.live.length)
    (raised : M.pass mod point = .raised live value w) :
    point.live.length - pops instr ≤ live.length := by
  have settled : Settles (point.frame mod) _ _ _
      (M.platform.runLoop (point.frame mod) point.world) :=
    run_loop_settles M.platform fetched enough
  unfold Engine.pass at raised
  cases arm : M.platform.runLoop (point.frame mod) point.world with
  | raises frame value' w' =>
      rw [arm] at settled raised
      simp only [Pass.raised.injEq] at raised
      obtain ⟨rfl, -, -⟩ := raised
      exact settled.1
  | calls caller pending reply =>
      rw [arm] at settled raised
      simp only at raised
      split at raised
      all_goals try cases raised
      exact settled.2.2
  | next frame w => simp [arm] at raised
  | returns v w => simp [arm] at raised
  | defect => simp [arm] at raised

/-- A frame never goes on behind an instruction that is terminal. -/
theorem terminal_stays {instr : Instr} (fetched : mod.code[point.pc]? = some instr)
    (enough : pops instr ≤ point.live.length) (ends : terminal instr = true) :
    M.pass mod point ≠ .moved next := by
  unfold Engine.pass
  cases instr <;> try exact absurd ends Bool.false_ne_true
  case matchError =>
    obtain ⟨before, v, split_⟩ : ∃ before v, point.live = before ++ [v] :=
      ⟨_, _, (List.dropLast_append_getLast (List.ne_nil_of_length_pos enough)).symm⟩
    have operand : (Frame.jump (point.frame mod) 1).top 1 = [v] := by
      simp [Frame.top, Frame.jump, Point.frame, split_]
    simp only [Platform.runLoop, Point.frame, fetched, Platform.operation] at operand ⊢
    rw [operand]
    split
    · next answered => exact absurd answered (M.match_error_throws v _ _ _)
    all_goals rintro ⟨⟩
  all_goals simp [Platform.runLoop, Point.frame, fetched, Platform.fail]

end Step

/-! ## Runs of a frame -/

section Runs

variable {V W N : Type}

/-- A frame goes on behind an instruction, or in the handler of one that raised. -/
inductive Moves (M : Engine V W N) (mod : BytecodeModule) : Point V W → Point V W → Prop where
  | step {point next : Point V W} (moved : M.pass mod point = .moved next) :
      Moves M mod point next
  | handle {point : Point V W} {live : List V} {value : V} {w : W} {h : Handler}
      (raised : M.pass mod point = .raised live value w)
      (found : mod.handlerFor point.pc = some h) :
      Moves M mod point ⟨h.handlerPc,
        (live.set h.slot value).take (mod.stackBase + h.stackDepth), w⟩

/-- What `depths` leaves to the compiler: an instruction finds its operands above the locals, a
handler starts at the depth of its `try`, and inside the `try` the stack is not shallower. -/
structure Prepared (mod : BytecodeModule) (found : List (Option Int)) : Prop where
  counts : ∀ instr ∈ mod.code, pops instr + pushes instr < 1000000
  distances : ∀ offset, Instr.jumpBack offset ∈ mod.code →
    offset + mod.code.length < 18446744073709551616
  operands : ∀ d ∈ decode mod, ∀ depth ∈ found.getD d.pc none, (pops d.op : Int) ≤ depth
  bodies : ∀ h ∈ mod.handlers, found.getD h.handlerPc none = some (h.stackDepth : Int)
  protect : ∀ d ∈ decode mod, ∀ depth ∈ found.getD d.pc none, ∀ h ∈ mod.handlerFor d.pc,
    (h.stackDepth + pops d.op : Int) ≤ depth

/-- The frame stands at an instruction, with as many operands as its depth says, or behind the
last one. -/
def AtDepth (mod : BytecodeModule) (found : List (Option Int)) (point : Point V W) : Prop :=
  point.pc = mod.code.length ∨
    ∃ depth : Nat, found.getD point.pc none = some (depth : Int) ∧
      point.live.length = mod.stackBase + depth

theorem mem_decode {mod : BytecodeModule} {d : Decoded} :
    d ∈ decode mod ↔ mod.code[d.pc]? = some d.op ∧ d.next = d.pc + 1 := by
  simp only [decode, List.mem_map, List.mem_zipIdx_iff_getElem?, Prod.exists]
  constructor
  · rintro ⟨instr, at_, fetched, rfl⟩
    exact ⟨fetched, rfl⟩
  · rintro ⟨fetched, next⟩
    exact ⟨d.op, d.pc, fetched, by rw [← next]⟩

theorem decode_at (mod : BytecodeModule) (i : Nat) :
    (decode mod)[i]? = mod.code[i]?.map fun instr => ⟨instr, i, i + 1⟩ := by
  simp only [decode, List.getElem?_map, List.getElem?_zipIdx]
  cases mod.code[i]? <;> simp

@[simp] theorem decode_length (mod : BytecodeModule) : (decode mod).length = mod.code.length := by
  simp [decode]

theorem index_of_eq_some {mod : BytecodeModule} {pc i : Nat} :
    indexOf (decode mod) pc = some i ↔ i = pc ∧ pc < mod.code.length := by
  rw [indexOf, List.findIdx?_eq_some_iff_getElem]
  constructor
  · rintro ⟨inside, same, _⟩
    have here := List.getElem?_eq_getElem inside
    rw [decode_length] at inside
    rw [decode_at, List.getElem?_eq_getElem inside] at here
    simp only [Option.map_some, Option.some.injEq] at here
    rw [← here] at same
    exact ⟨eq_of_beq same, eq_of_beq same ▸ inside⟩
  · rintro ⟨rfl, inside⟩
    refine ⟨by simpa using inside, ?_, fun j before => ?_⟩
    · simp [decode]
    · simp [decode]
      omega

theorem flow_inside (mod : BytecodeModule) :
    Inside (flow (decode mod) mod.code.length) (decode mod).length := by
  intro i depth found flows edge taken next target
  have place : ∃ pc d how, edge = edgeTo (decode mod) pc d how := by
    unfold flow at flows
    split at flows
    · obtain rfl := Except.ok.inj flows
      cases taken
    · split at flows
      · obtain rfl := Except.ok.inj flows
        cases taken
      · split at flows
        · cases flows
        · obtain rfl := Except.ok.inj flows
          unfold edges at taken
          split at taken
          case h_3 | h_4 =>
            rcases List.mem_cons.mp taken with rfl | later
            · exact ⟨_, _, _, rfl⟩
            · exact ⟨_, _, _, List.mem_singleton.mp later⟩
          case h_5 =>
            split at taken
            · exact ⟨_, _, _, List.mem_singleton.mp taken⟩
            · cases taken
          all_goals exact ⟨_, _, _, List.mem_singleton.mp taken⟩
  obtain ⟨pc, d, how, rfl⟩ := place
  cases found : indexOf (decode mod) pc with
  | none => simp [edgeTo, found] at target
  | some i =>
      simp only [edgeTo, found, Except.ok.injEq] at target
      obtain ⟨rfl, inside⟩ := index_of_eq_some.mp found
      simpa [← target] using inside

theorem seeds_inside (mod : BytecodeModule) :
    ∀ seed ∈ seeds (decode mod) mod.handlers, seed.1 < (decode mod).length := by
  intro seed mem
  rcases List.mem_append.mp mem with entry | body
  · split at entry
    · cases entry
    · next some_ =>
        obtain rfl := List.mem_singleton.mp entry
        exact List.length_pos_of_ne_nil (by simpa using some_)
  · obtain ⟨h, _, planted⟩ := List.mem_filterMap.mp body
    obtain ⟨i, found, rfl⟩ := Option.map_eq_some_iff.mp planted
    obtain ⟨rfl, inside⟩ := index_of_eq_some.mp found
    simpa using inside

/-- The depths that some static path from the entry or from a handler carries. -/
abbrev Static (mod : BytecodeModule) : Nat → Int → Prop :=
  Carried (flow (decode mod) mod.code.length) (seeds (decode mod) mod.handlers)

/-- What the analysis throws for at an instruction. -/
abbrev Defect (mod : BytecodeModule) : Nat → Int → Thrown → Prop :=
  Fault (flow (decode mod) mod.code.length) (Static mod)

theorem reached_ok {mod : BytecodeModule} {found : List (Option Int)}
    (ok : reached mod = .ok found) :
    found.length = mod.code.length ∧
      (∀ pc depth, found.getD pc none = some depth ↔ Static mod pc depth) ∧
      ∀ pc depth, Static mod pc depth → ∀ e, ¬Defect mod pc depth e := by
  have result := labels_ok (flow_inside mod) (seeds_inside mod) ok
  rw [decode_length] at result
  exact result

theorem flow_falls {mod : BytecodeModule} {pc : Nat} {instr : Instr} {depth : Int}
    (fetched : mod.code[pc]? = some instr) (falls : effect instr ≠ kTerminal)
    (sound : ∀ e, ¬Defect mod pc depth e) :
    flow (decode mod) mod.code.length pc depth =
      .ok (edges (decode mod) mod.code.length ⟨instr, pc, pc + 1⟩ (depth + effect instr)) := by
  have placed : (decode mod)[pc]? = some ⟨instr, pc, pc + 1⟩ := by
    rw [decode_at, fetched]
    rfl
  have positive : ¬depth + effect instr < 0 := by
    intro negative
    refine sound (.negative pc) (.node ?_)
    simp only [flow, placed, if_neg falls, if_pos negative]
  simp only [flow, placed, if_neg falls, if_neg positive]

/-- A landing is behind the last instruction, or an edge goes there. -/
theorem edge_of_landing {mod : BytecodeModule} {pc target : Nat} {instr : Instr} (after : Int)
    (inside : pc < mod.code.length) (near : ∀ offset, instr = .jumpBack offset → offset ≤ pc + 1)
    (lands : target ∈ landings pc instr) :
    target = mod.code.length ∨ ∃ how, edgeTo (decode mod) target after how ∈
      edges (decode mod) mod.code.length ⟨instr, pc, pc + 1⟩ after := by
  cases instr
  case jump offset =>
    obtain rfl := List.mem_singleton.mp lands
    exact .inr ⟨_, List.mem_cons_self⟩
  case jumpBack offset =>
    obtain rfl := List.mem_singleton.mp lands
    refine .inr ⟨"JUMP_BACK", ?_⟩
    simp [edges, backwards, near offset rfl]
  case jumpIfFalse offset | jumpIfTrue offset =>
    rcases List.mem_cons.mp lands with rfl | later
    · exact .inr ⟨_, List.mem_cons_self⟩
    · obtain rfl := List.mem_singleton.mp later
      exact .inr ⟨_, List.mem_cons_of_mem _ List.mem_cons_self⟩
  all_goals
    obtain rfl := List.mem_singleton.mp lands
    by_cases more : pc + 1 < mod.code.length
    · exact .inr ⟨"fall-through", by simp [edges, more]⟩
    · exact .inl (by omega)

/-- The depth behind an instruction is carried to each of its landings. -/
theorem landing_depth {mod : BytecodeModule} {pc target : Nat} {instr : Instr} {depth : Int}
    (fetched : mod.code[pc]? = some instr) (carried : Static mod pc depth)
    (falls : effect instr ≠ kTerminal) (sound : ∀ e, ¬Defect mod pc depth e)
    (distance : ∀ offset, instr = .jumpBack offset →
      offset + mod.code.length < 18446744073709551616)
    (lands : target ∈ landings pc instr) :
    target = mod.code.length ∨ Static mod target (depth + effect instr) := by
  have flows := flow_falls fetched falls sound
  have inside := (List.getElem?_eq_some_iff.mp fetched).1
  have lands_at : ∀ {t how}, edgeTo (decode mod) t (depth + effect instr) how ∈
      edges (decode mod) mod.code.length ⟨instr, pc, pc + 1⟩ (depth + effect instr) →
      t < mod.code.length ∧ (edgeTo (decode mod) t (depth + effect instr) how).target = .ok t := by
    intro t how taken
    cases found : indexOf (decode mod) t with
    | none =>
        refine absurd (Fault.nowhere flows taken ?_) (sound (.boundary how t))
        simp [edgeTo, found]
    | some i =>
        obtain ⟨rfl, bounded⟩ := index_of_eq_some.mp found
        exact ⟨bounded, by simp [edgeTo, found]⟩
  have near : ∀ offset, instr = .jumpBack offset → offset ≤ pc + 1 := by
    rintro offset rfl
    have taken : edgeTo (decode mod) (backwards (pc + 1) offset)
        (depth + effect (.jumpBack offset)) "JUMP_BACK" ∈ edges (decode mod) mod.code.length
          ⟨.jumpBack offset, pc, pc + 1⟩ (depth + effect (.jumpBack offset)) := by simp [edges]
    have back := (lands_at taken).1
    have small := distance offset rfl
    unfold backwards at back
    split at back
    · assumption
    · omega
  obtain behind | ⟨how, taken⟩ := edge_of_landing (depth + effect instr) inside near lands
  · exact .inl behind
  · exact .inr (.edge carried flows taken (lands_at taken).2)

theorem prepared_operands {mod : BytecodeModule} {found : List (Option Int)}
    (prepared : Prepared mod found) {pc : Nat} {instr : Instr} {depth : Int}
    (fetched : mod.code[pc]? = some instr) (at_ : found.getD pc none = some depth) :
    (pops instr : Int) ≤ depth :=
  prepared.operands ⟨instr, pc, pc + 1⟩ (mem_decode.mpr ⟨fetched, rfl⟩) depth at_

/-- One move keeps the frame at the depth of its instruction. -/
theorem move_at_depth {M : Engine V W N} {mod : BytecodeModule} {found : List (Option Int)}
    (ok : reached mod = .ok found) (prepared : Prepared mod found) {point next : Point V W}
    (here : AtDepth mod found point) (moves : Moves M mod point next) :
    AtDepth mod found next := by
  obtain ⟨size, exactly, sound⟩ := reached_ok ok
  have fetch : ∃ instr, mod.code[point.pc]? = some instr := by
    cases fetched : mod.code[point.pc]? with
    | some instr => exact ⟨instr, rfl⟩
    | none =>
        cases moves with
        | step moved => simp [Engine.pass, Platform.runLoop, Point.frame, fetched] at moved
        | handle raised => simp [Engine.pass, Platform.runLoop, Point.frame, fetched] at raised
  obtain ⟨instr, fetched⟩ := fetch
  have inside := (List.getElem?_eq_some_iff.mp fetched).1
  obtain behind | ⟨depth, at_, length⟩ := here
  · omega
  have operands := prepared_operands prepared fetched at_
  have enough : pops instr ≤ point.live.length := by omega
  cases moves with
  | step moved =>
      have falls : terminal instr = false := by
        by_contra ends
        exact terminal_stays M fetched enough (by simpa using ends) moved
      have counts := prepared.counts instr (List.mem_of_getElem? fetched)
      obtain ⟨left, lands⟩ := pass_moved M fetched enough moved
      have carried := (exactly _ _).mp at_
      obtain behind | lands := landing_depth fetched carried (effect_not_terminal falls counts)
        (sound _ _ carried)
        (fun offset back => prepared.distances offset (back ▸ List.mem_of_getElem? fetched)) lands
      · exact .inl behind
      · refine .inr ⟨depth - pops instr + pushes instr, ?_, by omega⟩
        rw [(exactly _ _).mpr lands, effect_eq falls counts]
        congr 1
        omega
  | handle raised handler =>
      next live value w h =>
        have kept := pass_raised M fetched enough raised
        have deep := prepared.protect ⟨instr, point.pc, point.pc + 1⟩
          (mem_decode.mpr ⟨fetched, rfl⟩) depth at_ h handler
        refine .inr ⟨h.stackDepth, prepared.bodies h (List.mem_of_find?_eq_some handler), ?_⟩
        simp only [List.length_take, List.length_set]
        simp only at deep
        omega

theorem entry_at_depth {mod : BytecodeModule} {found : List (Option Int)}
    (ok : reached mod = .ok found) {start : Point V W} (entry : start.pc = 0)
    (empty : start.live.length = mod.stackBase) : AtDepth mod found start := by
  obtain ⟨_, exactly, _⟩ := reached_ok ok
  by_cases some_ : mod.code = []
  · exact .inl (by simp [entry, some_])
  · refine .inr ⟨0, ?_, by simp [empty]⟩
    rw [entry, exactly]
    refine .seed ?_
    have present : (decode mod).isEmpty = false := by
      rw [List.isEmpty_eq_false_iff_exists_mem]
      obtain ⟨instr, more, code⟩ := List.exists_cons_of_ne_nil some_
      exact ⟨⟨instr, 0, 1⟩, mem_decode.mpr ⟨by simp [code], rfl⟩⟩
    simp [seeds, present]

/-- A run keeps the frame at the depth of its instruction. -/
theorem run_at_depth {M : Engine V W N} {mod : BytecodeModule} {found : List (Option Int)}
    (ok : reached mod = .ok found) (prepared : Prepared mod found) {start point : Point V W}
    (here : AtDepth mod found start) (run : Relation.ReflTransGen (Moves M mod) start point) :
    AtDepth mod found point := by
  induction run with
  | refl => exact here
  | tail _ moves before => exact move_at_depth ok prepared before moves

/-- Along every run from the entry, the frame has the operands that the emitter writes variables
for, and an instruction never reaches below them into the locals. -/
theorem runs_have_depths (M : Engine V W N) {mod : BytecodeModule} {found : List (Option Int)}
    (ok : reached mod = .ok found) (prepared : Prepared mod found) {start point : Point V W}
    (entry : start.pc = 0) (empty : start.live.length = mod.stackBase)
    (run : Relation.ReflTransGen (Moves M mod) start point) :
    ∃ D, depths mod = .ok D ∧ D.length = mod.code.length ∧
      ∀ instr, mod.code[point.pc]? = some instr →
        ∃ depth : Nat, D[point.pc]? = some (depth : Int) ∧
          point.live.length = mod.stackBase + depth ∧ pops instr ≤ depth := by
  obtain ⟨size, _, _⟩ := reached_ok ok
  refine ⟨found.map fun depth => depth.getD 0, by rw [depths, ok]; rfl, by simpa using size, ?_⟩
  intro instr fetched
  have inside := (List.getElem?_eq_some_iff.mp fetched).1
  obtain behind | ⟨depth, at_, length⟩ :=
    run_at_depth ok prepared (entry_at_depth ok entry empty) run
  · omega
  · have operands := prepared_operands prepared fetched at_
    refine ⟨depth, ?_, length, by omega⟩
    rw [List.getD_eq_getElem?_getD] at at_
    rw [List.getElem?_map]
    cases there : found[point.pc]? with
    | none => simp [there] at at_
    | some known => simp [there] at at_; simp [at_]

end Runs

/-- A call in a `try` whose handler pushes the caught value. -/
def callInTry : BytecodeModule where
  name := "f"
  arity := 0
  localCount := 1
  code := [.pushLocal 0, .call 0, .jump 1, .pushLocal 0, .ret]
  handlers := [⟨0, 2, 3, 0, 0, .catch⟩]

/-- Numbers for values, and every call raises 7. -/
def raising : Engine Nat Unit Empty where
  platform := {
    unit := 0, null := 0, trueValue := 1, falseValue := 0
    truthy := fun v _ => .ok (v == 1)
    primitive := fun _ _ w => (.ok 0, w)
    ownAttribute := fun _ _ _ => 0
    uncons := fun v _ => (v, v)
    failure := fun _ v w => (v, w)
    scalaError := fun _ _ => 0
    isZeroArgThunk := fun _ _ => false
    operate := fun _ _ w => .answer (.error 7) w
    perform := fun _ _ w => .answer (.error 7) w
    proceed := fun _ result w => .answer result w
    native := fun _ => false
    futureResult := fun _ _ => none }
  finish
    | .answer (.ok v) w => .done v w
    | .answer (.error e) w => .raised e w
    | _ => .diverged
  match_error_throws := fun _ _ _ _ => nofun

theorem call_in_try_reached :
    reached callInTry = .ok [some 0, some 1, some 1, some 0, some 1] := by decide +kernel

theorem call_in_try_prepared :
    Prepared callInTry [some 0, some 1, some 1, some 0, some 1] where
  counts := by decide
  distances := by simp [callInTry]
  operands := by decide
  bodies := by decide
  protect := by decide

/-- The call raises, and the handler is entered with the caught value in the local. -/
theorem call_in_try_run :
    Relation.ReflTransGen (Moves raising callInTry) ⟨0, [0], ()⟩ ⟨3, [7], ()⟩ := by
  have pushed : Moves raising callInTry ⟨0, [0], ()⟩ ⟨1, [0, 0], ()⟩ := .step rfl
  have raised : raising.pass callInTry ⟨1, [0, 0], ()⟩ = .raised [0] 7 () := rfl
  have handler : callInTry.handlerFor 1 = some ⟨0, 2, 3, 0, 0, .catch⟩ := rfl
  have handled : Moves raising callInTry ⟨1, [0, 0], ()⟩ ⟨3, [7], ()⟩ := .handle raised handler
  exact (Relation.ReflTransGen.single pushed).tail handled

theorem runs_have_depths_in_handler :
    ∃ D, depths callInTry = .ok D ∧ D.length = 5 ∧
      ∀ instr, callInTry.code[3]? = some instr →
        ∃ depth : Nat, D[3]? = some (depth : Int) ∧
          [7].length = callInTry.stackBase + depth ∧ pops instr ≤ depth :=
  runs_have_depths raising call_in_try_reached call_in_try_prepared rfl rfl call_in_try_run

end ProtoScala.Compiler.StackDepths
