import ProtoScala.Compiler.ConstantPool

/-!
# The instruction set and the modules it is stored in

One instruction is an opcode with its operand. An operand that indexes the
constant pool stands here as the constant itself, and a wide operand needs no
`EXTEND` word. Jump offsets are in instructions, from the next one.
-/

namespace ProtoScala.Compiler.Bytecode

open ProtoScala.Compiler.ConstantPool (Const)

set_option autoImplicit false

/-- The built-in types that a type pattern can name. -/
inductive TypeCode where
  | integer | double | boolean | char | string | unit | list | consList | function
  | anyRef | anyVal | null | nonNull | nothing
  deriving DecidableEq, Repr

inductive Instr where
  | pushConst (c : Const)
  | pushUnit | pushNull | pushTrue | pushFalse
  | pop | dup
  | pushLocal (slot : Nat)
  | storeLocal (slot : Nat)
  | makeCell (slot : Nat)
  | pushCell (slot : Nat)
  | storeCell (slot : Nat)
  | pushGlobal (symbol : Const)
  | storeGlobal (symbol : Const)
  | makeFn (block captureCount : Nat)
  | call (argc : Nat)
  | callSpread (argc : Nat)
  | send (site : Const)
  | sendApply (site : Const)
  | ret
  | makeLazy | force | forceThunk
  | jump (offset : Nat)
  | jumpIfFalse (offset : Nat)
  | jumpIfTrue (offset : Nat)
  | jumpBack (offset : Nat)
  | add | sub | mul | lt | le | gt | ge | eq | ne | neg | not
  | concat (pieces : Nat)
  | makeClass (spec : Const)
  | new (site : Const)
  | newSpread (site : Const)
  | invokeInit (site : Const)
  | storeField (key : Const)
  | storeFieldIfNew (key : Const)
  | storeFieldsIfNew (keys : Const)
  | setField (key : Const)
  | sendSuper (site : Const)
  | testType (code : TypeCode)
  | testProto (key : Const)
  | unapplyFields (keys : Const)
  | uncons
  | matchError
  | castFail (typeName : Const)
  | makeTuple (arity : Nat)
  | sendKw (site : Const)
  | callKw (site : Const)
  | throw
  | rethrow (slot : Nat)
  deriving DecidableEq

inductive HandlerKind where
  | catch | finally
  deriving DecidableEq, Repr

/-- A protected range of instructions, where its handler starts, the operand
depth the handler resets to and the local slot the caught value is written to. -/
structure Handler where
  startPc : Nat
  endPc : Nat
  handlerPc : Nat
  stackDepth : Nat
  slot : Nat
  kind : HandlerKind
  deriving DecidableEq, Repr

structure BytecodeModule where
  name : String
  arity : Nat
  localCount : Nat
  code : List Instr
  handlers : List Handler := []
  deriving DecidableEq

/-- The operand stack starts above the parameters and the locals. -/
def BytecodeModule.stackBase (mod : BytecodeModule) : Nat :=
  mod.arity + mod.localCount

/-- Table order is search order. -/
def BytecodeModule.handlerFor (mod : BytecodeModule) (pc : Nat) : Option Handler :=
  mod.handlers.find? fun h => h.startPc ≤ pc && pc < h.endPc

end ProtoScala.Compiler.Bytecode
