import Mathlib.Data.BitVec
import Mathlib.Data.List.GetD
import Mathlib.Tactic.IntervalCases

/-!
# Instruction words

An instruction is one 32-bit word, the opcode in the low eight bits and a 24-bit
operand above it; a wider operand is carried by an `EXTEND` word in front. `emit`
encodes, `emitJump` leaves a forward jump to be patched, `patchJumpTo` writes its
distance into the one word it has, and `emitJumpBack` measures its distance from the
word after the jump.

Three places decode the words again: `runLoop` fetches one instruction at a time,
`CppEmitter::decode` lists them with where each starts and ends, and `disassemble`
prints them with the word a jump lands on.
-/

namespace ProtoScala.Compiler.InstructionWords

set_option autoImplicit false

/-- The opcode, an enumeration over eight bits. -/
abbrev Op := BitVec 8

/-- `uint32_t`. -/
abbrev Instr := BitVec 32

/-- `uint64_t`. -/
abbrev Operand := BitVec 64

namespace Op

def EXTEND : Op := 1
def JUMP : Op := 23
def JUMP_IF_FALSE : Op := 24
def JUMP_IF_TRUE : Op := 25
def JUMP_BACK : Op := 26

end Op

def kOperandShift : Nat := 8
def kMaxOperand : Operand := 0xFFFFFF
def kMaxExtendedOperand : Operand := 0xFFFFFFFFFFFF

/-- The errors of the emitting functions, `std::length_error` and
`std::out_of_range`. -/
inductive Error where
  | operandLimit (op : Op) (operand : Operand)
  | badJump
  | bodyTooLarge
  deriving DecidableEq, Repr

/-- The text of an error, given the names of the opcodes. -/
def Error.what (opName : Op → String) : Error → String
  | .operandLimit op operand =>
      opName op ++ " operand " ++ toString operand.toNat ++ " exceeds the bytecode limit"
  | .badJump => "patchJumpTo: bad jump or target"
  | .bodyTooLarge => "function body too large"

structure BytecodeModule where
  code : List Instr
  lines : List Int
  deriving DecidableEq, Repr

/-- `pos()`, where the next instruction starts. -/
def BytecodeModule.pos (mod : BytecodeModule) : Nat := mod.code.length

/-- A word of an opcode and the low bits of an operand. -/
def encode (op : Op) (operand : Operand) : Instr :=
  (operand.setWidth 32 <<< kOperandShift) ||| op.setWidth 32

/-- The prefix with bits 24 to 47 of an operand. -/
def extend (operand : Operand) : Instr :=
  ((operand >>> 24) <<< kOperandShift).setWidth 32 ||| Op.EXTEND.setWidth 32

def BytecodeModule.append (mod : BytecodeModule) (word : Instr) (line : Int) : BytecodeModule :=
  { code := mod.code ++ [word], lines := mod.lines ++ [line] }

/-- The position returned is that of the word with the opcode. -/
def emit (mod : BytecodeModule) (op : Op) (operand : Operand) (line : Int) :
    Except Error (BytecodeModule × Nat) :=
  if kMaxExtendedOperand < operand then .error (.operandLimit op operand)
  else
    let prefixed := if kMaxOperand < operand then mod.append (extend operand) line else mod
    let low := if kMaxOperand < operand then operand &&& kMaxOperand else operand
    let next := prefixed.append (encode op low) line
    .ok (next, next.code.length - 1)

def emitJump (mod : BytecodeModule) (op : Op) (line : Int) : Except Error (BytecodeModule × Nat) :=
  emit mod op 0 line

def patchJumpTo (mod : BytecodeModule) (jumpAt target : Nat) : Except Error BytecodeModule :=
  if mod.code.length ≤ jumpAt ∨ target ≤ jumpAt then .error .badJump
  else
    let offset := target - (jumpAt + 1)
    if kMaxOperand.toNat < offset then .error .bodyTooLarge
    else
      let op := (mod.code.getD jumpAt 0 &&& 0xFF).setWidth 8
      .ok { mod with code := mod.code.set jumpAt (encode op (BitVec.ofNat 64 offset)) }

/-- The distance is unsigned: it wraps around for a target behind the jump. -/
def emitJumpBack (mod : BytecodeModule) (target : Nat) (line : Int) :
    Except Error (BytecodeModule × Nat) :=
  let offset :=
    if target ≤ mod.code.length + 1 then mod.code.length + 1 - target
    else 2 ^ 64 + (mod.code.length + 1) - target
  if kMaxOperand.toNat < offset then .error .bodyTooLarge
  else emit mod Op.JUMP_BACK (BitVec.ofNat 64 offset) line

def opOf (word : Instr) : Op := (word &&& 0xFF).setWidth 8

def operandOf (word : Instr) : Operand := (word >>> kOperandShift).setWidth 64

def combine (word next : Instr) : Operand := (operandOf word <<< 24) ||| operandOf next

/-- One round of `runLoop`: the instruction at `ip`, and `ip` behind it. -/
def fetch (code : List Instr) (ip : Nat) : Option (Op × Operand × Nat) :=
  match code[ip]? with
  | none => none
  | some word =>
      if opOf word = Op.EXTEND then
        match code[ip + 1]? with
        | none => none
        | some next => some (opOf next, combine word next, ip + 2)
      else some (opOf word, operandOf word, ip + 1)

/-- The instructions `runLoop` fetches from `ip` on while it takes no jump. -/
def sweep (code : List Instr) : Nat → Nat → List (Op × Operand)
  | 0, _ => []
  | rounds + 1, ip =>
      match fetch code ip with
      | none => []
      | some (op, operand, next) => (op, operand) :: sweep code rounds next

/-- Where a jump that is taken goes, `ip` standing behind it. -/
def jumpTarget (op : Op) (operand : Operand) (ip : Nat) : Option Nat :=
  if op = Op.JUMP ∨ op = Op.JUMP_IF_FALSE ∨ op = Op.JUMP_IF_TRUE then some (ip + operand.toNat)
  else if op = Op.JUMP_BACK then some (ip - operand.toNat)
  else none

/-- An instruction with the word it starts at and the word behind it. -/
structure Decoded where
  op : Op
  operand : Operand
  pc : Nat
  next : Nat
  deriving DecidableEq, Repr

/-- `CppEmitter::decode` from the word at `pc`; it throws on an `EXTEND` at the end. -/
def decodeFrom (pc : Nat) : List Instr → Option (List Decoded)
  | [] => some []
  | word :: rest =>
      if opOf word = Op.EXTEND then
        match rest with
        | [] => none
        | next :: rest =>
            (decodeFrom (pc + 2) rest).map (⟨opOf next, combine word next, pc, pc + 2⟩ :: ·)
      else (decodeFrom (pc + 1) rest).map (⟨opOf word, operandOf word, pc, pc + 1⟩ :: ·)

def decode (code : List Instr) : Option (List Decoded) := decodeFrom 0 code

/-- A line of the listing: the address printed, which is that of the opcode's word,
the instruction, and the word a jump lands on. -/
structure Listed where
  address : Nat
  op : Op
  operand : Operand
  target : Option Nat
  deriving DecidableEq, Repr

/-- The target that `commentFor` prints. -/
def commentTarget (op : Op) (operand : Operand) (instrPc : Nat) : Option Nat :=
  if op = Op.JUMP ∨ op = Op.JUMP_IF_FALSE ∨ op = Op.JUMP_IF_TRUE then
    some (instrPc + 1 + operand.toNat)
  else if op = Op.JUMP_BACK then some (instrPc + 1 - operand.toNat)
  else none

/-- `disassemble` from the word at `pc`; it stops at an `EXTEND` at the end. -/
def disassembleFrom (pc : Nat) : List Instr → List Listed
  | [] => []
  | word :: rest =>
      if opOf word = Op.EXTEND then
        match rest with
        | [] => []
        | next :: rest =>
            ⟨pc + 1, opOf next, combine word next,
              commentTarget (opOf next) (combine word next) (pc + 1)⟩ ::
              disassembleFrom (pc + 2) rest
      else
        ⟨pc, opOf word, operandOf word, commentTarget (opOf word) (operandOf word) pc⟩ ::
          disassembleFrom (pc + 1) rest

def disassemble (code : List Instr) : List Listed := disassembleFrom 0 code

/-! ## One word -/

theorem high_bit {operand : Operand} {n i : Nat} (small : operand.toNat < 2 ^ n)
    (above : n ≤ i) : operand.getLsbD i = false := by
  rw [← BitVec.testBit_toNat]
  exact Nat.testBit_lt_two_pow (small.trans_le (Nat.pow_le_pow_right Nat.two_pos above))

theorem op_encode (op : Op) (operand : Operand) : opOf (encode op operand) = op := by
  unfold opOf encode kOperandShift
  ext i bound
  simp only [BitVec.getElem_setWidth, BitVec.getLsbD_and, BitVec.getLsbD_or]
  interval_cases i <;> simp

theorem operand_encode (op : Op) {operand : Operand} (small : operand.toNat < 2 ^ 24) :
    operandOf (encode op operand) = operand := by
  unfold operandOf encode kOperandShift
  ext i bound
  by_cases low : i < 24
  · simp [show 8 + i < 32 by omega, show 8 + i < 64 by omega, BitVec.getLsbD_eq_getElem bound]
  · have zero := high_bit small (Nat.le_of_not_lt low)
    rw [BitVec.getLsbD_eq_getElem bound] at zero
    simp [zero, show ¬8 + i < 32 by omega]

theorem extend_eq_encode (operand : Operand) :
    extend operand = encode Op.EXTEND (operand >>> 24) := by
  unfold extend encode kOperandShift
  ext i bound
  by_cases low : i < 8
  · simp [low]
  · simp [low]

theorem low_bits (operand : Operand) : (operand &&& kMaxOperand).toNat < 2 ^ 24 := by
  rw [BitVec.toNat_and]
  exact Nat.and_lt_two_pow _ (by decide)

theorem high_and_low_bits (operand : Operand) :
    (operand >>> 24 <<< 24) ||| (operand &&& kMaxOperand) = operand := by
  unfold kMaxOperand
  ext i bound
  by_cases low : i < 24
  · interval_cases i <;> simp
  · interval_cases i <;> simp_all

theorem combine_extend (op : Op) {operand : Operand} (small : operand.toNat < 2 ^ 48) :
    combine (extend operand) (encode op (operand &&& kMaxOperand)) = operand := by
  have high : (operand >>> 24).toNat < 2 ^ 24 := by
    rw [BitVec.toNat_ushiftRight, Nat.shiftRight_eq_div_pow]
    omega
  rw [combine, extend_eq_encode, operand_encode _ high, operand_encode _ (low_bits operand),
    high_and_low_bits]

/-! ## A sequence of calls -/

/-- The calls that build the code of a module. -/
inductive Call where
  | emit (op : Op) (operand : Operand) (line : Int)
  | emitJump (op : Op) (line : Int)
  | patchJumpTo (jumpAt target : Nat)
  | emitJumpBack (target : Nat) (line : Int)
  deriving DecidableEq, Repr

/-- What was asked for, without words: the instructions in order, the positions of
the jumps to be patched with the instruction each one is, the jumps that have a
target, every target named, and every position that `pos()` had. -/
structure Asked where
  items : List (Op × Operand) := []
  jumps : List (Nat × Nat) := []
  landings : Nat → Option Nat := fun _ => none
  targets : List Nat := []
  positions : List Nat := [0]

/-- An instruction is asked for; `pos` is where the code ends with it. -/
def Asked.instruction (asked : Asked) (op : Op) (operand : Operand) (pos : Nat) : Asked :=
  { asked with items := asked.items ++ [(op, operand)], positions := pos :: asked.positions }

def Asked.landing (asked : Asked) (jumpAt target : Nat) : Asked :=
  { asked with
    landings := Function.update asked.landings jumpAt (some target)
    targets := target :: asked.targets }

/-- The operand of an instruction asked for before. -/
def Asked.setOperand (asked : Asked) (index : Nat) (operand : Operand) : Asked :=
  { asked with items := asked.items.modify index fun item => (item.1, operand) }

/-- One call, and what was asked for with it. -/
def Call.apply (call : Call) (mod : BytecodeModule) (asked : Asked) :
    Except Error (BytecodeModule × Asked) :=
  match call with
  | .emit op operand line =>
      (InstructionWords.emit mod op operand line).map fun (next, _) =>
        (next, asked.instruction op operand next.pos)
  | .emitJump op line =>
      (InstructionWords.emitJump mod op line).map fun (next, jumpAt) =>
        (next, { asked.instruction op 0 next.pos with
          jumps := (jumpAt, asked.items.length) :: asked.jumps })
  | .patchJumpTo jumpAt target =>
      (InstructionWords.patchJumpTo mod jumpAt target).map fun next =>
        (next, match asked.jumps.lookup jumpAt with
          | some index =>
              (asked.setOperand index (BitVec.ofNat 64 (target - (jumpAt + 1)))).landing jumpAt
                target
          | none => asked)
  | .emitJumpBack target line =>
      (InstructionWords.emitJumpBack mod target line).map fun (next, jumpAt) =>
        (next, (asked.instruction Op.JUMP_BACK
          (BitVec.ofNat 64 (mod.pos + 1 - target)) next.pos).landing jumpAt target)

def runCalls : List Call → BytecodeModule → Asked → Except Error (BytecodeModule × Asked)
  | [], mod, asked => .ok (mod, asked)
  | call :: later, mod, asked =>
      match call.apply mod asked with
      | .ok (next, asked) => runCalls later next asked
      | .error reason => .error reason

def isForwardJump (op : Op) : Bool :=
  op == Op.JUMP || op == Op.JUMP_IF_FALSE || op == Op.JUMP_IF_TRUE

/-- A call as the compiler makes it: it leaves `EXTEND` to `emit`, patches jumps that
`emitJump` returned, and names an earlier position for a jump back. -/
def Call.plain (call : Call) (asked : Asked) : Bool :=
  match call with
  | .emit op _ _ => op != Op.EXTEND
  | .emitJump op _ => isForwardJump op
  | .patchJumpTo jumpAt _ => (asked.jumps.lookup jumpAt).isSome
  | .emitJumpBack target _ => asked.positions.contains target

def allPlain : List Call → BytecodeModule → Asked → Bool
  | [], _, asked => asked.targets.all asked.positions.contains
  | call :: later, mod, asked =>
      call.plain asked &&
        match call.apply mod asked with
        | .ok (next, asked) => allPlain later next asked
        | .error _ => true

/-- Where the instructions asked for stand: one word, or two with an `EXTEND`. -/
def layoutFrom (pc : Nat) : List (Op × Operand) → List Decoded
  | [] => []
  | (op, operand) :: rest =>
      let next := if kMaxOperand < operand then pc + 2 else pc + 1
      ⟨op, operand, pc, next⟩ :: layoutFrom next rest

def layout (items : List (Op × Operand)) : List Decoded := layoutFrom 0 items

/-- The words of a module say what was asked for, to all who decode them. -/
structure RoundTrip (code : List Instr) (asked : Asked) : Prop where
  swept : sweep code code.length 0 = asked.items
  fetched : ∀ instruction ∈ layout asked.items,
    fetch code instruction.pc = some (instruction.op, instruction.operand, instruction.next)
  decoded : decode code = some (layout asked.items)
  listed : disassemble code = (layout asked.items).map fun instruction =>
    ⟨instruction.next - 1, instruction.op, instruction.operand,
      jumpTarget instruction.op instruction.operand instruction.next⟩
  landed : ∀ jumpAt target, asked.landings jumpAt = some target →
    ∃ op operand, fetch code jumpAt = some (op, operand, jumpAt + 1) ∧
      jumpTarget op operand (jumpAt + 1) = some target
  whole : ∀ target ∈ asked.targets, ∀ instruction ∈ layout asked.items,
    ¬(instruction.pc < target ∧ target < instruction.next)

/-! ## The words of the instructions asked for -/

/-- The words `emit` appends for an instruction. -/
def words (item : Op × Operand) : List Instr :=
  if kMaxOperand < item.2 then [extend item.2, encode item.1 (item.2 &&& kMaxOperand)]
  else [encode item.1 item.2]

/-- An instruction that can be read back from its words. -/
def Readable (item : Op × Operand) : Prop := item.1 ≠ Op.EXTEND ∧ item.2.toNat < 2 ^ 48

/-- The word the instruction of an index starts at. -/
def start (items : List (Op × Operand)) (index : Nat) : Nat :=
  ((items.take index).flatMap words).length

theorem narrow_iff (operand : Operand) : ¬kMaxOperand < operand ↔ operand.toNat < 2 ^ 24 := by
  rw [BitVec.not_lt, BitVec.le_def]
  change operand.toNat ≤ 16777215 ↔ operand.toNat < 2 ^ 24
  omega

theorem words_narrow (item : Op × Operand) (small : item.2.toNat < 2 ^ 24) :
    words item = [encode item.1 item.2] :=
  if_neg ((narrow_iff item.2).mpr small)

theorem op_extend (operand : Operand) : opOf (extend operand) = Op.EXTEND := by
  rw [extend_eq_encode, op_encode]

theorem fetch_words {item : Op × Operand} (readable : Readable item) (before after : List Instr) :
    fetch (before ++ (words item ++ after)) before.length =
      some (item.1, item.2, before.length + (words item).length) := by
  unfold fetch words
  by_cases wide : kMaxOperand < item.2
  · simp [wide, op_extend, op_encode, combine_extend item.1 readable.2]
  · have small := (narrow_iff item.2).mp wide
    simp [wide, op_encode, readable.1, operand_encode item.1 small]

theorem decodeFrom_words {item : Op × Operand} (readable : Readable item) (pc : Nat)
    (after : List Instr) :
    decodeFrom pc (words item ++ after) =
      (decodeFrom (pc + (words item).length) after).map
        (⟨item.1, item.2, pc, pc + (words item).length⟩ :: ·) := by
  unfold words
  by_cases wide : kMaxOperand < item.2
  · simp [wide, decodeFrom, op_extend, op_encode, combine_extend item.1 readable.2]
  · have small := (narrow_iff item.2).mp wide
    cases after <;> simp [wide, decodeFrom, op_encode, readable.1, operand_encode item.1 small]

theorem disassembleFrom_words {item : Op × Operand} (readable : Readable item) (pc : Nat)
    (after : List Instr) :
    disassembleFrom pc (words item ++ after) =
      ⟨pc + (words item).length - 1, item.1, item.2,
        commentTarget item.1 item.2 (pc + (words item).length - 1)⟩ ::
        disassembleFrom (pc + (words item).length) after := by
  unfold words
  by_cases wide : kMaxOperand < item.2
  · simp [wide, disassembleFrom, op_extend, op_encode, combine_extend item.1 readable.2]
  · have small := (narrow_iff item.2).mp wide
    cases after <;>
      simp [wide, disassembleFrom, op_encode, readable.1, operand_encode item.1 small]

theorem words_length (item : Op × Operand) :
    (words item).length = if kMaxOperand < item.2 then 2 else 1 := by
  unfold words
  split <;> rfl

theorem layoutFrom_cons (pc : Nat) (item : Op × Operand) (rest : List (Op × Operand)) :
    layoutFrom pc (item :: rest) =
      ⟨item.1, item.2, pc, pc + (words item).length⟩ ::
        layoutFrom (pc + (words item).length) rest := by
  rw [words_length, layoutFrom]
  by_cases wide : kMaxOperand < item.2
  · simp only [wide, if_true]
  · simp only [wide, if_false]

theorem length_le_words (items : List (Op × Operand)) :
    items.length ≤ (items.flatMap words).length := by
  induction items with
  | nil => exact le_rfl
  | cons item rest ih =>
    rw [List.flatMap_cons, List.length_append, List.length_cons, words_length]
    split <;> omega

/-! ## Reading the words back -/

theorem sweep_words {items : List (Op × Operand)} (readable : ∀ item ∈ items, Readable item) :
    ∀ (before : List Instr) (rounds : Nat), items.length ≤ rounds →
      sweep (before ++ items.flatMap words) rounds before.length = items := by
  induction items with
  | nil =>
    intro before rounds enough
    cases rounds with
    | zero => rfl
    | succ rounds => simp [sweep, fetch]
  | cons item rest ih =>
    intro before rounds enough
    obtain ⟨rounds, rfl⟩ : ∃ fewer, rounds = fewer + 1 :=
      ⟨rounds - 1, by simp only [List.length_cons] at enough; omega⟩
    have later := ih (fun other member => readable other (.tail _ member))
      (before ++ words item) rounds (by simpa using enough)
    rw [List.append_assoc, List.length_append] at later
    rw [List.flatMap_cons, sweep, fetch_words (readable item (.head _)) before]
    exact congrArg _ later

theorem decodeFrom_flatMap {items : List (Op × Operand)}
    (readable : ∀ item ∈ items, Readable item) :
    ∀ pc, decodeFrom pc (items.flatMap words) = some (layoutFrom pc items) := by
  induction items with
  | nil => intro pc; rfl
  | cons item rest ih =>
    intro pc
    rw [List.flatMap_cons, decodeFrom_words (readable item (.head _)), layoutFrom_cons,
      ih fun other member => readable other (.tail _ member)]
    rfl

theorem comment_eq_jump (op : Op) (operand : Operand) {next : Nat} (positive : 0 < next) :
    commentTarget op operand (next - 1) = jumpTarget op operand next := by
  unfold commentTarget jumpTarget
  rw [Nat.sub_add_cancel positive]

theorem disassembleFrom_flatMap {items : List (Op × Operand)}
    (readable : ∀ item ∈ items, Readable item) :
    ∀ pc, disassembleFrom pc (items.flatMap words) =
      (layoutFrom pc items).map fun instruction =>
        ⟨instruction.next - 1, instruction.op, instruction.operand,
          jumpTarget instruction.op instruction.operand instruction.next⟩ := by
  induction items with
  | nil => intro pc; rfl
  | cons item rest ih =>
    intro pc
    have positive : 0 < pc + (words item).length := by
      rw [words_length]
      split <;> omega
    rw [List.flatMap_cons, disassembleFrom_words (readable item (.head _)), layoutFrom_cons,
      ih fun other member => readable other (.tail _ member), List.map_cons,
      comment_eq_jump item.1 item.2 positive]

theorem mem_layoutFrom {items : List (Op × Operand)} {instruction : Decoded} :
    ∀ {pc}, instruction ∈ layoutFrom pc items →
      ∃ before item after, items = before ++ item :: after ∧
        instruction = ⟨item.1, item.2, pc + (before.flatMap words).length,
          pc + (before.flatMap words).length + (words item).length⟩ := by
  induction items with
  | nil => intro pc member; cases member
  | cons item rest ih =>
    intro pc member
    rw [layoutFrom_cons, List.mem_cons] at member
    cases member with
    | inl first => exact ⟨[], item, rest, rfl, by simpa using first⟩
    | inr later =>
      obtain ⟨before, found, after, rfl, rfl⟩ := ih later
      exact ⟨item :: before, found, after, rfl, by simp [Nat.add_assoc]⟩

theorem start_le (items : List (Op × Operand)) (index : Nat) :
    start items index ≤ (items.flatMap words).length := by
  conv => rhs; rw [← List.take_append_drop index items]
  rw [List.flatMap_append, List.length_append]
  exact Nat.le_add_right _ _

/-- No instruction has the start of another one inside it. -/
theorem start_outside (before after : List (Op × Operand)) (item : Op × Operand) (index : Nat) :
    start (before ++ item :: after) index ≤ (before.flatMap words).length ∨
      (before.flatMap words).length + (words item).length ≤
        start (before ++ item :: after) index := by
  by_cases early : index ≤ before.length
  · left
    rw [start, List.take_append_of_le_length early]
    exact start_le before index
  · right
    obtain ⟨more, rfl⟩ : ∃ more, index = before.length + (more + 1) :=
      ⟨index - before.length - 1, by omega⟩
    rw [start, List.take_length_add_append, List.take_succ_cons, List.flatMap_append,
      List.flatMap_cons, List.length_append, List.length_append]
    omega

/-! ## What the calls keep -/

/-- An instruction of one word that starts at `jumpAt`. -/
def Single (items : List (Op × Operand)) (index jumpAt : Nat) (item : Op × Operand) : Prop :=
  items[index]? = some item ∧ start items index = jumpAt ∧ item.2.toNat < 2 ^ 24

/-- The words are those of the instructions asked for, and every position that was
handed out is the start of one. -/
structure Written (code : List Instr) (asked : Asked) : Prop where
  words_of : code = asked.items.flatMap words
  readable : ∀ item ∈ asked.items, Readable item
  jumps : ∀ jumpAt index, asked.jumps.lookup jumpAt = some index →
    ∃ item, Single asked.items index jumpAt item ∧ isForwardJump item.1 = true
  positions : ∀ position ∈ asked.positions, ∃ index, start asked.items index = position
  landings : ∀ jumpAt target, asked.landings jumpAt = some target →
    ∃ index item, Single asked.items index jumpAt item ∧
      jumpTarget item.1 item.2 (jumpAt + 1) = some target

theorem written_nothing : Written [] {} where
  words_of := rfl
  readable := by intro item member; cases member
  jumps := by intro jumpAt index found; cases found
  positions := by
    intro position member
    exact ⟨0, (List.mem_singleton.mp member).symm⟩
  landings := by intro jumpAt target found; cases found

theorem start_more {items more : List (Op × Operand)} {index : Nat} (within : index ≤ items.length) :
    start (items ++ more) index = start items index := by
  unfold start
  rw [List.take_append_of_le_length within]

theorem start_length (items : List (Op × Operand)) :
    start items items.length = (items.flatMap words).length := by
  unfold start
  rw [List.take_length]

theorem start_past {items : List (Op × Operand)} {index : Nat} (past : items.length ≤ index) :
    start items index = start items items.length := by
  unfold start
  rw [List.take_of_length_le past, List.take_length]

theorem index_lt {items : List (Op × Operand)} {index jumpAt : Nat} {item : Op × Operand}
    (single : Single items index jumpAt item) : index < items.length :=
  (List.getElem?_eq_some_iff.mp single.1).1

theorem single_more {items more : List (Op × Operand)} {index jumpAt : Nat} {item : Op × Operand}
    (single : Single items index jumpAt item) : Single (items ++ more) index jumpAt item := by
  have within := index_lt single
  refine ⟨?_, ?_, single.2.2⟩
  · rw [List.getElem?_append_left within]
    exact single.1
  · rw [start_more within.le]
    exact single.2.1

theorem single_last (items : List (Op × Operand)) {item : Op × Operand}
    (small : item.2.toNat < 2 ^ 24) :
    Single (items ++ [item]) items.length (items.flatMap words).length item := by
  refine ⟨by simp, ?_, small⟩
  rw [start_more le_rfl, start_length]

/-- An instruction more, with nothing said of where it jumps. -/
theorem written_instruction {code : List Instr} {asked : Asked} (written : Written code asked)
    (item : Op × Operand) (readable : Readable item) :
    Written (code ++ words item)
      (asked.instruction item.1 item.2 (code ++ words item).length) where
  words_of := by
    change code ++ words item = (asked.items ++ [item]).flatMap words
    rw [List.flatMap_append, ← written.words_of, List.flatMap_singleton]
  readable := by
    intro other member
    cases List.mem_append.mp member with
    | inl old => exact written.readable other old
    | inr new => exact List.mem_singleton.mp new ▸ readable
  jumps := by
    intro jumpAt index found
    obtain ⟨other, single, forward⟩ := written.jumps jumpAt index found
    exact ⟨other, single_more single, forward⟩
  positions := by
    intro position member
    cases List.mem_cons.mp member with
    | inl new =>
      refine ⟨(asked.items ++ [item]).length, ?_⟩
      rw [new, written.words_of]
      change start (asked.items ++ [item]) _ = _
      rw [start_length, List.flatMap_append, List.flatMap_singleton]
    | inr old =>
      obtain ⟨index, rfl⟩ := written.positions position old
      change ∃ index, start (asked.items ++ [item]) index = _
      by_cases within : index ≤ asked.items.length
      · exact ⟨index, start_more within⟩
      · refine ⟨asked.items.length, ?_⟩
        rw [start_more le_rfl, start_past (Nat.le_of_not_le within)]
  landings := by
    intro jumpAt target found
    obtain ⟨index, other, single, lands⟩ := written.landings jumpAt target found
    exact ⟨index, other, single_more single, lands⟩

theorem emit_words {mod next : BytecodeModule} {op : Op} {operand : Operand} {line : Int}
    {position : Nat} (emitted : emit mod op operand line = .ok (next, position)) :
    operand.toNat < 2 ^ 48 ∧ next.code = mod.code ++ words (op, operand) ∧
      position = next.code.length - 1 := by
  unfold emit at emitted
  split at emitted
  · cases emitted
  · rename_i inside
    cases emitted
    refine ⟨?_, ?_, rfl⟩
    · rw [BitVec.not_lt, BitVec.le_def] at inside
      exact Nat.lt_succ_of_le inside
    · unfold words BytecodeModule.append
      by_cases wide : kMaxOperand < operand <;> simp [wide]

/-- A jump that is named for a target, and lands on it. -/
theorem written_landing {code : List Instr} {asked : Asked} (written : Written code asked)
    {index jumpAt target : Nat} {item : Op × Operand}
    (single : Single asked.items index jumpAt item)
    (lands : jumpTarget item.1 item.2 (jumpAt + 1) = some target) :
    Written code (asked.landing jumpAt target) where
  words_of := written.words_of
  readable := written.readable
  jumps := written.jumps
  positions := written.positions
  landings := by
    intro place named found
    by_cases same : place = jumpAt
    · subst same
      have eq : some target = some named := by simpa [Asked.landing] using found
      cases eq
      exact ⟨index, item, single, lands⟩
    · exact written.landings place named (by simpa [Asked.landing, same] using found)

/-! ## A jump patched -/

theorem split_at {items : List (Op × Operand)} {index jumpAt : Nat} {item : Op × Operand}
    (single : Single items index jumpAt item) :
    ∃ before after, items = before ++ item :: after ∧ before.length = index ∧
      (before.flatMap words).length = jumpAt := by
  obtain ⟨within, found⟩ := List.getElem?_eq_some_iff.mp single.1
  refine ⟨items.take index, items.drop (index + 1), ?_, ?_, single.2.1⟩
  · rw [← found, List.getElem_cons_drop, List.take_append_drop]
  · exact List.length_take_of_le within.le

theorem modify_middle (before after : List (Op × Operand)) (item : Op × Operand)
    (change : Op × Operand → Op × Operand) :
    (before ++ item :: after).modify before.length change = before ++ change item :: after := by
  induction before with
  | nil => rfl
  | cons first before ih => simpa [List.modify] using ih

theorem start_eq_sum (items : List (Op × Operand)) (index : Nat) :
    start items index = ((items.map fun item => (words item).length).take index).sum := by
  rw [start, List.length_flatMap, List.map_take]

/-- The items with the operand of one of them changed. -/
def withOperand (items : List (Op × Operand)) (index : Nat) (operand : Operand) :
    List (Op × Operand) :=
  items.modify index fun item => (item.1, operand)

section Patched

variable {items : List (Op × Operand)} {index jumpAt : Nat} {item : Op × Operand}
  {operand : Operand}

theorem start_patched (single : Single items index jumpAt item) (small : operand.toNat < 2 ^ 24)
    (other : Nat) : start (withOperand items index operand) other = start items other := by
  obtain ⟨before, after, rfl, rfl, -⟩ := split_at single
  rw [withOperand, modify_middle, start_eq_sum, start_eq_sum]
  simp only [List.map_append, List.map_cons, words_narrow (item.1, operand) small,
    words_narrow item single.2.2, List.length_singleton]

theorem words_patched (single : Single items index jumpAt item) (small : operand.toNat < 2 ^ 24) :
    (withOperand items index operand).flatMap words =
      (items.flatMap words).set jumpAt (encode item.1 operand) := by
  obtain ⟨before, after, rfl, rfl, rfl⟩ := split_at single
  rw [withOperand, modify_middle, List.flatMap_append, List.flatMap_append, List.flatMap_cons,
    List.flatMap_cons, words_narrow (item.1, operand) small, words_narrow item single.2.2]
  simp

theorem word_at (single : Single items index jumpAt item) :
    (items.flatMap words)[jumpAt]? = some (encode item.1 item.2) := by
  obtain ⟨before, after, rfl, rfl, rfl⟩ := split_at single
  rw [List.flatMap_append, List.flatMap_cons, words_narrow item single.2.2]
  simp

theorem single_patched (single : Single items index jumpAt item) (small : operand.toNat < 2 ^ 24) :
    Single (withOperand items index operand) index jumpAt (item.1, operand) := by
  refine ⟨?_, ?_, small⟩
  · rw [withOperand, List.getElem?_modify_eq, single.1]
    rfl
  · rw [start_patched single small]
    exact single.2.1

theorem single_other (single : Single items index jumpAt item) (small : operand.toNat < 2 ^ 24)
    {index' jumpAt' : Nat} {item' : Op × Operand} (single' : Single items index' jumpAt' item')
    (different : index ≠ index') :
    Single (withOperand items index operand) index' jumpAt' item' := by
  refine ⟨?_, ?_, single'.2.2⟩
  · rw [withOperand, List.getElem?_modify_ne _ _ different]
    exact single'.1
  · rw [start_patched single small]
    exact single'.2.1

end Patched

theorem written_patched {code : List Instr} {asked : Asked} (written : Written code asked)
    {index jumpAt : Nat} {item : Op × Operand} {operand : Operand}
    (single : Single asked.items index jumpAt item) (small : operand.toNat < 2 ^ 24)
    {target : Nat} (lands : jumpTarget item.1 operand (jumpAt + 1) = some target) :
    Written (code.set jumpAt (encode item.1 operand))
      ((asked.setOperand index operand).landing jumpAt target) where
  words_of := by
    rw [written.words_of]
    exact (words_patched single small).symm
  readable := by
    obtain ⟨before, after, split, rfl, -⟩ := split_at single
    change ∀ other ∈ withOperand asked.items before.length operand, Readable other
    rw [withOperand, split, modify_middle]
    intro other member
    have readable := written.readable
    rw [split] at readable
    cases List.mem_append.mp member with
    | inl early => exact readable other (List.mem_append_left _ early)
    | inr late =>
      cases List.mem_cons.mp late with
      | inl this =>
        rw [this]
        exact ⟨(readable item (by simp)).1, small.trans (by decide)⟩
      | inr later => exact readable other (by simp [later])
  jumps := by
    intro place other found
    obtain ⟨kept, keptSingle, forward⟩ := written.jumps place other found
    by_cases same : index = other
    · subst same
      cases Option.some.inj (single.1.symm.trans keptSingle.1)
      cases single.2.1.symm.trans keptSingle.2.1
      exact ⟨(item.1, operand), single_patched single small, forward⟩
    · exact ⟨kept, single_other single small keptSingle same, forward⟩
  positions := by
    intro position member
    obtain ⟨other, rfl⟩ := written.positions position member
    exact ⟨other, start_patched single small other⟩
  landings := by
    intro place named found
    by_cases same : place = jumpAt
    · subst same
      have eq : some target = some named := by simpa [Asked.landing] using found
      cases eq
      exact ⟨index, (item.1, operand), single_patched single small, lands⟩
    · obtain ⟨other, kept, keptSingle, keptLands⟩ := written.landings place named
        (by simpa [Asked.landing, Asked.setOperand, same] using found)
      -- the starts differ, so it is another instruction
      have different : index ≠ other := by
        rintro rfl
        exact same (keptSingle.2.1.symm.trans single.2.1)
      exact ⟨other, kept, single_other single small keptSingle different, keptLands⟩

theorem patchJumpTo_words {mod next : BytecodeModule} {jumpAt target : Nat}
    (patched : patchJumpTo mod jumpAt target = .ok next) :
    jumpAt < target ∧ target - (jumpAt + 1) < 2 ^ 24 ∧
      next.code = mod.code.set jumpAt
        (encode (opOf (mod.code.getD jumpAt 0)) (BitVec.ofNat 64 (target - (jumpAt + 1)))) := by
  unfold patchJumpTo at patched
  split at patched
  · cases patched
  · rename_i good
    simp only at patched
    split at patched
    · cases patched
    · rename_i inside
      cases patched
      refine ⟨by omega, ?_, rfl⟩
      exact Nat.lt_succ_of_le (Nat.le_of_not_lt inside)

theorem emitJumpBack_words {mod next : BytecodeModule} {target : Nat} {line : Int}
    {position : Nat} (emitted : emitJumpBack mod target line = .ok (next, position))
    (earlier : target ≤ mod.pos) :
    mod.pos + 1 - target < 2 ^ 24 ∧ position = mod.pos ∧
      next.code = mod.code ++
        words (Op.JUMP_BACK, BitVec.ofNat 64 (mod.pos + 1 - target)) := by
  unfold emitJumpBack at emitted
  unfold BytecodeModule.pos at *
  rw [if_pos (show target ≤ mod.code.length + 1 by omega)] at emitted
  simp only at emitted
  split at emitted
  · cases emitted
  · rename_i inside
    have small : mod.code.length + 1 - target < 2 ^ 24 :=
      Nat.lt_succ_of_le (Nat.le_of_not_lt inside)
    obtain ⟨-, code, place⟩ := emit_words emitted
    refine ⟨small, ?_, code⟩
    rw [place, code, words_narrow _ (by simp only [BitVec.toNat_ofNat]; omega)]
    simp

theorem forward_lands {op : Op} (forward : isForwardJump op = true) (operand : Operand) (ip : Nat) :
    jumpTarget op operand ip = some (ip + operand.toNat) := by
  unfold isForwardJump at forward
  simp only [Bool.or_eq_true, beq_iff_eq] at forward
  exact if_pos (by tauto)

theorem operand_distance {distance : Nat} (small : distance < 2 ^ 24) :
    (BitVec.ofNat 64 distance).toNat = distance := by
  rw [BitVec.toNat_ofNat]
  omega

/-! ## A run of calls -/

theorem emit_step {mod next : BytecodeModule} {asked : Asked} (written : Written mod.code asked)
    {op : Op} {operand : Operand} {line : Int} {position : Nat}
    (emitted : emit mod op operand line = .ok (next, position)) (plain : op ≠ Op.EXTEND) :
    Written next.code (asked.instruction op operand next.pos) := by
  obtain ⟨small, code, -⟩ := emit_words emitted
  unfold BytecodeModule.pos
  rw [code]
  exact written_instruction written (op, operand) ⟨plain, small⟩

theorem emitJump_step {mod next : BytecodeModule} {asked : Asked}
    (written : Written mod.code asked) {op : Op} {line : Int} {position : Nat}
    (emitted : emitJump mod op line = .ok (next, position)) (forward : isForwardJump op = true) :
    Written next.code { asked.instruction op 0 next.pos with
      jumps := (position, asked.items.length) :: asked.jumps } := by
  have plain : op ≠ Op.EXTEND := by
    rintro rfl
    exact absurd forward (by decide)
  have kept := emit_step written emitted plain
  obtain ⟨-, code, place⟩ := emit_words emitted
  have narrow : (op, (0 : Operand)).2.toNat < 2 ^ 24 := Nat.two_pow_pos 24
  refine ⟨kept.words_of, kept.readable, ?_, kept.positions, kept.landings⟩
  intro jumpAt index found
  rw [List.lookup_cons] at found
  by_cases same : jumpAt = position
  · subst same
    have index_eq : asked.items.length = index := by simpa using found
    subst index_eq
    refine ⟨(op, 0), ?_, forward⟩
    have last := single_last asked.items narrow
    rw [← written.words_of] at last
    have place_eq : jumpAt = mod.code.length := by
      rw [place, code, words_narrow _ narrow, List.length_append]
      rfl
    rw [place_eq]
    exact last
  · rw [beq_eq_false_iff_ne.mpr same] at found
    exact kept.jumps jumpAt index found

theorem patchJumpTo_step {mod next : BytecodeModule} {asked : Asked}
    (written : Written mod.code asked) {jumpAt target index : Nat}
    (patched : patchJumpTo mod jumpAt target = .ok next)
    (found : asked.jumps.lookup jumpAt = some index) :
    Written next.code ((asked.setOperand index
      (BitVec.ofNat 64 (target - (jumpAt + 1)))).landing jumpAt target) := by
  obtain ⟨item, single, forward⟩ := written.jumps jumpAt index found
  obtain ⟨ahead, small, code⟩ := patchJumpTo_words patched
  have op_eq : opOf (mod.code.getD jumpAt 0) = item.1 := by
    have word := word_at single
    rw [← written.words_of] at word
    rw [List.getD_eq_getElem?_getD, word]
    exact op_encode item.1 item.2
  rw [code, op_eq]
  refine written_patched written single ?_ ?_
  · rw [operand_distance small]
    exact small
  · rw [forward_lands forward, operand_distance small]
    exact congrArg some (Nat.add_sub_cancel' ahead)

theorem emitJumpBack_step {mod next : BytecodeModule} {asked : Asked}
    (written : Written mod.code asked) {target : Nat} {line : Int} {position : Nat}
    (emitted : emitJumpBack mod target line = .ok (next, position))
    (earlier : target ∈ asked.positions) :
    Written next.code ((asked.instruction Op.JUMP_BACK
      (BitVec.ofNat 64 (mod.pos + 1 - target)) next.pos).landing position target) := by
  have before : target ≤ mod.pos := by
    obtain ⟨index, rfl⟩ := written.positions target earlier
    unfold BytecodeModule.pos
    rw [written.words_of]
    exact start_le asked.items index
  obtain ⟨small, place, code⟩ := emitJumpBack_words emitted before
  set item : Op × Operand := (Op.JUMP_BACK, BitVec.ofNat 64 (mod.pos + 1 - target)) with item_eq
  have distance : item.2.toNat = mod.pos + 1 - target := operand_distance small
  have narrow : item.2.toNat < 2 ^ 24 := distance ▸ small
  have opcode : item.1 ≠ Op.EXTEND := show Op.JUMP_BACK ≠ Op.EXTEND by decide
  have kept := written_instruction written item ⟨opcode, narrow.trans (by decide)⟩
  rw [← code] at kept
  have single : Single (asked.items ++ [item]) asked.items.length position item := by
    have last := single_last asked.items narrow
    rw [← written.words_of] at last
    rw [place]
    exact last
  refine written_landing kept single ?_
  change some (position + 1 - item.2.toNat) = some target
  rw [distance, place]
  exact congrArg some (by omega)

theorem apply_written {call : Call} {mod next : BytecodeModule} {asked asked' : Asked}
    (written : Written mod.code asked) (plain : call.plain asked = true)
    (applied : call.apply mod asked = .ok (next, asked')) : Written next.code asked' := by
  cases call with
  | emit op operand line =>
    cases emitted : emit mod op operand line with
    | error reason => simp [Call.apply, emitted, Except.map] at applied
    | ok result =>
      simp only [Call.apply, emitted, Except.map] at applied
      cases applied
      exact emit_step written emitted (by simpa [Call.plain] using plain)
  | emitJump op line =>
    cases emitted : emitJump mod op line with
    | error reason => simp [Call.apply, emitted, Except.map] at applied
    | ok result =>
      simp only [Call.apply, emitted, Except.map] at applied
      cases applied
      exact emitJump_step written emitted plain
  | patchJumpTo jumpAt target =>
    cases patched : patchJumpTo mod jumpAt target with
    | error reason => simp [Call.apply, patched, Except.map] at applied
    | ok result =>
      obtain ⟨index, found⟩ := Option.isSome_iff_exists.mp plain
      simp only [Call.apply, patched, Except.map, found] at applied
      cases applied
      exact patchJumpTo_step written patched found
  | emitJumpBack target line =>
    cases emitted : emitJumpBack mod target line with
    | error reason => simp [Call.apply, emitted, Except.map] at applied
    | ok result =>
      simp only [Call.apply, emitted, Except.map] at applied
      cases applied
      exact emitJumpBack_step written emitted (by simpa [Call.plain] using plain)

theorem runCalls_written {calls : List Call} :
    ∀ {mod last : BytecodeModule} {asked asked' : Asked}, Written mod.code asked →
      runCalls calls mod asked = .ok (last, asked') → allPlain calls mod asked = true →
      Written last.code asked' ∧ ∀ target ∈ asked'.targets, target ∈ asked'.positions := by
  induction calls with
  | nil =>
    intro mod last asked asked' written ran plain
    cases ran
    refine ⟨written, ?_⟩
    simpa [allPlain] using plain
  | cons call later ih =>
    intro mod last asked asked' written ran plain
    simp only [allPlain, Bool.and_eq_true] at plain
    cases applied : call.apply mod asked with
    | error reason => simp [runCalls, applied] at ran
    | ok result =>
      obtain ⟨next, told⟩ := result
      simp only [runCalls, applied] at ran plain
      exact ih (apply_written written plain.1 applied) ran plain.2

theorem fetch_single {items : List (Op × Operand)} (readable : ∀ item ∈ items, Readable item)
    {index jumpAt : Nat} {item : Op × Operand} (single : Single items index jumpAt item) :
    fetch (items.flatMap words) jumpAt = some (item.1, item.2, jumpAt + 1) := by
  obtain ⟨before, after, rfl, rfl, rfl⟩ := split_at single
  rw [List.flatMap_append, List.flatMap_cons, fetch_words (readable item (by simp)),
    words_narrow item single.2.2]
  rfl

/-- For every sequence of calls as the compiler makes them. -/
theorem words_round_trip (calls : List Call) (mod : BytecodeModule) (asked : Asked)
    (ran : runCalls calls ⟨[], []⟩ {} = .ok (mod, asked))
    (plain : allPlain calls ⟨[], []⟩ {} = true) : RoundTrip mod.code asked := by
  obtain ⟨written, known⟩ := runCalls_written written_nothing ran plain
  refine ⟨?_, ?_, ?_, ?_, ?_, ?_⟩
  · rw [written.words_of]
    exact sweep_words written.readable [] _ (length_le_words asked.items)
  · intro instruction member
    obtain ⟨before, item, after, split, rfl⟩ := mem_layoutFrom member
    have readable := written.readable item (by rw [split]; simp)
    simp only [Nat.zero_add]
    rw [written.words_of, split, List.flatMap_append, List.flatMap_cons, fetch_words readable]
  · rw [written.words_of]
    exact decodeFrom_flatMap written.readable 0
  · rw [written.words_of]
    exact disassembleFrom_flatMap written.readable 0
  · intro jumpAt target lands
    obtain ⟨index, item, single, target_eq⟩ := written.landings jumpAt target lands
    refine ⟨item.1, item.2, ?_, target_eq⟩
    rw [written.words_of]
    exact fetch_single written.readable single
  · intro target named instruction member
    obtain ⟨index, rfl⟩ := written.positions target (known target named)
    obtain ⟨before, item, after, split, rfl⟩ := mem_layoutFrom member
    have outside := start_outside before after item index
    rw [split]
    simp only [Nat.zero_add]
    omega

/-- A loop with a forward jump out of it and an instruction of two words. -/
def loopCalls : List Call :=
  [.emit 2 0x1000005 1, .emitJump Op.JUMP_IF_FALSE 2, .emitJumpBack 0 3, .patchJumpTo 2 4,
    .emit 3 0 4]

theorem words_round_trip_loop :
    ∃ mod asked, runCalls loopCalls ⟨[], []⟩ {} = .ok (mod, asked) ∧
      asked.items = [(2, 0x1000005), (Op.JUMP_IF_FALSE, 1), (Op.JUMP_BACK, 4), (3, 0)] ∧
      RoundTrip mod.code asked := by
  have plain : allPlain loopCalls ⟨[], []⟩ {} = true := by decide
  cases ran : runCalls loopCalls ⟨[], []⟩ {} with
  | error reason =>
    have fine : (runCalls loopCalls ⟨[], []⟩ {}).isOk = true := by decide
    rw [ran] at fine
    cases fine
  | ok result =>
    have items : (runCalls loopCalls ⟨[], []⟩ {}).toOption.map (·.2.items) =
        some [(2, 0x1000005), (Op.JUMP_IF_FALSE, 1), (Op.JUMP_BACK, 4), (3, 0)] := by
      decide
    rw [ran] at items
    exact ⟨result.1, result.2, rfl, Option.some.inj items,
      words_round_trip loopCalls result.1 result.2 ran plain⟩

/-- A jump back may name the second word of an `EXTEND` pair, `emit` takes `EXTEND`
itself, and `patchJumpTo` overwrites the operand of any instruction. -/
theorem words_round_trip_not_of_every_call :
    (∃ mod asked, runCalls [.emit 2 0x1000000 1, .emitJumpBack 1 1] ⟨[], []⟩ {} =
      .ok (mod, asked) ∧ ¬RoundTrip mod.code asked) ∧
    (∃ mod asked, runCalls [.emit Op.EXTEND 5 1] ⟨[], []⟩ {} = .ok (mod, asked) ∧
      ¬RoundTrip mod.code asked) ∧
    (∃ mod asked, runCalls [.emit 2 7 1, .patchJumpTo 0 1] ⟨[], []⟩ {} = .ok (mod, asked) ∧
      ¬RoundTrip mod.code asked) := by
  refine ⟨⟨_, _, rfl, fun trip => ?_⟩, ⟨_, _, rfl, fun trip => ?_⟩, ⟨_, _, rfl, fun trip => ?_⟩⟩
  · exact trip.whole 1 (by decide) ⟨2, 0x1000000, 0, 2⟩ (by decide)
      ⟨by decide, by decide⟩
  · exact absurd trip.swept (by decide)
  · exact absurd trip.swept (by decide)

end ProtoScala.Compiler.InstructionWords
