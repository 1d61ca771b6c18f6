import ProtoScala.Library.CppLiterals

/-!
# The tables of a generated module

`CppTables` writes the constants, the handlers and the blocks of a module as initialisers in
C++. A record has here, for each member, the text of the expression that is written for it; an
empty list stands for the filler that is written where C++ wants one.
-/

namespace ProtoScala.Compiler.CppTables

open ProtoScala.Library.CppLiterals

set_option autoImplicit false

/-- A constant of the pool; its `dval` is zero. -/
structure Const where
  kind : UInt8
  ival : Int64
  sval : Bytes
  base : Int32
  argc : UInt32
  names : List Bytes
  fields : List Bytes
  key : Bytes
  flags : UInt32
  exact_ : Bool

structure Handler where
  startPc : Nat
  endPc : Nat
  handlerPc : Nat
  stackDepth : Int32
  slot : Int32
  kind : UInt8

/-- What a block has besides the blocks in it; of a capture it is the slot in this block. -/
structure Data where
  name : Bytes
  arity : Int32
  localCount : Int32
  maxStack : Int32
  variadic : Bool
  method : Bool
  paramless : Bool
  captures : List Int32
  consts : List Const
  handlers : List Handler

inductive BytecodeModule where
  | node (data : Data) (blocks : List BytecodeModule)

namespace BytecodeModule

def data : BytecodeModule → Data
  | .node data _ => data

def blocks : BytecodeModule → List BytecodeModule
  | .node _ blocks => blocks

end BytecodeModule

/-! ## Blocks -/

/-- `static_cast<int>` of a size. -/
def toInt (n : Nat) : Int := (n : Int).bmod 4294967296

/-- A module is known by its place, the indices that lead to it. -/
structure FlatBlock where
  mod : BytecodeModule
  place : List Nat
  parent : Int

mutual

def flattenInto : BytecodeModule → List Nat → Int → List FlatBlock → List FlatBlock
  | .node data blocks, place, parent, out =>
      flattenBlocks blocks place 0 (toInt out.length) (out ++ [⟨.node data blocks, place, parent⟩])

/-- The loop of `flattenInto` over the blocks of a module. -/
def flattenBlocks : List BytecodeModule → List Nat → Nat → Int → List FlatBlock → List FlatBlock
  | [], _, _, _, out => out
  | m :: blocks, place, i, self, out =>
      flattenBlocks blocks place (i + 1) self (flattenInto m (place ++ [i]) self out)

end

/-- Behind the whole subtree of a child. -/
def behind (out : List FlatBlock) (child : Nat) : Nat :=
  child + 1 + ((out.drop (child + 1)).takeWhile fun f => toInt child ≤ f.parent).length

/-- The check of one block in `flatten`, for so many more of its blocks from `b` on. -/
def inPlace (out : List FlatBlock) (place : List Nat) : Nat → Nat → Nat → Bool
  | 0, _, _ => true
  | count + 1, b, child =>
      (out[child]?.map FlatBlock.place == some (place ++ [b])) &&
        inPlace out place count (b + 1) (behind out child)

inductive Thrown where
  | logicError

def flatten (root : BytecodeModule) : Except Thrown (List FlatBlock) :=
  let out := flattenInto root [] (-1) []
  if out.zipIdx.all fun (f, i) => inPlace out f.place f.mod.blocks.length 0 (i + 1) then .ok out
  else .error .logicError

/-- The scan of `emitTables` for the children of a block. -/
def children (out : List FlatBlock) : Nat → Nat → List Nat
  | 0, _ => []
  | count + 1, child => child :: children out count (behind out child)

/-! ## Expressions -/

def text (s : String) : Text := s.toList

def signed (v : Int) : Text := if v < 0 then '-' :: decimal v.natAbs else decimal v.natAbs

/-- What `emitString` writes for a byte. -/
def escaped (c : UInt8) : Text :=
  if c = 34 ∨ c = 92 then [backslash, Char.ofNat c.toNat]
  else if c = 10 then [backslash, 'n']
  else if c = 9 then [backslash, 't']
  else if c = 13 then [backslash, 'r']
  else if c = 63 then [backslash, '?']
  else if 0x20 ≤ c ∧ c < 0x7f then [Char.ofNat c.toNat]
  else quotation :: quotation :: (hexEscape c ++ [quotation, quotation])

def quoted (s : Bytes) : Text := quotation :: (s.flatMap escaped ++ [quotation])

def kMaxStringLiteralBytes : Nat := 4096

def charLiteral (c : UInt8) : Text := apostrophe :: (hexEscape c ++ [apostrophe])

/-- The array that is defined for a long string, and the expression. -/
def stringRef (s : Bytes) (arrayName : Text) : List (Text × List Text) × Text :=
  if s.length ≤ kMaxStringLiteralBytes then ([], quoted s)
  else ([(arrayName, s.map charLiteral ++ [charLiteral 0])], arrayName)

structure ConstInit where
  kind : Text
  ival : Text
  dval : Text
  base : Text
  argc : Text
  flags : Text
  exact_ : Text
  sval : Text
  slen : Text
  key : Text
  namesFirst : Text
  namesCount : Text
  fieldsFirst : Text
  fieldsCount : Text

structure HandlerInit where
  startPc : Text
  endPc : Text
  handlerPc : Text
  stackDepth : Text
  slot : Text
  kind : Text

structure RecInit where
  name : Text
  arity : Text
  localCount : Text
  maxStack : Text
  captureCount : Text
  variadic : Text
  method : Text
  paramless : Text
  constCount : Text
  handlerCount : Text
  stringCount : Text
  blockCount : Text

/-- The tables of one block. -/
structure Tables where
  record : RecInit
  arrays : List (Text × List Text)
  consts : List ConstInit
  handlers : List HandlerInit
  strings : List Text
  blocks : List Text
  captureSlots : List Text

def blockName (i : Nat) : Text := text "blk" ++ decimal i

def truth (b : Bool) : Text := text (if b then "true" else "false")

/-- The record of constant `i` and the arrays before it; its names are in the pool from `first` on
and its fields behind them. -/
def emitConst (name : Text) (i : Nat) (c : Const) (first : Nat) :
    List (Text × List Text) × ConstInit :=
  let sval := stringRef c.sval (name ++ text "_s" ++ decimal i)
  let key := stringRef c.key (name ++ text "_k" ++ decimal i)
  (sval.1 ++ key.1,
    { kind := decimal c.kind.toNat
      ival := signed c.ival.toInt ++ text "LL"
      dval := text "0x0p+0"
      base := signed c.base.toInt
      argc := decimal c.argc.toNat ++ text "u"
      flags := decimal c.flags.toNat ++ text "u"
      exact_ := truth c.exact_
      sval := sval.2
      slen := decimal c.sval.length ++ text "u"
      key := key.2
      namesFirst := signed (toInt first)
      namesCount := decimal c.names.length
      fieldsFirst := signed (toInt (first + c.names.length))
      fieldsCount := decimal c.fields.length })

/-- The loop of `emitConsts`, from constant `i` on: arrays, records and the pool behind it. -/
def emitConsts (name : Text) : Nat → List Const → List Bytes →
    List (Text × List Text) × List ConstInit × List Bytes
  | _, [], pool => ([], [], pool)
  | i, c :: consts, pool =>
      let here := emitConst name i c pool.length
      let later := emitConsts name (i + 1) consts (pool ++ c.names ++ c.fields)
      (here.1 ++ later.1, here.2 :: later.2.1, later.2.2)

def emitHandler (h : Handler) : HandlerInit where
  startPc := decimal h.startPc ++ text "u"
  endPc := decimal h.endPc ++ text "u"
  handlerPc := decimal h.handlerPc ++ text "u"
  stackDepth := signed h.stackDepth.toInt
  slot := signed h.slot.toInt
  kind := decimal h.kind.toNat

/-- The loop of `emitStrings`, from string `i` on. -/
def emitStrings (name : Text) : Nat → List Bytes → List (Text × List Text) × List Text
  | _, [] => ([], [])
  | i, s :: pool =>
      let ref := stringRef s (name ++ text "_" ++ decimal i)
      let later := emitStrings name (i + 1) pool
      (ref.1 ++ later.1, ref.2 :: later.2)

def emitBlocks (childIndices : List Nat) : List Text :=
  childIndices.map fun c => '&' :: (blockName c ++ text "_rec")

/-- The record that `emitBlockRec` writes. -/
def emitBlockRec (m : BytecodeModule) (childIndices : List Nat) (stringCount : Nat) : RecInit where
  name := quoted m.data.name
  arity := signed m.data.arity.toInt ++ text "u"
  localCount := signed m.data.localCount.toInt ++ text "u"
  maxStack := signed m.data.maxStack.toInt ++ text "u"
  captureCount := signed (toInt m.data.captures.length) ++ text "u"
  variadic := truth m.data.variadic
  method := truth m.data.method
  paramless := truth m.data.paramless
  constCount := decimal m.data.consts.length
  handlerCount := decimal m.data.handlers.length
  stringCount := decimal stringCount
  blockCount := decimal childIndices.length

def emitTables (out : List FlatBlock) (index : Nat) (blk : FlatBlock) : Tables :=
  let name := blockName index
  let consts := emitConsts (name ++ text "_consts") 0 blk.mod.data.consts []
  let strings := emitStrings (name ++ text "_strings") 0 consts.2.2
  let childIndices := children out blk.mod.blocks.length (index + 1)
  { record := emitBlockRec blk.mod childIndices consts.2.2.length
    arrays := consts.1 ++ strings.1
    consts := consts.2.1
    handlers := blk.mod.data.handlers.map emitHandler
    strings := strings.2
    blocks := emitBlocks childIndices
    captureSlots := blk.mod.data.captures.map fun slot => signed slot.toInt }

/-- The tables of a block in the file that has the arrays of all blocks. -/
def inFile (out : List FlatBlock) (index : Nat) (blk : FlatBlock) : Tables :=
  { emitTables out index blk with
    arrays := out.zipIdx.flatMap fun (f, i) => (emitTables out i f).arrays }

/-! ## What the tables denote -/

structure ConstValue where
  kind : Int
  ival : Int
  base : Int
  argc : Int
  flags : Int
  exact_ : Bool
  sval : Bytes
  key : Bytes
  names : List Bytes
  fields : List Bytes
  deriving DecidableEq

structure HandlerValue where
  startPc : Int
  endPc : Int
  handlerPc : Int
  stackDepth : Int
  slot : Int
  kind : Int
  deriving DecidableEq

structure RecValue where
  name : Bytes
  arity : Int
  localCount : Int
  maxStack : Int
  captureCount : Int
  variadic : Bool
  method : Bool
  paramless : Bool
  constCount : Int
  handlerCount : Int
  stringCount : Int
  blockCount : Int
  deriving DecidableEq

/-- The strings of the pool of a block. -/
def pooled (consts : List Const) : List Bytes := consts.flatMap fun c => c.names ++ c.fields

def BytecodeModule.value (m : BytecodeModule) : RecValue where
  name := m.data.name
  arity := m.data.arity.toInt
  localCount := m.data.localCount.toInt
  maxStack := m.data.maxStack.toInt
  captureCount := m.data.captures.length
  variadic := m.data.variadic
  method := m.data.method
  paramless := m.data.paramless
  constCount := m.data.consts.length
  handlerCount := m.data.handlers.length
  stringCount := (pooled m.data.consts).length
  blockCount := m.blocks.length

def Const.value (c : Const) : ConstValue where
  kind := c.kind.toNat
  ival := c.ival.toInt
  base := c.base.toInt
  argc := c.argc.toNat
  flags := c.flags.toNat
  exact_ := c.exact_
  sval := c.sval
  key := c.key
  names := c.names
  fields := c.fields

def Handler.value (h : Handler) : HandlerValue where
  startPc := h.startPc
  endPc := h.endPc
  handlerPc := h.handlerPc
  stackDepth := h.stackDepth.toInt
  slot := h.slot.toInt
  kind := h.kind.toNat

def readInt (expression : Text) : Option Int := integer (-2147483648) 2147483648 expression

def readUnsigned (expression : Text) : Option Int := integer 0 4294967296 expression

def readSize (expression : Text) : Option Int := integer 0 18446744073709551616 expression

def readBool (expression : Text) : Option Bool :=
  match tokens expression with
  | some [.word word] =>
      if word = text "true" then some true else if word = text "false" then some false else none
  | _ => none

/-- A string that is read up to its zero. -/
def readString (t : Tables) (expression : Text) : Option Bytes :=
  (pointedTo t.arrays expression).bind zeroTerminated

/-- So many strings of the pool. -/
def readStrings (t : Tables) (first count : Int) : Option (List Bytes) :=
  if 0 ≤ first ∧ 0 ≤ count ∧ first + count ≤ t.strings.length then
    ((t.strings.drop first.toNat).take count.toNat).mapM (readString t)
  else none

def readConst (t : Tables) (c : ConstInit) : Option ConstValue := do
  let kind ← integer 0 256 c.kind
  let ival ← integer (-9223372036854775808) 9223372036854775808 c.ival
  let base ← readInt c.base
  let argc ← readUnsigned c.argc
  let flags ← readUnsigned c.flags
  let exact_ ← readBool c.exact_
  let slen ← readSize c.slen
  let sval ← (pointedTo t.arrays c.sval).bind (withLength slen.toNat)
  let key ← readString t c.key
  let namesFirst ← readInt c.namesFirst
  let namesCount ← readInt c.namesCount
  let names ← readStrings t namesFirst namesCount
  let fieldsFirst ← readInt c.fieldsFirst
  let fieldsCount ← readInt c.fieldsCount
  let fields ← readStrings t fieldsFirst fieldsCount
  some ⟨kind, ival, base, argc, flags, exact_, sval, key, names, fields⟩

def readHandler (h : HandlerInit) : Option HandlerValue := do
  let startPc ← readUnsigned h.startPc
  let endPc ← readUnsigned h.endPc
  let handlerPc ← readUnsigned h.handlerPc
  let stackDepth ← readInt h.stackDepth
  let slot ← readInt h.slot
  let kind ← integer 0 256 h.kind
  some ⟨startPc, endPc, handlerPc, stackDepth, slot, kind⟩

def readRec (t : Tables) (r : RecInit) : Option RecValue := do
  let name ← readString t r.name
  let arity ← readUnsigned r.arity
  let localCount ← readUnsigned r.localCount
  let maxStack ← readUnsigned r.maxStack
  let captureCount ← readUnsigned r.captureCount
  let variadic ← readBool r.variadic
  let method ← readBool r.method
  let paramless ← readBool r.paramless
  let constCount ← readSize r.constCount
  let handlerCount ← readSize r.handlerCount
  let stringCount ← readSize r.stringCount
  let blockCount ← readSize r.blockCount
  some ⟨name, arity, localCount, maxStack, captureCount, variadic, method, paramless, constCount,
    handlerCount, stringCount, blockCount⟩

/-- The record whose address is taken. -/
def readBlock (expression : Text) : Option Text :=
  match tokens expression with
  | some [.mark '&', .word name] => some name
  | _ => none

/-- The tables of a block denote its data, and its children in the order of its blocks. -/
structure Denotes (out : List FlatBlock) (t : Tables) (blk : FlatBlock) : Prop where
  record : readRec t t.record = some blk.mod.value
  captureSlots : t.captureSlots.map readInt = blk.mod.data.captures.map fun s => some s.toInt
  consts : t.consts.map (readConst t) = blk.mod.data.consts.map fun c => some c.value
  handlers : t.handlers.map readHandler = blk.mod.data.handlers.map fun h => some h.value
  blocks : ∃ positions : List Nat,
    t.blocks.map readBlock = positions.map (fun p => some (blockName p ++ text "_rec")) ∧
      positions.map (fun p => out[p]?.map fun f => (f.mod, f.place)) =
        blk.mod.blocks.zipIdx.map fun (m, b) => some (m, blk.place ++ [b])

/-- A tree is flattened, and the tables of every block denote it. -/
def Right (root : BytecodeModule) : Prop :=
  ∃ out, flatten root = .ok out ∧
    ∀ i blk, out[i]? = some blk → Denotes out (inFile out i blk) blk

/-- No integer is the least one, and no string that ends at its zero has one inside. -/
def Plain (data : Data) : Prop :=
  0 ∉ data.name ∧ ∀ c ∈ data.consts, c.ival.toInt ≠ -9223372036854775808 ∧ 0 ∉ c.key ∧
    (∀ s ∈ c.names, 0 ∉ s) ∧ ∀ s ∈ c.fields, 0 ∉ s

/-- The places of names and fields in the pool, from `first` on, and how many they are. -/
def Fits : Nat → List Const → Prop
  | _, [] => True
  | first, c :: consts =>
      (first + c.names.length < 2147483648 ∧ c.fields.length < 2147483648) ∧
        Fits (first + c.names.length + c.fields.length) consts

/-- The sizes are numbers of the types of the members. -/
def Sized (data : Data) : Prop :=
  (0 ≤ data.arity.toInt ∧ 0 ≤ data.localCount.toInt ∧ 0 ≤ data.maxStack.toInt ∧
    data.captures.length < 4294967296 ∧ data.consts.length < 9223372036854775808 ∧
      data.handlers.length < 9223372036854775808) ∧
  Fits 0 data.consts ∧ (∀ c ∈ data.consts, c.sval.length < 18446744073709551616) ∧
    ∀ h ∈ data.handlers,
      h.startPc < 4294967296 ∧ h.endPc < 4294967296 ∧ h.handlerPc < 4294967296

end ProtoScala.Compiler.CppTables
