import ProtoScala.Compiler.Bytecode
import ProtoScala.Library.Preorder

/-!
# The prelude image

`protoscala-precompile` flattens the compiled prelude into tables: the modules depth first, and of
each module the ranges of the shared tables that hold its code, its constants, its handlers, its
captures, its parameter names and its default blocks. `buildPreludeImage` walks the tables. It
replays the constants through the `add` functions of the pool, so that they get their indices
again, and attaches the modules to their parents.

The strings of the tables are C strings.
-/

namespace ProtoScala.Runtime.PreludeImage

open ProtoScala.Compiler.Bytecode (Handler HandlerKind)
open ProtoScala.Compiler.ConstantPool (Const ConstKind ClassSpecData Call add addAll charValue
  findOrAdd)
open ProtoScala.Library
open ProtoScala.Library.Preorder (attach)

set_option autoImplicit false

/-! ## Modules -/

structure CaptureSpec where
  parentSlot : Int
  localSlot : Int
  deriving DecidableEq, Repr

/-- `paramNames_`, `defaultBlocks_`, `hasDefaults_` and `minArity_`; `none` is `kNoDefault`. -/
structure Params where
  names : List String := []
  defaultBlocks : List (Option Nat) := []
  hasDefaults : Bool := false
  minArity : Int := 0
  deriving DecidableEq, Repr

/-- What a module has besides its blocks. `code_` and `lines_` grow together: a code word stands
with its line. -/
structure Body where
  name : String := "<top>"
  arity : Int := 0
  variadic : Bool := false
  localCount : Int := 0
  maxStack : Int := 0
  method : Bool := false
  paramless : Bool := false
  words : List (UInt32 × Int) := []
  pool : Compiler.ConstantPool.BytecodeModule := {}
  handlers : List Handler := []
  captures : List CaptureSpec := []
  params : Params := {}

abbrev BytecodeModule := Preorder.Tree Body

def setParamNames (names : List String) (m : Body) : Body :=
  { m with params := { m.params with
      names := names, defaultBlocks := List.replicate names.length none, minArity := m.arity } }

def setDefaultBlock (param blockIndex : Nat) (m : Body) : Body :=
  let grown := m.params.defaultBlocks ++
    List.replicate (param + 1 - m.params.defaultBlocks.length) none
  { m with params := { m.params with
      defaultBlocks := grown.set param (some blockIndex)
      hasDefaults := true
      minArity := if (param : Int) < m.params.minArity then param else m.params.minArity } }

def defaultBlock (m : Body) (param : Nat) : Option Nat := m.params.defaultBlocks.getD param none

/-! ## The tables -/

structure PreludeConstRec where
  kind : ConstKind
  ival : Int64
  dval : UInt64
  base : Int
  argc : UInt32
  flags : UInt32
  exact : Bool
  sval : String
  key : String
  namesFirst : Nat
  namesCount : Nat
  fieldsFirst : Nat
  fieldsCount : Nat

structure PreludeHandlerRec where
  startPc : UInt32
  endPc : UInt32
  handlerPc : UInt32
  stackDepth : Nat
  slot : Nat
  kind : HandlerKind

structure PreludeDefaultRec where
  param : UInt32
  block : UInt32

structure PreludeModuleRec where
  parent : Int
  name : String
  arity : Int
  variadic : Bool
  method : Bool
  paramless : Bool
  localCount : Int
  maxStack : Int
  codeFirst : Nat
  codeCount : Nat
  constFirst : Nat
  constCount : Nat
  handlerFirst : Nat
  handlerCount : Nat
  captureFirst : Nat
  captureCount : Nat
  paramFirst : Nat
  paramCount : Nat
  defaultFirst : Nat
  defaultCount : Nat

structure Tables where
  code : List UInt32 := []
  lines : List Int := []
  strings : List String := []
  consts : List PreludeConstRec := []
  handlers : List PreludeHandlerRec := []
  captures : List CaptureSpec := []
  defaults : List PreludeDefaultRec := []
  modules : List PreludeModuleRec := []

/-! ## Flattening -/

/-- A constant whose names and fields stand in the strings from `first` on. -/
def constRec (first : Nat) (c : Const) : PreludeConstRec where
  kind := c.kind
  ival := c.ival
  dval := c.dval
  base := c.base
  argc := c.argc
  flags := c.flags
  exact := c.exact
  sval := c.sval
  key := c.key
  namesFirst := first
  namesCount := c.names.length
  fieldsFirst := first + c.names.length
  fieldsCount := c.fields.length

def addConst (t : List String × List PreludeConstRec) (c : Const) :
    List String × List PreludeConstRec :=
  (t.1 ++ c.names ++ c.fields, t.2 ++ [constRec t.1.length c])

def handlerRec (h : Handler) : PreludeHandlerRec where
  startPc := UInt32.ofNat h.startPc
  endPc := UInt32.ofNat h.endPc
  handlerPc := UInt32.ofNat h.handlerPc
  stackDepth := h.stackDepth
  slot := h.slot
  kind := h.kind

/-- The parameters that have a default, in declaration order. -/
def defaultRecs (m : Body) : List PreludeDefaultRec :=
  (List.range m.params.names.length).filterMap fun p =>
    (defaultBlock m p).map fun b => ⟨UInt32.ofNat p, UInt32.ofNat b⟩

def moduleRec (m : Body) (parent : Int) (t : Tables) : PreludeModuleRec :=
  let strings := (m.pool.consts.foldl addConst (t.strings, t.consts)).1
  { parent := parent, name := m.name, arity := m.arity, variadic := m.variadic
    method := m.method, paramless := m.paramless, localCount := m.localCount
    maxStack := m.maxStack
    codeFirst := t.code.length, codeCount := m.words.length
    constFirst := t.consts.length, constCount := m.pool.consts.length
    handlerFirst := t.handlers.length, handlerCount := m.handlers.length
    captureFirst := t.captures.length, captureCount := m.captures.length
    paramFirst := strings.length, paramCount := m.params.names.length
    defaultFirst := t.defaults.length, defaultCount := (defaultRecs m).length }

/-- A module without its blocks. -/
def addModule (m : Body) (parent : Int) (t : Tables) : Tables :=
  let pools := m.pool.consts.foldl addConst (t.strings, t.consts)
  { code := t.code ++ m.words.map Prod.fst
    lines := t.lines ++ m.words.map Prod.snd
    strings := pools.1 ++ m.params.names
    consts := pools.2
    handlers := t.handlers ++ m.handlers.map handlerRec
    captures := t.captures ++ m.captures
    defaults := t.defaults ++ defaultRecs m
    modules := t.modules ++ [moduleRec m parent t] }

mutual

def flatten : BytecodeModule → Int → Tables → Tables
  | .node m blocks, parent, t => flattenBlocks blocks t.modules.length (addModule m parent t)

/-- The loop of `flatten` over the blocks of a module. -/
def flattenBlocks : List BytecodeModule → Nat → Tables → Tables
  | [], _, t => t
  | block :: blocks, self, t => flattenBlocks blocks self (flatten block self t)

end

/-! ## Rebuilding -/

/-- What is read through a `const char*`. -/
def cString (s : String) : String := String.ofList (s.toList.takeWhile (· ≠ Char.ofNat 0))

/-- The entries of a table from `first` on. -/
def range {α : Type} (table : List α) (first count : Nat) : List α :=
  (table.drop first).take count

def stringsAt (t : Tables) (first count : Nat) : List String :=
  (range t.strings first count).map cString

/-- `static_cast<char32_t>`. -/
def char32 (v : Int64) : UInt32 := v.toUInt64.toUInt32

/-- The call that `replayConst` makes. -/
def replayConst (t : Tables) (c : PreludeConstRec) : Call :=
  match c.kind with
  | .int => .int c.ival
  | .bigInt => .bigInt (cString c.sval) c.base
  | .double => .double c.dval
  | .string => .string (cString c.sval)
  | .char => .char (char32 c.ival)
  | .symbol => .symbol (cString c.sval)
  | .sendSite => .sendSite (cString c.sval) c.argc (cString c.key)
  | .names => .names (stringsAt t c.namesFirst c.namesCount)
  | .classSpec => .classSpec {
      displayName := cString c.sval, key := cString c.key, parentCount := c.argc
      memberKeys := stringsAt t c.namesFirst c.namesCount
      fields := stringsAt t c.fieldsFirst c.fieldsCount, flags := c.flags }
  | .superSite => .superSite (cString c.sval) c.argc (cString c.key) c.exact
  | .kwSendSite =>
      .kwSendSite (cString c.sval) c.argc (stringsAt t c.namesFirst c.namesCount) (cString c.key)

def handlerOf (h : PreludeHandlerRec) : Handler where
  startPc := h.startPc.toNat
  endPc := h.endPc.toNat
  handlerPc := h.handlerPc.toNat
  stackDepth := h.stackDepth
  slot := h.slot
  kind := h.kind

/-- One module of the image, without its blocks. -/
def buildModule (t : Tables) (r : PreludeModuleRec) : Body :=
  let m : Body := {
    name := cString r.name, arity := r.arity, variadic := r.variadic
    localCount := r.localCount, maxStack := r.maxStack, method := r.method
    paramless := r.paramless
    pool := addAll {} ((range t.consts r.constFirst r.constCount).map (replayConst t))
    words := (range t.code r.codeFirst r.codeCount).zip (range t.lines r.codeFirst r.codeCount)
    handlers := (range t.handlers r.handlerFirst r.handlerCount).map handlerOf
    captures := range t.captures r.captureFirst r.captureCount }
  let named := if 0 < r.paramCount then setParamNames (stringsAt t r.paramFirst r.paramCount) m
    else m
  (range t.defaults r.defaultFirst r.defaultCount).foldl
    (fun m d => setDefaultBlock d.param.toNat d.block.toNat m) named

/-- The first module behind the top level one that names no module before it. -/
def misplaced (modules : List PreludeModuleRec) : Option Nat :=
  modules.zipIdx.findSome? fun (r, i) =>
    if 0 < i ∧ (r.parent < 0 ∨ (i : Int) ≤ r.parent) then some i else none

def buildPreludeImage (t : Tables) : Except String BytecodeModule :=
  match misplaced t.modules, t.modules with
  | _, [] => .error "prelude image: no module in the image"
  | some i, _ =>
      .error ("prelude image: module " ++ toString i ++ " has no enclosing module before it")
  | none, top :: _ =>
      if 0 ≤ top.parent then .error "prelude image: no top-level module"
      else
        match attach (t.modules.map fun r => (r.parent, buildModule t r)) with
        | some m => .ok m
        | none => .error "prelude image: no module in the image"

/-! ## The modules the compiler builds -/

/-- The parameters after `setParamNames` and some calls of `setDefaultBlock` for them. -/
structure Made (arity : Int) (p : Params) : Prop where
  length : p.defaultBlocks.length = p.names.length
  has : p.hasDefaults = p.defaultBlocks.any Option.isSome
  atMost : p.minArity ≤ arity
  below : ∀ (i : Nat) b, p.defaultBlocks[i]? = some (some b) → p.minArity ≤ i
  least : p.minArity = arity ∨ ∃ (i : Nat) (b : Nat), p.defaultBlocks[i]? = some (some b) ∧
    p.minArity = i

def Clean (s : String) : Prop := Char.ofNat 0 ∉ s.toList

instance (s : String) : Decidable (Clean s) := inferInstanceAs (Decidable (¬_ ∈ _))

/-- What the compiler leaves in a module, as far as the image needs it. -/
structure Imaged (m : Body) : Prop where
  pool : ∃ calls, m.pool = addAll {} calls
  name : Clean m.name
  consts : ∀ c ∈ m.pool.consts, Clean c.sval ∧ Clean c.key ∧ (∀ s ∈ c.names, Clean s) ∧
    ∀ s ∈ c.fields, Clean s
  handlers : ∀ h ∈ m.handlers, h.startPc < 4294967296 ∧ h.endPc < 4294967296 ∧
    h.handlerPc < 4294967296
  params : m.params = {} ∨ m.params.names ≠ [] ∧ Made m.arity m.params
  names : ∀ s ∈ m.params.names, Clean s
  count : m.params.names.length < 4294967296
  blocks : ∀ b, some b ∈ m.params.defaultBlocks → b < 4294967296

/-! ## The constants -/

/-- The call that asks for a constant. -/
def call (c : Const) : Call :=
  match c.kind with
  | .int => .int c.ival
  | .bigInt => .bigInt c.sval c.base
  | .double => .double c.dval
  | .string => .string c.sval
  | .char => .char (char32 c.ival)
  | .symbol => .symbol c.sval
  | .sendSite => .sendSite c.sval c.argc c.key
  | .names => .names c.names
  | .classSpec => .classSpec {
      displayName := c.sval, key := c.key, parentCount := c.argc, memberKeys := c.names
      fields := c.fields, flags := c.flags }
  | .superSite => .superSite c.sval c.argc c.key c.exact
  | .kwSendSite => .kwSendSite c.sval c.argc c.names c.key

theorem char_32 (c : UInt32) : char32 (charValue c) = c := by
  refine UInt32.toNat.inj ?_
  have small := c.toNat_lt
  simp only [char32, charValue, UInt64.toNat_toUInt32]
  simp

theorem call_requested (asked : Call) : call asked.requested = asked := by
  cases asked <;> simp [call, Call.requested, char_32]

theorem find_or_add_cases {Key : Type} [BEq Key] (index : List (Key × Nat)) (key : Key)
    (consts : List Const) (c : Const) :
    (findOrAdd index key consts c).2.1 = index ∧ (findOrAdd index key consts c).2.2 = consts ∨
      (findOrAdd index key consts c).2.2 = consts ++ [c] := by
  unfold findOrAdd
  cases index.lookup key with
  | some place => exact .inl ⟨rfl, rfl⟩
  | none => exact .inr rfl

/-- A call leaves the pool as it is, or appends the constant it asks for. -/
theorem add_cases (asked : Call) (m : Compiler.ConstantPool.BytecodeModule) :
    (add asked m).2 = m ∨ (add asked m).2.consts = m.consts ++ [asked.requested] := by
  cases asked with
  | classSpec spec => exact .inr rfl
  | _ =>
      simp only [add, Compiler.ConstantPool.addInt, Compiler.ConstantPool.addBigInt,
        Compiler.ConstantPool.addDouble, Compiler.ConstantPool.addString,
        Compiler.ConstantPool.addChar, Compiler.ConstantPool.addSymbol,
        Compiler.ConstantPool.addSendSite, Compiler.ConstantPool.addNames,
        Compiler.ConstantPool.addSuperSite, Compiler.ConstantPool.addKwSendSite, Call.requested]
      refine (find_or_add_cases _ _ _ _).imp (fun same => ?_) id
      rw [same.1, same.2]

/-- The constants of a pool, asked for in their order, give the pool again: its tables hold the
first request of each key. -/
theorem replay_pool (calls : List Call) :
    addAll {} ((addAll {} calls).consts.map call) = addAll {} calls := by
  induction calls using List.reverseRecOn with
  | nil => rfl
  | append_singleton calls asked replayed =>
      have last : addAll {} (calls ++ [asked]) = (add asked (addAll {} calls)).2 := by
        simp [addAll]
      rw [last]
      obtain same | appended := add_cases asked (addAll {} calls)
      · rw [same, replayed]
      · have more : addAll {} (((addAll {} calls).consts ++ [asked.requested]).map call) =
            (add asked (addAll {} ((addAll {} calls).consts.map call))).2 := by
          simp [addAll, call_requested]
        rw [appended, more, replayed]

/-! ## Reading the tables -/

theorem range_part {α : Type} {table before part : List α} (stored : before ++ part <+: table) :
    range table before.length part.length = part := by
  obtain ⟨more, rfl⟩ := stored
  simp [range]

theorem c_string_clean {s : String} (clean : Clean s) : cString s = s := by
  have whole : s.toList.takeWhile (· ≠ Char.ofNat 0) = s.toList := by
    refine List.takeWhile_eq_self_iff.mpr fun c mem => ?_
    simp only [ne_eq, decide_not, Bool.not_eq_eq_eq_not, Bool.not_true, decide_eq_false_iff_not]
    rintro rfl
    exact clean mem
  rw [cString, whole, String.ofList_toList]

theorem strings_at {t : Tables} {before part : List String} (clean : ∀ s ∈ part, Clean s)
    (stored : before ++ part <+: t.strings) : stringsAt t before.length part.length = part := by
  rw [stringsAt, range_part stored]
  exact (List.map_congr_left fun s mem => c_string_clean (clean s mem)).trans (List.map_id' part)

theorem add_consts (consts : List Const)
    (clean : ∀ c ∈ consts, Clean c.sval ∧ Clean c.key ∧ (∀ s ∈ c.names, Clean s) ∧
      ∀ s ∈ c.fields, Clean s) : ∀ strings table, ∃ more recs,
    consts.foldl addConst (strings, table) = (strings ++ more, table ++ recs) ∧
      recs.length = consts.length ∧ ∀ t : Tables, strings ++ more <+: t.strings →
        recs.map (replayConst t) = consts.map call := by
  induction consts with
  | nil =>
      intro strings table
      exact ⟨[], [], by simp, rfl, fun _ _ => rfl⟩
  | cons c consts added =>
      intro strings table
      obtain ⟨more, recs, folded, length, replayed⟩ :=
        added (fun c mem => clean c (List.mem_cons_of_mem _ mem)) (strings ++ c.names ++ c.fields)
          (addConst (strings, table) c).2
      obtain ⟨sval, key, names, fields⟩ := clean c List.mem_cons_self
      refine ⟨c.names ++ c.fields ++ more, constRec strings.length c :: recs, ?_, by simp [length],
        fun t stored => ?_⟩
      · rw [List.foldl_cons]
        refine folded.trans ?_
        simp [addConst]
      · rw [List.map_cons, List.map_cons, replayed t (by simpa using stored)]
        congr 1
        have namesAt : stringsAt t strings.length c.names.length = c.names :=
          strings_at names (List.IsPrefix.trans ⟨c.fields ++ more, by simp⟩ stored)
        have fieldsAt : stringsAt t (strings.length + c.names.length) c.fields.length =
            c.fields := by
          rw [← List.length_append]
          exact strings_at fields (List.IsPrefix.trans ⟨more, by simp⟩ stored)
        simp only [replayConst, call, constRec, c_string_clean sval, c_string_clean key, namesAt,
          fieldsAt]

/-! ## The parameters -/

theorem made_unique {arity : Int} {p q : Params} (made : Made arity p) (made' : Made arity q)
    (names : p.names = q.names) (blocks : p.defaultBlocks = q.defaultBlocks) : p = q := by
  have has : p.hasDefaults = q.hasDefaults := by rw [made.has, made'.has, blocks]
  have least : p.minArity = q.minArity := by
    have atMost := made.atMost
    have atMost' := made'.atMost
    obtain here | ⟨i, b, at_, here⟩ := made.least
    · obtain there | ⟨j, b', at_', there⟩ := made'.least
      · omega
      · have below := made.below j b' (blocks ▸ at_')
        omega
    · have below := made'.below i b (blocks ▸ at_)
      obtain there | ⟨j, b', at_', there⟩ := made'.least
      · omega
      · have below' := made.below j b' (blocks ▸ at_')
        omega
  cases p
  cases q
  simp_all

theorem set_param_names_made (names : List String) (m : Body) (no : m.params.hasDefaults = false) :
    Made m.arity (setParamNames names m).params where
  length := by simp [setParamNames]
  has := by simp [setParamNames, no]
  atMost := by simp [setParamNames]
  below := by simp [setParamNames, List.getElem?_replicate]
  least := .inl rfl

theorem set_default_blocks {param b : Nat} {m : Body}
    (inside : param < m.params.defaultBlocks.length) :
    (setDefaultBlock param b m).params.defaultBlocks =
      m.params.defaultBlocks.set param (some b) := by
  have none_ : param + 1 - m.params.defaultBlocks.length = 0 := by omega
  simp [setDefaultBlock, none_]

theorem set_default_made {param : Nat} (b : Nat) {m : Body} (made : Made m.arity m.params)
    (inside : param < m.params.names.length) :
    Made m.arity (setDefaultBlock param b m).params := by
  have inBlocks : param < m.params.defaultBlocks.length := made.length ▸ inside
  have blocks := set_default_blocks (b := b) inBlocks
  have least : (setDefaultBlock param b m).params.minArity =
      if (param : Int) < m.params.minArity then (param : Int) else m.params.minArity := rfl
  have atMost := made.atMost
  refine ⟨?_, ?_, ?_, fun i b' at_ => ?_, ?_⟩
  · rw [blocks, List.length_set]
    exact made.length
  · rw [blocks]
    refine (List.any_eq_true.mpr ⟨some b, ?_, rfl⟩).symm
    exact List.mem_of_getElem? (List.getElem?_set_self inBlocks)
  · rw [least]
    split <;> omega
  · rw [blocks, List.getElem?_set] at at_
    rw [least]
    split at at_
    · split <;> omega
    · have below := made.below i b' at_
      split <;> omega
  · rw [least, blocks]
    split
    · exact .inr ⟨param, b, List.getElem?_set_self inBlocks, rfl⟩
    · next notLess =>
        obtain here | ⟨i, b', at_, here⟩ := made.least
        · exact .inl here
        · refine .inr ⟨i, ?_⟩
          by_cases same : param = i
          · subst same
            exact ⟨b, List.getElem?_set_self inBlocks, here⟩
          · exact ⟨b', by rw [List.getElem?_set_ne same]; exact at_, here⟩

theorem word {n : Nat} (small : n < 4294967296) : (UInt32.ofNat n).toNat = n :=
  UInt32.toNat_ofNat_of_lt' small

/-- The recorded defaults of the first `k` parameters, set again. -/
theorem defaults_replayed {m : Body} {names : List String} {blocks : List (Option Nat)}
    (fresh : m.params = (setParamNames names { m with params := {} }).params)
    (length : blocks.length = names.length) (count : names.length < 4294967296)
    (small : ∀ b, some b ∈ blocks → b < 4294967296) (k : Nat) (within : k ≤ names.length) :
    ∃ p, (((List.range k).filterMap fun i => (blocks.getD i none).map fun b =>
        (⟨UInt32.ofNat i, UInt32.ofNat b⟩ : PreludeDefaultRec)).foldl
          (fun m d => setDefaultBlock d.param.toNat d.block.toNat m) m) = { m with params := p } ∧
      p.names = names ∧
      p.defaultBlocks = blocks.take k ++ List.replicate (names.length - k) none ∧
      Made m.arity p := by
  induction k with
  | zero =>
      refine ⟨m.params, rfl, by rw [fresh]; rfl, by rw [fresh]; simp [setParamNames], ?_⟩
      rw [fresh]
      exact set_param_names_made names { m with params := {} } rfl
  | succ k set =>
      obtain ⟨p, folded, same, stored, made⟩ := set (by omega)
      have inside : k < blocks.length := by omega
      have room : names.length - k = names.length - (k + 1) + 1 := by omega
      rw [List.range_succ, List.filterMap_append, List.foldl_append, folded]
      cases at_ : blocks[k] with
      | none =>
          have none_ : blocks.getD k none = none := by simp [inside, at_]
          refine ⟨p, by rw [List.filterMap_cons, none_]; rfl, same, ?_, made⟩
          rw [stored, room, List.replicate_succ, List.take_add_one,
            List.getElem?_eq_getElem inside, at_]
          simp
      | some b =>
          have some_ : blocks.getD k none = some b := by simp [inside, at_]
          have bound := small b (at_ ▸ List.getElem_mem inside)
          have here : k < p.names.length := by rw [same]; omega
          have made' : Made m.arity (setDefaultBlock k b { m with params := p }).params :=
            set_default_made b (m := { m with params := p }) made here
          refine ⟨(setDefaultBlock k b { m with params := p }).params, ?_, same, ?_, made'⟩
          · simp only [List.filterMap_cons, some_, Option.map_some, List.filterMap_nil,
              List.foldl_cons, List.foldl_nil]
            rw [word (by omega), word bound]
            rfl
          · rw [set_default_blocks (by rw [made.length]; exact here)]
            simp only
            rw [stored, room, List.replicate_succ,
              List.set_append_right _ _ (by simp), List.length_take,
              Nat.min_eq_left (by omega), Nat.sub_self, List.set_cons_zero, List.take_add_one,
              List.getElem?_eq_getElem inside, at_]
            simp

/-! ## The modules -/

/-- The tables grow behind what they hold. -/
structure Extends (t t' : Tables) : Prop where
  code : t.code <+: t'.code
  lines : t.lines <+: t'.lines
  strings : t.strings <+: t'.strings
  consts : t.consts <+: t'.consts
  handlers : t.handlers <+: t'.handlers
  captures : t.captures <+: t'.captures
  defaults : t.defaults <+: t'.defaults

theorem Extends.refl (t : Tables) : Extends t t := by
  constructor <;> exact List.prefix_rfl

theorem Extends.trans {t t' t'' : Tables} (first : Extends t t') (second : Extends t' t'') :
    Extends t t'' :=
  ⟨first.code.trans second.code, first.lines.trans second.lines,
    first.strings.trans second.strings, first.consts.trans second.consts,
    first.handlers.trans second.handlers, first.captures.trans second.captures,
    first.defaults.trans second.defaults⟩

theorem handler_of_rec {h : Handler} (small : h.startPc < 4294967296 ∧ h.endPc < 4294967296 ∧
    h.handlerPc < 4294967296) : handlerOf (handlerRec h) = h := by
  obtain ⟨startPc, endPc, handlerPc⟩ := small
  simp only [handlerOf, handlerRec, word startPc, word endPc, word handlerPc]

theorem add_module_extends {m : Body} (imaged : Imaged m) (parent : Int) (t : Tables) :
    Extends t (addModule m parent t) := by
  obtain ⟨more, recs, folded, _, _⟩ := add_consts m.pool.consts imaged.consts t.strings t.consts
  refine ⟨⟨_, rfl⟩, ⟨_, rfl⟩, ⟨more ++ m.params.names, ?_⟩, ⟨recs, ?_⟩, ⟨_, rfl⟩, ⟨_, rfl⟩,
    ⟨_, rfl⟩⟩
  · simp [addModule, folded]
  · simp [addModule, folded]

/-- The default blocks are set again after the names. -/
theorem params_read_back {m plain : Body} (imaged : Imaged m) (fresh : plain.params = {})
    (arity : plain.arity = m.arity) :
    (defaultRecs m).foldl (fun m d => setDefaultBlock d.param.toNat d.block.toNat m)
      (if 0 < m.params.names.length then setParamNames m.params.names plain else plain) =
        { plain with params := m.params } := by
  obtain none_ | ⟨some_, made⟩ := imaged.params
  · have no : defaultRecs m = [] := by simp [defaultRecs, none_]
    rw [no, none_]
    simp [← fresh]
  · rw [if_pos (List.length_pos_of_ne_nil some_)]
    have again : (setParamNames m.params.names plain).params = (setParamNames m.params.names
        { setParamNames m.params.names plain with params := {} }).params := by
      simp [setParamNames, fresh]
    obtain ⟨p, folded, names, blocks, made'⟩ :=
      defaults_replayed again made.length imaged.count imaged.blocks _ (Nat.le_refl _)
    rw [Nat.sub_self, List.replicate_zero, List.append_nil,
      List.take_of_length_le (by rw [made.length])] at blocks
    have same : p = m.params := by
      refine made_unique ?_ made names blocks
      rw [← arity]
      exact made'
    refine Eq.trans folded ?_
    rw [same]
    rfl

/-- The record of a module reads it back from every table that holds it. -/
theorem module_read_back {m : Body} (imaged : Imaged m) (parent : Int) {t t' : Tables}
    (lined : t.lines.length = t.code.length) (extended : Extends (addModule m parent t) t') :
    buildModule t' (moduleRec m parent t) = m := by
  obtain ⟨more, recs, folded, length, replayed⟩ :=
    add_consts m.pool.consts imaged.consts t.strings t.consts
  have strings := extended.strings
  have consts := extended.consts
  simp only [addModule, folded] at strings consts
  have pool : addAll {} ((range t'.consts t.consts.length m.pool.consts.length).map
      (replayConst t')) = m.pool := by
    obtain ⟨calls, built⟩ := imaged.pool
    rw [← length, range_part consts, replayed t' (List.IsPrefix.trans ⟨_, rfl⟩ strings), built,
      replay_pool]
  have words : (range t'.code t.code.length m.words.length).zip
      (range t'.lines t.code.length m.words.length) = m.words := by
    have code := range_part extended.code
    have lines := range_part extended.lines
    rw [List.length_map] at code lines
    rw [lined] at lines
    rw [code, lines]
    exact (List.zip_of_prod rfl rfl).symm
  have handlers : (range t'.handlers t.handlers.length m.handlers.length).map handlerOf =
      m.handlers := by
    have stored := range_part extended.handlers
    rw [List.length_map] at stored
    rw [stored, List.map_map]
    exact (List.map_congr_left fun h mem => handler_of_rec (imaged.handlers h mem)).trans
      (List.map_id' _)
  have names : stringsAt t' (t.strings ++ more).length m.params.names.length = m.params.names :=
    strings_at imaged.names strings
  have params : (defaultRecs m).foldl
      (fun m d => setDefaultBlock d.param.toNat d.block.toNat m)
      (if 0 < m.params.names.length then setParamNames m.params.names { m with params := {} }
        else { m with params := {} }) = m := params_read_back imaged rfl rfl
  simp only [buildModule, moduleRec, folded, pool, words, handlers, names,
    range_part extended.captures, range_part extended.defaults, c_string_clean imaged.name]
  exact params

theorem add_module_lined {m : Body} {parent : Int} {t : Tables}
    (lined : t.lines.length = t.code.length) :
    (addModule m parent t).lines.length = (addModule m parent t).code.length := by
  simp [addModule, lined]

/-- One module after the other, each with the index of its parent. -/
def addModules (entries : List (Int × Body)) (t : Tables) : Tables :=
  entries.foldl (fun t entry => addModule entry.2 entry.1 t) t

theorem modules_read_back (entries : List (Int × Body))
    (imaged : ∀ entry ∈ entries, Imaged entry.2) : ∀ t, t.lines.length = t.code.length →
    Extends t (addModules entries t) ∧ ∃ recs, (addModules entries t).modules = t.modules ++ recs ∧
      ∀ t', Extends (addModules entries t) t' →
        recs.map (fun r => (r.parent, buildModule t' r)) = entries := by
  induction entries with
  | nil =>
      intro t _
      exact ⟨.refl t, [], by simp [addModules], fun _ _ => rfl⟩
  | cons entry entries read =>
      intro t lined
      have mine := imaged entry List.mem_cons_self
      obtain ⟨extended, recs, modules, same⟩ :=
        read (fun entry mem => imaged entry (List.mem_cons_of_mem _ mem))
          (addModule entry.2 entry.1 t) (add_module_lined lined)
      refine ⟨(add_module_extends mine entry.1 t).trans extended,
        moduleRec entry.2 entry.1 t :: recs, ?_, fun t' later => ?_⟩
      · refine modules.trans ?_
        simp [addModule]
      · rw [List.map_cons, same t' later,
          module_read_back mine entry.1 lined (extended.trans later)]
        rfl

theorem add_modules_append (first second : List (Int × Body)) (t : Tables) :
    addModules (first ++ second) t = addModules second (addModules first t) := by
  simp [addModules]

theorem add_modules_length (entries : List (Int × Body)) : ∀ t,
    (addModules entries t).modules.length = t.modules.length + entries.length := by
  induction entries with
  | nil =>
      intro t
      rfl
  | cons entry entries length =>
      intro t
      refine (length (addModule entry.2 entry.1 t)).trans ?_
      simp [addModule]
      omega

/-- The subtrees in preorder, as the loop of `flatten` meets them. -/
def bodiesOf (entries : List (Int × BytecodeModule)) : List (Int × Body) :=
  entries.map fun entry => (entry.1, entry.2.value)

theorem bodies_of_append (first second : List (Int × BytecodeModule)) :
    bodiesOf (first ++ second) = bodiesOf first ++ bodiesOf second := by
  simp [bodiesOf]

mutual

theorem flatten_preorder : ∀ (m : BytecodeModule) (parent : Int) (t : Tables),
    flatten m parent t = addModules (bodiesOf (Preorder.marked m parent t.modules.length)) t
  | .node m blocks, parent, t => by
      have length : (addModule m parent t).modules.length = t.modules.length + 1 := by
        simp [addModule]
      rw [flatten, flatten_blocks blocks t.modules.length (addModule m parent t), length]
      rfl

theorem flatten_blocks : ∀ (blocks : List BytecodeModule) (self : Nat) (t : Tables),
    flattenBlocks blocks self t =
      addModules (bodiesOf (Preorder.markedAll blocks self t.modules.length)) t
  | [], _, _ => rfl
  | block :: blocks, self, t => by
      rw [flattenBlocks, flatten_preorder block self t, flatten_blocks blocks self,
        add_modules_length, Preorder.markedAll, bodies_of_append, add_modules_append]
      simp [bodiesOf]

end

/-! ## The round trip -/

/-- The modules of a tree, without their blocks. -/
def bodies (m : BytecodeModule) : List Body := (Preorder.flatten m (-1) 0).map Prod.snd

/-- The modules are rebuilt from all tables that grew out of theirs and hold no other module. -/
theorem modules_rebuilt (m : BytecodeModule) (imaged : ∀ body ∈ bodies m, Imaged body) {t : Tables}
    (extended : Extends (flatten m (-1) {}) t) (alone : t.modules = (flatten m (-1) {}).modules) :
    buildPreludeImage t = .ok m := by
  have tables : flatten m (-1) {} = addModules (Preorder.flatten m (-1) 0) {} :=
    flatten_preorder m (-1) {}
  rw [tables] at extended alone
  obtain ⟨_, recs, modules, same⟩ := modules_read_back (Preorder.flatten m (-1) 0)
    (fun entry mem => imaged entry.2 (List.mem_map_of_mem mem)) {} rfl
  have read := same t extended
  rw [buildPreludeImage, alone, modules, List.nil_append, read, Preorder.attach_flatten]
  have parents : ∀ (i : Nat) r, recs[i]? = some r →
      r.parent < (i : Int) ∧ (0 < i → 0 ≤ r.parent) ∧ (i = 0 → r.parent = -1) := by
    intro i r at_
    have there := congrArg (·[i]?) read
    simp only [List.getElem?_map, at_, Option.map_some] at there
    exact Preorder.flatten_parents m there.symm
  have placed : misplaced recs = none := by
    rw [misplaced, List.findSome?_eq_none_iff]
    rintro ⟨r, i⟩ mem
    have place := parents i r (List.mem_zipIdx_iff_getElem?.mp mem)
    exact if_neg (by omega)
  cases recs with
  | nil =>
      obtain ⟨body, blocks⟩ := m
      simp [Preorder.flatten, Preorder.marked] at read
  | cons top recs =>
      have root := (parents 0 top rfl).2.2 rfl
      rw [placed]
      simp [root]

/-- `def f(x: Int = 1) = x` with the default's block in it. -/
def withDefault : BytecodeModule :=
  .node { words := [(16, 1), (20, 1)], localCount := 1
          pool := addAll {} [.symbol "f", .int 1, .symbol "f"] }
    [.node { name := "f", arity := 1, words := [(9, 1), (20, 1)]
             handlers := [⟨0, 1, 1, 0, 0, .catch⟩], captures := [⟨0, 0⟩]
             params := (setDefaultBlock 0 0 (setParamNames ["x"] { arity := 1 })).params }
      [.node { name := "f$default", words := [(2, 1), (20, 1)], pool := addAll {} [.int 1] } []]]

theorem with_default_imaged : ∀ body ∈ bodies withDefault, Imaged body := by
  intro body mem
  have cases : body ∈ [_, _, _] := mem
  simp only [List.mem_cons, List.not_mem_nil, or_false] at cases
  rcases cases with rfl | rfl | rfl
  · exact ⟨⟨_, rfl⟩, by decide +kernel, by decide +kernel, by decide, .inl rfl, by decide,
      by decide, fun _ stored => absurd stored List.not_mem_nil⟩
  · have named := set_param_names_made ["x"] { arity := 1 } rfl
    have made := set_default_made 0 (m := setParamNames ["x"] { arity := 1 }) named Nat.zero_lt_one
    refine ⟨⟨[], rfl⟩, by decide +kernel, by decide, by decide, .inr ⟨by decide, made⟩,
      by decide +kernel, by decide, ?_⟩
    intro b stored
    have only : some b ∈ [some 0] := stored
    obtain rfl := Option.some.inj (List.mem_singleton.mp only)
    decide
  · exact ⟨⟨_, rfl⟩, by decide +kernel, by decide +kernel, by decide, .inl rfl, by decide,
      by decide, fun _ stored => absurd stored List.not_mem_nil⟩

end ProtoScala.Runtime.PreludeImage
