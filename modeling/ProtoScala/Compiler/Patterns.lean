import ProtoScala.Compiler.Emission

/-!
# Compiling pattern matches

`compileMatch` turns a match into a cascade of tests over slots: each pattern
tests and extracts from slots and binds its variables in the scope of its case, a
failed test jumps to the next case, and the guard runs once the variables are
bound. Beside it stands the reference meaning: patterns are matched from left to
right against values, and every expression inside a pattern is evaluated in the
environment around the match, where the variables of the pattern do not exist yet.
-/

namespace ProtoScala.Compiler.Patterns

open ProtoScala.Compiler.Bytecode
open ProtoScala.Compiler.ConstantPool (Const)
open ProtoScala.Compiler.Globals (BindingKind GlobalBinding)
open ProtoScala.Compiler.Emission
open ProtoScala.Runtime.ExecutionEngine
open ProtoScala.Runtime.FrameExecution

set_option autoImplicit false

inductive TypeTree where
  | name (name : String)
  | applied (name : String)
  | tuple (arity : Nat)
  | function
  | other

/-- Patterns over expressions `E`. `ident` tells an extractor that is written as a
plain name from a longer path, and an alternative has a first member. -/
inductive Pattern (E : Type) where
  | wildcard
  | var (name : String)
  | literal (e : E)
  | stable (e : E)
  | typed (type : TypeTree) (p : Pattern E)
  | bind (name : String) (p : Pattern E)
  | alt (first : Pattern E) (others : List (Pattern E))
  | extractor (name : String) (e : E) (ident : Bool) (args : List (Pattern E))
  | tuple (args : List (Pattern E))
  | seqWildcard (name : String)

structure CaseDef (E : Type) where
  pattern : Pattern E
  guard : Option E
  body : E

structure Match (E : Type) where
  scrutinee : E
  cases : List (CaseDef E)

inductive ClassKind where
  | class_ | trait | object
  deriving DecidableEq, Repr

/-- What patterns read of a described type. -/
structure ClassInfo where
  key : String
  kind : ClassKind := .class_
  isCase : Bool := false
  builtin : Bool := false
  fields : List String := []
  companionTermKey : String := ""
  companionHasUnapply : Bool := false

/-- The names around a function: the template it is in, the globals and types, the
members of the template, and the trees that the compiler writes itself. -/
structure Names (E : Type) where
  template : Option String
  binding : String → Option GlobalBinding
  findType : String → Option ClassInfo
  memberOf : String → Bool
  followTypeAlias : String → String
  ident : String → E
  select : E → String → E

/-- The name under every prefix of the template's own name, then alone. -/
def scopedNames (template : Option String) (name : String) : List String :=
  let prefixes := match template with
    | none => []
    | some full =>
        let parts := full.splitOn "."
        (List.range parts.length).map fun k => ".".intercalate (parts.take (parts.length - k))
  prefixes.map (fun scope => scope ++ "." ++ name) ++ [name]

/-! ## Name resolution in patterns -/

def throwableKey : String := "@Throwable"

def exceptionKey : String := "@Exception"

def maxTupleArity : Nat := 22

def tupleTypeKey (n : Nat) : String := "@Tuple" ++ toString n

/-- What a type pattern tests. -/
inductive TypeTest (E : Type) where
  | any
  | builtin (code : TypeCode)
  | proto (key : String)
  /-- A thrown value that has the marker, or that no Scala class built. -/
  | thrown (key : String)
  /-- A value that has the marker, or that `foreign` accepts. -/
  | foreign (key : String) (foreign : E)
  /-- A value with the value of an expression on its prototype chain. -/
  | value (isInstanceOf type : E)

def builtinType (name : String) : Option TypeCode :=
  match name with
  | "Int" | "Long" | "Short" | "Byte" | "BigInt" | "Integer" => some .integer
  | "Double" | "Float" => some .double
  | "Boolean" => some .boolean
  | "Char" => some .char
  | "String" => some .string
  | "Unit" => some .unit
  | "List" => some .list
  | "Function" => some .function
  | "AnyRef" | "Object" => some .anyRef
  | "AnyVal" => some .anyVal
  | "Null" => some .null
  | "Nothing" => some .nothing
  | _ => none

/-- `Function0` to `Function22`, and any other number. -/
def isFunctionName (name : String) : Bool :=
  let digits := name.toList.drop 8
  name.toList.take 8 = "Function".toList && !digits.isEmpty && digits.all Char.isDigit

def stripPrefix (name scope : String) : String :=
  if scope.toList.isPrefixOf name.toList then String.ofList (name.toList.drop scope.length) else name

/-- The value that a dotted name in type position stands for, when its head is a
local, a member or a global that is not built in. -/
def valueNamedByType {E : Type} (names : Names E) (isLocal : String → Bool) (dotted : String) :
    Option E :=
  match dotted.splitOn "." with
  | [] => none
  | head :: path =>
      let isValue := isLocal head || names.memberOf head ||
        ((scopedNames names.template head).findSome? names.binding).any fun b =>
          b.kind != .builtin
      if (head :: path).contains "" || !isValue then none
      else some (path.foldl names.select (names.ident head))

def TypeTree.written : TypeTree → Except String String
  | .name text | .applied text => pure text
  | .tuple arity => pure ("Tuple" ++ toString arity)
  | .function => pure "Function"
  | .other => throw "this type cannot be tested at run time"

/-- The name of a type behind its aliases and the packages that may stand before
it. -/
def typeNamed {E : Type} (names : Names E) (written : String) : String :=
  names.followTypeAlias (["scala.", "java.lang.", "Predef."].foldl stripPrefix
    (names.followTypeAlias written))

/-- The type `t` under its name; `thrown` when the value is the one a `catch` has
caught. -/
def resolveNamed {E : Type} (names : Names E) (isLocal : String → Bool) (thrown : Bool)
    (t : TypeTree) (name : String) : Except String (TypeTest E) :=
  if name = "Any" then pure .any
  else
    match if isFunctionName name then some .function else builtinType name with
    | some code => pure (.builtin code)
    | none =>
        match names.findType name, t with
        | some c, _ =>
            if c.key = throwableKey && thrown then pure .any
            else if c.key = throwableKey || c.key = exceptionKey then
              pure (if thrown then .thrown c.key
                else .foreign c.key (names.ident "__isForeignObject"))
            else pure (.proto c.key)
        | none, .name dotted =>
            match valueNamedByType names isLocal dotted with
            | some e => pure (.value (names.ident "__isInstanceOf") e)
            | none => throw ("Not found: type " ++ name)
        | none, _ => throw ("Not found: type " ++ name)

/-- The type that a pattern tests. -/
def resolveType {E : Type} (names : Names E) (isLocal : String → Bool) (thrown : Bool)
    (t : TypeTree) : Except String (TypeTest E) := do
  let written ← t.written
  resolveNamed names isLocal thrown t (typeNamed names written)

/-- How an extractor pattern is compiled. -/
inductive Extractor where
  | cons
  | list
  | fields (key : String) (keys : List String)
  | custom
  deriving DecidableEq, Repr

/-- The name that an extractor written as a plain name refers to. -/
def extractorName {E : Type} (names : Names E) (name : String) (ident : Bool) : String :=
  if ident then
    ((scopedNames names.template name).find? fun candidate =>
      (names.findType candidate).isSome || (names.binding candidate).isSome).getD name
  else name

def resolveExtractor {E : Type} (names : Names E) (isLocal : String → Bool) (written : String)
    (ident : Bool) (args : Nat) : Except String Extractor :=
  let name := extractorName names written ident
  let shadowed := ident && (isLocal name || names.memberOf name)
  let term := names.binding name
  let userDefined := shadowed || term.any fun b => b.kind != .builtin
  if name = "::" && !userDefined then
    if args ≠ 2 then throw "the :: pattern takes two patterns" else pure .cons
  else if name = "List" && !userDefined && term.isSome then pure .list
  else
    let synthesised (cls : ClassInfo) : Bool :=
      cls.isCase && cls.kind = .class_ &&
        ((cls.builtin && cls.companionTermKey = "") ||
          (!cls.companionHasUnapply && term.any fun b => b.key = cls.companionTermKey))
    match (if shadowed then none else names.findType name).filter synthesised with
    | some cls =>
        if args ≠ cls.fields.length then
          throw ("wrong number of arguments for pattern " ++ name ++ ": expected " ++
            toString cls.fields.length ++ ", found " ++ toString args)
        else pure (.fields cls.key cls.fields)
    | none =>
        if !shadowed && term.isNone && ident then throw ("Not found: " ++ name) else pure .custom

/-! ## The variables of a pattern -/

mutual

def patternVariables {E : Type} : Pattern E → List String
  | .var name => if name = "_" then [] else [name]
  | .bind name p => name :: patternVariables p
  | .seqWildcard name => if name = "" then [] else [name]
  | .typed _ p => patternVariables p
  | .extractor _ _ _ args => allVariables args
  | .tuple args => allVariables args
  | .alt _ _ | .wildcard | .literal _ | .stable _ => []

def allVariables {E : Type} : List (Pattern E) → List String
  | [] => []
  | p :: ps => patternVariables p ++ allVariables ps

end

def checkNoVariables {E : Type} (p : Pattern E) : Except String Unit :=
  match patternVariables p with
  | [] => pure ()
  | x :: _ => throw ("Illegal variable " ++ x ++ " in pattern alternative")

/-- The first name that occurs a second time. -/
def repeated : List String → List String → Option String
  | _, [] => none
  | seen, x :: xs => if seen.contains x then some x else repeated (x :: seen) xs

def checkDistinctVariables {E : Type} (p : Pattern E) : Except String Unit :=
  match repeated [] (patternVariables p) with
  | none => pure ()
  | some x => throw ("duplicate pattern variable: " ++ x)

/-! ## The cascade -/

section Compile

variable {V W N E : Type} {M : Engine V W N}

/-- A fragment, the scopes it leaves and the next free slot. -/
abbrev Compiled := List Item × Scopes × Nat

def symbolConst (key : String) : Const := { kind := .symbol, sval := key }

def namesConst (keys : List String) : Const := { kind := .names, names := keys }

def intConst (n : Nat) : Const := { kind := .int, ival := Int64.ofNat n }

def sendSite (name : String) (argc : UInt32) : Const :=
  { kind := .sendSite, sval := name, argc := argc }

def instrs (code : List Instr) : List Item := code.map .instr

def bindPattern (name : String) (slot : Nat) (scopes : Scopes) (free : Nat) : Compiled :=
  if name = "_" then ([], scopes, free)
  else (instrs [.pushLocal slot, .storeLocal free],
    declareLocal name { slot := free } scopes, free + 1)

def protoTest (key : String) (slot : Nat) : List Item :=
  instrs [.pushLocal slot, .testProto (symbolConst key)] ++ [Item.fail false]

/-- The attributes of the value in `slot`, stored from the last one down. -/
def extractCode (keys : List String) (slot free : Nat) : List Instr :=
  [Instr.pushLocal slot, .unapplyFields (namesConst keys)] ++
    (List.range keys.length).map fun k => Instr.storeLocal (free + k)

/-- The slots that `extractCode` leaves the attributes in, in their order. -/
def extractSlots (count free : Nat) : List Nat :=
  (List.range count).reverse.map fun k => free + k

/-- Whether the value in `slot` has the marker, or else the Boolean that `other`
leaves. -/
def markerOr (key : String) (slot : Nat) (other : List Instr) : List Instr :=
  [Instr.pushLocal slot, .testProto (symbolConst key), .dup, .jumpIfTrue (other.length + 1),
    .pop] ++ other

/-- The code of a type test, which leaves a Boolean; `none` where every value
passes. -/
def compileTypeTest (X : ExprCompiler M E) (test : TypeTest E) (slot : Nat) (scopes : Scopes)
    (free : Nat) : Except String (Option (List Instr) × Nat) :=
  match test with
  | .any => pure (none, free)
  | .builtin code => pure (some [.pushLocal slot, .testType code], free)
  | .proto key => pure (some [.pushLocal slot, .testProto (symbolConst key)], free)
  | .thrown key =>
      pure (some (markerOr key slot
        [.pushLocal slot, .testProto (symbolConst throwableKey), .not]), free)
  | .foreign key foreign => do
      let (code, free) ← X.compileExpr foreign scopes free
      pure (some (markerOr key slot (code ++ [Instr.pushLocal slot, .call 1])), free)
  | .value isInstanceOf type => do
      let (function, free) ← X.compileExpr isInstanceOf scopes free
      let (code, free) ← X.compileExpr type scopes free
      pure (some (function ++ [Instr.pushLocal slot] ++ code ++ [Instr.call 2]), free)

/-- A type test that every other value fails. -/
def testItems : Option (List Instr) → List Item
  | some code => instrs code ++ [Item.fail false]
  | none => []

/-- `_1` to `_n`. -/
def tupleKeys (n : Nat) : List String := (List.range n).map fun k => "_" ++ toString (k + 1)

/-- The name that the pattern gives to the rest of a sequence. -/
def Pattern.rest {E : Type} : Pattern E → Option String
  | .seqWildcard name => some name
  | _ => none

/-- As `rest`, for a pattern that others follow. -/
def lastRest {E : Type} (p : Pattern E) (ps : List (Pattern E)) : Option String :=
  if ps.isEmpty then p.rest else none

def endsInRest {E : Type} (args : List (Pattern E)) : Bool :=
  args.getLast?.any fun p => p.rest.isSome

def fixedCount {E : Type} (args : List (Pattern E)) : Nat :=
  args.length - (if endsInRest args then 1 else 0)

/-- A list with enough elements, or exactly as many as there are patterns. -/
def listTest {E : Type} (args : List (Pattern E)) (slot : Nat) : List Item :=
  instrs [.pushLocal slot, .testType .list] ++ [Item.fail false] ++
    instrs [.pushLocal slot, .send (sendSite "length" 0), .pushConst (intConst (fixedCount args)),
      if endsInRest args then .ge else .eq] ++ [Item.fail false]

def isLocalIn (scopes : Scopes) (name : String) : Bool := (findInFunction scopes name).isSome

mutual

/-- The code of a pattern for the value in a slot; `caught` when a handler has put
the value there. -/
def compilePattern (X : ExprCompiler M E) (names : Names E) (caught : Bool) :
    Pattern E → Nat → Scopes → Nat → Except String Compiled
  | .wildcard, _, scopes, free => pure ([], scopes, free)
  | .var name, slot, scopes, free => pure (bindPattern name slot scopes free)
  | .literal e, slot, scopes, free | .stable e, slot, scopes, free => do
      let (code, free) ← X.compileExpr e scopes free
      pure (instrs (code ++ [Instr.pushLocal slot, .eq]) ++ [Item.fail false], scopes, free)
  | .typed type p, slot, scopes, free => do
      let test ← resolveType names (isLocalIn scopes) caught type
      let (code, free) ← compileTypeTest X test slot scopes free
      let (items, scopes, free) ← compilePattern X names caught p slot scopes free
      pure (testItems code ++ items, scopes, free)
  | .bind name p, slot, scopes, free => do
      let (items, scopes, free) ← compilePattern X names caught p slot scopes free
      let (binding, scopes, free) := bindPattern name slot scopes free
      pure (items ++ binding, scopes, free)
  | .alt first others, slot, scopes, free => do
      checkNoVariables first
      let (items, scopes, free) ← compilePattern X names caught first slot scopes free
      compileAlternatives X names caught items others slot scopes free
  | .tuple args, slot, scopes, free => do
      if args.length > maxTupleArity then
        throw "tuple patterns of more than 22 elements are not supported (D32)"
      let keys := tupleKeys args.length
      let (items, scopes, needed) ← compileAll X names args (extractSlots keys.length free) scopes
        (free + keys.length)
      pure (protoTest (tupleTypeKey args.length) slot ++ instrs (extractCode keys slot free) ++ items,
        scopes, needed)
  | .extractor name e ident args, slot, scopes, free => do
      match ← resolveExtractor names (isLocalIn scopes) name ident args.length with
      | .cons =>
          let (items, scopes, needed) ← compileAll X names args [free + 1, free] scopes (free + 2)
          pure (instrs [.pushLocal slot, .testType .consList] ++ [Item.fail false] ++
            instrs [.pushLocal slot, .uncons, .storeLocal free, .storeLocal (free + 1)] ++ items,
            scopes, needed)
      | .list =>
          let (items, scopes, needed) ← compileElements X names args 0 (fixedCount args) slot scopes
            free
          pure (listTest args slot ++ items, scopes, needed)
      | .fields key keys =>
          let (items, scopes, needed) ← compileAll X names args (extractSlots keys.length free)
            scopes (free + keys.length)
          pure (protoTest key slot ++ instrs (extractCode keys slot free) ++ items, scopes, needed)
      | .custom =>
          let (code, result) ← X.compileExpr e scopes free
          let asked := instrs (code ++ [Instr.pushLocal slot, .send (sendSite "unapply" 1),
            .storeLocal result, .pushLocal result])
          if args.isEmpty then pure (asked ++ [Item.fail false], scopes, result + 1)
          else
            let got := result + 1
            let found := asked ++ instrs [.send (sendSite "isEmpty" 0)] ++ [Item.fail true] ++
              instrs [.pushLocal result, .send (sendSite "get" 0), .storeLocal got]
            if args.length = 1 then
              let (items, scopes, needed) ← compileAll X names args [got] scopes (got + 1)
              pure (found ++ items, scopes, needed)
            else
              let keys := tupleKeys args.length
              let (items, scopes, needed) ← compileAll X names args
                (extractSlots keys.length (got + 1)) scopes (got + 1 + keys.length)
              pure (found ++ instrs (extractCode keys got (got + 1)) ++ items, scopes, needed)
  | .seqWildcard _, _, _, _ =>
      throw ("a sequence wildcard is only allowed as the last argument of a sequence " ++
        "pattern such as List(a, rest*)")

/-- The alternatives after the one compiled as `items`, whose failed tests come
here. -/
def compileAlternatives (X : ExprCompiler M E) (names : Names E) (caught : Bool)
    (items : List Item) :
    List (Pattern E) → Nat → Scopes → Nat → Except String Compiled
  | [], _, scopes, free => pure (items, scopes, free)
  | p :: others, slot, scopes, free => do
      checkNoVariables p
      let (next, scopes, free) ← compilePattern X names caught p slot scopes free
      let (rest, scopes, free) ← compileAlternatives X names caught next others slot scopes free
      pure (instrs (resolve items 1 ++ [Instr.jump rest.length]) ++ rest, scopes, free)

/-- Each pattern against the slot at its place. -/
def compileAll (X : ExprCompiler M E) (names : Names E) :
    List (Pattern E) → List Nat → Scopes → Nat → Except String Compiled
  | p :: ps, slot :: slots, scopes, free => do
      let (items, scopes, free) ← compilePattern X names false p slot scopes free
      let (rest, scopes, free) ← compileAll X names ps slots scopes free
      pure (items ++ rest, scopes, free)
  | _, _, scopes, free => pure ([], scopes, free)

/-- The elements from `index` on, and what is left behind the `fixed` ones. -/
def compileElements (X : ExprCompiler M E) (names : Names E) :
    List (Pattern E) → Nat → Nat → Nat → Scopes → Nat → Except String Compiled
  | [], _, _, _, scopes, free => pure ([], scopes, free)
  | p :: ps, index, fixed, slot, scopes, free =>
      match lastRest p ps with
      | some name =>
          if name = "" then pure ([], scopes, free)
          else
            let (binding, scopes, needed) := bindPattern name free scopes (free + 1)
            pure (instrs [.pushLocal slot, .pushConst (intConst fixed), .send (sendSite "drop" 1),
              .storeLocal free] ++ binding, scopes, needed)
      | none => do
          let (items, scopes, needed) ← compilePattern X names false p free scopes (free + 1)
          let (rest, scopes, needed) ← compileElements X names ps (index + 1) fixed slot scopes
            needed
          pure (instrs [.pushLocal slot, .pushConst (intConst index), .send (sendSite "apply" 1),
            .storeLocal free] ++ items ++ rest, scopes, needed)

end

def compileGuard (X : ExprCompiler M E) (guard : Option E) (scopes : Scopes) (free : Nat) :
    Except String (List Item × Nat) :=
  match guard with
  | some guard => do
      let (code, free) ← X.compileExpr guard scopes free
      pure (instrs code ++ [Item.fail false], free)
  | none => pure ([], free)

/-- The cases from one on, the instructions that follow the last one included: the
scrutinee again and `MATCH_ERROR`. -/
def compileCases (X : ExprCompiler M E) (names : Names E) (slot : Nat) (scopes : Scopes) :
    List (CaseDef E) → Nat → Except String (List Instr × Nat)
  | [], free => pure ([.pushLocal slot, .matchError], free)
  | c :: cases, free => do
      checkDistinctVariables c.pattern
      let (items, inner, free) ← compilePattern X names false c.pattern slot ([] :: scopes) free
      let (guard, free) ← compileGuard X c.guard inner free
      let (body, free) ← X.compileExpr c.body inner free
      let (rest, free) ← compileCases X names slot scopes cases free
      pure (resolve (items ++ guard) (body.length + 1) ++ body ++ [Instr.jump rest.length] ++ rest,
        free)

def compileMatch (X : ExprCompiler M E) (names : Names E) (m : Match E) (scopes : Scopes)
    (free : Nat) : Except String (List Instr × Nat) := do
  let (scrutinee, slot) ← X.compileExpr m.scrutinee scopes free
  let (cases, needed) ← compileCases X names slot scopes m.cases (slot + 1)
  pure (scrutinee ++ [Instr.storeLocal slot] ++ cases, needed)

end Compile

/-! ## The reference meaning -/

section Reference

variable {V W N E : Type} {M : Engine V W N}

/-- A Boolean that an operation answers. -/
def asks (M : Engine V W N) (x : Eval V W V) : Eval V (Machine V W) Bool := do
  let b ← outside x
  outside (M.truthy b)

def evalTypeTest (X : ExprCompiler M E) (env : Env V) (v : V) : TypeTest E → Eval V (Machine V W) Bool
  | .any => pure true
  | .builtin code => asks M (M.primitive (.testType code) [v])
  | .proto key => asks M (M.primitive (.testProto (symbolConst key)) [v])
  | .thrown key => do
      if ← asks M (M.primitive (.testProto (symbolConst key)) [v]) then pure true
      else
        let scala ← outside (M.primitive (.testProto (symbolConst throwableKey)) [v])
        asks M (M.operate .not [scala])
  | .foreign key foreign => do
      if ← asks M (M.primitive (.testProto (symbolConst key)) [v]) then pure true
      else
        let accepts ← X.eval foreign env
        asks M (M.perform (.call 1) [accepts, v])
  | .value isInstanceOf type => do
      let function ← X.eval isInstanceOf env
      let prototype ← X.eval type env
      asks M (M.perform (.call 2) [function, v, prototype])

def readFields (M : Engine V W N) (keys : List String) (v : V) : Eval V W (List V) := fun w =>
  .done (keys.map fun key => M.platform.ownAttribute v key w) w

def unconsOf (M : Engine V W N) (v : V) : Eval V W (List V) := fun w =>
  let (head, tail) := M.platform.uncons v w
  .done [head, tail] w

def number (M : Engine V W N) (n : Nat) : Eval V W V :=
  M.primitive (.constantOf (intConst n)) []

def sends (M : Engine V W N) (name : String) (argc : UInt32) (operands : List V) : Eval V W V :=
  M.perform (.send (sendSite name argc)) operands

/-- The variables a pattern has bound, with their values; `none` when it does not
match. -/
abbrev Bindings (V : Type) := Option (List (String × V))

def bindName (name : String) (v : V) : List (String × V) :=
  if name = "_" then [] else [(name, v)]

mutual

def matchPattern (X : ExprCompiler M E) (names : Names E) (caught : Bool) (env : Env V) :
    Pattern E → V → Eval V (Machine V W) (Bindings V)
  | .wildcard, _ => pure (some [])
  | .var name, v => pure (some (bindName name v))
  | .literal e, v | .stable e, v => do
      let expected ← X.eval e env
      if ← asks M (M.operate .eq [expected, v]) then pure (some []) else pure none
  | .typed type p, v =>
      match resolveType names (fun x => (env x).isSome) caught type with
      | .error _ => pure none
      | .ok test => do
          if ← evalTypeTest X env v test then matchPattern X names caught env p v else pure none
  | .bind name p, v => do
      match ← matchPattern X names caught env p v with
      | some bindings => pure (some (bindings ++ bindName name v))
      | none => pure none
  | .alt first others, v =>
      matchAlternatives X names caught env (matchPattern X names caught env first v) others v
  | .tuple args, v => do
      if ← asks M (M.primitive (.testProto (symbolConst (tupleTypeKey args.length))) [v]) then
        let fields ← outside (readFields M (tupleKeys args.length) v)
        matchAll X names env args fields
      else pure none
  | .extractor name e ident args, v =>
      match resolveExtractor names (fun x => (env x).isSome) name ident args.length with
      | .error _ => pure none
      | .ok .cons => do
          if ← asks M (M.primitive (.testType .consList) [v]) then
            let parts ← outside (unconsOf M v)
            matchAll X names env args parts
          else pure none
      | .ok .list => do
          if ← asks M (M.primitive (.testType .list) [v]) then
            let length ← outside (sends M "length" 0 [v])
            let count ← outside (number M (fixedCount args))
            if ← asks M (M.operate (if endsInRest args then .ge else .eq) [length, count]) then
              matchElements X names env args 0 (fixedCount args) v
            else pure none
          else pure none
      | .ok (.fields key keys) => do
          if ← asks M (M.primitive (.testProto (symbolConst key)) [v]) then
            let fields ← outside (readFields M keys v)
            matchAll X names env args fields
          else pure none
      | .ok .custom => do
          let extractor ← X.eval e env
          let result ← outside (sends M "unapply" 1 [extractor, v])
          if args.isEmpty then
            if ← outside (M.truthy result) then pure (some []) else pure none
          else if ← asks M (sends M "isEmpty" 0 [result]) then pure none
          else
            let got ← outside (sends M "get" 0 [result])
            if args.length = 1 then matchAll X names env args [got]
            else
              let fields ← outside (readFields M (tupleKeys args.length) got)
              matchAll X names env args fields
  | .seqWildcard _, _ => pure none

/-- The first alternative that matches. -/
def matchAlternatives (X : ExprCompiler M E) (names : Names E) (caught : Bool) (env : Env V)
    (current : Eval V (Machine V W) (Bindings V)) :
    List (Pattern E) → V → Eval V (Machine V W) (Bindings V)
  | [], _ => current
  | p :: others, v => do
      match ← current with
      | some bindings => pure (some bindings)
      | none => matchAlternatives X names caught env (matchPattern X names caught env p v) others v

/-- Each pattern against the value at its place. -/
def matchAll (X : ExprCompiler M E) (names : Names E) (env : Env V) :
    List (Pattern E) → List V → Eval V (Machine V W) (Bindings V)
  | p :: ps, v :: values => do
      match ← matchPattern X names false env p v with
      | none => pure none
      | some bindings =>
          match ← matchAll X names env ps values with
          | none => pure none
          | some more => pure (some (bindings ++ more))
  | _, _ => pure (some [])

/-- The elements of a list from `index` on, and what is left behind the `fixed`
ones. -/
def matchElements (X : ExprCompiler M E) (names : Names E) (env : Env V) :
    List (Pattern E) → Nat → Nat → V → Eval V (Machine V W) (Bindings V)
  | [], _, _, _ => pure (some [])
  | p :: ps, index, fixed, v =>
      match lastRest p ps with
      | some name =>
          if name = "" then pure (some [])
          else do
            let count ← outside (number M fixed)
            let rest ← outside (sends M "drop" 1 [v, count])
            pure (some (bindName name rest))
      | none => do
          let place ← outside (number M index)
          let element ← outside (sends M "apply" 1 [v, place])
          match ← matchPattern X names false env p element with
          | none => pure none
          | some bindings =>
              match ← matchElements X names env ps (index + 1) fixed v with
              | none => pure none
              | some more => pure (some (bindings ++ more))

end

def bindAll (env : Env V) (bindings : List (String × V)) : Env V :=
  bindings.foldl (fun env binding => env.bind binding.1 binding.2) env

def evalGuard (X : ExprCompiler M E) (env : Env V) : Option E → Eval V (Machine V W) Bool
  | none => pure true
  | some guard => do
      let b ← X.eval guard env
      outside (M.truthy b)

/-- The first case whose pattern matches and whose guard is true, with what its
pattern binds. -/
def selectCase (X : ExprCompiler M E) (names : Names E) (env : Env V) :
    List (CaseDef E) → V → Eval V (Machine V W) (Option (CaseDef E × List (String × V)))
  | [], _ => pure none
  | c :: cases, v => do
      match ← matchPattern X names false env c.pattern v with
      | none => selectCase X names env cases v
      | some bindings =>
          if ← evalGuard X (bindAll env bindings) c.guard then pure (some (c, bindings))
          else selectCase X names env cases v

/-- The body of the selected case, and `MatchError` when there is none. -/
def evalCases (X : ExprCompiler M E) (names : Names E) (env : Env V) (cases : List (CaseDef E))
    (v : V) : Eval V (Machine V W) V := do
  match ← selectCase X names env cases v with
  | some (c, bindings) => X.eval c.body (bindAll env bindings)
  | none => outside (M.operate .matchError [v])

def evalMatch (X : ExprCompiler M E) (names : Names E) (m : Match E) (env : Env V) :
    Eval V (Machine V W) V := do
  let v ← X.eval m.scrutinee env
  evalCases X names env m.cases v

end Reference

/-! ## Names that a pattern binds before it reads them -/

section Unshadowed

variable {V W N E : Type} {M : Engine V W N}

def TypeTree.head : TypeTree → Option String
  | .name dotted => (dotted.splitOn ".").head?
  | _ => none

/-- The expression mentions none of the names. -/
def mentionsNone (X : ExprCompiler M E) (bound : List String) (e : E) : Bool :=
  bound.all fun x => !X.reads e x

def typeUnshadowed (X : ExprCompiler M E) (names : Names E) (caught : Bool)
    (isLocal : String → Bool) (bound : List String) (t : TypeTree) : Bool :=
  match resolveType names isLocal caught t with
  | .ok (.foreign _ foreign) => mentionsNone X bound foreign
  | .ok (.value isInstanceOf type) =>
      mentionsNone X bound isInstanceOf && mentionsNone X bound type &&
        !t.head.any fun x => bound.contains x
  | .ok _ => true
  | .error _ => !t.head.any fun x => bound.contains x

def extractorUnshadowed (X : ExprCompiler M E) (names : Names E) (isLocal : String → Bool)
    (bound : List String) (name : String) (e : E) (ident : Bool) (args : Nat) : Bool :=
  !(ident && bound.contains (extractorName names name ident)) &&
    match resolveExtractor names isLocal name ident args with
    | .ok .custom => mentionsNone X bound e
    | _ => true

mutual

/-- No name inside the pattern is one that the match has bound further to the
left; `bound` lists these. -/
def unshadowed (X : ExprCompiler M E) (names : Names E) (caught : Bool) (isLocal : String → Bool)
    (bound : List String) : Pattern E → Bool
  | .literal e | .stable e => mentionsNone X bound e
  | .typed type p =>
      typeUnshadowed X names caught isLocal bound type &&
        unshadowed X names caught isLocal bound p
  | .bind _ p => unshadowed X names caught isLocal bound p
  | .alt first others =>
      unshadowed X names caught isLocal bound first &&
        othersUnshadowed X names caught isLocal bound others
  | .tuple args => allUnshadowed X names isLocal bound args
  | .extractor name e ident args =>
      extractorUnshadowed X names isLocal bound name e ident args.length &&
        allUnshadowed X names isLocal bound args
  | .wildcard | .var _ | .seqWildcard _ => true

def othersUnshadowed (X : ExprCompiler M E) (names : Names E) (caught : Bool)
    (isLocal : String → Bool) (bound : List String) : List (Pattern E) → Bool
  | [] => true
  | p :: ps =>
      unshadowed X names caught isLocal bound p && othersUnshadowed X names caught isLocal bound ps

def allUnshadowed (X : ExprCompiler M E) (names : Names E) (isLocal : String → Bool)
    (bound : List String) : List (Pattern E) → Bool
  | [] => true
  | p :: ps =>
      unshadowed X names false isLocal bound p &&
        allUnshadowed X names isLocal (bound ++ patternVariables p) ps

end

end Unshadowed

end ProtoScala.Compiler.Patterns
