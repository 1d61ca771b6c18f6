import ProtoScala.Frontend.Linearizer

/-!
# Templates and their constructors

A unit describes its templates first, parents first, and compiles them afterwards.
`buildClassInfo` resolves the parents, linearizes them and checks that the classes
among them form one chain; `compileConstructor` emits the initialiser of a template:
the superclass's, then those of the traits the superclass does not cover, then the
template's own statements. An auxiliary constructor calls another constructor of its
class, chosen by the number of arguments.

A template comes with the key that `declareType` gave it, and its parents with the
keys their names resolve to.
-/

namespace ProtoScala.Compiler.Templates

open ProtoScala.Frontend.Linearizer

set_option autoImplicit false

inductive ClassKind where
  | class_
  | trait_
  | object_
  deriving DecidableEq, Repr

def kindWord : ClassKind → String
  | .class_ => "class"
  | .trait_ => "trait"
  | .object_ => "object"

structure ClassInfo where
  name : String
  key : String
  kind : ClassKind := .class_
  isCase : Bool := false
  isAbstract : Bool := false
  isFinal : Bool := false
  builtin : Bool := false
  hasInit : Bool := true
  linearization : List String
  primaryArity : Nat := 0
  primaryMinArity : Nat := 0
  primaryVariadic : Bool := false
  auxArities : List Nat := []
  deriving DecidableEq, Repr

def kAnyKey : String := "@Any"
def kAnyRefKey : String := "@AnyRef"
def kProductKey : String := "@Product"

def tupleTypeKey (n : Nat) : String := "@Tuple" ++ toString n

def kMaxTupleArity : Nat := 22

/-- A type of the runtime below `AnyRef`. -/
def builtinBelowAnyRef (name : String) : ClassInfo where
  name := name
  key := "@" ++ name
  isFinal := true
  isAbstract := true
  builtin := true
  linearization := ["@" ++ name, kAnyRefKey, kAnyKey]

def builtinTrait (name : String) : ClassInfo :=
  { builtinBelowAnyRef name with kind := .trait_, isFinal := false, hasInit := false }

def tupleType (n : Nat) : ClassInfo where
  name := "Tuple" ++ toString n
  key := tupleTypeKey n
  isCase := true
  isFinal := true
  builtin := true
  linearization := [tupleTypeKey n, kProductKey, kAnyRefKey, kAnyKey]
  primaryArity := n

/-- The types that the runtime provides, ancestors first. -/
def builtinTypes : List ClassInfo :=
  [{ name := "Any", key := kAnyKey, isAbstract := true, builtin := true,
     linearization := [kAnyKey] },
   { name := "AnyRef", key := kAnyRefKey, isAbstract := true, builtin := true,
     linearization := [kAnyRefKey, kAnyKey] },
   builtinTrait "Product", builtinTrait "Serializable", builtinTrait "Enum"] ++
  ["Range", "Vector", "Map", "Set", "Actor", "Future"].map builtinBelowAnyRef ++
  (List.range (kMaxTupleArity - 1)).map fun n => tupleType (n + 2)

/-! ## The source -/

structure Param where
  hasDefault : Bool := false
  repeated : Bool := false
  deriving DecidableEq, Repr

structure ParentRef where
  type : String
  hasArgs : Bool := false
  args : Nat := 0
  deriving DecidableEq, Repr

/-- What an auxiliary constructor begins with: nothing, something else, or a call
`this(...)` with so many arguments. -/
inductive AuxBody where
  | missing
  | noSelfCall
  | selfCall (args : Nat)
  deriving DecidableEq, Repr

inductive Member where
  /-- An expression, or a value with a right-hand side. -/
  | statement (text : String)
  | lazyValue (defined : Bool)
  | auxConstructor (params : Nat) (body : AuxBody)
  /-- A method, an abstract value, an import or a type. -/
  | other
  deriving DecidableEq, Repr

structure TemplateDef where
  name : String
  key : String
  kind : ClassKind := .class_
  isCase : Bool := false
  isAbstract : Bool := false
  isFinal : Bool := false
  parents : List ParentRef := []
  ctorParams : List Param := []
  body : List Member := []
  deriving DecidableEq, Repr

def Member.text? : Member → Option String
  | .statement text => some text
  | _ => none

/-- The statements of the body, which the primary constructor runs. -/
def TemplateDef.statements (t : TemplateDef) : List String := t.body.filterMap Member.text?

def Member.aux? : Member → Option (Nat × AuxBody)
  | .auxConstructor params body => some (params, body)
  | _ => none

def TemplateDef.auxConstructors (t : TemplateDef) : List (Nat × AuxBody) :=
  t.body.filterMap Member.aux?

/-! ## Describing a template -/

def findTypeByKey (types : List ClassInfo) (key : String) : Option ClassInfo :=
  types.find? fun info => info.key == key

def ClassInfo.userClass (info : ClassInfo) : Bool := info.kind == .class_ && !info.builtin

def findUserClass (types : List ClassInfo) (key : String) : Option ClassInfo :=
  (findTypeByKey types key).filter ClassInfo.userClass

/-- The first class behind the template in its linearization that the runtime does
not provide. -/
def superclassOf (types : List ClassInfo) (info : ClassInfo) : Option ClassInfo :=
  info.linearization.tail.findSome? (findUserClass types)

def parentError (t : TemplateDef) (index : Nat) (p : ParentRef) (parent : ClassInfo) :
    Option String :=
  if parent.kind = .object_ then some ("an object cannot be extended: " ++ parent.name)
  else if parent.isFinal then some ("cannot extend final class " ++ parent.name)
  else if 0 < index ∧ parent.kind ≠ .trait_ then
    some ("class " ++ parent.name ++ " is not a trait; only the first parent may be a class")
  else if t.isCase ∧ parent.isCase ∧ parent.kind = .class_ then
    some ("case-to-case inheritance is prohibited: case class " ++ t.name ++
      " extends case class " ++ parent.name)
  else if p.hasArgs ∧ t.kind = .trait_ then
    some "a trait may not pass arguments to its parents"
  else if p.hasArgs ∧ parent.kind = .trait_ ∧ parent.primaryArity = 0 then
    some ("trait " ++ parent.name ++ " takes no arguments")
  else none

/-- The loop over the parents, from the one with the given index on. -/
def resolveParents (types : List ClassInfo) (t : TemplateDef) :
    Nat → List ParentRef → Except String (List ClassInfo)
  | _, [] => .ok []
  | index, p :: rest =>
      match findTypeByKey types p.type with
      | none => .error ("Not found: type " ++ p.type)
      | some parent =>
          match parentError t index p parent with
          | some message => .error message
          | none => (resolveParents types t (index + 1) rest).map (parent :: ·)

def parentLinearizations (parents : List ClassInfo) : List (List String) :=
  if parents.isEmpty then [[kAnyRefKey, kAnyKey]] else parents.map ClassInfo.linearization

/-- The class that every inherited class has to be an ancestor of, or be. -/
def baseOf (types : List ClassInfo) (c : ClassInfo) (parents : List ClassInfo) :
    Option ClassInfo :=
  match parents with
  | [] => none
  | first :: _ => if first.kind = .class_ then some first else superclassOf types c

/-- The first inherited class that is not among those of the base. -/
def unrelatedClass (types : List ClassInfo) (c : ClassInfo) (parents : List ClassInfo) :
    Option ClassInfo :=
  if parents.isEmpty then none
  else
    (c.linearization.filter (· ≠ c.key)).findSome? fun key =>
      (findUserClass types key).filter fun _ =>
        !((baseOf types c parents).any fun base => base.linearization.contains key)

def unrelatedMessage (base : Option ClassInfo) (parents : List ClassInfo) (a : ClassInfo) :
    String :=
  "illegal trait inheritance: superclass " ++ (base.elim "AnyRef" ClassInfo.name) ++
    " does not derive from " ++
    ((parents.find? fun parent => parent.linearization.contains a.key).elim ""
      fun owner => kindWord owner.kind ++ " " ++ owner.name ++ "'s ") ++
    "superclass " ++ a.name

/-- The numbers of parameters of the auxiliary constructors; constructors differ in
that number. -/
def auxAritiesOf (t : TemplateDef) :
    List Nat → List (Nat × AuxBody) → Except String (List Nat)
  | seen, [] => .ok seen
  | seen, (arity, _) :: rest =>
      if t.kind ≠ .class_ then .error "auxiliary constructors are only allowed in classes"
      else if arity = t.ctorParams.length ∨ arity ∈ seen then
        .error ("constructors of " ++ t.name ++
          " must differ in their number of parameters (D31)")
      else auxAritiesOf t (seen ++ [arity]) rest

def Member.initialises : Member → Bool
  | .statement _ => true
  | .lazyValue defined => defined
  | _ => false

/-- The description of a template before its constructors. -/
def describeParents (t : TemplateDef) (parents : List ClassInfo) : ClassInfo where
  name := t.name
  key := t.key
  kind := t.kind
  isCase := t.isCase
  isAbstract := t.isAbstract || t.kind == .trait_
  isFinal := t.isFinal || t.kind == .object_
  linearization := linearize t.key (parentLinearizations parents)

/-- `primaryMinArity`: trailing parameters with a default may be omitted. -/
def minArity (params : List Param) : Nat :=
  (params.reverse.dropWhile Param.hasDefault).length

def describeConstructors (t : TemplateDef) (c : ClassInfo) (auxArities : List Nat) : ClassInfo :=
  { c with
    primaryArity := t.ctorParams.length
    primaryMinArity := minArity t.ctorParams
    primaryVariadic := t.ctorParams.getLast?.any Param.repeated
    auxArities := auxArities
    hasInit := t.kind != .trait_ || !t.ctorParams.isEmpty || t.body.any Member.initialises }

def buildClassInfo (types : List ClassInfo) (t : TemplateDef) : Except String ClassInfo :=
  match resolveParents types t 0 t.parents with
  | .error message => .error message
  | .ok parents =>
      let c := describeParents t parents
      match unrelatedClass types c parents with
      | some a => .error (unrelatedMessage (baseOf types c parents) parents a)
      | none =>
          if t.ctorParams.any fun p => p.hasDefault && p.repeated then
            .error "a default parameter value is not supported on a repeated constructor parameter"
          else (auxAritiesOf t [] t.auxConstructors).map (describeConstructors t c)

/-! ## Compiling a template -/

/-- `kPrimaryCtorKey` and `auxCtorKey`. -/
inductive CtorKey where
  | primary
  | aux (arity : Nat)
  deriving DecidableEq, Repr

def CtorKey.text : CtorKey → String
  | .primary => "<init>"
  | .aux arity => "<init>" ++ toString arity

def takesPrimary (info : ClassInfo) (argc : Nat) : Bool :=
  argc == info.primaryArity || (info.primaryVariadic && info.primaryArity ≤ argc + 1) ||
    (info.primaryMinArity ≤ argc && argc < info.primaryArity)

def ctorKeyFor (info : ClassInfo) (argc : Nat) : Except String CtorKey :=
  if takesPrimary info argc then .ok .primary
  else if argc ∈ info.auxArities then .ok (.aux argc)
  else .error ("wrong number of arguments for the constructor of " ++ info.name ++ ": " ++
    toString argc)

/-- `INVOKE_INIT`: the class it is sent to, and the constructor. -/
abbrev InitCall := String × CtorKey

def compileInitCall (target : ClassInfo) (argc : Nat) : Except String InitCall :=
  if target.kind = .trait_ then .ok (target.key, .primary)
  else (ctorKeyFor target argc).map fun ctor => (target.key, ctor)

/-- A compiled constructor: the initialisers it invokes, and the statements of the
template that it runs after them. -/
structure Constructor where
  calls : List InitCall
  statements : List String
  deriving DecidableEq, Repr

/-- A trait that a class initialises itself: one its superclass does not cover. -/
def traitToInit (types : List ClassInfo) (info : ClassInfo) (super : Option ClassInfo)
    (key : String) : Option ClassInfo :=
  if key = info.key ∨ (super.any fun s => s.linearization.contains key) then none
  else (findTypeByKey types key).filter fun tr =>
    tr.kind == .trait_ && !tr.builtin && tr.hasInit

def traitsToInit (types : List ClassInfo) (info : ClassInfo) (super : Option ClassInfo) :
    List ClassInfo :=
  info.linearization.reverse.filterMap (traitToInit types info super)

def compileTraitInit (t : TemplateDef) (tr : ClassInfo) : Except String InitCall :=
  let ref := t.parents.reverse.find? fun p => p.type == tr.key
  let argc := ref.elim 0 fun p => if p.hasArgs then p.args else 0
  if argc ≠ tr.primaryArity then
    .error (if ref.isSome then "wrong number of arguments for trait " ++ tr.name
      else "parameterized trait " ++ tr.name ++ " is indirectly implemented; it must be " ++
        "extended directly so that arguments can be passed")
  else compileInitCall tr argc

/-- The call of the superclass's constructor, with the arguments of the first parent
if that is the superclass. -/
def compileSuperInit (t : TemplateDef) : Option ClassInfo → Except String (List InitCall)
  | none => .ok []
  | some super =>
      let argc := t.parents.head?.elim 0 fun p => if p.type = super.key then p.args else 0
      (compileInitCall super argc).map ([·])

def compileTraitInits (t : TemplateDef) : List ClassInfo → Except String (List InitCall)
  | [] => .ok []
  | tr :: rest =>
      match compileTraitInit t tr with
      | .error message => .error message
      | .ok call => (compileTraitInits t rest).map (call :: ·)

/-- The initialiser of a trait runs only its own body. -/
def compileCalls (types : List ClassInfo) (t : TemplateDef) (info : ClassInfo) :
    Except String (List InitCall) :=
  if info.kind = .trait_ then .ok []
  else
    let super := superclassOf types info
    match compileSuperInit t super with
    | .error message => .error message
    | .ok first => (compileTraitInits t (traitsToInit types info super)).map (first ++ ·)

def compileConstructor (types : List ClassInfo) (t : TemplateDef) (info : ClassInfo) :
    Except String Constructor :=
  match compileCalls types t info with
  | .error message => .error message
  | .ok calls =>
      if Member.lazyValue false ∈ t.body then .error "a lazy value needs an initialiser"
      else .ok { calls := calls, statements := t.statements }

/-- The statements behind the call are the constructor's own, not the template's. -/
def compileAuxConstructor (info : ClassInfo) (params : Nat) (body : AuxBody) :
    Except String Constructor :=
  match body with
  | .missing => .error "an auxiliary constructor needs a body"
  | .noSelfCall =>
      .error "an auxiliary constructor must begin with a call to another constructor: this(...)"
  | .selfCall args =>
      if args = params then
        .error ("an auxiliary constructor of " ++ info.name ++
          " must call a preceding constructor, not itself")
      else (compileInitCall info args).map fun call => { calls := [call], statements := [] }

def compileAuxConstructors (info : ClassInfo) :
    List (Nat × AuxBody) → Except String (List (Nat × Constructor))
  | [] => .ok []
  | (params, body) :: rest =>
      match compileAuxConstructor info params body with
      | .error message => .error message
      | .ok constructor => (compileAuxConstructors info rest).map ((params, constructor) :: ·)

/-- A class as the runtime gets it: the attributes with its constructors. -/
structure CompiledClass where
  template : TemplateDef
  info : ClassInfo
  primary : Option Constructor
  aux : List (Nat × Constructor)
  deriving DecidableEq, Repr

def compileTemplate (types : List ClassInfo) (t : TemplateDef) (info : ClassInfo) :
    Except String CompiledClass :=
  match (if info.hasInit then (compileConstructor types t info).map some else .ok none) with
  | .error message => .error message
  | .ok primary =>
      (compileAuxConstructors info t.auxConstructors).map fun aux =>
        { template := t, info := info, primary := primary, aux := aux }

/-! ## Units -/

structure Session where
  types : List ClassInfo
  classes : List CompiledClass
  deriving DecidableEq, Repr

def describeAll : List TemplateDef → List ClassInfo → Except String (List ClassInfo)
  | [], types => .ok types
  | t :: rest, types =>
      match buildClassInfo types t with
      | .error message => .error message
      | .ok info => describeAll rest (types ++ [info])

def compileAll (types : List ClassInfo) : List TemplateDef → Except String (List CompiledClass)
  | [] => .ok []
  | t :: rest =>
      match findTypeByKey types t.key with
      | none => .error ("Not found: type " ++ t.name)
      | some info =>
          match compileTemplate types t info with
          | .error message => .error message
          | .ok c => (compileAll types rest).map (c :: ·)

/-- A unit, with its templates in the order of `sortTemplates`. -/
def compileUnit (s : Session) (unit : List TemplateDef) : Except String Session :=
  match describeAll unit s.types with
  | .error message => .error message
  | .ok types =>
      (compileAll types unit).map fun classes =>
        { types := types, classes := s.classes ++ classes }

def runUnits : List (List TemplateDef) → Session → Except String Session
  | [], s => .ok s
  | unit :: rest, s =>
      match compileUnit s unit with
      | .error message => .error message
      | .ok next => runUnits rest next

def start : Session := { types := builtinTypes, classes := [] }

/-! ## Running a constructor -/

def findClass (classes : List CompiledClass) (key : String) : Option CompiledClass :=
  classes.find? fun c => c.info.key == key

def CompiledClass.constructor? (c : CompiledClass) : CtorKey → Option Constructor
  | .primary => c.primary
  | .aux arity => c.aux.lookup arity

/-- The statements that a constructor runs, each with its template, in order. The
number bounds the depth of the calls. -/
def initialise (classes : List CompiledClass) :
    Nat → String → CtorKey → Option (List (String × String))
  | 0, _, _ => none
  | depth + 1, key, ctor =>
      match (findClass classes key).bind (·.constructor? ctor) with
      | none => none
      | some constructor =>
          (constructor.calls.mapM fun call => initialise classes depth call.1 call.2).map
            fun traces => traces.flatten ++ constructor.statements.map (key, ·)

end ProtoScala.Compiler.Templates
