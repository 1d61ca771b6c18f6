import Mathlib.Data.List.Basic
import Mathlib.Order.Basic

/-!
# By-name arguments

Whether an argument is passed unevaluated is decided at the call, from masks that are
looked up by the name the callee is written with. The read of the parameter forces
whatever it holds when that is a function of no parameters.

The two agree exactly when the spelling finds the masks of the definition that runs. An
import, an enclosing object, a lifted template, a companion's `apply`, an operator, a named
argument, an `extends` clause or an auxiliary constructor breaks that.
-/

namespace ProtoScala.Compiler.ByNameArguments

set_option autoImplicit false

/-- A dotted name, one entry for each part. -/
abbrev Name := List String

/-- Bit `k` is set when argument `k` of a parameter list is by-name. -/
abbrev Mask := BitVec 32

def kMaxByNameParams : Nat := 32

structure Param where
  name : String
  byName : Bool
  repeated : Bool
  deriving DecidableEq, Repr

section Masks

def byNameMaskFrom (k : Nat) (mask : Mask) : List Param → Except String Mask
  | [] => .ok mask
  | p :: params =>
    if p.byName then
      if kMaxByNameParams ≤ k then
        .error "a by-name parameter must be one of the first 32 parameters"
      else if p.repeated then .error "a repeated parameter cannot be by-name"
      else byNameMaskFrom (k + 1) (mask ||| BitVec.twoPow 32 k) params
    else byNameMaskFrom (k + 1) mask params

def byNameMaskOfParams (params : List Param) : Except String Mask :=
  byNameMaskFrom 0 0 params

def masksOfLists : List (List Param) → Except String (List Mask)
  | [] => .ok []
  | params :: lists =>
    match byNameMaskOfParams params, masksOfLists lists with
    | .ok mask, .ok masks => .ok (mask :: masks)
    | .error e, _ => .error e
    | _, .error e => .error e

/-- Masks of zero at the end are popped; a def of zero masks alone has none. -/
def popZeros : List Mask → List Mask
  | [] => []
  | mask :: masks =>
    match popZeros masks with
    | [] => if mask = 0 then [] else [mask]
    | rest => mask :: rest

/-- The parameter lists of a def, a method or a constructor. -/
def byNameMasksOfDef (lists : List (List Param)) : Except String (List Mask) :=
  (masksOfLists lists).map popZeros

/-- Argument `k` of list `list`. -/
def bit (masks : List Mask) (list k : Nat) : Bool := (masks.getD list 0).getLsbD k

theorem mask_from_bit {params : List Param} {mask result : Mask} {k : Nat}
    (hok : byNameMaskFrom k mask params = .ok result) {i : Nat} {p : Param}
    (hparam : params[i]? = some p) (hbyName : p.byName = true) :
    result.getLsbD (k + i) = true := by
  have hkept : ∀ (params : List Param) (mask : Mask) (k : Nat),
      byNameMaskFrom k mask params = .ok result → ∀ i, mask.getLsbD i = true →
        result.getLsbD i = true := by
    intro params
    induction params with
    | nil =>
        intro mask k hok i hi
        simp only [byNameMaskFrom, Except.ok.injEq] at hok
        exact hok ▸ hi
    | cons p params ih =>
        intro mask k hok i hi
        unfold byNameMaskFrom at hok
        split at hok
        · split at hok
          · cases hok
          · split at hok
            · cases hok
            · exact ih _ _ hok i (by simp [hi])
        · exact ih _ _ hok i hi
  induction params generalizing mask k i with
  | nil => simp at hparam
  | cons q params ih =>
      unfold byNameMaskFrom at hok
      cases i with
      | zero =>
          simp only [List.getElem?_cons_zero, Option.some.injEq] at hparam
          subst hparam
          rw [if_pos hbyName] at hok
          split at hok
          · cases hok
          · rename_i hfew
            split at hok
            · cases hok
            · have hlt : k < 32 := by simpa [kMaxByNameParams] using hfew
              exact hkept _ _ _ hok _ (by simp [hlt])
      | succ i =>
          simp only [List.getElem?_cons_succ] at hparam
          have hindex : k + (i + 1) = k + 1 + i := by omega
          rw [hindex]
          split at hok
          · split at hok
            · cases hok
            · split at hok
              · cases hok
              · exact ih hok hparam
          · exact ih hok hparam

theorem masks_of_lists_get {lists : List (List Param)} {masks : List Mask}
    (hok : masksOfLists lists = .ok masks) {list : Nat} {params : List Param}
    (hlist : lists[list]? = some params) :
    byNameMaskOfParams params = .ok (masks.getD list 0) := by
  induction lists generalizing masks list with
  | nil => simp at hlist
  | cons first lists ih =>
      unfold masksOfLists at hok
      split at hok
      · rename_i mask rest hmask hrest
        simp only [Except.ok.injEq] at hok
        subst hok
        cases list with
        | zero =>
            simp only [List.getElem?_cons_zero, Option.some.injEq] at hlist
            subst hlist
            simpa using hmask
        | succ list =>
            simp only [List.getElem?_cons_succ] at hlist
            simpa using ih hrest hlist
      · cases hok
      · cases hok

theorem pop_zeros_get (masks : List Mask) (list : Nat) :
    (popZeros masks).getD list 0 = masks.getD list 0 := by
  induction masks generalizing list with
  | nil => rfl
  | cons mask masks ih =>
      unfold popZeros
      split
      · rename_i hempty
        have hzero : ∀ i, masks.getD i 0 = 0 := by
          intro i
          rw [← ih, hempty]
          rfl
        split
        · rename_i hmask
          cases list with
          | zero => simp [hmask]
          | succ list => simpa using (hzero list).symm
        · cases list with
          | zero => rfl
          | succ list => simpa using (hzero list).symm
      · cases list with
        | zero => rfl
        | succ list => simpa using ih list

/-- The masks of a def say which of its parameters are by-name. -/
theorem masks_of_def_bit {lists : List (List Param)} {masks : List Mask}
    (hok : byNameMasksOfDef lists = .ok masks) {list i : Nat} {params : List Param} {p : Param}
    (hlist : lists[list]? = some params) (hparam : params[i]? = some p)
    (hbyName : p.byName = true) : bit masks list i = true := by
  unfold byNameMasksOfDef at hok
  cases hall : masksOfLists lists with
  | error e =>
      rw [hall] at hok
      cases hok
  | ok all =>
      rw [hall] at hok
      simp only [Except.map, Except.ok.injEq] at hok
      subst hok
      have hmask := masks_of_lists_get hall hlist
      have hbit := mask_from_bit hmask hparam hbyName
      rw [Nat.zero_add] at hbit
      unfold bit
      rw [pop_zeros_get]
      exact hbit

end Masks

/-- A callee. The arguments of an application inside it play no part in the outer call. -/
inductive Node where
  | ident (name : Name)
  | select (qualifier : Node) (name : String)
  | apply (fn : Node)
  | typeApply (fn : Node)
  | super (qualifier : String)
  | other
  deriving DecidableEq, Repr

inductive Arg (E : Type) where
  | plain (e : E)
  | named (name : String) (e : E)
  | splice (e : E)

def Arg.isNamed {E : Type} : Arg E → Bool
  | .named _ _ => true
  | _ => false

def Arg.isSplice {E : Type} : Arg E → Bool
  | .splice _ => true
  | _ => false

inductive BindingKind where
  | val | var | lazyVal | def_ | paramlessDef | builtin | param | object | byNameParam
  deriving DecidableEq, Repr

structure LocalInfo where
  kind : BindingKind
  byNameMasks : List Mask

structure MemberInfo where
  key : String
  byNameMasks : List Mask

structure Overload where
  arity : Nat
  key : String

/-- An overloaded def takes no by-name parameter, and an object has no masks of its own. -/
structure GlobalBinding where
  kind : BindingKind
  key : String
  byNameMasks : List Mask
  overloads : List Overload
  overloadsByValue : 2 ≤ overloads.length → byNameMasks = []
  objectsByValue : kind = .object → byNameMasks = []

inductive ClassKind where
  | «class» | trait | object
  deriving DecidableEq, Repr

/-- A parameter of a case class is never by-name. -/
structure ClassInfo where
  name : String
  kind : ClassKind
  isCase : Bool
  isAbstract : Bool
  primaryArity : Nat
  primaryMinArity : Nat
  primaryVariadic : Bool
  primaryByNameMasks : List Mask
  auxArities : List Nat
  members : List (String × MemberInfo)
  companionTermKey : String
  companionHasApply : Bool
  caseByValue : isCase = true → primaryByNameMasks = []

structure ImportedTerm where
  moduleKey : Name
  memberName : String

/-- What the compiler knows at a call. The innermost function and, in it, the innermost
block come first. `enclosing` is the template being compiled. -/
structure Scope where
  functions : List (List (List (Name × LocalInfo)))
  enclosing : Option (Name × List (String × MemberInfo))
  bindings : Name → Option GlobalBinding
  types : Name → Option ClassInfo
  importedTerms : Name → Option ImportedTerm

section Resolution

variable (scope : Scope)

def findInFunction (scopes : List (List (Name × LocalInfo))) (name : Name) :
    Option LocalInfo :=
  scopes.findSome? (·.lookup name)

def captureInto (name : Name) : Option LocalInfo :=
  scope.functions.findSome? (findInFunction · name)

/-- A member is named by a single word. -/
def memberOf (name : Name) : Option MemberInfo :=
  match scope.enclosing, name with
  | some (_, members), [word] => members.lookup word
  | _, _ => none

def localOrMemberShadows (name : Name) : Bool :=
  (captureInto scope name).isSome || (memberOf scope name).isSome

/-- The prefixes of a dotted name, the name itself first. -/
def enclosingNames (path : Name) : List Name := path.inits.reverse

/-- The empty prefix is the top level. -/
def scopedNames (name : Name) : List Name :=
  match scope.enclosing with
  | none => [name]
  | some (path, _) => (enclosingNames path).map (· ++ name)

inductive Resolution where
  | ofLocal (info : LocalInfo)
  | ofMember (info : MemberInfo)
  | ofGlobal (path : Name) (binding : GlobalBinding)

def resolveGlobal (name : Name) : Option (Name × GlobalBinding) :=
  (scopedNames scope name).findSome? fun path => (scope.bindings path).map (path, ·)

def resolve (name : Name) : Except String Resolution :=
  match captureInto scope name with
  | some info => .ok (.ofLocal info)
  | none =>
    match memberOf scope name with
    | some info => .ok (.ofMember info)
    | none =>
      match resolveGlobal scope name with
      | some (path, binding) => .ok (.ofGlobal path binding)
      | none => .error ("Not found: " ++ ".".intercalate name)

/-- The dotted name a selection spells, when its head is an identifier. -/
def spelledPath : Node → Option (Name × Name)
  | .ident name => some (name, name)
  | .select qualifier word =>
    (spelledPath qualifier).map fun (head, path) => (head, path ++ [word])
  | _ => none

def liftedGlobalPath : Node → Option Name
  | .select qualifier word =>
    match spelledPath (.select qualifier word) with
    | some (head, path) =>
      if localOrMemberShadows scope head then none
      else if (scope.bindings path).isSome then some path
      else none
    | none => none
  | _ => none

def importedTerm (name : Name) : Option ImportedTerm :=
  if localOrMemberShadows scope name then none else scope.importedTerms name

def importedTermSelect (t : ImportedTerm) : Node := .select (.ident t.moduleKey) t.memberName

def stripTypes : Node → Node
  | .typeApply fn => stripTypes fn
  | fn => fn

/-- The callee that is compiled: a lifted template by its dotted name, an imported member
as the selection it stands for. -/
def rewrittenCallee (fn : Node) : Node :=
  let fn := match liftedGlobalPath scope (stripTypes fn) with
    | some path => Node.ident path
    | none => stripTypes fn
  match fn with
  | .ident name =>
    match importedTerm scope name with
    | some t => importedTermSelect t
    | none => .ident name
  | _ => fn

end Resolution

section Lookup

variable (scope : Scope)

def typeOfObject (path : Name) : Name := path ++ ["type"]

def byNameMasksOfMember (name : Name) : List Mask :=
  ((memberOf scope name).map (·.byNameMasks)).getD []

def byNameMasksOfObjectMember (object : Name) (member : String) : List Mask :=
  match scope.types (typeOfObject object) with
  | some cls => ((cls.members.lookup member).map (·.byNameMasks)).getD []
  | none => []

/-- `C(args)` on a class name is its primary constructor, `O(args)` is `O.apply(args)`. -/
def byNameMasksOfGlobal (name : Name) : List Mask :=
  match scope.bindings name with
  | none => []
  | some g =>
    if g.byNameMasks ≠ [] then g.byNameMasks
    else if g.kind = .object then
      let primary := ((scope.types name).map (·.primaryByNameMasks)).getD []
      if primary ≠ [] then primary else byNameMasksOfObjectMember scope name "apply"
    else []

def byNameMasksOfSelect (qualifier : Name) (member : String) : List Mask :=
  match scope.bindings qualifier with
  | none => []
  | some g =>
    if g.kind = .builtin then if member = "apply" then g.byNameMasks else []
    else if g.kind = .object then byNameMasksOfObjectMember scope qualifier member
    else []

/-- The head is what is left of the callee when every application is peeled off. -/
def byNameMasksOfCalleeHead : Node → List Mask
  | .ident name =>
    match captureInto scope name with
    | some info => info.byNameMasks
    | none =>
      let masks := byNameMasksOfMember scope name
      if masks ≠ [] then masks else byNameMasksOfGlobal scope name
  | .select (.ident qualifier) member =>
    if qualifier = ["this"] then byNameMasksOfMember scope [member]
    else if localOrMemberShadows scope qualifier then []
    else byNameMasksOfSelect scope qualifier member
  | _ => []

def peel : Node → Node
  | .apply fn => peel fn
  | .typeApply fn => peel fn
  | fn => fn

/-- The parameter list a call with this callee fills. -/
def listOf : Node → Nat
  | .apply fn => listOf fn + 1
  | .typeApply fn => listOf fn
  | _ => 0

def byNameOfCallee (fn : Node) (k : Nat) : Bool :=
  bit (byNameMasksOfCalleeHead scope (peel fn)) (listOf fn) k

end Lookup

/-- A by-name argument is compiled as a function of no parameters. -/
inductive Passing where
  | byName
  | eager
  deriving DecidableEq, Repr

section Compile

variable {E : Type}

/-- One argument after the other; the first error is reported. -/
def passAll (pass : Nat → Arg E → Except String Passing) :
    Nat → List (Arg E) → Except String (List Passing)
  | _, [] => .ok []
  | k, arg :: args =>
    match pass k arg with
    | .error e => .error e
    | .ok passing => (passAll pass (k + 1) args).map (passing :: ·)

def passingOf (byName : Bool) : Passing := if byName then .byName else .eager

def passSend (byName : Nat → Bool) (k : Nat) : Arg E → Except String Passing
  | .splice _ => .error "splices are only supported in function calls"
  | _ => .ok (passingOf (byName k))

def passCall (byName : Nat → Bool) (count k : Nat) : Arg E → Except String Passing
  | .splice _ =>
    if k + 1 ≠ count then .error "a splice must be the last argument"
    else if byName k then .error "a splice cannot supply a by-name parameter"
    else .ok .eager
  | _ => .ok (passingOf (byName k))

def passSuper (_ : Nat) : Arg E → Except String Passing
  | .plain _ => .ok .eager
  | _ => .error "super calls take plain arguments"

def passInit (_ : Nat) : Arg E → Except String Passing
  | .plain _ => .ok .eager
  | _ => .error "constructor arguments must be plain expressions here"

/-- Positional arguments first, no name twice, no splice. -/
def checkNamedArgs (noSplice : String) : List String → List (Arg E) → Except String Unit
  | _, [] => .ok ()
  | keywords, .named name _ :: args =>
    if name ∈ keywords then .error ("parameter " ++ name ++ " is specified twice")
    else checkNamedArgs noSplice (keywords ++ [name]) args
  | keywords, .plain _ :: args =>
    if keywords ≠ [] then .error "positional after named argument"
    else checkNamedArgs noSplice keywords args
  | keywords, .splice _ :: _ =>
    if keywords ≠ [] then .error "positional after named argument" else .error noSplice

def splitNamedArgs (args : List (Arg E)) : Except String Unit :=
  checkNamedArgs "a splice cannot be mixed with named arguments" [] args

def compileNamedSend (args : List (Arg E)) : Except String (List Passing) :=
  (checkNamedArgs "splices are only supported in function calls" [] args).map
    fun _ => args.map fun _ => .eager

def compileNamedCall (args : List (Arg E)) : Except String (List Passing) :=
  (splitNamedArgs args).map fun _ => args.map fun _ => .eager

inductive Constructor where
  | primary
  | auxiliary
  deriving DecidableEq, Repr

def ctorKeyFor (info : ClassInfo) (argc : Nat) : Except String Constructor :=
  if argc = info.primaryArity ∨ (info.primaryVariadic = true ∧ info.primaryArity ≤ argc + 1) ∨
      (info.primaryMinArity ≤ argc ∧ argc < info.primaryArity) then .ok .primary
  else if argc ∈ info.auxArities then .ok .auxiliary
  else .error ("wrong number of arguments for the constructor of " ++ info.name ++ ": " ++
    toString argc)

/-- Bit `k` of the primary constructor's only mask. -/
def primaryByName (info : ClassInfo) (k : Nat) : Bool := bit info.primaryByNameMasks 0 k

def passNewNamed (info : ClassInfo) (k : Nat) : Arg E → Except String Passing
  | .named _ _ => .ok .eager
  | _ => .ok (passingOf (primaryByName info k))

def passNew (info : ClassInfo) (count k : Nat) : Arg E → Except String Passing
  | .splice _ =>
    if k + 1 ≠ count then .error "a splice must be the last argument"
    else if info.primaryVariadic = false then
      .error ("the constructor of " ++ info.name ++ " takes no repeated parameter")
    else .ok .eager
  | _ => .ok (passingOf (primaryByName info k))

def compileNewOf (info : ClassInfo) (args : List (Arg E)) : Except String (List Passing) :=
  if info.kind = .trait then .error (info.name ++ " is a trait; it cannot be instantiated")
  else if info.kind = .object then .error ("Not found: type " ++ info.name)
  else if info.isAbstract then .error (info.name ++ " is abstract; it cannot be instantiated")
  else if args.any Arg.isNamed then
    match splitNamedArgs args with
    | .error e => .error e
    | .ok _ =>
      match passAll (passNewNamed info) 0 args, ctorKeyFor info args.length with
      | .ok code, .ok _ => .ok code
      | .error e, _ => .error e
      | _, .error e => .error e
  else
    match passAll (passNew info args.length) 0 args with
    | .error e => .error e
    | .ok code =>
      if (args.getLast?.map Arg.isSplice).getD false then
        if args.length ≠ info.primaryArity then
          .error ("wrong number of arguments for the constructor of " ++ info.name ++ ": " ++
            toString (args.length - 1) ++ " before the splice, expected " ++
            toString (info.primaryArity - 1))
        else .ok code
      else (ctorKeyFor info args.length).map fun _ => code

/-- The superclass constructor of an `extends` clause, a trait's initialiser, and the
constructor an auxiliary one begins with. -/
def compileInitCall (target : ClassInfo) (args : List (Arg E)) :
    Except String (List Passing) :=
  match passAll passInit 0 args with
  | .error e => .error e
  | .ok code =>
    if target.kind = .trait then .ok code
    else (ctorKeyFor target args.length).map fun _ => code

def isFastBinary (op : String) : Bool :=
  op ∈ ["+", "-", "*", "<", "<=", ">", ">=", "==", "!="]

/-- `C(args)` where `C` is a case class whose companion's `apply` is the synthesised one. -/
def synthesisedNew (scope : Scope) (name : Name) (g : GlobalBinding) : Option ClassInfo :=
  if g.kind = .object then
    match scope.types name with
    | some cls =>
      if cls.isCase ∧ cls.kind = .class ∧ cls.companionTermKey = g.key ∧
          cls.companionHasApply = false then some cls
      else none
    | none => none
  else none

def overloadArities (scope : Scope) (name : Name) : List Nat :=
  match scope.bindings name with
  | some g => if g.overloads.length < 2 then [] else g.overloads.map (·.arity)
  | none => []

def noOverload (name : Name) (argc : Nat) (arities : List Nat) : String :=
  "no overload of " ++ ".".intercalate name ++ " takes " ++ toString argc ++
    " arguments; the alternatives take " ++ ", ".intercalate (arities.map toString)

def compileArgsAndCall (byName : Nat → Bool) (args : List (Arg E)) :
    Except String (List Passing) :=
  passAll (passCall byName args.length) 0 args

/-- A call on an identifier that is neither imported nor lifted. -/
def compileIdentCall (scope : Scope) (byName : Nat → Bool) (name : Name)
    (args : List (Arg E)) : Except String (List Passing) :=
  match resolve scope name with
  | .error e => .error e
  | .ok (.ofMember _) => passAll (passSend byName) 0 args
  | .ok (.ofLocal _) => compileArgsAndCall byName args
  | .ok (.ofGlobal _ g) =>
    match synthesisedNew scope name g with
    | some cls => compileNewOf cls args
    | none =>
      if overloadArities scope name ≠ [] ∧ args.length ∉ overloadArities scope name then
        .error (noOverload name args.length (overloadArities scope name))
      else compileArgsAndCall byName args

def compileNamedIdentCall (scope : Scope) (name : Name) (args : List (Arg E)) :
    Except String (List Passing) :=
  match resolve scope name with
  | .error e => .error e
  | .ok (.ofGlobal _ g) =>
    match synthesisedNew scope name g with
    | some cls => compileNewOf cls args
    | none => compileNamedCall args
  | .ok _ => compileNamedCall args

/-- A single argument of `&&`, `||` or of an operator with an opcode of its own. -/
def isOperatorCall (member : String) (args : List (Arg E)) : Bool :=
  match args with
  | [arg] => member == "&&" || member == "||" || (!arg.isSplice && isFastBinary member)
  | _ => false

def isSuper : Node → Bool
  | .super _ => true
  | _ => false

/-- How each argument of the application `fn(args)` is passed, outside the loop of a
tail-recursive method. -/
def compileApply (scope : Scope) (fn : Node) (args : List (Arg E)) :
    Except String (List Passing) :=
  let byName := byNameOfCallee scope fn
  if args.any Arg.isNamed then
    match rewrittenCallee scope fn with
    | .select _ _ => compileNamedSend args
    | .ident name => compileNamedIdentCall scope name args
    | _ => compileNamedCall args
  else
    match rewrittenCallee scope fn with
    | .select qualifier member =>
      if isSuper qualifier then passAll passSuper 0 args
      else if isOperatorCall member args then .ok (args.map fun _ => .eager)
      else passAll (passSend byName) 0 args
    | .ident name => compileIdentCall scope byName name args
    | _ => compileArgsAndCall byName args

/-- The calls whose arguments may be by-name. `newOf` is `new C(args)`, `init` a
constructor called on an object under construction. -/
inductive Call (E : Type) where
  | apply (fn : Node) (args : List (Arg E))
  | newOf (info : ClassInfo) (args : List (Arg E))
  | init (target : ClassInfo) (args : List (Arg E))

def Call.args : Call E → List (Arg E)
  | .apply _ args => args
  | .newOf _ args => args
  | .init _ args => args

def compileCall (scope : Scope) : Call E → Except String (List Passing)
  | .apply fn args => compileApply scope fn args
  | .newOf info args => compileNewOf info args
  | .init target args => compileInitCall target args

end Compile

section Naming

variable (scope : Scope)

/-- By-name parameters of what runs when the global at `path` is called. -/
def masksOfTerm (path : Name) (g : GlobalBinding) : List Mask :=
  if g.kind = .object then
    match scope.types path with
    | some cls =>
      if cls.companionHasApply then byNameMasksOfObjectMember scope path "apply"
      else cls.primaryByNameMasks
    | none => byNameMasksOfObjectMember scope path "apply"
  else g.byNameMasks

def masksOfMember (path : Name) (g : GlobalBinding) (member : String) : List Mask :=
  if g.kind = .builtin then if member = "apply" then g.byNameMasks else []
  else if g.kind = .object then byNameMasksOfObjectMember scope path member
  else []

/-- The global a qualifier stands for. -/
def globalNamed : Node → Option (Name × GlobalBinding)
  | .ident name =>
    if localOrMemberShadows scope name || (scope.importedTerms name).isSome then none
    else resolveGlobal scope name
  | qualifier =>
    (liftedGlobalPath scope qualifier).bind fun path => (scope.bindings path).map (path, ·)

/-- By-name parameters of the definition a callee names; none when it names no definition. -/
def declaredMasks : Node → List Mask
  | .ident name =>
    match captureInto scope name with
    | some info => info.byNameMasks
    | none =>
      match memberOf scope name with
      | some info => info.byNameMasks
      | none =>
        match scope.importedTerms name with
        | some t => byNameMasksOfObjectMember scope t.moduleKey t.memberName
        | none =>
          match resolveGlobal scope name with
          | some (path, g) => masksOfTerm scope path g
          | none => []
  | .select qualifier member =>
    if qualifier = .ident ["this"] then byNameMasksOfMember scope [member]
    else
      match globalNamed scope (.select qualifier member), globalNamed scope qualifier with
      | some (path, g), _ => masksOfTerm scope path g
      | none, some (path, g) => masksOfMember scope path g member
      | none, none => []
  | _ => []

/-- `own` when the name a callee is written with is enough to find the definition it names,
`other` with the by-name parameters of what the bare name finds instead. -/
inductive Spelling where
  | own
  | other (masks : List Mask)
  deriving DecidableEq, Repr

/-- A call of an object runs its `apply`, a call of a class its primary constructor when no
companion has an `apply`. -/
def plainApply (name : Name) (g : GlobalBinding) : Bool :=
  match g.kind, scope.types name with
  | .object, some cls => cls.companionHasApply == cls.primaryByNameMasks.isEmpty
  | _, _ => true

def spelling : Node → Spelling
  | .ident name =>
    match captureInto scope name with
    | some _ => .own
    | none =>
      match memberOf scope name with
      | some info =>
        if info.byNameMasks ≠ [] then .own else .other (byNameMasksOfGlobal scope name)
      | none =>
        match scope.importedTerms name with
        | some _ => .other (byNameMasksOfGlobal scope name)
        | none =>
          match resolveGlobal scope name with
          | some (path, g) =>
            if path = name ∧ plainApply scope name g = true then .own
            else .other (byNameMasksOfGlobal scope name)
          | none => .other (byNameMasksOfGlobal scope name)
  | .select (.ident qualifier) member =>
    if qualifier = ["this"] then .own
    else if (globalNamed scope (.select (.ident qualifier) member)).isSome then
      .other (byNameMasksOfSelect scope qualifier member)
    else
      match globalNamed scope (.ident qualifier) with
      | some (path, _) =>
        if path = qualifier then .own else .other (byNameMasksOfSelect scope qualifier member)
      | none =>
        if localOrMemberShadows scope qualifier then .own
        else .other (byNameMasksOfSelect scope qualifier member)
  | _ => .other []

theorem resolve_global_binding {name path : Name} {g : GlobalBinding}
    (hfound : resolveGlobal scope name = some (path, g)) : scope.bindings path = some g := by
  unfold resolveGlobal at hfound
  obtain ⟨candidate, -, hcandidate⟩ := List.exists_of_findSome?_eq_some hfound
  cases hbinding : scope.bindings candidate with
  | none => simp [hbinding] at hcandidate
  | some found =>
      simp only [hbinding, Option.map_some, Option.some.injEq, Prod.mk.injEq] at hcandidate
      obtain ⟨rfl, rfl⟩ := hcandidate
      exact hbinding

/-- A term called by its own name is found with its own masks. -/
theorem global_masks_own {name : Name} {g : GlobalBinding} (hbinding : scope.bindings name = some g)
    (hplain : plainApply scope name g = true) :
    byNameMasksOfGlobal scope name = masksOfTerm scope name g := by
  unfold byNameMasksOfGlobal masksOfTerm
  rw [hbinding]
  by_cases hobject : g.kind = .object
  · have hnone : g.byNameMasks = [] := g.objectsByValue hobject
    cases htype : scope.types name with
    | none => simp [hnone, hobject]
    | some cls =>
        simp only [plainApply, hobject, htype, beq_iff_eq] at hplain
        cases happly : cls.companionHasApply with
        | false =>
            have hprimary : cls.primaryByNameMasks ≠ [] := by
              intro hempty
              simp [happly, hempty] at hplain
            simp [hnone, hobject, hprimary, happly]
        | true =>
            have hprimary : cls.primaryByNameMasks = [] := by
              simpa [happly] using hplain.symm
            simp [hnone, hobject, hprimary, happly]
  · by_cases hmasks : g.byNameMasks = []
    · simp [hobject, hmasks]
    · simp [hobject, hmasks]

/-- What a spelling finds, whatever it names. -/
def Spelling.masks (named : List Mask) : Spelling → List Mask
  | .own => named
  | .other masks => masks

theorem ident_masks (name : Name) :
    byNameMasksOfCalleeHead scope (.ident name) =
      (spelling scope (.ident name)).masks (declaredMasks scope (.ident name)) := by
  simp only [byNameMasksOfCalleeHead, spelling, declaredMasks]
  cases hlocal : captureInto scope name with
  | some info => simp [Spelling.masks]
  | none =>
      cases hmember : memberOf scope name with
      | some info =>
          have hown : byNameMasksOfMember scope name = info.byNameMasks := by
            simp [byNameMasksOfMember, hmember]
          by_cases hmasks : info.byNameMasks = []
          · simp [Spelling.masks, hown, hmasks]
          · simp [Spelling.masks, hown, hmasks]
      | none =>
          have hown : byNameMasksOfMember scope name = [] := by
            simp [byNameMasksOfMember, hmember]
          simp only [hown, ne_eq, not_true_eq_false, ite_false]
          cases himported : scope.importedTerms name with
          | some t => simp [Spelling.masks]
          | none =>
              cases hglobal : resolveGlobal scope name with
              | none => simp [Spelling.masks]
              | some found =>
                  obtain ⟨path, g⟩ := found
                  by_cases hown : path = name ∧ plainApply scope name g = true
                  · obtain ⟨rfl, hplain⟩ := hown
                    have hbinding := resolve_global_binding scope hglobal
                    have hmasks := global_masks_own scope hbinding hplain
                    simp [Spelling.masks, hplain, hmasks]
                  · simp [Spelling.masks, hown]

theorem select_masks (qualifier : Name) (member : String) :
    byNameMasksOfCalleeHead scope (.select (.ident qualifier) member) =
      (spelling scope (.select (.ident qualifier) member)).masks
        (declaredMasks scope (.select (.ident qualifier) member)) := by
  simp only [byNameMasksOfCalleeHead, spelling, declaredMasks]
  by_cases hthis : qualifier = ["this"]
  · simp [hthis, Spelling.masks]
  · have hshadowed : localOrMemberShadows scope qualifier = true →
        globalNamed scope (.select (.ident qualifier) member) = none ∧
          globalNamed scope (.ident qualifier) = none := by
      intro hshadows
      simp [globalNamed, liftedGlobalPath, spelledPath, hshadows]
    by_cases hshadows : localOrMemberShadows scope qualifier = true
    · obtain ⟨hwhole, hqualifier⟩ := hshadowed hshadows
      simp [hthis, hshadows, hwhole, hqualifier, Spelling.masks]
    · cases hwhole : globalNamed scope (.select (.ident qualifier) member) with
      | some found => simp [hthis, hshadows, Spelling.masks]
      | none =>
          cases hqualifier : globalNamed scope (.ident qualifier) with
          | none => simp [hthis, hshadows, Spelling.masks]
          | some found =>
              obtain ⟨path, g⟩ := found
              by_cases hpath : path = qualifier
              · subst hpath
                have hbinding : scope.bindings path = some g := by
                  simp only [globalNamed, Option.ite_none_left_eq_some] at hqualifier
                  exact resolve_global_binding scope hqualifier.2
                simp [hthis, hshadows, Spelling.masks, byNameMasksOfSelect, masksOfMember,
                  hbinding]
              · simp [hthis, hshadows, hpath, Spelling.masks]

/-- The masks found at a call are those of the definition it names, or those of `other`. -/
theorem callee_masks (head : Node) :
    byNameMasksOfCalleeHead scope head =
      (spelling scope head).masks (declaredMasks scope head) := by
  cases head with
  | ident name => exact ident_masks scope name
  | select qualifier member =>
      cases qualifier with
      | ident name => exact select_masks scope name member
      | _ => rfl
  | _ => rfl

end Naming

end ProtoScala.Compiler.ByNameArguments
