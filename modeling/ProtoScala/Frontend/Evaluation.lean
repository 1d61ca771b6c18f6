import ProtoScala.Frontend.Desugaring
import ProtoScala.Library.Completions

/-!
# What a desugared expression does

The order in which the compiled code of an expression evaluates its parts, and what
becomes of a `return` and of an exception on the way. What the parts mean by themselves
is left to the surrounding program: reading a name, a send, a call, a pattern test and
so on are primitives that may change the state or throw.

A `return` carries whether the rewriting of a `Unit` def keeps its expression: it does
in the hole of an interpolated string, and for an expression that `yieldsUnit`.
-/

namespace ProtoScala.Frontend.Evaluation

open ProtoScala.Frontend.Syntax
open ProtoScala.Library.Completions
open ProtoScala.Library.Completions.Run

set_option autoImplicit false

/-- What stands before an argument list or behind a selection: a value, something that
is resolved by its name, or a member of a value. -/
inductive Reference (V : Type) where
  | value (value : V)
  | named (skeleton : Skeleton)
  | member (receiver : V) (name : String)
  | typed (reference : Reference V) (types : List TypeTree)

/-- An argument as the callee receives it. -/
inductive Argument (V : Type) where
  | plain (value : V)
  | named (name : String) (value : V)
  | splice (value : V)

/-- What a statement list defines before its statements run. -/
inductive Declaration where
  | variable (name : String) (isVar : Bool)
  | lazily (name : String) (rhs : Optional)
  | function (definition : DefDef)
  | importing (path : List String)
  | alias (name : String) (rhs : Option TypeTree)

/-- The program around an expression. `named` tells which selections name a definition,
so that their qualifier is not evaluated, `byName` and `byNameNew` which arguments are
passed as thunks. -/
structure Program (V Env σ : Type) where
  literal : Literal → V
  named : Env → Skeleton → Bool
  read : Env → Skeleton → Primitive σ V V
  send : Env → String → V → Primitive σ V V
  typeTest : Env → String → TypeTree → V → Primitive σ V V
  callee : Env → Skeleton → Primitive σ V (Reference V)
  byName : Env → Skeleton → Nat → Bool
  call : Env → Reference V → List (Argument V) → Primitive σ V V
  byNameNew : Env → TypeTree → Nat → Bool
  construct : Env → TypeTree → List (Argument V) → Primitive σ V V
  test : V → Primitive σ V Bool
  assign : Env → String → V → Primitive σ V V
  closure : Env → Params → Optional → V
  thunk : Env → Node → V
  enter : Env → List Declaration → Primitive σ V Env
  define : Env → String → V → Primitive σ V Env
  tuple : List V → Primitive σ V V
  interpolate : String → List String → List String → List V → Primitive σ V V
  fits : Env → Pattern → V → Primitive σ V (Option Env)
  noMatch : V → Primitive σ V V
  raise : V → Primitive σ V V

/-! ## The evaluator -/

def declarations : Stats → List Declaration
  | .nil => []
  | .expr _ rest => declarations rest
  | .valDef name isVar isLazy rhs rest =>
      (if isLazy then .lazily name rhs else .variable name isVar) :: declarations rest
  | .defDef definition rest => .function definition :: declarations rest
  | .importing path rest => .importing path :: declarations rest
  | .typeDef name rhs rest => .alias name rhs :: declarations rest

def anyNamed : Args → Bool
  | .nil => false
  | .named .. => true
  | .plain _ rest | .splice _ rest => anyNamed rest

def isSingle : Args → Bool
  | .plain _ .nil => true
  | _ => false

def identName : Node → Option String
  | .ident name => some name
  | _ => none

variable {V Env σ : Type} (program : Program V Env σ)

/-- A return carries its value and whether the rewriting keeps its expression. -/
abbrev Code (V σ α : Type) : Type := Run σ (V × Bool) V α

def deref (env : Env) : Reference V → Code V σ V
  | .value value => pure value
  | .named skeleton => lift (program.read env skeleton)
  | .member receiver name => lift (program.send env name receiver)
  | .typed (.member receiver name) [type] =>
      if name = "isInstanceOf" ∨ name = "asInstanceOf" then
        lift (program.typeTest env name type receiver)
      else lift (program.send env name receiver)
  | .typed reference _ => deref env reference

/-- What is evaluated of a callee before its arguments; type arguments are erased. -/
def callee (env : Env) : Reference V → Code V σ (Reference V)
  | .named skeleton => lift (program.callee env skeleton)
  | .typed reference _ => callee env reference
  | reference => pure reference

/-- `a && b` and `a || b` on a value: what `a` must be for `b` to be evaluated. -/
def shortCircuit (args : Args) : Reference V → Option (V × Bool)
  | .member receiver name =>
      if isSingle args then
        if name = "&&" then some (receiver, true)
        else if name = "||" then some (receiver, false)
        else none
      else none
  | _ => none

def soleValue : List (Argument V) → Code V σ V
  | [.plain value] => pure value
  | _ => refuse

/-- A scope without a definition leaves no trace in the code. -/
def enterScope (env : Env) : List Declaration → Code V σ Env
  | [] => pure env
  | declared => lift (program.enter env declared)

def delayed (env : Env) (arg : Node) : Code V σ V :=
  if arg.hasReturn then refuse else pure (program.thunk env arg)

def guarded : Option V → Code V σ Bool
  | none => pure true
  | some value => lift (program.test value)

section Evaluator

variable (fuel : Nat)

mutual

def refer (hole : Bool) : Node → Env → Code V σ (Reference V)
  | .literal value, _ => pure (.value (program.literal value))
  | .interpString interpolator literals args specs, env => do
      let values ← evalAll true args env
      .value <$> lift (program.interpolate interpolator literals specs values)
  | .ident name, _ => pure (.named (.name name))
  | .select qualifier name, env =>
      if program.named env (.member qualifier.skeleton name) then
        pure (.named (.member qualifier.skeleton name))
      else do
        let reference ← refer hole qualifier env
        let receiver ← deref program env reference
        pure (.member receiver name)
  | .apply fn args, env => do
      let reference ← refer hole fn env
      let target ← callee program env reference
      match shortCircuit args target with
      | some (left, wanted) =>
          let answer ← lift (program.test left)
          if answer = wanted then
            let values ← evalArgs hole (fun _ => false) 0 args env
            .value <$> soleValue values
          else pure (.value (program.literal (.bool answer)))
      | none =>
          let byName := if anyNamed args then fun _ => false
            else program.byName env fn.skeleton
          let values ← evalArgs hole byName 0 args env
          .value <$> lift (program.call env target values)
  | .typeApply fn types, env => do
      let reference ← refer hole fn env
      pure (.typed reference types)
  | .assign target value, env =>
      match identName target with
      | some name => do
          let reference ← refer hole value env
          let stored ← deref program env reference
          .value <$> lift (program.assign env name stored)
      | none => refuse
  | .ifElse cond thenp elsep, env => do
      let reference ← refer hole cond env
      let answer ← deref program env reference
      if ← lift (program.test answer) then
        let reference ← refer hole thenp env
        .value <$> deref program env reference
      else
        match ← evalOptional hole elsep env with
        | some value => pure (.value value)
        | none => refuse
  | .whileLoop cond body, env => do
      loop
        (do
          let reference ← refer hole cond env
          let answer ← deref program env reference
          lift (program.test answer))
        (do
          let reference ← refer hole body env
          deref program env reference)
        fuel
      pure (.value (program.literal .unit))
  | .ret value, env => do
      let result ← evalOptional hole value env
      ret (result.getD (program.literal .unit), hole || value.yieldsUnit)
  | .block stats, env =>
      if stats.lazyReturn then refuse
      else do
        let inner ← enterScope program env (declarations stats)
        .value <$> evalStats hole stats inner
  | .lambda params body _ _, env =>
      if body.hasReturn then refuse else pure (.value (program.closure env params body))
  | .tuple elems, env => do
      let values ← evalAll hole elems env
      .value <$> lift (program.tuple values)
  | .newOf type args, env => do
      let values ← evalArgs hole (program.byNameNew env type) 0 args env
      .value <$> lift (program.construct env type values)
  | .matchOn scrutinee cases, env => do
      let reference ← refer hole scrutinee env
      let value ← deref program env reference
      .value <$> evalCases hole cases env value (lift (program.noMatch value))
  | .tryCatch body cases finallyBody, env =>
      ensure
        (attempt
          (do
            let reference ← refer hole body env
            .value <$> deref program env reference)
          fun exception => .value <$> evalCases hole cases env exception (throw exception))
        (evalOptional hole finallyBody env)
  | .throw value, env => do
      let reference ← refer hole value env
      let exception ← deref program env reference
      .value <$> lift (program.raise exception)
  | .super _, _ => refuse

def evalOptional (hole : Bool) : Optional → Env → Code V σ (Option V)
  | .none, _ => pure none
  | .some node, env => do
      let reference ← refer hole node env
      some <$> deref program env reference

def evalAll (hole : Bool) : Nodes → Env → Code V σ (List V)
  | .nil, _ => pure []
  | .cons node rest, env => do
      let reference ← refer hole node env
      let value ← deref program env reference
      (value :: ·) <$> evalAll hole rest env

def evalArgs (hole : Bool) (byName : Nat → Bool) (index : Nat) :
    Args → Env → Code V σ (List (Argument V))
  | .nil, _ => pure []
  | .plain arg rest, env => do
      let value ← if byName index then delayed program env arg
        else do
          let reference ← refer hole arg env
          deref program env reference
      (.plain value :: ·) <$> evalArgs hole byName (index + 1) rest env
  | .named name arg rest, env => do
      let reference ← refer hole arg env
      let value ← deref program env reference
      (.named name value :: ·) <$> evalArgs hole byName (index + 1) rest env
  | .splice arg rest, env => do
      let reference ← refer hole arg env
      let value ← deref program env reference
      (.splice value :: ·) <$> evalArgs hole byName (index + 1) rest env

def evalStats (hole : Bool) : Stats → Env → Code V σ V
  | .nil, _ => pure (program.literal .unit)
  | .expr node rest, env => do
      let reference ← refer hole node env
      let value ← deref program env reference
      if rest.isEmpty then pure value else evalStats hole rest env
  | .valDef name _ isLazy rhs rest, env =>
      if isLazy then evalStats hole rest env
      else do
        match ← evalOptional hole rhs env with
        | some value =>
            let inner ← lift (program.define env name value)
            evalStats hole rest inner
        | none => refuse
  | .defDef _ rest, env => evalStats hole rest env
  | .importing _ rest, env => evalStats hole rest env
  | .typeDef _ _ rest, env => evalStats hole rest env

def evalCases (hole : Bool) : Cases → Env → V → Code V σ V → Code V σ V
  | .nil, _, _, otherwise => otherwise
  | .cons pattern guard body rest, env, value, otherwise => do
      match ← lift (program.fits env pattern value) with
      | some inner =>
          let answer ← evalOptional hole guard inner
          if ← guarded program answer then
            let reference ← refer hole body inner
            deref program inner reference
          else evalCases hole rest env value otherwise
      | none => evalCases hole rest env value otherwise

end

/-- The value of an expression. -/
def eval (hole : Bool) (node : Node) (env : Env) : Code V σ V := do
  let reference ← refer program fuel hole node env
  deref program env reference

end Evaluator

end ProtoScala.Frontend.Evaluation
