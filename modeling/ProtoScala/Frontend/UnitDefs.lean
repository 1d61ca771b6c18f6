import ProtoScala.Frontend.Evaluation

/-!
# Defs declared to yield `()`

The rewriting of a `Unit` def changes what its returns return and nothing else: the
rewritten body runs as the body did, except that a `return` whose expression is not
kept now returns `()`. Two kinds of `return` keep their expression: those in the hole of
an interpolated string, and those whose expression `yieldsUnit`.
-/

namespace ProtoScala.Frontend.UnitDefs

open ProtoScala.Frontend.Syntax
open ProtoScala.Frontend.Evaluation
open ProtoScala.Library.Completions
open ProtoScala.Library.Completions.Run

set_option autoImplicit false

/-! ## What the rewriting leaves alone -/

section

attribute [local simp] Node.discardReturnValues Optional.discardReturnValues
  Nodes.discardReturnValues Args.discardReturnValues Stats.discardReturnValues
  Cases.discardReturnValues

@[simp] theorem discard_present (child : Optional) :
    child.discardReturnValues.present = child.present := by
  cases child <;> simp [Optional.present]

@[simp] theorem discard_isEmpty (stats : Stats) :
    stats.discardReturnValues.isEmpty = stats.isEmpty := by
  cases stats <;> simp [Stats.isEmpty]

@[simp] theorem discard_isSingle (args : Args) :
    isSingle args.discardReturnValues = isSingle args := by
  cases args with
  | plain arg rest => cases rest <;> simp [isSingle]
  | _ => simp [isSingle]

@[simp] theorem discard_named : (args : Args) →
    anyNamed args.discardReturnValues = anyNamed args
  | .nil => by simp [anyNamed]
  | .plain _ rest => by simp [anyNamed, discard_named rest]
  | .named .. => by simp [anyNamed]
  | .splice _ rest => by simp [anyNamed, discard_named rest]

@[simp] theorem discard_identName (node : Node) :
    identName node.discardReturnValues = identName node := by
  cases node <;> simp [identName]

@[simp] theorem discard_skeleton : (node : Node) →
    node.discardReturnValues.skeleton = node.skeleton
  | .select qualifier _ => by simp [Node.skeleton, discard_skeleton qualifier]
  | .apply fn _ => by simp [Node.skeleton, discard_skeleton fn]
  | .typeApply fn _ => by simp [Node.skeleton, discard_skeleton fn]
  | .literal _ | .interpString .. | .ident _ | .assign .. | .ifElse .. | .whileLoop ..
  | .ret _ | .block _ | .lambda .. | .tuple _ | .newOf .. | .matchOn .. | .tryCatch ..
  | .throw _ | .super _ => by simp [Node.skeleton]

mutual

@[simp] theorem discard_yieldsUnit : (node : Node) →
    node.discardReturnValues.yieldsUnit = node.yieldsUnit
  | .ifElse _ thenp elsep => by
      simp [Node.yieldsUnit, discard_yieldsUnit thenp, discard_yieldsUnit_optional elsep]
  | .block stats => by
      simp [Node.yieldsUnit, discard_yieldsUnit_stats stats]
  | .literal _ | .interpString .. | .ident _ | .select .. | .apply .. | .typeApply ..
  | .assign .. | .whileLoop .. | .ret _ | .lambda .. | .tuple _ | .newOf .. | .matchOn ..
  | .tryCatch .. | .throw _ | .super _ => by
      simp [Node.yieldsUnit]

@[simp] theorem discard_yieldsUnit_optional : (child : Optional) →
    child.discardReturnValues.yieldsUnit = child.yieldsUnit
  | .none => rfl
  | .some node => by
      simp [Optional.yieldsUnit, discard_yieldsUnit node]

@[simp] theorem discard_yieldsUnit_stats : (stats : Stats) →
    stats.discardReturnValues.yieldsUnit = stats.yieldsUnit
  | .nil => rfl
  | .expr node rest => by
      simp [Stats.yieldsUnit, discard_yieldsUnit node, discard_yieldsUnit_stats rest]
  | .valDef _ _ _ _ rest | .defDef _ rest | .importing _ rest | .typeDef _ _ rest => by
      simp [Stats.yieldsUnit, discard_yieldsUnit_stats rest]

end

theorem discard_yields (e : Node) : (discardValue e).yieldsUnit = true := by
  unfold discardValue
  split
  · assumption
  · simp [Node.yieldsUnit, Stats.yieldsUnit, Stats.isEmpty]

mutual

@[simp] theorem discard_hasReturn : (node : Node) →
    node.discardReturnValues.hasReturn = node.hasReturn
  | .ret _ => by simp [Node.hasReturn]
  | .select qualifier _ => by
      simp [Node.hasReturn, discard_hasReturn qualifier]
  | .apply fn args => by
      simp [Node.hasReturn, discard_hasReturn fn, discard_hasReturn_args args]
  | .typeApply fn _ => by
      simp [Node.hasReturn, discard_hasReturn fn]
  | .assign target value => by
      simp [Node.hasReturn, discard_hasReturn target, discard_hasReturn value]
  | .ifElse cond thenp elsep => by
      simp [Node.hasReturn, discard_hasReturn cond,
        discard_hasReturn thenp, discard_hasReturn_optional elsep]
  | .whileLoop cond body => by
      simp [Node.hasReturn, discard_hasReturn cond, discard_hasReturn body]
  | .block stats => by
      simp [Node.hasReturn, discard_hasReturn_stats stats]
  | .lambda _ body _ _ => by
      simp [Node.hasReturn, discard_hasReturn_optional body]
  | .tuple elems => by
      simp [Node.hasReturn, discard_hasReturn_nodes elems]
  | .newOf _ args => by
      simp [Node.hasReturn, discard_hasReturn_args args]
  | .matchOn scrutinee cases => by
      simp [Node.hasReturn, discard_hasReturn scrutinee, discard_hasReturn_cases cases]
  | .tryCatch body cases finallyBody => by
      simp [Node.hasReturn, discard_hasReturn body,
        discard_hasReturn_cases cases, discard_hasReturn_optional finallyBody]
  | .throw value => by
      simp [Node.hasReturn, discard_hasReturn value]
  | .literal _ | .interpString .. | .ident _ | .super _ => by
      simp

@[simp] theorem discard_hasReturn_optional : (child : Optional) →
    child.discardReturnValues.hasReturn = child.hasReturn
  | .none => rfl
  | .some node => by
      simp [Optional.hasReturn, discard_hasReturn node]

@[simp] theorem discard_hasReturn_nodes : (nodes : Nodes) →
    nodes.discardReturnValues.hasReturn = nodes.hasReturn
  | .nil => rfl
  | .cons node rest => by
      simp [Nodes.hasReturn, discard_hasReturn node, discard_hasReturn_nodes rest]

@[simp] theorem discard_hasReturn_args : (args : Args) →
    args.discardReturnValues.hasReturn = args.hasReturn
  | .nil => rfl
  | .plain arg rest | .named _ arg rest | .splice arg rest => by
      simp [Args.hasReturn, discard_hasReturn arg, discard_hasReturn_args rest]

@[simp] theorem discard_hasReturn_stats : (stats : Stats) →
    stats.discardReturnValues.hasReturn = stats.hasReturn
  | .nil => rfl
  | .expr node rest => by
      simp [Stats.hasReturn, discard_hasReturn node, discard_hasReturn_stats rest]
  | .valDef _ _ _ rhs rest => by
      simp [Stats.hasReturn, discard_hasReturn_optional rhs, discard_hasReturn_stats rest]
  | .defDef _ rest | .importing _ rest | .typeDef _ _ rest => by
      simp [Stats.hasReturn, discard_hasReturn_stats rest]

@[simp] theorem discard_hasReturn_cases : (cases : Cases) →
    cases.discardReturnValues.hasReturn = cases.hasReturn
  | .nil => rfl
  | .cons _ guard body rest => by
      simp [Cases.hasReturn, discard_hasReturn_optional guard,
        discard_hasReturn body, discard_hasReturn_cases rest]

end

mutual

theorem discard_same : (node : Node) → (returnless : node.hasReturn = false) →
    node.discardReturnValues = node
  | .ret _, returnless => by simp [Node.hasReturn] at returnless
  | .select qualifier _, returnless => by
      simp only [Node.hasReturn] at returnless
      simp [discard_same qualifier returnless]
  | .apply fn args, returnless => by
      simp only [Node.hasReturn, Bool.or_eq_false_iff] at returnless
      simp [discard_same fn returnless.1, discard_same_args args returnless.2]
  | .typeApply fn _, returnless => by
      simp only [Node.hasReturn] at returnless
      simp [discard_same fn returnless]
  | .assign target value, returnless => by
      simp only [Node.hasReturn, Bool.or_eq_false_iff] at returnless
      simp [discard_same target returnless.1, discard_same value returnless.2]
  | .ifElse cond thenp elsep, returnless => by
      simp only [Node.hasReturn, Bool.or_eq_false_iff] at returnless
      simp [discard_same cond returnless.1.1,
        discard_same thenp returnless.1.2, discard_same_optional elsep returnless.2]
  | .whileLoop cond body, returnless => by
      simp only [Node.hasReturn, Bool.or_eq_false_iff] at returnless
      simp [discard_same cond returnless.1, discard_same body returnless.2]
  | .block stats, returnless => by
      simp only [Node.hasReturn] at returnless
      simp [discard_same_stats stats returnless]
  | .lambda _ body _ _, returnless => by
      simp only [Node.hasReturn] at returnless
      simp [discard_same_optional body returnless]
  | .tuple elems, returnless => by
      simp only [Node.hasReturn] at returnless
      simp [discard_same_nodes elems returnless]
  | .newOf _ args, returnless => by
      simp only [Node.hasReturn] at returnless
      simp [discard_same_args args returnless]
  | .matchOn scrutinee cases, returnless => by
      simp only [Node.hasReturn, Bool.or_eq_false_iff] at returnless
      simp [discard_same scrutinee returnless.1, discard_same_cases cases returnless.2]
  | .tryCatch body cases finallyBody, returnless => by
      simp only [Node.hasReturn, Bool.or_eq_false_iff] at returnless
      simp [discard_same body returnless.1.1,
        discard_same_cases cases returnless.1.2, discard_same_optional finallyBody returnless.2]
  | .throw value, returnless => by
      simp only [Node.hasReturn] at returnless
      simp [discard_same value returnless]
  | .literal _, _ | .interpString .., _ | .ident _, _ | .super _, _ => by
      simp

theorem discard_same_optional : (child : Optional) →
    (returnless : child.hasReturn = false) → child.discardReturnValues = child
  | .none, _ => rfl
  | .some node, returnless => by
      simp only [Optional.hasReturn] at returnless
      simp [discard_same node returnless]

theorem discard_same_nodes : (nodes : Nodes) →
    (returnless : nodes.hasReturn = false) → nodes.discardReturnValues = nodes
  | .nil, _ => rfl
  | .cons node rest, returnless => by
      simp only [Nodes.hasReturn, Bool.or_eq_false_iff] at returnless
      simp [discard_same node returnless.1, discard_same_nodes rest returnless.2]

theorem discard_same_args : (args : Args) →
    (returnless : args.hasReturn = false) → args.discardReturnValues = args
  | .nil, _ => rfl
  | .plain arg rest, returnless | .named _ arg rest, returnless
  | .splice arg rest, returnless => by
      simp only [Args.hasReturn, Bool.or_eq_false_iff] at returnless
      simp [discard_same arg returnless.1, discard_same_args rest returnless.2]

theorem discard_same_stats : (stats : Stats) →
    (returnless : stats.hasReturn = false) → stats.discardReturnValues = stats
  | .nil, _ => rfl
  | .expr node rest, returnless => by
      simp only [Stats.hasReturn, Bool.or_eq_false_iff] at returnless
      simp [discard_same node returnless.1, discard_same_stats rest returnless.2]
  | .valDef _ _ _ rhs rest, returnless => by
      simp only [Stats.hasReturn, Bool.or_eq_false_iff] at returnless
      simp [discard_same_optional rhs returnless.1, discard_same_stats rest returnless.2]
  | .defDef _ rest, returnless | .importing _ rest, returnless
  | .typeDef _ _ rest, returnless => by
      simp only [Stats.hasReturn] at returnless
      simp [discard_same_stats rest returnless]

theorem discard_same_cases : (cases : Cases) →
    (returnless : cases.hasReturn = false) → cases.discardReturnValues = cases
  | .nil, _ => rfl
  | .cons _ guard body rest, returnless => by
      simp only [Cases.hasReturn, Bool.or_eq_false_iff] at returnless
      simp [discard_same_optional guard returnless.1.1,
        discard_same body returnless.1.2, discard_same_cases rest returnless.2]

end

theorem discard_lazyReturn : (stats : Stats) →
    stats.discardReturnValues.lazyReturn = stats.lazyReturn
  | .nil => rfl
  | .expr _ rest | .valDef _ _ _ _ rest | .defDef _ rest | .importing _ rest
  | .typeDef _ _ rest => by
      simp [Stats.lazyReturn, discard_lazyReturn rest]

theorem discard_declarations : (stats : Stats) → (returnless : stats.lazyReturn = false) →
    declarations stats.discardReturnValues = declarations stats
  | .nil, _ => rfl
  | .valDef _ _ isLazy rhs rest, returnless => by
      simp only [Stats.lazyReturn, Bool.or_eq_false_iff, Bool.and_eq_false_iff] at returnless
      have same := discard_declarations rest returnless.2
      cases returnless.1 with
      | inl strict => simp [declarations, same, strict]
      | inr plain =>
          simp [declarations, same, discard_same_optional rhs plain]
  | .expr _ rest, returnless | .defDef _ rest, returnless | .importing _ rest, returnless
  | .typeDef _ _ rest, returnless => by
      simp only [Stats.lazyReturn] at returnless
      simp [declarations, discard_declarations rest returnless]

end

/-! ## The rewritten expression runs as the expression did -/

variable {V Env σ : Type} (program : Program V Env σ) (fuel : Nat)

/-- What the rewriting makes of a return. -/
def settle : V × Bool → V × Bool
  | (result, true) => (result, true)
  | (_, false) => (program.literal .unit, true)

section Primitives

variable (change : V × Bool → V × Bool) (env : Env)

@[simp] theorem mapReturn_deref : (reference : Reference V) →
    mapReturn change (deref program env reference) = deref program env reference
  | .value _ | .named _ | .member .. => by simp [deref]
  | .typed (.member receiver name) [type] => by
      simp only [deref]
      split <;> simp
  | .typed (.value value) types => by simp [deref]
  | .typed (.named skeleton) types => by simp [deref]
  | .typed (.typed reference inner) types => by
      simp only [deref]
      exact mapReturn_deref (.typed reference inner)
  | .typed (.member receiver name) [] => by simp [deref]
  | .typed (.member receiver name) (_ :: _ :: _) => by simp [deref]

@[simp] theorem mapReturn_callee : (reference : Reference V) →
    mapReturn change (callee program env reference) = callee program env reference
  | .value _ | .named _ | .member .. => by simp [callee]
  | .typed reference _ => by
      simp only [callee]
      exact mapReturn_callee reference

@[simp] theorem mapReturn_enterScope (declared : List Declaration) :
    mapReturn change (enterScope program env declared) = enterScope program env declared := by
  cases declared <;> simp [enterScope]

@[simp] theorem mapReturn_delayed (arg : Node) :
    mapReturn change (delayed program env arg) = delayed program env arg := by
  unfold delayed
  split <;> simp

@[simp] theorem mapReturn_guarded (answer : Option V) :
    mapReturn change (guarded program answer) = guarded program answer := by
  cases answer <;> simp [guarded]

@[simp] theorem mapReturn_soleValue (values : List (Argument V)) :
    mapReturn change (soleValue values : Code V σ V) = soleValue values := by
  unfold soleValue
  split <;> simp

end Primitives

mutual

theorem refer_in_hole : (node : Node) → (env : Env) →
    mapReturn (settle program) (refer program fuel true node env) =
      refer program fuel true node env
  | .literal _, _ | .ident _, _ | .super _, _ => by simp [refer]
  | .interpString _ _ args _, env => by
      simp [refer, evalAll_in_hole args env]
  | .select qualifier name, env => by
      simp [refer, refer_in_hole qualifier env]
  | .apply fn args, env => by
      simp only [refer, mapReturn_bind, refer_in_hole fn env, mapReturn_callee]
      refine bind_congr fun reference => bind_congr fun target => ?_
      cases shortCircuit args target with
      | none => simp [evalArgs_in_hole args _ _ env]
      | some left => simp [evalArgs_in_hole args _ _ env]
  | .typeApply fn types, env => by
      simp [refer, refer_in_hole fn env]
  | .assign target value, env => by
      simp only [refer]
      cases identName target with
      | none => simp
      | some name => simp [refer_in_hole value env]
  | .ifElse cond thenp elsep, env => by
      simp only [refer, mapReturn_bind, refer_in_hole cond env, mapReturn_deref,
        mapReturn_lift, mapReturn_ite, refer_in_hole thenp env, evalOptional_in_hole elsep env,
        mapReturn_map]
      refine bind_congr fun reference => bind_congr fun answer => bind_congr fun taken => ?_
      congr 1
      refine bind_congr fun value => ?_
      cases value <;> simp
  | .whileLoop cond body, env => by
      simp [refer, refer_in_hole cond env, refer_in_hole body env]
  | .ret value, env => by
      simp [refer, evalOptional_in_hole value env, settle]
  | .block stats, env => by
      simp [refer, evalStats_in_hole stats]
  | .lambda params body _ _, env => by
      simp [refer]
  | .tuple elems, env => by
      simp [refer, evalAll_in_hole elems env]
  | .newOf type args, env => by
      simp [refer, evalArgs_in_hole args _ _ env]
  | .matchOn scrutinee cases, env => by
      simp [refer, refer_in_hole scrutinee env, evalCases_in_hole cases]
  | .tryCatch body cases finallyBody, env => by
      simp [refer, refer_in_hole body env, evalCases_in_hole cases,
        evalOptional_in_hole finallyBody env]
  | .throw value, env => by
      simp [refer, refer_in_hole value env]

theorem evalOptional_in_hole : (child : Optional) → (env : Env) →
    mapReturn (settle program) (evalOptional program fuel true child env) =
      evalOptional program fuel true child env
  | .none, _ => by simp [evalOptional]
  | .some node, env => by simp [evalOptional, refer_in_hole node env]

theorem evalAll_in_hole : (nodes : Nodes) → (env : Env) →
    mapReturn (settle program) (evalAll program fuel true nodes env) =
      evalAll program fuel true nodes env
  | .nil, _ => by simp [evalAll]
  | .cons node rest, env => by
      simp [evalAll, refer_in_hole node env, evalAll_in_hole rest env]

theorem evalArgs_in_hole : (args : Args) → (byName : Nat → Bool) → (index : Nat) →
    (env : Env) →
    mapReturn (settle program) (evalArgs program fuel true byName index args env) =
      evalArgs program fuel true byName index args env
  | .nil, _, _, _ => by simp [evalArgs]
  | .plain arg rest, byName, index, env => by
      simp [evalArgs, refer_in_hole arg env, evalArgs_in_hole rest]
  | .named _ arg rest, byName, index, env => by
      simp [evalArgs, refer_in_hole arg env, evalArgs_in_hole rest]
  | .splice arg rest, byName, index, env => by
      simp [evalArgs, refer_in_hole arg env, evalArgs_in_hole rest]

theorem evalStats_in_hole : (stats : Stats) → (env : Env) →
    mapReturn (settle program) (evalStats program fuel true stats env) =
      evalStats program fuel true stats env
  | .nil, _ => by simp [evalStats]
  | .expr node rest, env => by
      simp [evalStats, refer_in_hole node env, evalStats_in_hole rest env]
  | .valDef _ _ isLazy rhs rest, env => by
      simp only [evalStats, mapReturn_ite, mapReturn_bind, evalStats_in_hole rest env,
        evalOptional_in_hole rhs env]
      congr 1
      refine bind_congr fun value => ?_
      cases value <;> simp [evalStats_in_hole rest]
  | .defDef _ rest, env | .importing _ rest, env | .typeDef _ _ rest, env => by
      simp [evalStats, evalStats_in_hole rest env]

theorem evalCases_in_hole : (cases : Cases) → (env : Env) → (value : V) →
    (otherwise : Code V σ V) →
    mapReturn (settle program) (evalCases program fuel true cases env value otherwise) =
      evalCases program fuel true cases env value (mapReturn (settle program) otherwise)
  | .nil, _, _, _ => by simp [evalCases]
  | .cons pattern guard body rest, env, value, otherwise => by
      simp only [evalCases, mapReturn_bind, mapReturn_lift]
      refine bind_congr fun selected => ?_
      cases selected with
      | none => exact evalCases_in_hole rest env value otherwise
      | some inner =>
          simp [evalOptional_in_hole guard inner, refer_in_hole body inner,
            evalCases_in_hole rest env value otherwise]

end

/-- A discarded expression runs for its effect; one that yields `()` is left as it is. -/
theorem eval_discardValue (e : Node) (env : Env) :
    eval program fuel false (discardValue e) env =
      if e.yieldsUnit then eval program fuel false e env
      else eval program fuel false e env >>= fun _ => pure (program.literal .unit) := by
  unfold discardValue
  split
  · rfl
  · simp [eval, refer, Stats.lazyReturn, declarations, enterScope, evalStats, Stats.isEmpty,
      deref]

theorem refer_ret (e : Node) (env : Env) :
    refer program fuel false (.ret (.some e)) env =
      eval program fuel false e env >>= fun result => ret (result, e.yieldsUnit) := by
  simp [refer, evalOptional, eval, Optional.yieldsUnit]

/-- Only here does the rewriting change what runs: an expression that is not kept is
followed by `()`. -/
theorem return_rewritten (e : Node) (env : Env)
    (inner : refer program fuel false e.discardReturnValues env =
      mapReturn (settle program) (refer program fuel false e env)) :
    refer program fuel false (.ret (.some (discardValue e.discardReturnValues))) env =
      mapReturn (settle program) (refer program fuel false (.ret (.some e)) env) := by
  have evaluated : eval program fuel false e.discardReturnValues env =
      mapReturn (settle program) (eval program fuel false e env) := by
    simp [eval, inner]
  rw [refer_ret, refer_ret, eval_discardValue, discard_yields, discard_yieldsUnit, evaluated]
  cases kept : e.yieldsUnit <;> simp [settle]

mutual

theorem refer_rewritten : (node : Node) → (env : Env) →
    refer program fuel false node.discardReturnValues env =
      mapReturn (settle program) (refer program fuel false node env)
  | .literal _, _ | .ident _, _ | .super _, _ => by simp [Node.discardReturnValues, refer]
  | .interpString _ _ args _, env => by
      simp [Node.discardReturnValues, refer, evalAll_in_hole program fuel args env]
  | .select qualifier name, env => by
      simp [Node.discardReturnValues, refer, refer_rewritten qualifier env]
  | .apply fn args, env => by
      simp only [Node.discardReturnValues, refer, mapReturn_bind, refer_rewritten fn env,
        mapReturn_callee]
      refine bind_congr fun reference => bind_congr fun target => ?_
      have shape : shortCircuit args.discardReturnValues target = shortCircuit args target := by
        cases target <;> simp [shortCircuit]
      rw [shape]
      cases shortCircuit args target with
      | none => simp [evalArgs_rewritten args _ _ env]
      | some left => simp [evalArgs_rewritten args _ _ env]
  | .typeApply fn types, env => by
      simp [Node.discardReturnValues, refer, refer_rewritten fn env]
  | .assign target value, env => by
      simp only [Node.discardReturnValues, refer, discard_identName]
      cases identName target with
      | none => simp
      | some name => simp [refer_rewritten value env]
  | .ifElse cond thenp elsep, env => by
      simp only [Node.discardReturnValues, refer, mapReturn_bind, refer_rewritten cond env,
        mapReturn_deref, mapReturn_lift, mapReturn_ite, refer_rewritten thenp env,
        evalOptional_rewritten elsep env, mapReturn_map]
      refine bind_congr fun reference => bind_congr fun answer => bind_congr fun taken => ?_
      congr 1
      refine bind_congr fun value => ?_
      cases value <;> simp
  | .whileLoop cond body, env => by
      simp [Node.discardReturnValues, refer, refer_rewritten cond env,
        refer_rewritten body env]
  | .ret .none, env => by
      simp [Node.discardReturnValues, Optional.discardReturned, refer, evalOptional,
        Optional.yieldsUnit, settle]
  | .ret (.some value), env => by
      exact return_rewritten program fuel value env (refer_rewritten value env)
  | .block stats, env => by
      simp only [Node.discardReturnValues, refer, discard_lazyReturn]
      cases returns : stats.lazyReturn with
      | true => simp
      | false => simp [discard_declarations stats returns, evalStats_rewritten stats]
  | .lambda params body _ _, env => by
      simp only [Node.discardReturnValues, refer, discard_hasReturn_optional]
      cases returns : body.hasReturn with
      | true => simp
      | false => simp [discard_same_optional body returns]
  | .tuple elems, env => by
      simp [Node.discardReturnValues, refer, evalAll_rewritten elems env]
  | .newOf type args, env => by
      simp [Node.discardReturnValues, refer, evalArgs_rewritten args _ _ env]
  | .matchOn scrutinee cases, env => by
      simp [Node.discardReturnValues, refer, refer_rewritten scrutinee env,
        fun value => evalCases_rewritten cases env value (lift (program.noMatch value))
          (mapReturn_lift _ _)]
  | .tryCatch body cases finallyBody, env => by
      simp [Node.discardReturnValues, refer, refer_rewritten body env,
        fun exception => evalCases_rewritten cases env exception (throw exception)
          (mapReturn_throw _ _),
        evalOptional_rewritten finallyBody env]
  | .throw value, env => by
      simp [Node.discardReturnValues, refer, refer_rewritten value env]

theorem evalOptional_rewritten : (child : Optional) → (env : Env) →
    evalOptional program fuel false child.discardReturnValues env =
      mapReturn (settle program) (evalOptional program fuel false child env)
  | .none, _ => by simp [Optional.discardReturnValues, evalOptional]
  | .some node, env => by
      simp [Optional.discardReturnValues, evalOptional, refer_rewritten node env]

theorem evalAll_rewritten : (nodes : Nodes) → (env : Env) →
    evalAll program fuel false nodes.discardReturnValues env =
      mapReturn (settle program) (evalAll program fuel false nodes env)
  | .nil, _ => by simp [Nodes.discardReturnValues, evalAll]
  | .cons node rest, env => by
      simp [Nodes.discardReturnValues, evalAll, refer_rewritten node env,
        evalAll_rewritten rest env]

theorem evalArgs_rewritten : (args : Args) → (byName : Nat → Bool) → (index : Nat) →
    (env : Env) →
    evalArgs program fuel false byName index args.discardReturnValues env =
      mapReturn (settle program) (evalArgs program fuel false byName index args env)
  | .nil, _, _, _ => by simp [Args.discardReturnValues, evalArgs]
  | .plain arg rest, byName, index, env => by
      have postponed : delayed program env arg.discardReturnValues =
          delayed program env arg := by
        unfold delayed
        rw [discard_hasReturn]
        cases returns : arg.hasReturn with
        | true => rfl
        | false => rw [discard_same arg returns]
      simp [Args.discardReturnValues, evalArgs, refer_rewritten arg env,
        evalArgs_rewritten rest, postponed]
  | .named _ arg rest, byName, index, env => by
      simp [Args.discardReturnValues, evalArgs, refer_rewritten arg env,
        evalArgs_rewritten rest]
  | .splice arg rest, byName, index, env => by
      simp [Args.discardReturnValues, evalArgs, refer_rewritten arg env,
        evalArgs_rewritten rest]

theorem evalStats_rewritten : (stats : Stats) → (env : Env) →
    evalStats program fuel false stats.discardReturnValues env =
      mapReturn (settle program) (evalStats program fuel false stats env)
  | .nil, _ => by simp [Stats.discardReturnValues, evalStats]
  | .expr node rest, env => by
      simp [Stats.discardReturnValues, evalStats, refer_rewritten node env,
        evalStats_rewritten rest env]
  | .valDef _ _ isLazy rhs rest, env => by
      simp only [Stats.discardReturnValues, evalStats, mapReturn_ite, mapReturn_bind,
        evalStats_rewritten rest env, evalOptional_rewritten rhs env]
      congr 1
      refine bind_congr fun value => ?_
      cases value <;> simp [evalStats_rewritten rest]
  | .defDef _ rest, env | .importing _ rest, env | .typeDef _ _ rest, env => by
      simp [Stats.discardReturnValues, evalStats, evalStats_rewritten rest env]

theorem evalCases_rewritten : (cases : Cases) → (env : Env) → (value : V) →
    (otherwise : Code V σ V) →
    (unchanged : mapReturn (settle program) otherwise = otherwise) →
    evalCases program fuel false cases.discardReturnValues env value otherwise =
      mapReturn (settle program) (evalCases program fuel false cases env value otherwise)
  | .nil, _, _, _, unchanged => by simp [Cases.discardReturnValues, evalCases, unchanged]
  | .cons pattern guard body rest, env, value, otherwise, unchanged => by
      simp only [Cases.discardReturnValues, evalCases, mapReturn_bind, mapReturn_lift]
      refine bind_congr fun selected => ?_
      cases selected with
      | none => exact evalCases_rewritten rest env value otherwise unchanged
      | some inner =>
          simp [evalOptional_rewritten guard inner, refer_rewritten body inner,
            evalCases_rewritten rest env value otherwise unchanged]

end

end ProtoScala.Frontend.UnitDefs
