import ProtoScala.Frontend.Syntax

/-!
# Rewriting operators and definitions

`discardValue` turns an expression whose expected type is `Unit` into `{ e; () }`,
unless `yieldsUnit` finds that it yields `()` already. A def with result type `Unit`
has its body discarded, and the expression of each `return` that belongs to it. An
infix application is a call of its left operand, or of its right one when the operator
ends in a colon.

The operands of an operator and the body of a definition are desugared before these
functions see them.
-/

namespace ProtoScala.Frontend.Syntax

set_option autoImplicit false

/-! ## Value discarding -/

def Optional.present : Optional → Bool
  | .none => false
  | .some _ => true

def Stats.isEmpty : Stats → Bool
  | .nil => true
  | _ => false

mutual

/-- The expression is known to yield `()` already. -/
def Node.yieldsUnit : Node → Bool
  | .literal value => value = .unit
  | .whileLoop .. | .assign .. | .ret _ => true
  | .ifElse _ thenp elsep => elsep.present && thenp.yieldsUnit && elsep.yieldsUnit
  | .block stats => stats.yieldsUnit
  | _ => false

def Optional.yieldsUnit : Optional → Bool
  | .none => true
  | .some node => node.yieldsUnit

/-- The last statement decides; an alias as the last one is not looked through. -/
def Stats.yieldsUnit : Stats → Bool
  | .nil => true
  | .expr node rest => if rest.isEmpty then node.yieldsUnit else rest.yieldsUnit
  | .valDef _ _ _ _ rest => rest.yieldsUnit
  | .defDef _ rest => rest.yieldsUnit
  | .importing _ rest => rest.yieldsUnit
  | .typeDef _ _ rest => !rest.isEmpty && rest.yieldsUnit

end

def discardValue (e : Node) : Node :=
  if e.yieldsUnit then e else .block (.expr e (.expr (.literal .unit) .nil))

mutual

/-- A nested def owns its returns; the holes of an interpolated string are not
searched. -/
def Node.discardReturnValues : Node → Node
  | .ret value => .ret value.discardReturned
  | .select qualifier name => .select qualifier.discardReturnValues name
  | .apply fn args => .apply fn.discardReturnValues args.discardReturnValues
  | .typeApply fn types => .typeApply fn.discardReturnValues types
  | .assign target value => .assign target.discardReturnValues value.discardReturnValues
  | .ifElse cond thenp elsep =>
      .ifElse cond.discardReturnValues thenp.discardReturnValues elsep.discardReturnValues
  | .whileLoop cond body => .whileLoop cond.discardReturnValues body.discardReturnValues
  | .block stats => .block stats.discardReturnValues
  | .lambda params body ownsReturn fromCurriedDef =>
      .lambda params body.discardReturnValues ownsReturn fromCurriedDef
  | .tuple elems => .tuple elems.discardReturnValues
  | .newOf type args => .newOf type args.discardReturnValues
  | .matchOn scrutinee cases =>
      .matchOn scrutinee.discardReturnValues cases.discardReturnValues
  | .tryCatch body cases finallyBody =>
      .tryCatch body.discardReturnValues cases.discardReturnValues
        finallyBody.discardReturnValues
  | .throw value => .throw value.discardReturnValues
  | node => node

def Optional.discardReturnValues : Optional → Optional
  | .none => .none
  | .some node => .some node.discardReturnValues

/-- What a `return` of a `Unit` def returns. -/
def Optional.discardReturned : Optional → Optional
  | .none => .none
  | .some node => .some (discardValue node.discardReturnValues)

def Nodes.discardReturnValues : Nodes → Nodes
  | .nil => .nil
  | .cons node rest => .cons node.discardReturnValues rest.discardReturnValues

def Args.discardReturnValues : Args → Args
  | .nil => .nil
  | .plain arg rest => .plain arg.discardReturnValues rest.discardReturnValues
  | .named name arg rest => .named name arg.discardReturnValues rest.discardReturnValues
  | .splice arg rest => .splice arg.discardReturnValues rest.discardReturnValues

def Stats.discardReturnValues : Stats → Stats
  | .nil => .nil
  | .expr node rest => .expr node.discardReturnValues rest.discardReturnValues
  | .valDef name isVar isLazy rhs rest =>
      .valDef name isVar isLazy rhs.discardReturnValues rest.discardReturnValues
  | .defDef definition rest => .defDef definition rest.discardReturnValues
  | .importing path rest => .importing path rest.discardReturnValues
  | .typeDef name rhs rest => .typeDef name rhs rest.discardReturnValues

def Cases.discardReturnValues : Cases → Cases
  | .nil => .nil
  | .cons pattern guard body rest =>
      .cons pattern guard.discardReturnValues body.discardReturnValues rest.discardReturnValues

end

/-! ## Definitions -/

def widenToDouble (e : Node) : Node := .apply (.select e "toDouble") .nil

def rewrittenBody (resultType : Option TypeTree) : Optional → Optional
  | .none => .none
  | .some body =>
      if isUnitType resultType then .some (discardValue body.discardReturnValues)
      else if isDoubleType resultType then .some (widenToDouble body)
      else .some body

/-- One lambda for each parameter list but the first, the last list first; the innermost
lambda holds the body of the def and owns its returns. -/
def curriedBody (body : Optional) (innermost : Bool) : List Params → Optional
  | [] => body
  | params :: outer =>
      curriedBody (.some (.lambda params body innermost true)) false outer

/-- `def f(a)(b)(c) = e` becomes `def f(a) = (b) => (c) => e`. -/
def defDef : DefDef → DefDef
  | .mk name annotations paramLists resultType body _ =>
      let lists := paramLists.toList
      .mk name annotations (.ofList (lists.take 1)) resultType
        (curriedBody (rewrittenBody resultType body) true (lists.drop 1).reverse)
        (1 < lists.length)

end ProtoScala.Frontend.Syntax
