import Mathlib.Data.List.Basic

/-!
# Syntax trees between the desugarer and the compiler

The node kinds that are left once an expression has been desugared: no infix or prefix
operator, no parentheses, no ascription and no comprehension. A definition stands only
in a statement list, a named argument and a splice only in an argument list; the
compiler refuses them anywhere else.
-/

namespace ProtoScala.Frontend.Syntax

set_option autoImplicit false

/-- `builtin`: the name is a type key, which no source can spell. -/
inductive TypeKind where
  | name | applied | function | tuple | byName | repeated | wildcard | infixed | builtin
  deriving DecidableEq, Repr

/-- A type as written. `name` is a dotted path, an operator or the type constructor. -/
inductive TypeTree where
  | mk (kind : TypeKind) (name : String) (args : List TypeTree)

def TypeTree.kind : TypeTree → TypeKind
  | .mk kind _ _ => kind

def TypeTree.name : TypeTree → String
  | .mk _ name _ => name

/-- A literal; an integer keeps its exact value, a floating one its text. -/
inductive Literal where
  | int (value : Int)
  | float (text : String)
  | string (value : String)
  | char (value : UInt32)
  | bool (value : Bool)
  | null
  | unit
  deriving DecidableEq, Repr

/-- The expressions of a pattern are literals and paths. -/
inductive Pattern where
  | wildcard
  | var (name : String)
  | literal (value : Literal)
  | stable (path : List String)
  | typed (type : TypeTree) (arg : Pattern)
  | bind (name : String) (arg : Pattern)
  | alt (args : List Pattern)
  | extractor (path : List String) (args : List Pattern)
  | tuple (args : List Pattern)
  | seqWildcard (name : String)

mutual

inductive Node where
  | literal (value : Literal)
  | interpString (interpolator : String) (literals : List String) (args : Nodes)
      (specs : List String)
  | ident (name : String)
  | select (qualifier : Node) (name : String)
  | apply (fn : Node) (args : Args)
  | typeApply (fn : Node) (types : List TypeTree)
  | assign (target value : Node)
  | ifElse (cond thenp : Node) (elsep : Optional)
  | whileLoop (cond body : Node)
  | ret (value : Optional)
  | block (stats : Stats)
  | lambda (params : Params) (body : Optional) (ownsReturn fromCurriedDef : Bool)
  | tuple (elems : Nodes)
  | newOf (type : TypeTree) (args : Args)
  | matchOn (scrutinee : Node) (cases : Cases)
  | tryCatch (body : Node) (cases : Cases) (finallyBody : Optional)
  | throw (value : Node)
  | super (qualifier : String)

/-- A child that may be absent. -/
inductive Optional where
  | none
  | some (node : Node)

inductive Nodes where
  | nil
  | cons (node : Node) (rest : Nodes)

inductive Args where
  | nil
  | plain (arg : Node) (rest : Args)
  | named (name : String) (arg : Node) (rest : Args)
  | splice (arg : Node) (rest : Args)

inductive Stats where
  | nil
  | expr (node : Node) (rest : Stats)
  | valDef (name : String) (isVar isLazy : Bool) (rhs : Optional) (rest : Stats)
  | defDef (definition : DefDef) (rest : Stats)
  | importing (path : List String) (rest : Stats)
  | typeDef (name : String) (rhs : Option TypeTree) (rest : Stats)

inductive Cases where
  | nil
  | cons (pattern : Pattern) (guard : Optional) (body : Node) (rest : Cases)

inductive Params where
  | nil
  | cons (name : String) (type : Option TypeTree) (defaultValue : Optional)
      (byName repeated : Bool) (rest : Params)

inductive ParamLists where
  | nil
  | cons (params : Params) (rest : ParamLists)

inductive DefDef where
  | mk (name : String) (annotations : List String) (paramLists : ParamLists)
      (resultType : Option TypeTree) (body : Optional) (curried : Bool)

end

def DefDef.paramLists : DefDef → ParamLists
  | .mk _ _ paramLists _ _ _ => paramLists

def DefDef.resultType : DefDef → Option TypeTree
  | .mk _ _ _ resultType _ _ => resultType

def DefDef.body : DefDef → Optional
  | .mk _ _ _ _ body _ => body

def ParamLists.toList : ParamLists → List Params
  | .nil => []
  | .cons params rest => params :: rest.toList

def ParamLists.ofList : List Params → ParamLists
  | [] => .nil
  | params :: rest => .cons params (ParamLists.ofList rest)

/-- `Unit` or `scala.Unit` as written. -/
def isUnitType : Option TypeTree → Bool
  | some type => type.kind = .name ∧ (type.name = "Unit" ∨ type.name = "scala.Unit")
  | none => false

/-- `Double` or `Float` as written. -/
def isDoubleType : Option TypeTree → Bool
  | some type => type.kind = .name ∧ (type.name = "Double" ∨ type.name = "scala.Double" ∨
      type.name = "Float" ∨ type.name = "scala.Float")
  | none => false

/-- What is left of an expression when every part that is not a name is left out. It
decides how the compiler resolves a callee or a selection. -/
inductive Skeleton where
  | name (name : String)
  | member (qualifier : Skeleton) (name : String)
  | applied (fn : Skeleton)
  | typed (fn : Skeleton)
  | super (qualifier : String)
  | other
  deriving DecidableEq, Repr

def Node.skeleton : Node → Skeleton
  | .ident name => .name name
  | .select qualifier name => .member qualifier.skeleton name
  | .apply fn _ => .applied fn.skeleton
  | .typeApply fn _ => .typed fn.skeleton
  | .super qualifier => .super qualifier
  | _ => .other

/-! ## Returns the compiler refuses -/

mutual

/-- A `return` that belongs to the def around the expression stands in it. -/
def Node.hasReturn : Node → Bool
  | .literal _ | .ident _ | .super _ => false
  | .ret _ => true
  | .interpString _ _ args _ => args.hasReturn
  | .select qualifier _ => qualifier.hasReturn
  | .apply fn args => fn.hasReturn || args.hasReturn
  | .typeApply fn _ => fn.hasReturn
  | .assign target value => target.hasReturn || value.hasReturn
  | .ifElse cond thenp elsep => cond.hasReturn || thenp.hasReturn || elsep.hasReturn
  | .whileLoop cond body => cond.hasReturn || body.hasReturn
  | .block stats => stats.hasReturn
  | .lambda _ body _ _ => body.hasReturn
  | .tuple elems => elems.hasReturn
  | .newOf _ args => args.hasReturn
  | .matchOn scrutinee cases => scrutinee.hasReturn || cases.hasReturn
  | .tryCatch body cases finallyBody =>
      body.hasReturn || cases.hasReturn || finallyBody.hasReturn
  | .throw value => value.hasReturn

def Optional.hasReturn : Optional → Bool
  | .none => false
  | .some node => node.hasReturn

def Nodes.hasReturn : Nodes → Bool
  | .nil => false
  | .cons node rest => node.hasReturn || rest.hasReturn

def Args.hasReturn : Args → Bool
  | .nil => false
  | .plain arg rest | .named _ arg rest | .splice arg rest => arg.hasReturn || rest.hasReturn

def Stats.hasReturn : Stats → Bool
  | .nil => false
  | .expr node rest => node.hasReturn || rest.hasReturn
  | .valDef _ _ _ rhs rest => rhs.hasReturn || rest.hasReturn
  | .defDef _ rest | .importing _ rest | .typeDef _ _ rest => rest.hasReturn

def Cases.hasReturn : Cases → Bool
  | .nil => false
  | .cons _ guard body rest => guard.hasReturn || body.hasReturn || rest.hasReturn

end

/-- A lazy val of the list has a `return` in its right-hand side. -/
def Stats.lazyReturn : Stats → Bool
  | .nil => false
  | .valDef _ _ isLazy rhs rest => isLazy && rhs.hasReturn || rest.lazyReturn
  | .expr _ rest | .defDef _ rest | .importing _ rest | .typeDef _ _ rest => rest.lazyReturn

end ProtoScala.Frontend.Syntax
