import Mathlib.Data.List.Basic
import Mathlib.Data.List.Nodup
import ProtoScala.Library.Gathering

/-!
# For-comprehensions

`forExpr` attaches every guard and every value definition to the generator before it: a
guard filters the generator's source, a value definition maps it to pairs and turns the
generator's pattern into a pair of patterns. `foldGenerators` then nests the generators
from the right. The reading of a comprehension takes its enumerators from left to right.

Expressions and the tests of patterns are opaque: they read the names of the source and
cannot read a generated one.
-/

namespace ProtoScala.Frontend.Comprehensions

open ProtoScala.Library.Gathering

set_option autoImplicit false

/-- `fresh` makes `<p0>`, `<b1>` and so on, which no source can spell. -/
inductive Name where
  | user (name : String)
  | parameter (n : Nat)
  | bound (n : Nat)
  deriving DecidableEq, Repr

mutual

/-- `test` is every refutable pattern; it tests a value and takes parts out of it. -/
inductive Pattern (N T : Type) where
  | wildcard
  | var (name : N)
  | bind (name : N) (arg : Pattern N T)
  | tuple (args : Patterns N T)
  | test (t : T) (args : Patterns N T)

inductive Patterns (N T : Type) where
  | nil
  | cons (first : Pattern N T) (rest : Patterns N T)

end

section Syntax

variable {N M T E : Type}

mutual

def Pattern.names : Pattern N T → List N
  | .wildcard => []
  | .var name => [name]
  | .bind name arg => name :: arg.names
  | .tuple args => args.names
  | .test _ args => args.names

def Patterns.names : Patterns N T → List N
  | .nil => []
  | .cons first rest => first.names ++ rest.names

end

def Patterns.length : Patterns N T → Nat
  | .nil => 0
  | .cons _ rest => rest.length + 1

def kMaxTupleArity : Nat := 22

mutual

/-- The compiler refuses a tuple pattern of more than `kMaxTupleArity` elements. -/
def Pattern.narrow : Pattern N T → Bool
  | .wildcard => true
  | .var _ => true
  | .bind _ arg => arg.narrow
  | .tuple args => decide (args.length ≤ kMaxTupleArity) && args.narrow
  | .test _ args => args.narrow

def Patterns.narrow : Patterns N T → Bool
  | .nil => true
  | .cons first rest => first.narrow && rest.narrow

end

mutual

def Pattern.tests : Pattern N T → List T
  | .wildcard => []
  | .var _ => []
  | .bind _ arg => arg.tests
  | .tuple args => args.tests
  | .test t args => t :: args.tests

def Patterns.tests : Patterns N T → List T
  | .nil => []
  | .cons first rest => first.tests ++ rest.tests

end

mutual

def Pattern.rename (f : N → M) : Pattern N T → Pattern M T
  | .wildcard => .wildcard
  | .var name => .var (f name)
  | .bind name arg => .bind (f name) (arg.rename f)
  | .tuple args => .tuple (args.rename f)
  | .test t args => .test t (args.rename f)

def Patterns.rename (f : N → M) : Patterns N T → Patterns M T
  | .nil => .nil
  | .cons first rest => .cons (first.rename f) (rest.rename f)

end

mutual

/-- Types are erased, so a tuple pattern is trusted to meet tuples. -/
def irrefutable : Pattern N T → Bool
  | .wildcard => true
  | .var _ => true
  | .bind _ arg => irrefutable arg
  | .tuple args => irrefutableAll args
  | .test _ _ => false

def irrefutableAll : Patterns N T → Bool
  | .nil => true
  | .cons first rest => irrefutable first && irrefutableAll rest

end

/-- `p <- e`, `case p <- e`, `if e` and `p = e` as they are written. -/
inductive Enumerator (E T : Type) where
  | generator (pattern : Pattern String T) (expr : E) (hasCase : Bool)
  | guard (expr : E)
  | value (pattern : Pattern String T) (expr : E)

inductive Method where
  | withFilter | map | flatMap | foreach
  deriving DecidableEq, Repr

/-- The trees `forExpr` builds. `call` is `source.method(param => body)`; a parameter `_`
has no name. `matchOne` has the one case, `matchElse` a second one for every value. `block`
is `{ val pattern = rhs; result }`. -/
inductive Tree (E T : Type) where
  | expr (e : E)
  | ident (name : Name)
  | bool (b : Bool)
  | pair (first second : Tree E T)
  | call (source : Tree E T) (method : Method) (param : Option Name) (body : Tree E T)
  | matchOne (scrutinee : Name) (pattern : Pattern Name T) (body : Tree E T)
  | matchElse (scrutinee : Name) (pattern : Pattern Name T) (body other : Tree E T)
  | block (pattern : Pattern Name T) (rhs : E) (result : Tree E T)

end Syntax

section Desugaring

variable {E T : Type}

/-- The parameter and the body of the lambda, and the counter after it. -/
def lambdaFor (n : Nat) (p : Pattern Name T) (body : Tree E T) :
    Option Name × Tree E T × Nat :=
  match p with
  | .var name => (some name, body, n)
  | .wildcard => (none, body, n)
  | p => (some (.parameter n), .matchOne (.parameter n) p body, n + 1)

def matchesLambda (n : Nat) (p : Pattern Name T) : Option Name × Tree E T × Nat :=
  (some (.parameter n), .matchElse (.parameter n) p (.bool true) (.bool false), n + 1)

def call (source : Tree E T) (method : Method) (lambda : Option Name × Tree E T × Nat) :
    Tree E T :=
  .call source method lambda.1 lambda.2.1

/-- The name of the whole value, the pattern that binds it and the counter. -/
def boundName (n : Nat) (p : Pattern Name T) : Name × Pattern Name T × Nat :=
  match p with
  | .var name => (name, p, n)
  | .bind name _ => (name, p, n)
  | p => (.bound n, .bind (.bound n) p, n + 1)

structure Generator (E T : Type) where
  pattern : Pattern Name T
  source : Tree E T

/-- A generator filters when its pattern is refutable or was written with `case`. -/
def openGenerator (n : Nat) (p : Pattern String T) (e : E) (hasCase : Bool) :
    Generator E T × Nat :=
  let pattern := p.rename .user
  if hasCase || !irrefutable p then
    let lambda := matchesLambda n pattern
    (⟨pattern, call (.expr e) .withFilter lambda⟩, lambda.2.2)
  else (⟨pattern, .expr e⟩, n)

def addGuard (n : Nat) (g : Generator E T) (e : E) : Generator E T × Nat :=
  let lambda := lambdaFor n g.pattern (.expr e)
  (⟨g.pattern, call g.source .withFilter lambda⟩, lambda.2.2)

def addValue (n : Nat) (g : Generator E T) (p : Pattern String T) (e : E) :
    Generator E T × Nat :=
  let first := boundName n g.pattern
  let second := boundName first.2.2 (p.rename .user)
  let body := Tree.block second.2.1 e (.pair (.ident first.1) (.ident second.1))
  let lambda := lambdaFor second.2.2 first.2.1 body
  (⟨.tuple (.cons first.2.1 (.cons second.2.1 .nil)), call g.source .map lambda⟩, lambda.2.2)

/-- The generators from `g`, the last one so far, with the counter after them. -/
def generators (n : Nat) (g : Generator E T) :
    List (Enumerator E T) → List (Generator E T) × Nat
  | [] => ([g], n)
  | .generator p e hasCase :: rest =>
    let opened := openGenerator n p e hasCase
    let later := generators opened.2 opened.1 rest
    (g :: later.1, later.2)
  | .guard e :: rest =>
    let guarded := addGuard n g e
    generators guarded.2 guarded.1 rest
  | .value p e :: rest =>
    let defined := addValue n g p e
    generators defined.2 defined.1 rest

/-- The innermost lambda is built first. -/
def foldGenerators (n : Nat) (body : E) (isYield : Bool) :
    List (Generator E T) → Tree E T × Nat
  | [] => (.expr body, n)
  | [g] =>
    let lambda := lambdaFor n g.pattern (.expr body)
    (call g.source (if isYield then .map else .foreach) lambda, lambda.2.2)
  | g :: rest =>
    let inner := foldGenerators n body isYield rest
    let lambda := lambdaFor inner.2 g.pattern inner.1
    (call g.source (if isYield then .flatMap else .foreach) lambda, lambda.2.2)

def forExpr (n : Nat) (p : Pattern String T) (e : E) (hasCase : Bool)
    (rest : List (Enumerator E T)) (body : E) (isYield : Bool) : Tree E T :=
  let opened := openGenerator n p e hasCase
  let gens := generators opened.2 opened.1 rest
  (foldGenerators gens.2 body isYield gens.1).1

end Desugaring

/-- What expressions, tests and values do. `none` is an exception. An expression and a test
read the names they mention. -/
structure Language (E T V : Type) where
  eval : E → (String → V) → Option V
  mentions : E → List String
  eval_congr : ∀ e u u', (∀ x ∈ mentions e, u x = u' x) → eval e u = eval e u'
  extract : T → (String → V) → V → Option (Option (List V))
  testMentions : T → List String
  extract_congr : ∀ t u u' v, (∀ x ∈ testMentions t, u x = u' x) → extract t u v = extract t u' v
  list : List V → V
  asList : V → Option (List V)
  as_list : ∀ vs, asList (list vs) = some vs
  tuple : List V → V
  untuple : V → Option (List V)
  untuple_tuple : ∀ vs, untuple (tuple vs) = some vs
  bool : Bool → V
  truthy : V → Bool
  truthy_bool : ∀ b, truthy (bool b) = b
  unit : V
  null : V

/-- A store of names: `user` is the part that expressions see. -/
structure Env (V : Type) where
  user : String → V
  generated : Name → V

section Meaning

variable {E T V : Type} (L : Language E T V)

def Env.get (env : Env V) : Name → V
  | .user x => env.user x
  | name => env.generated name

def Env.set (env : Env V) (name : Name) (v : V) : Env V :=
  match name with
  | .user x => { env with user := Function.update env.user x v }
  | name => { env with generated := Function.update env.generated name v }

section Matching

variable {N S : Type} (set : S → N → V → S) (see : S → String → V)

mutual

/-- From left to right; a test sees the variables that were bound before it. -/
def matchPattern : Pattern N T → V → S → Option (Option S)
  | .wildcard, _, s => some (some s)
  | .var name, v, s => some (some (set s name v))
  | .bind name arg, v, s =>
    match matchPattern arg v s with
    | some (some s') => some (some (set s' name v))
    | outcome => outcome
  | .tuple args, v, s =>
    match L.untuple v with
    | some vs => if vs.length = args.length then matchPatterns args vs s else some none
    | none => some none
  | .test t args, v, s =>
    match L.extract t (see s) v with
    | some (some vs) => matchPatterns args vs s
    | some none => some none
    | none => none

def matchPatterns : Patterns N T → List V → S → Option (Option S)
  | .nil, [], s => some (some s)
  | .cons first rest, v :: vs, s =>
    match matchPattern first v s with
    | some (some s') => matchPatterns rest vs s'
    | outcome => outcome
  | _, _, _ => some none

end

end Matching

/-- Matching in a comprehension as it is read. -/
def matchRead (p : Pattern String T) (v : V) (u : String → V) : Option (Option (String → V)) :=
  matchPattern L (fun u x v => Function.update u x v) (fun u => u) p v u

/-- Matching in compiled code; a pattern that binds a name twice is rejected. -/
def matchCode (p : Pattern Name T) (v : V) (env : Env V) : Option (Option (Env V)) :=
  if p.names.Nodup then matchPattern L Env.set Env.user p v env else none

/-- A match with one case: `MatchError` when it does not match. -/
def matchOnly (p : Pattern Name T) (v : V) (env : Env V) : Option (Env V) :=
  match matchCode L p v env with
  | some (some env') => some env'
  | _ => none

/-- The names of a block are there, and unset, before its first statement. -/
def hoist (env : Env V) : List Name → Env V
  | [] => env
  | name :: names => hoist (env.set name L.null) names

/-- `val pattern = w`; several variables go through a tuple. -/
def define (p : Pattern Name T) (w : V) (env : Env V) : Option (Env V) :=
  match p with
  | .var name => some (env.set name w)
  | p => if p.names.length ≤ kMaxTupleArity then matchOnly L p w env else none

def run (method : Method) (vs : List V) (f : V → Option V) : Option V :=
  match method with
  | .withFilter =>
    (gather (fun v => (f v).map fun b => if L.truthy b then [v] else []) vs).map L.list
  | .map => (gather (fun v => (f v).map ([·])) vs).map L.list
  | .flatMap => (gather (fun v => (f v).bind L.asList) vs).map L.list
  | .foreach => (gather (fun v => (f v).map fun _ => ([] : List V)) vs).map fun _ => L.unit

def bindParam (param : Option Name) (v : V) (env : Env V) : Env V :=
  match param with
  | some name => env.set name v
  | none => env

def evalTree : Tree E T → Env V → Option V
  | .expr e, env => L.eval e env.user
  | .ident name, env => some (env.get name)
  | .bool b, _ => some (L.bool b)
  | .pair first second, env =>
    match evalTree first env, evalTree second env with
    | some a, some b => some (L.tuple [a, b])
    | _, _ => none
  | .call source method param body, env =>
    ((evalTree source env).bind L.asList).bind fun vs =>
      run L method vs fun v => evalTree body (bindParam param v env)
  | .matchOne scrutinee pattern body, env =>
    (matchOnly L pattern (env.get scrutinee) env).bind (evalTree body)
  | .matchElse scrutinee pattern body other, env =>
    match matchCode L pattern (env.get scrutinee) env with
    | some (some env') => evalTree body env'
    | some none => evalTree other env
    | none => none
  | .block pattern rhs result, env =>
    let hoisted := hoist L env pattern.names
    ((L.eval rhs hoisted.user).bind fun w => define L pattern w hoisted).bind (evalTree result)

/-- The comprehension read from left to right: the values of the body, or an exception. -/
def read (body : E) : List (Enumerator E T) → (String → V) → Option (List V)
  | [], u => (L.eval body u).map ([·])
  | .generator p e hasCase :: rest, u =>
    ((L.eval e u).bind L.asList).bind <| gather fun v =>
      match matchRead L p v u with
      | some (some u') => read body rest u'
      | some none => if hasCase || !irrefutable p then some [] else none
      | none => none
  | .guard e :: rest, u =>
    (L.eval e u).bind fun b => if L.truthy b then read body rest u else some []
  | .value p e :: rest, u =>
    (L.eval e u).bind fun w =>
      match matchRead L p w u with
      | some (some u') => read body rest u'
      | _ => none

/-- The variables that `val pattern = w` defines in the block. -/
def definedNames (p : Pattern String T) : List Name := (boundName 0 (p.rename .user)).2.1.names

/-- What a value definition needs: distinct names that neither it nor its tests read, and no
more of them than a tuple holds. -/
structure Definable (p : Pattern String T) (e : E) : Prop where
  nodup : p.names.Nodup
  narrow : p.narrow = true
  unread : ∀ x ∈ p.names, x ∉ L.mentions e
  untested : ∀ t ∈ p.tests, ∀ x ∈ p.names, x ∉ L.testMentions t
  few : (definedNames p).length ≤ kMaxTupleArity

/-- The names of a group, a generator with its value definitions, are distinct. -/
def WellFormed (seen : List String) : List (Enumerator E T) → Prop
  | [] => True
  | .generator p _ _ :: rest => p.names.Nodup ∧ p.narrow = true ∧ WellFormed p.names rest
  | .guard _ :: rest => WellFormed seen rest
  | .value p e :: rest =>
    Definable L p e ∧ (∀ x ∈ p.names, x ∉ seen) ∧ WellFormed (seen ++ p.names) rest

attribute [local simp] evalTree matchPattern matchPatterns irrefutable irrefutableAll

end Meaning

end ProtoScala.Frontend.Comprehensions
