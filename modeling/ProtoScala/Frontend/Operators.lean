import ProtoScala.Frontend.Syntax
import ProtoScala.Library.Completions

/-!
# Infix applications and assignment operators

`infix` turns `l op r` into a call of `l`, or of `r` when the operator ends in a colon,
and `x op= v` and `path.x op= v` into assignments. What the operands do is left open: an
operand may read a variable, run a method, throw or change the state. The source-level
meaning evaluates the left operand, then the right one, and then performs the operation;
a path before `op=` is evaluated once. An operator takes its argument by value or by
name, as `&&` and `||` do.

The tree agrees with that for every meaning of the operation exactly when three kinds of
evaluation commute: a name on the left of a right-associative operator may be read after
the right operand, the path before `op=` may be evaluated twice, and the temporary of a
right-associative operator is not seen by the operands. The last one can fail because a
backquoted identifier may spell the temporary.
-/

namespace ProtoScala.Frontend.Operators

open ProtoScala.Frontend.Syntax
open ProtoScala.Library.Completions
open ProtoScala.Library.Completions.Run

set_option autoImplicit false

/-! ## The desugarer -/

/-- A desugared operand: the kinds that `infix` tells apart. -/
inductive Operand (E : Type) where
  | ident (name : String)
  | literal (value : Literal)
  | select (qualifier : Operand E) (name : String)
  | other (expr : E)

/-- What `infix` builds. `block` is `{ val temp = rhs; body }`. -/
inductive Tree (E : Type) where
  | operand (operand : Operand E)
  | select (qualifier : Tree E) (name : String)
  | apply (fn arg : Tree E)
  | assign (name : String) (value : Tree E)
  | block (temp : String) (rhs body : Tree E)

/-- The byte 0x80 and above start a letter of more than one byte. -/
def isLetterStart (c : Char) : Bool :=
  c.isAlpha || c = '_' || c = '$' || 0x80 ≤ c.toNat

def isAssignmentOperator (op : String) : Bool :=
  2 ≤ op.toList.length && op.toList.getLast? = some '=' && op.toList.head? ≠ some '=' &&
    !(op = "<=" || op = ">=" || op = "!=") &&
    op.toList.all fun c => !(isLetterStart c || c.isDigit)

def isRightAssociative (op : String) : Bool :=
  op.toList.getLast? = some ':'

variable {E : Type}

/-- A receiver that can be evaluated twice safely. -/
def isSimplePath : Operand E → Bool
  | .ident _ => true
  | .select qualifier _ => isSimplePath qualifier
  | _ => false

def call (receiver : Tree E) (name : String) (arg : Tree E) : Tree E :=
  .apply (.select receiver name) arg

/-- The operator without its `=`. -/
def baseOperator (op : String) : String := String.ofList op.toList.dropLast

def setterName (name : String) : String := name ++ "_="

def temporary (counter : Nat) : String := "<ra" ++ toString counter ++ ">"

/-- A left operand of a right-associative operator that needs no temporary. -/
def isSimpleOperand : Operand E → Bool
  | .ident _ => true
  | .literal value => value ≠ .unit
  | _ => false

/-- `Desugarer::infix`. `counter` numbers the temporaries. -/
def infixApply (counter : Nat) (lhs : Operand E) (op : String) (rhs : Operand E) : Tree E × Nat :=
  if isAssignmentOperator op then
    match lhs with
    | .ident name =>
        (.assign name (call (.operand lhs) (baseOperator op) (.operand rhs)), counter)
    | .select qualifier name =>
        if isSimplePath qualifier then
          (call (.operand qualifier) (setterName name)
            (call (.operand lhs) (baseOperator op) (.operand rhs)), counter)
        else (call (.operand lhs) op (.operand rhs), counter)
    | _ => (call (.operand lhs) op (.operand rhs), counter)
  else if !isRightAssociative op then (call (.operand lhs) op (.operand rhs), counter)
  else if isSimpleOperand lhs then (call (.operand rhs) op (.operand lhs), counter)
  else
    (.block (temporary counter) (.operand lhs)
      (call (.operand rhs) op (.operand (.ident (temporary counter)))), counter + 1)

/-! ## What operands and operations do -/

/-- An argument as the operation gets it: evaluated, or still to be evaluated by it. -/
inductive Passed (V σ : Type) where
  | value (value : V)
  | delayed (code : Run σ V V V)

/-- What the names and the operands of an expression do. `byName` tells which operations
take their argument by name. -/
structure Operands (E V Env σ : Type) where
  literal : Literal → V
  name : String → Env → Run σ V V V
  member : String → V → Run σ V V V
  other : E → Env → Run σ V V V
  byName : Operand E → String → Bool
  /-- The scope of a definition before it is initialised. -/
  declare : String → Env → Env
  initialise : String → V → Env → Env
  initialised : ∀ temp value env, name temp (initialise temp value env) = pure value

/-- The operations: a call `receiver.op(arg)` and an assignment to a name. -/
structure Operations (V Env σ : Type) where
  invoke : String → V → Passed V σ → Run σ V V V
  store : String → V → Env → Run σ V V V

variable {V Env σ : Type}

def pass (byName : Bool) (code : Run σ V V V) : Run σ V V (Passed V σ) :=
  if byName then pure (.delayed code) else .value <$> code

/-- An argument that has its value before it is passed. -/
def settled (byName : Bool) (value : V) : Passed V σ :=
  if byName then .delayed (pure value) else .value value

variable (operands : Operands E V Env σ) (operations : Operations V Env σ)

def evalOperand : Operand E → Env → Run σ V V V
  | .ident name, env => operands.name name env
  | .literal value, _ => pure (operands.literal value)
  | .select qualifier name, env => evalOperand qualifier env >>= operands.member name
  | .other expr, env => operands.other expr env

def byNameOf : Tree E → String → Bool
  | .operand operand, name => operands.byName operand name
  | _, _ => false

/-- The tree runs as its compiled code does; `infixApply` applies nothing but members. -/
def evaluate : Tree E → Env → Run σ V V V
  | .operand operand, env => evalOperand operands operand env
  | .select qualifier name, env => evaluate qualifier env >>= operands.member name
  | .apply (.select receiver name) arg, env => do
      let target ← evaluate receiver env
      let passed ← pass (byNameOf operands receiver name) (evaluate arg env)
      operations.invoke name target passed
  | .apply _ _, _ => refuse
  | .assign name value, env => do
      let stored ← evaluate value env
      operations.store name stored env
  | .block temp rhs body, env => do
      let value ← evaluate rhs (operands.declare temp env)
      evaluate body (operands.initialise temp value (operands.declare temp env))

section

attribute [local simp] evaluate

end

/-! ## The source-level meaning -/

/-- `receiver op arg`, the receiver having been evaluated. -/
def operate (receiver : Operand E) (op : String) (arg : Operand E) (env : Env) (target : V) :
    Run σ V V V := do
  let passed ← pass (operands.byName receiver op) (evalOperand operands arg env)
  operations.invoke op target passed

def leftMeaning (lhs : Operand E) (op : String) (rhs : Operand E) (env : Env) :
    Run σ V V V := do
  let target ← evalOperand operands lhs env
  operate operands operations lhs op rhs env target

/-- The new value of `path.x` in `path.x op= v`, the path having been evaluated. -/
def updated (qualifier : Operand E) (name op : String) (rhs : Operand E) (env : Env)
    (owner : V) : Run σ V V V := do
  let current ← operands.member name owner
  operate operands operations (.select qualifier name) (baseOperator op) rhs env current

def sourceMeaning (lhs : Operand E) (op : String) (rhs : Operand E) (env : Env) :
    Run σ V V V :=
  if isAssignmentOperator op then
    match lhs with
    | .ident name => do
        let result ← leftMeaning operands operations lhs (baseOperator op) rhs env
        operations.store name result env
    | .select qualifier name =>
        if isSimplePath qualifier then do
          let owner ← evalOperand operands qualifier env
          let passed ← pass (operands.byName qualifier (setterName name))
            (updated operands operations qualifier name op rhs env owner)
          operations.invoke (setterName name) owner passed
        else leftMeaning operands operations lhs op rhs env
    | _ => leftMeaning operands operations lhs op rhs env
  else if !isRightAssociative op then leftMeaning operands operations lhs op rhs env
  else do
    let value ← evalOperand operands lhs env
    let target ← evalOperand operands rhs env
    operations.invoke op target (settled (operands.byName rhs op) value)

/-! ## When the tree keeps the order -/

section Orders

variable (lhs : Operand E) (op : String) (rhs : Operand E) (env : Env)

/-- The operands of a right-associative operator, the left one first. -/
def leftFirst : Run σ V V (V × Passed V σ) := do
  let value ← evalOperand operands lhs env
  let target ← evalOperand operands rhs env
  pure (target, settled (operands.byName rhs op) value)

/-- The same with the left operand as the argument of a call on the right one. -/
def rightFirst : Run σ V V (V × Passed V σ) := do
  let target ← evalOperand operands rhs env
  let passed ← pass (operands.byName rhs op) (evalOperand operands lhs env)
  pure (target, passed)

/-- The operands in the scope of the temporary that holds the left one. -/
def throughTemporary (temp : String) : Run σ V V (V × Passed V σ) := do
  let value ← evalOperand operands lhs (operands.declare temp env)
  let target ← evalOperand operands rhs
    (operands.initialise temp value (operands.declare temp env))
  pure (target, settled (operands.byName rhs op) value)

/-- The member before `op=` and the argument of the operator. -/
def memberAndArgument (qualifier : Operand E) (name : String) (owner : V) :
    Run σ V V (V × Passed V σ) := do
  let current ← operands.member name owner
  let passed ← pass (operands.byName (.select qualifier name) (baseOperator op))
    (evalOperand operands rhs env)
  pure (current, passed)

/-- The owner that gets the new value and the operands of the operator, where the path is
evaluated again for the member. -/
def pathTwice (qualifier : Operand E) (name : String) : Run σ V V (V × V × Passed V σ) := do
  let owner ← evalOperand operands qualifier env
  let again ← evalOperand operands qualifier env
  (owner, ·) <$> memberAndArgument operands op rhs env qualifier name again

def pathOnce (qualifier : Operand E) (name : String) : Run σ V V (V × V × Passed V σ) := do
  let owner ← evalOperand operands qualifier env
  (owner, ·) <$> memberAndArgument operands op rhs env qualifier name owner

/-- A setter that takes its argument by name evaluates the path itself. -/
def PathRepeats (qualifier : Operand E) (name : String) : Prop :=
  if operands.byName qualifier (setterName name) then
    ∀ owner state after,
      evalOperand operands qualifier env state = some (.value owner, after) →
        (evalOperand operands qualifier env >>= fun again =>
          memberAndArgument operands op rhs env qualifier name again) =
        memberAndArgument operands op rhs env qualifier name owner
  else pathTwice operands op rhs env qualifier name = pathOnce operands op rhs env qualifier name

def InOrder (counter : Nat) : Prop :=
  if isAssignmentOperator op then
    match lhs with
    | .select qualifier name =>
        isSimplePath qualifier = true → PathRepeats operands op rhs env qualifier name
    | _ => True
  else if !isRightAssociative op then True
  else if isSimpleOperand lhs then
    rightFirst operands lhs op rhs env = leftFirst operands lhs op rhs env
  else
    throughTemporary operands lhs op rhs env (temporary counter) =
      leftFirst operands lhs op rhs env

end Orders

/-! ## The tree against the source -/

theorem pass_pure (byName : Bool) (value : V) :
    pass byName (pure value : Run σ V V V) = pure (settled byName value) := by
  cases byName <;> rfl

theorem evaluate_call (receiver : Operand E) (name : String) (arg : Tree E) (env : Env) :
    evaluate operands operations (call (.operand receiver) name arg) env =
      evalOperand operands receiver env >>= fun target =>
        pass (operands.byName receiver name) (evaluate operands operations arg env) >>=
          operations.invoke name target := by
  simp [call, evaluate, byNameOf]

theorem evaluate_left (lhs : Operand E) (op : String) (rhs : Operand E) (env : Env) :
    evaluate operands operations (call (.operand lhs) op (.operand rhs)) env =
      leftMeaning operands operations lhs op rhs env := by
  simp [evaluate_call, evaluate, leftMeaning, operate]

/-- The calls of one operator, and of nothing else, are answered by `next`. -/
def answering (next : V × Passed V σ → Run σ V V V) : Operations V Env σ where
  invoke _ target passed := next (target, passed)
  store _ _ _ := refuse

/-- Runs that every operation continues alike are the same. -/
theorem invoke_iff [Nonempty V] (op : String) (first second : Run σ V V (V × Passed V σ)) :
    (∀ operations : Operations V Env σ,
      (first >>= fun given => operations.invoke op given.1 given.2) =
        second >>= fun given => operations.invoke op given.1 given.2) ↔ first = second := by
  constructor
  · intro same
    exact eq_of_bind_eq fun next => same (answering next)
  · intro same operations
    rw [same]

theorem evaluate_right (lhs : Operand E) (op : String) (rhs : Operand E) (env : Env) :
    evaluate operands operations (call (.operand rhs) op (.operand lhs)) env =
      rightFirst operands lhs op rhs env >>= fun given =>
        operations.invoke op given.1 given.2 := by
  simp [evaluate_call, evaluate, rightFirst]

theorem evaluate_temporary (temp : String) (lhs : Operand E) (op : String) (rhs : Operand E)
    (env : Env) :
    evaluate operands operations
        (.block temp (.operand lhs) (call (.operand rhs) op (.operand (.ident temp)))) env =
      throughTemporary operands lhs op rhs env temp >>= fun given =>
        operations.invoke op given.1 given.2 := by
  simp [evaluate, evaluate_call, evalOperand, throughTemporary, operands.initialised, pass_pure]

/-! ### Assignment through a path -/

theorem base_ne_setter (op name : String) (assigns : isAssignmentOperator op = true) :
    baseOperator op ≠ setterName name := by
  intro same
  have underscore : '_' ∈ (setterName name).toList := by simp [setterName]
  rw [← same, baseOperator, String.toList_ofList] at underscore
  have letter := List.dropLast_subset _ underscore
  simp only [isAssignmentOperator, Bool.and_eq_true, List.all_eq_true] at assigns
  have plain := assigns.2 '_' letter
  simp [isLetterStart] at plain

section Path

variable (qualifier : Operand E) (name op : String) (rhs : Operand E) (env : Env)

/-- The code of the new value, where the path is evaluated again. -/
def updatedAgain : Run σ V V V :=
  (evalOperand operands qualifier env >>= fun again =>
    memberAndArgument operands op rhs env qualifier name again) >>= fun given =>
      operations.invoke (baseOperator op) given.1 given.2

theorem updated_given (owner : V) :
    updated operands operations qualifier name op rhs env owner =
      memberAndArgument operands op rhs env qualifier name owner >>= fun given =>
        operations.invoke (baseOperator op) given.1 given.2 := by
  simp [updated, operate, memberAndArgument]

theorem evaluate_path :
    evaluate operands operations
        (call (.operand qualifier) (setterName name)
          (call (.operand (.select qualifier name)) (baseOperator op) (.operand rhs))) env =
      evalOperand operands qualifier env >>= fun owner =>
        pass (operands.byName qualifier (setterName name))
          (updatedAgain operands operations qualifier name op rhs env) >>=
            operations.invoke (setterName name) owner := by
  simp [evaluate_call, evaluate, evalOperand, updatedAgain, memberAndArgument]

/-- What follows the operands of `path.x op= v`: the operator and then the setter. -/
def update (given : V × V × Passed V σ) : Run σ V V V := do
  let result ← operations.invoke (baseOperator op) given.2.1 given.2.2
  operations.invoke (setterName name) given.1 (.value result)

theorem evaluate_path_value (strict : operands.byName qualifier (setterName name) = false) :
    evaluate operands operations
        (call (.operand qualifier) (setterName name)
          (call (.operand (.select qualifier name)) (baseOperator op) (.operand rhs))) env =
      pathTwice operands op rhs env qualifier name >>= update operations name op := by
  rw [evaluate_path, strict]
  simp [pass, updatedAgain, pathTwice, update]

theorem source_path_value (strict : operands.byName qualifier (setterName name) = false)
    (assigns : isAssignmentOperator op = true) (simple : isSimplePath qualifier = true) :
    sourceMeaning operands operations (.select qualifier name) op rhs env =
      pathOnce operands op rhs env qualifier name >>= update operations name op := by
  unfold sourceMeaning
  simp [assigns, simple, strict, pass, updated_given, pathOnce, update]

/-- The operator and the setter are answered apart. -/
def answeringPath (operator : V × Passed V σ → Run σ V V V) (setter : V → Passed V σ → Run σ V V V) :
    Operations V Env σ where
  invoke called target passed :=
    if called = baseOperator op then operator (target, passed) else setter target passed
  store _ _ _ := refuse

theorem update_answering (assigns : isAssignmentOperator op = true)
    (operator : V × Passed V σ → Run σ V V V) (setter : V → Passed V σ → Run σ V V V) :
    update (answeringPath op operator setter : Operations V Env σ) name op = fun given =>
      operator given.2 >>= fun result => setter given.1 (.value result) := by
  funext given
  simp [update, answeringPath, (base_ne_setter op name assigns).symm]

/-- Whether the path was evaluated once is known from how operators and setters end. -/
theorem path_operands_eq [Nonempty V] (assigns : isAssignmentOperator op = true)
    (first second : Run σ V V (V × V × Passed V σ))
    (same : ∀ operations : Operations V Env σ,
      first >>= update operations name op = second >>= update operations name op) :
    first = second := by
  refine eq_of_map_eq first second ?_ ?_
  · refine eq_of_bind_eq fun (next : V → Run σ V V V) => ?_
    have answered := same (answeringPath op (fun given => pure given.1) fun owner _ => next owner)
    simpa [update_answering, assigns] using answered
  · refine eq_of_bind_eq fun (next : V × Passed V σ → Run σ V V V) => ?_
    have answered := same (answeringPath op next fun _ passed =>
      match passed with
      | .value result => pure result
      | .delayed code => code)
    simpa [update_answering, assigns] using answered

/-- A setter that starts its delayed argument in a state of its own. -/
def startingAt (start : σ) : V → Passed V σ → Run σ V V V
  | _, .value result => pure result
  | _, .delayed code => fun _ => code start

theorem path_by_name_iff [Nonempty V] (assigns : isAssignmentOperator op = true)
    (simple : isSimplePath qualifier = true)
    (delays : operands.byName qualifier (setterName name) = true) :
    (∀ operations : Operations V Env σ,
      evaluate operands operations
          (call (.operand qualifier) (setterName name)
            (call (.operand (.select qualifier name)) (baseOperator op) (.operand rhs))) env =
        sourceMeaning operands operations (.select qualifier name) op rhs env) ↔
      ∀ owner state after,
        evalOperand operands qualifier env state = some (.value owner, after) →
          (evalOperand operands qualifier env >>= fun again =>
            memberAndArgument operands op rhs env qualifier name again) =
          memberAndArgument operands op rhs env qualifier name owner := by
  have distinct := (base_ne_setter op name assigns).symm
  unfold sourceMeaning
  simp only [evaluate_path, assigns, simple, delays, if_true, pass, pure_bind]
  constructor
  · intro same owner state after reached
    refine eq_of_bind_eq fun (next : V × Passed V σ → Run σ V V V) => ?_
    funext start
    have answered := congrFun (same (answeringPath op next (startingAt start))) state
    simp only [bind_apply, reached, Option.bind_some, follow, answeringPath, distinct,
      startingAt] at answered
    simpa [updatedAgain, updated_given] using answered
  · intro repeats operations
    refine bind_congr_reached _ _ _ fun owner state after reached => ?_
    rw [updatedAgain, updated_given, repeats owner state after reached]

theorem path_iff [Nonempty V] (assigns : isAssignmentOperator op = true)
    (simple : isSimplePath qualifier = true) :
    (∀ operations : Operations V Env σ,
      evaluate operands operations
          (call (.operand qualifier) (setterName name)
            (call (.operand (.select qualifier name)) (baseOperator op) (.operand rhs))) env =
        sourceMeaning operands operations (.select qualifier name) op rhs env) ↔
      PathRepeats operands op rhs env qualifier name := by
  unfold PathRepeats
  cases delays : operands.byName qualifier (setterName name) with
  | true =>
      rw [if_pos rfl]
      exact path_by_name_iff operands qualifier name op rhs env assigns simple delays
  | false =>
      rw [if_neg Bool.false_ne_true]
      simp only [evaluate_path_value operands _ qualifier name op rhs env delays,
        source_path_value operands _ qualifier name op rhs env delays assigns simple]
      constructor
      · exact path_operands_eq name op assigns _ _
      · intro same operations
        rw [same]

end Path

/-- The tree has the source-level meaning for every meaning of the operations exactly when
it keeps the order of evaluation. -/
theorem infix_meaning_iff (counter : Nat) (lhs : Operand E) (op : String) (rhs : Operand E)
    (env : Env) :
    (∀ operations : Operations V Env σ,
      evaluate operands operations (infixApply counter lhs op rhs).1 env =
        sourceMeaning operands operations lhs op rhs env) ↔
      InOrder operands lhs op rhs env counter := by
  have : Nonempty V := ⟨operands.literal .null⟩
  unfold InOrder infixApply
  cases assigns : isAssignmentOperator op with
  | true =>
      simp only [if_true]
      cases lhs with
      | ident name =>
          unfold sourceMeaning
          simp [evaluate, evaluate_left, assigns]
      | literal value =>
          unfold sourceMeaning
          simp [evaluate_left, assigns]
      | other expr =>
          unfold sourceMeaning
          simp [evaluate_left, assigns]
      | select qualifier name =>
          cases simple : isSimplePath qualifier with
          | true =>
              simp only [simple, if_true, forall_const]
              exact path_iff operands qualifier name op rhs env assigns simple
          | false =>
              unfold sourceMeaning
              simp [evaluate_left, assigns, simple]
  | false =>
      cases right : isRightAssociative op with
      | false =>
          unfold sourceMeaning
          simp [evaluate_left, assigns, right]
      | true =>
          have source : ∀ operations : Operations V Env σ,
              sourceMeaning operands operations lhs op rhs env =
                leftFirst operands lhs op rhs env >>= fun given =>
                  operations.invoke op given.1 given.2 := by
            intro operations
            unfold sourceMeaning
            simp [assigns, right, leftFirst]
          cases simple : isSimpleOperand lhs with
          | true =>
              simp only [Bool.false_eq_true, if_false, Bool.not_true, if_true, evaluate_right,
                source]
              exact invoke_iff op _ _
          | false =>
              simp only [Bool.false_eq_true, if_false, Bool.not_true, evaluate_temporary,
                source]
              exact invoke_iff op _ _

/-! ### An operand that changes a variable -/

/-- The state is a variable `x`. Names in the environment are local; any other name but
`x` is a method, which adds one to the variable as every other expression does. -/
def counting : Operands Unit Int (String → Option Int) Int where
  literal
    | .int value => value
    | _ => 0
  name name env :=
    match env name with
    | some value => pure value
    | none => fun state => some (.value state, if name = "x" then state else state + 1)
  member _ value := pure value
  other _ _ := fun state => some (.value 0, state + 1)
  byName _ _ := false
  declare _ env := env
  initialise name value env := fun other => if other = name then some value else env other
  initialised _ _ _ := by simp

/-- Every operation yields its argument. -/
def lastOperand : Operations Int (String → Option Int) Int where
  invoke _ _
    | .value value => pure value
    | .delayed code => code
  store _ value _ := pure value

/-- `x +: { x = x + 1; 0 }` reads the changed variable. -/
theorem left_name_read_late :
    ¬ ∀ operations, evaluate counting operations
        (infixApply 0 (.ident "x") "+:" (.other ())).1 (fun _ => none) =
      sourceMeaning counting operations (.ident "x") "+:" (.other ()) fun _ => none := by
  intro same
  have read := congrFun (same lastOperand) 5
  have assigns : isAssignmentOperator "+:" = false := by decide
  have right : isRightAssociative "+:" = true := by decide
  have generated : evaluate counting lastOperand
      (call (.operand (.other ())) "+:" (.operand (.ident "x"))) (fun _ => none) 5 =
        some (.value 6, 6) := rfl
  unfold infixApply sourceMeaning at read
  simp only [assigns, right, isSimpleOperand, Bool.false_eq_true, if_false, Bool.not_true,
    if_true] at read
  rw [generated] at read
  cases read

/-- `c.y += 1`, where `c` is a method that counts, counts twice. -/
example : ¬ InOrder counting (.select (.ident "c") "y") "+=" (.literal (.int 1))
    (fun _ => none) 0 := by
  have assigns : isAssignmentOperator "+=" = true := by decide
  intro ordered
  unfold InOrder PathRepeats at ordered
  simp only [assigns, if_true, isSimplePath, forall_const] at ordered
  have counted := congrFun ordered 5
  cases counted

/-- A backquoted name may spell the temporary, which then hides it. -/
example : ¬ InOrder counting (.other ()) "+:" (.ident (temporary 0)) (fun _ => some 7) 0 := by
  have assigns : isAssignmentOperator "+:" = false := by decide
  have right : isRightAssociative "+:" = true := by decide
  intro ordered
  unfold InOrder at ordered
  simp only [assigns, right, isSimpleOperand, Bool.false_eq_true, if_false,
    Bool.not_true] at ordered
  have hidden := congrFun ordered 5
  cases hidden

/-! ## Operands that keep the order -/

section Stable

variable (lhs : Operand E) (op : String) (rhs : Operand E) (env : Env)

/-- A literal, and a name that stands for a stored value, may be read at any time. -/
theorem stable_right_first (value : V) (stable : evalOperand operands lhs env = pure value) :
    rightFirst operands lhs op rhs env = leftFirst operands lhs op rhs env := by
  simp [rightFirst, leftFirst, stable, pass_pure]

theorem literal_right_first (value : Literal) :
    rightFirst operands (.literal value) op rhs env =
      leftFirst operands (.literal value) op rhs env :=
  stable_right_first operands _ op rhs env (operands.literal value) rfl

theorem stable_path_repeats (qualifier : Operand E) (name : String) (owner : V)
    (stable : evalOperand operands qualifier env = pure owner) :
    PathRepeats operands op rhs env qualifier name := by
  unfold PathRepeats
  split
  · intro other state after reached
    rw [stable] at reached ⊢
    cases reached
    rfl
  · simp [pathTwice, pathOnce, stable]

theorem unseen_temporary (temp : String)
    (left : evalOperand operands lhs (operands.declare temp env) = evalOperand operands lhs env)
    (right : ∀ value, evalOperand operands rhs
      (operands.initialise temp value (operands.declare temp env)) =
        evalOperand operands rhs env) :
    throughTemporary operands lhs op rhs env temp = leftFirst operands lhs op rhs env := by
  simp [throughTemporary, leftFirst, left, right]

end Stable

end ProtoScala.Frontend.Operators
