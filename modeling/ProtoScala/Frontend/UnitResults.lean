import ProtoScala.Frontend.UnitDefs

/-!
# What a call of a `Unit` def yields

A call of a def declared `: Unit` ends normally with `()` exactly when every return
whose expression the rewriting keeps returns `()`, and so does the body when it is one
that `yieldsUnit`. A setter that a class overrides with a result other than `()` breaks
the second kind; a `return` in the hole of an interpolated string is never rewritten.
-/

namespace ProtoScala.Frontend.UnitResults

open ProtoScala.Frontend.Syntax
open ProtoScala.Frontend.Evaluation
open ProtoScala.Frontend.UnitDefs
open ProtoScala.Library.Completions
open ProtoScala.Library.Completions.Run

set_option autoImplicit false

variable {V Env σ : Type} (program : Program V Env σ) (fuel : Nat)

/-! ## Calling a def with all its parameter lists -/

def peeled : Optional → Optional
  | .some (.lambda _ body _ _) => body
  | _ => .none

/-- The body that runs once a def has its first parameter list and `further` more. -/
def entered : Nat → Optional → Optional
  | 0, body => body
  | further + 1, body => peeled (entered further body)

theorem entered_curriedBody (lists : List Params) (body : Optional) (innermost : Bool) :
    entered lists.length (curriedBody body innermost lists) = body := by
  induction lists generalizing body innermost with
  | nil => rfl
  | cons params outer ih =>
      simp only [List.length_cons, curriedBody, entered]
      rw [ih, peeled]

/-- How a call ends: a `return` ends it with its value. -/
def ended : Completion (V × Bool) V V × σ → Except V V × σ
  | (.value result, state) => (.ok result, state)
  | (.returned (result, _), state) => (.ok result, state)
  | (.threw exception, state) => (.error exception, state)

/-- A call of a def with `lists` parameter lists, all of them given. -/
def call (definition : DefDef) (lists : Nat) (env : Env) : Primitive σ V V := fun state =>
  match entered (lists - 1) definition.body with
  | .none => none
  | .some body => (eval program fuel false body env state).map ended

theorem entered_defDef (definition : DefDef) :
    entered (definition.paramLists.toList.length - 1) (defDef definition).body =
      rewrittenBody definition.resultType definition.body := by
  obtain ⟨name, annotations, paramLists, resultType, body, curried⟩ := definition
  have lists : paramLists.toList.length - 1 = (paramLists.toList.drop 1).reverse.length := by
    simp
  simp only [defDef, DefDef.body, DefDef.paramLists, DefDef.resultType, lists]
  exact entered_curriedBody _ _ _

/-! ## The rewritten body -/

theorem eval_rewritten (body : Node) (env : Env) :
    eval program fuel false body.discardReturnValues env =
      mapReturn (settle program) (eval program fuel false body env) := by
  simp [eval, refer_rewritten]

/-- The value a call of the rewritten def ends with, read off a run of the body as it
was written. -/
def rewrittenEnd (kept : Bool) :
    Completion (V × Bool) V V × σ → Except V V × σ
  | (.value result, state) => (.ok (if kept then result else program.literal .unit), state)
  | (.returned returned, state) => (.ok (settle program returned).1, state)
  | (.threw exception, state) => (.error exception, state)

theorem call_rewritten (definition : DefDef) (body : Node) (env : Env) (state : σ)
    (declared : isUnitType definition.resultType = true)
    (defined : definition.body = .some body) :
    call program fuel (defDef definition) definition.paramLists.toList.length env state =
      (eval program fuel false body env state).map (rewrittenEnd program body.yieldsUnit) := by
  unfold call
  rw [entered_defDef, defined]
  simp only [rewrittenBody, declared, if_true]
  rw [eval_discardValue, eval_rewritten, discard_yieldsUnit]
  cases body.yieldsUnit with
  | true =>
      simp only [if_true, mapReturn, Option.map_map]
      congr 1
      funext ending
      obtain ⟨_ | _ | _, _⟩ := ending <;> rfl
  | false =>
      simp only [Bool.false_eq_true, if_false, bind_apply, mapReturn]
      cases eval program fuel false body env state with
      | none => rfl
      | some ending => obtain ⟨_ | _ | _, _⟩ := ending <;> rfl

/-- Every call of the def as the desugarer leaves it that ends normally ends with `()`. -/
def YieldsUnit (definition : DefDef) (env : Env) : Prop :=
  ∀ fuel state result after,
    call program fuel (defDef definition) definition.paramLists.toList.length env state =
      some (.ok result, after) → result = program.literal .unit

/-- What a run of the body as written must not do: return another value by a kept
return, or end with another value when it is one that `yieldsUnit`. -/
structure KeepsUnit (body : Node) (env : Env) : Prop where
  returned : ∀ fuel state result after,
    eval program fuel false body env state = some (.returned (result, true), after) →
      result = program.literal .unit
  value : body.yieldsUnit = true → ∀ fuel state result after,
    eval program fuel false body env state = some (.value result, after) →
      result = program.literal .unit

section Rewritten

variable {program} {definition : DefDef} {body : Node} {env : Env}
variable (declared : isUnitType definition.resultType = true)
variable (defined : definition.body = .some body)
include declared defined

theorem keeps_of_yields (holds : YieldsUnit program definition env) :
    KeepsUnit program body env := by
  have rewritten := fun fuel state =>
    call_rewritten program fuel definition body env state declared defined
  refine ⟨fun fuel state result after returns => ?_, fun kept fuel state result after ends => ?_⟩
  · refine holds fuel state result after ?_
    rw [rewritten, returns]
    rfl
  · refine holds fuel state result after ?_
    rw [rewritten, ends, kept]
    rfl

theorem yields_of_keeps (keeps : KeepsUnit program body env) :
    YieldsUnit program definition env := by
  intro fuel state result after ends
  rw [call_rewritten program fuel definition body env state declared defined] at ends
  cases run : eval program fuel false body env state with
  | none => simp [run] at ends
  | some ending =>
      rw [run] at ends
      obtain ⟨value | ⟨returned, kept⟩ | exception, last⟩ := ending
      · cases kept : body.yieldsUnit <;>
          simp only [kept, rewrittenEnd, Option.map_some, Option.some.injEq, Prod.mk.injEq,
            Except.ok.injEq] at ends
        · simpa using ends.1.symm
        · obtain ⟨rfl, rfl⟩ := ends
          exact keeps.value kept fuel state value last run
      · cases kept <;>
          simp only [rewrittenEnd, settle, Option.map_some, Option.some.injEq, Prod.mk.injEq,
            Except.ok.injEq] at ends
        · exact ends.1.symm
        · obtain ⟨rfl, rfl⟩ := ends
          exact keeps.returned fuel state returned last run
      · simp [rewrittenEnd] at ends

end Rewritten

/-- Calls of the def yield `()` exactly when the body as written keeps it. -/
theorem unit_def_yields_unit_iff (definition : DefDef) (body : Node) (env : Env)
    (declared : isUnitType definition.resultType = true)
    (defined : definition.body = .some body) :
    YieldsUnit program definition env ↔ KeepsUnit program body env :=
  ⟨keeps_of_yields declared defined, yields_of_keeps declared defined⟩

/-! ### A small program -/

inductive SmallValue where
  | unit
  | bool (value : Bool)
  | int (value : Int)
  | text (value : String)
  deriving DecidableEq

def smallLiteral : Literal → SmallValue
  | .int value => .int value
  | .float text => .text text
  | .string value => .text value
  | .char value => .int value.toNat
  | .bool value => .bool value
  | .null | .unit => .unit

/-- Names and calls have the value `()`; the setter of a variable yields `stored`. -/
def smallProgram (stored : SmallValue) : Program SmallValue Unit Unit where
  literal := smallLiteral
  named _ _ := false
  read _ _ state := some (.ok .unit, state)
  send _ _ _ state := some (.ok .unit, state)
  typeTest _ _ _ _ state := some (.ok (.bool false), state)
  callee _ skeleton state := some (.ok (.named skeleton), state)
  byName _ _ _ := false
  call _ _ _ state := some (.ok .unit, state)
  byNameNew _ _ _ := false
  construct _ _ _ state := some (.ok .unit, state)
  test value state := some (.ok (value = .bool true), state)
  assign _ _ _ state := some (.ok stored, state)
  closure _ _ _ := .unit
  thunk _ _ := .unit
  enter env _ state := some (.ok env, state)
  define env _ _ state := some (.ok env, state)
  tuple _ state := some (.ok .unit, state)
  interpolate _ _ _ _ state := some (.ok (.text ""), state)
  fits env _ _ state := some (.ok (some env), state)
  noMatch value state := some (.error value, state)
  raise value state := some (.error value, state)

/-- `def f(): Unit = body`. -/
def smallUnitDef (body : Node) : DefDef :=
  .mk "f" [] (.cons .nil .nil) (some (.mk .name "Unit" [])) (.some body) false

/-- `println(s"${return 5}")`. -/
def returnInHole : Node :=
  .apply (.ident "println")
    (.plain (.interpString "s" ["", ""] (.cons (.ret (.some (.literal (.int 5)))) .nil) [""]) .nil)

theorem return_in_hole_yields_five :
    ¬ YieldsUnit (smallProgram .unit) (smallUnitDef returnInHole) () := by
  intro holds
  have five := holds 0 () (.int 5) () rfl
  cases five

/-- `{ println(); return 5 }` yields `()`. -/
theorem plain_return_yields_unit :
    YieldsUnit (smallProgram .unit)
      (smallUnitDef (.block (.expr (.apply (.ident "println") .nil)
        (.expr (.ret (.some (.literal (.int 5)))) .nil)))) () := by
  refine (unit_def_yields_unit_iff _ _ _ () rfl rfl).mpr ⟨?_, ?_⟩
  · intro fuel state result after returns
    cases returns
  · intro _ fuel state result after ends
    cases ends

/-- `x = 1`, where the setter of `x` is overridden to yield 42. -/
example : ¬ YieldsUnit (smallProgram (.int 42))
    (smallUnitDef (.assign (.ident "x") (.literal (.int 1)))) () := by
  intro holds
  have overridden := holds 0 () (.int 42) () rfl
  cases overridden

/-! ## Setters that yield `()` -/

/-- No assignment to a variable or through a setter has another value than `()`. -/
def SettersYieldUnit : Prop :=
  ∀ env name value state result after,
    program.assign env name value state = some (.ok result, after) →
      result = program.literal .unit

variable {program}

theorem yields_assign (setters : SettersYieldUnit program) (env : Env) (name : String) (value : V) :
    Yields (fun result => result = program.literal .unit)
      (lift (program.assign env name value) : Code V σ V) := by
  intro state result after done
  unfold lift at done
  cases stored : program.assign env name value state with
  | none => simp [stored] at done
  | some ending =>
      obtain ⟨_ | reached, last⟩ := ending <;> simp [stored, lifted] at done
      exact done.1 ▸ setters env name value state reached last stored

mutual

/-- An expression that `yieldsUnit` has no other value than `()`. -/
theorem refer_yieldsUnit (setters : SettersYieldUnit program) (hole : Bool) : (node : Node) → (env : Env) →
    (unit : node.yieldsUnit = true) →
    Yields (fun reference => reference = .value (program.literal .unit))
      (refer program fuel hole node env)
  | .literal value, _, unit => by
      simp only [Node.yieldsUnit, decide_eq_true_eq] at unit
      subst unit
      exact yields_pure _ rfl
  | .whileLoop .., _, _ => by
      simp only [refer]
      exact yields_bind _ _ (yields_any _) fun _ _ => yields_pure _ rfl
  | .assign target value, env, _ => by
      simp only [refer]
      cases identName target with
      | none => exact yields_refuse
      | some name =>
          refine yields_bind _ _ (yields_any _) fun reference _ => ?_
          refine yields_bind _ _ (yields_any _) fun stored _ => ?_
          exact yields_map _ _ (yields_assign setters env name stored)
            fun result unit => by rw [unit]
  | .ret _, _, _ => by
      simp only [refer]
      exact yields_bind _ _ (yields_any _) fun _ _ => yields_ret _
  | .ifElse cond thenp elsep, env, unit => by
      simp only [Node.yieldsUnit, Bool.and_eq_true] at unit
      simp only [refer]
      refine yields_bind _ _ (yields_any _) fun reference _ => ?_
      refine yields_bind _ _ (yields_any _) fun answer _ => ?_
      refine yields_bind _ _ (yields_any _) fun taken _ => ?_
      cases taken with
      | true =>
          refine yields_bind _ _ (refer_yieldsUnit setters hole thenp env unit.1.2) fun _ yields => ?_
          subst yields
          exact yields_pure _ rfl
      | false =>
          refine yields_bind _ _ (evalOptional_yieldsUnit setters hole elsep env unit.1.1 unit.2)
            fun _ yields => ?_
          subst yields
          exact yields_pure _ rfl
  | .block stats, env, unit => by
      simp only [Node.yieldsUnit] at unit
      simp only [refer]
      split
      · exact yields_refuse
      · refine yields_bind _ _ (yields_any _) fun inner _ => ?_
        exact yields_map _ _ (evalStats_yieldsUnit setters hole stats inner unit)
          fun result yields => by rw [yields]
  | .interpString .., _, unit | .ident _, _, unit | .select .., _, unit
  | .apply .., _, unit | .typeApply .., _, unit | .lambda .., _, unit | .tuple _, _, unit
  | .newOf .., _, unit | .matchOn .., _, unit | .tryCatch .., _, unit | .throw _, _, unit
  | .super _, _, unit => by simp [Node.yieldsUnit] at unit

theorem evalOptional_yieldsUnit (setters : SettersYieldUnit program) (hole : Bool) : (child : Optional) → (env : Env) →
    (present : child.present = true) → (unit : child.yieldsUnit = true) →
    Yields (fun result => result = some (program.literal .unit))
      (evalOptional program fuel hole child env)
  | .none, _, present, _ => by simp [Optional.present] at present
  | .some node, env, _, unit => by
      simp only [Optional.yieldsUnit] at unit
      simp only [evalOptional]
      refine yields_bind _ _ (refer_yieldsUnit setters hole node env unit) fun _ yields => ?_
      subst yields
      exact yields_pure _ rfl

theorem evalStats_yieldsUnit (setters : SettersYieldUnit program) (hole : Bool) : (stats : Stats) → (env : Env) →
    (unit : stats.yieldsUnit = true) →
    Yields (fun result => result = program.literal .unit)
      (evalStats program fuel hole stats env)
  | .nil, _, _ => by
      simp only [evalStats]
      exact yields_pure _ rfl
  | .expr node rest, env, unit => by
      simp only [Stats.yieldsUnit] at unit
      simp only [evalStats]
      cases last : rest.isEmpty with
      | true =>
          simp only [last, if_true] at unit ⊢
          refine yields_bind _ _ (refer_yieldsUnit setters hole node env unit) fun _ yields => ?_
          subst yields
          exact yields_pure _ rfl
      | false =>
          simp only [last, Bool.false_eq_true, if_false] at unit ⊢
          refine yields_bind _ _ (yields_any _) fun reference _ => ?_
          refine yields_bind _ _ (yields_any _) fun value _ => ?_
          exact evalStats_yieldsUnit setters hole rest env unit
  | .valDef _ _ isLazy rhs rest, env, unit => by
      simp only [Stats.yieldsUnit] at unit
      simp only [evalStats]
      split
      · exact evalStats_yieldsUnit setters hole rest env unit
      · refine yields_bind _ _ (yields_any _) fun stored _ => ?_
        cases stored with
        | none => exact yields_refuse
        | some value =>
            exact yields_bind _ _ (yields_any _) fun inner _ =>
              evalStats_yieldsUnit setters hole rest inner unit
  | .defDef _ rest, env, unit | .importing _ rest, env, unit => by
      simp only [Stats.yieldsUnit] at unit
      simp only [evalStats]
      exact evalStats_yieldsUnit setters hole rest env unit
  | .typeDef _ _ rest, env, unit => by
      simp only [Stats.yieldsUnit, Bool.and_eq_true] at unit
      simp only [evalStats]
      exact evalStats_yieldsUnit setters hole rest env unit.2

end

/-! ## Returns in the holes of an interpolated string -/

mutual

/-- A `return` of the def stands in a hole. A function literal holds no return of its
def, or the def is refused. -/
def misplaced (hole : Bool) : Node → Bool
  | .literal _ | .ident _ | .super _ | .lambda .. => false
  | .ret value => hole || misplacedOptional hole value
  | .interpString _ _ args _ => misplacedNodes true args
  | .select qualifier _ => misplaced hole qualifier
  | .apply fn args => misplaced hole fn || misplacedArgs hole args
  | .typeApply fn _ => misplaced hole fn
  | .assign _ value => misplaced hole value
  | .ifElse cond thenp elsep =>
      misplaced hole cond || misplaced hole thenp || misplacedOptional hole elsep
  | .whileLoop cond body => misplaced hole cond || misplaced hole body
  | .block stats => misplacedStats hole stats
  | .tuple elems => misplacedNodes hole elems
  | .newOf _ args => misplacedArgs hole args
  | .matchOn scrutinee cases => misplaced hole scrutinee || misplacedCases hole cases
  | .tryCatch body cases finallyBody =>
      misplaced hole body || misplacedCases hole cases || misplacedOptional hole finallyBody
  | .throw value => misplaced hole value

def misplacedOptional (hole : Bool) : Optional → Bool
  | .none => false
  | .some node => misplaced hole node

def misplacedNodes (hole : Bool) : Nodes → Bool
  | .nil => false
  | .cons node rest => misplaced hole node || misplacedNodes hole rest

def misplacedArgs (hole : Bool) : Args → Bool
  | .nil => false
  | .plain arg rest | .named _ arg rest | .splice arg rest =>
      misplaced hole arg || misplacedArgs hole rest

def misplacedStats (hole : Bool) : Stats → Bool
  | .nil => false
  | .expr node rest => misplaced hole node || misplacedStats hole rest
  | .valDef _ _ _ rhs rest => misplacedOptional hole rhs || misplacedStats hole rest
  | .defDef _ rest | .importing _ rest | .typeDef _ _ rest => misplacedStats hole rest

def misplacedCases (hole : Bool) : Cases → Bool
  | .nil => false
  | .cons _ guard body rest =>
      misplacedOptional hole guard || misplaced hole body || misplacedCases hole rest

end

/-- Code whose returns cannot be changed has none. -/
theorem returns_steady {α : Type} {permitted : V × Bool → Prop} (run : Code V σ α)
    (steady : ∀ change, mapReturn change run = run) : Returns permitted run := by
  intro state result after ended
  have flipped := congrFun (steady fun returned => (returned.1, !returned.2)) state
  rw [mapReturn, ended] at flipped
  simp only [Option.map_some, changed, Option.some.injEq, Prod.mk.injEq,
    Completion.returned.injEq, and_true] at flipped
  have impossible := congrArg Prod.snd flipped
  simp at impossible

/-- A return that the rewriting keeps returns `()`. -/
def KeptUnit (program : Program V Env σ) (returned : V × Bool) : Prop :=
  returned.2 = true → returned.1 = program.literal .unit

theorem evalOptional_returned (setters : SettersYieldUnit program) (value : Optional)
    (env : Env) :
    Yields (fun result => value.yieldsUnit = true →
        result.getD (program.literal .unit) = program.literal .unit)
      (evalOptional program fuel false value env) := by
  cases value with
  | none => exact yields_pure _ fun _ => rfl
  | some node =>
      cases unit : node.yieldsUnit with
      | true =>
          intro state result after ended kept
          have same := evalOptional_yieldsUnit fuel setters false (.some node) env rfl unit
            state result after ended
          simp [same]
      | false =>
          intro state result after ended kept
          simp [Optional.yieldsUnit, unit] at kept

theorem returns_deref (env : Env) (reference : Reference V) :
    Returns (KeptUnit program) (deref program env reference) :=
  returns_steady _ fun change => mapReturn_deref program change env reference

mutual

theorem refer_keepsUnit (setters : SettersYieldUnit program) (hole : Bool) :
    (node : Node) → (env : Env) → (placed : misplaced hole node = false) →
    Returns (KeptUnit program) (refer program fuel hole node env)
  | .literal _, _, _ | .ident _, _, _ => returns_pure _
  | .super _, _, _ => returns_refuse
  | .lambda .., _, _ => by
      simp only [refer]
      exact returns_ite _ _ _ (fun _ => returns_refuse) fun _ => returns_pure _
  | .ret value, env, placed => by
      simp only [misplaced, Bool.or_eq_false_iff] at placed
      simp only [refer, placed.1, Bool.false_or]
      refine returns_bind_on _ _ (evalOptional_keepsUnit setters false value env ?_)
        (evalOptional_returned fuel setters value env) fun result unit => ?_
      · simpa [placed.1] using placed.2
      · exact returns_ret _ unit
  | .interpString _ _ args _, env, placed => by
      simp only [misplaced] at placed
      simp only [refer]
      exact returns_bind _ _ (evalAll_keepsUnit setters true args env placed) fun values =>
        returns_map _ _ (returns_lift _)
  | .select qualifier name, env, placed => by
      simp only [misplaced] at placed
      simp only [refer]
      refine returns_ite _ _ _ (fun _ => returns_pure _) fun _ => ?_
      refine returns_bind _ _ (refer_keepsUnit setters hole qualifier env placed) fun reference => ?_
      exact returns_bind _ _ (returns_deref _ _) fun receiver => returns_pure _
  | .apply fn args, env, placed => by
      simp only [misplaced, Bool.or_eq_false_iff] at placed
      simp only [refer]
      refine returns_bind _ _ (refer_keepsUnit setters hole fn env placed.1) fun reference => ?_
      refine returns_bind _ _
        (returns_steady _ fun change => mapReturn_callee program change env reference)
        fun target => ?_
      cases shortCircuit args target with
      | none =>
          refine returns_bind _ _ (evalArgs_keepsUnit setters hole args _ _ env placed.2)
            fun values => ?_
          exact returns_map _ _ (returns_lift _)
      | some left =>
          refine returns_bind _ _ (returns_lift _) fun answer => ?_
          refine returns_ite _ _ _ (fun _ => ?_) fun _ => returns_pure _
          refine returns_bind _ _ (evalArgs_keepsUnit setters hole args _ _ env placed.2)
            fun values => ?_
          exact returns_map _ _ (returns_steady _ fun change => mapReturn_soleValue change values)
  | .typeApply fn types, env, placed => by
      simp only [misplaced] at placed
      simp only [refer]
      exact returns_bind _ _ (refer_keepsUnit setters hole fn env placed) fun reference =>
        returns_pure _
  | .assign target value, env, placed => by
      simp only [misplaced] at placed
      simp only [refer]
      cases identName target with
      | none => exact returns_refuse
      | some name =>
          refine returns_bind _ _ (refer_keepsUnit setters hole value env placed)
            fun reference => ?_
          refine returns_bind _ _ (returns_deref _ _) fun stored => ?_
          exact returns_map _ _ (returns_lift _)
  | .ifElse cond thenp elsep, env, placed => by
      simp only [misplaced, Bool.or_eq_false_iff] at placed
      simp only [refer]
      refine returns_bind _ _ (refer_keepsUnit setters hole cond env placed.1.1)
        fun reference => ?_
      refine returns_bind _ _ (returns_deref _ _) fun answer => ?_
      refine returns_bind _ _ (returns_lift _) fun taken => ?_
      refine returns_ite _ _ _ (fun _ => ?_) fun _ => ?_
      · exact returns_bind _ _ (refer_keepsUnit setters hole thenp env placed.1.2)
          fun reference => returns_map _ _ (returns_deref _ _)
      · refine returns_bind _ _ (evalOptional_keepsUnit setters hole elsep env placed.2)
          fun value => ?_
        cases value with
        | none => exact returns_refuse
        | some value => exact returns_pure _
  | .whileLoop cond body, env, placed => by
      simp only [misplaced, Bool.or_eq_false_iff] at placed
      simp only [refer]
      refine returns_bind _ _ (returns_loop _ _ _ ?_ ?_) fun _ => returns_pure _
      · refine returns_bind _ _ (refer_keepsUnit setters hole cond env placed.1)
          fun reference => ?_
        exact returns_bind _ _ (returns_deref _ _) fun answer => returns_lift _
      · exact returns_bind _ _ (refer_keepsUnit setters hole body env placed.2)
          fun reference => returns_deref _ _
  | .block stats, env, placed => by
      simp only [misplaced] at placed
      simp only [refer]
      refine returns_ite _ _ _ (fun _ => returns_refuse) fun _ => ?_
      refine returns_bind _ _
        (returns_steady _ fun change => mapReturn_enterScope program change env _) fun inner => ?_
      exact returns_map _ _ (evalStats_keepsUnit setters hole stats inner placed)
  | .tuple elems, env, placed => by
      simp only [misplaced] at placed
      simp only [refer]
      exact returns_bind _ _ (evalAll_keepsUnit setters hole elems env placed) fun values =>
        returns_map _ _ (returns_lift _)
  | .newOf type args, env, placed => by
      simp only [misplaced] at placed
      simp only [refer]
      exact returns_bind _ _ (evalArgs_keepsUnit setters hole args _ _ env placed) fun values =>
        returns_map _ _ (returns_lift _)
  | .matchOn scrutinee cases, env, placed => by
      simp only [misplaced, Bool.or_eq_false_iff] at placed
      simp only [refer]
      refine returns_bind _ _ (refer_keepsUnit setters hole scrutinee env placed.1)
        fun reference => ?_
      refine returns_bind _ _ (returns_deref _ _) fun value => ?_
      exact returns_map _ _
        (evalCases_keepsUnit setters hole cases env value _ placed.2 (returns_lift _))
  | .tryCatch body cases finallyBody, env, placed => by
      simp only [misplaced, Bool.or_eq_false_iff] at placed
      simp only [refer]
      refine returns_ensure _ _ (returns_attempt _ _ ?_ fun exception => ?_)
        (evalOptional_keepsUnit setters hole finallyBody env placed.2)
      · exact returns_bind _ _ (refer_keepsUnit setters hole body env placed.1.1)
          fun reference => returns_map _ _ (returns_deref _ _)
      · exact returns_map _ _ (evalCases_keepsUnit setters hole cases env exception _
          placed.1.2 (returns_throw _))
  | .throw value, env, placed => by
      simp only [misplaced] at placed
      simp only [refer]
      refine returns_bind _ _ (refer_keepsUnit setters hole value env placed)
        fun reference => ?_
      refine returns_bind _ _ (returns_deref _ _) fun exception => ?_
      exact returns_map _ _ (returns_lift _)

theorem evalOptional_keepsUnit (setters : SettersYieldUnit program) (hole : Bool) :
    (child : Optional) → (env : Env) → (placed : misplacedOptional hole child = false) →
    Returns (KeptUnit program) (evalOptional program fuel hole child env)
  | .none, _, _ => returns_pure _
  | .some node, env, placed => by
      simp only [misplacedOptional] at placed
      simp only [evalOptional]
      exact returns_bind _ _ (refer_keepsUnit setters hole node env placed) fun reference =>
        returns_map _ _ (returns_deref _ _)

theorem evalAll_keepsUnit (setters : SettersYieldUnit program) (hole : Bool) :
    (nodes : Nodes) → (env : Env) → (placed : misplacedNodes hole nodes = false) →
    Returns (KeptUnit program) (evalAll program fuel hole nodes env)
  | .nil, _, _ => returns_pure _
  | .cons node rest, env, placed => by
      simp only [misplacedNodes, Bool.or_eq_false_iff] at placed
      simp only [evalAll]
      refine returns_bind _ _ (refer_keepsUnit setters hole node env placed.1)
        fun reference => ?_
      refine returns_bind _ _ (returns_deref _ _) fun value => ?_
      exact returns_map _ _ (evalAll_keepsUnit setters hole rest env placed.2)

theorem evalArgs_keepsUnit (setters : SettersYieldUnit program) (hole : Bool) :
    (args : Args) → (byName : Nat → Bool) → (index : Nat) → (env : Env) →
    (placed : misplacedArgs hole args = false) →
    Returns (KeptUnit program) (evalArgs program fuel hole byName index args env)
  | .nil, _, _, _, _ => returns_pure _
  | .plain arg rest, byName, index, env, placed => by
      simp only [misplacedArgs, Bool.or_eq_false_iff] at placed
      simp only [evalArgs]
      have others := evalArgs_keepsUnit setters hole rest byName (index + 1) env placed.2
      refine returns_ite _ _ _ (fun _ => ?_) fun _ => ?_
      · exact returns_bind _ _
          (returns_steady _ fun change => mapReturn_delayed program change env arg)
          fun value => returns_map _ _ others
      · refine returns_bind _ _ (refer_keepsUnit setters hole arg env placed.1)
          fun reference => ?_
        exact returns_bind _ _ (returns_deref _ _) fun value => returns_map _ _ others
  | .named _ arg rest, byName, index, env, placed | .splice arg rest, byName, index, env,
      placed => by
      simp only [misplacedArgs, Bool.or_eq_false_iff] at placed
      simp only [evalArgs]
      refine returns_bind _ _ (refer_keepsUnit setters hole arg env placed.1)
        fun reference => ?_
      refine returns_bind _ _ (returns_deref _ _) fun value => ?_
      exact returns_map _ _ (evalArgs_keepsUnit setters hole rest _ _ env placed.2)

theorem evalStats_keepsUnit (setters : SettersYieldUnit program) (hole : Bool) :
    (stats : Stats) → (env : Env) → (placed : misplacedStats hole stats = false) →
    Returns (KeptUnit program) (evalStats program fuel hole stats env)
  | .nil, _, _ => returns_pure _
  | .expr node rest, env, placed => by
      simp only [misplacedStats, Bool.or_eq_false_iff] at placed
      simp only [evalStats]
      refine returns_bind _ _ (refer_keepsUnit setters hole node env placed.1)
        fun reference => ?_
      refine returns_bind _ _ (returns_deref _ _) fun value => ?_
      exact returns_ite _ _ _ (fun _ => returns_pure _) fun _ =>
        evalStats_keepsUnit setters hole rest env placed.2
  | .valDef _ _ isLazy rhs rest, env, placed => by
      simp only [misplacedStats, Bool.or_eq_false_iff] at placed
      simp only [evalStats]
      refine returns_ite _ _ _
        (fun _ => evalStats_keepsUnit setters hole rest env placed.2) fun _ => ?_
      refine returns_bind _ _ (evalOptional_keepsUnit setters hole rhs env placed.1)
        fun stored => ?_
      cases stored with
      | none => exact returns_refuse
      | some value =>
          exact returns_bind _ _ (returns_lift _) fun inner =>
            evalStats_keepsUnit setters hole rest inner placed.2
  | .defDef _ rest, env, placed | .importing _ rest, env, placed
  | .typeDef _ _ rest, env, placed => by
      simp only [misplacedStats] at placed
      simp only [evalStats]
      exact evalStats_keepsUnit setters hole rest env placed

theorem evalCases_keepsUnit (setters : SettersYieldUnit program) (hole : Bool) :
    (cases : Cases) → (env : Env) → (value : V) → (otherwise : Code V σ V) →
    (placed : misplacedCases hole cases = false) →
    (falls : Returns (KeptUnit program) otherwise) →
    Returns (KeptUnit program) (evalCases program fuel hole cases env value otherwise)
  | .nil, _, _, _, _, falls => falls
  | .cons pattern guard body rest, env, value, otherwise, placed, falls => by
      simp only [misplacedCases, Bool.or_eq_false_iff] at placed
      simp only [evalCases]
      refine returns_bind _ _ (returns_lift _) fun selected => ?_
      cases selected with
      | none => exact evalCases_keepsUnit setters hole rest env value otherwise placed.2 falls
      | some inner =>
          refine returns_bind _ _ (evalOptional_keepsUnit setters hole guard inner placed.1.1)
            fun answer => ?_
          refine returns_bind _ _
            (returns_steady _ fun change => mapReturn_guarded program change answer)
            fun passed => ?_
          refine returns_ite _ _ _ (fun _ => ?_) fun _ => ?_
          · exact returns_bind _ _ (refer_keepsUnit setters hole body inner placed.1.2)
              fun reference => returns_deref _ _
          · exact evalCases_keepsUnit setters hole rest env value otherwise placed.2 falls

end

/-- Where setters yield `()` and no return stands in a hole, a `Unit` def yields `()`. -/
theorem yields_unit_of_setters (setters : SettersYieldUnit program) (definition : DefDef)
    (body : Node) (env : Env) (declared : isUnitType definition.resultType = true)
    (defined : definition.body = .some body) (placed : misplaced false body = false) :
    YieldsUnit program definition env := by
  refine yields_of_keeps declared defined ⟨?_, ?_⟩
  · intro fuel state result after ended
    have kept : Returns (KeptUnit program) (eval program fuel false body env) :=
      returns_bind _ _ (refer_keepsUnit fuel setters false body env placed) fun reference =>
        returns_deref env reference
    exact kept state (result, true) after ended rfl
  · intro unit fuel state result after ended
    have yields : Yields (fun result => result = program.literal .unit)
        (eval program fuel false body env) := by
      refine yields_bind _ _ (refer_yieldsUnit fuel setters false body env unit)
        fun reference same => ?_
      subst same
      exact yields_pure _ rfl
    exact yields state result after ended

end ProtoScala.Frontend.UnitResults
