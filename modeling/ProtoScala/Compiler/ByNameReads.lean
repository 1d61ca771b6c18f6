import ProtoScala.Compiler.ByNameArguments

/-!
# Reading a by-name parameter

What the calls of `ByNameArguments` do at run time. A parameter holds the function the call
made of the argument, or the value of the argument. Every read of it runs a function of no
parameters and passes any other value through, whichever of the two it got.

An auxiliary constructor declares its parameters by value, so its reads run nothing.
-/

namespace ProtoScala.Compiler.ByNameReads

open ProtoScala.Compiler.ByNameArguments

set_option autoImplicit false

section Passing

variable {E : Type}

theorem pass_all_get {pass : Nat → Arg E → Except String Passing} {args : List (Arg E)}
    {k j : Nat} {code : List Passing} (hok : passAll pass k args = .ok code) {arg : Arg E}
    (harg : args[j]? = some arg) :
    ∃ passing, code[j]? = some passing ∧ pass (k + j) arg = .ok passing := by
  induction args generalizing k j code with
  | nil => simp at harg
  | cons first args ih =>
      unfold passAll at hok
      split at hok
      · cases hok
      · rename_i passing hfirst
        cases hrest : passAll pass (k + 1) args with
        | error e =>
            rw [hrest] at hok
            cases hok
        | ok rest =>
            rw [hrest] at hok
            simp only [Except.map, Except.ok.injEq] at hok
            subst hok
            cases j with
            | zero =>
                simp only [List.getElem?_cons_zero, Option.some.injEq] at harg
                subst harg
                exact ⟨passing, by simp, hfirst⟩
            | succ j =>
                simp only [List.getElem?_cons_succ] at harg ⊢
                obtain ⟨found, hcode, hpass⟩ := ih hrest harg
                have hindex : k + (j + 1) = k + 1 + j := by omega
                exact ⟨found, hcode, hindex ▸ hpass⟩

/-- Every argument of a call with a named one is evaluated. -/
theorem named_all_eager {check : Except String Unit} {args : List (Arg E)}
    {code : List Passing}
    (hok : (check.map fun _ => args.map fun _ => Passing.eager) = .ok code) {j : Nat}
    {arg : Arg E} (harg : args[j]? = some arg) : code[j]? = some .eager := by
  cases check with
  | error e => cases hok
  | ok _ =>
      simp only [Except.map, Except.ok.injEq] at hok
      subst hok
      rw [List.getElem?_map, harg]
      rfl

/-- An argument that is an expression, given by its position or by its parameter's name. -/
inductive Given (args : List (Arg E)) (j : Nat) (e : E) : Bool → Prop where
  | plain (harg : args[j]? = some (.plain e)) : Given args j e false
  | named (name : String) (harg : args[j]? = some (.named name e)) : Given args j e true

theorem given_named {args : List (Arg E)} {j : Nat} {e : E} (hgiven : Given args j e true) :
    args.any Arg.isNamed = true := by
  cases hgiven with
  | named name harg =>
      rw [List.any_eq_true]
      exact ⟨_, List.mem_of_getElem? harg, rfl⟩

/-- What a `new` does with an argument. -/
theorem new_passing {info : ClassInfo} {args : List (Arg E)} {code : List Passing}
    (hok : compileNewOf info args = .ok code) {j : Nat} {e : E} {named : Bool}
    (hgiven : Given args j e named) :
    code[j]? = some (passingOf (!named && primaryByName info j)) := by
  unfold compileNewOf at hok
  split at hok
  · cases hok
  split at hok
  · cases hok
  split at hok
  · cases hok
  split at hok
  · split at hok
    · cases hok
    split at hok
    · rename_i found _ hpass _
      simp only [Except.ok.injEq] at hok
      subst hok
      cases hgiven with
      | plain harg =>
          obtain ⟨passing, hcode, hone⟩ := pass_all_get hpass harg
          simp only [passNewNamed, Nat.zero_add, Except.ok.injEq] at hone
          simp [hcode, ← hone]
      | named name harg =>
          obtain ⟨passing, hcode, hone⟩ := pass_all_get hpass harg
          simp only [passNewNamed, Except.ok.injEq] at hone
          simp [hcode, ← hone, passingOf]
    · cases hok
    · cases hok
  · rename_i hnone
    split at hok
    · cases hok
    · rename_i found hpass
      have hfound : code = found := by
        split at hok
        · split at hok
          · cases hok
          · exact (Except.ok.inj hok).symm
        · cases hctor : ctorKeyFor info args.length with
          | error e =>
              rw [hctor] at hok
              cases hok
          | ok _ =>
              rw [hctor] at hok
              exact (Except.ok.inj hok).symm
      subst hfound
      cases hgiven with
      | plain harg =>
          obtain ⟨passing, hcode, hone⟩ := pass_all_get hpass harg
          simp only [passNew, Nat.zero_add, Except.ok.injEq] at hone
          simp [hcode, ← hone]
      | named name harg => exact absurd (given_named (.named name harg)) hnone

theorem init_passing {target : ClassInfo} {args : List (Arg E)} {code : List Passing}
    (hok : compileInitCall target args = .ok code) {j : Nat} {e : E} {named : Bool}
    (hgiven : Given args j e named) : code[j]? = some .eager := by
  unfold compileInitCall at hok
  split at hok
  · cases hok
  · rename_i found hpass
    have hfound : code = found := by
      split at hok
      · exact (Except.ok.inj hok).symm
      · cases hctor : ctorKeyFor target args.length with
        | error e =>
            rw [hctor] at hok
            cases hok
        | ok _ =>
            rw [hctor] at hok
            exact (Except.ok.inj hok).symm
    subst hfound
    cases hgiven with
    | plain harg =>
        obtain ⟨passing, hcode, hone⟩ := pass_all_get hpass harg
        simp only [passInit, Except.ok.injEq] at hone
        rw [hcode, hone]
    | named name harg =>
        obtain ⟨passing, hcode, hone⟩ := pass_all_get hpass harg
        cases hone

end Passing

section Calls

variable {E : Type} (scope : Scope)

/-- The class a call instantiates or initialises. -/
def constructed : Call E → Option ClassInfo
  | .apply fn _ =>
    match rewrittenCallee scope fn with
    | .ident name =>
      match resolve scope name with
      | .ok (.ofGlobal _ g) => synthesisedNew scope name g
      | _ => none
    | _ => none
  | .newOf info _ => some info
  | .init target _ => some target

/-- The constructor that runs is an auxiliary one. -/
def runsAuxiliary (call : Call E) : Bool :=
  match constructed scope call with
  | some info =>
    if info.kind = .trait ∨ (call.args.getLast?.map Arg.isSplice).getD false then false
    else
      match ctorKeyFor info call.args.length with
      | .ok .auxiliary => true
      | _ => false
  | none => false

/-- The application is one whose arguments are all evaluated, whatever its masks: a named
argument, a `super` call, an operator, a case class. -/
def ignoresMasks (fn : Node) (args : List (Arg E)) : Bool :=
  args.any Arg.isNamed || (constructed scope (.apply fn args)).isSome ||
    match rewrittenCallee scope fn with
    | .select qualifier member => isSuper qualifier || isOperatorCall member args
    | _ => false

/-- The by-name parameters of the definition a call names. -/
def namedMasks : Call E → List Mask
  | .apply fn _ => declaredMasks scope (peel fn)
  | .newOf info _ => info.primaryByNameMasks
  | .init target _ => target.primaryByNameMasks

def listFilled : Call E → Nat
  | .apply fn _ => listOf fn
  | _ => 0

/-- The call is spelled so that argument `j` is passed by name; `own` is the answer for a
spelling that finds the definition it names. -/
def spellsByName (own : Bool) (j : Nat) : Call E → Bool
  | .apply fn args =>
    !ignoresMasks scope fn args &&
      match spelling scope (peel fn) with
      | .own => own
      | .other masks => bit masks (listOf fn) j
  | .newOf _ args => !((args[j]?).map Arg.isNamed).getD false && own
  | .init _ _ => false

/-- Argument `j` is turned into a function. -/
def wraps (call : Call E) (j : Nat) : Bool :=
  spellsByName scope (bit (namedMasks scope call) (listFilled call) j) j call

/-- The spelling passes argument `j` by name when the definition it names says so. -/
def spelledRight (call : Call E) (j : Nat) : Bool := spellsByName scope true j call

theorem synthesised_by_value {name : Name} {g : GlobalBinding} {cls : ClassInfo}
    (hnew : synthesisedNew scope name g = some cls) (k : Nat) :
    primaryByName cls k = false := by
  unfold synthesisedNew at hnew
  split at hnew
  · split at hnew
    · split at hnew
      · rename_i found _ hcase
        simp only [Option.some.injEq] at hnew
        subst hnew
        have hmasks := found.caseByValue hcase.1
        simp [primaryByName, bit, hmasks]
      · cases hnew
    · cases hnew
  · cases hnew

/-- The argument of a call that keeps the masks it found. -/
theorem masked_passing {byName : Nat → Bool} {args : List (Arg E)} {code : List Passing}
    (hok : passAll (passSend byName) 0 args = .ok code ∨ compileArgsAndCall byName args = .ok code)
    {j : Nat} {e : E} {named : Bool} (hgiven : Given args j e named) :
    code[j]? = some (passingOf (byName j)) := by
  rcases hok with hsend | hcall
  · cases hgiven with
    | plain harg | named name harg =>
        obtain ⟨passing, hcode, hone⟩ := pass_all_get hsend harg
        simp only [passSend, Nat.zero_add, Except.ok.injEq] at hone
        rw [hcode, hone]
  · cases hgiven with
    | plain harg | named name harg =>
        obtain ⟨passing, hcode, hone⟩ := pass_all_get hcall harg
        simp only [passCall, Nat.zero_add, Except.ok.injEq] at hone
        rw [hcode, hone]

theorem new_of_case_eager {name : Name} {g : GlobalBinding} {cls : ClassInfo}
    (hnew : synthesisedNew scope name g = some cls) {args : List (Arg E)} {code : List Passing}
    (hok : compileNewOf cls args = .ok code) {j : Nat} {e : E} {named : Bool}
    (hgiven : Given args j e named) : code[j]? = some .eager := by
  rw [new_passing hok hgiven, synthesised_by_value scope hnew, Bool.and_false]
  rfl

/-- A call with a named argument evaluates all of them. -/
theorem named_apply_passing {fn : Node} {args : List (Arg E)} {code : List Passing}
    (hok : compileApply scope fn args = .ok code) (hany : args.any Arg.isNamed = true) {j : Nat}
    {e : E} {named : Bool} (hgiven : Given args j e named) : code[j]? = some .eager := by
  obtain ⟨arg, harg⟩ : ∃ arg, args[j]? = some arg := by
    cases hgiven with
    | plain harg | named name harg => exact ⟨_, harg⟩
  unfold compileApply at hok
  rw [if_pos hany] at hok
  split at hok
  · exact named_all_eager hok harg
  · unfold compileNamedIdentCall at hok
    split at hok
    · cases hok
    · split at hok
      · rename_i hnew
        exact new_of_case_eager scope hnew hok hgiven
      · exact named_all_eager hok harg
    · exact named_all_eager hok harg
  · exact named_all_eager hok harg

/-- What an application does with an argument, for every way the callee is written. -/
theorem apply_passing {fn : Node} {args : List (Arg E)} {code : List Passing}
    (hok : compileApply scope fn args = .ok code) {j : Nat} {e : E} {named : Bool}
    (hgiven : Given args j e named) :
    code[j]? = some (passingOf (!ignoresMasks scope fn args && byNameOfCallee scope fn j)) := by
  by_cases hany : args.any Arg.isNamed = true
  · have hignored : ignoresMasks scope fn args = true := by simp [ignoresMasks, hany]
    rw [named_apply_passing scope hok hany hgiven, hignored]
    rfl
  · obtain ⟨arg, harg⟩ : ∃ arg, args[j]? = some arg := by
      cases hgiven with
      | plain harg | named name harg => exact ⟨_, harg⟩
    unfold compileApply at hok
    rw [if_neg hany] at hok
    simp only [ignoresMasks, constructed]
    split at hok
    · rename_i qualifier member hcallee
      split at hok
      · rename_i hsuper
        obtain ⟨passing, hcode, hone⟩ := pass_all_get hok harg
        have heager : passing = .eager := by
          cases arg with
          | plain _ => exact (Except.ok.inj hone).symm
          | _ => cases hone
        simp [hcode, heager, hcallee, hsuper, passingOf]
      · split at hok
        · rename_i hoperator
          simp only [Except.ok.injEq] at hok
          rw [← hok, List.getElem?_map, harg]
          simp [hcallee, hoperator, passingOf]
        · rename_i hsuper hoperator
          rw [masked_passing (.inl hok) hgiven]
          simp [hcallee, hsuper, hoperator, hany]
    · rename_i name hcallee
      unfold compileIdentCall at hok
      split at hok
      · cases hok
      · rename_i hresolve
        rw [masked_passing (.inl hok) hgiven]
        simp [hcallee, hresolve, hany]
      · rename_i hresolve
        rw [masked_passing (.inr hok) hgiven]
        simp [hcallee, hresolve, hany]
      · rename_i hresolve
        split at hok
        · rename_i hnew
          rw [new_of_case_eager scope hnew hok hgiven]
          simp [hcallee, hresolve, hnew, passingOf]
        · rename_i hnew
          split at hok
          · cases hok
          · rw [masked_passing (.inr hok) hgiven]
            simp [hcallee, hresolve, hnew, hany]
    · rename_i hselect hident
      rw [masked_passing (.inr hok) hgiven]
      cases hcallee : rewrittenCallee scope fn with
      | ident name => exact absurd hcallee (hident name)
      | select qualifier member => exact absurd hcallee (hselect qualifier member)
      | _ => simp [hany]

/-- Every call passes an argument the way its spelling says. -/
theorem call_passing {call : Call E} {code : List Passing}
    (hok : compileCall scope call = .ok code) {j : Nat} {e : E} {named : Bool}
    (hgiven : Given call.args j e named) :
    code[j]? = some (passingOf (wraps scope call j)) := by
  cases call with
  | apply fn args =>
      rw [apply_passing scope hok hgiven]
      simp only [wraps, spellsByName, byNameOfCallee, callee_masks, namedMasks, listFilled]
      cases spelling scope (peel fn) with
      | own => rfl
      | other masks => rfl
  | newOf info args =>
      rw [new_passing hok hgiven]
      cases hgiven with
      | plain harg | named name harg =>
          have harg' : args[j]? = some _ := harg
          simp [wraps, spellsByName, harg', Arg.isNamed, namedMasks, listFilled, primaryByName]
  | init target args => exact init_passing hok hgiven

end Calls

/-- A function value carries what its body is compiled from, captures included. -/
inductive Value (E V : Type) where
  | function (parameters : Nat) (isMethod : Bool) (body : E)
  | other (v : V)

/-- `evaluated` lists the expressions that were evaluated, in order. -/
structure World (E σ : Type) where
  state : σ
  evaluated : List E

section Reads

variable {E V σ : Type} (eval : E → σ → Value E V × σ)

def evaluate (e : E) (w : World E σ) : Value E V × World E σ :=
  ((eval e w.state).1, ⟨(eval e w.state).2, w.evaluated ++ [e]⟩)

def isZeroArgThunk : Value E V → Bool
  | .function parameters isMethod _ => !isMethod && parameters == 0
  | .other _ => false

/-- `FORCE_THUNK`. -/
def forceThunk (v : Value E V) (w : World E σ) : Value E V × World E σ :=
  match v with
  | .function 0 false body => evaluate eval body w
  | v => (v, w)

/-- What the parameter is bound to. -/
def passArgument (passing : Passing) (e : E) (w : World E σ) : Value E V × World E σ :=
  match passing with
  | .byName => (.function 0 false e, w)
  | .eager => evaluate eval e w

/-- A read of the parameter; `forces` is false in an auxiliary constructor. -/
def readParameter (forces : Bool) (v : Value E V) (w : World E σ) : Value E V × World E σ :=
  if forces then forceThunk eval v w else (v, w)

/-- The call evaluates nothing and every read evaluates the argument once. -/
def Unevaluated (passing : Passing) (forces : Bool) (e : E) : Prop :=
  ∀ w : World E σ, (passArgument eval passing e w).2 = w ∧
    ∀ w', readParameter eval forces (passArgument eval passing e w).1 w' = evaluate eval e w'

/-- The value of the argument where it is evaluated: at a read when it was passed as a
function, at the call otherwise. -/
def valueOfArgument (passing : Passing) (e : E) (w w' : World E σ) : Value E V :=
  match passing with
  | .byName => (eval e w'.state).1
  | .eager => (eval e w.state).1

def ReadsArgument (passing : Passing) (forces : Bool) (e : E) : Prop :=
  ∀ w w' : World E σ,
    (readParameter eval forces (passArgument eval passing e w).1 w').1 =
      valueOfArgument eval passing e w w'

/-- Calling a function of no parameters that the argument evaluates to yields that function
again. -/
def SelfReturning (e : E) : Prop :=
  ∀ s body, (eval e s).1 = .function 0 false body →
    ∀ s', (eval body s').1 = .function 0 false body

theorem force_thunk_other {v : Value E V} (hother : isZeroArgThunk v = false) (w : World E σ) :
    forceThunk eval v w = (v, w) := by
  unfold forceThunk
  split
  · simp [isZeroArgThunk] at hother
  · rfl

theorem unevaluated_iff [Nonempty σ] (passing : Passing) (forces : Bool) (e : E) :
    Unevaluated eval passing forces e ↔ passing = .byName ∧ forces = true := by
  obtain ⟨s⟩ := ‹Nonempty σ›
  constructor
  · intro hkept
    obtain ⟨hcall, hread⟩ := hkept ⟨s, []⟩
    cases passing with
    | eager =>
        have hlogged := congrArg World.evaluated hcall
        simp [passArgument, evaluate] at hlogged
    | byName =>
        cases forces with
        | true => exact ⟨rfl, rfl⟩
        | false =>
            have hlogged := congrArg (fun result => result.2.evaluated) (hread ⟨s, []⟩)
            simp [readParameter, evaluate] at hlogged
  · rintro ⟨rfl, rfl⟩ w
    exact ⟨rfl, fun w' => rfl⟩

theorem reads_by_name (e : E) : ReadsArgument eval .byName true e :=
  fun _ _ => rfl

theorem reads_eager_iff (e : E) :
    ReadsArgument eval .eager true e ↔ SelfReturning eval e := by
  constructor
  · intro hreads s body hvalue s'
    have hread := hreads ⟨s, []⟩ ⟨s', []⟩
    simpa [readParameter, passArgument, evaluate, valueOfArgument, hvalue, forceThunk] using hread
  · intro hself w w'
    show (forceThunk eval (eval e w.state).1 w').1 = (eval e w.state).1
    cases hthunk : isZeroArgThunk (eval e w.state).1 with
    | false => rw [force_thunk_other eval hthunk]
    | true =>
        cases hvalue : (eval e w.state).1 with
        | other v => simp [isZeroArgThunk, hvalue] at hthunk
        | function parameters isMethod body =>
            have hzero : isMethod = false ∧ parameters = 0 := by
              simpa [isZeroArgThunk, hvalue] using hthunk
            obtain ⟨rfl, rfl⟩ := hzero
            exact hself _ _ hvalue w'.state

theorem reads_unforced_iff [Nonempty σ] (passing : Passing) (e : E) :
    ReadsArgument eval passing false e ↔
      (passing = .byName → ∀ s, (eval e s).1 = .function 0 false e) := by
  obtain ⟨s⟩ := ‹Nonempty σ›
  cases passing with
  | eager => simp [ReadsArgument, readParameter, passArgument, evaluate, valueOfArgument]
  | byName =>
      constructor
      · intro hreads _ s'
        exact (hreads ⟨s, []⟩ ⟨s', []⟩).symm
      · intro hself w w'
        exact (hself rfl w'.state).symm

end Reads

section Kept

variable {E V σ : Type} (eval : E → σ → Value E V × σ) (scope : Scope)

/-- The call names the definition with these parameter lists. An auxiliary constructor has
one list and is chosen by its length. -/
def Names (call : Call E) (lists : List (List Param)) : Prop :=
  if runsAuxiliary scope call then ∃ params, lists = [params] ∧ params.length = call.args.length
  else byNameMasksOfDef lists = .ok (namedMasks scope call)

/-- Argument `j` is the expression `e` and is bound to a by-name parameter of the list the
call fills. -/
def Supplies (call : Call E) (lists : List (List Param)) (j : Nat) (e : E) : Prop :=
  ∃ params i p, lists[listFilled call]? = some params ∧ params[i]? = some p ∧ p.byName = true ∧
    ((call.args[j]? = some (.plain e) ∧ i = j) ∨ call.args[j]? = some (.named p.name e))

/-- A call that names the definition passes the argument unevaluated, and at every call a
read of the parameter yields the argument's value. -/
def ByNameKept (call : Call E) (code : List Passing) (lists : List (List Param)) (j : Nat)
    (e : E) : Prop :=
  ∃ passing, code[j]? = some passing ∧
    (Names scope call lists →
      Unevaluated eval passing (!runsAuxiliary scope call) e) ∧
    ReadsArgument eval passing (!runsAuxiliary scope call) e

/-- The spelling of the call finds the definition it names, and a value that was not turned
into a function is not mistaken for one. -/
def KeptWhen (call : Call E) (lists : List (List Param)) (j : Nat) (e : E) : Prop :=
  (Names scope call lists → spelledRight scope call j = true ∧ runsAuxiliary scope call = false) ∧
    if runsAuxiliary scope call then
      wraps scope call j = true → ∀ s, (eval e s).1 = .function 0 false e
    else wraps scope call j = true ∨ SelfReturning eval e

theorem supplies_given {call : Call E} {lists : List (List Param)} {j : Nat} {e : E}
    (hsupplies : Supplies call lists j e) : ∃ named, Given call.args j e named := by
  obtain ⟨_, _, p, _, _, _, ⟨harg, _⟩ | harg⟩ := hsupplies
  · exact ⟨false, .plain harg⟩
  · exact ⟨true, .named p.name harg⟩

/-- For a call that names its definition, the spelling alone decides. -/
theorem wraps_when_named {call : Call E} {lists : List (List Param)} {j : Nat} {e : E}
    (hsupplies : Supplies call lists j e) (hnames : Names scope call lists)
    (hprimary : runsAuxiliary scope call = false) :
    wraps scope call j = spelledRight scope call j := by
  obtain ⟨params, i, p, hlist, hparam, hbyName, ⟨harg, rfl⟩ | harg⟩ := hsupplies
  · simp only [Names, hprimary, Bool.false_eq_true, if_false] at hnames
    have hbit := masks_of_def_bit hnames hlist hparam hbyName
    unfold wraps spelledRight
    rw [hbit]
  · cases call with
    | apply fn args =>
        have hnamed : args.any Arg.isNamed = true := given_named (.named p.name harg)
        simp [wraps, spelledRight, spellsByName, ignoresMasks, hnamed]
    | newOf info args =>
        have hnamed : args[j]? = some (.named p.name e) := harg
        simp [wraps, spelledRight, spellsByName, hnamed, Arg.isNamed]
    | init target args => rfl

end Kept

section Inputs

/-- `def orElse(v: Int, fallback: => Int)`. -/
def orElseLists : List (List Param) :=
  [[⟨"v", false, false⟩, ⟨"fallback", true, false⟩]]

def orElseMasks : List Mask := [2]

def orElseGlobal : GlobalBinding where
  kind := .def_
  key := "orElse"
  byNameMasks := orElseMasks
  overloads := [⟨2, "orElse"⟩]
  overloadsByValue := by simp
  objectsByValue := by simp

/-- The class of `object Guards`, which declares `orElse`. -/
def guardsType : ClassInfo where
  name := "Guards"
  kind := .object
  isCase := false
  isAbstract := false
  primaryArity := 0
  primaryMinArity := 0
  primaryVariadic := false
  primaryByNameMasks := []
  auxArities := []
  members := [("orElse", ⟨"orElse", orElseMasks⟩)]
  companionTermKey := ""
  companionHasApply := false
  caseByValue := by simp

def emptyScope : Scope where
  functions := []
  enclosing := none
  bindings := fun _ => none
  types := fun _ => none
  importedTerms := fun _ => none

/-- `orElse` as a top-level def. -/
def topLevelScope : Scope :=
  { emptyScope with bindings := fun name => if name = ["orElse"] then some orElseGlobal else none }

/-- `orElse` after an import of it from the module `Guards`. -/
def importedScope : Scope :=
  { emptyScope with
    types := fun name => if name = ["__module$Guards", "type"] then some guardsType else none
    importedTerms := fun name =>
      if name = ["orElse"] then some ⟨["__module$Guards"], "orElse"⟩ else none }

/-- `orElse(5, boom)`; argument `k` is the expression `k`. -/
def orElseCall : Call Nat := .apply (.ident ["orElse"]) [.plain 0, .plain 1]

def noValues (_ : Nat) (s : Unit) : Value Nat Unit × Unit := (.other (), s)

theorem or_else_supplied : Supplies orElseCall orElseLists 1 1 :=
  ⟨_, 1, _, rfl, rfl, rfl, .inl ⟨rfl, rfl⟩⟩

end Inputs

end ProtoScala.Compiler.ByNameReads
