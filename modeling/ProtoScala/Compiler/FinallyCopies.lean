import Mathlib.Algebra.Ring.Nat
import Mathlib.Data.List.Basic

/-!
# How deep the compiler recurses

A `return` compiles a copy of every enclosing `finally` body, and each copy is compiled
with the same enclosing bodies around it. So the recursion does not follow the tree: the
compiler checks the native stack at every expression and reports a stack overflow as a
compile error. `compileExpr` takes the depth that is left as an argument.

The recursion ends exactly when no `try` has both a `return` in its `finally` body and one
in its body or its handlers. Everything that is not a `try`, a `return` or a function is a
node with parts that are compiled one after the other.
-/

namespace ProtoScala.Compiler.FinallyCopies

set_option autoImplicit false

mutual

/-- An expression over leaves `E`. `parts` compiles its parts in order; `function` is a
lambda or a local definition, whose body is compiled in a function state of its own. -/
inductive Term (E : Type) where
  | expr (e : E)
  | parts (e : E) (terms : Terms E)
  | function (allowsReturn : Bool) (body : Term E)
  | ret (value : Optional E)
  | tryOf (body : Term E) (cases : Cases E) (finallyBody : Optional E)

inductive Terms (E : Type) where
  | nil
  | cons (term : Term E) (rest : Terms E)

inductive Optional (E : Type) where
  | none
  | some (term : Term E)

inductive Cases (E : Type) where
  | nil
  | cons (pattern : E) (guard : Optional E) (body : Term E) (rest : Cases E)

end

/-- `own` is what a leaf or a pattern compiles to. -/
inductive Instr (I : Type) where
  | own (code : I)
  | pushUnit
  | pop
  | ret
  | jump
  | jumpIfFalse
  | rethrow

inductive Failure where
  | compileError (message : String)
  | tooDeep
  deriving DecidableEq, Repr

/-- The state of the function being compiled; the innermost `finally` body comes first. -/
structure FunctionState (E : Type) where
  allowsReturn : Bool
  isTopLevel : Bool
  finallys : List (Term E)

def FunctionState.push {E : Type} (fn : FunctionState E) : Optional E → FunctionState E
  | .none => fn
  | .some body => { fn with finallys := body :: fn.finallys }

section Compile

variable {E I : Type}

abbrev Code (I : Type) := List (Instr I)

/-- A leaf's or a pattern's own code. -/
abbrev Leaves (E I : Type) := E → Except String (List I)

def ownCode (X : Leaves E I) (e : E) : Except Failure (Code I) :=
  match X e with
  | .ok code => .ok (code.map .own)
  | .error message => .error (.compileError message)

/-- The copies of the `finally` bodies, each followed by `POP`. -/
def emitEnclosingFinallys (compile : Term E → Except Failure (Code I)) : List (Term E) → Except Failure (Code I)
  | [] => .ok []
  | body :: outer => do
      let copy ← compile body
      let rest ← emitEnclosingFinallys compile outer
      pure (copy ++ [.pop] ++ rest)

def compileTerms (compile : Term E → Except Failure (Code I)) : Terms E → Except Failure (Code I)
  | .nil => .ok []
  | .cons term rest => do
      let code ← compile term
      let others ← compileTerms compile rest
      pure (code ++ others)

/-- A guard and the jump behind it. -/
def compileGuard (compile : Term E → Except Failure (Code I)) : Optional E → Except Failure (Code I)
  | .none => .ok []
  | .some guard => do
      let code ← compile guard
      pure (code ++ [.jumpIfFalse])

def compileCases (X : Leaves E I) (compile : Term E → Except Failure (Code I)) : Cases E → Except Failure (Code I)
  | .nil => .ok [.rethrow]
  | .cons pattern guard body rest => do
      let tests ← ownCode X pattern
      let guard ← compileGuard compile guard
      let body ← compile body
      let others ← compileCases X compile rest
      pure (tests ++ guard ++ body ++ [.jump] ++ others)

def compileCatchCases (X : Leaves E I) (compile : Term E → Except Failure (Code I)) : Cases E → Except Failure (Code I)
  | .nil => .ok []
  | cases => compileCases X compile cases

def returnError (fn : FunctionState E) : String :=
  if fn.isTopLevel then "return outside a method definition"
  else "return inside a lambda is not supported"

/-- The value of a `return`. -/
def compileValue (compile : Term E → Except Failure (Code I)) : Optional E → Except Failure (Code I)
  | .none => .ok [.pushUnit]
  | .some value => compile value

/-- The two copies of a `finally` body behind its `try`: the one that raises again what
came in, and the one on the normal path. -/
def compileFinally (compile : Term E → Except Failure (Code I)) : Optional E → Except Failure (Code I)
  | .none => .ok []
  | .some body => do
      let cleanup ← compile body
      let normal ← compile body
      pure ([.jump] ++ cleanup ++ [.pop, .rethrow] ++ normal ++ [.pop])

def compileExpr (X : Leaves E I) : Nat → FunctionState E → Term E → Except Failure (Code I)
  | 0, _, _ => .error .tooDeep
  | _ + 1, _, .expr e => ownCode X e
  | depth + 1, fn, .parts e terms => do
      let code ← compileTerms (compileExpr X depth fn) terms
      let own ← ownCode X e
      pure (code ++ own)
  | depth + 1, _, .function allowsReturn body =>
      compileExpr X depth { allowsReturn := allowsReturn, isTopLevel := false, finallys := [] } body
  | depth + 1, fn, .ret value =>
      if !fn.allowsReturn then .error (.compileError (returnError fn))
      else do
        let value ← compileValue (compileExpr X depth fn) value
        let copies ← emitEnclosingFinallys (compileExpr X depth fn) fn.finallys
        pure (value ++ copies ++ [.ret])
  | depth + 1, fn, .tryOf body cases finallyBody => do
      let inner := fn.push finallyBody
      let body ← compileExpr X depth inner body
      let cascade ← compileCatchCases X (compileExpr X depth inner) cases
      let cleanup ← compileFinally (compileExpr X depth fn) finallyBody
      pure (body ++ [.jump] ++ cascade ++ cleanup)

end Compile

/-! ## Returns -/

section Returns

variable {E : Type}

mutual

/-- A `return` of the function around the expression stands in it. -/
def Term.hasReturn : Term E → Bool
  | .expr _ | .function _ _ => false
  | .parts _ terms => terms.hasReturn
  | .ret _ => true
  | .tryOf body cases finallyBody =>
      body.hasReturn || cases.hasReturn || finallyBody.hasReturn

def Terms.hasReturn : Terms E → Bool
  | .nil => false
  | .cons term rest => term.hasReturn || rest.hasReturn

def Optional.hasReturn : Optional E → Bool
  | .none => false
  | .some term => term.hasReturn

def Cases.hasReturn : Cases E → Bool
  | .nil => false
  | .cons _ guard body rest => guard.hasReturn || body.hasReturn || rest.hasReturn

end

mutual

/-- Some `try` has a `return` in its `finally` body and one in its body or handlers. -/
def Term.endless : Term E → Bool
  | .expr _ => false
  | .parts _ terms => terms.endless
  | .function _ body => body.endless
  | .ret value => value.endless
  | .tryOf body cases finallyBody =>
      body.endless || cases.endless || finallyBody.endless ||
        (finallyBody.hasReturn && (body.hasReturn || cases.hasReturn))

def Terms.endless : Terms E → Bool
  | .nil => false
  | .cons term rest => term.endless || rest.endless

def Optional.endless : Optional E → Bool
  | .none => false
  | .some term => term.endless

def Cases.endless : Cases E → Bool
  | .nil => false
  | .cons _ guard body rest => guard.endless || body.endless || rest.endless

end

mutual

/-- Every `return` stands in a function that allows it. -/
def Term.placed : Bool → Term E → Bool
  | _, .expr _ => true
  | allowed, .parts _ terms => terms.placed allowed
  | _, .function allowsReturn body => body.placed allowsReturn
  | allowed, .ret value => allowed && value.placed allowed
  | allowed, .tryOf body cases finallyBody =>
      body.placed allowed && cases.placed allowed && finallyBody.placed allowed

def Terms.placed : Bool → Terms E → Bool
  | _, .nil => true
  | allowed, .cons term rest => term.placed allowed && rest.placed allowed

def Optional.placed : Bool → Optional E → Bool
  | _, .none => true
  | allowed, .some term => term.placed allowed

def Cases.placed : Bool → Cases E → Bool
  | _, .nil => true
  | allowed, .cons _ guard body rest =>
      guard.placed allowed && body.placed allowed && rest.placed allowed

end

mutual

def Term.size : Term E → Nat
  | .expr _ => 1
  | .parts _ terms => terms.size + 1
  | .function _ body => body.size + 1
  | .ret value => value.size + 1
  | .tryOf body cases finallyBody => body.size + cases.size + finallyBody.size + 1

def Terms.size : Terms E → Nat
  | .nil => 0
  | .cons term rest => term.size + rest.size

def Optional.size : Optional E → Nat
  | .none => 0
  | .some term => term.size

def Cases.size : Cases E → Nat
  | .nil => 0
  | .cons _ guard body rest => guard.size + body.size + rest.size

end

def Terms.toList : Terms E → List (Term E)
  | .nil => []
  | .cons term rest => term :: rest.toList

def Optional.toList : Optional E → List (Term E)
  | .none => []
  | .some term => [term]

/-- The guards and the bodies. -/
def Cases.toList : Cases E → List (Term E)
  | .nil => []
  | .cons _ guard body rest => guard.toList ++ body :: rest.toList

section

attribute [local simp] Terms.toList Optional.toList Cases.toList Terms.hasReturn Cases.hasReturn
  Terms.endless Cases.endless Terms.placed Cases.placed Terms.size Cases.size

end

def totalSize (bodies : List (Term E)) : Nat := (bodies.map Term.size).sum

/-- The depth that suffices: the enclosing bodies count where a `return` copies them. -/
def cost (returns : Bool) (size : Nat) (bodies : List (Term E)) : Nat :=
  size + if returns then totalSize bodies else 0

/-- The compiler's recursion ends: from some depth on the depth does not stop it. -/
def Terminates (fn : FunctionState E) (term : Term E) : Prop :=
  ∃ enough, ∀ depth, enough ≤ depth → ∀ (I : Type) (X : Leaves E I),
    compileExpr X depth fn term ≠ .error .tooDeep

/-! ## The parts of a term -/

theorem terms_has_return : ∀ terms : Terms E,
    terms.hasReturn = terms.toList.any Term.hasReturn
  | .nil => rfl
  | .cons term rest => by simp [Terms.hasReturn, Terms.toList, terms_has_return rest]

theorem terms_endless : ∀ terms : Terms E, terms.endless = terms.toList.any Term.endless
  | .nil => rfl
  | .cons term rest => by simp [Terms.endless, Terms.toList, terms_endless rest]

theorem terms_placed (allowed : Bool) : ∀ terms : Terms E,
    terms.placed allowed = terms.toList.all (Term.placed allowed)
  | .nil => rfl
  | .cons term rest => by simp [Terms.placed, Terms.toList, terms_placed allowed rest]

theorem terms_size : ∀ terms : Terms E, terms.size = totalSize terms.toList
  | .nil => rfl
  | .cons term rest => by simp [Terms.size, Terms.toList, totalSize, terms_size rest]

theorem optional_has_return (value : Optional E) :
    value.hasReturn = value.toList.any Term.hasReturn := by
  cases value <;> simp [Optional.hasReturn, Optional.toList]

theorem optional_endless (value : Optional E) :
    value.endless = value.toList.any Term.endless := by
  cases value <;> simp [Optional.endless, Optional.toList]

theorem optional_placed (allowed : Bool) (value : Optional E) :
    value.placed allowed = value.toList.all (Term.placed allowed) := by
  cases value <;> simp [Optional.placed, Optional.toList]

theorem optional_size (value : Optional E) : value.size = totalSize value.toList := by
  cases value <;> simp [Optional.size, Optional.toList, totalSize]

theorem cases_has_return : ∀ cases : Cases E,
    cases.hasReturn = cases.toList.any Term.hasReturn
  | .nil => rfl
  | .cons pattern guard body rest => by
      simp [Cases.hasReturn, Cases.toList, optional_has_return, cases_has_return rest,
        Bool.or_assoc]

theorem cases_endless : ∀ cases : Cases E, cases.endless = cases.toList.any Term.endless
  | .nil => rfl
  | .cons pattern guard body rest => by
      simp [Cases.endless, Cases.toList, optional_endless, cases_endless rest, Bool.or_assoc]

theorem cases_placed (allowed : Bool) : ∀ cases : Cases E,
    cases.placed allowed = cases.toList.all (Term.placed allowed)
  | .nil => rfl
  | .cons pattern guard body rest => by
      simp [Cases.placed, Cases.toList, optional_placed, cases_placed allowed rest, Bool.and_assoc]

theorem cases_size : ∀ cases : Cases E, cases.size = totalSize cases.toList
  | .nil => rfl
  | .cons pattern guard body rest => by
      simp [Cases.size, Cases.toList, totalSize, optional_size, cases_size rest, Nat.add_assoc]

theorem size_le_total {body : Term E} {bodies : List (Term E)} (member : body ∈ bodies) :
    body.size ≤ totalSize bodies := by
  induction bodies with
  | nil => cases member
  | cons first rest induction =>
      simp only [totalSize, List.map_cons, List.sum_cons]
      rcases List.mem_cons.mp member with rfl | member
      · omega
      · have := induction member
        simp only [totalSize] at this
        omega

theorem size_pos (term : Term E) : 0 < term.size := by
  cases term <;> simp [Term.size]

/-! ## Failures of the parts -/

section Parts

variable {I : Type} {failure : Failure}

theorem bind_ne {α β : Type} {first : Except Failure α} {next : α → Except Failure β}
    (one : first ≠ .error failure) (two : ∀ a, first = .ok a → next a ≠ .error failure) :
    first.bind next ≠ .error failure := by
  cases first with
  | error other => simpa [Except.bind] using one
  | ok a => exact two a rfl

theorem pure_ne {α : Type} (a : α) : (pure a : Except Failure α) ≠ .error failure := by
  simp [pure, Except.pure]

theorem emit_ne {compile : Term E → Except Failure (Code I)} {bodies : List (Term E)}
    (all : ∀ body ∈ bodies, compile body ≠ .error failure) :
    emitEnclosingFinallys compile bodies ≠ .error failure := by
  induction bodies with
  | nil => simp [emitEnclosingFinallys]
  | cons body outer induction =>
      rw [emitEnclosingFinallys]
      refine bind_ne (all body List.mem_cons_self) fun copy _ => ?_
      exact bind_ne (induction fun other member => all other (.tail _ member))
        fun rest _ => pure_ne _

theorem compile_terms_ne {compile : Term E → Except Failure (Code I)} :
    ∀ {terms : Terms E}, (∀ term ∈ terms.toList, compile term ≠ .error failure) →
      compileTerms compile terms ≠ .error failure
  | .nil, _ => by simp [compileTerms]
  | .cons term rest, all => by
      rw [compileTerms]
      refine bind_ne (all term List.mem_cons_self) fun code _ => ?_
      exact bind_ne (compile_terms_ne fun other member => all other (.tail _ member))
        fun others _ => pure_ne _

theorem compile_guard_ne {compile : Term E → Except Failure (Code I)} {guard : Optional E}
    (all : ∀ term ∈ guard.toList, compile term ≠ .error failure) :
    compileGuard compile guard ≠ .error failure := by
  cases guard with
  | none => simp [compileGuard]
  | some term =>
      rw [compileGuard]
      exact bind_ne (all term List.mem_cons_self) fun code _ => pure_ne _

theorem compile_cases_ne (X : Leaves E I) (own : ∀ e, ownCode X e ≠ .error failure)
    {compile : Term E → Except Failure (Code I)} :
    ∀ {cases : Cases E}, (∀ term ∈ cases.toList, compile term ≠ .error failure) →
      compileCases X compile cases ≠ .error failure
  | .nil, _ => by simp [compileCases]
  | .cons pattern guard body rest, all => by
      simp only [Cases.toList, List.mem_append, List.mem_cons] at all
      rw [compileCases]
      refine bind_ne (own pattern) fun tests _ => ?_
      refine bind_ne (compile_guard_ne fun term member => all term (Or.inl member)) ?_
      intro guardCode _
      refine bind_ne (all body (Or.inr (Or.inl rfl))) fun bodyCode _ => ?_
      exact bind_ne (compile_cases_ne X own fun term member => all term (Or.inr (Or.inr member)))
        fun others _ => pure_ne _

theorem compile_catch_ne (X : Leaves E I) {compile : Term E → Except Failure (Code I)}
    {cases : Cases E} (all : compileCases X compile cases ≠ .error failure) :
    compileCatchCases X compile cases ≠ .error failure := by
  cases cases with
  | nil => simp [compileCatchCases]
  | cons pattern guard body rest => exact all

theorem compile_value_ne {compile : Term E → Except Failure (Code I)} {value : Optional E}
    (all : ∀ term ∈ value.toList, compile term ≠ .error failure) :
    compileValue compile value ≠ .error failure := by
  cases value with
  | none => simp [compileValue]
  | some term => exact all term List.mem_cons_self

theorem compile_finally_ne {compile : Term E → Except Failure (Code I)} {body : Optional E}
    (all : ∀ term ∈ body.toList, compile term ≠ .error failure) :
    compileFinally compile body ≠ .error failure := by
  cases body with
  | none => simp [compileFinally]
  | some term =>
      rw [compileFinally]
      refine bind_ne (all term List.mem_cons_self) fun cleanup _ => ?_
      exact bind_ne (all term List.mem_cons_self) fun normal _ => pure_ne _

end Parts

/-! ## Enough depth -/

section Enough

variable {I : Type}

theorem own_code_not_deep (X : Leaves E I) (e : E) : ownCode X e ≠ .error .tooDeep := by
  unfold ownCode
  cases X e <;> simp

/-- The enclosing bodies cause no endless copies: none of them does by itself, and none of
them returns when the term returns. -/
structure Calm (fn : FunctionState E) (returns : Bool) : Prop where
  settled : ∀ body ∈ fn.finallys, body.endless = false
  silent : returns = true → ∀ body ∈ fn.finallys, body.hasReturn = false

theorem cost_lt {returns returns' : Bool} {size size' : Nat} {bodies : List (Term E)}
    (smaller : size < size') (only : returns = true → returns' = true) :
    cost returns size bodies < cost returns' size' bodies := by
  unfold cost
  cases returns with
  | false =>
      simp only [Bool.false_eq_true, if_false]
      omega
  | true =>
      rw [only rfl]
      simp only [if_true]
      omega

/-- Inside a `try` the enclosing bodies are calm, too. -/
theorem calm_push {fn : FunctionState E} {finallyBody : Optional E} {returns returns' : Bool}
    (calm : Calm fn returns') (only : returns = true → returns' = true)
    (settled : finallyBody.endless = false)
    (silent : returns = true → finallyBody.hasReturn = false) :
    Calm (fn.push finallyBody) returns := by
  cases finallyBody with
  | none => exact ⟨calm.settled, fun has => calm.silent (only has)⟩
  | some c =>
      constructor
      · intro body member
        rcases List.mem_cons.mp member with rfl | member
        · exact settled
        · exact calm.settled body member
      · intro has body member
        rcases List.mem_cons.mp member with rfl | member
        · exact silent has
        · exact calm.silent (only has) body member

theorem total_push (fn : FunctionState E) (finallyBody : Optional E) :
    totalSize (fn.push finallyBody).finallys = finallyBody.size + totalSize fn.finallys := by
  cases finallyBody with
  | none => simp [FunctionState.push, Optional.size]
  | some c => simp [FunctionState.push, Optional.size, totalSize]

theorem compile_expr_not_deep (X : Leaves E I) (depth : Nat) :
    ∀ (fn : FunctionState E) (term : Term E), term.endless = false → Calm fn term.hasReturn →
      cost term.hasReturn term.size fn.finallys ≤ depth →
      compileExpr X depth fn term ≠ .error .tooDeep := by
  induction depth with
  | zero =>
      intro fn term _ _ enough
      have := size_pos term
      simp only [cost] at enough
      omega
  | succ depth induction =>
      intro fn term ends calm enough
      have inside : ∀ part : Term E, part.size < term.size →
          (part.hasReturn = true → term.hasReturn = true) → part.endless = false →
          compileExpr X depth fn part ≠ .error .tooDeep := by
        intro part smaller returns settled
        refine induction fn part settled
          ⟨calm.settled, fun has => calm.silent (returns has)⟩ ?_
        have less : cost part.hasReturn part.size fn.finallys <
            cost term.hasReturn term.size fn.finallys := cost_lt smaller returns
        omega
      cases term with
      | expr e => exact own_code_not_deep X e
      | parts e terms =>
          rw [compileExpr]
          refine bind_ne (compile_terms_ne fun part member => ?_) fun code _ => ?_
          · simp only [Term.endless, terms_endless, List.any_eq_false, Bool.not_eq_true] at ends
            refine inside part ?_ ?_ (ends part member)
            · have bound := size_le_total member
              simp only [Term.size, terms_size]
              omega
            · intro has
              simp only [Term.hasReturn, terms_has_return, List.any_eq_true]
              exact ⟨part, member, has⟩
          · exact bind_ne (own_code_not_deep X e) fun own _ => pure_ne _
      | function allowsReturn body =>
          rw [compileExpr]
          refine induction _ body ends ⟨by simp, by simp⟩ ?_
          simp only [cost, Term.size, Term.hasReturn, Bool.false_eq_true, if_false, totalSize,
            List.map_nil, List.sum_nil, ite_self] at enough ⊢
          omega
      | ret value =>
          rw [compileExpr]
          split
          · simp
          · have valueFine : compileValue (compileExpr X depth fn) value ≠ .error .tooDeep := by
              refine compile_value_ne fun term member => ?_
              simp only [Term.endless, optional_endless, List.any_eq_false, Bool.not_eq_true]
                at ends
              refine inside term ?_ (fun _ => rfl) (ends term member)
              have bound := size_le_total member
              simp only [Term.size, optional_size]
              omega
            refine bind_ne valueFine fun code _ => ?_
            refine bind_ne (emit_ne fun body member => ?_) fun copies _ => pure_ne _
            · -- a copy returns nothing, so it copies nothing itself
              have quiet := calm.silent rfl body member
              refine induction fn body (calm.settled body member)
                ⟨calm.settled, by simp [quiet]⟩ ?_
              have bound := size_le_total member
              simp only [cost, Term.size, Term.hasReturn, if_true, quiet, Bool.false_eq_true,
                if_false] at enough ⊢
              omega
      | tryOf body cases finallyBody =>
          simp only [Term.endless, Bool.or_eq_false_iff, Bool.and_eq_false_iff] at ends
          obtain ⟨⟨⟨bodyEnds, casesEnd⟩, finallyEnds⟩, apart⟩ := ends
          have covered : ∀ part : Term E,
              part.size ≤ body.size + cases.size → part.endless = false →
              (part.hasReturn = true → body.hasReturn = true ∨ cases.hasReturn = true) →
              compileExpr X depth (fn.push finallyBody) part ≠ .error .tooDeep := by
            intro part smaller settled returns
            have only : part.hasReturn = true →
                (Term.tryOf body cases finallyBody).hasReturn = true := by
              intro has
              simp only [Term.hasReturn, Bool.or_eq_true]
              exact Or.inl (returns has)
            refine induction _ part settled
              (calm_push calm only finallyEnds fun has => ?_) ?_
            · rcases apart with silent | ⟨noBody, noCase⟩
              · exact silent
              · rcases returns has with yes | yes
                · rw [noBody] at yes; cases yes
                · rw [noCase] at yes; cases yes
            · cases returned : part.hasReturn with
              | false =>
                  simp only [cost, Term.size, Bool.false_eq_true, if_false] at enough ⊢
                  omega
              | true =>
                  simp only [cost, Term.size, only returned, if_true] at enough
                  simp only [cost, if_true, total_push]
                  omega
          rw [compileExpr]
          refine bind_ne (covered body (by omega) bodyEnds Or.inl) fun bodyCode _ => ?_
          refine bind_ne (compile_catch_ne X
            (compile_cases_ne X (own_code_not_deep X) fun part member => ?_)) fun cascade _ => ?_
          · simp only [cases_endless, List.any_eq_false, Bool.not_eq_true] at casesEnd
            refine covered part ?_ (casesEnd part member) fun has => Or.inr ?_
            · have bound := size_le_total member
              rw [← cases_size] at bound
              omega
            · simp only [cases_has_return, List.any_eq_true]
              exact ⟨part, member, has⟩
          refine bind_ne (compile_finally_ne fun part member => ?_) fun cleanup _ => pure_ne _
          simp only [optional_endless, List.any_eq_false, Bool.not_eq_true] at finallyEnds
          refine inside part ?_ ?_ (finallyEnds part member)
          · have bound := size_le_total member
            rw [← optional_size] at bound
            simp only [Term.size]
            omega
          · intro has
            simp only [Term.hasReturn, optional_has_return, Bool.or_eq_true, List.any_eq_true]
            exact Or.inr ⟨part, member, has⟩

end Enough

/-! ## Endless copies -/

section Endless

variable {I : Type}

theorem ok_of_bind {α β : Type} {first : Except Failure α} {next : α → Except Failure β} {b : β}
    (bound : first.bind next = .ok b) : ∃ a, first = .ok a ∧ next a = .ok b := by
  cases first with
  | error failure => cases bound
  | ok a => exact ⟨a, rfl, bound⟩

theorem emit_all_ok {compile : Term E → Except Failure (Code I)} {bodies : List (Term E)}
    {code : Code I} (emitted : emitEnclosingFinallys compile bodies = .ok code) :
    ∀ body ∈ bodies, ∃ copy, compile body = .ok copy := by
  induction bodies generalizing code with
  | nil => simp
  | cons body outer induction =>
      rw [emitEnclosingFinallys] at emitted
      obtain ⟨copy, compiled, rest⟩ := ok_of_bind emitted
      obtain ⟨others, later, -⟩ := ok_of_bind rest
      intro other member
      rcases List.mem_cons.mp member with rfl | member
      · exact ⟨copy, compiled⟩
      · exact induction later other member

theorem compile_terms_ok {compile : Term E → Except Failure (Code I)} :
    ∀ {terms : Terms E} {code : Code I}, compileTerms compile terms = .ok code →
      ∀ term ∈ terms.toList, ∃ code, compile term = .ok code
  | .nil, _, _ => by simp [Terms.toList]
  | .cons term rest, code, compiled => by
      rw [compileTerms] at compiled
      obtain ⟨first, one, later⟩ := ok_of_bind compiled
      obtain ⟨others, two, -⟩ := ok_of_bind later
      intro part member
      rcases List.mem_cons.mp member with rfl | member
      · exact ⟨first, one⟩
      · exact compile_terms_ok two part member

theorem compile_cases_ok (X : Leaves E I) {compile : Term E → Except Failure (Code I)} :
    ∀ {cases : Cases E} {code : Code I}, compileCases X compile cases = .ok code →
      ∀ term ∈ cases.toList, ∃ code, compile term = .ok code
  | .nil, _, _ => by simp [Cases.toList]
  | .cons pattern guard body rest, code, compiled => by
      rw [compileCases] at compiled
      obtain ⟨tests, -, compiled⟩ := ok_of_bind compiled
      obtain ⟨guardCode, tested, compiled⟩ := ok_of_bind compiled
      obtain ⟨bodyCode, bodied, compiled⟩ := ok_of_bind compiled
      obtain ⟨others, later, -⟩ := ok_of_bind compiled
      intro part member
      simp only [Cases.toList, List.mem_append, List.mem_cons] at member
      rcases member with inGuard | rfl | inRest
      · cases guard with
        | none => simp [Optional.toList] at inGuard
        | some term =>
            obtain rfl : part = term := by simpa [Optional.toList] using inGuard
            rw [compileGuard] at tested
            obtain ⟨partCode, compiledPart, -⟩ := ok_of_bind tested
            exact ⟨partCode, compiledPart⟩
      · exact ⟨bodyCode, bodied⟩
      · exact compile_cases_ok X later part inRest

theorem compile_catch_ok (X : Leaves E I) {compile : Term E → Except Failure (Code I)}
    {cases : Cases E} {code : Code I} (compiled : compileCatchCases X compile cases = .ok code) :
    ∀ term ∈ cases.toList, ∃ code, compile term = .ok code := by
  cases cases with
  | nil => simp [Cases.toList]
  | cons pattern guard body rest => exact compile_cases_ok X compiled

theorem compile_value_ok {compile : Term E → Except Failure (Code I)} {value : Optional E}
    {code : Code I} (compiled : compileValue compile value = .ok code) :
    ∀ term ∈ value.toList, ∃ code, compile term = .ok code := by
  cases value with
  | none => simp [Optional.toList]
  | some term => simpa [Optional.toList] using ⟨code, compiled⟩

theorem compile_finally_ok {compile : Term E → Except Failure (Code I)} {body : Optional E}
    {code : Code I} (compiled : compileFinally compile body = .ok code) :
    ∀ term ∈ body.toList, ∃ code, compile term = .ok code := by
  cases body with
  | none => simp [Optional.toList]
  | some term =>
      rw [compileFinally] at compiled
      obtain ⟨copy, first, -⟩ := ok_of_bind compiled
      simpa [Optional.toList] using ⟨copy, first⟩

/-- Nothing that holds of no compiled part holds of the parts. -/
theorem any_false {compile : Term E → Except Failure (Code I)} {holds : Term E → Bool}
    {parts : List (Term E)} (compiled : ∀ term ∈ parts, ∃ code, compile term = .ok code)
    (none' : ∀ term code, compile term = .ok code → holds term = false) :
    parts.any holds = false := by
  rw [List.any_eq_false]
  intro part member
  obtain ⟨code, ok⟩ := compiled part member
  simp [none' part code ok]

/-- Where an enclosing `finally` body returns, no `return` is ever compiled. -/
theorem no_return_compiled (X : Leaves E I) (depth : Nat) :
    ∀ (fn : FunctionState E) (term : Term E) (code : Code I),
      (∃ body ∈ fn.finallys, body.hasReturn = true) →
      compileExpr X depth fn term = .ok code → term.hasReturn = false := by
  induction depth with
  | zero => intro fn term code _ compiled; cases compiled
  | succ depth induction =>
      intro fn term code returning compiled
      cases term with
      | expr e => rfl
      | function allowsReturn body => rfl
      | parts e terms =>
          rw [compileExpr] at compiled
          obtain ⟨termsCode, first, -⟩ := ok_of_bind compiled
          rw [Term.hasReturn, terms_has_return]
          exact any_false (compile_terms_ok first)
            fun part partCode => induction fn part partCode returning
      | ret value =>
          rw [compileExpr] at compiled
          split at compiled
          · cases compiled
          · obtain ⟨valueCode, -, compiled⟩ := ok_of_bind compiled
            obtain ⟨copies, emitted, -⟩ := ok_of_bind compiled
            obtain ⟨body, member, returns⟩ := returning
            obtain ⟨copy, copied⟩ := emit_all_ok emitted body member
            have silent := induction fn body copy ⟨body, member, returns⟩ copied
            rw [returns] at silent
            cases silent
      | tryOf body cases finallyBody =>
          rw [compileExpr] at compiled
          obtain ⟨bodyCode, first, compiled⟩ := ok_of_bind compiled
          obtain ⟨cascade, second, compiled⟩ := ok_of_bind compiled
          obtain ⟨cleanup, third, -⟩ := ok_of_bind compiled
          have inner : ∃ body ∈ (fn.push finallyBody).finallys, body.hasReturn = true := by
            obtain ⟨outer, member, returns⟩ := returning
            cases finallyBody with
            | none => exact ⟨outer, member, returns⟩
            | some c => exact ⟨outer, List.mem_cons_of_mem c member, returns⟩
          have noBody := induction _ body bodyCode inner first
          have noCase := any_false (compile_catch_ok X second)
            fun part partCode => induction _ part partCode inner
          have noFinally := any_false (compile_finally_ok third)
            fun part partCode => induction fn part partCode returning
          simp only [Term.hasReturn, cases_has_return, optional_has_return, noBody, noCase,
            noFinally, Bool.or_self]

theorem endless_not_compiled (X : Leaves E I) (depth : Nat) :
    ∀ (fn : FunctionState E) (term : Term E) (code : Code I),
      compileExpr X depth fn term = .ok code → term.endless = false := by
  induction depth with
  | zero => intro fn term code compiled; cases compiled
  | succ depth induction =>
      intro fn term code compiled
      cases term with
      | expr e => rfl
      | function allowsReturn body =>
          rw [compileExpr] at compiled
          exact induction _ body code compiled
      | parts e terms =>
          rw [compileExpr] at compiled
          obtain ⟨termsCode, first, -⟩ := ok_of_bind compiled
          rw [Term.endless, terms_endless]
          exact any_false (compile_terms_ok first) fun part partCode => induction fn part partCode
      | ret value =>
          rw [compileExpr] at compiled
          split at compiled
          · cases compiled
          · obtain ⟨valueCode, first, -⟩ := ok_of_bind compiled
            rw [Term.endless, optional_endless]
            exact any_false (compile_value_ok first)
              fun part partCode => induction fn part partCode
      | tryOf body cases finallyBody =>
          rw [compileExpr] at compiled
          obtain ⟨bodyCode, first, compiled⟩ := ok_of_bind compiled
          obtain ⟨cascade, second, compiled⟩ := ok_of_bind compiled
          obtain ⟨cleanup, third, -⟩ := ok_of_bind compiled
          have bodyEnds := induction _ body bodyCode first
          have casesEnd := any_false (compile_catch_ok X second)
            fun part partCode => induction _ part partCode
          have finallyEnds := any_false (compile_finally_ok third)
            fun part partCode => induction fn part partCode
          simp only [Term.endless, cases_endless, optional_endless, bodyEnds, casesEnd,
            finallyEnds, Bool.or_self, Bool.false_or, Bool.and_eq_false_iff]
          cases returns : finallyBody.hasReturn with
          | false => exact Or.inl rfl
          | true =>
              have inner : ∃ body ∈ (fn.push finallyBody).finallys, body.hasReturn = true := by
                cases finallyBody with
                | none => cases returns
                | some c => exact ⟨c, List.mem_cons_self, returns⟩
              have noBody := no_return_compiled X depth _ body bodyCode inner first
              have noCase := any_false (compile_catch_ok X second)
                fun part partCode => no_return_compiled X depth _ part partCode inner
              exact Or.inr (by rw [noBody, cases_has_return, noCase]; rfl)

/-- Leaves and patterns that all compile. -/
def noCode : Leaves E Unit := fun _ => .ok []

theorem own_code_accepted (e : E) (message : String) :
    ownCode noCode e ≠ .error (.compileError message) := by
  simp [ownCode, noCode]

/-- Where every `return` is in place, nothing but the depth stops the compiler. -/
theorem placed_accepted (message : String) (depth : Nat) :
    ∀ (fn : FunctionState E) (term : Term E), term.placed fn.allowsReturn = true →
      (∀ body ∈ fn.finallys, body.placed fn.allowsReturn = true) →
      compileExpr noCode depth fn term ≠ .error (.compileError message) := by
  induction depth with
  | zero => intro fn term _ _; simp [compileExpr]
  | succ depth induction =>
      intro fn term placed around
      cases term with
      | expr e => exact own_code_accepted e message
      | parts e terms =>
          rw [Term.placed, terms_placed, List.all_eq_true] at placed
          rw [compileExpr]
          refine bind_ne (compile_terms_ne fun part member =>
            induction fn part (placed part member) around) fun code _ => ?_
          exact bind_ne (own_code_accepted e message) fun own _ => pure_ne _
      | function allowsReturn body =>
          rw [compileExpr]
          exact induction _ body placed (by simp)
      | ret value =>
          simp only [Term.placed, optional_placed, Bool.and_eq_true, List.all_eq_true] at placed
          rw [compileExpr, placed.1]
          simp only [Bool.not_true, Bool.false_eq_true, if_false]
          rw [placed.1] at around
          have inside : ∀ part : Term E, part.placed true = true →
              compileExpr noCode depth fn part ≠ .error (.compileError message) := by
            intro part partPlaced
            exact induction fn part (placed.1 ▸ partPlaced) (placed.1 ▸ around)
          refine bind_ne (compile_value_ne fun part member => inside part ?_) fun code _ => ?_
          · have here := placed.2 part member
            rwa [placed.1] at here
          · exact bind_ne (emit_ne fun body member => inside body (around body member))
              fun copies _ => pure_ne _
      | tryOf body cases finallyBody =>
          simp only [Term.placed, cases_placed, optional_placed, Bool.and_eq_true,
            List.all_eq_true] at placed
          obtain ⟨⟨bodyPlaced, casesPlaced⟩, finallyPlaced⟩ := placed
          have allowed : (fn.push finallyBody).allowsReturn = fn.allowsReturn := by
            cases finallyBody <;> rfl
          have around' : ∀ other ∈ (fn.push finallyBody).finallys,
              other.placed (fn.push finallyBody).allowsReturn = true := by
            rw [allowed]
            cases finallyBody with
            | none => exact around
            | some c =>
                intro other member
                rcases List.mem_cons.mp member with rfl | member
                · exact finallyPlaced other List.mem_cons_self
                · exact around other member
          rw [compileExpr]
          refine bind_ne (induction _ body (allowed ▸ bodyPlaced) around') fun bodyCode _ => ?_
          refine bind_ne (compile_catch_ne _ (compile_cases_ne _
            (fun e => own_code_accepted e message) fun part member =>
              induction _ part (allowed ▸ casesPlaced part member) around')) fun cascade _ => ?_
          exact bind_ne (compile_finally_ne fun part member =>
            induction fn part (finallyPlaced part member) around) fun cleanup _ => pure_ne _

theorem too_deep_of_endless (depth : Nat) {fn : FunctionState E} {term : Term E}
    (outside : fn.finallys = []) (placed : term.placed fn.allowsReturn = true)
    (endless : term.endless = true) : compileExpr noCode depth fn term = .error .tooDeep := by
  cases compiled : compileExpr noCode depth fn term with
  | ok code =>
      rw [endless_not_compiled noCode depth fn term code compiled] at endless
      cases endless
  | error failure =>
      cases failure with
      | tooDeep => rfl
      | compileError message =>
          exact absurd compiled (placed_accepted message depth fn term placed (by simp [outside]))

end Endless

/-! ## The claim -/

end Returns

/-- The state at the start of a method body. -/
def methodState : FunctionState String :=
  { allowsReturn := true, isTopLevel := false, finallys := [] }

/-- `try { return 1 } finally { println() }`. -/
def returnPastCleanup : Term String :=
  .tryOf (.ret (.some (.expr "1"))) .nil (.some (.expr "println()"))

/-- `try { return 1 } finally { return 2 }`. -/
def returnTwice : Term String :=
  .tryOf (.ret (.some (.expr "1"))) .nil (.some (.ret (.some (.expr "2"))))

end ProtoScala.Compiler.FinallyCopies
