import Mathlib.Tactic.TypeStar
import Mathlib.Tactic.Common

/-!
# Code that ends with a value, a `return` or an exception

A run takes a state and either does not end within its bound or ends in a state with
one of three completions. Runs are composed in order; a `return` or an exception leaves
the composition at once, except where a handler or a cleanup stands in its way.

What is returned may be changed on the way out (`mapReturn`), and every way of
composing runs commutes with that. `Returns` and `Yields` bound what a run may return
and what its value may be.
-/

namespace ProtoScala.Library.Completions

set_option autoImplicit false

/-- How code ends: with a value, by returning from the method around it, or by
throwing. -/
inductive Completion (ρ ε α : Type) where
  | value (result : α)
  | returned (result : ρ)
  | threw (exception : ε)

/-- `none`: the run is not over within its bound. -/
def Run (σ ρ ε α : Type) : Type := σ → Option (Completion ρ ε α × σ)

/-- What the code around a run supplies: a primitive never returns from a method. -/
abbrev Primitive (σ ε α : Type) : Type := σ → Option (Except ε α × σ)

namespace Run

variable {σ ρ ρ' ε α β : Type}

/-- What follows a completion: only a value lets the rest run. -/
def follow (next : α → Run σ ρ ε β) : Completion ρ ε α × σ → Option (Completion ρ ε β × σ)
  | (.value result, state) => next result state
  | (.returned result, state) => some (.returned result, state)
  | (.threw exception, state) => some (.threw exception, state)

instance : Monad (Run σ ρ ε) where
  pure result := fun state => some (.value result, state)
  bind first next := fun state => (first state).bind (follow next)

def ret (result : ρ) : Run σ ρ ε α := fun state => some (.returned result, state)

def throw (exception : ε) : Run σ ρ ε α := fun state => some (.threw exception, state)

/-- Nothing to run: the code is refused before it starts. -/
def refuse : Run σ ρ ε α := fun _ => none

def lifted : Except ε α × σ → Completion ρ ε α × σ
  | (.ok result, state) => (.value result, state)
  | (.error exception, state) => (.threw exception, state)

def lift (primitive : Primitive σ ε α) : Run σ ρ ε α := fun state =>
  (primitive state).map lifted

def caught (handler : ε → Run σ ρ ε α) :
    Completion ρ ε α × σ → Option (Completion ρ ε α × σ)
  | (.value result, state) => some (.value result, state)
  | (.returned result, state) => some (.returned result, state)
  | (.threw exception, state) => handler exception state

/-- The handler takes over when `body` throws. -/
def attempt (body : Run σ ρ ε α) (handler : ε → Run σ ρ ε α) : Run σ ρ ε α := fun state =>
  (body state).bind (caught handler)

def cleaned (cleanup : Run σ ρ ε β) :
    Completion ρ ε α × σ → Option (Completion ρ ε α × σ)
  | (completion, state) =>
      (cleanup state).bind (follow fun _ after => some (completion, after))

/-- The completion of `body` stands once `cleanup` has ended with a value. -/
def ensure (body : Run σ ρ ε α) (cleanup : Run σ ρ ε β) : Run σ ρ ε α := fun state =>
  (body state).bind (cleaned cleanup)

/-- `while`, for at most `fuel` rounds. -/
def loop (test : Run σ ρ ε Bool) (body : Run σ ρ ε β) : Nat → Run σ ρ ε Unit
  | 0 => refuse
  | fuel + 1 => do
      if ← test then
        let _ ← body
        loop test body fuel
      else
        pure ()

@[simp] theorem pure_apply (result : α) (state : σ) :
    (pure result : Run σ ρ ε α) state = some (.value result, state) := rfl

theorem bind_apply (first : Run σ ρ ε α) (next : α → Run σ ρ ε β) (state : σ) :
    (first >>= next) state = (first state).bind (follow next) := rfl

theorem run_id_map (first : Run σ ρ ε α) : id <$> first = first := by
  funext state
  show (first state).bind (follow fun result => pure result) = first state
  cases first state with
  | none => rfl
  | some ending => obtain ⟨_ | _ | _, _⟩ := ending <;> rfl

theorem run_bind_assoc (first : Run σ ρ ε α) (next : α → Run σ ρ ε β)
    {γ : Type} (last : β → Run σ ρ ε γ) :
    first >>= next >>= last = first >>= fun result => next result >>= last := by
  funext state
  simp only [bind_apply]
  cases first state with
  | none => rfl
  | some ending => obtain ⟨_ | _ | _, _⟩ := ending <;> rfl

instance : LawfulMonad (Run σ ρ ε) :=
  LawfulMonad.mk' (Run σ ρ ε) run_id_map (fun _ _ => rfl)
    fun first next last => run_bind_assoc first next last

/-! ## Changing what is returned -/

def changed (change : ρ → ρ') : Completion ρ ε α × σ → Completion ρ' ε α × σ
  | (.value result, state) => (.value result, state)
  | (.returned result, state) => (.returned (change result), state)
  | (.threw exception, state) => (.threw exception, state)

def mapReturn (change : ρ → ρ') (run : Run σ ρ ε α) : Run σ ρ' ε α := fun state =>
  (run state).map (changed change)

variable (change : ρ → ρ')

@[simp] theorem mapReturn_pure (result : α) :
    mapReturn change (pure result : Run σ ρ ε α) = pure result := rfl

@[simp] theorem mapReturn_ret (result : ρ) :
    mapReturn change (ret result : Run σ ρ ε α) = ret (change result) := rfl

@[simp] theorem mapReturn_throw (exception : ε) :
    mapReturn change (throw exception : Run σ ρ ε α) = throw exception := rfl

@[simp] theorem mapReturn_refuse :
    mapReturn change (refuse : Run σ ρ ε α) = refuse := rfl

@[simp] theorem mapReturn_lift (primitive : Primitive σ ε α) :
    mapReturn change (lift primitive : Run σ ρ ε α) = lift primitive := by
  funext state
  simp only [mapReturn, lift, Option.map_map]
  congr 1
  funext ending
  obtain ⟨_ | _, _⟩ := ending <;> rfl

@[simp] theorem mapReturn_bind (first : Run σ ρ ε α) (next : α → Run σ ρ ε β) :
    mapReturn change (first >>= next) =
      mapReturn change first >>= fun result => mapReturn change (next result) := by
  funext state
  simp only [mapReturn, bind_apply]
  cases first state with
  | none => rfl
  | some ending => obtain ⟨_ | _ | _, _⟩ := ending <;> rfl

@[simp] theorem mapReturn_map (into : α → β) (run : Run σ ρ ε α) :
    mapReturn change (into <$> run) = into <$> mapReturn change run :=
  mapReturn_bind change run fun result => pure (into result)

@[simp] theorem mapReturn_attempt (body : Run σ ρ ε α) (handler : ε → Run σ ρ ε α) :
    mapReturn change (attempt body handler) =
      attempt (mapReturn change body) fun exception => mapReturn change (handler exception) := by
  funext state
  simp only [mapReturn, attempt]
  cases body state with
  | none => rfl
  | some ending => obtain ⟨_ | _ | _, _⟩ := ending <;> rfl

@[simp] theorem mapReturn_ensure (body : Run σ ρ ε α) (cleanup : Run σ ρ ε β) :
    mapReturn change (ensure body cleanup) =
      ensure (mapReturn change body) (mapReturn change cleanup) := by
  funext state
  simp only [mapReturn, ensure]
  cases body state with
  | none => rfl
  | some ending =>
      obtain ⟨completion, after⟩ := ending
      simp only [Option.bind_some, Option.map_some]
      cases completion <;> simp only [cleaned, changed, mapReturn] <;> cases cleanup after with
      | none => rfl
      | some swept => obtain ⟨_ | _ | _, _⟩ := swept <;> rfl

@[simp] theorem mapReturn_ite (condition : Prop) [Decidable condition]
    (yes no : Run σ ρ ε α) :
    mapReturn change (if condition then yes else no) =
      if condition then mapReturn change yes else mapReturn change no := by
  split <;> rfl

@[simp] theorem mapReturn_loop (test : Run σ ρ ε Bool) (body : Run σ ρ ε β) (fuel : Nat) :
    mapReturn change (loop test body fuel) =
      loop (mapReturn change test) (mapReturn change body) fuel := by
  induction fuel with
  | zero => rfl
  | succ fuel ih => simp only [loop, mapReturn_bind, mapReturn_ite, mapReturn_pure, ih]

/-! ## What a run may return and what its value may be -/

def Returns (permitted : ρ → Prop) (run : Run σ ρ ε α) : Prop :=
  ∀ state result after, run state = some (.returned result, after) → permitted result

def Yields (permitted : α → Prop) (run : Run σ ρ ε α) : Prop :=
  ∀ state result after, run state = some (.value result, after) → permitted result

variable {permitted : ρ → Prop}

theorem returns_pure (result : α) : Returns permitted (pure result : Run σ ρ ε α) := by
  intro state other after ended
  cases ended

theorem returns_ret (result : ρ) (good : permitted result) :
    Returns permitted (ret result : Run σ ρ ε α) := by
  intro state other after ended
  cases ended
  exact good

theorem returns_throw (exception : ε) :
    Returns permitted (throw exception : Run σ ρ ε α) := by
  intro state other after ended
  cases ended

theorem returns_refuse : Returns permitted (refuse : Run σ ρ ε α) := by
  intro state other after ended
  cases ended

theorem returns_lift (primitive : Primitive σ ε α) :
    Returns permitted (lift primitive : Run σ ρ ε α) := by
  intro state result after ended
  unfold lift at ended
  cases supplied : primitive state with
  | none => simp [supplied] at ended
  | some ending => obtain ⟨_ | _, _⟩ := ending <;> simp [supplied, lifted] at ended

theorem returns_bind_on {early : α → Prop} (first : Run σ ρ ε α) (next : α → Run σ ρ ε β)
    (before : Returns permitted first) (yields : Yields early first)
    (rest : ∀ result, early result → Returns permitted (next result)) :
    Returns permitted (first >>= next) := by
  intro state result after ended
  rw [bind_apply] at ended
  cases run : first state with
  | none => simp [run] at ended
  | some ending =>
      obtain ⟨value | early | exception, middle⟩ := ending <;>
        simp only [run, Option.bind_some, follow] at ended
      · exact rest value (yields state value middle run) middle result after ended
      · cases ended
        exact before state result after run
      · cases ended

theorem returns_bind (first : Run σ ρ ε α) (next : α → Run σ ρ ε β)
    (before : Returns permitted first) (rest : ∀ result, Returns permitted (next result)) :
    Returns permitted (first >>= next) :=
  have any : Yields (fun _ => True) first := fun _ _ _ _ => trivial
  returns_bind_on first next before any fun result _ => rest result

theorem returns_attempt (body : Run σ ρ ε α) (handler : ε → Run σ ρ ε α)
    (inside : Returns permitted body) (handles : ∀ exception, Returns permitted (handler exception)) :
    Returns permitted (attempt body handler) := by
  intro state result after ended
  unfold attempt at ended
  cases run : body state with
  | none => simp [run] at ended
  | some ending =>
      obtain ⟨value | early | exception, middle⟩ := ending <;>
        simp only [run, Option.bind_some, caught] at ended
      · cases ended
      · cases ended
        exact inside state result after run
      · exact handles exception middle result after ended

theorem returns_ensure (body : Run σ ρ ε α) (cleanup : Run σ ρ ε β)
    (inside : Returns permitted body) (cleans : Returns permitted cleanup) :
    Returns permitted (ensure body cleanup) := by
  intro state result after ended
  unfold ensure at ended
  cases run : body state with
  | none => simp [run] at ended
  | some ending =>
      obtain ⟨completion, middle⟩ := ending
      simp only [run, Option.bind_some, cleaned] at ended
      cases swept : cleanup middle with
      | none => simp [swept] at ended
      | some swept' =>
          obtain ⟨value | early | exception, last⟩ := swept' <;>
            simp only [swept, Option.bind_some, follow] at ended <;> cases ended
          · exact inside state result middle run
          · exact cleans middle result after swept

theorem returns_loop (test : Run σ ρ ε Bool) (body : Run σ ρ ε β) (fuel : Nat)
    (tests : Returns permitted test) (inside : Returns permitted body) :
    Returns permitted (loop test body fuel) := by
  induction fuel with
  | zero => exact returns_refuse
  | succ fuel ih =>
      refine returns_bind test _ tests fun answer => ?_
      cases answer with
      | true => exact returns_bind body _ inside fun _ => ih
      | false => exact returns_pure ()

theorem yields_any (run : Run σ ρ ε α) : Yields (fun _ => True) run :=
  fun _ _ _ _ => trivial

theorem yields_pure {good : α → Prop} (result : α) (holds : good result) :
    Yields good (pure result : Run σ ρ ε α) := by
  intro state other after ended
  cases ended
  exact holds

theorem yields_ret {good : α → Prop} (result : ρ) :
    Yields good (ret result : Run σ ρ ε α) := by
  intro state other after ended
  cases ended

theorem yields_refuse {good : α → Prop} : Yields good (refuse : Run σ ρ ε α) := by
  intro state other after ended
  cases ended

/-- A value of two runs in sequence is a value of the second, run on one of the first. -/
theorem yields_bind {early : α → Prop} {good : β → Prop} (first : Run σ ρ ε α)
    (next : α → Run σ ρ ε β) (before : Yields early first)
    (rest : ∀ result, early result → Yields good (next result)) :
    Yields good (first >>= next) := by
  intro state result after ended
  rw [bind_apply] at ended
  cases run : first state with
  | none => simp [run] at ended
  | some ending =>
      obtain ⟨value | early | exception, middle⟩ := ending <;>
        simp only [run, Option.bind_some, follow] at ended
      · exact rest value (before state value middle run) middle result after ended
      · cases ended
      · cases ended

theorem yields_map {early : α → Prop} {good : β → Prop} (into : α → β) (run : Run σ ρ ε α)
    (before : Yields early run) (holds : ∀ result, early result → good (into result)) :
    Yields good (into <$> run) :=
  yields_bind run _ before fun result reached => yields_pure (into result) (holds result reached)

theorem returns_map (into : α → β) (run : Run σ ρ ε α) (inside : Returns permitted run) :
    Returns permitted (into <$> run) :=
  returns_bind run _ inside fun result => returns_pure (into result)

theorem returns_ite (condition : Prop) [Decidable condition] (yes no : Run σ ρ ε α)
    (first : condition → Returns permitted yes) (second : ¬condition → Returns permitted no) :
    Returns permitted (if condition then yes else no) := by
  split
  · exact first ‹_›
  · exact second ‹_›

/-- Only the results that the first run reaches matter to what follows it. -/
theorem bind_congr_reached (first : Run σ ρ ε α) (next other : α → Run σ ρ ε β)
    (same : ∀ result state after, first state = some (.value result, after) →
      next result = other result) :
    first >>= next = first >>= other := by
  funext state
  simp only [bind_apply]
  cases run : first state with
  | none => rfl
  | some ending =>
      obtain ⟨result | early | exception, after⟩ := ending
      · simp only [Option.bind_some, follow]
        rw [same result state after run]
      · rfl
      · rfl

/-! ## Runs that nothing after them tells apart -/

/-- A run with two results is known from the runs with one of them each. -/
theorem eq_of_map_eq (first second : Run σ ρ ε (α × β))
    (left : Prod.fst <$> first = Prod.fst <$> second)
    (right : Prod.snd <$> first = Prod.snd <$> second) : first = second := by
  funext state
  have lefts := congrFun left state
  have rights := congrFun right state
  simp only [map_eq_pure_bind, bind_apply] at lefts rights
  cases one : first state with
  | none =>
      cases two : second state with
      | none => rfl
      | some ending =>
          obtain ⟨result | early | exception, after⟩ := ending <;>
            simp [one, two, follow] at lefts
  | some ending =>
      cases two : second state with
      | none =>
          obtain ⟨result | early | exception, after⟩ := ending <;>
            simp [one, two, follow] at lefts
      | some ending' =>
          obtain ⟨⟨a, b⟩ | early | exception, after⟩ := ending <;>
            obtain ⟨⟨a', b'⟩ | early' | exception', after'⟩ := ending' <;>
            simp only [one, two, Option.bind_some, follow, pure_apply, Option.some.injEq,
              Prod.mk.injEq, Completion.value.injEq, Completion.returned.injEq,
              Completion.threw.injEq, reduceCtorEq, false_and] at lefts rights
          · rw [lefts.1, lefts.2, rights.1]
          · rw [lefts.1, lefts.2]
          · rw [lefts.1, lefts.2]

open Classical in
/-- A continuation that ends except after one result in one state. -/
noncomputable def stuckAfter (sample : β) (result : α) (state : σ) : α → Run σ ρ ε β :=
  fun other after => if other = result ∧ after = state then none else some (.value sample, after)

theorem value_of_bind_eq [Nonempty β] {first second : Run σ ρ ε α}
    (same : ∀ next : α → Run σ ρ ε β, first >>= next = second >>= next)
    {state after : σ} {result : α} (ended : first state = some (.value result, after)) :
    second state = some (.value result, after) := by
  obtain ⟨sample⟩ := ‹Nonempty β›
  have running := congrFun (same fun _ => pure sample) state
  have stuck := congrFun (same (stuckAfter sample result after)) state
  simp only [bind_apply, ended, Option.bind_some, follow] at running stuck
  cases run : second state with
  | none => simp [run, pure_apply] at running
  | some ending =>
      obtain ⟨other | early | exception, last⟩ := ending <;>
        simp only [run, Option.bind_some, follow, stuckAfter, and_self, if_true] at stuck
      · split at stuck
        · rename_i both
          rw [both.1, both.2]
        · cases stuck
      · cases stuck
      · cases stuck

/-- Two runs after which everything goes the same way are the same run. -/
theorem eq_of_bind_eq [Nonempty β] {first second : Run σ ρ ε α}
    (same : ∀ next : α → Run σ ρ ε β, first >>= next = second >>= next) : first = second := by
  funext state
  cases one : first state with
  | some ending =>
      obtain ⟨result | early | exception, after⟩ := ending
      · exact (value_of_bind_eq same one).symm
      all_goals
        have stopped := congrFun (same fun _ => refuse) state
        simp only [bind_apply, one, Option.bind_some, follow] at stopped
        cases two : second state with
        | none => simp [two] at stopped
        | some ending =>
            obtain ⟨other | early | exception, last⟩ := ending
            · have back := value_of_bind_eq (fun next => (same next).symm) two
              rw [one] at back
              cases back
            all_goals
              simp only [two, Option.bind_some, follow] at stopped
              cases stopped <;> rfl
  | none =>
      cases two : second state with
      | none => rfl
      | some ending =>
          have stopped := congrFun (same fun _ => refuse) state
          simp only [bind_apply, one, two, Option.bind_some, Option.bind_none] at stopped
          obtain ⟨other | early | exception, last⟩ := ending
          · have back := value_of_bind_eq (fun next => (same next).symm) two
            rw [one] at back
            cases back
          all_goals cases stopped

end Run

end ProtoScala.Library.Completions
