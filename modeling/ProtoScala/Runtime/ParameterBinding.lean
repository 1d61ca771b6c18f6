import Mathlib.Data.List.Basic
import Mathlib.Data.List.Nodup
import Mathlib.Data.List.Count
import Mathlib.Data.List.Perm.Subperm

/-!
# Binding parameters by position, by name and by default

A call's positional arguments fill the first slots of the callee's frame. The prologue
then binds keywords and runs the defaults of what is still open, in parameter order.

The count of the arguments is checked before any keyword is looked at, and a repeated
parameter is neither filled nor open. So a callee with a repeated parameter refuses a call
whose fixed parameters come by name, and drops its extra arguments when a keyword names the
repeated parameter. The keywords are counted by the parameters they match.
-/

namespace ProtoScala.Runtime.ParameterBinding

set_option autoImplicit false

/-- The slots of a frame: the parameters, then locals and captures. -/
abbrev Slots (V : Type) := Nat → Option V

/-- A linked module as the prologue reads it. A method has `this` as its first parameter.
A default block runs on the frame's slots; the compiler leaves the parameters from its own
on out of its scope. -/
structure BytecodeModule (V X : Type) where
  name : String
  paramNames : List String
  isMethod : Bool
  isVariadic : Bool
  defaultBlock : Nat → Option (Slots V → Except X V)
  variadic_named : isVariadic = true → paramNames ≠ []
  default_scope : ∀ i block, defaultBlock i = some block → ∀ σ τ : Slots V,
    (∀ k, k < i ∨ paramNames.length ≤ k → σ k = τ k) → block σ = block τ

/-- `thrown` is the exception of a default block. -/
inductive Raised (X : Type) where
  | compileError (message : String)
  | illegalArgument (message : String)
  | thrown (error : X)

@[ext]
structure Frame (V : Type) where
  slots : Slots V
  filled : Nat → Bool

abbrev Keywords (V : Type) := List (String × V)

section Model

variable {V X : Type} (mod : BytecodeModule V X)

namespace BytecodeModule

def arity : Nat :=
  mod.paramNames.length

def fixed : Nat :=
  if mod.isVariadic then mod.arity - 1 else mod.arity

def paramName (i : Nat) : String :=
  mod.paramNames.getD i ""

def hasDefaults : Bool :=
  (List.range mod.arity).any fun i => (mod.defaultBlock i).isSome

end BytecodeModule

namespace Frame

variable (frame : Frame V)

def set (i : Nat) (value : V) : Frame V where
  slots := fun k => if k = i then some value else frame.slots k
  filled := fun k => if k = i then true else frame.filled k

end Frame

/-- The first keyword that names no parameter. -/
def unmatchedKeywordName (keywords : Keywords V) : String :=
  match keywords.find? fun keyword => !mod.paramNames.contains keyword.1 with
  | some keyword => keyword.1
  | none => "?"

def bindKeyword (keywords : Keywords V) (i : Nat) (state : Frame V × Nat) :
    Except (Raised X) (Frame V × Nat) :=
  match keywords.lookup (mod.paramName i) with
  | none => .ok state
  | some value =>
    if state.1.filled i then
      .error (.illegalArgument
        (mod.name ++ " received parameter '" ++ mod.paramName i ++ "' twice"))
    else
      .ok (state.1.set i value, state.2 + 1)

/-- The loop over the parameters before the `n`-th; the second part counts the matches. -/
def bindKeywords (keywords : Keywords V) :
    Nat → Frame V × Nat → Except (Raised X) (Frame V × Nat)
  | 0, state => .ok state
  | n + 1, state => do
    let state ← bindKeywords keywords n state
    bindKeyword mod keywords n state

def bindDefault (i : Nat) (frame : Frame V) : Except (Raised X) (Frame V) :=
  if frame.filled i then
    .ok frame
  else
    match mod.defaultBlock i with
    | none =>
      .error (.illegalArgument
        (mod.name ++ " is missing argument '" ++ mod.paramName i ++ "'"))
    | some block =>
      match block frame.slots with
      | .ok value => .ok (frame.set i value)
      | .error error => .error (.thrown error)

def bindDefaults : Nat → Frame V → Except (Raised X) (Frame V)
  | 0, frame => .ok frame
  | n + 1, frame => do
    let frame ← bindDefaults n frame
    bindDefault mod n frame

def bindKeywordsAndDefaults (keywords : Option (Keywords V)) (slots : Slots V)
    (positional : Nat) : Except (Raised X) (Slots V) := do
  let frame : Frame V := ⟨slots, fun k => k < positional && k < mod.arity⟩
  let frame ← match keywords with
    | none => .ok frame
    | some keywords =>
      if mod.arity = 0 ∧ 0 < keywords.length then
        .error (.illegalArgument (mod.name ++ " does not take named arguments"))
      else do
        let (frame, matched) ← bindKeywords mod keywords mod.arity (frame, 0)
        if matched ≠ keywords.length then
          .error (.illegalArgument (mod.name ++ " has no parameter named '" ++
            unmatchedKeywordName mod keywords ++ "'"))
        else
          .ok frame
  let frame ← bindDefaults mod mod.arity frame
  .ok frame.slots

variable (newList : List V → V)

/-- The slots when the prologue has placed the positional arguments and the captures. -/
def placeArguments (args : List V) (captured : Slots V) : Slots V := fun k =>
  if k < min args.length mod.fixed then args[k]?
  else if mod.isVariadic && k == mod.fixed then some (newList (args.drop mod.fixed))
  else if k < mod.arity then none
  else captured k

/-- The prologue of `execute` up to the first instruction of the body. -/
def execute (args : List V) (keywords : Option (Keywords V)) (captured : Slots V) :
    Except (Raised X) (Slots V) :=
  let mayBind := !mod.isVariadic && (keywords.isSome || mod.hasDefaults)
  let accepted :=
    if mod.isVariadic then decide (mod.fixed ≤ args.length)
    else if mayBind then decide (args.length ≤ mod.arity)
    else args.length == mod.arity
  if !accepted then
    let self := if mod.isMethod then 1 else 0
    .error (.illegalArgument ("wrong number of arguments for " ++ mod.name ++ ": expected " ++
      toString (mod.fixed - self) ++ (if mod.isVariadic then " or more" else "") ++
      ", got " ++ toString (args.length - self)))
  else
    let positional := min args.length mod.fixed
    let slots := placeArguments mod newList args captured
    if keywords.isSome || (mod.hasDefaults && decide (positional < mod.fixed)) then
      bindKeywordsAndDefaults mod keywords slots positional
    else
      .ok slots

/-- The loop of `splitNamedArgs` over the keywords of a call. -/
def specifiedTwice : List String → List String → Option String
  | _, [] => none
  | seen, name :: names =>
    if name ∈ seen then some name else specifiedTwice (seen ++ [name]) names

/-- A call: without keywords it passes none. -/
def call (args : List V) (keywords : Keywords V) (captured : Slots V) :
    Except (Raised X) (Slots V) :=
  match specifiedTwice [] (keywords.map Prod.fst) with
  | some name => .error (.compileError ("parameter " ++ name ++ " is specified twice"))
  | none =>
    execute mod newList args (if keywords.isEmpty then none else some keywords) captured

end Model

/-! ## What a call should do -/

section Meaning

variable {V X : Type} (mod : BytecodeModule V X) (newList : List V → V)

def named (keywords : Keywords V) (i : Nat) : Prop :=
  mod.paramName i ∈ keywords.map Prod.fst

/-- The values that come with the call, and the captures. Extra arguments are the value of
the repeated parameter. -/
def given (args : List V) (keywords : Keywords V) (captured : Slots V) : Slots V := fun k =>
  if k < min args.length mod.fixed then args[k]?
  else if k < mod.arity then
    match keywords.lookup (mod.paramName k) with
    | some value => some value
    | none =>
      if mod.isVariadic && k == mod.fixed then some (newList (args.drop mod.fixed)) else none
  else captured k

/-- `ρ` binds each parameter before the `n`-th once: to the value given for it, or to its
default, evaluated on `ρ` itself. A default reads no later parameter. -/
structure Bound (values : Slots V) (n : Nat) (ρ : Slots V) : Prop where
  captures : ∀ k, mod.arity ≤ k → ρ k = values k
  passed : ∀ i < n, ∀ value, values i = some value → ρ i = some value
  defaults : ∀ i < n, values i = none →
    ∃ block value, mod.defaultBlock i = some block ∧ block ρ = .ok value ∧ ρ i = some value

/-- The first default before the `n`-th that does not return raises `error`. -/
def Stopped (values : Slots V) (n : Nat) (error : X) : Prop :=
  ∃ i < n, ∃ block ρ, Bound mod values i ρ ∧ values i = none ∧
    mod.defaultBlock i = some block ∧ block ρ = .error error

/-- What is wrong with a call. -/
inductive Faulty (args : List V) (keywords : Keywords V) : Prop where
  | tooMany (plain : mod.isVariadic = false) (more : mod.arity < args.length)
  | unknown (name : String) (is_keyword : name ∈ keywords.map Prod.fst)
      (no_parameter : name ∉ mod.paramNames)
  | repeated (twice : ¬ (keywords.map Prod.fst).Nodup)
  | byPosition (i : Nat) (below : i < mod.arity) (passed : i < args.length)
      (by_name : named mod keywords i)
  | missing (i : Nat) (below : i < mod.arity) (not_passed : args.length ≤ i)
      (not_named : ¬ named mod keywords i) (no_default : mod.defaultBlock i = none)
      (not_repeated : ¬ (mod.isVariadic = true ∧ i = mod.fixed))

/-- A faulty call raises. Any other binds every parameter, unless a default raises. -/
def BindsEach (args : List V) (keywords : Keywords V) (captured : Slots V) : Prop :=
  (Faulty mod args keywords → ∃ error, call mod newList args keywords captured = .error error) ∧
  (¬ Faulty mod args keywords →
    (∃ ρ, call mod newList args keywords captured = .ok ρ ∧
      Bound mod (given mod newList args keywords captured) mod.arity ρ) ∨
    ∃ error, call mod newList args keywords captured = .error (.thrown error) ∧
      Stopped mod (given mod newList args keywords captured) mod.arity error)

/-- The parameters before the `n`-th that a keyword names. -/
def matchedParameters (keywords : Keywords V) (n : Nat) : Nat :=
  (List.range n).countP fun i => (keywords.lookup (mod.paramName i)).isSome

/-- The calls that go wrong: a callee with a repeated parameter gets too few arguments by
position, or gets its repeated parameter both ways; or a keyword names two parameters, and
the number of parameters that are named hides an unknown keyword or pretends one. -/
inductive Slip (args : List V) (keywords : Keywords V) (captured : Slots V) : Prop where
  | tooFew (variadic : mod.isVariadic = true) (fewer : args.length < mod.fixed)
      (sound : ¬ Faulty mod args keywords)
  | extrasDropped (variadic : mod.isVariadic = true) (more : mod.fixed < args.length)
      (only : keywords.map Prod.fst = [mod.paramName mod.fixed])
      (own_name : ∀ i < mod.fixed, mod.paramName i ≠ mod.paramName mod.fixed)
  | countedTwice (plain : mod.isVariadic = false) (sound : ¬ Faulty mod args keywords)
      (differs : matchedParameters mod keywords mod.arity ≠ keywords.length)
  | hidden (plain : mod.isVariadic = false) (name : String)
      (is_keyword : name ∈ keywords.map Prod.fst) (no_parameter : name ∉ mod.paramNames)
      (same : matchedParameters mod keywords mod.arity = keywords.length)
      (distinct : (keywords.map Prod.fst).Nodup) (fits : args.length ≤ mod.arity)
      (by_one : ∀ i < args.length, ¬ named mod keywords i)
      (binds : ∃ ρ, Bound mod (given mod newList args keywords captured) mod.arity ρ)

end Meaning

/-! ## The two loops -/

section Loops

variable {V X : Type} (mod : BytecodeModule V X)

theorem specified_twice_none (seen names : List String) :
    specifiedTwice seen names = none ↔ names.Nodup ∧ ∀ name ∈ names, name ∉ seen := by
  induction names generalizing seen with
  | nil => simp [specifiedTwice]
  | cons name names ih =>
    by_cases old : name ∈ seen
    · simp [specifiedTwice, old]
    · simp only [specifiedTwice, old, if_false, ih, List.nodup_cons, List.mem_append,
        List.mem_singleton, List.forall_mem_cons, not_or]
      grind

theorem lookup_named (keywords : Keywords V) (i : Nat) :
    (keywords.lookup (mod.paramName i)).isSome = true ↔ named mod keywords i := by
  unfold named
  induction keywords with
  | nil => simp
  | cons keyword keywords ih =>
    by_cases same : mod.paramName i = keyword.1
    · simp [List.lookup_cons, same]
    · have differs : (mod.paramName i == keyword.1) = false := by simpa using same
      simp [List.lookup_cons, differs, same, ih]

theorem matched_succ (keywords : Keywords V) (n : Nat) :
    matchedParameters mod keywords (n + 1) = matchedParameters mod keywords n +
      if (keywords.lookup (mod.paramName n)).isSome then 1 else 0 := by
  simp [matchedParameters, List.range_succ, List.countP_append, List.countP_singleton]

def withKeywords (keywords : Keywords V) (n : Nat) (frame : Frame V) : Frame V where
  slots := fun k =>
    if k < n ∧ (keywords.lookup (mod.paramName k)).isSome = true then
      keywords.lookup (mod.paramName k)
    else frame.slots k
  filled := fun k =>
    frame.filled k || (decide (k < n) && (keywords.lookup (mod.paramName k)).isSome)

theorem bind_keywords_ok (keywords : Keywords V) (frame : Frame V) (n : Nat)
    (once : ∀ i < n, named mod keywords i → frame.filled i = false) :
    bindKeywords mod keywords n (frame, 0) =
      .ok (withKeywords mod keywords n frame, matchedParameters mod keywords n) := by
  induction n with
  | zero => simp [bindKeywords, withKeywords, matchedParameters]
  | succ n ih =>
    rw [bindKeywords, ih fun i below => once i (Nat.lt_succ_of_lt below), matched_succ]
    simp only [bind, Except.bind, bindKeyword]
    cases found : keywords.lookup (mod.paramName n) with
    | none =>
      have same : withKeywords mod keywords (n + 1) frame = withKeywords mod keywords n frame := by
        ext k <;> simp only [withKeywords] <;> grind
      simp [same]
    | some value =>
      have open_slot : frame.filled n = false :=
        once n (Nat.lt_succ_self n) ((lookup_named mod keywords n).1 (by simp [found]))
      have still_open : (withKeywords mod keywords n frame).filled n = false := by
        simp [withKeywords, open_slot]
      have same : withKeywords mod keywords (n + 1) frame =
          (withKeywords mod keywords n frame).set n value := by
        ext k <;> simp only [withKeywords, Frame.set] <;> grind
      simp [still_open, same]

theorem bind_keywords_twice (keywords : Keywords V) (frame : Frame V) (n : Nat)
    (twice : ∃ i < n, named mod keywords i ∧ frame.filled i = true) :
    ∃ message, bindKeywords mod keywords n (frame, 0) =
      .error (.illegalArgument message : Raised X) := by
  induction n with
  | zero =>
    obtain ⟨i, below, -⟩ := twice
    exact absurd below (Nat.not_lt_zero i)
  | succ n ih =>
    rw [bindKeywords]
    by_cases earlier : ∃ i < n, named mod keywords i ∧ frame.filled i = true
    · obtain ⟨message, raised⟩ := ih earlier
      exact ⟨message, by rw [raised]; rfl⟩
    · obtain ⟨i, below, by_name, is_filled⟩ := twice
      have last : i = n := by
        by_contra differs
        exact earlier ⟨i, by omega, by_name, is_filled⟩
      subst last
      rw [bind_keywords_ok mod keywords frame i fun k below by_name =>
        Bool.eq_false_iff.2 fun is_filled => earlier ⟨k, below, by_name, is_filled⟩]
      obtain ⟨value, found⟩ := Option.isSome_iff_exists.1 ((lookup_named mod keywords i).2 by_name)
      simp [bind, Except.bind, bindKeyword, found, withKeywords, is_filled]

theorem Bound.next_passed {values ρ : Slots V} {n : Nat} {value : V}
    (bound : Bound mod values n ρ) (passed : values n = some value) (placed : ρ n = some value) :
    Bound mod values (n + 1) ρ where
  captures := bound.captures
  passed i below v is_passed := by
    rcases Nat.lt_succ_iff_lt_or_eq.1 below with earlier | rfl
    · exact bound.passed i earlier v is_passed
    · rw [placed, ← passed, is_passed]
  defaults i below is_open := by
    rcases Nat.lt_succ_iff_lt_or_eq.1 below with earlier | rfl
    · exact bound.defaults i earlier is_open
    · rw [passed] at is_open
      exact absurd is_open (Option.some_ne_none value)

theorem Bound.next_default {values ρ : Slots V} {n : Nat} {block : Slots V → Except X V}
    {value : V} (bound : Bound mod values n ρ) (below_arity : n < mod.arity)
    (is_open : values n = none) (has_default : mod.defaultBlock n = some block)
    (returned : block ρ = .ok value) :
    Bound mod values (n + 1) fun k => if k = n then some value else ρ k := by
  have same : ∀ i block', i ≤ n → mod.defaultBlock i = some block' →
      block' (fun k => if k = n then some value else ρ k) = block' ρ := by
    intro i block' upto default'
    refine mod.default_scope i block' default' _ _ fun k visible => ?_
    have other : k ≠ n := by
      rcases visible with earlier | later
      · omega
      · exact Nat.ne_of_gt (Nat.lt_of_lt_of_le below_arity later)
    simp [other]
  constructor
  · intro k above
    have other : k ≠ n := Nat.ne_of_gt (Nat.lt_of_lt_of_le below_arity above)
    simpa [other] using bound.captures k above
  · intro i below v is_passed
    have other : i ≠ n := by
      rintro rfl
      rw [is_open] at is_passed
      exact absurd is_passed (Option.some_ne_none v).symm
    simpa [other] using bound.passed i (by omega) v is_passed
  · intro i below is_open'
    rcases Nat.lt_succ_iff_lt_or_eq.1 below with earlier | rfl
    · obtain ⟨block', v, default', returned', placed⟩ := bound.defaults i earlier is_open'
      refine ⟨block', v, default', ?_, ?_⟩
      · rw [same i block' (Nat.le_of_lt earlier) default', returned']
      · simpa [Nat.ne_of_lt earlier] using placed
    · exact ⟨block, value, has_default, (same i block (Nat.le_refl i) has_default).trans returned,
        by simp⟩

/-- Two frames that bind the same parameters agree on them, so the order leaves no choice. -/
theorem Bound.agree {values ρ σ : Slots V} {n m : Nat} (left : Bound mod values n ρ)
    (right : Bound mod values m σ) (upto : m ≤ n) : ∀ k < m, ρ k = σ k := by
  intro k
  induction k using Nat.strongRecOn with
  | ind k ih =>
    intro below
    cases passed : values k with
    | some value =>
      rw [left.passed k (by omega) value passed, right.passed k below value passed]
    | none =>
      obtain ⟨block, v, has_default, returned, placed⟩ := left.defaults k (by omega) passed
      obtain ⟨block', v', has_default', returned', placed'⟩ := right.defaults k below passed
      obtain rfl : block = block' := Option.some.inj (has_default.symm.trans has_default')
      have same : block ρ = block σ := by
        refine mod.default_scope k block has_default ρ σ fun j visible => ?_
        rcases visible with earlier | later
        · exact ih j earlier (by omega)
        · rw [left.captures j later, right.captures j later]
      rw [returned, returned'] at same
      rw [placed, placed', Except.ok.inj same]

theorem Bound.not_stopped {values ρ : Slots V} {n : Nat} {error : X}
    (bound : Bound mod values n ρ) : ¬ Stopped mod values n error := by
  rintro ⟨i, below, block, σ, earlier, is_open, has_default, raised⟩
  obtain ⟨block', v, has_default', returned, -⟩ := bound.defaults i below is_open
  obtain rfl : block = block' := Option.some.inj (has_default.symm.trans has_default')
  have same : block ρ = block σ := by
    refine mod.default_scope i block has_default ρ σ fun k visible => ?_
    rcases visible with before | later
    · exact bound.agree mod earlier (Nat.le_of_lt below) k before
    · rw [bound.captures k later, earlier.captures k later]
  rw [returned, raised] at same
  exact absurd same (by simp)

/-- How a run that is not refused ends: the parameters before the `n`-th are bound, one has
no value, or a default raised. -/
def Outcome (values : Slots V) (n : Nat) (result : Except (Raised X) (Slots V)) : Prop :=
  (∃ ρ, result = .ok ρ ∧ Bound mod values n ρ) ∨
  ((∃ message, result = .error (.illegalArgument message)) ∧
    ∃ i < n, values i = none ∧ mod.defaultBlock i = none) ∨
  ∃ error, result = .error (.thrown error) ∧ Stopped mod values n error

theorem bind_default_open {i : Nat} {frame : Frame V} (is_open : frame.filled i = false)
    {block : Slots V → Except X V} (has_default : mod.defaultBlock i = some block) :
    bindDefault mod i frame = match block frame.slots with
      | .ok value => .ok (frame.set i value)
      | .error error => .error (.thrown error) := by
  simp [bindDefault, is_open, has_default]

/-- After `n` steps the loop has not touched the parameters from the `n`-th on. -/
theorem bind_defaults (values : Slots V) (frame : Frame V) (start : frame.slots = values)
    (marks : ∀ k < mod.arity, frame.filled k = (values k).isSome) (n : Nat)
    (upto : n ≤ mod.arity) :
    (∃ result, bindDefaults mod n frame = .ok result ∧ Bound mod values n result.slots ∧
      ∀ k, n ≤ k → result.slots k = values k ∧ result.filled k = frame.filled k) ∨
    ((∃ message, bindDefaults mod n frame = .error (.illegalArgument message)) ∧
      ∃ i < n, values i = none ∧ mod.defaultBlock i = none) ∨
    ∃ error, bindDefaults mod n frame = .error (.thrown error) ∧ Stopped mod values n error := by
  induction n with
  | zero =>
    refine .inl ⟨frame, rfl, ⟨?_, ?_, ?_⟩, ?_⟩
    · intro k _
      rw [start]
    · intro i below
      exact absurd below (Nat.not_lt_zero i)
    · intro i below
      exact absurd below (Nat.not_lt_zero i)
    · intro k _
      exact ⟨by rw [start], rfl⟩
  | succ n ih =>
    have below_arity : n < mod.arity := upto
    rcases ih (Nat.le_of_lt below_arity) with ⟨result, run, bound, rest⟩ | ⟨⟨message, run⟩, i, below, facts⟩ |
      ⟨error, run, i, below, facts⟩
    · obtain ⟨slot, mark⟩ := rest n (Nat.le_refl n)
      rw [marks n below_arity] at mark
      have step : bindDefaults mod (n + 1) frame = bindDefault mod n result := by
        rw [bindDefaults, run]
        rfl
      rw [step]
      cases passed : values n with
      | some value =>
        have is_filled : result.filled n = true := by simp [mark, passed]
        refine .inl ⟨result, by simp [bindDefault, is_filled], ?_, fun k above => rest k (by omega)⟩
        exact bound.next_passed mod passed (slot.trans passed)
      | none =>
        have is_open : result.filled n = false := by simp [mark, passed]
        cases has_default : mod.defaultBlock n with
        | none =>
          refine .inr (.inl ⟨?_, n, Nat.lt_succ_self n, passed, has_default⟩)
          simp [bindDefault, is_open, has_default]
        | some block =>
          rw [bind_default_open mod is_open has_default]
          cases returned : block result.slots with
          | ok value =>
            refine .inl ⟨result.set n value, rfl, ?_, ?_⟩
            · exact bound.next_default mod below_arity passed has_default returned
            · intro k above
              have other : k ≠ n := by omega
              obtain ⟨same_slot, same_mark⟩ := rest k (by omega)
              simp [Frame.set, other, same_slot, same_mark]
          | error error =>
            exact .inr (.inr ⟨error, rfl, n, Nat.lt_succ_self n, block, result.slots, bound, passed,
              has_default, returned⟩)
    · refine .inr (.inl ⟨⟨message, ?_⟩, i, Nat.lt_succ_of_lt below, facts⟩)
      rw [bindDefaults, run]
      rfl
    · refine .inr (.inr ⟨error, ?_, i, Nat.lt_succ_of_lt below, facts⟩)
      rw [bindDefaults, run]
      rfl

theorem defaults_outcome (values : Slots V) (frame : Frame V) (start : frame.slots = values)
    (marks : ∀ k < mod.arity, frame.filled k = (values k).isSome) :
    Outcome mod values mod.arity (do
      let frame ← bindDefaults mod mod.arity frame
      .ok frame.slots) := by
  rcases bind_defaults mod values frame start marks mod.arity (Nat.le_refl _) with
    ⟨result, run, bound, -⟩ | ⟨⟨message, run⟩, facts⟩ | ⟨error, run, facts⟩
  · exact .inl ⟨result.slots, by rw [run]; rfl, bound⟩
  · exact .inr (.inl ⟨⟨message, by rw [run]; rfl⟩, facts⟩)
  · exact .inr (.inr ⟨error, by rw [run]; rfl, facts⟩)

end Loops

/-! ## The call -/

section Calls

variable {V X : Type} (mod : BytecodeModule V X) (newList : List V → V)

theorem fixed_plain (plain : mod.isVariadic = false) : mod.fixed = mod.arity := by
  simp [BytecodeModule.fixed, plain]

theorem fixed_variadic (variadic : mod.isVariadic = true) : mod.arity = mod.fixed + 1 := by
  have named := List.length_pos_iff.2 (mod.variadic_named variadic)
  simp only [BytecodeModule.fixed, variadic, if_true, BytecodeModule.arity] at *
  omega

theorem fixed_le : mod.fixed ≤ mod.arity := by
  unfold BytecodeModule.fixed
  split <;> omega

theorem param_name_mem {i : Nat} (below : i < mod.arity) :
    mod.paramName i ∈ mod.paramNames := by
  have below' : i < mod.paramNames.length := below
  simp [BytecodeModule.paramName, List.getElem?_eq_getElem below']

theorem mem_param_names {name : String} (is_name : name ∈ mod.paramNames) :
    ∃ i < mod.arity, mod.paramName i = name := by
  obtain ⟨i, below, rfl⟩ := List.getElem_of_mem is_name
  exact ⟨i, below, by simp [BytecodeModule.paramName, List.getElem?_eq_getElem below]⟩

/-- An open parameter has no value in the call. -/
theorem given_none_iff (args : List V) (keywords : Keywords V) (captured : Slots V) {i : Nat}
    (below : i < mod.arity) :
    given mod newList args keywords captured i = none ↔
      ¬ i < min args.length mod.fixed ∧ ¬ named mod keywords i ∧
        ¬ (mod.isVariadic = true ∧ i = mod.fixed) := by
  unfold given
  by_cases by_position : i < min args.length mod.fixed
  · have passed : i < args.length := by omega
    simp [by_position, passed]
  · cases found : keywords.lookup (mod.paramName i) with
    | some value =>
      have by_name := (lookup_named mod keywords i).1 (by simp [found])
      simp [by_position, below, by_name]
    | none =>
      have absent : ¬ named mod keywords i := by
        rw [← lookup_named, found]
        simp
      simp [by_position, below, absent]

/-- The slots the prologue has placed are the given ones where no keyword names a slot. -/
theorem place_given (args : List V) (keywords : Keywords V) (captured : Slots V) (k : Nat)
    (absent : keywords.lookup (mod.paramName k) = none ∨ mod.arity ≤ k) :
    placeArguments mod newList args captured k = given mod newList args keywords captured k := by
  have bound := fixed_le mod
  unfold placeArguments given
  by_cases by_position : k < min args.length mod.fixed
  · simp [by_position]
  · by_cases below : k < mod.arity
    · have none_found := absent.resolve_right (by omega)
      simp [by_position, below, none_found]
    · have not_repeated : ¬ (mod.isVariadic = true ∧ k = mod.fixed) := by
        rintro ⟨variadic, rfl⟩
        have := fixed_variadic mod variadic
        omega
      simp [by_position, below, not_repeated]

theorem given_named (args : List V) (keywords : Keywords V) (captured : Slots V) {k : Nat}
    (below : k < mod.arity) (not_by_position : ¬ k < min args.length mod.fixed)
    {value : V} (found : keywords.lookup (mod.paramName k) = some value) :
    given mod newList args keywords captured k = some value := by
  simp [given, not_by_position, below, found]

/-- What `execute` refuses before it runs a default. -/
inductive Refused (args : List V) (keywords : Keywords V) : Prop where
  | tooFew (variadic : mod.isVariadic = true) (fewer : args.length < mod.fixed)
  | tooMany (plain : mod.isVariadic = false) (more : mod.arity < args.length)
  | byPosition (i : Nat) (passed : i < min args.length mod.fixed) (by_name : named mod keywords i)
  | unmatched (differs : matchedParameters mod keywords mod.arity ≠ keywords.length)

def Raises {R : Type} (result : Except (Raised X) R) : Prop :=
  ∃ message, result = .error (.illegalArgument message)

section Keywords

variable (args : List V) (keywords : Keywords V) (captured : Slots V)

/-- The frame before the keyword loop. -/
def startFrame : Frame V where
  slots := placeArguments mod newList args captured
  filled := fun k => k < min args.length mod.fixed && k < mod.arity

theorem start_filled (k : Nat) :
    (startFrame mod newList args captured).filled k = true ↔ k < min args.length mod.fixed := by
  have bound := fixed_le mod
  simp only [startFrame, Bool.and_eq_true, decide_eq_true_eq]
  omega

/-- The keyword loop completes the given values. -/
theorem keyword_slots (free : ∀ i < min args.length mod.fixed, ¬ named mod keywords i) :
    (withKeywords mod keywords mod.arity (startFrame mod newList args captured)).slots =
      given mod newList args keywords captured := by
  funext k
  simp only [withKeywords]
  by_cases hit : k < mod.arity ∧ (keywords.lookup (mod.paramName k)).isSome = true
  · obtain ⟨value, found⟩ := Option.isSome_iff_exists.1 hit.2
    have not_by_position : ¬ k < min args.length mod.fixed := fun passed =>
      free k passed ((lookup_named mod keywords k).1 hit.2)
    rw [if_pos hit, found, given_named mod newList args keywords captured hit.1 not_by_position found]
  · rw [if_neg hit]
    refine place_given mod newList args keywords captured k ?_
    rw [not_and_or, Option.not_isSome_iff_eq_none, Nat.not_lt] at hit
    exact hit.symm

theorem keyword_marks (complete : mod.isVariadic = true → named mod keywords mod.fixed)
    (k : Nat) (below : k < mod.arity) :
    (withKeywords mod keywords mod.arity (startFrame mod newList args captured)).filled k =
      (given mod newList args keywords captured k).isSome := by
  rw [Bool.eq_iff_iff, Option.isSome_iff_ne_none, ne_eq,
    given_none_iff mod newList args keywords captured below]
  simp only [withKeywords, Bool.or_eq_true, Bool.and_eq_true, decide_eq_true_eq, start_filled,
    lookup_named]
  constructor
  · rintro (passed | ⟨-, by_name⟩) ⟨not_passed, not_named, -⟩
    · exact not_passed passed
    · exact not_named by_name
  · intro some_value
    by_contra neither
    rw [not_or, not_and] at neither
    exact some_value ⟨neither.1, neither.2 below, fun ⟨variadic, last⟩ =>
      neither.2 below (last ▸ complete variadic)⟩

/-- `bindKeywordsAndDefaults` on a call with keywords. -/
theorem bind_keywords_and_defaults (nonempty : keywords ≠ [])
    (complete : mod.isVariadic = true → named mod keywords mod.fixed)
    (free : ∀ i < min args.length mod.fixed, ¬ named mod keywords i)
    (counted : matchedParameters mod keywords mod.arity = keywords.length) :
    Outcome mod (given mod newList args keywords captured) mod.arity
      (bindKeywordsAndDefaults mod (some keywords) (placeArguments mod newList args captured)
        (min args.length mod.fixed)) := by
  have some_parameter : ¬ (mod.arity = 0 ∧ 0 < keywords.length) := by
    rintro ⟨no_parameter, -⟩
    rw [no_parameter] at counted
    exact nonempty (List.length_eq_zero_iff.1 counted.symm)
  have loop := bind_keywords_ok mod keywords (X := X) (startFrame mod newList args captured)
    mod.arity fun i _ by_name => Bool.eq_false_iff.2 fun is_filled =>
      free i ((start_filled mod newList args captured i).1 is_filled) by_name
  have outcome := defaults_outcome mod _ _ (keyword_slots mod newList args keywords captured free)
    (keyword_marks mod newList args keywords captured complete)
  unfold startFrame at loop
  simp only [bindKeywordsAndDefaults, some_parameter, if_false, loop]
  simpa [bind, Except.bind, counted, startFrame] using outcome

theorem bind_refuses (refused : (∃ i < min args.length mod.fixed, named mod keywords i) ∨
      matchedParameters mod keywords mod.arity ≠ keywords.length) :
    Raises (bindKeywordsAndDefaults mod (some keywords)
      (placeArguments mod newList args captured) (min args.length mod.fixed)) := by
  have bound := fixed_le mod
  by_cases no_parameter : mod.arity = 0 ∧ 0 < keywords.length
  · simp only [Raises, bindKeywordsAndDefaults, no_parameter, and_self, if_true]
    exact ⟨_, rfl⟩
  by_cases by_position : ∃ i < min args.length mod.fixed, named mod keywords i
  · obtain ⟨i, passed, by_name⟩ := by_position
    obtain ⟨message, raised⟩ := bind_keywords_twice mod keywords (X := X)
      (startFrame mod newList args captured) mod.arity
      ⟨i, by omega, by_name, (start_filled mod newList args captured i).2 passed⟩
    unfold startFrame at raised
    simp only [bindKeywordsAndDefaults, no_parameter, if_false, raised]
    exact ⟨message, rfl⟩
  · have loop := bind_keywords_ok mod keywords (X := X) (startFrame mod newList args captured)
      mod.arity fun i _ by_name => Bool.eq_false_iff.2 fun is_filled =>
        by_position ⟨i, (start_filled mod newList args captured i).1 is_filled, by_name⟩
    unfold startFrame at loop
    simp only [bindKeywordsAndDefaults, no_parameter, if_false, loop]
    simp only [bind, Except.bind, ne_eq, refused.resolve_left by_position, not_false_eq_true,
      if_true]
    exact ⟨_, rfl⟩

/-- The count check of the prologue. -/
def accepted (keywords : Option (Keywords V)) : Prop :=
  if mod.isVariadic then mod.fixed ≤ args.length
  else if keywords.isSome || mod.hasDefaults then args.length ≤ mod.arity
  else args.length = mod.arity

theorem execute_refused (keywords : Option (Keywords V))
    (refused : ¬ accepted mod args keywords) :
    Raises (execute mod newList args keywords captured) := by
  unfold accepted at refused
  unfold execute
  split at refused
  · rename_i variadic
    simp only [variadic, if_true, refused, decide_false, Bool.not_false]
    exact ⟨_, rfl⟩
  · rename_i plain
    rw [Bool.not_eq_true] at plain
    split at refused
    · rename_i may_bind
      simp only [plain, may_bind, Bool.not_false, Bool.true_and, Bool.false_eq_true, if_false,
        if_true, refused, decide_false]
      exact ⟨_, rfl⟩
    · rename_i strict
      have differs : (args.length == mod.arity) = false := by simpa using refused
      simp only [plain, strict, Bool.not_false, Bool.true_and, Bool.false_eq_true, if_false,
        if_true, differs]
      exact ⟨_, rfl⟩

theorem execute_accepted (keywords : Option (Keywords V))
    (accepts : accepted mod args keywords) :
    execute mod newList args keywords captured =
      if keywords.isSome || (mod.hasDefaults && decide (min args.length mod.fixed < mod.fixed)) then
        bindKeywordsAndDefaults mod keywords (placeArguments mod newList args captured)
          (min args.length mod.fixed)
      else
        .ok (placeArguments mod newList args captured) := by
  unfold accepted at accepts
  unfold execute
  split at accepts
  · rename_i variadic
    simp [variadic, accepts]
  · rename_i plain
    rw [Bool.not_eq_true] at plain
    split at accepts
    · rename_i may_bind
      simp [plain, may_bind, accepts]
    · rename_i strict
      rw [Bool.not_eq_true] at strict
      simp [plain, strict, accepts]

theorem call_distinct (distinct : (keywords.map Prod.fst).Nodup) :
    call mod newList args keywords captured =
      execute mod newList args (if keywords.isEmpty then none else some keywords) captured := by
  have none_twice : specifiedTwice [] (keywords.map Prod.fst) = none := by
    rw [specified_twice_none]
    exact ⟨distinct, fun _ _ => List.not_mem_nil⟩
  simp [call, none_twice]

theorem call_repeated (twice : ¬ (keywords.map Prod.fst).Nodup) :
    ∃ error, call mod newList args keywords captured = .error error := by
  unfold call
  cases again : specifiedTwice [] (keywords.map Prod.fst) with
  | some name => exact ⟨_, rfl⟩
  | none => exact absurd ((specified_twice_none _ _).1 again).1 twice

theorem not_named_nil (i : Nat) : ¬ named mod ([] : Keywords V) i := by
  simp [named]

theorem no_default_of_none (none_has : mod.hasDefaults = false) {i : Nat} (below : i < mod.arity) :
    mod.defaultBlock i = none := by
  simp only [BytecodeModule.hasDefaults, List.any_eq_false, List.mem_range] at none_has
  simpa using none_has i below

/-- A call without keywords. -/
theorem call_plain (enough : mod.isVariadic = true → mod.fixed ≤ args.length)
    (fits : mod.isVariadic = false → args.length ≤ mod.arity) :
    Outcome mod (given mod newList args [] captured) mod.arity
      (call mod newList args [] captured) := by
  have whole : placeArguments mod newList args captured = given mod newList args [] captured :=
    funext fun k => place_given mod newList args [] captured k (.inl rfl)
  rw [call_distinct mod newList args [] captured List.nodup_nil]
  simp only [List.isEmpty_nil, if_true]
  by_cases accepts : accepted mod args (none : Option (Keywords V))
  · rw [execute_accepted mod newList args captured none accepts]
    by_cases opens : mod.hasDefaults = true ∧ min args.length mod.fixed < mod.fixed
    · have plain : mod.isVariadic = false := Bool.eq_false_iff.2 fun variadic => by
        have := enough variadic
        omega
      have outcome := defaults_outcome mod _ (startFrame mod newList args captured) whole
        fun k below => by
          rw [← keyword_marks mod newList args [] captured
            (fun variadic => absurd variadic (by simp [plain])) k below]
          simp [withKeywords]
      simpa [opens, bindKeywordsAndDefaults, startFrame, bind, Except.bind] using outcome
    · have closed : (mod.hasDefaults && decide (min args.length mod.fixed < mod.fixed)) = false := by
        simpa using opens
      simp only [Option.isSome_none, closed, Bool.or_false, Bool.false_eq_true, if_false, whole]
      refine .inl ⟨_, rfl, fun k _ => rfl, fun i _ value passed => passed, fun i below is_open => ?_⟩
      rw [given_none_iff mod newList args [] captured below] at is_open
      obtain ⟨not_passed, -, not_repeated⟩ := is_open
      exfalso
      cases variadic : mod.isVariadic with
      | true =>
        have := fixed_variadic mod variadic
        have := enough variadic
        exact not_repeated ⟨variadic, by omega⟩
      | false =>
        rw [fixed_plain mod variadic] at not_passed opens
        cases has : mod.hasDefaults with
        | true =>
          simp only [has, true_and] at opens
          omega
        | false =>
          simp only [accepted, variadic, has, Option.isSome_none, Bool.or_false,
            Bool.false_eq_true, if_false] at accepts
          omega
  · have refused := execute_refused mod newList args captured none accepts
    cases variadic : mod.isVariadic with
    | true =>
      simp only [accepted, variadic, if_true] at accepts
      exact absurd (enough variadic) accepts
    | false =>
      have most := fits variadic
      have none_has : mod.hasDefaults = false := by
        rw [Bool.eq_false_iff]
        intro has
        simp [accepted, variadic, has, most] at accepts
      simp only [accepted, variadic, none_has, Option.isSome_none, Bool.or_false,
        Bool.false_eq_true, if_false] at accepts
      have below : args.length < mod.arity := by omega
      refine .inr (.inl ⟨refused, args.length, below, ?_, no_default_of_none mod none_has below⟩)
      rw [given_none_iff mod newList args [] captured below]
      exact ⟨by omega, not_named_nil mod _, by simp [variadic]⟩

theorem call_refused (distinct : (keywords.map Prod.fst).Nodup)
    (refused : Refused mod args keywords) : Raises (call mod newList args keywords captured) := by
  rw [call_distinct mod newList args keywords captured distinct]
  by_cases accepts : accepted mod args (if keywords.isEmpty then none else some keywords)
  · have nonempty : keywords.isEmpty = false := by
      rw [Bool.eq_false_iff]
      intro is_empty
      rw [List.isEmpty_iff] at is_empty
      subst is_empty
      cases refused with
      | tooFew variadic fewer =>
        simp only [accepted, variadic, if_true] at accepts
        omega
      | tooMany plain more =>
        simp only [accepted, plain, List.isEmpty_nil, Bool.false_eq_true, if_false, if_true]
          at accepts
        split at accepts <;> omega
      | byPosition i _ by_name => exact not_named_nil mod i by_name
      | unmatched differs => exact differs (by simp [matchedParameters])
    rw [execute_accepted mod newList args captured _ accepts]
    simp only [nonempty, Bool.false_eq_true, if_false, Option.isSome_some, Bool.true_or, if_true]
      at accepts ⊢
    refine bind_refuses mod newList args keywords captured ?_
    cases refused with
    | tooFew variadic fewer =>
      simp only [accepted, variadic, if_true] at accepts
      omega
    | tooMany plain more =>
      simp only [accepted, plain, Option.isSome_some, Bool.true_or, Bool.false_eq_true, if_false,
        if_true] at accepts
      omega
    | byPosition i passed by_name => exact .inl ⟨i, passed, by_name⟩
    | unmatched differs => exact .inr differs
  · exact execute_refused mod newList args captured _ accepts

/-- The parameters a keyword may name when the callee has a repeated one. -/
theorem matched_variadic (variadic : mod.isVariadic = true)
    (free : ∀ i < mod.fixed, ¬ named mod keywords i) :
    matchedParameters mod keywords mod.arity =
      if (keywords.lookup (mod.paramName mod.fixed)).isSome then 1 else 0 := by
  have none_before : matchedParameters mod keywords mod.fixed = 0 := by
    rw [matchedParameters, List.countP_eq_zero]
    intro i below
    rw [lookup_named]
    exact free i (List.mem_range.1 below)
  rw [fixed_variadic mod variadic, matched_succ, none_before, Nat.zero_add]

/-- Distinct keywords that all are the repeated parameter's name are at most one. -/
theorem length_of_only {i : Nat} (distinct : (keywords.map Prod.fst).Nodup)
    (only : ∀ name ∈ keywords.map Prod.fst, name = mod.paramName i) :
    keywords.length = if (keywords.lookup (mod.paramName i)).isSome then 1 else 0 := by
  rw [← List.length_map (f := Prod.fst)]
  split
  · rename_i found
    rw [lookup_named] at found
    refine Nat.le_antisymm ?_ (List.length_pos_of_mem found)
    rw [List.eq_replicate_of_mem only] at distinct
    exact List.nodup_replicate.1 distinct
  · rename_i absent
    rw [lookup_named] at absent
    rw [List.length_eq_zero_iff, List.eq_nil_iff_forall_not_mem]
    intro name is_keyword
    rw [only name is_keyword] at is_keyword
    exact absent is_keyword

theorem call_runs (distinct : (keywords.map Prod.fst).Nodup)
    (runs : ¬ Refused mod args keywords) :
    Outcome mod (given mod newList args keywords captured) mod.arity
      (call mod newList args keywords captured) := by
  have enough : mod.isVariadic = true → mod.fixed ≤ args.length := fun variadic =>
    Nat.not_lt.1 fun fewer => runs (.tooFew variadic fewer)
  have fits : mod.isVariadic = false → args.length ≤ mod.arity := fun plain =>
    Nat.not_lt.1 fun more => runs (.tooMany plain more)
  have free : ∀ i < min args.length mod.fixed, ¬ named mod keywords i :=
    fun i passed by_name => runs (.byPosition i passed by_name)
  have counted : matchedParameters mod keywords mod.arity = keywords.length := by
    by_contra differs
    exact runs (.unmatched differs)
  rcases List.eq_nil_or_concat keywords with rfl | some_keyword
  · exact call_plain mod newList args captured enough fits
  · have nonempty : keywords ≠ [] := by
      obtain ⟨front, last, rfl⟩ := some_keyword
      simp
    have accepts : accepted mod args (some keywords) := by
      unfold accepted
      cases variadic : mod.isVariadic with
      | true => simpa using enough variadic
      | false => simpa using fits variadic
    have complete : mod.isVariadic = true → named mod keywords mod.fixed := by
      intro variadic
      have all_passed := enough variadic
      rw [matched_variadic mod keywords variadic fun i below => free i (by omega)] at counted
      rw [← lookup_named]
      by_contra absent
      rw [if_neg absent] at counted
      exact nonempty (List.length_eq_zero_iff.1 counted.symm)
    rw [call_distinct mod newList args keywords captured distinct]
    simp only [List.isEmpty_eq_false_iff.2 nonempty, Bool.false_eq_true, if_false]
    rw [execute_accepted mod newList args captured _ accepts]
    simp only [Option.isSome_some, Bool.true_or, if_true]
    exact bind_keywords_and_defaults mod newList args keywords captured nonempty complete free counted

/-! ### When a call does what it should -/

theorem faulty_of_missing {i : Nat} (below : i < mod.arity)
    (is_open : given mod newList args keywords captured i = none)
    (no_default : mod.defaultBlock i = none) : Faulty mod args keywords := by
  rw [given_none_iff mod newList args keywords captured below] at is_open
  obtain ⟨not_passed, not_named, not_repeated⟩ := is_open
  refine .missing i below ?_ not_named no_default not_repeated
  by_contra passed
  have last : i = mod.fixed := by
    cases variadic : mod.isVariadic with
    | true =>
      have := fixed_variadic mod variadic
      omega
    | false =>
      rw [fixed_plain mod variadic] at not_passed
      omega
  cases variadic : mod.isVariadic with
  | true => exact not_repeated ⟨variadic, last⟩
  | false =>
    rw [fixed_plain mod variadic] at last
    omega

theorem given_of_extras {i : Nat} (below : i < mod.arity) (variadic : mod.isVariadic = true)
    (more : mod.fixed < args.length) : given mod newList args keywords captured i ≠ none := by
  rw [ne_eq, given_none_iff mod newList args keywords captured below]
  rintro ⟨not_passed, -, not_repeated⟩
  have := fixed_variadic mod variadic
  exact not_repeated ⟨variadic, by omega⟩

/-- A refused call: what is refused is faulty unless it is one of the slips. -/
theorem refused_faulty (distinct : (keywords.map Prod.fst).Nodup)
    (refused : Refused mod args keywords) :
    Faulty mod args keywords ↔ ¬ Slip mod newList args keywords captured := by
  have bound := fixed_le mod
  constructor
  · intro faulty slip
    cases slip with
    | tooFew _ _ sound => exact sound faulty
    | countedTwice _ sound _ => exact sound faulty
    | extrasDropped variadic more only own_name =>
      have is_named : ∀ i, named mod keywords i ↔ mod.paramName i = mod.paramName mod.fixed := by
        intro i
        simp [named, only]
      cases refused with
      | tooFew _ fewer => omega
      | tooMany plain _ => simp [variadic] at plain
      | byPosition i passed by_name => exact own_name i (by omega) ((is_named i).1 by_name)
      | unmatched differs =>
        rw [matched_variadic mod keywords variadic fun i below by_name =>
          own_name i below ((is_named i).1 by_name),
          if_pos ((lookup_named mod keywords _).2 ((is_named _).2 rfl))] at differs
        have one := congrArg List.length only
        rw [List.length_map] at one
        exact differs one.symm
    | hidden plain name is_keyword no_parameter same _ fits by_one _ =>
      cases refused with
      | tooFew variadic _ => simp [variadic] at plain
      | tooMany _ more => omega
      | byPosition i passed by_name => exact by_one i (by omega) by_name
      | unmatched differs => exact differs same
  · intro no_slip
    cases refused with
    | tooFew variadic fewer =>
      by_contra sound
      exact no_slip (.tooFew variadic fewer sound)
    | tooMany plain more => exact .tooMany plain more
    | byPosition i passed by_name => exact .byPosition i (by omega) (by omega) by_name
    | unmatched differs =>
      cases variadic : mod.isVariadic with
      | false =>
        by_contra sound
        exact no_slip (.countedTwice variadic sound differs)
      | true =>
        by_cases by_position : ∃ i < min args.length mod.fixed, named mod keywords i
        · obtain ⟨i, passed, by_name⟩ := by_position
          exact .byPosition i (by omega) (by omega) by_name
        · by_contra sound
          have enough : mod.fixed ≤ args.length := Nat.not_lt.1 fun fewer =>
            no_slip (.tooFew variadic fewer sound)
          have free : ∀ i < mod.fixed, ¬ named mod keywords i := fun i below by_name =>
            by_position ⟨i, by omega, by_name⟩
          apply differs
          rw [matched_variadic mod keywords variadic free]
          have only_repeated : ∀ name ∈ keywords.map Prod.fst, name = mod.paramName mod.fixed := by
            intro name is_keyword
            have is_parameter : name ∈ mod.paramNames := by
              by_contra no_parameter
              exact sound (.unknown name is_keyword no_parameter)
            obtain ⟨i, below, rfl⟩ := mem_param_names mod is_parameter
            have last : ¬ i < mod.fixed := fun before => free i before is_keyword
            have := fixed_variadic mod variadic
            rw [show i = mod.fixed by omega]
          exact (length_of_only mod keywords distinct only_repeated).symm

/-- A call that binds every parameter: it is faulty only by a slip. -/
theorem bound_faulty (distinct : (keywords.map Prod.fst).Nodup)
    (runs : ¬ Refused mod args keywords) {ρ : Slots V}
    (binds : Bound mod (given mod newList args keywords captured) mod.arity ρ) :
    Faulty mod args keywords ↔ Slip mod newList args keywords captured := by
  have enough : mod.isVariadic = true → mod.fixed ≤ args.length := fun variadic =>
    Nat.not_lt.1 fun fewer => runs (.tooFew variadic fewer)
  have fits : mod.isVariadic = false → args.length ≤ mod.arity := fun plain =>
    Nat.not_lt.1 fun more => runs (.tooMany plain more)
  have free : ∀ i < min args.length mod.fixed, ¬ named mod keywords i :=
    fun i passed by_name => runs (.byPosition i passed by_name)
  have counted : matchedParameters mod keywords mod.arity = keywords.length := by
    by_contra differs
    exact runs (.unmatched differs)
  constructor
  · intro faulty
    cases faulty with
    | tooMany plain more => exact absurd (fits plain) (by omega)
    | repeated twice => exact absurd distinct twice
    | unknown name is_keyword no_parameter =>
      cases variadic : mod.isVariadic with
      | false =>
        have most := fits variadic
        exact .hidden variadic name is_keyword no_parameter counted distinct most
          (fun i passed => free i (by rw [fixed_plain mod variadic]; omega)) ⟨ρ, binds⟩
      | true =>
        -- the one keyword that is counted is the repeated parameter's
        have all_passed := enough variadic
        rw [matched_variadic mod keywords variadic fun i below => free i (by omega)] at counted
        exfalso
        split at counted
        · rename_i found
          obtain ⟨keyword, rfl⟩ := List.length_eq_one_iff.1 counted.symm
          rw [lookup_named, named, List.map_singleton, List.mem_singleton] at found
          rw [List.map_singleton, List.mem_singleton] at is_keyword
          rw [is_keyword, ← found] at no_parameter
          have := fixed_variadic mod variadic
          exact no_parameter (param_name_mem mod (by omega))
        · rw [List.length_eq_zero_iff.1 counted.symm] at is_keyword
          simp at is_keyword
    | byPosition i below passed by_name =>
      have last : ¬ i < mod.fixed := fun before => free i (by omega) by_name
      cases variadic : mod.isVariadic with
      | false =>
        rw [fixed_plain mod variadic] at last
        exact absurd below last
      | true =>
        have count := fixed_variadic mod variadic
        obtain rfl : i = mod.fixed := by omega
        have earlier : ∀ k < mod.fixed, ¬ named mod keywords k := fun k before =>
          free k (by omega)
        rw [matched_variadic mod keywords variadic earlier,
          if_pos ((lookup_named mod keywords _).2 by_name)] at counted
        obtain ⟨keyword, rfl⟩ := List.length_eq_one_iff.1 counted.symm
        have only : mod.paramName mod.fixed = keyword.1 := by simpa [named] using by_name
        refine .extrasDropped variadic passed (by simp [only]) fun k before same => ?_
        exact earlier k before (by simp [named, same, only])
    | missing i below not_passed not_named no_default not_repeated =>
      have is_open : given mod newList args keywords captured i = none :=
        (given_none_iff mod newList args keywords captured below).2
          ⟨by omega, not_named, not_repeated⟩
      obtain ⟨block, -, has_default, -⟩ := binds.defaults i below is_open
      exact absurd (no_default.symm.trans has_default) (by simp)
  · intro slip
    cases slip with
    | tooFew variadic fewer _ => exact absurd (enough variadic) (by omega)
    | extrasDropped variadic more only _ =>
      have := fixed_variadic mod variadic
      exact .byPosition mod.fixed (by omega) more (by simp [named, only])
    | countedTwice _ _ differs => exact absurd counted differs
    | hidden _ name is_keyword no_parameter _ _ _ _ _ => exact .unknown name is_keyword no_parameter

/-- A call whose defaults do not all return is faulty or raises in a default. -/
theorem open_no_slip (runs : ¬ Refused mod args keywords) {i : Nat} (below : i < mod.arity)
    (is_open : given mod newList args keywords captured i = none)
    (sound_or_unbound : ∀ ρ, Bound mod (given mod newList args keywords captured) mod.arity ρ →
      False) : ¬ Slip mod newList args keywords captured := by
  intro slip
  cases slip with
  | tooFew variadic fewer _ => exact runs (.tooFew variadic fewer)
  | extrasDropped variadic more _ _ =>
    exact given_of_extras mod newList args keywords captured below variadic more is_open
  | countedTwice _ _ differs => exact runs (.unmatched differs)
  | hidden _ _ _ _ _ _ _ _ binds =>
    obtain ⟨ρ, bound⟩ := binds
    exact sound_or_unbound ρ bound

end Keywords

/-- A call binds each parameter once or raises, and raises exactly when it is faulty, unless
it is one of the slips. -/
theorem binds_each_iff (args : List V) (keywords : Keywords V) (captured : Slots V) :
    BindsEach mod newList args keywords captured ↔
      ¬ Slip mod newList args keywords captured := by
  by_cases distinct : (keywords.map Prod.fst).Nodup
  · by_cases refused : Refused mod args keywords
    · obtain ⟨message, raised⟩ := call_refused mod newList args keywords captured distinct refused
      rw [← refused_faulty mod newList args keywords captured distinct refused]
      constructor
      · intro binds
        by_contra sound
        rcases binds.2 sound with ⟨ρ, run, -⟩ | ⟨error, run, -⟩ <;>
          · rw [raised] at run
            simp at run
      · intro faulty
        exact ⟨fun _ => ⟨_, raised⟩, fun sound => absurd faulty sound⟩
    · rcases call_runs mod newList args keywords captured distinct refused with
        ⟨ρ, run, bound⟩ | ⟨⟨message, raised⟩, i, below, is_open, no_default⟩ | ⟨error, raised, stopped⟩
      · rw [← bound_faulty mod newList args keywords captured distinct refused bound]
        constructor
        · rintro ⟨raises, -⟩ faulty
          obtain ⟨error, raised⟩ := raises faulty
          rw [run] at raised
          simp at raised
        · intro sound
          exact ⟨fun faulty => absurd faulty sound, fun _ => .inl ⟨ρ, run, bound⟩⟩
      · have faulty := faulty_of_missing mod newList args keywords captured below is_open no_default
        have no_slip := open_no_slip mod newList args keywords captured refused below is_open
          fun ρ bound => by
            obtain ⟨block, -, has_default, -⟩ := bound.defaults i below is_open
            exact absurd (no_default.symm.trans has_default) (by simp)
        exact ⟨fun _ => no_slip, fun _ => ⟨fun _ => ⟨_, raised⟩, fun sound => absurd faulty sound⟩⟩
      · have no_slip : ¬ Slip mod newList args keywords captured := by
          obtain ⟨i, below, -, -, -, is_open, -, -⟩ := id stopped
          exact open_no_slip mod newList args keywords captured refused below is_open
            fun ρ bound => bound.not_stopped mod stopped
        exact ⟨fun _ => no_slip,
          fun _ => ⟨fun _ => ⟨_, raised⟩, fun _ => .inr ⟨error, raised, stopped⟩⟩⟩
  · have raised := call_repeated mod newList args keywords captured distinct
    have faulty : Faulty mod args keywords := .repeated distinct
    constructor
    · intro _ slip
      cases slip with
      | tooFew _ _ sound => exact sound faulty
      | countedTwice _ sound _ => exact sound faulty
      | extrasDropped _ _ only _ => exact distinct (by simp [only])
      | hidden _ _ _ _ _ is_distinct _ _ _ => exact distinct is_distinct
    · intro _
      exact ⟨fun _ => raised, fun sound => absurd faulty sound⟩

end Calls

/-- A value of the examples: a number, or the list of the extra arguments. -/
inductive Datum where
  | number (n : Nat)
  | list (elements : List Datum)

/-- `def f(a: Int, xs: Int*)`. -/
def rest : BytecodeModule Datum String where
  name := "f"
  paramNames := ["a", "xs"]
  isMethod := false
  isVariadic := true
  defaultBlock := fun _ => none
  variadic_named := by simp
  default_scope := by simp

/-- `f(1, 2, xs = List(3))` runs with `xs` the list of 3, and the 2 is lost. -/
theorem extra_argument_lost :
    (∃ ρ, call rest Datum.list [.number 1, .number 2] [("xs", .list [.number 3])]
        (fun _ => none) = .ok ρ ∧ ρ 0 = some (.number 1) ∧ ρ 1 = some (.list [.number 3])) ∧
      ¬ BindsEach rest Datum.list [.number 1, .number 2] [("xs", .list [.number 3])]
        fun _ => none := by
  have run : ∃ ρ, call rest Datum.list [.number 1, .number 2] [("xs", .list [.number 3])]
      (fun _ => none) = .ok ρ ∧ ρ 0 = some (.number 1) ∧ ρ 1 = some (.list [.number 3]) :=
    ⟨_, rfl, rfl, rfl⟩
  refine ⟨run, fun binds => ?_⟩
  obtain ⟨ρ, returned, -⟩ := run
  obtain ⟨error, raised⟩ := binds.1 (.byPosition 1 (by decide) (by decide) (by simp [named]; rfl))
  rw [returned] at raised
  simp at raised

end ProtoScala.Runtime.ParameterBinding
