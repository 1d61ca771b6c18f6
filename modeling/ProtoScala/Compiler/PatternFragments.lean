import ProtoScala.Compiler.Patterns

/-!
# Fragments of a pattern and their meaning

A fragment carries a frame either to its end, with the bindings of its reference
meaning in the slots of its scope, or to the place where failed tests go, with
every slot as it was. Fragments are put together as the meanings are: one after
the other, behind a test, in the place of one that failed, or on values that were
stored in new slots before.
-/

namespace ProtoScala.Compiler.PatternFragments

open ProtoScala.Compiler.Bytecode
open ProtoScala.Compiler.Emission
open ProtoScala.Compiler.Patterns
open ProtoScala.Runtime.ExecutionEngine
open ProtoScala.Runtime.FrameExecution

set_option autoImplicit false

variable {V W N E : Type} {M : Engine V W N} {X : ExprCompiler M E} {names : Names E}

theorem bind_ok {ε α β : Type} {x : Except ε α} {f : α → Except ε β} {b : β} :
    (x >>= f) = .ok b ↔ ∃ a, x = .ok a ∧ f a = .ok b := by
  cases x with
  | ok a => simp [bind, Except.bind]
  | error e => simp [bind, Except.bind]

theorem pure_ok {ε α : Type} {a b : α} : (pure a : Except ε α) = .ok b ↔ a = b := by
  simp [pure, Except.pure]

/-! ## Slots and scopes -/

/-- What compiling a pattern does to the scopes: only its variables are declared,
each in a slot of its own. -/
structure Declares (vars : List String) (scopes : Scopes) (free : Nat) (scopes' : Scopes)
    (needed : Nat) : Prop where
  grows : free ≤ needed
  others : ∀ x, x ∉ vars → findInFunction scopes' x = findInFunction scopes x
  fresh : ∀ x info, findInFunction scopes' x = some info →
    findInFunction scopes x = some info ∨
      (free ≤ info.slot ∧ info.slot < needed ∧ info.variable = false)

theorem declares_none (vars : List String) {scopes : Scopes} {free needed : Nat}
    (grows : free ≤ needed) : Declares vars scopes free scopes needed where
  grows := grows
  others _ _ := rfl
  fresh _ _ found := .inl found

theorem declares_trans {vars more : List String} {scopes scopes' scopes'' : Scopes}
    {free middle needed : Nat} (first : Declares vars scopes free scopes' middle)
    (second : Declares more scopes' middle scopes'' needed) :
    Declares (vars ++ more) scopes free scopes'' needed where
  grows := Nat.le_trans first.grows second.grows
  others x absent := by
    simp only [List.mem_append, not_or] at absent
    rw [second.others x absent.2, first.others x absent.1]
  fresh x info found := by
    have firstGrows := first.grows
    have secondGrows := second.grows
    rcases second.fresh x info found with earlier | ⟨low, high, constant⟩
    · rcases first.fresh x info earlier with before | ⟨low, high, constant⟩
      · exact .inl before
      · exact .inr ⟨low, by omega, constant⟩
    · exact .inr ⟨by omega, high, constant⟩

theorem declares_more {vars vars' : List String} {scopes scopes' : Scopes} {free less needed : Nat}
    (declares : Declares vars scopes free scopes' needed) (subset : ∀ x ∈ vars, x ∈ vars')
    (lower : less ≤ free) : Declares vars' scopes less scopes' needed where
  grows := Nat.le_trans lower declares.grows
  others x absent := declares.others x fun present => absent (subset x present)
  fresh x info found := by
    rcases declares.fresh x info found with before | ⟨low, high, constant⟩
    · exact .inl before
    · exact .inr ⟨Nat.le_trans lower low, high, constant⟩

theorem bind_declares (name : String) (slot : Nat) (scopes : Scopes) (free : Nat) :
    Declares [name] scopes free (bindPattern name slot scopes free).2.1
      (bindPattern name slot scopes free).2.2 := by
  unfold bindPattern
  split
  · exact declares_none _ (Nat.le_refl _)
  · refine ⟨Nat.le_succ _, fun x absent => ?_, fun x info found => ?_⟩
    · rw [find_declare, if_neg (by simpa using absent)]
    · rw [find_declare] at found
      split at found
      · obtain rfl := Option.some.inj found
        exact .inr ⟨Nat.le_refl _, Nat.lt_succ_self _, rfl⟩
      · exact .inl found

theorem type_test_grows {test : TypeTest E} {slot free needed : Nat} {scopes : Scopes}
    {code : Option (List Instr)} (compiled : compileTypeTest X test slot scopes free = .ok (code, needed)) :
    free ≤ needed := by
  cases test with
  | foreign key foreign =>
      simp only [compileTypeTest, bind_ok, pure_ok] at compiled
      obtain ⟨⟨c, n⟩, compiled, same⟩ := compiled
      cases same
      exact X.grows compiled
  | value isInstanceOf type =>
      simp only [compileTypeTest, bind_ok, pure_ok] at compiled
      obtain ⟨⟨c, n⟩, first, ⟨d, m⟩, second, same⟩ := compiled
      cases same
      exact Nat.le_trans (X.grows first) (X.grows second)
  | _ =>
      simp only [compileTypeTest, pure_ok, Prod.mk.injEq] at compiled
      exact Nat.le_of_eq compiled.2

theorem check_no_variables {p : Pattern E} (checked : checkNoVariables p = .ok ()) :
    patternVariables p = [] := by
  unfold checkNoVariables at checked
  split at checked
  · assumption
  · cases checked

theorem rest_variable {p : Pattern E} {ps : List (Pattern E)} {name : String}
    (named : lastRest p ps = some name) (written : name ≠ "") : name ∈ allVariables (p :: ps) := by
  unfold lastRest at named
  split at named
  · cases p with
    | seqWildcard other =>
        obtain rfl := Option.some.inj named
        simp [allVariables, patternVariables, written]
    | _ => cases named
  · cases named

mutual

theorem pattern_declares : ∀ (p : Pattern E) {caught : Bool} {slot : Nat} {scopes : Scopes} {free : Nat}
    {items : List Item} {scopes' : Scopes} {needed : Nat},
    compilePattern X names caught p slot scopes free = .ok (items, scopes', needed) →
    Declares (patternVariables p) scopes free scopes' needed
  | .wildcard, _, _, _, _, _, _, _, compiled => by
      simp only [compilePattern, pure_ok] at compiled
      cases compiled
      exact declares_none _ (Nat.le_refl _)
  | .var name, _, slot, scopes, free, _, _, _, compiled => by
      simp only [compilePattern, pure_ok] at compiled
      have declares := bind_declares name slot scopes free
      rw [compiled] at declares
      by_cases blank : name = "_"
      · simp only [bindPattern, blank, if_true] at compiled
        cases compiled
        exact declares_none _ (Nat.le_refl _)
      · simpa [patternVariables, blank] using declares
  | .literal e, _, _, _, _, _, _, _, compiled => by
      simp only [compilePattern, bind_ok, pure_ok] at compiled
      obtain ⟨⟨code, n⟩, expr, same⟩ := compiled
      cases same
      exact declares_none _ (X.grows expr)
  | .stable e, _, _, _, _, _, _, _, compiled => by
      simp only [compilePattern, bind_ok, pure_ok] at compiled
      obtain ⟨⟨code, n⟩, expr, same⟩ := compiled
      cases same
      exact declares_none _ (X.grows expr)
  | .typed type p, _, _, _, _, _, _, _, compiled => by
      simp only [compilePattern, bind_ok, pure_ok] at compiled
      obtain ⟨test, -, ⟨code, n⟩, tested, ⟨inner, scopes, m⟩, rest, same⟩ := compiled
      cases same
      exact declares_more (pattern_declares p rest) (fun _ member => member)
        (type_test_grows tested)
  | .bind name p, _, slot, _, _, _, _, _, compiled => by
      simp only [compilePattern, bind_ok, pure_ok] at compiled
      obtain ⟨⟨inner, scopes, n⟩, rest, same⟩ := compiled
      have declares := declares_trans (pattern_declares p rest) (bind_declares name slot scopes n)
      simp only [Prod.mk.injEq] at same
      obtain ⟨-, rfl, rfl⟩ := same
      refine declares_more declares (fun x member => ?_) (Nat.le_refl _)
      simp only [patternVariables, List.mem_cons]
      rcases List.mem_append.mp member with inside | last
      · exact .inr inside
      · exact .inl (List.mem_singleton.mp last)
  | .alt first others, _, _, _, _, _, _, _, compiled => by
      simp only [compilePattern, bind_ok] at compiled
      obtain ⟨_, checked, ⟨inner, scopes, n⟩, one, rest⟩ := compiled
      have none := check_no_variables checked
      have declares := declares_trans (pattern_declares first one) (alternatives_declares others rest)
      rw [none] at declares
      exact declares
  | .tuple args, _, _, _, _, _, _, _, compiled => by
      simp only [compilePattern] at compiled
      split at compiled
      · cases compiled
      simp only [bind_ok, pure_ok] at compiled
      obtain ⟨⟨inner, scopes, n⟩, rest, same⟩ := compiled
      cases same
      exact declares_more (all_declares args rest) (fun _ member => member) (Nat.le_add_right _ _)
  | .extractor name e ident args, _, _, _, _, _, _, _, compiled => by
      simp only [compilePattern, bind_ok] at compiled
      obtain ⟨kind, -, rest⟩ := compiled
      cases kind with
      | cons =>
          simp only [bind_ok, pure_ok] at rest
          obtain ⟨⟨inner, scopes, n⟩, rest, same⟩ := rest
          cases same
          exact declares_more (all_declares args rest) (fun _ member => member)
            (Nat.le_add_right _ _)
      | list =>
          simp only [bind_ok, pure_ok] at rest
          obtain ⟨⟨inner, scopes, n⟩, rest, same⟩ := rest
          cases same
          exact elements_declares args rest
      | fields key keys =>
          simp only [bind_ok, pure_ok] at rest
          obtain ⟨⟨inner, scopes, n⟩, rest, same⟩ := rest
          cases same
          exact declares_more (all_declares args rest) (fun _ member => member)
            (Nat.le_add_right _ _)
      | custom =>
          simp only [bind_ok] at rest
          obtain ⟨⟨code, result⟩, expr, rest⟩ := rest
          have grows := X.grows expr
          dsimp only at rest
          split at rest
          · simp only [pure_ok, Prod.mk.injEq] at rest
            obtain ⟨-, rfl, rfl⟩ := rest
            exact declares_none _ (Nat.le_succ_of_le grows)
          · split at rest
            · simp only [bind_ok, pure_ok] at rest
              obtain ⟨⟨inner, scopes, n⟩, rest, same⟩ := rest
              cases same
              exact declares_more (all_declares args rest) (fun _ member => member) (by omega)
            · simp only [bind_ok, pure_ok] at rest
              obtain ⟨⟨inner, scopes, n⟩, rest, same⟩ := rest
              cases same
              exact declares_more (all_declares args rest) (fun _ member => member) (by omega)
  | .seqWildcard name, _, _, _, _, _, _, _, compiled => by cases compiled

theorem alternatives_declares : ∀ (others : List (Pattern E)) {caught : Bool} {first : List Item}
    {slot : Nat}
    {scopes : Scopes} {free : Nat} {items : List Item} {scopes' : Scopes} {needed : Nat},
    compileAlternatives X names caught first others slot scopes free = .ok (items, scopes', needed) →
    Declares [] scopes free scopes' needed
  | [], _, _, _, _, _, _, _, _, compiled => by
      simp only [compileAlternatives, pure_ok] at compiled
      cases compiled
      exact declares_none _ (Nat.le_refl _)
  | p :: others, _, _, _, _, _, _, _, _, compiled => by
      simp only [compileAlternatives, bind_ok, pure_ok] at compiled
      obtain ⟨_, checked, ⟨inner, scopes, n⟩, one, ⟨more, scopes', m⟩, rest, same⟩ := compiled
      cases same
      have none := check_no_variables checked
      have declares := declares_trans (pattern_declares p one) (alternatives_declares others rest)
      rw [none] at declares
      exact declares

theorem all_declares : ∀ (ps : List (Pattern E)) {slots : List Nat} {scopes : Scopes} {free : Nat}
    {items : List Item} {scopes' : Scopes} {needed : Nat},
    compileAll X names ps slots scopes free = .ok (items, scopes', needed) →
    Declares (allVariables ps) scopes free scopes' needed
  | [], _, _, _, _, _, _, compiled => by
      simp only [compileAll, pure_ok] at compiled
      cases compiled
      exact declares_none _ (Nat.le_refl _)
  | p :: ps, [], _, _, _, _, _, compiled => by
      simp only [compileAll, pure_ok] at compiled
      cases compiled
      exact declares_none _ (Nat.le_refl _)
  | p :: ps, slot :: slots, _, _, _, _, _, compiled => by
      simp only [compileAll, bind_ok, pure_ok] at compiled
      obtain ⟨⟨inner, scopes, n⟩, one, ⟨more, scopes', m⟩, rest, same⟩ := compiled
      cases same
      exact declares_trans (pattern_declares p one) (all_declares ps rest)

theorem elements_declares : ∀ (ps : List (Pattern E)) {index fixed slot : Nat} {scopes : Scopes}
    {free : Nat} {items : List Item} {scopes' : Scopes} {needed : Nat},
    compileElements X names ps index fixed slot scopes free = .ok (items, scopes', needed) →
    Declares (allVariables ps) scopes free scopes' needed
  | [], _, _, _, _, _, _, _, _, compiled => by
      simp only [compileElements, pure_ok] at compiled
      cases compiled
      exact declares_none _ (Nat.le_refl _)
  | p :: ps, index, fixed, slot, scopes, free, _, _, _, compiled => by
      simp only [compileElements] at compiled
      split at compiled
      next name named =>
        split at compiled
        · simp only [pure_ok] at compiled
          cases compiled
          exact declares_none _ (Nat.le_refl _)
        next written =>
          have declares := bind_declares name free scopes (free + 1)
          simp only [pure_ok, Prod.mk.injEq] at compiled
          obtain ⟨-, rfl, rfl⟩ := compiled
          refine declares_more declares (fun x member => ?_) (Nat.le_succ _)
          obtain rfl := List.mem_singleton.mp member
          exact rest_variable named written
      · simp only [bind_ok, pure_ok] at compiled
        obtain ⟨⟨inner, scopes, n⟩, one, ⟨more, scopes', m⟩, rest, same⟩ := compiled
        cases same
        exact declares_more (declares_trans (pattern_declares p one) (elements_declares ps rest))
          (fun _ member => member) (Nat.le_succ _)

end

/-! ## Following a fragment -/

section Follow

variable {mod : BytecodeModule} {post : Post V W} {null : V} {l : Layout} {needed : Nat}
  {live live' : List V} {store store' : Nat → V} {w : W} {lo hi : Nat}

/-- The same ends, for a part of the code that starts from later slots. -/
theorem follows_within {α : Type} {out : Outcome V (Machine V W) α} {k k' : α → Machine V W → Prop}
    {lo' hi' free : Nat} (low : lo ≤ lo') (high : hi' ≤ hi) (more : l.free ≤ free)
    (stays : Stays null l live store' live')
    (follows : out.Follows (l.ends null lo hi live post) k) (done : ∀ a s, k a s → k' a s) :
    out.Follows (Layout.ends null ⟨l.base, l.vars, free⟩ lo' hi' live' post) k' := by
  refine follows_mono follows done (fun value s raises => ?_) (fun _ _ returns => returns)
    (fun diverges => diverges)
  intro pc live'' above below later
  exact raises pc live'' (Nat.le_trans low above) (Nat.lt_of_lt_of_le below high)
    (stays_trans more stays later)

/-- Operands that were there before the code are there after it. -/
theorem stays_operands {body operands : List V} (site : Site null l needed body store)
    (same : live'.length = (body ++ operands).length)
    (stays : Stays null l (body ++ operands) store' live') :
    ∃ body', live' = body' ++ operands ∧ body'.length = body.length ∧
      Stays null l body store' body' := by
  have based := site.based
  have enough := site.enough
  have room := site.room
  rw [List.length_append] at same
  have bodyLength : (live'.take body.length).length = body.length := by
    rw [List.length_take]
    omega
  have upper : live'.drop body.length = operands := by
    apply List.ext_getElem?
    intro i
    rw [List.getElem?_drop]
    by_cases inside : i < operands.length
    · have constant : ¬ l.vars (body.length + i) := by
        intro var
        have declared := site.declared _ var
        omega
      rw [stays.kept (body.length + i) (by rw [List.length_append]; omega) (.inr (by omega)) constant,
        List.getElem?_append_right (by omega), Nat.add_sub_cancel_left]
    · rw [List.getElem?_eq_none (by omega), List.getElem?_eq_none (by omega)]
  refine ⟨live'.take body.length, ?_, bodyLength, ?_, ?_, ?_⟩
  · rw [← upper, List.take_append_drop]
  · exact Nat.le_of_eq bodyLength.symm
  · intro i inside guarded constant
    rw [List.getElem?_take_of_lt inside,
      stays.kept i (by rw [List.length_append]; omega) guarded constant,
      List.getElem?_append_left inside]
  · intro i var
    have inside := site_var_bound site var
    rw [List.getD_eq_getElem?_getD, List.getElem?_take_of_lt inside,
      ← List.getD_eq_getElem?_getD]
    exact stays.holds i var

/-- The code of an expression inside a fragment, on top of some operands. -/
theorem exec_expr {e : E} {scopes : Scopes} {free needed' pc : Nat} {code : List Instr}
    {operands : List V} {env : Env V} {k : V → Machine V W → Prop}
    (compiled : X.compileExpr e scopes free = .ok (code, needed'))
    (placed : Placed mod.code pc code) (site : Site M.platform.null l needed live store)
    (base : l.base = mod.stackBase)
    (more : l.free ≤ free) (less : needed' ≤ needed)
    (visible : Visible ⟨l.base, l.vars, free⟩ scopes) (low : lo ≤ pc)
    (high : pc + code.length ≤ hi) (stays : Stays M.platform.null l live store' live')
    (agrees : ∀ x, X.reads e x = true → envOf M.platform.null scopes live' x = env x)
    (follows : (X.eval e env (store', w)).Follows (l.ends M.platform.null lo hi live post) k)
    (rest : ∀ v s live'', k v s → live''.length = live'.length →
      Stays M.platform.null l live s.1 live'' →
      Stays M.platform.null ⟨l.base, l.vars, free⟩ live' s.1 live'' →
      Exec M mod post ⟨pc + code.length, live'' ++ operands ++ [v], s.2⟩) :
    Exec M mod post ⟨pc, live' ++ operands, w⟩ := by
  have grows := X.grows compiled
  have here : Site M.platform.null ⟨l.base, l.vars, free⟩ needed' live' store' :=
    site_fewer (site_later site more (Nat.le_trans grows less) stays) grows less
  have onTop := stays_append here operands (site_stays here)
  have operandSite : Site M.platform.null ⟨mod.stackBase, l.vars, free⟩ needed'
      (live' ++ operands) store' := by
    rw [← base]
    exact site_later (l := ⟨l.base, l.vars, free⟩) here (Nat.le_refl _) here.enough onTop
  have sameEnv : X.eval e (envOf M.platform.null scopes (live' ++ operands)) = X.eval e env := by
    apply X.eval_congr
    intro x reads
    rw [env_stays here visible onTop]
    exact agrees x reads
  refine X.sound compiled mod pc l.vars (live' ++ operands) store' w post placed operandSite
    (by rw [← base]; exact visible) ?_
  rw [sameEnv, ← base]
  refine follows_within low high more (stays_append site operands stays) follows ?_
  intro v s holds live'' same after
  obtain ⟨body, rfl, length, inner⟩ := stays_operands here same after
  exact rest v s body holds length (stays_trans more stays inner) inner

/-- An operation of the instruction at `pc`, and where each of its values leads. -/
theorem follow_outside {α : Type} {x : Eval V W α} {k : α → Machine V W → Prop} {pc : Nat}
    {next : α → W → Point V W} (low : lo ≤ pc) (high : pc < hi)
    (stays : Stays null l live store' live')
    (follows : (outside x (store', w)).Follows (l.ends null lo hi live post) k)
    (rest : ∀ a w', k a (store', w') → Exec M mod post (next a w')) :
    (x w).Follows (post.ends pc live') fun a w' => Exec M mod post (next a w') :=
  follows_mono (follows_at low high stays follows) rest (fun _ _ raises => raises)
    (fun _ _ returns => returns) (fun diverges => diverges)

end Follow

/-! ## Fragments and their meaning -/

/-- Where a fragment leads: to its end with the bindings in scope, or to the place
of failed tests. -/
def Matched (M : Engine V W N) (mod : BytecodeModule) (post : Post V W) (scopes : Scopes)
    (l : Layout) (live : List V) (env : Env V) (stop failed : Nat) (result : Bindings V)
    (s : Machine V W) : Prop :=
  ∀ live', live'.length = live.length → Stays M.platform.null l live s.1 live' →
    match result with
    | none => Exec M mod post ⟨failed, live', s.2⟩
    | some bindings => envOf M.platform.null scopes live' = bindAll env bindings →
        Exec M mod post ⟨stop, live', s.2⟩

/-- A fragment that matches the values in the slots `used` as `ref` does. Its
expressions see the names `bound` beside those of the environment. -/
def FragmentSound (M : Engine V W N) (bound : List String) (scopes : Scopes) (free : Nat)
    (scopes' : Scopes) (needed : Nat) (items : List Item) (used : List Nat)
    (ref : Env V → List V → Eval V (Machine V W) (Bindings V)) : Prop :=
  ∀ (mod : BytecodeModule) (pc after : Nat) (vars : Nat → Prop) (live : List V) (store : Nat → V)
    (w : W) (post : Post V W) (env : Env V),
    let null := M.platform.null
    let l : Layout := ⟨mod.stackBase, vars, free⟩
    Placed mod.code pc (resolve items after) → Site null l needed live store → Visible l scopes →
    (∀ slot ∈ used, slot < free ∧ ¬ vars slot) →
    (∀ x, x ∉ bound → envOf null scopes live x = env x) →
    (ref env (used.map fun slot => live.getD slot null) (store, w)).Follows
      (l.ends null pc (pc + items.length) live post)
      (Matched M mod post scopes' l live (envOf null scopes live) (pc + items.length)
        (pc + items.length + after)) →
    Exec M mod post ⟨pc, live, w⟩

theorem bind_all_append (env : Env V) (first second : List (String × V)) :
    bindAll env (first ++ second) = bindAll (bindAll env first) second := by
  simp [bindAll]

theorem visible_declared {vars : Nat → Prop} {base : Nat} {names : List String}
    {scopes scopes' : Scopes} {free needed : Nat}
    (declares : Declares names scopes free scopes' needed) (declared : ∀ i, vars i → i < free)
    (visible : Visible ⟨base, vars, free⟩ scopes) : Visible ⟨base, vars, needed⟩ scopes' := by
  intro x info found
  rcases declares.fresh x info found with before | ⟨low, high, constant⟩
  · obtain ⟨below, kind⟩ := visible x info before
    exact ⟨Nat.lt_of_lt_of_le below declares.grows, kind⟩
  · refine ⟨high, ⟨fun is => ?_, fun var => ?_⟩⟩
    · rw [constant] at is
      cases is
    · exact absurd (declared _ var) (by omega)

/-- One match after the other. -/
def both (first second : Eval V (Machine V W) (Bindings V)) : Eval V (Machine V W) (Bindings V) := do
  match ← first with
  | none => pure none
  | some bindings =>
      match ← second with
      | none => pure none
      | some more => pure (some (bindings ++ more))

theorem follows_both {first second : Eval V (Machine V W) (Bindings V)} {s : Machine V W}
    {ends : Ends V (Machine V W)} {k : Bindings V → Machine V W → Prop} :
    (both first second s).Follows ends k ↔
      (first s).Follows ends fun result s => match result with
        | none => k none s
        | some bindings => (second s).Follows ends fun result s => match result with
            | none => k none s
            | some more => k (some (bindings ++ more)) s := by
  unfold both
  rw [follows_bind]
  refine ⟨fun follows => ?_, fun follows => ?_⟩ <;>
    refine follows_mono follows (fun result s held => ?_) (fun _ _ raises => raises)
      (fun _ _ returns => returns) (fun diverges => diverges)
  · cases result with
    | none => exact held
    | some bindings =>
        dsimp only at held ⊢
        rw [follows_bind] at held
        refine follows_mono held (fun result s held => ?_) (fun _ _ raises => raises)
          (fun _ _ returns => returns) (fun diverges => diverges)
        cases result <;> exact held
  · cases result with
    | none => exact held
    | some bindings =>
        dsimp only at held ⊢
        rw [follows_bind]
        refine follows_mono held (fun result s held => ?_) (fun _ _ raises => raises)
          (fun _ _ returns => returns) (fun diverges => diverges)
        cases result <;> exact held

/-- Two fragments in a row; the slots that the second one reads are set before the
first. -/
theorem fragment_both {bound vars : List String} {scopes scopes₁ scopes₂ : Scopes}
    {free n₁ n₂ : Nat} {a b : List Item} {used₁ used₂ : List Nat}
    {ref₁ ref₂ : Env V → List V → Eval V (Machine V W) (Bindings V)}
    (declares : Declares vars scopes free scopes₁ n₁) (grows : n₁ ≤ n₂)
    (first : FragmentSound M bound scopes free scopes₁ n₁ a used₁ ref₁)
    (second : FragmentSound M (bound ++ vars) scopes₁ n₁ scopes₂ n₂ b used₂ ref₂) :
    FragmentSound M bound scopes free scopes₂ n₂ (a ++ b) (used₁ ++ used₂) fun env values =>
      both (ref₁ env (values.take used₁.length)) (ref₂ env (values.drop used₁.length)) := by
  intro mod pc after frameVars live store w post env null l placed site visible used agrees follows
  rw [resolve_append] at placed
  obtain ⟨placedA, placedB⟩ := placed_append placed
  rw [resolve_length] at placedB
  have split₁ : ((used₁ ++ used₂).map fun slot => live.getD slot null).take used₁.length =
      used₁.map fun slot => live.getD slot null := by simp
  have split₂ : ((used₁ ++ used₂).map fun slot => live.getD slot null).drop used₁.length =
      used₂.map fun slot => live.getD slot null := by simp
  have length : pc + (a ++ b).length = pc + a.length + b.length := by
    rw [List.length_append, Nat.add_assoc]
  beta_reduce at follows
  rw [split₁, split₂, follows_both, length] at follows
  refine first mod pc (b.length + after) frameVars live store w post env placedA
    (site_fewer site declares.grows grows) visible
    (fun slot member => used slot (List.mem_append_left _ member)) agrees ?_
  refine follows_within (Nat.le_refl _) (by omega) (Nat.le_refl _) (site_stays site) follows ?_
  intro result s held live₁ same stays
  cases result with
  | none =>
      have goes := held live₁ same stays
      dsimp only at goes ⊢
      rw [show pc + a.length + (b.length + after) = pc + a.length + b.length + after by omega]
      exact goes
  | some bindings =>
      intro bindsFirst
      have stays' := site_later site declares.grows grows stays
      have visible₁ : Visible ⟨mod.stackBase, frameVars, n₁⟩ scopes₁ :=
        visible_declared declares site.declared visible
      have sameValues : (used₂.map fun slot => live₁.getD slot null) =
          used₂.map fun slot => live.getD slot null := by
        apply List.map_congr_left
        intro slot member
        obtain ⟨below, constant⟩ := used slot (List.mem_append_right _ member)
        exact stays_slot site below constant stays
      refine second mod (pc + a.length) after frameVars live₁ s.1 s.2 post env placedB stays'
        visible₁ (fun slot member => ?_) (fun x absent => ?_) ?_
      · obtain ⟨below, constant⟩ := used slot (List.mem_append_right _ member)
        exact ⟨Nat.lt_of_lt_of_le below declares.grows, constant⟩
      · simp only [List.mem_append, not_or] at absent
        have unchanged : envOf M.platform.null scopes₁ live₁ x =
            envOf M.platform.null scopes live₁ x := by
          simp only [envOf, declares.others x absent.2]
        rw [unchanged, env_stays site visible stays]
        exact agrees x absent.1
      · rw [sameValues]
        refine follows_within (by omega) (Nat.le_refl _) declares.grows stays held ?_
        intro result s' held' live₂ same₂ stays₂
        have length₂ := same₂.trans same
        have stays₀ := stays_trans declares.grows stays stays₂
        cases result with
        | none => exact held' live₂ length₂ stays₀
        | some more =>
            intro bindsSecond
            refine held' live₂ length₂ stays₀ ?_
            rw [bindsSecond, bindsFirst, bind_all_append]

/-! ## Values on the stack, and values in new slots -/

/-- Code that leaves the value that `ref` computes from the slots `used`. -/
def ValueSound (M : Engine V W N) (bound : List String) (scopes : Scopes) (free needed : Nat)
    (code : List Instr) (used : List Nat) (ref : Env V → List V → Eval V (Machine V W) V) : Prop :=
  ∀ (mod : BytecodeModule) (pc : Nat) (vars : Nat → Prop) (live : List V) (store : Nat → V)
    (w : W) (post : Post V W) (env : Env V),
    let null := M.platform.null
    let l : Layout := ⟨mod.stackBase, vars, free⟩
    Placed mod.code pc code → Site null l needed live store → Visible l scopes →
    (∀ slot ∈ used, slot < free ∧ ¬ vars slot) →
    (∀ x, x ∉ bound → envOf null scopes live x = env x) →
    (ref env (used.map fun slot => live.getD slot null) (store, w)).Follows
      (l.ends null pc (pc + code.length) live post)
      (fun v s => ∀ live', live'.length = live.length → Stays null l live s.1 live' →
        Exec M mod post ⟨pc + code.length, live' ++ [v], s.2⟩) →
    Exec M mod post ⟨pc, live, w⟩

/-- Code that leaves the values that `ref` computes in the slots `targets`. -/
def StoreSound (M : Engine V W N) (bound : List String) (scopes : Scopes) (free needed : Nat)
    (code : List Instr) (used targets : List Nat)
    (ref : Env V → List V → Eval V (Machine V W) (List V)) : Prop :=
  ∀ (mod : BytecodeModule) (pc : Nat) (vars : Nat → Prop) (live : List V) (store : Nat → V)
    (w : W) (post : Post V W) (env : Env V),
    let null := M.platform.null
    let l : Layout := ⟨mod.stackBase, vars, free⟩
    Placed mod.code pc code → Site null l needed live store → Visible l scopes →
    (∀ slot ∈ used, slot < free ∧ ¬ vars slot) →
    (∀ x, x ∉ bound → envOf null scopes live x = env x) →
    (ref env (used.map fun slot => live.getD slot null) (store, w)).Follows
      (l.ends null pc (pc + code.length) live post)
      (fun values s => ∀ live', live'.length = live.length → Stays null l live s.1 live' →
        (targets.map fun slot => live'.getD slot null) = values →
        Exec M mod post ⟨pc + code.length, live', s.2⟩) →
    Exec M mod post ⟨pc, live, w⟩

def guarded (test : Eval V (Machine V W) Bool) (x : Eval V (Machine V W) (Bindings V)) :
    Eval V (Machine V W) (Bindings V) := do
  if ← test then x else pure none

theorem follows_guarded {test : Eval V (Machine V W) Bool} {x : Eval V (Machine V W) (Bindings V)}
    {s : Machine V W} {ends : Ends V (Machine V W)} {k : Bindings V → Machine V W → Prop} :
    (guarded test x s).Follows ends k ↔
      (test s).Follows ends fun b s => if b then (x s).Follows ends k else k none s := by
  unfold guarded
  rw [follows_bind]
  refine ⟨fun follows => ?_, fun follows => ?_⟩ <;>
    refine follows_mono follows (fun b s held => ?_) (fun _ _ raises => raises)
      (fun _ _ returns => returns) (fun diverges => diverges)
  · cases b <;> exact held
  · cases b <;> exact held

theorem both_guarded (test : Eval V (Machine V W) Bool) (x : Eval V (Machine V W) (Bindings V)) :
    both (guarded test (pure (some []))) x = guarded test x := by
  simp only [both, guarded, bind_assoc]
  congr 1
  funext b
  cases b with
  | false => rfl
  | true =>
      simp only [if_true, pure_bind, List.nil_append]
      conv_rhs => rw [← bind_pure x]
      congr 1
      funext result
      cases result <;> rfl

/-- A Boolean on the stack and the jump to the failed tests. -/
theorem fragment_test {bound : List String} {scopes : Scopes} {free needed : Nat}
    {code : List Instr} {used : List Nat} {ref : Env V → List V → Eval V (Machine V W) V}
    (sense : Bool) (value : ValueSound M bound scopes free needed code used ref) :
    FragmentSound M bound scopes free scopes needed (instrs code ++ [Item.fail sense]) used
      fun env values => guarded (do
        let b ← ref env values
        let t ← outside (M.truthy b)
        pure (t != sense)) (pure (some [])) := by
  intro mod pc after vars live store w post env null l placed site visible used agrees follows
  rw [resolve_append, instrs, resolve_instrs] at placed
  obtain ⟨placedCode, placedJump⟩ := placed_append placed
  have length : pc + (instrs code ++ [Item.fail sense]).length = pc + code.length + 1 := by
    simp [instrs, Nat.add_assoc]
  beta_reduce at follows
  rw [follows_guarded, follows_bind, length] at follows
  refine value mod pc vars live store w post env placedCode site visible used agrees ?_
  refine follows_within (Nat.le_refl _) (by omega) (Nat.le_refl _) (site_stays site) follows ?_
  intro v s held live' same stays
  have sameEnv := env_stays site visible stays
  rw [follows_bind] at held
  cases sense with
  | false =>
      obtain ⟨fetched, -⟩ := placed_cons placedJump
      refine exec_jump_if_false fetched (follow_outside (by omega) (by omega) stays held ?_)
      intro t w' goes
      cases t with
      | true => exact goes live' same stays sameEnv
      | false =>
          have fails : Exec M mod post ⟨pc + code.length + 1 + after, live', w'⟩ :=
            goes live' same stays
          simpa using fails
  | true =>
      obtain ⟨fetched, -⟩ := placed_cons placedJump
      refine exec_jump_if_true fetched (follow_outside (by omega) (by omega) stays held ?_)
      intro t w' goes
      cases t with
      | false => exact goes live' same stays sameEnv
      | true =>
          have fails : Exec M mod post ⟨pc + code.length + 1 + after, live', w'⟩ :=
            goes live' same stays
          simpa using fails

/-- A value that goes to the next free slot. -/
theorem store_value {bound : List String} {scopes : Scopes} {free slot : Nat} {code : List Instr}
    {used : List Nat} {ref : Env V → List V → Eval V (Machine V W) V} (grows : free ≤ slot)
    (value : ValueSound M bound scopes free slot code used ref) :
    StoreSound M bound scopes free (slot + 1) (code ++ [Instr.storeLocal slot]) used [slot]
      (fun env values => do
        let v ← ref env values
        pure [v]) := by
  intro mod pc vars live store w post env null l placed site visible used agrees follows
  obtain ⟨placedCode, placedStore⟩ := placed_append placed
  obtain ⟨fetched, -⟩ := placed_cons placedStore
  have length : pc + (code ++ [Instr.storeLocal slot]).length = pc + code.length + 1 := by
    simp [Nat.add_assoc]
  have room := site.room
  have based := site.based
  beta_reduce at follows
  rw [follows_bind, length] at follows
  refine value mod pc vars live store w post env placedCode
    (site_fewer site grows (Nat.le_succ _)) visible used agrees ?_
  refine follows_within (Nat.le_refl _) (by omega) (Nat.le_refl _) (site_stays site) follows ?_
  intro v s held live' same stays
  refine exec_store_local fetched (held (live'.set slot v) ?_ ?_ ?_)
  · rw [List.length_set, same]
  · exact stays_set site v grows (by omega) stays
  · simp only [List.map_cons, List.map_nil, List.getD_eq_getElem?_getD]
    rw [List.getElem?_set_self (by omega)]
    rfl

/-- Values in new slots, and a fragment that matches them. -/
theorem fragment_store {bound : List String} {scopes scopes' : Scopes} {free middle needed : Nat}
    {code : List Instr} {items : List Item} {used targets : List Nat}
    {values : Env V → List V → Eval V (Machine V W) (List V)}
    {ref : Env V → List V → Eval V (Machine V W) (Bindings V)} (more : free ≤ middle)
    (grows : middle ≤ needed) (new : ∀ slot ∈ targets, free ≤ slot ∧ slot < middle)
    (store : StoreSound M bound scopes free middle code used targets values)
    (rest : FragmentSound M bound scopes middle scopes' needed items targets ref) :
    FragmentSound M bound scopes free scopes' needed (instrs code ++ items) used
      (fun env slots => do
        let found ← values env slots
        ref env found) := by
  intro mod pc after vars live stored w post env null l placed site visible used agrees follows
  rw [resolve_append, instrs, resolve_instrs] at placed
  obtain ⟨placedCode, placedItems⟩ := placed_append placed
  have length : pc + (instrs code ++ items).length = pc + code.length + items.length := by
    simp [instrs, Nat.add_assoc]
  beta_reduce at follows
  rw [follows_bind, length] at follows
  refine store mod pc vars live stored w post env placedCode (site_fewer site more grows) visible
    used agrees ?_
  refine follows_within (Nat.le_refl _) (by omega) (Nat.le_refl _) (site_stays site) follows ?_
  rintro found s held live' same stays rfl
  refine rest mod (pc + code.length) after vars live' s.1 s.2 post env placedItems
    (site_later site more grows stays) (visible_later visible more) (fun slot member => ?_)
    (fun x absent => ?_) ?_
  · obtain ⟨low, high⟩ := new slot member
    exact ⟨high, fun var => Nat.not_lt_of_le low (site.declared slot var)⟩
  · rw [env_stays site visible stays]
    exact agrees x absent
  · refine follows_within (by omega) (Nat.le_refl _) more stays held ?_
    intro result s' goes live'' same' later
    have sameEnv := env_stays site visible stays
    have whole := goes live'' (same'.trans same) (stays_trans more stays later)
    cases result with
    | none => exact whole
    | some bindings =>
        intro binds
        refine whole ?_
        rw [binds, sameEnv]

section Values

variable {bound : List String} {scopes : Scopes} {free needed slot : Nat}

theorem load_value :
    ValueSound M bound scopes free free [.pushLocal slot] [slot]
      (fun _ values => pure (values.headD M.platform.null)) := by
  intro mod pc vars live store w post env null l placed site visible used agrees follows
  obtain ⟨fetched, -⟩ := placed_cons placed
  exact exec_push_local fetched (follows live rfl (site_stays site))

/-- A test of the value in a slot. -/
theorem test_value {p : Primitive} {test : Instr}
    (instr : (∃ code, p = .testType code ∧ test = .testType code) ∨
      ∃ key, p = .testProto key ∧ test = .testProto key) :
    ValueSound M bound scopes free free [.pushLocal slot, test] [slot]
      (fun _ values => outside (M.primitive p values)) := by
  intro mod pc vars live store w post env null l placed site visible used agrees follows
  obtain ⟨fetched, placed⟩ := placed_cons placed
  obtain ⟨fetchedTest, -⟩ := placed_cons placed
  have stays := site_stays site
  have fetchedPrimitive : (∃ code, p = .testType code ∧
      mod.code[pc + 1]? = some (.testType code)) ∨
      ∃ key, p = .testProto key ∧ mod.code[pc + 1]? = some (.testProto key) := by
    rcases instr with ⟨code, rfl, rfl⟩ | ⟨key, rfl, rfl⟩
    · exact .inl ⟨code, rfl, fetchedTest⟩
    · exact .inr ⟨key, rfl, fetchedTest⟩
  refine exec_push_local fetched (exec_test fetchedPrimitive ?_)
  refine follow_outside (by omega) (by simp) (stays_append site _ stays) follows ?_
  intro v w' goes
  exact goes live rfl stays

theorem send_value {name : String} :
    ValueSound M bound scopes free free [.pushLocal slot, .send (sendSite name 0)] [slot]
      (fun _ values => outside (sends M name 0 values)) := by
  intro mod pc vars live store w post env null l placed site visible used agrees follows
  obtain ⟨fetched, placed⟩ := placed_cons placed
  obtain ⟨fetchedSend, -⟩ := placed_cons placed
  have stays := site_stays site
  refine exec_push_local fetched (exec_send fetchedSend rfl ?_)
  refine follow_outside (by omega) (by simp) stays follows ?_
  intro v w' goes
  exact goes live rfl stays

/-- A message with a number to the value in a slot. -/
theorem send_number_value {name : String} {n : Nat} :
    ValueSound M bound scopes free free
      [.pushLocal slot, .pushConst (intConst n), .send (sendSite name 1)] [slot]
      (fun _ values => do
        let k ← outside (number M n)
        outside (sends M name 1 (values ++ [k]))) := by
  intro mod pc vars live store w post env null l placed site visible used agrees follows
  obtain ⟨fetched, placed⟩ := placed_cons placed
  obtain ⟨fetchedNumber, placed⟩ := placed_cons placed
  obtain ⟨fetchedSend, -⟩ := placed_cons placed
  have stays := site_stays site
  rw [follows_bind] at follows
  refine exec_push_local fetched (exec_push_const fetchedNumber ?_)
  refine follow_outside (by omega) (by simp) (stays_append site _ stays) follows ?_
  intro k w' held
  rw [List.append_assoc]
  refine exec_send fetchedSend rfl ?_
  refine follow_outside (by omega) (by simp) stays held ?_
  intro v w'' goes
  exact goes live rfl stays

/-- The length of the list in a slot, compared with a number. -/
theorem length_value {n : Nat} {operator : Operator} {compare : Instr}
    (instr : (operator = .ge ∧ compare = .ge) ∨ (operator = .eq ∧ compare = .eq)) :
    ValueSound M bound scopes free free
      [.pushLocal slot, .send (sendSite "length" 0), .pushConst (intConst n), compare] [slot]
      (fun _ values => do
        let length ← outside (sends M "length" 0 values)
        let k ← outside (number M n)
        outside (M.operate operator [length, k])) := by
  intro mod pc vars live store w post env null l placed site visible used agrees follows
  obtain ⟨fetched, placed⟩ := placed_cons placed
  obtain ⟨fetchedSend, placed⟩ := placed_cons placed
  obtain ⟨fetchedNumber, placed⟩ := placed_cons placed
  obtain ⟨fetchedCompare, -⟩ := placed_cons placed
  have stays := site_stays site
  rw [follows_bind] at follows
  refine exec_push_local fetched (exec_send fetchedSend rfl ?_)
  refine follow_outside (by omega) (by simp) stays follows ?_
  intro length w' held
  rw [follows_bind] at held
  refine exec_push_const fetchedNumber ?_
  refine follow_outside (by omega) (by simp) (stays_append site _ stays) held ?_
  intro k w'' held
  rw [List.append_assoc]
  have compared : ∀ v w₃, (∀ live', live'.length = live.length → Stays null l live store live' →
      Exec M mod post ⟨pc + 4, live' ++ [v], w₃⟩) →
      Exec M mod post ⟨pc + 1 + 1 + 1 + 1, live ++ [v], w₃⟩ :=
    fun v w₃ goes => goes live rfl stays
  rcases instr with ⟨rfl, rfl⟩ | ⟨rfl, rfl⟩
  · exact exec_ge fetchedCompare (follow_outside (by omega) (by simp) stays held compared)
  · exact exec_eq fetchedCompare (follow_outside (by omega) (by simp) stays held compared)

variable {e : E} {code : List Instr}

/-- The value of an expression and the value in a slot, for what follows. -/
theorem expr_and_slot {k : V → Machine V W → Prop} {mod : BytecodeModule} {pc hi : Nat}
    {vars : Nat → Prop} {live : List V} {store : Nat → V} {w : W} {post : Post V W} {env : Env V}
    {rest : List Instr} (compiled : X.compileExpr e scopes free = .ok (code, needed))
    (unread : mentionsNone X bound e = true)
    (placed : Placed mod.code pc (code ++ (.pushLocal slot :: rest)))
    (site : Site M.platform.null ⟨mod.stackBase, vars, free⟩ needed live store)
    (visible : Visible ⟨mod.stackBase, vars, free⟩ scopes) (used : slot < free ∧ ¬ vars slot)
    (agrees : ∀ x, x ∉ bound → envOf M.platform.null scopes live x = env x)
    (high : pc + code.length < hi)
    (follows : (X.eval e env (store, w)).Follows
      (Layout.ends M.platform.null ⟨mod.stackBase, vars, free⟩ pc hi live post) k)
    (goes : ∀ v s live', k v s → live'.length = live.length →
      Stays M.platform.null ⟨mod.stackBase, vars, free⟩ live s.1 live' →
      Exec M mod post
        ⟨pc + code.length + 1, live' ++ [v, live.getD slot M.platform.null], s.2⟩) :
    Exec M mod post ⟨pc, live, w⟩ := by
  obtain ⟨placedCode, placedRest⟩ := placed_append placed
  obtain ⟨fetched, -⟩ := placed_cons placedRest
  have here : Exec M mod post ⟨pc, live ++ [], w⟩ := by
    refine exec_expr compiled placedCode site rfl (Nat.le_refl _) (Nat.le_refl _) visible
      (Nat.le_refl _) (Nat.le_of_lt high) (site_stays site) (fun x reads => ?_) follows ?_
    · refine agrees x fun member => ?_
      have silent := List.all_eq_true.mp unread x member
      rw [reads] at silent
      cases silent
    · intro v s live' held same stays _
      have inside : slot < live'.length := by
        have enough := site.enough
        have room := site.room
        have based := site.based
        dsimp only at enough room based
        omega
      have kept : (live' ++ [] ++ [v]).getD slot M.platform.null =
          live.getD slot M.platform.null := by
        rw [List.append_nil, List.getD_append _ _ _ _ inside]
        exact stays_slot site used.1 used.2 stays
      refine exec_push_local fetched ?_
      rw [kept, List.append_nil, List.append_assoc]
      exact goes v s live' held same stays
  rwa [List.append_nil] at here

theorem equal_value (compiled : X.compileExpr e scopes free = .ok (code, needed))
    (unread : mentionsNone X bound e = true) :
    ValueSound M bound scopes free needed (code ++ [Instr.pushLocal slot, .eq]) [slot]
      (fun env values => do
        let expected ← X.eval e env
        outside (M.operate .eq (expected :: values))) := by
  intro mod pc vars live store w post env null l placed site visible used agrees follows
  obtain ⟨-, placedRest⟩ := placed_append placed
  obtain ⟨-, placedRest⟩ := placed_cons placedRest
  obtain ⟨fetched, -⟩ := placed_cons placedRest
  have length : pc + (code ++ [Instr.pushLocal slot, Instr.eq]).length =
      pc + code.length + 1 + 1 := by simp [Nat.add_assoc]
  rw [follows_bind, length] at follows
  refine expr_and_slot compiled unread placed site visible (used slot List.mem_cons_self) agrees
    (by omega) follows ?_
  intro v s live' held same stays
  refine exec_eq fetched (follow_outside (by omega) (by omega) stays held ?_)
  intro b w' goes
  exact goes live' same stays

theorem unapply_value (compiled : X.compileExpr e scopes free = .ok (code, needed))
    (unread : mentionsNone X bound e = true) :
    ValueSound M bound scopes free needed
      (code ++ [Instr.pushLocal slot, .send (sendSite "unapply" 1)]) [slot]
      (fun env values => do
        let extractor ← X.eval e env
        outside (sends M "unapply" 1 (extractor :: values))) := by
  intro mod pc vars live store w post env null l placed site visible used agrees follows
  obtain ⟨-, placedRest⟩ := placed_append placed
  obtain ⟨-, placedRest⟩ := placed_cons placedRest
  obtain ⟨fetched, -⟩ := placed_cons placedRest
  have length : pc + (code ++ [Instr.pushLocal slot, Instr.send (sendSite "unapply" 1)]).length =
      pc + code.length + 1 + 1 := by simp [Nat.add_assoc]
  rw [follows_bind, length] at follows
  refine expr_and_slot compiled unread placed site visible (used slot List.mem_cons_self) agrees
    (by omega) follows ?_
  intro v s live' held same stays
  refine exec_send fetched rfl (follow_outside (by omega) (by omega) stays held ?_)
  intro b w' goes
  exact goes live' same stays

end Values

/-! ## Type tests -/

section TypeTests

variable {bound : List String} {scopes scopes' : Scopes} {free needed slot : Nat}
  {items : List Item} {used : List Nat}

theorem fragment_congr {ref ref' : Env V → List V → Eval V (Machine V W) (Bindings V)}
    (fragment : FragmentSound M bound scopes free scopes' needed items used ref)
    (same : ∀ env values, values.length = used.length → ref env values = ref' env values) :
    FragmentSound M bound scopes free scopes' needed items used ref' := by
  intro mod pc after vars live store w post env null l placed site visible read agrees follows
  refine fragment mod pc after vars live store w post env placed site visible read agrees ?_
  rw [same env _ (List.length_map _)]
  exact follows

/-- A meaning that reads one value. -/
def single (M : Engine V W N) (f : Env V → V → Eval V (Machine V W) (Bindings V)) :
    Env V → List V → Eval V (Machine V W) (Bindings V) :=
  fun env values => f env (values.headD M.platform.null)

theorem single_congr {ref : Env V → List V → Eval V (Machine V W) (Bindings V)}
    {f : Env V → V → Eval V (Machine V W) (Bindings V)}
    (fragment : FragmentSound M bound scopes free scopes' needed items [slot] ref)
    (same : ∀ env v, ref env [v] = f env v) :
    FragmentSound M bound scopes free scopes' needed items [slot] (single M f) := by
  refine fragment_congr fragment fun env values length => ?_
  obtain ⟨v, rfl⟩ := List.length_eq_one_iff.mp length
  exact same env v

/-- A Boolean that a value answers, as a test. -/
theorem fragment_ask {code : List Instr} {value : Env V → V → Eval V (Machine V W) V}
    {ref : Env V → List V → Eval V (Machine V W) V}
    (sound : ValueSound M bound scopes free needed code [slot] ref)
    (same : ∀ env v, ref env [v] = value env v) :
    FragmentSound M bound scopes free scopes needed (instrs code ++ [Item.fail false]) [slot]
      (single M fun env v => guarded (do
        let b ← value env v
        outside (M.truthy b)) (pure (some []))) := by
  refine single_congr (fragment_test false sound) fun env v => ?_
  simp [same]

/-- The marker of a class, or another test of a value that does not have it: the
shape of the tests that also accept foreign values. -/
theorem fragment_or_else {key : String} {code : List Instr}
    (other : Env V → V → Eval V (Machine V W) V)
    (sound : ValueSound M bound scopes free needed code [slot] fun env values =>
      other env (values.headD M.platform.null)) :
    FragmentSound M bound scopes free scopes needed
      (instrs (markerOr key slot code) ++ [Item.fail false]) [slot]
      (single M fun env v => guarded (do
        if ← asks M (M.primitive (.testProto (symbolConst key)) [v]) then pure true
        else
          let b ← other env v
          outside (M.truthy b)) (pure (some []))) := by
  intro mod pc after vars live store w post env null l placed site visible read agrees follows
  rw [resolve_append, instrs, resolve_instrs] at placed
  obtain ⟨placedCode, placedFail⟩ := placed_append placed
  obtain ⟨placedHead, placedOther⟩ := placed_append placedCode
  obtain ⟨fetchedLoad, placedHead⟩ := placed_cons placedHead
  obtain ⟨fetchedTest, placedHead⟩ := placed_cons placedHead
  obtain ⟨fetchedDup, placedHead⟩ := placed_cons placedHead
  obtain ⟨fetchedJump, placedHead⟩ := placed_cons placedHead
  obtain ⟨fetchedPop, -⟩ := placed_cons placedHead
  obtain ⟨fetchedFail, -⟩ := placed_cons placedFail
  have headLength : (markerOr key slot code).length = code.length + 5 := by simp [markerOr]
  have length : pc + (instrs (markerOr key slot code) ++ [Item.fail false]).length =
      pc + 5 + code.length + 1 := by
    simp only [instrs, List.length_append, List.length_map, headLength, List.length_singleton]
    omega
  rw [headLength, show pc + (code.length + 5) = pc + 5 + code.length by omega] at fetchedFail
  have stays := site_stays site
  rw [single, length] at follows
  change (guarded _ _ (store, w)).Follows _ _ at follows
  rw [follows_guarded, follows_bind, asks, follows_bind] at follows
  refine exec_push_local fetchedLoad (exec_test (.inr ⟨_, rfl, fetchedTest⟩) ?_)
  refine follow_outside (by omega) (by omega) (stays_append site _ stays) follows ?_
  intro m w₁ held
  refine exec_dup fetchedDup (exec_jump_if_true fetchedJump ?_)
  have onTop := stays_append site [m] stays
  cases answer : M.platform.truthy m w₁ with
  | error e =>
      have truth : M.truthy m w₁ = .raised e w₁ := by simp only [Engine.truthy, answer]
      rw [follows_outside, truth] at held
      rw [truth]
      exact held _ _ (by omega) (by omega) onTop
  | ok t =>
      have truth : M.truthy m w₁ = .done t w₁ := by simp only [Engine.truthy, answer]
      rw [follows_outside, truth] at held
      rw [truth]
      cases t with
      | true =>
          have goes := held live rfl stays rfl
          have target : pc + 1 + 1 + 1 + 1 + (code.length + 1) = pc + 5 + code.length := by omega
          change Exec M mod post ⟨pc + 1 + 1 + 1 + 1 + (code.length + 1), live ++ [m], w₁⟩
          rw [target]
          refine exec_jump_if_false fetchedFail ?_
          rw [truth]
          exact goes
      | false =>
          change ((other env (live.getD slot null) >>= fun b => outside (M.truthy b))
            (store, w₁)).Follows _ _ at held
          rw [follows_bind] at held
          change Exec M mod post ⟨pc + 1 + 1 + 1 + 1, live ++ [m], w₁⟩
          refine exec_pop fetchedPop ?_
          refine sound mod (pc + 5) vars live store w₁ post env placedOther site visible read
            agrees ?_
          refine follows_within (by omega) (by omega) (Nat.le_refl _) stays held ?_
          intro b s held' live' same after'
          refine exec_jump_if_false fetchedFail ?_
          refine follow_outside (by omega) (by omega) after' held' ?_
          intro t w₂ goes
          cases t with
          | true => exact goes live' same after' (env_stays site visible after')
          | false =>
              have fails : Exec M mod post ⟨pc + 5 + code.length + 1 + after, live', w₂⟩ :=
                goes live' same after'
              simpa using fails

variable {e : E} {code : List Instr}

/-- A call of one argument: the value of an expression on the value in a slot. -/
theorem call_value (compiled : X.compileExpr e scopes free = .ok (code, needed))
    (unread : mentionsNone X bound e = true) :
    ValueSound M bound scopes free needed (code ++ [Instr.pushLocal slot, .call 1]) [slot]
      (fun env values => do
        let function ← X.eval e env
        outside (M.perform (.call 1) [function, values.headD M.platform.null])) := by
  intro mod pc vars live store w post env null l placed site visible used agrees follows
  obtain ⟨-, placedRest⟩ := placed_append placed
  obtain ⟨-, placedRest⟩ := placed_cons placedRest
  obtain ⟨fetched, -⟩ := placed_cons placedRest
  have length : pc + (code ++ [Instr.pushLocal slot, Instr.call 1]).length =
      pc + code.length + 1 + 1 := by simp [Nat.add_assoc]
  rw [follows_bind, length] at follows
  refine expr_and_slot compiled unread placed site visible (used slot List.mem_cons_self) agrees
    (by omega) follows ?_
  intro v s live' held same stays
  refine exec_call_value fetched rfl (follow_outside (by omega) (by omega) stays held ?_)
  intro b w' goes
  exact goes live' same stays

/-- A call of two arguments: the value in a slot and the value of an expression. -/
theorem call_with_value {type : E} {typeCode : List Instr} {middle : Nat}
    (compiled : X.compileExpr e scopes free = .ok (code, middle))
    (compiledType : X.compileExpr type scopes middle = .ok (typeCode, needed))
    (unread : mentionsNone X bound e = true) (unreadType : mentionsNone X bound type = true) :
    ValueSound M bound scopes free needed
      (code ++ [Instr.pushLocal slot] ++ typeCode ++ [Instr.call 2]) [slot]
      (fun env values => do
        let function ← X.eval e env
        let prototype ← X.eval type env
        outside (M.perform (.call 2) [function, values.headD M.platform.null, prototype])) := by
  intro mod pc vars live store w post env null l placed site visible used agrees follows
  obtain ⟨placedFront, placedCall⟩ := placed_append placed
  obtain ⟨placedSlot, placedType⟩ := placed_append placedFront
  obtain ⟨fetched, -⟩ := placed_cons placedCall
  have frontLength : (code ++ [Instr.pushLocal slot]).length = code.length + 1 := by simp
  have wholeLength : (code ++ [Instr.pushLocal slot] ++ typeCode).length =
      code.length + 1 + typeCode.length := by simp; omega
  have length : pc + (code ++ [Instr.pushLocal slot] ++ typeCode ++ [Instr.call 2]).length =
      pc + code.length + 1 + typeCode.length + 1 := by simp; omega
  rw [frontLength, ← Nat.add_assoc] at placedType
  rw [wholeLength, show pc + (code.length + 1 + typeCode.length) =
    pc + code.length + 1 + typeCode.length by omega] at fetched
  rw [follows_bind, length] at follows
  have grows := X.grows compiled
  have growsType := X.grows compiledType
  refine expr_and_slot compiled unread placedSlot (site_fewer site grows growsType) visible
    (used slot List.mem_cons_self) agrees (by omega) follows ?_
  intro function s live₁ held same stays
  rw [follows_bind] at held
  refine exec_expr compiledType placedType site rfl grows (Nat.le_refl _)
    (visible_later visible grows) (by omega) (by omega) stays (fun x reads => ?_) held ?_
  · rw [env_stays site visible stays]
    refine agrees x fun member => ?_
    have silent := List.all_eq_true.mp unreadType x member
    rw [reads] at silent
    cases silent
  · intro prototype s' live₂ held' same' stays' _
    rw [List.append_assoc]
    refine exec_call_value fetched rfl (follow_outside (by omega) (by omega) stays' held' ?_)
    intro b w' goes
    exact goes live₂ (same'.trans same) stays'

/-- A value that `NOT` turns around. -/
theorem not_value :
    ValueSound M bound scopes free free
      [.pushLocal slot, .testProto (symbolConst throwableKey), .not] [slot]
      (fun _ values => do
        let scala ← outside (M.primitive (.testProto (symbolConst throwableKey))
          [values.headD M.platform.null])
        outside (M.operate .not [scala])) := by
  intro mod pc vars live store w post env null l placed site visible used agrees follows
  obtain ⟨fetched, placed⟩ := placed_cons placed
  obtain ⟨fetchedTest, placed⟩ := placed_cons placed
  obtain ⟨fetchedNot, -⟩ := placed_cons placed
  have stays := site_stays site
  rw [follows_bind] at follows
  refine exec_push_local fetched (exec_test (.inr ⟨_, rfl, fetchedTest⟩) ?_)
  refine follow_outside (by omega) (by simp) (stays_append site _ stays) follows ?_
  intro scala w' held
  refine exec_not fetchedNot (follow_outside (by omega) (by simp) stays held ?_)
  intro b w'' goes
  exact goes live rfl stays

/-- The expressions that a type test evaluates mention none of the names. -/
def testMentionsNone (X : ExprCompiler M E) (bound : List String) : TypeTest E → Bool
  | .foreign _ foreign => mentionsNone X bound foreign
  | .value isInstanceOf type => mentionsNone X bound isInstanceOf && mentionsNone X bound type
  | _ => true

theorem type_test_sound {test : TypeTest E}
    (compiled : compileTypeTest X test slot scopes free = .ok (some code, needed))
    (unread : testMentionsNone X bound test = true) :
    FragmentSound M bound scopes free scopes needed (instrs code ++ [Item.fail false]) [slot]
      (single M fun env v => guarded (evalTypeTest X env v test) (pure (some []))) := by
  cases test with
  | any =>
      simp only [compileTypeTest, pure_ok] at compiled
      cases compiled
  | builtin type =>
      simp only [compileTypeTest, pure_ok] at compiled
      cases compiled
      exact fragment_ask (test_value (.inl ⟨_, rfl, rfl⟩)) fun _ _ => rfl
  | proto key =>
      simp only [compileTypeTest, pure_ok] at compiled
      cases compiled
      exact fragment_ask (test_value (.inr ⟨_, rfl, rfl⟩)) fun _ _ => rfl
  | thrown key =>
      simp only [compileTypeTest, pure_ok] at compiled
      cases compiled
      refine single_congr (fragment_or_else (fun _ v => do
        let scala ← outside (M.primitive (.testProto (symbolConst throwableKey)) [v])
        outside (M.operate .not [scala])) not_value) fun env v => ?_
      simp [single, evalTypeTest, asks]
  | foreign key foreign =>
      simp only [compileTypeTest, bind_ok, pure_ok] at compiled
      obtain ⟨⟨c, n⟩, compiled, same⟩ := compiled
      cases same
      refine single_congr (fragment_or_else (fun env v => do
        let function ← X.eval foreign env
        outside (M.perform (.call 1) [function, v])) (call_value compiled unread)) fun env v => ?_
      simp [single, evalTypeTest, asks]
  | value isInstanceOf type =>
      simp only [compileTypeTest, bind_ok, pure_ok] at compiled
      obtain ⟨⟨c, n⟩, first, ⟨d, m⟩, second, same⟩ := compiled
      cases same
      simp only [testMentionsNone, Bool.and_eq_true] at unread
      refine single_congr (fragment_ask (call_with_value first second unread.1 unread.2)
        fun _ _ => rfl) fun env v => ?_
      simp [single, evalTypeTest, asks]

end TypeTests

/-! ## Binding and taking apart -/

section Parts

variable {bound : List String} {scopes : Scopes} {free slot : Nat}

theorem env_bind {null : V} {l : Layout} {needed : Nat} {live : List V} {store : Nat → V}
    (site : Site null l needed live store) (visible : Visible l scopes) (name : String) (v : V)
    (room : l.free < l.base) :
    envOf null (declareLocal name { slot := l.free } scopes) (live.set l.free v) =
      (envOf null scopes live).bind name v := by
  have stays := stays_set site v (Nat.le_refl _) room (site_stays site)
  have based := site.based
  funext x
  by_cases same : x = name
  · subst same
    simp only [envOf, find_declare, if_true, Option.map_some, Env.bind, Function.update_self]
    simp only [LocalInfo.binding, LocalInfo.variable, List.getD_eq_getElem?_getD]
    rw [List.getElem?_set_self (by omega)]
    rfl
  · rw [Env.bind, Function.update_of_ne same, ← env_stays site visible stays]
    simp only [envOf, find_declare, same, if_false]

theorem bind_sound (name : String) :
    FragmentSound M bound scopes free (bindPattern name slot scopes free).2.1
      (bindPattern name slot scopes free).2.2 (bindPattern name slot scopes free).1 [slot]
      (single M fun _ v => pure (some (bindName name v))) := by
  intro mod pc after vars live store w post env null l placed site visible used agrees follows
  have stays := site_stays site
  by_cases blank : name = "_"
  · simp only [bindPattern, bindName, single, blank, if_true] at follows
    exact follows live rfl stays rfl
  · simp only [bindPattern, blank, if_false, instrs, resolve_instrs] at placed site
    simp only [single, bindName, blank, if_false] at follows
    obtain ⟨fetchedLoad, placed⟩ := placed_cons placed
    obtain ⟨fetchedStore, -⟩ := placed_cons placed
    have room : free < mod.stackBase := site.room
    refine exec_push_local fetchedLoad (exec_store_local fetchedStore ?_)
    have goes := follows (live.set free (live.getD slot null)) (List.length_set ..)
      (stays_set site _ (Nat.le_refl _) room stays) (by
        simp only [bindPattern, blank, if_false]
        exact env_bind site visible name _ room)
    simpa [bindPattern, blank, instrs] using goes

/-- The values on top, stored from the last one down. -/
theorem exec_stores {mod : BytecodeModule} {post : Post V W} {w : W} (null : V) (values : List V) :
    ∀ {pc free : Nat} {live : List V},
    Placed mod.code pc ((List.range values.length).map fun k => Instr.storeLocal (free + k)) →
    free + values.length ≤ live.length →
    (∀ live', live'.length = live.length →
      (∀ i, i < free ∨ free + values.length ≤ i → live'[i]? = live[i]?) →
      ((extractSlots values.length free).map fun slot => live'.getD slot null) = values →
      Exec M mod post ⟨pc + values.length, live', w⟩) →
    Exec M mod post ⟨pc, live ++ values, w⟩ := by
  induction values using List.reverseRecOn with
  | nil =>
      intro pc free live _ _ goes
      rw [List.append_nil]
      exact goes live rfl (fun _ _ => rfl) rfl
  | append_singleton earlier v induction =>
      intro pc free live placed room goes
      rw [List.length_append, List.length_singleton] at placed room goes
      rw [List.range_succ_eq_map, List.map_cons, List.map_map] at placed
      obtain ⟨fetched, placed⟩ := placed_cons placed
      rw [Nat.add_zero] at fetched
      rw [← List.append_assoc]
      refine exec_store_local fetched ?_
      rw [List.set_append_left _ _ (by omega)]
      have shifted : ((fun k => Instr.storeLocal (free + k)) ∘ Nat.succ) =
          fun k => Instr.storeLocal (free + 1 + k) := by
        funext k
        simp only [Function.comp, Nat.succ_eq_add_one]
        congr 1
        omega
      rw [shifted] at placed
      refine induction placed (by rw [List.length_set]; omega) ?_
      · intro live' same outsideKept stored
        rw [show pc + 1 + earlier.length = pc + (earlier.length + 1) by omega]
        rw [List.length_set] at same
        refine goes live' same (fun i outer => ?_) ?_
        · rw [outsideKept i (by omega), List.getElem?_set_ne (by omega)]
        · have slots : extractSlots (earlier.length + 1) free =
              extractSlots earlier.length (free + 1) ++ [free] := by
            simp only [extractSlots, List.range_succ_eq_map, List.reverse_cons, List.map_append,
              List.map_cons, List.map_nil, Nat.add_zero, ← List.map_reverse, List.map_map]
            congr 1
            apply List.map_congr_left
            intro k _
            simp only [Function.comp, Nat.succ_eq_add_one]
            omega
          rw [slots, List.map_append, stored]
          congr 1
          simp only [List.map_cons, List.map_nil, List.getD_eq_getElem?_getD]
          rw [outsideKept free (.inl (by omega)), List.getElem?_set_self (by omega)]
          rfl

/-- What an instruction takes out of the value in a slot, kept in new slots. -/
theorem parts_store (count : Nat) {take : Instr} (parts : V → W → List V)
    (counts : ∀ v w, (parts v w).length = count)
    (takes : ∀ {mod : BytecodeModule} {post : Post V W} {pc : Nat} {live : List V} {v : V} {w : W},
      mod.code[pc]? = some take → Exec M mod post ⟨pc + 1, live ++ parts v w, w⟩ →
      Exec M mod post ⟨pc, live ++ [v], w⟩) :
    StoreSound M bound scopes free (free + count)
      ([Instr.pushLocal slot, take] ++ (List.range count).map fun k => Instr.storeLocal (free + k))
      [slot]
      (extractSlots count free) fun _ values =>
        outside fun w => .done (parts (values.headD M.platform.null) w) w := by
  intro mod pc vars live store w post env null l placed site visible used agrees follows
  obtain ⟨placedTake, placedStores⟩ := placed_append placed
  obtain ⟨fetchedLoad, placedTake⟩ := placed_cons placedTake
  obtain ⟨fetchedTake, -⟩ := placed_cons placedTake
  have room : free + count ≤ mod.stackBase := site.room
  have based : mod.stackBase ≤ live.length := site.based
  have some := counts (live.getD slot null) w
  rw [← some] at placedStores room
  refine exec_push_local fetchedLoad (takes fetchedTake ?_)
  refine exec_stores null (parts (live.getD slot null) w) placedStores (by omega) ?_
  intro live' same kept stored
  have stays : Stays null l live store live' := by
    refine ⟨Nat.le_of_eq same.symm, fun i _ guarded _ => kept i ?_, fun i var => ?_⟩
    · exact guarded.imp_right fun above => Nat.le_trans room above
    · have declared : i < free := site.declared i var
      rw [← site.holds i var, List.getD_eq_getElem?_getD, kept i (.inl declared),
        List.getD_eq_getElem?_getD]
  rw [some] at stored ⊢
  have goes := follows live' same stays stored
  have length : pc + ([Instr.pushLocal slot, take] ++ (List.range count).map fun k =>
      Instr.storeLocal (free + k)).length = pc + 1 + 1 + count := by
    simp
    omega
  rw [length] at goes
  exact goes

theorem extract_store (keys : List String) :
    StoreSound M bound scopes free (free + keys.length) (extractCode keys slot free) [slot]
      (extractSlots keys.length free) fun _ values =>
        outside (readFields M keys (values.headD M.platform.null)) := by
  refine parts_store keys.length (fun v w => keys.map fun key => M.platform.ownAttribute v key w)
    (fun v w => List.length_map _) ?_
  intro mod post pc live v w fetched rest
  exact exec_unapply_fields fetched rest

theorem uncons_store :
    StoreSound M bound scopes free (free + 2)
      [.pushLocal slot, .uncons, .storeLocal free, .storeLocal (free + 1)] [slot] [free + 1, free]
      fun _ values => outside (unconsOf M (values.headD M.platform.null)) := by
  refine parts_store 2 (fun v w => [(M.platform.uncons v w).1, (M.platform.uncons v w).2])
    (fun v w => rfl) ?_
  intro mod post pc live v w fetched rest
  refine exec_uncons fetched ?_
  rw [List.append_assoc]
  exact rest

end Parts

/-! ## Names that mean the same -/

section Resolution

variable {isLocal isLocal' : String → Bool} {bound : List String}

theorem value_named_congr {dotted : String}
    (same : ∀ x, (dotted.splitOn ".").head? = some x → isLocal' x = isLocal x) :
    valueNamedByType names isLocal' dotted = valueNamedByType names isLocal dotted := by
  unfold valueNamedByType
  cases parts : dotted.splitOn "." with
  | nil => rfl
  | cons head path =>
      have agrees := same head (by rw [parts]; rfl)
      simp only [agrees]

theorem resolve_type_head {t : TypeTree} {thrown : Bool}
    (same : ∀ x, t.head = some x → isLocal' x = isLocal x) :
    resolveType names isLocal' thrown t = resolveType names isLocal thrown t := by
  refine congrArg t.written.bind (funext fun written => ?_)
  unfold resolveNamed
  cases names.findType (typeNamed names written) with
  | some c => rfl
  | none =>
      cases t with
      | name dotted =>
          have named : valueNamedByType names isLocal' dotted =
              valueNamedByType names isLocal dotted := value_named_congr same
          simp only [named]
      | _ => rfl

/-- A type that is no value is found without the locals. -/
theorem resolve_type_other {t : TypeTree} {thrown : Bool} {test : TypeTest E}
    (found : resolveType names isLocal thrown t = .ok test)
    (other : ∀ isInstanceOf type, test ≠ .value isInstanceOf type) :
    resolveType names isLocal' thrown t = .ok test := by
  unfold resolveType at found ⊢
  simp only [bind_ok] at found ⊢
  obtain ⟨written, named, found⟩ := found
  refine ⟨written, named, ?_⟩
  unfold resolveNamed at found ⊢
  cases type : names.findType (typeNamed names written) with
  | some c =>
      rw [type] at found
      exact found
  | none =>
      rw [type] at found
      split at found <;> rename_i any
      · rwa [if_pos any]
      · rw [if_neg any]
        split at found <;> rename_i builtin
        · exact found
        · cases t with
          | name dotted =>
              dsimp only at found
              split at found
              · exact absurd (pure_ok.mp found).symm (other _ _)
              · cases found
          | _ => cases found

theorem resolve_type_congr {t : TypeTree} {thrown : Bool}
    (agree : ∀ x, x ∉ bound → isLocal' x = isLocal x)
    (visible : typeUnshadowed X names thrown isLocal bound t = true) :
    resolveType names isLocal' thrown t = resolveType names isLocal thrown t := by
  by_cases hidden : (t.head.any fun x => bound.contains x) = true
  · cases found : resolveType names isLocal thrown t with
    | error message =>
        simp only [typeUnshadowed, found, hidden] at visible
        cases visible
    | ok test =>
        refine resolve_type_other found ?_
        rintro isInstanceOf type rfl
        simp only [typeUnshadowed, found, hidden, Bool.not_true, Bool.and_false] at visible
        cases visible
  · refine resolve_type_head fun x head => agree x ?_
    simpa [head] using hidden

theorem resolve_extractor_congr {name : String} {e : E} {ident : Bool} {args : Nat}
    (agree : ∀ x, x ∉ bound → isLocal' x = isLocal x)
    (visible : extractorUnshadowed X names isLocal bound name e ident args = true) :
    resolveExtractor names isLocal' name ident args =
      resolveExtractor names isLocal name ident args := by
  simp only [extractorUnshadowed, Bool.and_eq_true, Bool.not_eq_true'] at visible
  cases ident with
  | false =>
      unfold resolveExtractor
      simp only [Bool.false_and]
  | true =>
      have known : extractorName names name true ∉ bound := by simpa using visible.1
      unfold resolveExtractor
      simp only [agree _ known]

end Resolution

/-! ## Fragments that read one slot -/

section OneSlot

variable {bound vars : List String} {scopes scopes₁ scopes₂ : Scopes} {free n₁ n₂ slot : Nat}
  {a b : List Item} {f g : Env V → V → Eval V (Machine V W) (Bindings V)}

theorem fragment_nil {needed : Nat} {used : List Nat} :
    FragmentSound M bound scopes free scopes needed [] used fun _ _ => pure (some []) := by
  intro mod pc after vars live store w post env null l placed site visible read agrees follows
  exact follows live rfl (site_stays site) rfl

/-- What the environment of a fragment says about the locals. -/
theorem fragment_congr_locals {used : List Nat}
    {ref ref' : Env V → List V → Eval V (Machine V W) (Bindings V)}
    (fragment : FragmentSound M bound scopes free scopes₁ n₁ a used ref)
    (same : ∀ env values, (∀ x, x ∉ bound → (env x).isSome = isLocalIn scopes x) →
      ref env values = ref' env values) :
    FragmentSound M bound scopes free scopes₁ n₁ a used ref' := by
  intro mod pc after vars live store w post env null l placed site visible read agrees follows
  refine fragment mod pc after vars live store w post env placed site visible read agrees ?_
  rw [same env _ fun x absent => ?_]
  · exact follows
  · rw [← agrees x absent]
    simp [envOf, isLocalIn]

theorem fragment_then (declares : Declares vars scopes free scopes₁ n₁) (grows : n₁ ≤ n₂)
    (first : FragmentSound M bound scopes free scopes₁ n₁ a [slot] (single M f))
    (second : FragmentSound M (bound ++ vars) scopes₁ n₁ scopes₂ n₂ b [slot] (single M g)) :
    FragmentSound M bound scopes free scopes₂ n₂ (a ++ b) [slot]
      (single M fun env v => both (f env v) (g env v)) := by
  intro mod pc after frameVars live store w post env null l placed site visible read agrees follows
  refine fragment_both declares grows first second mod pc after frameVars live store w post env
    placed site visible (fun s member => read s ?_) agrees follows
  simpa using member

/-- A test in front of a fragment. -/
theorem fragment_guard {test : Env V → V → Eval V (Machine V W) Bool} (more : free ≤ n₁)
    (grows : n₁ ≤ n₂)
    (first : FragmentSound M bound scopes free scopes n₁ a [slot]
      (single M fun env v => guarded (test env v) (pure (some []))))
    (second : FragmentSound M bound scopes n₁ scopes₂ n₂ b [slot] (single M g)) :
    FragmentSound M bound scopes free scopes₂ n₂ (a ++ b) [slot]
      (single M fun env v => guarded (test env v) (g env v)) := by
  rw [← List.append_nil bound] at second
  refine single_congr (fragment_then (declares_none [] more) grows first second) fun env v => ?_
  exact both_guarded _ _

/-- Another fragment where the first one fails; neither declares anything. -/
theorem fragment_else (firstDeclares : Declares [] scopes free scopes₁ n₁)
    (secondDeclares : Declares [] scopes₁ n₁ scopes₂ n₂)
    (first : FragmentSound M bound scopes free scopes₁ n₁ a [slot] (single M f))
    (second : FragmentSound M bound scopes₁ n₁ scopes₂ n₂ b [slot] (single M g)) :
    FragmentSound M bound scopes free scopes₂ n₂
      (instrs (resolve a 1 ++ [Instr.jump b.length]) ++ b) [slot]
      (single M fun env v => do
        match ← f env v with
        | some bindings => pure (some bindings)
        | none => g env v) := by
  intro mod pc after frameVars live store w post env null l placed site visible read agrees follows
  rw [resolve_append, instrs, resolve_instrs] at placed
  obtain ⟨placedFirst, placedSecond⟩ := placed_append placed
  obtain ⟨placedFirst, placedJump⟩ := placed_append placedFirst
  obtain ⟨fetched, -⟩ := placed_cons placedJump
  rw [resolve_length] at fetched
  rw [List.length_append, resolve_length, List.length_singleton, ← Nat.add_assoc] at placedSecond
  have length : pc + (instrs (resolve a 1 ++ [Instr.jump b.length]) ++ b).length =
      pc + a.length + 1 + b.length := by
    simp [instrs]
    omega
  have sameScopes : ∀ live : List V, envOf M.platform.null scopes₁ live =
      envOf M.platform.null scopes live := fun live => by
    funext x
    simp only [envOf, firstDeclares.others x (List.not_mem_nil)]
  have sameScopes' : ∀ live : List V, envOf M.platform.null scopes₂ live =
      envOf M.platform.null scopes₁ live := fun live => by
    funext x
    simp only [envOf, secondDeclares.others x (List.not_mem_nil)]
  have read' := read slot List.mem_cons_self
  rw [single, length] at follows
  change ((f env (live.getD slot null) >>= _) (store, w)).Follows _ _ at follows
  rw [follows_bind] at follows
  refine first mod pc 1 frameVars live store w post env placedFirst
    (site_fewer site firstDeclares.grows secondDeclares.grows) visible read agrees ?_
  refine follows_within (Nat.le_refl _) (by omega) (Nat.le_refl _) (site_stays site) follows ?_
  intro result s held live₁ same stays
  cases result with
  | some bindings =>
      intro binds
      refine exec_jump fetched (held live₁ same stays ?_)
      rw [sameScopes', binds]
  | none =>
      have sameEnv : envOf M.platform.null scopes₁ live₁ = envOf M.platform.null scopes live := by
        rw [sameScopes, env_stays site visible stays]
      refine second mod (pc + a.length + 1) after frameVars live₁ s.1 s.2 post env placedSecond
        (site_later site firstDeclares.grows secondDeclares.grows stays)
        (visible_declared firstDeclares site.declared visible) ?_ ?_ ?_
      · intro x member
        obtain rfl := List.mem_singleton.mp member
        exact ⟨Nat.lt_of_lt_of_le read'.1 firstDeclares.grows, read'.2⟩
      · intro x absent
        rw [sameEnv]
        exact agrees x absent
      · have sameValue : live₁.getD slot null = live.getD slot null :=
          stays_slot site read'.1 read'.2 stays
        change ((g env (live₁.getD slot null)) (s.1, s.2)).Follows _ _
        rw [sameValue]
        refine follows_within (by omega) (Nat.le_refl _) firstDeclares.grows stays held ?_
        intro result s' goes live₂ same₂ stays₂
        have whole := goes live₂ (same₂.trans same) (stays_trans firstDeclares.grows stays stays₂)
        cases result with
        | none => exact whole
        | some bindings =>
            intro binds
            refine whole ?_
            rw [binds, sameEnv]

/-- A value of a slot kept in a new slot, and a fragment that matches it. -/
theorem fragment_kept {code : List Instr} {new : Nat}
    {ref : Env V → List V → Eval V (Machine V W) V} {value : Env V → V → Eval V (Machine V W) V}
    (more : free ≤ new) (grows : new + 1 ≤ n₂)
    (sound : ValueSound M bound scopes free new code [slot] ref)
    (same : ∀ env v, ref env [v] = value env v)
    (rest : FragmentSound M bound scopes (new + 1) scopes₂ n₂ b [new] (single M g)) :
    FragmentSound M bound scopes free scopes₂ n₂ (instrs (code ++ [Instr.storeLocal new]) ++ b)
      [slot]
      (single M fun env v => do
        let found ← value env v
        g env found) := by
  have fresh : ∀ slot ∈ [new], free ≤ slot ∧ slot < new + 1 := fun slot member => by
    obtain rfl := List.mem_singleton.mp member
    exact ⟨more, Nat.lt_succ_self _⟩
  refine single_congr (fragment_store (Nat.le_succ_of_le more) grows fresh (store_value more sound)
    rest) fun env v => ?_
  simp [single, same]

/-- The parts of the value of a slot, and a fragment that matches them. -/
theorem fragment_parts {code : List Instr} {count : Nat} {targets : List Nat}
    {parts : V → Eval V W (List V)} {ref : Env V → List V → Eval V (Machine V W) (Bindings V)}
    (grows : free + count ≤ n₂) (fresh : ∀ slot ∈ targets, free ≤ slot ∧ slot < free + count)
    (sound : StoreSound M bound scopes free (free + count) code [slot] targets fun _ values =>
      outside (parts (values.headD M.platform.null)))
    (rest : FragmentSound M bound scopes (free + count) scopes₂ n₂ b targets ref) :
    FragmentSound M bound scopes free scopes₂ n₂ (instrs code ++ b) [slot]
      (single M fun env v => do
        let found ← outside (parts v)
        ref env found) :=
  single_congr (fragment_store (Nat.le_add_right _ _) grows fresh sound rest) fun _ _ => rfl

theorem extract_fresh {count : Nat} :
    ∀ slot ∈ extractSlots count free, free ≤ slot ∧ slot < free + count := by
  intro slot member
  obtain ⟨k, inside, rfl⟩ := List.mem_map.mp member
  rw [List.mem_reverse, List.mem_range] at inside
  omega

end OneSlot

end ProtoScala.Compiler.PatternFragments
