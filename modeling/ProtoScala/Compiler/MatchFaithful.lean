import ProtoScala.Compiler.PatternFaithful

/-!
# The code of a match does what the match means

The cascade of `compileMatch` selects the case that the reference selects, runs its
body in the environment of its bindings and throws `MatchError` when no case is
left. Everything that the evaluation does on the way, down to the last test, is
done in the order of the reference.
-/

namespace ProtoScala.Compiler.MatchFaithful

open ProtoScala.Compiler.Bytecode
open ProtoScala.Compiler.Emission
open ProtoScala.Compiler.Patterns
open ProtoScala.Compiler.PatternFragments
open ProtoScala.Compiler.PatternFaithful
open ProtoScala.Runtime.ExecutionEngine
open ProtoScala.Runtime.FrameExecution

set_option autoImplicit false

variable {V W N E : Type} {M : Engine V W N} {X : ExprCompiler M E} {names : Names E}

theorem eval_cases_cons (env : Env V) (c : CaseDef E) (cases : List (CaseDef E)) (v : V) :
    evalCases X names env (c :: cases) v = (do
      match ← matchPattern X names false env c.pattern v with
      | none => evalCases X names env cases v
      | some bindings =>
          if ← evalGuard X (bindAll env bindings) c.guard then X.eval c.body (bindAll env bindings)
          else evalCases X names env cases v) := by
  simp only [evalCases, selectCase, bind_assoc]
  congr 1
  funext result
  cases result with
  | none => rfl
  | some bindings =>
      simp only [bind_assoc]
      congr 1
      funext selected
      cases selected <;> rfl

/-- What a case is compiled to. -/
structure CompiledCase (X : ExprCompiler M E) (names : Names E) (slot : Nat) (scopes : Scopes)
    (c : CaseDef E) (free : Nat) where
  items : List Item
  inner : Scopes
  n₁ : Nat
  pattern : compilePattern X names false c.pattern slot ([] :: scopes) free = .ok (items, inner, n₁)
  guard : List Item
  n₂ : Nat
  guardCompiled : (c.guard = none ∧ guard = [] ∧ n₂ = n₁) ∨
    ∃ e code, c.guard = some e ∧ X.compileExpr e inner n₁ = .ok (code, n₂) ∧
      guard = instrs code ++ [Item.fail false]
  body : List Instr
  n₃ : Nat
  bodyCompiled : X.compileExpr c.body inner n₂ = .ok (body, n₃)

theorem compile_cases_cons {slot free needed : Nat} {scopes : Scopes} {c : CaseDef E}
    {cases : List (CaseDef E)} {code : List Instr}
    (compiled : compileCases X names slot scopes (c :: cases) free = .ok (code, needed)) :
    ∃ (one : CompiledCase X names slot scopes c free) (rest : List Instr),
      compileCases X names slot scopes cases one.n₃ = .ok (rest, needed) ∧
      code = resolve (one.items ++ one.guard) (one.body.length + 1) ++ one.body ++
        [Instr.jump rest.length] ++ rest := by
  simp only [compileCases, bind_ok, pure_ok] at compiled
  obtain ⟨_, -, ⟨items, inner, n₁⟩, pattern, ⟨guard, n₂⟩, guarded, ⟨body, n₃⟩, bodyCompiled,
    ⟨rest, last⟩, restCompiled, same⟩ := compiled
  cases same
  have guardCompiled : (c.guard = none ∧ guard = [] ∧ n₂ = n₁) ∨
      ∃ e code, c.guard = some e ∧ X.compileExpr e inner n₁ = .ok (code, n₂) ∧
        guard = instrs code ++ [Item.fail false] := by
    cases written : c.guard with
    | none =>
        simp only [compileGuard, written, pure_ok] at guarded
        cases guarded
        exact .inl ⟨rfl, rfl, rfl⟩
    | some e =>
        simp only [compileGuard, written, bind_ok, pure_ok] at guarded
        obtain ⟨⟨code, n⟩, compiled, same⟩ := guarded
        cases same
        exact .inr ⟨e, code, rfl, compiled, rfl⟩
  exact ⟨⟨items, inner, n₁, pattern, guard, n₂, guardCompiled, body, n₃, bodyCompiled⟩, rest,
    restCompiled, rfl⟩

theorem case_grows {slot free : Nat} {scopes : Scopes} {c : CaseDef E}
    (one : CompiledCase X names slot scopes c free) :
    free ≤ one.n₁ ∧ one.n₁ ≤ one.n₂ ∧ one.n₂ ≤ one.n₃ := by
  refine ⟨(pattern_declares c.pattern one.pattern).grows, ?_, X.grows one.bodyCompiled⟩
  rcases one.guardCompiled with ⟨-, -, same⟩ | ⟨e, code, -, compiled, -⟩
  · exact Nat.le_of_eq same.symm
  · exact X.grows compiled

theorem cases_grow {slot : Nat} {scopes : Scopes} (cases : List (CaseDef E)) :
    ∀ {free needed : Nat} {code : List Instr},
    compileCases X names slot scopes cases free = .ok (code, needed) → free ≤ needed := by
  induction cases with
  | nil =>
      intro free needed code compiled
      simp only [compileCases, pure_ok, Prod.mk.injEq] at compiled
      exact Nat.le_of_eq compiled.2
  | cons c cases induction =>
      intro free needed code compiled
      obtain ⟨one, rest, compiledRest, -⟩ := compile_cases_cons compiled
      have later := induction compiledRest
      obtain ⟨first, second, third⟩ := case_grows one
      omega

/-- An expression on an empty operand stack. -/
theorem exec_alone {mod : BytecodeModule} {post : Post V W} {l : Layout} {needed lo hi : Nat}
    {live live' : List V} {store store' : Nat → V} {w : W} {e : E} {scopes : Scopes}
    {free needed' pc : Nat} {code : List Instr} {env : Env V} {k : V → Machine V W → Prop}
    (compiled : X.compileExpr e scopes free = .ok (code, needed'))
    (placed : Placed mod.code pc code) (site : Site M.platform.null l needed live store)
    (base : l.base = mod.stackBase) (more : l.free ≤ free) (less : needed' ≤ needed)
    (visible : Visible ⟨l.base, l.vars, free⟩ scopes) (low : lo ≤ pc)
    (high : pc + code.length ≤ hi) (stays : Stays M.platform.null l live store' live')
    (same : envOf M.platform.null scopes live' = env)
    (follows : (X.eval e env (store', w)).Follows (l.ends M.platform.null lo hi live post) k)
    (rest : ∀ v s live'', k v s → live''.length = live'.length →
      Stays M.platform.null l live s.1 live'' → envOf M.platform.null scopes live'' = env →
      Exec M mod post ⟨pc + code.length, live'' ++ [v], s.2⟩) :
    Exec M mod post ⟨pc, live', w⟩ := by
  have enough := X.grows compiled
  have here := site_later site more (Nat.le_trans enough less) stays
  have onNothing : Exec M mod post ⟨pc, live' ++ [], w⟩ := by
    refine exec_expr compiled placed site base more less visible low high stays
      (fun x _ => congrFun same x) follows ?_
    intro v s live'' held length after inner
    rw [List.append_nil]
    refine rest v s live'' held length after ?_
    rw [env_stays here visible inner, same]
  rwa [List.append_nil] at onNothing

/-- The run goes on at `stop` with the value on top. -/
def Finishes (M : Engine V W N) (mod : BytecodeModule) (post : Post V W) (l : Layout)
    (live : List V) (stop : Nat) (v : V) (s : Machine V W) : Prop :=
  ∀ live', live'.length = live.length → Stays M.platform.null l live s.1 live' →
    Exec M mod post ⟨stop, live' ++ [v], s.2⟩

section Case

variable {mod : BytecodeModule} {post : Post V W} {vars : Nat → Prop} {live live' : List V}
  {store : Nat → V} {s : Machine V W} {env : Env V} {scopes : Scopes} {free needed slot : Nat}
  {lo stop pc : Nat}

/-- The code behind a case, once the case is not selected. -/
theorem rest_follows {rest : List Instr} {other : Env V → V → Eval V (Machine V W) V} {n : Nat}
    (sound : ValueSound M [] scopes n needed rest [slot] fun env values =>
      other env (values.headD M.platform.null))
    (more : free ≤ n) (grows : n ≤ needed) (placed : Placed mod.code pc rest)
    (site : Site M.platform.null ⟨mod.stackBase, vars, free⟩ needed live store)
    (visible : Visible ⟨mod.stackBase, vars, free⟩ scopes) (used : slot < free ∧ ¬ vars slot)
    (sameEnv : envOf M.platform.null scopes live = env) (low : lo ≤ pc)
    (high : pc + rest.length = stop) (same : live'.length = live.length)
    (stays : Stays M.platform.null ⟨mod.stackBase, vars, free⟩ live s.1 live')
    (follows : (other env (live.getD slot M.platform.null) s).Follows
      (Layout.ends M.platform.null ⟨mod.stackBase, vars, free⟩ lo stop live post)
      (Finishes M mod post ⟨mod.stackBase, vars, free⟩ live stop)) :
    Exec M mod post ⟨pc, live', s.2⟩ := by
  subst high
  have more' : (⟨mod.stackBase, vars, free⟩ : Layout).free ≤ n := more
  refine sound mod pc vars live' s.1 s.2 post env placed (site_later site more' grows stays)
    (visible_later visible more') ?_ (fun x _ => ?_) ?_
  · intro other member
    obtain rfl := List.mem_singleton.mp member
    exact ⟨Nat.lt_of_lt_of_le used.1 more, used.2⟩
  · rw [env_stays site visible stays, sameEnv]
  · change (other env (live'.getD slot M.platform.null) s).Follows _ _
    rw [stays_slot site used.1 used.2 stays]
    refine follows_within low (Nat.le_refl _) more' stays follows ?_
    intro v s' goes live'' length after
    exact goes live'' (length.trans same) (stays_trans more' stays after)

/-- A case in front of other code, which runs when the case is not selected. -/
theorem case_sound {c : CaseDef E} (one : CompiledCase X names slot scopes c free)
    {rest : List Instr} {other : Env V → V → Eval V (Machine V W) V}
    (plain : unshadowed X names false (isLocalIn scopes) [] c.pattern = true) (grows : one.n₃ ≤ needed)
    (sound : ValueSound M [] scopes one.n₃ needed rest [slot] fun env values =>
      other env (values.headD M.platform.null)) :
    ValueSound M [] scopes free needed
      (resolve (one.items ++ one.guard) (one.body.length + 1) ++ one.body ++
        [Instr.jump rest.length] ++ rest) [slot]
      (fun env values => do
        match ← matchPattern X names false env c.pattern (values.headD M.platform.null) with
        | none => other env (values.headD M.platform.null)
        | some bindings =>
            if ← evalGuard X (bindAll env bindings) c.guard then
              X.eval c.body (bindAll env bindings)
            else other env (values.headD M.platform.null)) := by
  intro mod pc vars live store w post env null l placed site visible used agrees follows
  obtain ⟨grow₁, grow₂, grow₃⟩ := case_grows one
  have used' := used slot List.mem_cons_self
  have sameEnv : envOf null scopes live = env := funext fun x => agrees x List.not_mem_nil
  have visible₁ : Visible ⟨mod.stackBase, vars, one.n₁⟩ one.inner :=
    visible_declared (pattern_declares c.pattern one.pattern) site.declared (visible_push visible)
  have visible₂ : Visible ⟨mod.stackBase, vars, one.n₂⟩ one.inner :=
    visible_later visible₁ grow₂
  -- where the guard, the body and the code behind the case stand
  obtain ⟨placedCase, placedRest⟩ := placed_append placed
  obtain ⟨placedCase, placedJump⟩ := placed_append placedCase
  obtain ⟨placedTests, placedBody⟩ := placed_append placedCase
  rw [resolve_append] at placedTests
  obtain ⟨placedPattern, placedGuard⟩ := placed_append placedTests
  obtain ⟨fetchedJump, -⟩ := placed_cons placedJump
  simp only [List.length_append, resolve_length, List.length_singleton, ← Nat.add_assoc]
    at placedRest
  simp only [List.length_append, resolve_length, ← Nat.add_assoc] at fetchedJump placedBody
  rw [resolve_length] at placedGuard
  have length : pc + (resolve (one.items ++ one.guard) (one.body.length + 1) ++ one.body ++
      [Instr.jump rest.length] ++ rest).length =
      pc + one.items.length + one.guard.length + one.body.length + 1 + rest.length := by
    simp only [List.length_append, resolve_length, List.length_singleton]
    omega
  rw [length] at follows
  beta_reduce at follows
  rw [follows_bind] at follows
  have runsBody : ∀ (bindings : List (String × V)) (s : Machine V W) (live' : List V),
      live'.length = live.length → Stays null l live s.1 live' →
      envOf null one.inner live' = bindAll env bindings →
      (X.eval c.body (bindAll env bindings) s).Follows
        (l.ends null pc (pc + one.items.length + one.guard.length + one.body.length + 1 +
          rest.length) live post)
        (Finishes M mod post l live (pc + one.items.length + one.guard.length + one.body.length + 1 +
          rest.length)) →
      Exec M mod post ⟨pc + one.items.length + one.guard.length, live', s.2⟩ := by
    intro bindings s live' same stays binds held
    refine exec_alone one.bodyCompiled placedBody site rfl (Nat.le_trans grow₁ grow₂) grows visible₂
      (by omega) (by omega) stays binds held ?_
    intro v s' live'' goes length' after _
    exact exec_jump fetchedJump (goes live'' (length'.trans same) after)
  refine pattern_sound c.pattern one.pattern (fun _ _ => ?_) plain mod pc _ vars live store w post
    env placedPattern (site_fewer site grow₁ (by omega)) (visible_push visible) used
    (fun x _ => ?_) ?_
  · simp only [isLocalIn, find_push]
  · rw [env_push, sameEnv]
  refine follows_within (Nat.le_refl _) (by omega) (Nat.le_refl _) (site_stays site) follows ?_
  intro result s held live₁ same stays
  cases result with
  | none =>
      have position : pc + one.items.length + (one.guard.length + (one.body.length + 1)) =
          pc + one.items.length + one.guard.length + one.body.length + 1 := by omega
      dsimp only
      rw [position]
      exact rest_follows sound (by omega) grows placedRest site visible used' sameEnv (by omega) rfl
        same stays held
  | some bindings =>
      intro binds
      rw [env_push, sameEnv] at binds
      dsimp only at held
      rw [follows_bind] at held
      rcases one.guardCompiled with ⟨none, empty, -⟩ | ⟨e, code, written, compiled, resolved⟩
      · rw [none] at held
        have run := runsBody bindings s live₁ same stays binds held
        rw [empty, List.length_nil, Nat.add_zero] at run
        exact run
      · rw [written, evalGuard, follows_bind] at held
        have guardLength : one.guard.length = code.length + 1 := by simp [resolved, instrs]
        rw [resolved, resolve_append, instrs, resolve_instrs] at placedGuard
        obtain ⟨placedGuard, placedFail⟩ := placed_append placedGuard
        obtain ⟨fetchedFail, -⟩ := placed_cons placedFail
        refine exec_alone compiled placedGuard site rfl grow₁ (by omega) visible₁ (by omega)
          (by omega) stays binds held ?_
        intro b s' live₂ held' same' after binds'
        refine exec_jump_if_false fetchedFail (follow_outside (by omega) (by omega) after held' ?_)
        intro selected w' goes
        cases selected with
        | true =>
            have run := runsBody bindings (s'.1, w') live₂ (same'.trans same) after binds' goes
            rw [guardLength, ← Nat.add_assoc] at run
            exact run
        | false =>
            rw [guardLength] at placedRest goes
            simp only [Bool.false_eq_true, if_false] at goes
            have target : pc + one.items.length + code.length + 1 + (one.body.length + 1) =
                pc + one.items.length + (code.length + 1) + one.body.length + 1 := by omega
            simp only [Bool.false_eq_true, if_false, List.length_nil, Nat.zero_add]
            rw [target]
            exact rest_follows (s := (s'.1, w')) sound (by omega) grows placedRest site visible used'
              sameEnv (by omega) rfl (same'.trans same) after goes

end Case

theorem cases_sound {slot : Nat} {scopes : Scopes} (cases : List (CaseDef E)) :
    ∀ {free needed : Nat} {code : List Instr},
    compileCases X names slot scopes cases free = .ok (code, needed) →
    (∀ c ∈ cases, unshadowed X names false (isLocalIn scopes) [] c.pattern = true) →
    ValueSound M [] scopes free needed code [slot]
      (fun env values => evalCases X names env cases (values.headD M.platform.null)) := by
  induction cases with
  | nil =>
      intro free needed code compiled _
      simp only [compileCases, pure_ok] at compiled
      cases compiled
      intro mod pc vars live store w post env null l placed site visible used agrees follows
      obtain ⟨fetchedLoad, placed⟩ := placed_cons placed
      obtain ⟨fetchedThrow, -⟩ := placed_cons placed
      have stays := site_stays site
      refine exec_push_local fetchedLoad (exec_match_error fetchedThrow ?_)
      exact follow_outside (by omega) (by simp) stays follows fun v w' goes => goes live rfl stays
  | cons c cases induction =>
      intro free needed code compiled plain
      obtain ⟨one, rest, compiledRest, rfl⟩ := compile_cases_cons compiled
      have sound := case_sound one (plain c List.mem_cons_self) (cases_grow cases compiledRest)
        (induction compiledRest fun c member => plain c (List.mem_cons_of_mem _ member))
      simp only [eval_cases_cons]
      exact sound

theorem match_sound {m : Match E} {scopes : Scopes} {free needed : Nat} {code : List Instr}
    (compiled : compileMatch X names m scopes free = .ok (code, needed))
    (plain : ∀ c ∈ m.cases, unshadowed X names false (isLocalIn scopes) [] c.pattern = true) :
    Sound M scopes free needed code (evalMatch X names m) := by
  simp only [compileMatch, bind_ok, pure_ok] at compiled
  obtain ⟨⟨scrutinee, slot⟩, first, ⟨cases, n⟩, rest, same⟩ := compiled
  cases same
  intro mod pc vars live store w post null l placed site visible follows
  have grows := X.grows first
  have growsRest := cases_grow m.cases rest
  dsimp only at growsRest
  obtain ⟨placedFront, placedCases⟩ := placed_append placed
  obtain ⟨placedScrutinee, placedStore⟩ := placed_append placedFront
  obtain ⟨fetched, -⟩ := placed_cons placedStore
  have length : pc + (scrutinee ++ [Instr.storeLocal slot] ++ cases).length =
      pc + scrutinee.length + 1 + cases.length := by simp; omega
  have front : pc + (scrutinee ++ [Instr.storeLocal slot]).length = pc + scrutinee.length + 1 := by
    simp [Nat.add_assoc]
  have room : n ≤ mod.stackBase := site.room
  have based : mod.stackBase ≤ live.length := site.based
  rw [front] at placedCases
  rw [length] at follows
  rw [evalMatch, follows_bind] at follows
  refine exec_alone first placedScrutinee site rfl (Nat.le_refl _) (by omega) visible (Nat.le_refl _)
    (by omega) (site_stays site) rfl follows ?_
  intro v s live' held same stays sameEnv
  have more : l.free ≤ slot + 1 := Nat.le_succ_of_le grows
  have below : slot < l.base := Nat.lt_of_lt_of_le (Nat.lt_of_succ_le growsRest) room
  have kept := stays_set site v grows below stays
  refine exec_store_local fetched ?_
  refine cases_sound m.cases rest plain mod _ vars (live'.set slot v) s.1 s.2 post _ placedCases
    (site_later site more growsRest kept) (visible_later visible more) ?_
    (fun x _ => congrFun (env_stays site visible kept) x) ?_
  · intro other member
    obtain rfl := List.mem_singleton.mp member
    exact ⟨Nat.lt_succ_self _, fun var => Nat.not_lt_of_le grows (site.declared _ var)⟩
  · have value : (live'.set slot v).getD slot null = v := by
      rw [List.getD_eq_getElem?_getD, List.getElem?_set_self (by omega)]
      rfl
    change (evalCases X names _ m.cases ((live'.set slot v).getD slot null) s).Follows _ _
    rw [value]
    refine follows_within (by omega) (Nat.le_refl _) more kept held ?_
    intro result s' goes live'' length'' after
    refine goes live'' ?_ (stays_trans more kept after)
    rw [length'', List.length_set, same]

/-! ## What the reference says -/

theorem bind_done {V S α β : Type} {x : Eval V S α} {f : α → Eval V S β} {s s' : S} {b : β} :
    (x >>= f) s = .done b s' ↔ ∃ a t, x s = .done a t ∧ f a t = .done b s' := by
  change Eval.bind x f s = _ ↔ _
  unfold Eval.bind
  cases x s <;> simp

/-- A match that has a value has selected a case. -/
theorem match_value_selected {m : Match E} {env : Env V} {s s' : Machine V W} {result : V}
    (valued : evalMatch X names m env s = .done result s') :
    ∃ v s₁ c bindings s₂, X.eval m.scrutinee env s = .done v s₁ ∧
      selectCase X names env m.cases v s₁ = .done (some (c, bindings)) s₂ ∧
      X.eval c.body (bindAll env bindings) s₂ = .done result s' := by
  obtain ⟨v, s₁, scrutinee, valued⟩ := bind_done.mp valued
  obtain ⟨selected, s₂, selects, valued⟩ := bind_done.mp valued
  cases selected with
  | some chosen => exact ⟨v, s₁, chosen.1, chosen.2, s₂, scrutinee, selects, valued⟩
  | none =>
      have throws := M.match_error_throws v s₂.2
      dsimp only at valued
      unfold outside at valued
      cases thrown : M.operate .matchError [v] s₂.2 with
      | done r w => exact absurd thrown (throws r w)
      | _ => simp [thrown] at valued

/-- A match that selects no case ends as `MATCH_ERROR` does. -/
theorem match_error_unselected {m : Match E} {env : Env V} {s s₁ s₂ : Machine V W} {v : V}
    (scrutinee : X.eval m.scrutinee env s = .done v s₁)
    (selects : selectCase X names env m.cases v s₁ = .done none s₂) :
    evalMatch X names m env s = outside (M.operate .matchError [v]) s₂ := by
  change Eval.bind (X.eval m.scrutinee env) _ s = _
  unfold Eval.bind
  rw [scrutinee]
  change Eval.bind (selectCase X names env m.cases v) _ s₁ = _
  unfold Eval.bind
  rw [selects]

/-! ## Matches are compiled faithfully -/

/-- In a match none of whose patterns mentions a name that it binds further to the
left, the code does what the match means and ends in the same way: with the value
of the body of the selected case, in `MATCH_ERROR` when none is selected, or where
an operation raises, returns or never ends. -/
theorem compile_match_faithful (m : Match E) {scopes : Scopes} {free needed : Nat}
    {code : List Instr} (compiled : compileMatch X names m scopes free = .ok (code, needed))
    (plain : ∀ c ∈ m.cases, unshadowed X names false (isLocalIn scopes) [] c.pattern = true)
    {mod : BytecodeModule} {pc : Nat} {vars : Nat → Prop} {live : List V} {store : Nat → V} {w : W}
    (placed : Placed mod.code pc code)
    (site : Site M.platform.null ⟨mod.stackBase, vars, free⟩ needed live store)
    (visible : Visible ⟨mod.stackBase, vars, free⟩ scopes) :
    let env := envOf M.platform.null scopes live
    Exec M mod
        (Layout.outcome M.platform.null ⟨mod.stackBase, vars, free⟩ pc (pc + code.length) live
          (evalMatch X names m env (store, w))) ⟨pc, live, w⟩ ∧
      (∀ result s', evalMatch X names m env (store, w) = .done result s' →
        ∃ v s₁ c bindings s₂, X.eval m.scrutinee env (store, w) = .done v s₁ ∧
          selectCase X names env m.cases v s₁ = .done (some (c, bindings)) s₂ ∧
          X.eval c.body (bindAll env bindings) s₂ = .done result s') ∧
      ∀ v s₁ s₂, X.eval m.scrutinee env (store, w) = .done v s₁ →
        selectCase X names env m.cases v s₁ = .done none s₂ →
        evalMatch X names m env (store, w) = outside (M.operate .matchError [v]) s₂ := by
  intro env
  refine ⟨?_, fun result s' => match_value_selected, fun v s₁ s₂ => match_error_unselected⟩
  exact match_sound compiled plain mod pc vars live store w _ placed site visible
    (follows_outcome _)

/-! ## Literals and names as expressions -/

/-- The integers and the names among the expressions. -/
inductive Simple where
  | int (n : Nat)
  | ident (name : String)

namespace Simple

def compileExpr : Simple → Scopes → Nat → Except String (List Instr × Nat)
  | .int n, _, free => pure ([.pushConst (intConst n)], free)
  | .ident name, scopes, free =>
      match findInFunction scopes name with
      | some info => pure ([if info.boxed then .pushCell info.slot else .pushLocal info.slot], free)
      | none => pure ([.pushGlobal (symbolConst name)], free)

def eval (M : Engine V W N) : Simple → Env V → Eval V (Machine V W) V
  | .int n, _ => outside (number M n)
  | .ident name, env =>
      match env name with
      | some (.value false v) => pure v
      | some (.value true cell) => outside (M.primitive .cellGet [cell])
      | some (.variable slot) => fun s => .done (s.1 slot) s
      | none => outside (M.primitive (.pushGlobal (symbolConst name)) [])

def reads : Simple → String → Bool
  | .int _, _ => false
  | .ident name, x => name = x

theorem simple_grows {e : Simple} {scopes : Scopes} {free needed : Nat} {code : List Instr}
    (compiled : e.compileExpr scopes free = .ok (code, needed)) : free ≤ needed := by
  cases e with
  | int n =>
      simp only [compileExpr, pure_ok] at compiled
      cases compiled
      exact Nat.le_refl _
  | ident name =>
      simp only [compileExpr] at compiled
      split at compiled <;>
        (simp only [pure_ok] at compiled
         cases compiled
         exact Nat.le_refl _)

theorem simple_eval_congr {e : Simple} {env env' : Env V}
    (same : ∀ name, e.reads name = true → env name = env' name) : e.eval M env = e.eval M env' := by
  cases e with
  | int n => rfl
  | ident name => simp only [eval, same name (by simp [reads])]

theorem simple_sound {e : Simple} {scopes : Scopes} {free needed : Nat} {code : List Instr}
    (compiled : e.compileExpr scopes free = .ok (code, needed)) :
    Sound M scopes free needed code (e.eval M) := by
  intro mod pc vars live store w post null l placed site visible follows
  have stays := site_stays site
  cases e with
  | int n =>
      simp only [compileExpr, pure_ok] at compiled
      cases compiled
      obtain ⟨fetched, -⟩ := placed_cons placed
      refine exec_push_const fetched (follow_outside (Nat.le_refl _) (by simp) stays follows ?_)
      exact fun v w' goes => goes live rfl stays
  | ident name =>
      cases found : findInFunction scopes name with
      | none =>
          simp only [compileExpr, found, pure_ok] at compiled
          cases compiled
          obtain ⟨fetched, -⟩ := placed_cons placed
          simp only [eval, envOf, found, Option.map_none] at follows
          refine exec_push_global fetched (follow_outside (Nat.le_refl _) (by simp) stays follows ?_)
          exact fun v w' goes => goes live rfl stays
      | some info =>
          obtain ⟨below, kind⟩ := visible name info found
          simp only [compileExpr, found, pure_ok] at compiled
          cases compiled
          obtain ⟨fetched, -⟩ := placed_cons placed
          simp only [eval, envOf, found, Option.map_some, LocalInfo.binding] at follows
          cases boxed : info.boxed with
          | true =>
              have constant : info.variable = false := by simp [LocalInfo.variable, boxed]
              rw [boxed, if_pos rfl] at fetched
              simp only [constant, boxed, Bool.false_eq_true, if_false] at follows
              refine exec_push_cell fetched
                (follow_outside (Nat.le_refl _) (by simp) stays follows ?_)
              exact fun v w' goes => goes live rfl stays
          | false =>
              rw [boxed, if_neg Bool.false_ne_true] at fetched
              refine exec_push_local fetched ?_
              by_cases var : info.variable = true
              · simp only [var, if_true] at follows
                have holds := site.holds _ (kind.mp var)
                rw [holds]
                exact follows live rfl stays
              · simp only [var, boxed] at follows
                exact follows live rfl stays

def compiler (M : Engine V W N) : ExprCompiler M Simple where
  compileExpr := compileExpr
  eval := eval M
  reads := reads
  grows := simple_grows
  eval_congr := simple_eval_congr
  sound := simple_sound

end Simple

/-! ## Pairs of integers -/

inductive Datum where
  | null
  | int (n : Int)
  | bool (b : Bool)
  | pair (first second : Datum)
  | error (name : String)
  deriving DecidableEq

/-- A platform with integers, pairs and their comparison; nothing is global. -/
def pairs : Platform Datum Unit Empty where
  unit := .null
  null := .null
  trueValue := .bool true
  falseValue := .bool false
  truthy v _ := match v with
    | .bool b => .ok b
    | _ => .error (.error "ClassCastException")
  primitive p operands w := match p, operands with
    | .constantOf c, _ => (.ok (.int c.ival.toInt), w)
    | .testProto key, [.pair _ _] => (.ok (.bool (key.sval = tupleTypeKey 2)), w)
    | .testProto _, _ => (.ok (.bool false), w)
    | _, _ => (.error (.error "UnsupportedOperationException"), w)
  ownAttribute v key _ := match v with
    | .pair first second => if key = "_1" then first else if key = "_2" then second else .null
    | _ => .null
  uncons _ _ := (.null, .null)
  failure _ v w := (v, w)
  scalaError name _ := .error name
  isZeroArgThunk _ _ := false
  operate operator operands w := match operator, operands with
    | .eq, [a, b] => .answer (.ok (.bool (a = b))) w
    | .matchError, _ => .answer (.error (.error "MatchError")) w
    | _, _ => .answer (.error (.error "UnsupportedOperationException")) w
  perform _ _ w := .answer (.error (.error "UnsupportedOperationException")) w
  proceed n := nomatch n
  native n := nomatch n
  futureResult _ _ := none

def pairEngine : Engine Datum Unit Empty where
  platform := pairs
  finish reply := match reply with
    | .answer (.ok v) w => .done v w
    | .answer (.error e) w => .raised e w
    | _ => .diverged
  match_error_throws _ _ _ _ := nofun

/-- A script without templates, globals and types. -/
def script : Names Simple where
  template := none
  binding _ := none
  findType _ := none
  memberOf _ := false
  followTypeAlias name := name
  ident := .ident
  select e _ := e

/-- A function with the locals `x`, which is one, and `s`, a pair of twos. -/
def function (code : List Instr) (needed : Nat) : BytecodeModule :=
  { name := "f", arity := 0, localCount := needed, code := code }

def locals : Scopes := [[("x", { slot := 0 }), ("s", { slot := 1 })]]

def slots (needed : Nat) : List Datum :=
  [Datum.int 1, .pair (.int 2) (.int 2)] ++ List.replicate (needed - 2) Datum.null

/-- `s match { case p => 7; case _ => 8 }`. -/
def matching (p : Pattern Simple) : Match Simple :=
  { scrutinee := .ident "s", cases := [⟨p, none, .int 7⟩, ⟨.wildcard, none, .int 8⟩] }

def compiledCode (p : Pattern Simple) : List Instr × Nat :=
  (compileMatch (Simple.compiler pairEngine) script (matching p) locals 2).toOption.getD ([], 0)

theorem locals_visible (needed : Nat) : Visible ⟨needed, fun _ => False, 2⟩ locals := by
  intro name info found
  simp only [locals, findInFunction, List.findSome?_cons, List.lookup_cons] at found
  split at found
  · rename_i local₁ looked
    obtain rfl := Option.some.inj found
    split at looked
    · obtain rfl := Option.some.inj looked
      simp [LocalInfo.variable]
    · split at looked
      · obtain rfl := Option.some.inj looked
        simp [LocalInfo.variable]
      · cases looked
  · cases found

theorem slots_site (needed : Nat) (enough : 2 ≤ needed) :
    Site Datum.null ⟨needed, fun _ => False, 2⟩ needed (slots needed) (fun _ => .null) where
  enough := enough
  room := Nat.le_refl _
  based := by
    simp [slots]
    omega
  declared _ var := var.elim
  holds _ var := var.elim

theorem placed_whole (code : List Instr) : Placed code 0 code := by
  intro i _
  rw [Nat.zero_add]

/-- `case (y, \`x\`)` compares the second part with the local. -/
def comparing : Pattern Simple := .tuple [.var "y", .stable (.ident "x")]

/-- `case (x, \`x\`)` compares it with the first part instead. -/
def shadowing : Pattern Simple := .tuple [.var "x", .stable (.ident "x")]

/-- How a match on `s` is meant to end. -/
def meant (p : Pattern Simple) (needed : Nat) : Outcome Datum (Machine Datum Unit) Datum :=
  evalMatch (Simple.compiler pairEngine) script (matching p) (envOf .null locals (slots needed))
    (fun _ => .null, ())

theorem compile_match_faithful_pair :
    Exec pairEngine (function (compiledCode comparing).1 6)
        (Layout.outcome .null ⟨6, fun _ => False, 2⟩ 0 (0 + (compiledCode comparing).1.length)
          (slots 6) (meant comparing 6)) ⟨0, slots 6, ()⟩ ∧
      (meant comparing 6).value = some (.int 8) := by
  have compiled : compileMatch (Simple.compiler pairEngine) script (matching comparing) locals 2 =
      .ok ((compiledCode comparing).1, 6) := by decide
  have plain : ∀ c ∈ (matching comparing).cases,
      unshadowed (Simple.compiler pairEngine) script false (isLocalIn locals) [] c.pattern = true := by
    decide
  have placed : Placed (function (compiledCode comparing).1 6).code 0 (compiledCode comparing).1 :=
    placed_whole _
  have faithful := compile_match_faithful (w := ()) (matching comparing) compiled plain placed
    (slots_site 6 (by decide)) (locals_visible 6)
  exact ⟨faithful.1, by decide⟩

/-- With the hidden name the code selects a case that does not match. -/
theorem shadowing_match_not_faithful :
    compileMatch (Simple.compiler pairEngine) script (matching shadowing) locals 2 =
        .ok ((compiledCode shadowing).1, 6) ∧
      Site Datum.null ⟨6, fun _ => False, 2⟩ 6 (slots 6) (fun _ => .null) ∧
      Visible ⟨6, fun _ => False, 2⟩ locals ∧
      (meant shadowing 6).value = some (.int 8) ∧
      ¬ Exec pairEngine (function (compiledCode shadowing).1 6)
        (Layout.outcome .null ⟨6, fun _ => False, 2⟩ 0 (compiledCode shadowing).1.length (slots 6)
          (meant shadowing 6)) ⟨0, slots 6, ()⟩ := by
  have eight : (meant shadowing 6).value = some (.int 8) := by decide
  have reached : pairEngine.forward (function (compiledCode shadowing).1 6)
      (compiledCode shadowing).1.length 17 ⟨0, slots 6, ()⟩ = some
        ⟨21, [Datum.int 1, .pair (.int 2) (.int 2), .pair (.int 2) (.int 2), .int 2, .int 2,
            .int 2] ++ [Datum.int 7], ()⟩ := by decide
  have beyond : (function (compiledCode shadowing).1 6).code[21]? = none := by decide
  refine ⟨by decide, slots_site 6 (by decide), locals_visible 6, eight, fun exec => ?_⟩
  obtain ⟨s, result⟩ := outcome_value eight
  rw [result] at exec
  have only : ∀ point, (Layout.outcome Datum.null ⟨6, fun _ => False, 2⟩ 0
      (compiledCode shadowing).1.length (slots 6) (.done (.int 8) s)).stops point →
      point.pc = (compiledCode shadowing).1.length := by
    rintro point ⟨live', -, -, rfl⟩
    rfl
  obtain ⟨live', -, -, same⟩ := exec_end beyond (exec_forward only 17 exec reached)
  have tops := congrArg (fun point => point.live.getLast?) same
  simp at tops

end ProtoScala.Compiler.MatchFaithful
