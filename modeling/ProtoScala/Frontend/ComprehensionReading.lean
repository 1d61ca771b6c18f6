import ProtoScala.Frontend.Comprehensions

/-!
# Reading a for-comprehension

A generator stands for the bindings it gives one after the other (`Gives`). Opening one, a
guard and a value definition each say what they do to these bindings, and the induction on
the enumerators in `fold_reads` carries them through the nesting: the tree that `forExpr`
builds gives the list of the values that the reading gives.
-/

namespace ProtoScala.Frontend.Comprehensions

open ProtoScala.Library.Gathering

set_option autoImplicit false

section Matches

variable {T E V : Type} (L : Language E T V)

mutual

theorem rename_id {N : Type} (p : Pattern N T) : p.rename id = p := by
  cases p with
  | wildcard => rfl
  | var name => rfl
  | bind name arg => rw [Pattern.rename, rename_id arg]; rfl
  | tuple args => rw [Pattern.rename, rename_all_id args]
  | test t args => rw [Pattern.rename, rename_all_id args]

theorem rename_all_id {N : Type} (ps : Patterns N T) : ps.rename id = ps := by
  cases ps with
  | nil => rfl
  | cons first rest => rw [Patterns.rename, rename_id first, rename_all_id rest]

end

mutual

theorem rename_names {N M : Type} (f : N → M) (p : Pattern N T) :
    (p.rename f).names = p.names.map f := by
  cases p with
  | wildcard => rfl
  | var name => rfl
  | bind name arg => rw [Pattern.rename, Pattern.names, rename_names f arg]; rfl
  | tuple args => rw [Pattern.rename, Pattern.names, rename_all_names f args]; rfl
  | test t args => rw [Pattern.rename, Pattern.names, rename_all_names f args]; rfl

theorem rename_all_names {N M : Type} (f : N → M) (ps : Patterns N T) :
    (ps.rename f).names = ps.names.map f := by
  cases ps with
  | nil => rfl
  | cons first rest =>
      rw [Patterns.rename, Patterns.names, rename_names f first, rename_all_names f rest,
        Patterns.names, List.map_append]

end

theorem rename_length {N M : Type} (f : N → M) (ps : Patterns N T) :
    (ps.rename f).length = ps.length :=
  match ps with
  | .nil => rfl
  | .cons _ rest => congrArg (· + 1) (rename_length f rest)

section Simulation

variable {N M S S' : Type} (set : S → N → V → S) (see : S → String → V)
  (set' : S' → M → V → S') (see' : S' → String → V) (f : N → M) (R : S → S' → Prop)

mutual

/-- Matching in two stores that a relation ties together: it has to survive a binding of
the pattern, and the tests of the pattern must not tell the stores apart. -/
theorem match_simulates (p : Pattern N T)
    (hset : ∀ s s' n v, n ∈ p.names → R s s' → R (set s n v) (set' s' (f n) v))
    (htest : ∀ s s' t v, t ∈ p.tests → R s s' →
      L.extract t (see s) v = L.extract t (see' s') v) (v : V) (s : S) (s' : S') (hR : R s s') :
    Option.Rel (Option.Rel R) (matchPattern L set see p v s)
      (matchPattern L set' see' (p.rename f) v s') := by
  cases p with
  | wildcard => exact .some (.some hR)
  | var name => exact .some (.some (hset s s' name v (by simp [Pattern.names]) hR))
  | bind name arg =>
      have harg := match_simulates arg
        (fun s s' n v hn => hset s s' n v (by simp [Pattern.names, hn]))
        (fun s s' t v ht => htest s s' t v (by simpa [Pattern.tests] using ht)) v s s' hR
      simp only [Pattern.rename, matchPattern]
      generalize matchPattern L set see arg v s = o at harg
      generalize matchPattern L set' see' (arg.rename f) v s' = o' at harg
      cases harg with
      | none => exact .none
      | some h =>
          cases h with
          | none => exact .some .none
          | some h => exact .some (.some (hset _ _ name v (by simp [Pattern.names]) h))
  | tuple args =>
      simp only [Pattern.rename, matchPattern]
      cases L.untuple v with
      | none => exact .some .none
      | some vs =>
          simp only [rename_length]
          by_cases size : vs.length = args.length
          · rw [if_pos size, if_pos size]
            exact match_all_simulate args
              (fun s s' n v hn => hset s s' n v (by simpa [Pattern.names] using hn))
              (fun s s' t v ht => htest s s' t v (by simpa [Pattern.tests] using ht)) vs s s' hR
          · rw [if_neg size, if_neg size]
            exact .some .none
  | test t args =>
      simp only [Pattern.rename, matchPattern]
      rw [htest s s' t v (by simp [Pattern.tests]) hR]
      cases L.extract t (see' s') v with
      | none => exact .none
      | some found =>
          cases found with
          | none => exact .some .none
          | some vs =>
              exact match_all_simulate args
                (fun s s' n v hn => hset s s' n v (by simpa [Pattern.names] using hn))
                (fun s s' t v ht => htest s s' t v (by simp [Pattern.tests, ht])) vs s s' hR

theorem match_all_simulate (ps : Patterns N T)
    (hset : ∀ s s' n v, n ∈ ps.names → R s s' → R (set s n v) (set' s' (f n) v))
    (htest : ∀ s s' t v, t ∈ ps.tests → R s s' →
      L.extract t (see s) v = L.extract t (see' s') v) (vs : List V) (s : S) (s' : S')
    (hR : R s s') :
    Option.Rel (Option.Rel R) (matchPatterns L set see ps vs s)
      (matchPatterns L set' see' (ps.rename f) vs s') := by
  cases ps with
  | nil =>
      cases vs with
      | nil => exact .some (.some hR)
      | cons v vs => exact .some .none
  | cons first rest =>
      cases vs with
      | nil => exact .some .none
      | cons v vs =>
          have hfirst := match_simulates first
            (fun s s' n v hn => hset s s' n v (by simp [Patterns.names, hn]))
            (fun s s' t v ht => htest s s' t v (by simp [Patterns.tests, ht])) v s s' hR
          simp only [Patterns.rename, matchPatterns]
          generalize matchPattern L set see first v s = o at hfirst
          generalize matchPattern L set' see' (first.rename f) v s' = o' at hfirst
          cases hfirst with
          | none => exact .none
          | some h =>
              cases h with
              | none => exact .some .none
              | some h =>
                  exact match_all_simulate rest
                    (fun s s' n v hn => hset s s' n v (by simp [Patterns.names, hn]))
                    (fun s s' t v ht => htest s s' t v (by simp [Patterns.tests, ht])) vs _ _ h

end

end Simulation

@[simp] theorem get_set_same (env : Env V) (name : Name) (v : V) :
    (env.set name v).get name = v := by
  cases name <;> simp [Env.set, Env.get]

theorem get_set_ne (env : Env V) {name other : Name} (hne : other ≠ name) (v : V) :
    (env.set name v).get other = env.get other := by
  cases name <;> cases other <;> simp_all [Env.set, Env.get, Function.update]

theorem user_set (env env' : Env V) (name : Name) (v : V) (huser : env.user = env'.user) :
    (env.set name v).user = (env'.set name v).user := by
  cases name <;> simp [Env.set, huser]

/-- Compiled code sees the names of the source alone. -/
theorem match_user (p : Pattern Name T) (v : V) (env env' : Env V) (huser : env.user = env'.user) :
    Option.Rel (Option.Rel fun a b : Env V => a.user = b.user)
      (matchPattern L Env.set Env.user p v env) (matchPattern L Env.set Env.user p v env') := by
  have hsim := match_simulates L Env.set Env.user Env.set Env.user id
    (fun a b : Env V => a.user = b.user) p
    (fun s s' n v _ h => user_set s s' n v h) (fun s s' t v _ h => by rw [h]) v env env' huser
  rwa [rename_id] at hsim

/-- A pattern of the source binds in compiled code what it binds as it is read. -/
theorem match_read (p : Pattern String T) (v : V) (env : Env V) :
    Option.Rel (Option.Rel fun (u : String → V) (a : Env V) => a.user = u)
      (matchRead L p v env.user) (matchPattern L Env.set Env.user (p.rename .user) v env) :=
  match_simulates L (fun u x v => Function.update u x v) (fun u => u) Env.set Env.user
    Name.user (fun u (a : Env V) => a.user = u) p
    (fun u a x v _ h => by simp [Env.set, h]) (fun u a t v _ h => by rw [h]) v env.user env rfl

end Matches

section Groups

variable {T E V : Type} (L : Language E T V)

theorem match_only_join (p : Pattern Name T) (v : V) (env : Env V) :
    matchOnly L p v env = (matchCode L p v env).join := by
  unfold matchOnly
  rcases matchCode L p v env with _ | _ | env' <;> rfl

/-- What a pattern of compiled code binds for the source. -/
def matched (p : Pattern Name T) (v : V) (u : String → V) : Option (String → V) :=
  (matchOnly L p v ⟨u, fun _ => L.null⟩).map Env.user

theorem match_only_user (p : Pattern Name T) (v : V) (env : Env V) :
    (matchOnly L p v env).map Env.user = matched L p v env.user := by
  have hrel := match_user L p v env ⟨env.user, fun _ => L.null⟩ rfl
  unfold matched
  rw [match_only_join, match_only_join]
  unfold matchCode
  by_cases nodup : p.names.Nodup
  · rw [if_pos nodup, if_pos nodup]
    generalize matchPattern L Env.set Env.user p v env = o at hrel
    generalize matchPattern L Env.set Env.user p v ⟨env.user, fun _ => L.null⟩ = o' at hrel
    cases hrel with
    | none => rfl
    | some h =>
        cases h with
        | none => rfl
        | some h => exact congrArg some h
  · rw [if_neg nodup, if_neg nodup]

theorem user_injective : Function.Injective Name.user := fun _ _ same => Name.user.inj same

theorem renamed_nodup {p : Pattern String T} (nodup : p.names.Nodup) :
    (p.rename Name.user).names.Nodup := by
  rw [rename_names]
  exact nodup.map user_injective

theorem match_code_read {p : Pattern String T} (nodup : p.names.Nodup) (v : V) (env : Env V) :
    Option.Rel (Option.Rel fun (u : String → V) (a : Env V) => a.user = u)
      (matchRead L p v env.user) (matchCode L (p.rename .user) v env) := by
  unfold matchCode
  rw [if_pos (renamed_nodup nodup)]
  exact match_read L p v env

theorem matched_read {p : Pattern String T} (nodup : p.names.Nodup) (v : V) (u : String → V) :
    matched L (p.rename .user) v u = (matchRead L p v u).join := by
  have hrel := match_code_read L nodup v ⟨u, fun _ => L.null⟩
  unfold matched
  rw [match_only_join]
  dsimp only at hrel
  generalize matchRead L p v u = o at hrel ⊢
  generalize matchCode L (p.rename .user) v ⟨u, fun _ => L.null⟩ = o' at hrel ⊢
  cases hrel with
  | none => rfl
  | some h =>
      cases h with
      | none => rfl
      | some h => exact congrArg some h

theorem bound_names (n : Nat) (p : Pattern Name T) :
    ((boundName n p).2.1 = p ∧ (boundName n p).2.2 = n ∧ (boundName n p).1 ∈ p.names) ∨
      ((boundName n p).2.1 = .bind (.bound n) p ∧ (boundName n p).2.2 = n + 1 ∧
        (boundName n p).1 = .bound n) := by
  cases p with
  | wildcard => exact Or.inr ⟨rfl, rfl, rfl⟩
  | var name => exact Or.inl ⟨rfl, rfl, List.mem_singleton_self name⟩
  | bind name arg => exact Or.inl ⟨rfl, rfl, List.mem_cons_self⟩
  | tuple args => exact Or.inr ⟨rfl, rfl, rfl⟩
  | test t args => exact Or.inr ⟨rfl, rfl, rfl⟩

theorem bound_member (n : Nat) (p : Pattern Name T) :
    (boundName n p).1 ∈ (boundName n p).2.1.names := by
  rcases bound_names n p with ⟨same, -, member⟩ | ⟨wrapped, -, named⟩
  · rwa [same]
  · rw [wrapped, named]
    exact List.mem_cons_self

theorem match_only_bind (name : Name) (arg : Pattern Name T) (v : V) (env : Env V)
    (nodup : (name :: arg.names).Nodup) :
    matchOnly L (.bind name arg) v env = (matchOnly L arg v env).map (·.set name v) := by
  rw [match_only_join, match_only_join]
  unfold matchCode
  rw [Pattern.names, if_pos nodup, if_pos nodup.of_cons, matchPattern]
  rcases matchPattern L Env.set Env.user arg v env with _ | _ | env' <;> rfl

/-- The pattern with a name for the whole value binds the same names of the source. -/
theorem matched_bound (n : Nat) {p : Pattern Name T} (nodup : (boundName n p).2.1.names.Nodup)
    (v : V) (u : String → V) : matched L (boundName n p).2.1 v u = matched L p v u := by
  rcases bound_names n p with ⟨same, -, -⟩ | ⟨wrapped, -, -⟩
  · rw [same]
  · rw [wrapped] at nodup ⊢
    unfold matched
    rw [match_only_bind L (.bound n) p v _ nodup, Option.map_map]
    rfl

theorem match_only_var (name : Name) (v : V) (env : Env V) :
    matchOnly L (.var name : Pattern Name T) v env = some (env.set name v) := by
  rw [match_only_join]
  unfold matchCode
  rw [Pattern.names, if_pos (List.nodup_singleton name)]
  rfl

/-- The name of the whole value holds it. -/
theorem bound_value (n : Nat) {p : Pattern Name T} {v : V} {env env' : Env V}
    (nodup : (boundName n p).2.1.names.Nodup)
    (given : matchOnly L (boundName n p).2.1 v env = some env') :
    env'.get (boundName n p).1 = v := by
  have named : ∀ name arg, (boundName n p).2.1 = .bind name arg → (boundName n p).1 = name →
      env'.get (boundName n p).1 = v := by
    intro name arg same whole
    rw [same] at given nodup
    rw [match_only_bind L name arg v env nodup] at given
    obtain ⟨before, -, rfl⟩ := Option.map_eq_some_iff.mp given
    rw [whole, get_set_same]
  cases p with
  | wildcard => exact named _ _ rfl rfl
  | var name =>
      have set := (match_only_var L name v env).symm.trans given
      rw [← Option.some.inj set]
      exact get_set_same env name v
  | bind name arg => exact named _ _ rfl rfl
  | tuple args => exact named _ _ rfl rfl
  | test t args => exact named _ _ rfl rfl

theorem match_frame {p : Pattern Name T} {v : V} {env env' : Env V} {name : Name}
    (outside : name ∉ p.names) (given : matchOnly L p v env = some env') :
    env'.get name = env.get name := by
  have hsim := match_simulates L Env.set Env.user Env.set Env.user id
    (fun a b : Env V => a = b ∧ a.get name = env.get name) p
    (fun a b n w member h => by
      have apart : name ≠ n := fun same => outside (same ▸ member)
      exact ⟨by rw [h.1]; rfl, by rw [get_set_ne a apart, h.2]⟩)
    (fun a b t w _ h => by rw [h.1]) v env env ⟨rfl, rfl⟩
  rw [rename_id] at hsim
  rw [match_only_join] at given
  unfold matchCode at given
  by_cases nodup : p.names.Nodup
  · rw [if_pos nodup] at given
    rw [Option.join_eq_some_iff.mp given] at hsim
    cases hsim with
    | some h =>
        cases h with
        | some h => exact h.2
  · rw [if_neg nodup] at given
    exact absurd given (by simp)

theorem hoist_frame {names : List Name} {name : Name} (outside : name ∉ names) (env : Env V) :
    (hoist L env names).get name = env.get name := by
  induction names generalizing env with
  | nil => rfl
  | cons first rest ih =>
      have apart : name ≠ first := fun same => outside (same ▸ List.mem_cons_self)
      rw [hoist, ih (fun member => outside (List.mem_cons_of_mem first member)),
        get_set_ne env apart]

theorem hoist_user {names : List Name} {x : String} (outside : Name.user x ∉ names)
    (env : Env V) : (hoist L env names).user x = env.user x :=
  hoist_frame L outside env

theorem define_eq {p : Pattern Name T} (few : p.names.length ≤ kMaxTupleArity) (w : V)
    (env : Env V) : define L p w env = matchOnly L p w env := by
  cases p with
  | var name => exact (match_only_var L name w env).symm
  | wildcard =>
      rw [define, if_pos few]
      nofun
  | bind name arg => exact if_pos few
  | tuple args => exact if_pos few
  | test t args => exact if_pos few

/-- A match succeeds in a block as it is read there, although the names it binds are unset
before. -/
theorem hoisted_matches {p : Pattern String T} (nodup : p.names.Nodup)
    (unread : ∀ t ∈ p.tests, ∀ x ∈ p.names, x ∉ L.testMentions t) (w : V) {u : String → V}
    {env : Env V} (agree : ∀ x ∉ p.names, u x = env.user x) :
    (matchOnly L (p.rename .user) w env).isSome = (matchRead L p w u).join.isSome := by
  have hsim := match_simulates L (fun u x v => Function.update u x v) (fun u => u) Env.set
    Env.user Name.user
    (fun (u : String → V) (a : Env V) => ∀ x ∉ p.names, u x = a.user x) p
    (fun s a n v member h x outside => by
      have apart : x ≠ n := fun same => outside (same ▸ member)
      simp [Env.set, Function.update, apart, h x outside])
    (fun s a t v test h => L.extract_congr t s a.user v fun x mentioned =>
      h x fun member => unread t test x member mentioned) w u env agree
  rw [match_only_join]
  unfold matchCode
  rw [if_pos (renamed_nodup nodup)]
  change Option.Rel _ (matchRead L p w u) _ at hsim
  generalize matchRead L p w u = o at hsim ⊢
  generalize matchPattern L Env.set Env.user (p.rename .user) w env = o' at hsim ⊢
  cases hsim with
  | none => rfl
  | some h => cases h <;> rfl

end Groups

section Steps

variable {T E V : Type} (L : Language E T V)

/-- A lambda made for a pattern runs its body with what the pattern binds. -/
theorem apply_lambda_for (n : Nat) (p : Pattern Name T) (body : Tree E T) (v : V) (env : Env V) :
    ∃ start : Env V, start.user = env.user ∧
      evalTree L (lambdaFor n p body).2.1 (bindParam (lambdaFor n p body).1 v env) =
        (matchOnly L p v start).bind (evalTree L body) := by
  have matching : ∀ q : Pattern Name T,
      evalTree L (.matchOne (.parameter n) q body) (env.set (.parameter n) v) =
        (matchOnly L q v (env.set (.parameter n) v)).bind (evalTree L body) := by
    intro q
    rw [evalTree, get_set_same]
  cases p with
  | wildcard => exact ⟨env, rfl, rfl⟩
  | var name => exact ⟨env, rfl, by rw [match_only_var]; rfl⟩
  | bind name arg => exact ⟨env.set (.parameter n) v, rfl, matching _⟩
  | tuple args => exact ⟨env.set (.parameter n) v, rfl, matching _⟩
  | test t args => exact ⟨env.set (.parameter n) v, rfl, matching _⟩

theorem lambda_counter (n : Nat) (p : Pattern Name T) (body : Tree E T) :
    n ≤ (lambdaFor n p body).2.2 := by
  cases p with
  | wildcard => exact Nat.le_refl n
  | var name => exact Nat.le_refl n
  | bind name arg => exact Nat.le_succ n
  | tuple args => exact Nat.le_succ n
  | test t args => exact Nat.le_succ n

/-- The elements of a generator's source. -/
def elements (g : Generator E T) (env : Env V) : Option (List V) :=
  (evalTree L g.source env).bind L.asList

/-- A generator stands for the bindings it gives one after the other. -/
def Gives (g : Generator E T) (u : String → V) (c : Option (List (String → V))) : Prop :=
  ∀ generated : Name → V,
    (elements L g ⟨u, generated⟩).bind (gather fun v => (matched L g.pattern v u).map ([·])) = c

/-- A body that depends on the names of the source alone sees what the pattern binds. -/
theorem lambda_value (n : Nat) (p : Pattern Name T) {body : Tree E T}
    {value : (String → V) → Option V}
    (only : ∀ env : Env V, evalTree L body env = value env.user) (v : V) (env : Env V) :
    evalTree L (lambdaFor n p body).2.1 (bindParam (lambdaFor n p body).1 v env) =
      (matched L p v env.user).bind value := by
  obtain ⟨start, sees, applied⟩ := apply_lambda_for L n p body v env
  have same := match_only_user L p v start
  rw [sees] at same
  rw [applied, ← same]
  cases matchOnly L p v start with
  | none => rfl
  | some bound => exact only bound

theorem gather_lambda {β : Type} {g : Generator E T} {u : String → V}
    {c : Option (List (String → V))} (gives : Gives L g u c) (n : Nat) {body : Tree E T}
    (value : (String → V) → Option V)
    (only : ∀ env : Env V, evalTree L body env = value env.user) (k : V → Option (List β))
    (generated : Name → V) :
    ((elements L g ⟨u, generated⟩).bind (gather fun v =>
        (evalTree L (lambdaFor n g.pattern body).2.1
          (bindParam (lambdaFor n g.pattern body).1 v ⟨u, generated⟩)).bind k)) =
      c.bind (gather fun u' => (value u').bind k) := by
  rw [← gives generated]
  cases elements L g ⟨u, generated⟩ with
  | none => rfl
  | some vs =>
      simp only [Option.bind_some]
      rw [gather_bind]
      refine gather_congr fun v _ => ?_
      rw [lambda_value L n g.pattern only]
      cases matched L g.pattern v u with
      | none => rfl
      | some u' => simp only [Option.bind_some, Option.map_some, gather_singleton]

theorem bind_map {α β γ : Type} (o : Option α) (f : α → β) (g : β → Option γ) :
    (o.map f).bind g = o.bind fun a => g (f a) := by
  cases o <;> rfl

theorem map_as_bind {α β : Type} (o : Option α) (f : α → β) :
    o.map f = o.bind fun a => some (f a) := by
  cases o <;> rfl

/-- The last generator of a comprehension that yields. -/
theorem map_gives {g : Generator E T} {u : String → V} {c : Option (List (String → V))}
    (gives : Gives L g u c) (n : Nat) (body : E) (generated : Name → V) :
    evalTree L (call g.source .map (lambdaFor n g.pattern (.expr body))) ⟨u, generated⟩ =
      (c.bind (gather fun u' => (L.eval body u').map ([·]))).map L.list := by
  have only : ∀ env : Env V, evalTree L (.expr body) env = L.eval body env.user := fun _ => rfl
  have ran := gather_lambda L gives n (L.eval body) only (fun b => some [b]) generated
  simp only [← map_as_bind] at ran
  rw [← ran, call, evalTree]
  unfold elements
  cases (evalTree L g.source ⟨u, generated⟩).bind L.asList <;> rfl

theorem flat_map_gives {g : Generator E T} {u : String → V} {c : Option (List (String → V))}
    (gives : Gives L g u c) (n : Nat) {inner : Tree E T}
    {value : (String → V) → Option (List V)}
    (only : ∀ env : Env V, evalTree L inner env = (value env.user).map L.list)
    (generated : Name → V) :
    evalTree L (call g.source .flatMap (lambdaFor n g.pattern inner)) ⟨u, generated⟩ =
      (c.bind (gather value)).map L.list := by
  have ran := gather_lambda L gives n (fun u' => (value u').map L.list) only L.asList generated
  simp only [bind_map, L.as_list, Option.bind_fun_some] at ran
  rw [← ran, call, evalTree]
  unfold elements
  cases (evalTree L g.source ⟨u, generated⟩).bind L.asList <;> rfl

theorem elements_filter (source : Tree E T) (pattern : Pattern Name T)
    (lambda : Option Name × Tree E T × Nat) (env : Env V) :
    elements L ⟨pattern, call source .withFilter lambda⟩ env =
      (elements L ⟨pattern, source⟩ env).bind (gather fun v =>
        (evalTree L lambda.2.1 (bindParam lambda.1 v env)).map fun b =>
          if L.truthy b then [v] else []) := by
  unfold elements
  simp only [call, evalTree]
  cases (evalTree L source env).bind L.asList with
  | none => rfl
  | some vs =>
      simp only [Option.bind_some, run, bind_map, L.as_list, Option.bind_fun_some]

theorem elements_map (source : Tree E T) (pattern kept : Pattern Name T)
    (lambda : Option Name × Tree E T × Nat) (env : Env V) :
    elements L ⟨pattern, call source .map lambda⟩ env =
      (elements L ⟨kept, source⟩ env).bind (gather fun v =>
        (evalTree L lambda.2.1 (bindParam lambda.1 v env)).map ([·])) := by
  unfold elements
  simp only [call, evalTree]
  cases (evalTree L source env).bind L.asList with
  | none => rfl
  | some vs =>
      simp only [Option.bind_some, run, bind_map, L.as_list, Option.bind_fun_some]

/-- The bindings that a generator passes on, in the order of its elements. -/
def opened (p : Pattern String T) (e : E) (hasCase : Bool) (u : String → V) :
    Option (List (String → V)) :=
  ((L.eval e u).bind L.asList).bind <| gather fun v =>
    match matchRead L p v u with
    | some (some u') => some [u']
    | some none => if hasCase || !irrefutable p then some [] else none
    | none => none

theorem open_gives {p : Pattern String T} (nodup : p.names.Nodup) (n : Nat) (e : E)
    (hasCase : Bool) (u : String → V) :
    Gives L (openGenerator n p e hasCase).1 u (opened L p e hasCase u) := by
  intro generated
  unfold openGenerator opened
  by_cases filters : (hasCase || !irrefutable p) = true
  · simp only [filters, if_true]
    rw [elements_filter]
    change (((L.eval e u).bind L.asList).bind _).bind _ = _
    cases (L.eval e u).bind L.asList with
    | none => rfl
    | some vs =>
        simp only [Option.bind_some]
        rw [gather_bind]
        refine gather_congr fun v _ => ?_
        have hrel := match_code_read L nodup v
          ((⟨u, generated⟩ : Env V).set (.parameter n) v)
        simp only [matchesLambda, bindParam, evalTree, get_set_same, matched_read L nodup]
        change Option.Rel _ (matchRead L p v u) _ at hrel
        generalize matchCode L (p.rename .user) v
          ((⟨u, generated⟩ : Env V).set (.parameter n) v) = o at hrel
        cases hread : matchRead L p v u with
        | none =>
            rw [hread] at hrel
            cases hrel
            rfl
        | some found =>
            rw [hread] at hrel
            cases hrel with
            | some h =>
                cases h with
                | none => simp [L.truthy_bool, gather]
                | some h => simp [L.truthy_bool, gather, hread]
  · simp only [filters, if_false, Bool.false_eq_true]
    change ((L.eval e u).bind L.asList).bind _ = _
    cases (L.eval e u).bind L.asList with
    | none => rfl
    | some vs =>
        simp only [Option.bind_some]
        refine gather_congr fun v _ => ?_
        rw [matched_read L nodup]
        rcases matchRead L p v u with _ | _ | u' <;> rfl

/-- The bindings that pass a guard. -/
def guarded (e : E) (u : String → V) : Option (List (String → V)) :=
  (L.eval e u).bind fun b => if L.truthy b then some [u] else some []

theorem guard_gives {g : Generator E T} {u : String → V} {c : Option (List (String → V))}
    (gives : Gives L g u c) (n : Nat) (e : E) :
    Gives L (addGuard n g e).1 u (c.bind (gather (guarded L e))) := by
  intro generated
  rw [← gives generated]
  unfold addGuard
  simp only []
  rw [elements_filter]
  change ((elements L g _).bind _).bind _ = _
  cases elements L g ⟨u, generated⟩ with
  | none => rfl
  | some vs =>
      simp only [Option.bind_some]
      rw [gather_bind, gather_bind]
      refine gather_congr fun v _ => ?_
      have only : ∀ env : Env V, evalTree L (.expr e) env = L.eval e env.user := fun _ => rfl
      rw [lambda_value L n g.pattern only v ⟨u, generated⟩]
      cases hmatch : matched L g.pattern v u with
      | none => rfl
      | some u' =>
          simp only [Option.bind_some, Option.map_some, gather_singleton, guarded]
          cases L.eval e u' with
          | none => rfl
          | some b => cases given : L.truthy b <;> simp [given, gather, hmatch]

end Steps

section Definitions

variable {T E V : Type} (L : Language E T V)

theorem matched_pair {first second : Pattern Name T}
    (nodup : (first.names ++ second.names).Nodup) (v w : V) (u : String → V) :
    matched L (.tuple (.cons first (.cons second .nil))) (L.tuple [v, w]) u =
      (matched L first v u).bind (matched L second w) := by
  have split : (Pattern.tuple (.cons first (.cons second .nil))).names =
      first.names ++ second.names := by
    simp [Pattern.names, Patterns.names]
  obtain ⟨left, right, -⟩ := List.nodup_append.mp nodup
  have later : ∀ env : Env V, ((matchPattern L Env.set Env.user second w env).join).map Env.user =
      matched L second w env.user := by
    intro env
    rw [← match_only_user, match_only_join]
    unfold matchCode
    rw [if_pos right]
  unfold matched
  rw [match_only_join, match_only_join]
  unfold matchCode
  rw [split, if_pos nodup, if_pos left, matchPattern, L.untuple_tuple]
  simp only [matchPatterns, Patterns.length, List.length_cons, List.length_nil, if_true]
  rcases matchPattern L Env.set Env.user first v ⟨u, fun _ => L.null⟩ with _ | _ | bound
  · rfl
  · rfl
  · change _ = matched L second w bound.user
    rw [← later bound]
    simp only
    rcases matchPattern L Env.set Env.user second w bound with _ | _ | all <;> rfl

theorem bound_length (n m : Nat) (p : Pattern Name T) :
    (boundName n p).2.1.names.length = (boundName m p).2.1.names.length := by
  cases p <;> rfl

theorem user_of_bound {n : Nat} {p : Pattern String T} {x : String}
    (member : Name.user x ∈ (boundName n (p.rename .user)).2.1.names) : x ∈ p.names := by
  have renamed : Name.user x ∈ (p.rename Name.user).names := by
    rcases bound_names n (p.rename Name.user) with ⟨same, -, -⟩ | ⟨wrapped, -, -⟩
    · rwa [same] at member
    · rw [wrapped, Pattern.names, List.mem_cons] at member
      exact member.resolve_left nofun
  rw [rename_names] at renamed
  obtain ⟨y, known, same⟩ := List.mem_map.mp renamed
  rwa [← user_injective same]

theorem bound_success (n : Nat) {p : Pattern Name T} (nodup : (boundName n p).2.1.names.Nodup)
    (v : V) (env : Env V) :
    (matchOnly L (boundName n p).2.1 v env).isSome = (matchOnly L p v env).isSome := by
  rcases bound_names n p with ⟨same, -, -⟩ | ⟨wrapped, -, -⟩
  · rw [same]
  · rw [wrapped] at nodup ⊢
    rw [match_only_bind L (.bound n) p v env nodup, Option.isSome_map]

/-- The block of a value definition pairs the element with the value. -/
theorem block_value {p : Pattern String T} {e : E} (sound : Definable L p e) (n : Nat)
    (nodup : (boundName n (p.rename .user)).2.1.names.Nodup) {name : Name} {v : V} {env : Env V}
    (outside : name ∉ (boundName n (p.rename .user)).2.1.names) (held : env.get name = v) :
    evalTree L (.block (boundName n (p.rename .user)).2.1 e
        (.pair (.ident name) (.ident (boundName n (p.rename .user)).1))) env =
      (L.eval e env.user).bind fun w =>
        (matchRead L p w env.user).join.map fun _ => L.tuple [v, w] := by
  have few : (boundName n (p.rename .user)).2.1.names.length ≤ kMaxTupleArity := by
    rw [bound_length n 0]
    exact sound.few
  have agree : ∀ x ∉ p.names, env.user x =
      (hoist L env (boundName n (p.rename .user)).2.1.names).user x := fun x apart =>
    (hoist_user L (fun member => apart (user_of_bound member)) env).symm
  have same : L.eval e (hoist L env (boundName n (p.rename .user)).2.1.names).user =
      L.eval e env.user :=
    L.eval_congr e _ _ fun x mentioned =>
      (agree x fun member => sound.unread x member mentioned).symm
  rw [evalTree]
  simp only [same]
  cases L.eval e env.user with
  | none => rfl
  | some w =>
      simp only [Option.bind_some]
      rw [define_eq L few]
      have succeeds := (bound_success L n nodup w
        (hoist L env (boundName n (p.rename .user)).2.1.names)).trans
          (hoisted_matches L sound.nodup sound.untested w agree)
      cases given : matchOnly L (boundName n (p.rename .user)).2.1 w
          (hoist L env (boundName n (p.rename .user)).2.1.names) with
      | none =>
          rw [given] at succeeds
          rw [Option.isSome_eq_false_iff.mp succeeds.symm |> Option.isNone_iff_eq_none.mp]
          rfl
      | some bound =>
          rw [given] at succeeds
          obtain ⟨u', read⟩ := Option.isSome_iff_exists.mp succeeds.symm
          have first : bound.get name = v :=
            (match_frame L outside given).trans ((hoist_frame L outside env).trans held)
          have second := bound_value L n nodup given
          rw [read]
          simp only [Option.bind_some, Option.map_some, evalTree, first, second]

/-- The bindings of a value definition, none when the value does not match. -/
def defined (p : Pattern String T) (e : E) (u : String → V) : Option (List (String → V)) :=
  (L.eval e u).bind fun w => (matchRead L p w u).join.map ([·])

end Definitions

section Definition

variable {T E V : Type} (L : Language E T V)

theorem value_gives {g : Generator E T} {u : String → V} {c : Option (List (String → V))}
    (gives : Gives L g u c) (n : Nat) {p : Pattern String T} {e : E} (sound : Definable L p e)
    (nodup : (addValue n g p e).1.pattern.names.Nodup) :
    Gives L (addValue n g p e).1 u (c.bind (gather (defined L p e))) := by
  intro generated
  rw [← gives generated]
  unfold addValue at nodup ⊢
  generalize hfirst : boundName n g.pattern = first at nodup ⊢
  simp only at nodup ⊢
  generalize hsecond : boundName first.2.2 (p.rename .user) = second at nodup ⊢
  simp only [Pattern.names, Patterns.names, List.append_nil] at nodup
  obtain ⟨left, right, apart⟩ := List.nodup_append.mp nodup
  rw [elements_map L g.source _ g.pattern]
  change ((elements L g _).bind _).bind _ = _
  cases elements L g ⟨u, generated⟩ with
  | none => rfl
  | some vs =>
      simp only [Option.bind_some]
      rw [gather_bind, gather_bind]
      refine gather_congr fun v _ => ?_
      obtain ⟨start, sees, applied⟩ := apply_lambda_for L second.2.2 first.2.1
        (.block second.2.1 e (.pair (.ident first.1) (.ident second.1))) v ⟨u, generated⟩
      have binds : matched L first.2.1 v u = matched L g.pattern v u := by
        subst hfirst
        exact matched_bound L n left v u
      have same := match_only_user L first.2.1 v start
      rw [sees] at same
      change (matchOnly L first.2.1 v start).map Env.user = matched L first.2.1 v u at same
      rw [applied, ← binds, ← same]
      cases hmatch : matchOnly L first.2.1 v start with
      | none => rfl
      | some env =>
          rw [hmatch] at same
          have held : env.get first.1 = v := by
            subst hfirst
            exact bound_value L n left hmatch
          have outside : first.1 ∉ second.2.1.names := fun member =>
            apart _ (by subst hfirst; exact bound_member n g.pattern) _ member rfl
          have block := block_value L sound first.2.2 (by rw [hsecond]; exact right)
            (by rw [hsecond]; exact outside) held
          rw [hsecond] at block
          simp only [Option.bind_some, Option.map_some, gather_singleton, block, defined]
          cases L.eval e env.user with
          | none => rfl
          | some w =>
              simp only [Option.bind_some]
              have reads : matched L second.2.1 w env.user = (matchRead L p w env.user).join := by
                subst hsecond
                rw [matched_bound L first.2.2 right, matched_read L sound.nodup]
              cases hread : (matchRead L p w env.user).join with
              | none => rfl
              | some u' =>
                  rw [hread] at reads
                  simp only [Option.map_some, Option.bind_some, gather_singleton]
                  rw [matched_pair L nodup, ← same, Option.map_some, Option.bind_some, reads]
                  rfl

end Definition

section Comprehension

variable {T E V : Type} (L : Language E T V)

/-- The names a generator's pattern binds: those seen in its group, and names made before. -/
structure Group (n : Nat) (seen : List String) (names : List Name) : Prop where
  nodup : names.Nodup
  known : ∀ x, Name.user x ∈ names → x ∈ seen
  issued : ∀ k, Name.bound k ∈ names → k < n

theorem Group.later {n m : Nat} {seen : List String} {names : List Name}
    (group : Group n seen names) (more : n ≤ m) : Group m seen names :=
  ⟨group.nodup, group.known, fun k member => Nat.lt_of_lt_of_le (group.issued k member) more⟩

theorem open_group (n m : Nat) {p : Pattern String T} (nodup : p.names.Nodup) (e : E)
    (hasCase : Bool) : Group m p.names (openGenerator n p e hasCase).1.pattern.names := by
  have pattern : (openGenerator n p e hasCase).1.pattern = p.rename .user := by
    unfold openGenerator
    by_cases filters : (hasCase || !irrefutable p) = true <;> simp [filters]
  rw [pattern]
  refine ⟨renamed_nodup nodup, fun x member => ?_, fun k member => ?_⟩
  · rw [rename_names] at member
    obtain ⟨y, known, same⟩ := List.mem_map.mp member
    rwa [← user_injective same]
  · rw [rename_names] at member
    obtain ⟨y, -, same⟩ := List.mem_map.mp member
    exact absurd same nofun

theorem bound_group {n : Nat} {seen : List String} {p : Pattern Name T}
    (group : Group n seen p.names) :
    Group (boundName n p).2.2 seen (boundName n p).2.1.names := by
  rcases bound_names n p with ⟨same, counter, -⟩ | ⟨wrapped, counter, -⟩
  · rwa [same, counter]
  · rw [wrapped, counter, Pattern.names]
    refine ⟨List.nodup_cons.mpr ⟨fun member => ?_, group.nodup⟩, fun x member => ?_,
      fun k member => ?_⟩
    · exact absurd (group.issued n member) (Nat.lt_irrefl n)
    · exact group.known x ((List.mem_cons.mp member).resolve_left nofun)
    · rcases List.mem_cons.mp member with same | old
      · rw [Name.bound.inj same]
        exact Nat.lt_succ_self n
      · exact Nat.lt_succ_of_lt (group.issued k old)

theorem bound_counter (n : Nat) (p : Pattern Name T) : n ≤ (boundName n p).2.2 := by
  rcases bound_names n p with ⟨-, counter, -⟩ | ⟨-, counter, -⟩ <;> omega

/-- The pattern of a value definition binds names of its own and at most the next name. -/
theorem mem_bound {n : Nat} {p : Pattern String T} {name : Name}
    (member : name ∈ (boundName n (p.rename .user)).2.1.names) :
    (∃ x ∈ p.names, name = .user x) ∨ name = .bound n := by
  have source : name ∈ (p.rename Name.user).names → ∃ x ∈ p.names, name = .user x := by
    intro renamed
    rw [rename_names] at renamed
    obtain ⟨x, known, same⟩ := List.mem_map.mp renamed
    exact ⟨x, known, same.symm⟩
  rcases bound_names n (p.rename Name.user) with ⟨same, -, -⟩ | ⟨wrapped, -, -⟩
  · rw [same] at member
    exact Or.inl (source member)
  · rw [wrapped, Pattern.names] at member
    rcases List.mem_cons.mp member with made | renamed
    · exact Or.inr made
    · exact Or.inl (source renamed)

theorem value_group {n : Nat} {seen : List String} {g : Generator E T}
    (group : Group n seen g.pattern.names) {p : Pattern String T} (nodup : p.names.Nodup)
    (apart : ∀ x ∈ p.names, x ∉ seen) (e : E) :
    Group (addValue n g p e).2 (seen ++ p.names) (addValue n g p e).1.pattern.names := by
  have first := bound_group group
  have second : Group (boundName (boundName n g.pattern).2.2 (p.rename .user)).2.2 p.names
      (boundName (boundName n g.pattern).2.2 (p.rename .user)).2.1.names :=
    bound_group ⟨renamed_nodup nodup, fun x member => by
        rw [rename_names] at member
        obtain ⟨y, known, same⟩ := List.mem_map.mp member
        rwa [← user_injective same], fun k member => by
        rw [rename_names] at member
        obtain ⟨y, -, same⟩ := List.mem_map.mp member
        exact absurd same nofun⟩
  refine Group.later (n := (boundName (boundName n g.pattern).2.2 (p.rename .user)).2.2) ?_
    (lambda_counter _ _ _)
  have names : (addValue n g p e).1.pattern.names = (boundName n g.pattern).2.1.names ++
      (boundName (boundName n g.pattern).2.2 (p.rename .user)).2.1.names := by
    simp [addValue, Pattern.names, Patterns.names]
  rw [names]
  refine ⟨List.nodup_append.mpr ⟨first.nodup, second.nodup, ?_⟩, fun x member => ?_,
    fun k member => ?_⟩
  · rintro name left _ right rfl
    rcases mem_bound right with ⟨x, known, rfl⟩ | rfl
    · exact apart x known (first.known x left)
    · exact Nat.lt_irrefl _ (first.issued _ left)
  · rcases List.mem_append.mp member with left | right
    · exact List.mem_append_left _ (first.known x left)
    · exact List.mem_append_right _ (second.known x right)
  · rcases List.mem_append.mp member with left | right
    · exact Nat.lt_of_lt_of_le (first.issued k left) (bound_counter _ _)
    · exact second.issued k right

theorem read_generator (body : E) (p : Pattern String T) (e : E) (hasCase : Bool)
    (rest : List (Enumerator E T)) (u : String → V) :
    read L body (.generator p e hasCase :: rest) u =
      (opened L p e hasCase u).bind (gather (read L body rest)) := by
  rw [read]
  unfold opened
  cases (L.eval e u).bind L.asList with
  | none => rfl
  | some vs =>
      simp only [Option.bind_some]
      rw [gather_bind]
      refine gather_congr fun v _ => ?_
      rcases matchRead L p v u with _ | _ | u'
      · rfl
      · by_cases filters : (hasCase || !irrefutable p) = true <;> simp [filters, gather]
      · simp only [Option.bind_some, gather_singleton]

theorem read_guard (body e : E) (rest : List (Enumerator E T)) (u : String → V) :
    read L body (.guard e :: rest) u = (guarded L e u).bind (gather (read L body rest)) := by
  rw [read]
  unfold guarded
  cases L.eval e u with
  | none => rfl
  | some b => cases given : L.truthy b <;> simp [given, gather]

theorem read_value (body : E) (p : Pattern String T) (e : E) (rest : List (Enumerator E T))
    (u : String → V) :
    read L body (.value p e :: rest) u = (defined L p e u).bind (gather (read L body rest)) := by
  rw [read]
  unfold defined
  cases L.eval e u with
  | none => rfl
  | some w =>
      simp only [Option.bind_some]
      rcases matchRead L p w u with _ | _ | u'
      · rfl
      · rfl
      · simp only [Option.join_some, Option.map_some, Option.bind_some, gather_singleton]

theorem bind_gather {α β γ : Type} (c : Option (List α)) (f : α → Option (List β))
    (g : β → Option (List γ)) :
    (c.bind (gather f)).bind (gather g) = c.bind (gather fun x => (f x).bind (gather g)) := by
  cases c with
  | none => rfl
  | some xs => exact gather_bind f g xs

theorem generators_cons (n : Nat) (g : Generator E T) (rest : List (Enumerator E T)) :
    ∃ first others, (generators n g rest).1 = first :: others := by
  induction rest generalizing n g with
  | nil => exact ⟨g, [], rfl⟩
  | cons enumerator rest ih =>
      cases enumerator with
      | generator p e hasCase => exact ⟨g, _, rfl⟩
      | guard e => exact ih _ _
      | value p e => exact ih _ _

/-- By induction on the enumerators: a generator that gives the bindings read so far gives,
with the enumerators behind it, the values that they read. -/
theorem fold_reads (body : E) (rest : List (Enumerator E T)) :
    ∀ (n m : Nat) (g : Generator E T) (seen : List String), Group n seen g.pattern.names →
      WellFormed L seen rest → ∀ (u : String → V) (c : Option (List (String → V)))
      (generated : Name → V), Gives L g u c →
      evalTree L (foldGenerators m body true (generators n g rest).1).1 ⟨u, generated⟩ =
        (c.bind (gather (read L body rest))).map L.list := by
  induction rest with
  | nil =>
      intro n m g seen _ _ u c generated gives
      exact map_gives L gives m body generated
  | cons enumerator rest ih =>
      intro n m g seen group well u c generated gives
      cases enumerator with
      | generator p e hasCase =>
          obtain ⟨nodup, -, well⟩ := well
          have inner : ∀ env : Env V, evalTree L (foldGenerators m body true
              (generators (openGenerator n p e hasCase).2 (openGenerator n p e hasCase).1
                rest).1).1 env =
                (read L body (.generator p e hasCase :: rest) env.user).map L.list := by
            intro env
            rw [read_generator]
            exact ih _ m _ _ (open_group n _ nodup e hasCase) well env.user _ env.generated
              (open_gives L nodup n e hasCase env.user)
          obtain ⟨first, others, later⟩ := generators_cons (openGenerator n p e hasCase).2
            (openGenerator n p e hasCase).1 rest
          simp only [generators]
          rw [later] at inner ⊢
          exact flat_map_gives L gives _ inner generated
      | guard e =>
          have group' : Group (addGuard n g e).2 seen (addGuard n g e).1.pattern.names :=
            group.later (lambda_counter _ _ _)
          have folded := ih (addGuard n g e).2 m (addGuard n g e).1 seen group' well u _ generated
            (guard_gives L gives n e)
          have step : read L body (.guard e :: rest) =
              fun u' => (guarded L e u').bind (gather (read L body rest)) :=
            funext fun u' => read_guard L body e rest u'
          rw [step, ← bind_gather]
          exact folded
      | value p e =>
          obtain ⟨sound, apart, well⟩ := well
          have group' := value_group group sound.nodup apart e
          have folded := ih (addValue n g p e).2 m (addValue n g p e).1 _ group' well u _ generated
            (value_gives L gives n sound group'.nodup)
          have step : read L body (.value p e :: rest) =
              fun u' => (defined L p e u').bind (gather (read L body rest)) :=
            funext fun u' => read_value L body p e rest u'
          rw [step, ← bind_gather]
          exact folded

end Comprehension

section Sample

inductive Sample where
  | int (n : Int)
  | list (vs : List Sample)
  | tuple (vs : List Sample)
  | bool (b : Bool)
  | unit
  | null

inductive SampleExpr where
  | name (x : String)
  | ints (ns : List Int)
  | positive (x : String)

def SampleExpr.eval (u : String → Sample) : SampleExpr → Option Sample
  | .name x => some (u x)
  | .ints ns => some (.list (ns.map .int))
  | .positive x =>
    match u x with
    | .int n => some (.bool (decide (0 < n)))
    | _ => none

def SampleExpr.mentions : SampleExpr → List String
  | .name x => [x]
  | .ints _ => []
  | .positive x => [x]

/-- Names, lists of integers and one comparison; the patterns test for an integer. -/
def sampleLanguage : Language SampleExpr Int Sample where
  eval e u := e.eval u
  mentions := SampleExpr.mentions
  eval_congr e u u' agree := by
    cases e with
    | name x => exact congrArg some (agree x (List.mem_singleton_self x))
    | ints ns => rfl
    | positive x => simp only [SampleExpr.eval, agree x (List.mem_singleton_self x)]
  extract n _ v :=
    match v with
    | .int m => some (if m = n then some [] else none)
    | _ => some none
  testMentions _ := []
  extract_congr _ _ _ _ _ := rfl
  list := .list
  asList v :=
    match v with
    | .list vs => some vs
    | _ => none
  as_list _ := rfl
  tuple := .tuple
  untuple v :=
    match v with
    | .tuple vs => some vs
    | _ => none
  untuple_tuple _ := rfl
  bool := .bool
  truthy v :=
    match v with
    | .bool b => b
    | _ => false
  truthy_bool _ := rfl
  unit := .unit
  null := .null

/-- In `for x <- List(1); y <- List(2); x = x yield x` the definition of the inner `x` reads
itself, unset, where the reading takes the 1 of the first generator. -/
theorem definition_reads_itself :
    evalTree sampleLanguage (forExpr 0 (.var "x") (.ints [1]) false
        [.generator (.var "y") (.ints [2]) false, .value (.var "x") (.name "x")] (.name "x") true)
        ⟨fun _ => .null, fun _ => .null⟩ ≠
      (read sampleLanguage (.name "x") [.generator (.var "x") (.ints [1]) false,
        .generator (.var "y") (.ints [2]) false, .value (.var "x") (.name "x")]
        (fun _ => .null)).map sampleLanguage.list := by
  intro same
  have nulls : some (Sample.list [.null]) = some (Sample.list [.int 1]) := same
  simp at nulls

end Sample

end ProtoScala.Frontend.Comprehensions
