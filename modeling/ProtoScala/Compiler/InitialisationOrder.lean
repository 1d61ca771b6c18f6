import ProtoScala.Compiler.Hierarchies
import ProtoScala.Library.Delegation

/-!
# The order of initialisation

Constructing an instance of a class runs the statements of every template in its
linearization once, from the last ancestor to the class itself: a class calls the
constructor of its superclass, which does so for the superclass's linearization, and then
the initialisers of the traits in front of that. An auxiliary constructor hands on to
another constructor of the class, and comes to the primary one unless it comes back to
itself.
-/

namespace ProtoScala.Compiler.InitialisationOrder

open ProtoScala.Compiler.Templates
open ProtoScala.Compiler.Hierarchies
open ProtoScala.Library.Delegation

set_option autoImplicit false

/-- The statements of a template that the program defines, each with its key. -/
def bodyOf (classes : List CompiledClass) (key : String) : List (String × String) :=
  (findClass classes key).elim [] fun c => c.template.statements.map (key, ·)

/-- What a construction has to run. -/
def bodiesOf (classes : List CompiledClass) (info : ClassInfo) : List (String × String) :=
  info.linearization.reverse.flatMap (bodyOf classes)

/-- A construction that comes to an end, whatever depth is given beyond enough. -/
def Runs (classes : List CompiledClass) (key : String) (ctor : CtorKey)
    (trace : List (String × String)) : Prop :=
  ∃ enough, ∀ depth, enough ≤ depth → initialise classes depth key ctor = some trace

/-- The constructor is one that a number of arguments picks. -/
def Takes (info : ClassInfo) (ctor : CtorKey) : Prop := ∃ argc, ctorKeyFor info argc = .ok ctor

/-- A chain of constructors of one class that comes to the primary one. -/
inductive ReachesPrimary (c : CompiledClass) : CtorKey → Prop where
  | primary : ReachesPrimary c .primary
  | aux {arity : Nat} {constructor : Constructor} {ctor : CtorKey}
      (found : c.constructor? (.aux arity) = some constructor)
      (call : constructor.calls = [(c.info.key, ctor)]) (later : ReachesPrimary c ctor) :
      ReachesPrimary c (.aux arity)

structure FollowsLinearization (s : Session) (c : CompiledClass) : Prop where
  ends_with_super : ∀ super, superclassOf s.types c.info = some super →
    super.linearization <:+ c.info.linearization
  initialised : ∀ ctor, Takes c.info ctor →
    Runs s.classes c.info.key ctor (bodiesOf s.classes c.info)
  delegated : ∀ arity ∈ c.info.auxArities, ReachesPrimary c (.aux arity)

/-- The constructor that a constructor calls, by the number of arguments. -/
def delegate (t : TemplateDef) (info : ClassInfo) : CtorKey → Option CtorKey
  | .primary => none
  | .aux arity =>
      match t.auxConstructors.lookup arity with
      | some (.selfCall args) => (ctorKeyFor info args).toOption
      | _ => none

/-- No auxiliary constructor comes back to itself through the calls. -/
def NoCycle (t : TemplateDef) (info : ClassInfo) : Prop :=
  ∀ arity ∈ info.auxArities,
    ¬Relation.TransGen (HandsOn (delegate t info)) (.aux arity) (.aux arity)

/-! ## Running calls -/

section

variable {classes : List CompiledClass}

theorem runs_calls {calls : List InitCall} {traces : List (List (String × String))}
    (each : List.Forall₂ (fun call trace => Runs classes call.1 call.2 trace) calls traces) :
    ∃ enough, ∀ depth, enough ≤ depth →
      (calls.mapM fun call => initialise classes depth call.1 call.2) = some traces := by
  induction each with
  | nil => exact ⟨0, fun depth _ => rfl⟩
  | cons first rest ih =>
    obtain ⟨enough, first⟩ := first
    obtain ⟨more, later⟩ := ih
    refine ⟨max enough more, ?_⟩
    intro depth deep
    rw [List.mapM_cons, first depth (by omega), later depth (by omega)]
    rfl

theorem runs_constructor {key : String} {ctor : CtorKey} {c : CompiledClass}
    {constructor : Constructor} {traces : List (List (String × String))}
    (found : findClass classes key = some c) (has : c.constructor? ctor = some constructor)
    (each : List.Forall₂ (fun call trace => Runs classes call.1 call.2 trace)
      constructor.calls traces) :
    Runs classes key ctor (traces.flatten ++ constructor.statements.map (key, ·)) := by
  obtain ⟨enough, all⟩ := runs_calls each
  refine ⟨enough + 1, ?_⟩
  intro depth deep
  obtain ⟨less, rfl⟩ : ∃ less, depth = less + 1 := ⟨depth - 1, by omega⟩
  rw [initialise, found]
  simp only [Option.bind_some, has, all less (by omega), Option.map_some]

end

/-! ## What a template compiles to -/

theorem compile_template_ok {types : List ClassInfo} {c : CompiledClass}
    (compiled : compileTemplate types c.template c.info = .ok c) :
    (c.info.hasInit = true → ∃ calls, compileCalls types c.template c.info = .ok calls ∧
      c.primary = some ⟨calls, c.template.statements⟩) ∧
    compileAuxConstructors c.info c.template.auxConstructors = .ok c.aux := by
  unfold compileTemplate at compiled
  split at compiled
  · cases compiled
  · rename_i primary primary_eq
    cases aux : compileAuxConstructors c.info c.template.auxConstructors with
    | error message => simp [aux, Except.map] at compiled
    | ok list =>
      simp only [aux, Except.map, Except.ok.injEq] at compiled
      refine ⟨?_, by rw [← compiled]⟩
      intro hasInit
      rw [if_pos hasInit] at primary_eq
      unfold compileConstructor at primary_eq
      cases calls_eq : compileCalls types c.template c.info with
      | error message => simp [calls_eq, Except.map] at primary_eq
      | ok calls =>
        refine ⟨calls, rfl, ?_⟩
        simp only [calls_eq] at primary_eq
        split at primary_eq
        · simp [Except.map] at primary_eq
        · simp only [Except.map, Except.ok.injEq] at primary_eq
          rw [← compiled, ← primary_eq]

theorem compile_super_init_ok {t : TemplateDef} {super : ClassInfo} {calls : List InitCall}
    (ok : compileSuperInit t (some super) = .ok calls) (isClass : super.kind = .class_) :
    ∃ ctor, Takes super ctor ∧ calls = [(super.key, ctor)] := by
  simp only [compileSuperInit, compileInitCall, isClass] at ok
  rw [if_neg (by decide)] at ok
  set argc := t.parents.head?.elim 0 fun p => if p.type = super.key then p.args else 0
  cases picked : ctorKeyFor super argc with
  | error message => simp [picked, Except.map] at ok
  | ok ctor =>
    simp only [picked, Except.map, Except.ok.injEq] at ok
    exact ⟨ctor, ⟨argc, picked⟩, ok.symm⟩

theorem compile_trait_inits_ok {t : TemplateDef} {traits : List ClassInfo}
    (all : ∀ tr ∈ traits, tr.kind = .trait_) :
    ∀ {calls : List InitCall}, compileTraitInits t traits = .ok calls →
      calls = traits.map fun tr => (tr.key, .primary) := by
  induction traits with
  | nil =>
    intro calls ok
    cases ok
    rfl
  | cons tr rest ih =>
    intro calls ok
    rw [compileTraitInits] at ok
    cases first : compileTraitInit t tr with
    | error message => simp [first] at ok
    | ok call =>
      simp only [first] at ok
      have call_eq : call = (tr.key, .primary) := by
        simp only [compileTraitInit] at first
        split at first
        · cases first
        · simp only [compileInitCall, all tr (.head _), if_true, Except.ok.injEq] at first
          exact first.symm
      cases later : compileTraitInits t rest with
      | error message => simp [later, Except.map] at ok
      | ok others =>
        simp only [later, Except.map, Except.ok.injEq] at ok
        rw [← ok, call_eq, ih (fun other member => all other (.tail _ member)) later]
        rfl

theorem compile_aux_ok {info : ClassInfo} (notTrait : info.kind ≠ .trait_)
    {list : List (Nat × AuxBody)} :
    ∀ {aux : List (Nat × Constructor)}, compileAuxConstructors info list = .ok aux →
      ∀ {arity : Nat} {body : AuxBody}, list.lookup arity = some body →
        ∃ args ctor, body = .selfCall args ∧ ctorKeyFor info args = .ok ctor ∧
          aux.lookup arity = some ⟨[(info.key, ctor)], []⟩ := by
  induction list with
  | nil =>
    intro aux ok arity body found
    cases found
  | cons first rest ih =>
    obtain ⟨params, own⟩ := first
    intro aux ok arity body found
    rw [compileAuxConstructors] at ok
    cases compiled : compileAuxConstructor info params own with
    | error message => simp [compiled] at ok
    | ok constructor =>
      simp only [compiled] at ok
      cases later : compileAuxConstructors info rest with
      | error message => simp [later, Except.map] at ok
      | ok others =>
        simp only [later, Except.map, Except.ok.injEq] at ok
        subst ok
        rw [List.lookup_cons] at found ⊢
        by_cases same : arity = params
        · subst same
          simp only [beq_self_eq_true, Option.some.injEq] at found ⊢
          subst found
          cases own with
          | missing => cases compiled
          | noSelfCall => cases compiled
          | selfCall args =>
            simp only [compileAuxConstructor] at compiled
            split at compiled
            · cases compiled
            · unfold compileInitCall at compiled
              rw [if_neg notTrait] at compiled
              cases picked : ctorKeyFor info args with
              | error message => simp [picked, Except.map] at compiled
              | ok ctor =>
                simp only [picked, Except.map, Except.ok.injEq] at compiled
                exact ⟨args, ctor, rfl, picked, compiled.symm⟩
        · simp only [beq_eq_false_iff_ne.mpr same] at found ⊢
          exact ih later found

theorem compile_aux_plain {info : ClassInfo} {list : List (Nat × AuxBody)} :
    ∀ {aux : List (Nat × Constructor)}, compileAuxConstructors info list = .ok aux →
      ∀ entry ∈ aux, entry.2.statements = [] := by
  induction list with
  | nil =>
    intro aux ok entry member
    cases ok
    cases member
  | cons first rest ih =>
    obtain ⟨params, own⟩ := first
    intro aux ok entry member
    rw [compileAuxConstructors] at ok
    cases compiled : compileAuxConstructor info params own with
    | error message => simp [compiled] at ok
    | ok constructor =>
      simp only [compiled] at ok
      cases later : compileAuxConstructors info rest with
      | error message => simp [later, Except.map] at ok
      | ok others =>
        simp only [later, Except.map, Except.ok.injEq] at ok
        subst ok
        cases List.mem_cons.mp member with
        | inr inRest => exact ih later entry inRest
        | inl this =>
          subst this
          cases own with
          | missing => cases compiled
          | noSelfCall => cases compiled
          | selfCall args =>
            simp only [compileAuxConstructor] at compiled
            split at compiled
            · cases compiled
            · cases call : compileInitCall info args with
              | error message => simp [call, Except.map] at compiled
              | ok target =>
                simp only [call, Except.map, Except.ok.injEq] at compiled
                rw [← compiled]

/-! ## The statements that are run -/

section

variable {s : Session}

theorem find_class_of_mem (sound : Sound s) {c : CompiledClass} (member : c ∈ s.classes) :
    findClass s.classes c.info.key = some c :=
  find_keyed sound.distinct member

theorem body_of_class (sound : Sound s) {c : CompiledClass} (member : c ∈ s.classes) :
    bodyOf s.classes c.info.key = c.template.statements.map (c.info.key, ·) := by
  unfold bodyOf
  rw [find_class_of_mem sound member]
  rfl

theorem body_of_builtin (sound : Sound s) {j : ClassInfo} (inJ : j ∈ s.types)
    (builtin : j.builtin = true) : bodyOf s.classes j.key = [] := by
  unfold bodyOf
  cases found : findClass s.classes j.key with
  | none => rfl
  | some c =>
    have inClasses : c ∈ s.classes := List.mem_of_find?_eq_some found
    have same : c.info.key = j.key := by simpa using List.find?_some found
    have recorded := sound.recorded c inClasses
    have eq := eq_of_key sound.linked.distinct recorded.described inJ same
    rw [← eq, recorded.placed.user] at builtin
    cases builtin

theorem has_init_of_class {types : List ClassInfo} {c : CompiledClass}
    (recorded : Recorded types c) (notTrait : c.info.kind ≠ .trait_) :
    c.info.hasInit = true := by
  rw [recorded.constructors]
  rw [recorded.placed.kind_eq] at notTrait
  simp [describeConstructors, notTrait]

/-- A trait without an initialiser has no statements. -/
theorem statements_without_init {types : List ClassInfo} {c : CompiledClass}
    (recorded : Recorded types c) (noInit : c.info.hasInit = false) :
    c.template.statements = [] := by
  rw [recorded.constructors] at noInit
  simp only [describeConstructors, Bool.or_eq_false_iff] at noInit
  unfold TemplateDef.statements
  rw [List.filterMap_eq_nil_iff]
  intro member inBody
  have quiet := List.any_eq_false.mp noInit.2 member inBody
  cases member with
  | statement text => simp [Member.initialises] at quiet
  | lazyValue defined => rfl
  | auxConstructor params body => rfl
  | other => rfl

theorem trait_runs (sound : Sound s) {c : CompiledClass} (member : c ∈ s.classes)
    (isTrait : c.info.kind = .trait_) (hasInit : c.info.hasInit = true) :
    Runs s.classes c.info.key .primary (bodyOf s.classes c.info.key) := by
  have recorded := sound.recorded c member
  obtain ⟨calls, calls_eq, primary⟩ := (compile_template_ok recorded.compiled).1 hasInit
  simp only [compileCalls, isTrait, if_true, Except.ok.injEq] at calls_eq
  subst calls_eq
  have has : c.constructor? .primary = some ⟨[], c.template.statements⟩ := primary
  have runs := runs_constructor (find_class_of_mem sound member) has .nil
  rw [body_of_class sound member]
  exact runs

theorem flat_map_filter_map {α β γ : Type} (pick : α → Option β) (trace : β → List γ)
    (list : List α) :
    (list.filterMap pick).flatMap trace = list.flatMap fun a => (pick a).elim [] trace := by
  induction list with
  | nil => rfl
  | cons a rest ih =>
    cases picked : pick a with
    | none => simp [picked, ih]
    | some b => simp [picked, ih]

/-- A type that the superclass does not cover is a trait to initialise, or has nothing
to run. -/
theorem uncovered_body (sound : Sound s) {info : ClassInfo} (inInfo : info ∈ s.types)
    {super : Option ClassInfo} {key : String} (above : key ∈ info.linearization.tail)
    (uncovered : ∀ covering, super = some covering → key ∉ covering.linearization)
    (noClass : findUserClass s.types key = none) :
    ((traitToInit s.types info super key).elim [] fun tr => bodyOf s.classes tr.key) =
      bodyOf s.classes key := by
  obtain ⟨j, inJ, rfl, notObject, lower⟩ := sound.linked.known info inInfo key above
  have found := find_of_mem sound.linked.distinct inJ
  have other : ¬(j.key = info.key ∨ super.any (fun c => c.linearization.contains j.key) = true) := by
    rintro (own | covered)
    · rw [own] at lower
      omega
    · cases super with
      | none => cases covered
      | some covering => exact uncovered covering rfl (by simpa using covered)
  unfold traitToInit
  rw [if_neg other, found]
  by_cases builtin : j.builtin = true
  · rw [body_of_builtin sound inJ builtin]
    simp [Option.filter, builtin]
  · have isTrait : j.kind = .trait_ := by
      cases kind : j.kind with
      | class_ =>
        have user : j.userClass = true := by simp [ClassInfo.userClass, kind, builtin]
        rw [user_class_find sound.linked inJ user] at noClass
        cases noClass
      | trait_ => rfl
      | object_ => exact absurd kind notObject
    cases hasInit : j.hasInit with
    | true => simp [Option.filter, builtin, isTrait, hasInit]
    | false =>
      obtain ⟨c, inClasses, rfl⟩ := sound.every j inJ (by simpa using builtin)
      rw [body_of_class sound inClasses,
        statements_without_init (sound.recorded c inClasses) hasInit]
      simp [Option.filter, hasInit]

theorem trait_bodies (sound : Sound s) {info : ClassInfo} (inInfo : info ∈ s.types)
    (super : Option ClassInfo) {front : List String}
    (above : ∀ key ∈ front, key ∈ info.linearization.tail)
    (uncovered : ∀ key ∈ front, ∀ covering, super = some covering →
      key ∉ covering.linearization)
    (noClass : ∀ key ∈ front, findUserClass s.types key = none) :
    (front.reverse.filterMap (traitToInit s.types info super)).flatMap
      (fun tr => bodyOf s.classes tr.key) = front.reverse.flatMap (bodyOf s.classes) := by
  rw [flat_map_filter_map]
  refine List.flatMap_congr ?_
  intro key member
  have inFront := List.mem_reverse.mp member
  exact uncovered_body sound inInfo (above key inFront) (uncovered key inFront)
    (noClass key inFront)

theorem traits_run (sound : Sound s) (info : ClassInfo) (super : Option ClassInfo) :
    List.Forall₂ (fun call trace => Runs s.classes call.1 call.2 trace)
      ((traitsToInit s.types info super).map fun tr => (tr.key, CtorKey.primary))
      ((traitsToInit s.types info super).map fun tr => bodyOf s.classes tr.key) := by
  rw [List.forall₂_map_left_iff, List.forall₂_map_right_iff, List.forall₂_same]
  intro tr member
  obtain ⟨key, -, picked⟩ := List.mem_filterMap.mp member
  unfold traitToInit at picked
  split at picked
  · cases picked
  · obtain ⟨found, kept⟩ := Option.filter_eq_some_iff.mp picked
    simp only [Bool.and_eq_true, beq_iff_eq, Bool.not_eq_eq_eq_not, Bool.not_true] at kept
    obtain ⟨⟨isTrait, user⟩, hasInit⟩ := kept
    obtain ⟨c, inClasses, rfl⟩ := sound.every tr (find_some found).1 user
    exact trait_runs sound inClasses isTrait hasInit

theorem traits_are_traits (types : List ClassInfo) (info : ClassInfo) (super : Option ClassInfo) :
    ∀ tr ∈ traitsToInit types info super, tr.kind = .trait_ := by
  intro tr member
  obtain ⟨key, -, picked⟩ := List.mem_filterMap.mp member
  unfold traitToInit at picked
  split at picked
  · cases picked
  · have kept := (Option.filter_eq_some_iff.mp picked).2
    simp only [Bool.and_eq_true, beq_iff_eq] at kept
    exact kept.1.1

theorem suffix_tail {types : List ClassInfo} (linked : Linked types) {info super : ClassInfo}
    (inInfo : info ∈ types) (chosen : superclassOf types info = some super)
    (suffix : super.linearization <:+ info.linearization) :
    ∃ front, info.linearization.tail = front ++ super.linearization := by
  obtain ⟨front, split⟩ := suffix
  cases front with
  | nil =>
    -- the superclass would be the template itself
    obtain ⟨inSuper, -, above⟩ := superclass_some chosen
    obtain ⟨-, -, -, -, lower⟩ := linked.known info inInfo super.key above
    have same : super.key = info.key := by
      have heads := congrArg List.head? split
      rw [List.nil_append, linked.headed super inSuper, linked.headed info inInfo] at heads
      exact Option.some.inj heads
    rw [same] at lower
    omega
  | cons first front =>
    refine ⟨front, ?_⟩
    rw [← split]
    rfl

/-- The front of the linearization, before the superclass's, has no class in it. -/
theorem front_has_no_class (linked : Linked s.types) {info super : ClassInfo}
    (inInfo : info ∈ s.types) (chosen : superclassOf s.types info = some super)
    {front : List String} (split : info.linearization.tail = front ++ super.linearization) :
    ∀ key ∈ front, findUserClass s.types key = none ∧ key ∉ super.linearization := by
  have nodup : (front ++ super.linearization).Nodup := by
    rw [← split]
    exact (linked.nodup info inInfo).tail
  have apart := (List.nodup_append.mp nodup).2.2
  have inSuper := (superclass_some chosen).1
  have no_first : front.findSome? (findUserClass s.types) = none := by
    cases found : front.findSome? (findUserClass s.types) with
    | none => rfl
    | some other =>
      unfold superclassOf at chosen
      rw [split, List.findSome?_append, found] at chosen
      cases chosen
      obtain ⟨key, inFront, byKey⟩ := List.exists_of_findSome?_eq_some found
      have same := (find_some (user_class_some.mp byKey).1).2
      refine absurd rfl (apart key inFront key ?_)
      rw [← same, linked.headed super inSuper]
      exact List.mem_cons_self
  intro key inFront
  refine ⟨List.findSome?_eq_none_iff.mp no_first key inFront, ?_⟩
  intro inherits
  exact apart key inFront key inherits rfl

/-- The traits of a linearization with nothing but its own key and the part that the
superclass covers left out. -/
theorem traits_to_init_eq {info : ClassInfo} {super : Option ClassInfo}
    {front covered : List String} (shape : info.linearization = info.key :: (front ++ covered))
    (covers : ∀ key ∈ covered, ∃ covering, super = some covering ∧
      key ∈ covering.linearization) (types : List ClassInfo) :
    traitsToInit types info super =
      front.reverse.filterMap (traitToInit types info super) := by
  have own : traitToInit types info super info.key = none := if_pos (.inl rfl)
  have none : covered.reverse.filterMap (traitToInit types info super) = [] := by
    rw [List.filterMap_eq_nil_iff]
    intro key member
    obtain ⟨covering, rfl, inherits⟩ := covers key (List.mem_reverse.mp member)
    exact if_pos (.inr (by simpa using inherits))
  unfold traitsToInit
  rw [shape, List.reverse_cons, List.reverse_append, List.filterMap_append,
    List.filterMap_append, none]
  simp [own]

/-- The primary constructor runs the bodies of the whole linearization, given that the
superclass's constructors run theirs. -/
theorem primary_runs (sound : Sound s) {c : CompiledClass} (member : c ∈ s.classes)
    (notTrait : c.info.kind ≠ .trait_)
    (suffix : ∀ super, superclassOf s.types c.info = some super →
      super.linearization <:+ c.info.linearization)
    (super_runs : ∀ super, superclassOf s.types c.info = some super →
      ∀ ctor, Takes super ctor → Runs s.classes super.key ctor (bodiesOf s.classes super)) :
    Runs s.classes c.info.key .primary (bodiesOf s.classes c.info) := by
  have recorded := sound.recorded c member
  have inInfo := recorded.described
  have headed := sound.linked.headed c.info inInfo
  obtain ⟨calls, calls_eq, primary⟩ :=
    (compile_template_ok recorded.compiled).1 (has_init_of_class recorded notTrait)
  have has : c.constructor? .primary = some ⟨calls, c.template.statements⟩ := primary
  have found := find_class_of_mem sound member
  unfold compileCalls at calls_eq
  rw [if_neg notTrait] at calls_eq
  simp only at calls_eq
  cases chosen : superclassOf s.types c.info with
  | none =>
    rw [chosen] at calls_eq
    simp only [compileSuperInit] at calls_eq
    cases inits : compileTraitInits c.template (traitsToInit s.types c.info none) with
    | error message => simp [inits, Except.map] at calls_eq
    | ok traits =>
      simp only [inits, Except.map, Except.ok.injEq, List.nil_append] at calls_eq
      subst calls_eq
      rw [compile_trait_inits_ok (traits_are_traits _ _ _) inits] at has
      have runs := runs_constructor found has (traits_run sound c.info none)
      have shape : c.info.linearization =
          c.info.key :: (c.info.linearization.tail ++ []) := by rw [List.append_nil, ← headed]
      have bodies := trait_bodies sound inInfo none
        (fun key inTail => inTail) (fun key _ covering absurd => by cases absurd)
        (List.findSome?_eq_none_iff.mp chosen)
      rw [← traits_to_init_eq shape (by simp)] at bodies
      unfold bodiesOf
      rw [headed, List.reverse_cons, List.flatMap_append, ← bodies, List.flatMap_singleton,
        body_of_class sound member, List.flatMap_def]
      exact runs
  | some super =>
    rw [chosen] at calls_eq
    obtain ⟨inSuper, user, -⟩ := superclass_some chosen
    have isClass : super.kind = .class_ := by
      simp only [ClassInfo.userClass, Bool.and_eq_true, beq_iff_eq] at user
      exact user.1
    cases first : compileSuperInit c.template (some super) with
    | error message => simp [first] at calls_eq
    | ok superCalls =>
      obtain ⟨ctor, takes, rfl⟩ := compile_super_init_ok first isClass
      simp only [first] at calls_eq
      cases inits : compileTraitInits c.template
          (traitsToInit s.types c.info (some super)) with
      | error message => simp [inits, Except.map] at calls_eq
      | ok traits =>
        simp only [inits, Except.map, Except.ok.injEq, List.singleton_append] at calls_eq
        subst calls_eq
        rw [compile_trait_inits_ok (traits_are_traits _ _ _) inits] at has
        have runs := runs_constructor found has
          (.cons (super_runs super chosen ctor takes) (traits_run sound c.info (some super)))
        obtain ⟨front, split⟩ := suffix_tail (sound.linked) inInfo chosen (suffix super chosen)
        have apart := front_has_no_class sound.linked inInfo chosen split
        have shape : c.info.linearization =
            c.info.key :: (front ++ super.linearization) := by rw [← split, ← headed]
        have bodies := trait_bodies sound inInfo (some super)
          (fun key inFront => split ▸ List.mem_append_left _ inFront)
          (fun key inFront covering same => by
            cases same
            exact (apart key inFront).2)
          (fun key inFront => (apart key inFront).1)
        rw [← traits_to_init_eq shape (fun key inherits => ⟨super, rfl, inherits⟩)] at bodies
        have whole : bodiesOf s.classes c.info =
            bodiesOf s.classes super ++ ((traitsToInit s.types c.info (some super)).map
              fun tr => bodyOf s.classes tr.key).flatten ++
              c.template.statements.map (c.info.key, ·) := by
          unfold bodiesOf
          rw [shape, List.reverse_cons, List.reverse_append, List.flatMap_append,
            List.flatMap_append, ← bodies, List.flatMap_singleton, body_of_class sound member]
          rfl
        rw [whole]
        exact runs

/-! ## Chains of constructors -/

theorem reaches_runs (sound : Sound s) {c : CompiledClass} (member : c ∈ s.classes)
    {trace : List (String × String)} (runs : Runs s.classes c.info.key .primary trace)
    {ctor : CtorKey} (reaches : ReachesPrimary c ctor) :
    Runs s.classes c.info.key ctor trace := by
  have aux := (compile_template_ok (sound.recorded c member).compiled).2
  induction reaches with
  | primary => exact runs
  | aux found call later ih =>
    have each : List.Forall₂ (fun (call : InitCall) trace => Runs s.classes call.1 call.2 trace)
        [(c.info.key, _)] [trace] := .cons ih .nil
    rw [← call] at each
    have whole := runs_constructor (find_class_of_mem sound member) found each
    obtain ⟨before, after, split, -⟩ := List.lookup_eq_some_iff.mp found
    have plain := compile_aux_plain aux (_, _) (split ▸ List.mem_append_right _ (.head _))
    simp only at plain
    rw [plain] at whole
    simpa using whole

/-- The constructors of a class. -/
def ctors (info : ClassInfo) : Set CtorKey :=
  {ctor | ctor = .primary ∨ ∃ arity ∈ info.auxArities, ctor = .aux arity}

theorem ctors_finite (info : ClassInfo) : (ctors info).Finite := by
  have listed : ctors info ⊆
      {ctor | ctor ∈ CtorKey.primary :: info.auxArities.map CtorKey.aux} := by
    rintro ctor (rfl | ⟨arity, inside, rfl⟩)
    · exact List.mem_cons_self
    · exact List.mem_cons_of_mem _ (List.mem_map_of_mem inside)
  exact (List.finite_toSet _).subset listed

theorem ctor_key_for_ok {info : ClassInfo} {argc : Nat} {ctor : CtorKey}
    (ok : ctorKeyFor info argc = .ok ctor) : ctor ∈ ctors info := by
  unfold ctorKeyFor at ok
  split at ok
  · cases ok
    exact .inl rfl
  · split at ok
    · rename_i inside
      cases ok
      exact .inr ⟨argc, inside, rfl⟩
    · cases ok

theorem delegate_closed (t : TemplateDef) (info : ClassInfo) :
    ∀ ctor ∈ ctors info, ∀ other, delegate t info ctor = some other → other ∈ ctors info := by
  intro ctor _ other step
  cases ctor with
  | primary => cases step
  | aux arity =>
    simp only [delegate] at step
    cases found : t.auxConstructors.lookup arity with
    | none => simp [found] at step
    | some body =>
      cases body with
      | missing => simp [found] at step
      | noSelfCall => simp [found] at step
      | selfCall args =>
        simp only [found] at step
        cases picked : ctorKeyFor info args with
        | error message => simp [picked, Except.toOption] at step
        | ok key =>
          simp only [picked, Except.toOption, Option.some.injEq] at step
          exact step ▸ ctor_key_for_ok picked

/-- The constructor of a class that a number of parameters names, as it was compiled. -/
theorem aux_compiled {types : List ClassInfo} {c : CompiledClass} (recorded : Recorded types c)
    (notTrait : c.info.kind ≠ .trait_) {arity : Nat} (inside : arity ∈ c.info.auxArities) :
    ∃ ctor, delegate c.template c.info (.aux arity) = some ctor ∧
      c.constructor? (.aux arity) = some ⟨[(c.info.key, ctor)], []⟩ := by
  have arities : c.info.auxArities = c.template.auxConstructors.map Prod.fst := by
    rw [recorded.constructors]
    rfl
  rw [arities] at inside
  obtain ⟨body, found⟩ : ∃ body, c.template.auxConstructors.lookup arity = some body := by
    rw [← Option.isSome_iff_exists]
    by_contra none
    rw [Option.not_isSome_iff_eq_none, List.lookup_eq_none_iff] at none
    obtain ⟨entry, inList, rfl⟩ := List.mem_map.mp inside
    simpa using none entry inList
  obtain ⟨args, ctor, rfl, picked, compiled⟩ :=
    compile_aux_ok notTrait (compile_template_ok recorded.compiled).2 found
  refine ⟨ctor, ?_, compiled⟩
  simp [delegate, found, picked, Except.toOption]

theorem reaches_iff_ends {types : List ClassInfo} {c : CompiledClass}
    (recorded : Recorded types c) (notTrait : c.info.kind ≠ .trait_) :
    (∀ arity ∈ c.info.auxArities, ReachesPrimary c (.aux arity)) ↔
      ∀ ctor ∈ ctors c.info, Ends (delegate c.template c.info) ctor := by
  constructor
  · intro reaches
    have ends : ∀ ctor, ReachesPrimary c ctor → ctor ∈ ctors c.info →
        Ends (delegate c.template c.info) ctor := by
      intro ctor reached
      induction reached with
      | primary => exact fun _ => .last rfl
      | aux found call later ih =>
        rintro (absurd | ⟨arity, inside, same⟩)
        · cases absurd
        · cases same
          obtain ⟨ctor, step, compiled⟩ := aux_compiled recorded notTrait inside
          rw [found] at compiled
          cases compiled
          cases call
          exact .onward step (ih (delegate_closed _ _ _ (.inr ⟨_, inside, rfl⟩) _ step))
    intro ctor inside
    rcases inside with rfl | ⟨arity, inArities, rfl⟩
    · exact .last rfl
    · exact ends _ (reaches arity inArities) (.inr ⟨arity, inArities, rfl⟩)
  · intro ends
    have reaches : ∀ ctor, Ends (delegate c.template c.info) ctor → ctor ∈ ctors c.info →
        ReachesPrimary c ctor := by
      intro ctor ending
      induction ending with
      | @last ctor none =>
        rintro (rfl | ⟨arity, inside, rfl⟩)
        · exact .primary
        · obtain ⟨ctor, step, -⟩ := aux_compiled recorded notTrait inside
          rw [none] at step
          cases step
      | @onward ctor other some later ih =>
        intro inside
        have inOther := delegate_closed _ _ ctor inside other some
        rcases inside with rfl | ⟨arity, inArities, rfl⟩
        · exact .primary
        · obtain ⟨next, step, compiled⟩ := aux_compiled recorded notTrait inArities
          rw [some] at step
          cases step
          exact .aux compiled rfl (ih inOther)
    intro arity inside
    exact reaches _ (ends _ (.inr ⟨arity, inside, rfl⟩)) (.inr ⟨arity, inside, rfl⟩)

theorem reaches_iff_no_cycle {types : List ClassInfo} {c : CompiledClass}
    (recorded : Recorded types c) (notTrait : c.info.kind ≠ .trait_) :
    (∀ arity ∈ c.info.auxArities, ReachesPrimary c (.aux arity)) ↔
      NoCycle c.template c.info := by
  rw [reaches_iff_ends recorded notTrait,
    ends_iff_not_cycle (ctors_finite c.info) (delegate_closed c.template c.info)]
  constructor
  · intro acyclic arity inside
    exact acyclic _ (.inr ⟨arity, inside, rfl⟩)
  · rintro acyclic ctor (rfl | ⟨arity, inside, rfl⟩)
    · intro cycle
      obtain ⟨other, step, -⟩ := Relation.TransGen.head'_iff.mp cycle
      cases step
    · exact acyclic arity inside

/-! ## Whole sessions -/

/-- Every superclass's linearization is the end of the linearizations below it, by
induction on the order of description. -/
theorem superclass_suffix (sound : Sound s) (led : ∀ c ∈ s.classes, Led s.types c.template) :
    ∀ place, ∀ i ∈ s.types, rank s.types i.key = place →
      ∀ super, superclassOf s.types i = some super →
        super.linearization <:+ i.linearization := by
  intro place
  induction place using Nat.strong_induction_on with
  | _ place ih =>
    intro i inI here super chosen
    cases builtin : i.builtin with
    | true =>
      obtain ⟨inSuper, user, above⟩ := superclass_some chosen
      have outside := native_of_builtin_class sound.linked inI builtin inSuper user
      exact absurd (List.mem_of_mem_tail above) outside
    | false =>
      obtain ⟨c, inClasses, rfl⟩ := sound.every i inI builtin
      have placed := (sound.recorded c inClasses).placed
      refine suffix_of_led sound.linked inI placed (led c inClasses) ?_ chosen
      intro p inP merged
      have above : p.key ∈ c.info.linearization.tail := by
        rw [placed.tail, List.tail_cons, mem_merge_parents]
        refine ⟨p.linearization, merged, ?_⟩
        rw [sound.linked.headed p inP]
        exact List.mem_cons_self
      obtain ⟨-, -, -, -, lower⟩ := sound.linked.known c.info inI p.key above
      exact ih _ (here ▸ lower) p inP rfl

theorem class_runs (sound : Sound s)
    (suffix : ∀ i ∈ s.types, ∀ super, superclassOf s.types i = some super →
      super.linearization <:+ i.linearization)
    (reaches : ∀ c ∈ s.classes, c.info.kind ≠ .trait_ →
      ∀ arity ∈ c.info.auxArities, ReachesPrimary c (.aux arity)) :
    ∀ place, ∀ c ∈ s.classes, rank s.types c.info.key = place → c.info.kind ≠ .trait_ →
      ∀ ctor, Takes c.info ctor →
        Runs s.classes c.info.key ctor (bodiesOf s.classes c.info) := by
  intro place
  induction place using Nat.strong_induction_on with
  | _ place ih =>
    intro c member here notTrait ctor takes
    have inInfo := (sound.recorded c member).described
    have primary : Runs s.classes c.info.key .primary (bodiesOf s.classes c.info) := by
      refine primary_runs sound member notTrait (suffix c.info inInfo) ?_
      intro super chosen ctor takes
      obtain ⟨inSuper, user, above⟩ := superclass_some chosen
      obtain ⟨-, -, -, -, lower⟩ := sound.linked.known c.info inInfo super.key above
      simp only [ClassInfo.userClass, Bool.and_eq_true, beq_iff_eq, Bool.not_eq_eq_eq_not,
        Bool.not_true] at user
      obtain ⟨d, inClasses, rfl⟩ := sound.every super inSuper user.2
      exact ih _ (here ▸ lower) d inClasses rfl (by simp [user.1]) ctor takes
    obtain ⟨argc, picked⟩ := takes
    rcases ctor_key_for_ok picked with rfl | ⟨arity, inside, rfl⟩
    · exact primary
    · exact reaches_runs sound member primary (reaches c member notTrait arity inside)

end

/-- In every session whose types have different keys, and in which the parents before the
one that brings the superclass in add nothing to the end of its linearization, objects are
initialised along the linearization exactly when no auxiliary constructor comes back to
itself. -/
theorem initialisation_follows_linearization (units : List (List TemplateDef)) (s : Session)
    (ran : runUnits units start = .ok s)
    (distinct : (builtinTypes.map ClassInfo.key ++ keysOf units).Nodup)
    (led : ∀ c ∈ s.classes, Led s.types c.template) :
    (∀ c ∈ s.classes, c.info.kind ≠ .trait_ → FollowsLinearization s c) ↔
      ∀ c ∈ s.classes, c.info.kind ≠ .trait_ → NoCycle c.template c.info := by
  have sound : Sound s := sound_run sound_start ran distinct
  constructor
  · intro follows c member notTrait
    exact (reaches_iff_no_cycle (sound.recorded c member) notTrait).mp
      (follows c member notTrait).delegated
  · intro acyclic
    have suffix : ∀ i ∈ s.types, ∀ super, superclassOf s.types i = some super →
        super.linearization <:+ i.linearization :=
      fun i inI => superclass_suffix sound led _ i inI rfl
    have reaches : ∀ c ∈ s.classes, c.info.kind ≠ .trait_ →
        ∀ arity ∈ c.info.auxArities, ReachesPrimary c (.aux arity) :=
      fun c member notTrait =>
        (reaches_iff_no_cycle (sound.recorded c member) notTrait).mpr (acyclic c member notTrait)
    intro c member notTrait
    exact ⟨suffix c.info (sound.recorded c member).described,
      class_runs sound suffix reaches _ c member rfl notTrait, reaches c member notTrait⟩

theorem no_cycle_of_direct {t : TemplateDef} {info : ClassInfo}
    (direct : ∀ arity ∈ info.auxArities, delegate t info (.aux arity) = some .primary) :
    NoCycle t info := by
  intro arity inside cycle
  obtain ⟨other, step, back⟩ := Relation.TransGen.head'_iff.mp cycle
  cases (direct arity inside).symm.trans step
  cases back.cases_head with
  | inl same => cases same
  | inr onward =>
    obtain ⟨next, absurd, -⟩ := onward
    cases absurd

/-- `class A(x) { a; def this() = this(0) }`, `trait T { t }` and
`class B extends A with T { b }`. -/
def layered : List (List TemplateDef) :=
  [[{ name := "A", key := "@A", ctorParams := [{}],
      body := [.statement "a", .auxConstructor 0 (.selfCall 1)] },
    { name := "T", key := "@T", kind := .trait_, body := [.statement "t"] }],
   [{ name := "B", key := "@B", parents := [{ type := "@A" }, { type := "@T" }],
      body := [.statement "b"] }]]

theorem initialisation_of_layered :
    ∃ s, runUnits layered start = .ok s ∧
      (∀ c ∈ s.classes, Led s.types c.template) ∧
      (∀ c ∈ s.classes, c.info.kind ≠ .trait_ → NoCycle c.template c.info) ∧
      ∀ c ∈ s.classes, c.info.kind ≠ .trait_ → FollowsLinearization s c := by
  have facts : ((runUnits layered start).toOption.any fun s =>
      decide ((∀ c ∈ s.classes, Led s.types c.template) ∧
        ∀ c ∈ s.classes, ∀ arity ∈ c.info.auxArities,
          delegate c.template c.info (.aux arity) = some .primary)) = true := by
    decide
  cases ran : runUnits layered start with
  | error message =>
    rw [ran] at facts
    cases facts
  | ok s =>
    rw [ran] at facts
    obtain ⟨led, direct⟩ := of_decide_eq_true facts
    have acyclic : ∀ c ∈ s.classes, c.info.kind ≠ .trait_ → NoCycle c.template c.info :=
      fun c member _ => no_cycle_of_direct (direct c member)
    exact ⟨s, rfl, led, acyclic,
      (initialisation_follows_linearization layered s ran (by decide) led).mpr acyclic⟩

/-- `trait U { u }`, `class A { a }`, `trait T extends A { t }` and
`class C extends U with T { c }`. -/
def traitFirst : List (List TemplateDef) :=
  [[{ name := "U", key := "@U", kind := .trait_, body := [.statement "u"] },
    { name := "A", key := "@A", body := [.statement "a"] },
    { name := "T", key := "@T", kind := .trait_, parents := [{ type := "@A" }],
      body := [.statement "t"] },
    { name := "C", key := "@C", parents := [{ type := "@U" }, { type := "@T" }],
      body := [.statement "c"] }]]

/-- `class D { def this(x) = this(x, x); def this(x, y) = this(x) }`. -/
def circular : List (List TemplateDef) :=
  [[{ name := "D", key := "@D",
      body := [.auxConstructor 1 (.selfCall 2), .auxConstructor 2 (.selfCall 1)] }]]

/-- The last class that a session compiles, with the session. -/
def lastClass (units : List (List TemplateDef)) : Option (Session × CompiledClass) :=
  (runUnits units start).toOption.bind fun s => s.classes.getLast?.map (s, ·)

theorem initialisation_out_of_order :
    (∃ s c, lastClass traitFirst = some (s, c) ∧ c.info.linearization =
        ["@C", "@T", "@A", "@U", "@AnyRef", "@Any"] ∧
      initialise s.classes 2 "@C" .primary =
        some [("@A", "a"), ("@U", "u"), ("@T", "t"), ("@C", "c")] ∧
      bodiesOf s.classes c.info = [("@U", "u"), ("@A", "a"), ("@T", "t"), ("@C", "c")] ∧
      ¬FollowsLinearization s c) ∧
    ∃ s c, lastClass circular = some (s, c) ∧ ¬FollowsLinearization s c := by
  constructor
  · have facts : ((lastClass traitFirst).any fun found =>
        decide (found.2.info.linearization = ["@C", "@T", "@A", "@U", "@AnyRef", "@Any"] ∧
          initialise found.1.classes 2 "@C" .primary =
            some [("@A", "a"), ("@U", "u"), ("@T", "t"), ("@C", "c")] ∧
          bodiesOf found.1.classes found.2.info =
            [("@U", "u"), ("@A", "a"), ("@T", "t"), ("@C", "c")] ∧
          ∃ super ∈ superclassOf found.1.types found.2.info,
            ¬super.linearization <:+ found.2.info.linearization)) = true := by
      decide
    cases found : lastClass traitFirst with
    | none =>
      rw [found] at facts
      cases facts
    | some last =>
      rw [found] at facts
      obtain ⟨lin, ran, bodies, super, chosen, apart⟩ := of_decide_eq_true facts
      exact ⟨last.1, last.2, rfl, lin, ran, bodies,
        fun follows => apart (follows.ends_with_super super chosen)⟩
  · have facts : ((lastClass circular).any fun found =>
        decide (1 ∈ found.2.info.auxArities ∧ found.2.info.key = "@D" ∧
          found.2.aux = [(1, ⟨[("@D", .aux 2)], []⟩), (2, ⟨[("@D", .aux 1)], []⟩)])) = true := by
      decide
    cases found : lastClass circular with
    | none =>
      rw [found] at facts
      cases facts
    | some last =>
      rw [found] at facts
      obtain ⟨inside, key, aux⟩ := of_decide_eq_true facts
      have never : ∀ ctor, ReachesPrimary last.2 ctor → ctor = .primary := by
        intro ctor reaches
        induction reaches with
        | primary => rfl
        | @aux arity constructor ctor found call later ih =>
          subst ih
          simp only [CompiledClass.constructor?, aux, List.lookup_cons, List.lookup_nil] at found
          split at found
          · cases found
            simp [key] at call
          · split at found
            · cases found
              simp [key] at call
            · cases found
      refine ⟨last.1, last.2, rfl, fun follows => ?_⟩
      cases never _ (follows.delegated 1 inside)

end ProtoScala.Compiler.InitialisationOrder
