import ProtoScala.Compiler.PatternFragments

/-!
# The code of a pattern does what the pattern means

Every pattern is compiled to a fragment that matches as the reference does. The
names inside a pattern have to mean what they meant around the match: a variable
that the same pattern binds further to the left hides them.
-/

namespace ProtoScala.Compiler.PatternFaithful

open ProtoScala.Compiler.Bytecode
open ProtoScala.Compiler.Emission
open ProtoScala.Compiler.Patterns
open ProtoScala.Compiler.PatternFragments
open ProtoScala.Runtime.ExecutionEngine
open ProtoScala.Runtime.FrameExecution

set_option autoImplicit false

variable {V W N E : Type} {M : Engine V W N} {X : ExprCompiler M E} {names : Names E}

/-! ## Every pattern does what it means -/

section Sound

variable {isLocal : String → Bool} {caught : Bool}

theorem type_mentions_none {bound : List String} {t : TypeTree} {test : TypeTest E}
    (found : resolveType names isLocal caught t = .ok test)
    (plain : typeUnshadowed X names caught isLocal bound t = true) :
    testMentionsNone X bound test = true := by
  simp only [typeUnshadowed, found] at plain
  cases test with
  | foreign key foreign => exact plain
  | value isInstanceOf type =>
      simp only [Bool.and_eq_true] at plain
      simp only [testMentionsNone, Bool.and_eq_true]
      exact plain.1
  | _ => rfl

theorem type_test_none {test : TypeTest E} {slot free needed : Nat} {scopes : Scopes}
    (compiled : compileTypeTest X test slot scopes free = .ok (none, needed)) :
    test = .any ∧ needed = free := by
  cases test with
  | any =>
      simp only [compileTypeTest, pure_ok, Prod.mk.injEq] at compiled
      exact ⟨rfl, compiled.2.symm⟩
  | foreign key foreign =>
      simp only [compileTypeTest, bind_ok, pure_ok] at compiled
      obtain ⟨_, -, same⟩ := compiled
      cases same
  | value isInstanceOf type =>
      simp only [compileTypeTest, bind_ok, pure_ok] at compiled
      obtain ⟨_, -, _, -, same⟩ := compiled
      cases same
  | _ =>
      simp only [compileTypeTest, pure_ok] at compiled
      cases compiled

theorem compare_sound {bound : List String} {scopes : Scopes} {free needed slot : Nat} {e : E}
    {code : List Instr} (compiled : X.compileExpr e scopes free = .ok (code, needed))
    (plain : mentionsNone X bound e = true) :
    FragmentSound M bound scopes free scopes needed
      (instrs (code ++ [Instr.pushLocal slot, .eq]) ++ [Item.fail false]) [slot]
      (single M fun env v => do
        let expected ← X.eval e env
        if ← asks M (M.operate .eq [expected, v]) then pure (some []) else pure none) := by
  refine single_congr (fragment_ask (equal_value compiled plain) fun _ _ => rfl) fun env v => ?_
  simp [single, guarded, asks]

/-- A type pattern around a pattern that is sound. -/
theorem typed_sound {bound : List String} {scopes scopes' : Scopes} {free n needed slot : Nat}
    {type : TypeTree} {test : TypeTest E} {code : Option (List Instr)} {items : List Item}
    {p : Pattern E} (agree : ∀ x, x ∉ bound → isLocalIn scopes x = isLocal x)
    (plain : typeUnshadowed X names caught isLocal bound type = true)
    (resolved : resolveType names (isLocalIn scopes) caught type = .ok test)
    (tested : compileTypeTest X test slot scopes free = .ok (code, n)) (grows : n ≤ needed)
    (inner : FragmentSound M bound scopes n scopes' needed items [slot]
      (single M fun env v => matchPattern X names caught env p v)) :
    FragmentSound M bound scopes free scopes' needed (testItems code ++ items) [slot]
      (single M fun env v => matchPattern X names caught env (.typed type p) v) := by
  have found := (resolve_type_congr agree plain).symm.trans resolved
  have guardedSound : FragmentSound M bound scopes free scopes' needed (testItems code ++ items)
      [slot] (single M fun env v =>
        guarded (evalTypeTest X env v test) (matchPattern X names caught env p v)) := by
    cases code with
    | none =>
        obtain ⟨rfl, rfl⟩ := type_test_none tested
        exact inner
    | some code =>
        exact fragment_guard (type_test_grows tested) grows
          (type_test_sound tested (type_mentions_none found plain)) inner
  refine fragment_congr_locals guardedSound fun env values locals => ?_
  have same : resolveType names (fun x => (env x).isSome) caught type = .ok test :=
    (resolve_type_congr (fun x absent => (locals x absent).trans (agree x absent)) plain).trans found
  simp only [single, matchPattern, same]
  rfl

/-- A custom extractor without arguments: the answer of `unapply` decides. -/
theorem unapply_sound {bound : List String} {scopes : Scopes} {free result slot : Nat} {e : E}
    {code : List Instr} (compiled : X.compileExpr e scopes free = .ok (code, result))
    (plain : mentionsNone X bound e = true) :
    FragmentSound M bound scopes free scopes (result + 1)
      (instrs (code ++ [Instr.pushLocal slot, .send (sendSite "unapply" 1), .storeLocal result,
        .pushLocal result]) ++ [Item.fail false]) [slot]
      (single M fun env v => do
        let extractor ← X.eval e env
        let answer ← outside (sends M "unapply" 1 [extractor, v])
        if ← outside (M.truthy answer) then pure (some []) else pure none) := by
  have asked : FragmentSound M bound scopes (result + 1) scopes (result + 1)
      (instrs [.pushLocal result] ++ [Item.fail false]) [result]
      (single M fun _ v => guarded (outside (M.truthy v)) (pure (some []))) :=
    fragment_ask load_value fun _ _ => rfl
  have answer : ValueSound M bound scopes free result _ [slot] _ := unapply_value compiled plain
  have whole := fragment_kept (X.grows compiled) (Nat.le_refl _) answer (fun _ _ => rfl) asked
  have items : instrs (code ++ [Instr.pushLocal slot, .send (sendSite "unapply" 1),
      .storeLocal result, .pushLocal result]) ++ [Item.fail false] =
      instrs (code ++ [Instr.pushLocal slot, .send (sendSite "unapply" 1)] ++
        [Instr.storeLocal result]) ++ (instrs [Instr.pushLocal result] ++ [Item.fail false]) := by
    simp [instrs]
  rw [items]
  refine single_congr whole fun env v => ?_
  simp [single, guarded]

/-- A custom extractor with arguments: `unapply`, `isEmpty`, `get`, and the rest. -/
theorem get_sound {bound : List String} {scopes scopes' : Scopes} {free result needed slot : Nat}
    {e : E} {code : List Instr} {items : List Item}
    {g : Env V → V → Eval V (Machine V W) (Bindings V)}
    (compiled : X.compileExpr e scopes free = .ok (code, result))
    (plain : mentionsNone X bound e = true) (grows : result + 2 ≤ needed)
    (rest : FragmentSound M bound scopes (result + 2) scopes' needed items [result + 1]
      (single M g)) :
    FragmentSound M bound scopes free scopes' needed
      (instrs (code ++ [Instr.pushLocal slot, .send (sendSite "unapply" 1), .storeLocal result,
        .pushLocal result]) ++ instrs [.send (sendSite "isEmpty" 0)] ++ [Item.fail true] ++
        instrs [.pushLocal result, .send (sendSite "get" 0), .storeLocal (result + 1)] ++ items)
      [slot]
      (single M fun env v => do
        let extractor ← X.eval e env
        let answer ← outside (sends M "unapply" 1 [extractor, v])
        if ← asks M (sends M "isEmpty" 0 [answer]) then pure none
        else
          let got ← outside (sends M "get" 0 [answer])
          g env got) := by
  have taken : FragmentSound M bound scopes (result + 1) scopes' needed
      (instrs ([Instr.pushLocal result, .send (sendSite "get" 0)] ++
        [Instr.storeLocal (result + 1)]) ++ items)
      [result] (single M fun env v => do
        let got ← outside (sends M "get" 0 [v])
        g env got) :=
    fragment_kept (Nat.le_refl _) grows send_value (fun _ _ => rfl) rest
  have filled : FragmentSound M bound scopes (result + 1) scopes (result + 1)
      (instrs [.pushLocal result, .send (sendSite "isEmpty" 0)] ++ [Item.fail true]) [result]
      (single M fun _ v => guarded (do
        let empty ← asks M (sends M "isEmpty" 0 [v])
        pure (!empty)) (pure (some []))) := by
    refine single_congr (fragment_test true send_value) fun env v => ?_
    simp [asks]
  have guardedRest := fragment_guard (Nat.le_refl _) (by omega) filled taken
  have answer : ValueSound M bound scopes free result _ [slot] _ := unapply_value compiled plain
  have whole := fragment_kept (X.grows compiled) (by omega) answer (fun _ _ => rfl) guardedRest
  have sameItems : instrs (code ++ [Instr.pushLocal slot, .send (sendSite "unapply" 1),
      .storeLocal result, .pushLocal result]) ++ instrs [.send (sendSite "isEmpty" 0)] ++
      [Item.fail true] ++
      instrs [.pushLocal result, .send (sendSite "get" 0), .storeLocal (result + 1)] ++ items =
      instrs (code ++ [Instr.pushLocal slot, .send (sendSite "unapply" 1)] ++
        [Instr.storeLocal result]) ++
      (instrs [.pushLocal result, .send (sendSite "isEmpty" 0)] ++ [Item.fail true] ++
        (instrs ([Instr.pushLocal result, .send (sendSite "get" 0)] ++
          [Instr.storeLocal (result + 1)]) ++ items)) := by
    simp [instrs]
  rw [sameItems]
  refine single_congr whole fun env v => ?_
  · simp only [single, guarded, bind_assoc, pure_bind]
    congr 1
    funext extractor
    congr 1
    funext answer
    congr 1
    funext empty
    cases empty <;> rfl

/-- A list with the number of elements that the patterns need. -/
theorem list_test_sound {bound : List String} {scopes scopes' : Scopes} {free needed slot : Nat}
    {args : List (Pattern E)} {items : List Item}
    {g : Env V → V → Eval V (Machine V W) (Bindings V)} (grows : free ≤ needed)
    (rest : FragmentSound M bound scopes free scopes' needed items [slot] (single M g)) :
    FragmentSound M bound scopes free scopes' needed (listTest args slot ++ items) [slot]
      (single M fun env v => do
        if ← asks M (M.primitive (.testType .list) [v]) then
          let length ← outside (sends M "length" 0 [v])
          let count ← outside (number M (fixedCount args))
          if ← asks M (M.operate (if endsInRest args then .ge else .eq) [length, count]) then g env v
          else pure none
        else pure none) := by
  have comparison : (((if endsInRest args then Operator.ge else .eq) = .ge ∧
      (if endsInRest args then Instr.ge else .eq) = .ge) ∨
      ((if endsInRest args then Operator.ge else .eq) = .eq ∧
      (if endsInRest args then Instr.ge else .eq) = .eq)) := by
    cases endsInRest args <;> simp
  have isList : FragmentSound M bound scopes free scopes free
      (instrs [.pushLocal slot, .testType .list] ++ [Item.fail false]) [slot] _ :=
    fragment_ask (test_value (.inl ⟨_, rfl, rfl⟩)) fun _ _ => rfl
  have long : FragmentSound M bound scopes free scopes free
      (instrs [.pushLocal slot, .send (sendSite "length" 0), .pushConst (intConst (fixedCount args)),
        if endsInRest args then .ge else .eq] ++ [Item.fail false]) [slot] _ :=
    fragment_ask (length_value comparison) fun _ _ => rfl
  have whole := fragment_guard (Nat.le_refl _) grows isList
    (fragment_guard (Nat.le_refl _) grows long rest)
  have sameItems : listTest args slot ++ items =
      instrs [.pushLocal slot, .testType .list] ++ [Item.fail false] ++
        (instrs [.pushLocal slot, .send (sendSite "length" 0),
          .pushConst (intConst (fixedCount args)), if endsInRest args then .ge else .eq] ++
          [Item.fail false] ++ items) := by
    simp [listTest]
  rw [sameItems]
  refine single_congr whole fun env v => ?_
  simp [single, guarded, asks]

theorem locals_after {bound vars : List String} {scopes scopes' : Scopes} {free needed : Nat}
    (declares : Declares vars scopes free scopes' needed)
    (agree : ∀ x, x ∉ bound → isLocalIn scopes x = isLocal x) :
    ∀ x, x ∉ bound ++ vars → isLocalIn scopes' x = isLocal x := by
  intro x absent
  simp only [List.mem_append, not_or] at absent
  rw [isLocalIn, declares.others x absent.2]
  exact agree x absent.1

theorem fragment_fields {bound : List String} {scopes scopes' : Scopes} {free needed : Nat}
    {keys : List String} {items : List Item}
    {ref : Env V → List V → Eval V (Machine V W) (Bindings V)} (slot : Nat)
    (grows : free + keys.length ≤ needed)
    (rest : FragmentSound M bound scopes (free + keys.length) scopes' needed items
      (extractSlots keys.length free) ref) :
    FragmentSound M bound scopes free scopes' needed
      (instrs (extractCode keys slot free) ++ items) [slot]
      (single M fun env v => do
        let fields ← outside (readFields M keys v)
        ref env fields) :=
  fragment_parts grows extract_fresh (extract_store keys) rest

/-- The marker of a class and the fields of its values. -/
theorem class_sound {bound : List String} {scopes scopes' : Scopes} {free needed slot : Nat}
    {key : String} {keys : List String} {items : List Item}
    {ref : Env V → List V → Eval V (Machine V W) (Bindings V)}
    (grows : free + keys.length ≤ needed)
    (rest : FragmentSound M bound scopes (free + keys.length) scopes' needed items
      (extractSlots keys.length free) ref) :
    FragmentSound M bound scopes free scopes' needed
      (protoTest key slot ++ instrs (extractCode keys slot free) ++ items) [slot]
      (single M fun env v => do
        if ← asks M (M.primitive (.testProto (symbolConst key)) [v]) then
          let fields ← outside (readFields M keys v)
          ref env fields
        else pure none) := by
  have marked : FragmentSound M bound scopes free scopes free (protoTest key slot) [slot] _ :=
    fragment_ask (test_value (.inr ⟨_, rfl, rfl⟩)) fun _ _ => rfl
  have whole := fragment_guard (Nat.le_refl _) (by omega) marked (fragment_fields slot grows rest)
  rw [List.append_assoc]
  exact whole

/-- What the value of a slot answers to a message with a number, and a fragment
that matches it. -/
theorem fragment_sent {bound : List String} {scopes scopes' : Scopes} {free needed : Nat}
    {items : List Item} {g : Env V → V → Eval V (Machine V W) (Bindings V)} (name : String)
    (n slot : Nat) (grows : free + 1 ≤ needed)
    (rest : FragmentSound M bound scopes (free + 1) scopes' needed items [free] (single M g)) :
    FragmentSound M bound scopes free scopes' needed
      (instrs [.pushLocal slot, .pushConst (intConst n), .send (sendSite name 1),
        .storeLocal free] ++ items) [slot]
      (single M fun env v => do
        let k ← outside (number M n)
        let answer ← outside (sends M name 1 [v, k])
        g env answer) := by
  have sent : ValueSound M bound scopes free free
      [.pushLocal slot, .pushConst (intConst n), .send (sendSite name 1)] [slot] _ :=
    send_number_value
  refine single_congr (fragment_kept (Nat.le_refl _) grows sent (fun _ _ => rfl) rest)
    fun env v => ?_
  simp [single]

theorem cons_sound {bound : List String} {scopes scopes' : Scopes} {free needed slot : Nat}
    {items : List Item} {ref : Env V → List V → Eval V (Machine V W) (Bindings V)}
    (grows : free + 2 ≤ needed)
    (rest : FragmentSound M bound scopes (free + 2) scopes' needed items [free + 1, free] ref) :
    FragmentSound M bound scopes free scopes' needed
      (instrs [.pushLocal slot, .testType .consList] ++ [Item.fail false] ++
        instrs [.pushLocal slot, .uncons, .storeLocal free, .storeLocal (free + 1)] ++ items) [slot]
      (single M fun env v => do
        if ← asks M (M.primitive (.testType .consList) [v]) then
          let parts ← outside (unconsOf M v)
          ref env parts
        else pure none) := by
  have filled : FragmentSound M bound scopes free scopes free
      (instrs [.pushLocal slot, .testType .consList] ++ [Item.fail false]) [slot] _ :=
    fragment_ask (test_value (.inl ⟨_, rfl, rfl⟩)) fun _ _ => rfl
  have fresh : ∀ slot ∈ [free + 1, free], free ≤ slot ∧ slot < free + 2 := by
    intro slot member
    simp only [List.mem_cons, List.not_mem_nil, or_false] at member
    omega
  have whole := fragment_guard (Nat.le_refl _) (by omega) filled
    (fragment_parts grows fresh uncons_store rest)
  rw [List.append_assoc]
  exact whole

/-- An extractor's name is resolved around the match as it is in the pattern. -/
theorem extractor_locals {bound : List String} {scopes : Scopes} {name : String} {e : E}
    {ident : Bool} {args : Nat} {kind : Extractor}
    (agree : ∀ x, x ∉ bound → isLocalIn scopes x = isLocal x)
    (plain : extractorUnshadowed X names isLocal bound name e ident args = true)
    (resolved : resolveExtractor names (isLocalIn scopes) name ident args = .ok kind) (env : Env V)
    (locals : ∀ x, x ∉ bound → (env x).isSome = isLocalIn scopes x) :
    resolveExtractor names (fun x => (env x).isSome) name ident args = .ok kind := by
  have inside := resolve_extractor_congr agree plain
  have around := resolve_extractor_congr (fun x absent => (locals x absent).trans (agree x absent))
    plain
  rw [around, ← inside, resolved]

theorem custom_mentions_none {bound : List String} {scopes : Scopes} {name : String} {e : E}
    {ident : Bool} {args : Nat} (agree : ∀ x, x ∉ bound → isLocalIn scopes x = isLocal x)
    (plain : extractorUnshadowed X names isLocal bound name e ident args = true)
    (resolved : resolveExtractor names (isLocalIn scopes) name ident args = .ok .custom) :
    mentionsNone X bound e = true := by
  rw [resolve_extractor_congr agree plain] at resolved
  simp only [extractorUnshadowed, resolved, Bool.and_eq_true] at plain
  exact plain.2

mutual

theorem pattern_sound : ∀ (p : Pattern E) {caught : Bool} {bound : List String} {slot : Nat}
    {scopes : Scopes} {free : Nat} {items : List Item} {scopes' : Scopes} {needed : Nat},
    compilePattern X names caught p slot scopes free = .ok (items, scopes', needed) →
    (∀ x, x ∉ bound → isLocalIn scopes x = isLocal x) →
    unshadowed X names caught isLocal bound p = true →
    FragmentSound M bound scopes free scopes' needed items [slot]
      (single M fun env v => matchPattern X names caught env p v)
  | .wildcard, _, _, _, _, _, _, _, _, compiled, _, _ => by
      simp only [compilePattern, pure_ok] at compiled
      cases compiled
      exact fragment_nil
  | .var name, _, bound, slot, scopes, free, _, _, _, compiled, _, _ => by
      simp only [compilePattern, pure_ok] at compiled
      have sound : FragmentSound M bound scopes free (bindPattern name slot scopes free).2.1
        (bindPattern name slot scopes free).2.2 (bindPattern name slot scopes free).1 [slot] _ :=
        bind_sound name
      rw [compiled] at sound
      exact sound
  | .literal e, _, _, _, _, _, _, _, _, compiled, _, plain => by
      simp only [compilePattern, bind_ok, pure_ok] at compiled
      obtain ⟨⟨code, n⟩, expr, same⟩ := compiled
      cases same
      exact compare_sound expr plain
  | .stable e, _, _, _, _, _, _, _, _, compiled, _, plain => by
      simp only [compilePattern, bind_ok, pure_ok] at compiled
      obtain ⟨⟨code, n⟩, expr, same⟩ := compiled
      cases same
      exact compare_sound expr plain
  | .typed type p, _, _, _, _, _, _, _, _, compiled, agree, plain => by
      simp only [compilePattern, bind_ok, pure_ok] at compiled
      obtain ⟨test, resolved, ⟨code, n⟩, tested, ⟨inner, scopes, m⟩, rest, same⟩ := compiled
      cases same
      simp only [unshadowed, Bool.and_eq_true] at plain
      exact typed_sound agree plain.1 resolved tested (pattern_declares p rest).grows
        (pattern_sound p rest agree plain.2)
  | .bind name p, _, _, slot, _, _, _, _, _, compiled, agree, plain => by
      simp only [compilePattern, bind_ok, pure_ok] at compiled
      obtain ⟨⟨inner, scopes, n⟩, rest, same⟩ := compiled
      have binds := bind_declares name slot scopes n
      simp only [Prod.mk.injEq] at same
      obtain ⟨rfl, rfl, rfl⟩ := same
      refine single_congr (fragment_then (pattern_declares p rest) binds.grows
        (pattern_sound p rest agree plain) (bind_sound name)) fun env v => ?_
      simp only [single, both, matchPattern, List.headD_cons]
      congr 1
      funext result
      cases result <;> rfl
  | .alt first others, _, _, _, _, _, _, _, _, compiled, agree, plain => by
      simp only [compilePattern, bind_ok] at compiled
      obtain ⟨_, checked, ⟨inner, scopes, n⟩, one, rest⟩ := compiled
      simp only [unshadowed, Bool.and_eq_true] at plain
      have declares := pattern_declares first one
      rw [check_no_variables checked] at declares
      refine single_congr (alternatives_sound others rest agree plain.2 declares
        (pattern_sound first one agree plain.1)) fun env v => ?_
      simp only [single, matchPattern, List.headD_cons]
  | .tuple args, _, _, _, _, _, _, _, _, compiled, agree, plain => by
      simp only [compilePattern] at compiled
      split at compiled
      · cases compiled
      simp only [bind_ok, pure_ok] at compiled
      obtain ⟨⟨inner, scopes, n⟩, rest, same⟩ := compiled
      cases same
      have lengths : (tupleKeys args.length).length = args.length := by simp [tupleKeys]
      exact class_sound (all_declares args rest).grows (all_sound args rest agree plain)
  | .extractor name e ident args, _, _, slot, _, _, _, _, _, compiled, agree, plain => by
      simp only [compilePattern, bind_ok] at compiled
      obtain ⟨kind, resolved, rest⟩ := compiled
      simp only [unshadowed, Bool.and_eq_true] at plain
      have meaning := fun env : Env V => extractor_locals agree plain.1 resolved env
      cases kind with
      | cons =>
          simp only [bind_ok, pure_ok] at rest
          obtain ⟨⟨inner, scopes, n⟩, rest, same⟩ := rest
          cases same
          refine fragment_congr_locals (cons_sound (all_declares args rest).grows
            (all_sound args rest agree plain.2)) fun env values locals => ?_
          simp only [single, matchPattern, meaning env locals]
      | list =>
          simp only [bind_ok, pure_ok] at rest
          obtain ⟨⟨inner, scopes, n⟩, rest, same⟩ := rest
          cases same
          refine fragment_congr_locals (list_test_sound (elements_declares args rest).grows
            (elements_sound args rest agree plain.2)) fun env values locals => ?_
          simp only [single, matchPattern, meaning env locals]
      | fields key keys =>
          simp only [bind_ok, pure_ok] at rest
          obtain ⟨⟨inner, scopes, n⟩, rest, same⟩ := rest
          cases same
          refine fragment_congr_locals (class_sound (all_declares args rest).grows
            (all_sound args rest agree plain.2)) fun env values locals => ?_
          simp only [single, matchPattern, meaning env locals]
      | custom =>
          simp only [bind_ok] at rest
          obtain ⟨⟨code, result⟩, expr, rest⟩ := rest
          have silent := custom_mentions_none agree plain.1 resolved
          dsimp only at rest
          split at rest
          next empty =>
            simp only [pure_ok] at rest
            cases rest
            refine fragment_congr_locals (unapply_sound expr silent) fun env values locals => ?_
            simp only [single, matchPattern, meaning env locals, empty, if_true]
          next filled =>
            split at rest
            next one =>
              simp only [bind_ok, pure_ok] at rest
              obtain ⟨⟨inner, scopes, n⟩, rest, same⟩ := rest
              cases same
              have sound := all_sound args rest agree plain.2
              refine fragment_congr_locals (get_sound expr silent (all_declares args rest).grows
                (single_congr sound fun _ _ => rfl)) fun env values locals => ?_
              simp only [single, matchPattern, meaning env locals]
              simp only [filled, one, if_true]
              rfl
            next many =>
              simp only [bind_ok, pure_ok] at rest
              obtain ⟨⟨inner, scopes, n⟩, rest, same⟩ := rest
              cases same
              have grows := (all_declares args rest).grows
              have parts := fragment_fields (result + 1) grows (all_sound args rest agree plain.2)
              have whole : FragmentSound M _ _ _ _ _ _ [slot] _ :=
                get_sound expr silent (by omega) parts
              rw [← List.append_assoc] at whole
              refine fragment_congr_locals whole fun env values locals => ?_
              simp only [single, matchPattern, meaning env locals, filled, many, if_false]
              rfl
  | .seqWildcard name, _, _, _, _, _, _, _, _, compiled, _, _ => by cases compiled

theorem alternatives_sound : ∀ (others : List (Pattern E)) {caught : Bool} {bound : List String}
    {slot : Nat} {scopes scopes₁ : Scopes} {free free₁ : Nat} {first items : List Item} {scopes' : Scopes}
    {needed : Nat} {f : Env V → V → Eval V (Machine V W) (Bindings V)},
    compileAlternatives X names caught first others slot scopes₁ free₁ = .ok (items, scopes', needed) →
    (∀ x, x ∉ bound → isLocalIn scopes x = isLocal x) →
    othersUnshadowed X names caught isLocal bound others = true →
    Declares [] scopes free scopes₁ free₁ →
    FragmentSound M bound scopes free scopes₁ free₁ first [slot] (single M f) →
    FragmentSound M bound scopes free scopes' needed items [slot]
      (single M fun env v => matchAlternatives X names caught env (f env v) others v)
  | [], _, _, _, _, _, _, _, _, _, _, _, _, compiled, _, _, _, sound => by
      simp only [compileAlternatives, pure_ok] at compiled
      cases compiled
      exact sound
  | p :: others, _, _, _, _, _, _, _, _, _, _, _, _, compiled, agree, plain, declares, sound => by
      simp only [compileAlternatives, bind_ok, pure_ok] at compiled
      obtain ⟨_, checked, ⟨inner, scopes, n⟩, one, ⟨more, scopes', m⟩, rest, same⟩ := compiled
      cases same
      simp only [othersUnshadowed, Bool.and_eq_true] at plain
      have agree' : ∀ x, x ∉ _ → isLocalIn _ x = isLocal x := fun x absent =>
        (congrArg Option.isSome (declares.others x List.not_mem_nil)).trans (agree x absent)
      have declaresOne := pattern_declares p one
      rw [check_no_variables checked] at declaresOne
      have declaresRest := declares_trans declaresOne (alternatives_declares others rest)
      exact fragment_else declares declaresRest sound (alternatives_sound others rest agree' plain.2
        declaresOne (pattern_sound p one agree' plain.1))

theorem all_sound : ∀ (ps : List (Pattern E)) {bound : List String} {slots : List Nat}
    {scopes : Scopes} {free : Nat} {items : List Item} {scopes' : Scopes} {needed : Nat},
    compileAll X names ps slots scopes free = .ok (items, scopes', needed) →
    (∀ x, x ∉ bound → isLocalIn scopes x = isLocal x) →
    allUnshadowed X names isLocal bound ps = true →
    FragmentSound M bound scopes free scopes' needed items slots
      (fun env values => matchAll X names env ps values)
  | [], _, _, _, _, _, _, _, compiled, _, _ => by
      simp only [compileAll, pure_ok] at compiled
      cases compiled
      exact fragment_nil
  | p :: ps, _, [], _, _, _, _, _, compiled, _, _ => by
      simp only [compileAll, pure_ok] at compiled
      cases compiled
      refine fragment_congr fragment_nil fun env values length => ?_
      obtain rfl := List.length_eq_zero_iff.mp length
      rfl
  | p :: ps, _, slot :: slots, _, _, _, _, _, compiled, agree, plain => by
      simp only [compileAll, bind_ok, pure_ok] at compiled
      obtain ⟨⟨inner, scopes, n⟩, one, ⟨more, scopes', m⟩, rest, same⟩ := compiled
      cases same
      simp only [allUnshadowed, Bool.and_eq_true] at plain
      have declares := pattern_declares p one
      have sound := fragment_both declares (all_declares ps rest).grows
        (pattern_sound p one agree plain.1)
        (all_sound ps rest (locals_after declares agree) plain.2)
      refine fragment_congr sound fun env values length => ?_
      obtain ⟨v, others, rfl⟩ := List.exists_cons_of_length_eq_add_one length
      rfl

theorem elements_sound : ∀ (ps : List (Pattern E)) {bound : List String} {index fixed slot : Nat}
    {scopes : Scopes} {free : Nat} {items : List Item} {scopes' : Scopes} {needed : Nat},
    compileElements X names ps index fixed slot scopes free = .ok (items, scopes', needed) →
    (∀ x, x ∉ bound → isLocalIn scopes x = isLocal x) →
    allUnshadowed X names isLocal bound ps = true →
    FragmentSound M bound scopes free scopes' needed items [slot]
      (single M fun env v => matchElements X names env ps index fixed v)
  | [], _, _, _, _, _, _, _, _, _, compiled, _, _ => by
      simp only [compileElements, pure_ok] at compiled
      cases compiled
      exact fragment_nil
  | p :: ps, _, index, fixed, slot, scopes, free, _, _, _, compiled, agree, plain => by
      simp only [compileElements] at compiled
      split at compiled
      next name named =>
        split at compiled
        next blank =>
          simp only [pure_ok] at compiled
          cases compiled
          refine single_congr fragment_nil fun env v => ?_
          simp only [matchElements, named, blank, if_true]
        next written =>
          simp only [pure_ok] at compiled
          cases compiled
          refine single_congr (fragment_sent "drop" fixed slot
            (bind_declares name free scopes _).grows (bind_sound name)) fun env v => ?_
          simp [single, matchElements, named, written]
      next named =>
        simp only [bind_ok, pure_ok] at compiled
        obtain ⟨⟨inner, scopes', n⟩, one, ⟨more, scopes'', m⟩, rest, same⟩ := compiled
        cases same
        simp only [allUnshadowed, Bool.and_eq_true] at plain
        have declares := pattern_declares p one
        have element := fragment_sent "apply" index slot declares.grows
          (pattern_sound p one agree plain.1)
        have others := elements_sound ps rest (locals_after declares agree) plain.2
        refine single_congr (fragment_then (declares_more declares (fun _ member => member)
          (Nat.le_succ _)) (elements_declares ps rest).grows element others) fun env v => ?_
        simp only [single, both, matchElements, named, bind_assoc, List.headD_cons] <;> rfl

end

end Sound

end ProtoScala.Compiler.PatternFaithful
