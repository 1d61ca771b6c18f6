import Mathlib
import ProtoScala.Compiler.SessionTables

/-!
# Runtime keys over a whole session

No two definitions of a session hold one key, as long as the declared names are
not spelled like keys, are not bound by an import of their unit, and do not take
the name of a built-in type whose key nobody has reserved. The invariant ties every
definition to the counters and every table entry to a definition.
-/

namespace ProtoScala.Compiler.SessionKeys

open ProtoScala.Compiler.Globals
open ProtoScala.Compiler.SessionTables

set_option autoImplicit false

/-- A repeated definition within one unit replaces the earlier one and keeps its
key; any other two definitions are distinct. -/
def Distinct (d d' : Definition) : Prop :=
  d.space ≠ d'.space ∨ d.unit ≠ d'.unit ∨ d.name ≠ d'.name ∨
    ∃ n m, d.alternative = some n ∧ d'.alternative = some m ∧ n ≠ m

def KeyKnown (definitions : List Definition) (foreign : List String) (key : String) : Prop :=
  (∃ d ∈ definitions, d.space = .term ∧ d.key = key) ∨ key ∈ foreign

def TypeKeyKnown (definitions : List Definition) (key : String) : Prop :=
  (∃ d ∈ definitions, d.space = .type ∧ d.key = key) ∨ ∃ info ∈ builtinTypes, info.key = key

/-- No definition holds the key of another one, of a built-in type or of a foreign
module, and every visible binding and type leads to the key of one of these. -/
structure KeysSeparate (s : Session) : Prop where
  distinct : ∀ d ∈ s.definitions, ∀ d' ∈ s.definitions, Distinct d d' → d.key ≠ d'.key
  builtin : ∀ d ∈ s.definitions, ∀ info ∈ builtinTypes, d.key ≠ info.key
  foreign : ∀ d ∈ s.definitions, ∀ key ∈ s.foreign, d.key ≠ key
  bindings : ∀ t ts name b, s.tables t = some ts → ts.globals.table name = some b →
    KeyKnown s.definitions s.foreign b.key ∧
      ∀ o ∈ b.overloads, KeyKnown s.definitions s.foreign o.key
  types : ∀ t ts name key, s.tables t = some ts → ts.globals.typeKeyOfName name = some key →
    TypeKeyKnown s.definitions key

/-- A term name that is not spelled like a key of another kind. -/
structure TermName (name : String) : Prop where
  unshadowed : ¬ ShadowShaped name
  unforeign : ¬ ForeignShaped name
  untyped : name.toList.head? ≠ some '@'

/-- What a declaration has to respect: its name is spelled as no key is, the
unit's imports have not bound it, and a type with the name of a built-in one has
that name's key reserved already. -/
def Sound (s : Session) : Step → Prop
  | .declare t name _ => TermName name ∧ ∀ ts, s.tables t = some ts → ts.imported name = false
  | .declareDef t name _ arity =>
      TermName name ∧ ∀ ts b, s.tables t = some ts → ts.imported name = true →
        ts.globals.table name = some b → ∀ o ∈ b.overloads, o.arity ≠ arity
  | .store t name => ∀ ts, s.tables t = some ts → ts.imported name = false
  | .declareType t name =>
      ¬ ShadowShaped name ∧ (name ∈ builtinTypeNames → s.counters.types name ≠ none) ∧
        ∀ ts, s.tables t = some ts → ts.importedTypes name = false
  | _ => True

def SoundRun (s : Session) : List Step → Prop
  | [] => True
  | next :: rest => Sound s next ∧ ∀ s', step s next = some s' → SoundRun s' rest

section Issued

/-- The definitions' keys come from the counters, and two definitions share one
only when the later replaced the earlier. -/
structure Issued (definitions : List Definition) (counters : Counters) : Prop where
  named : ∀ d ∈ definitions, d.space = .term → TermName d.name
  typeNamed : ∀ d ∈ definitions, d.space = .type → ¬ ShadowShaped d.name
  issued : ∀ d ∈ definitions, d.space = .term →
    ∃ count, counters.terms d.name = some count ∧ IssuedFor d.name count d.key
  issuedTypes : ∀ d ∈ definitions, d.space = .type →
    ∃ count key, counters.types d.name = some count ∧ d.key = "@" ++ key ∧
      IssuedFor d.name count key ∧ (key = d.name → d.name ∉ builtinTypeNames)
  apart : ∀ d ∈ definitions, ∀ d' ∈ definitions, d.space = d'.space → d.name = d'.name →
    d.key = d'.key → ¬ Distinct d d'

/-- Counters only grow, and never forget a name. -/
def Grow (c c' : String → Option Nat) : Prop :=
  ∀ name n, c name = some n → ∃ n', c' name = some n' ∧ n ≤ n'

theorem grow_rfl (c : String → Option Nat) : Grow c c := fun _ n known => ⟨n, known, le_rfl⟩

theorem grow_update {c : String → Option Nat} {name : String} {n : Nat}
    (atLeast : ∀ m, c name = some m → m ≤ n) : Grow c (Function.update c name (some n)) := by
  intro other m known
  by_cases same : other = name
  · subst same
    exact ⟨n, by simp, atLeast m known⟩
  · exact ⟨m, by rw [Function.update_of_ne same, known], le_rfl⟩

theorem grow_reserve (c : String → Option Nat) (name key : String) :
    Grow c (reserveKey c name key) := by
  apply grow_update
  intro m known
  simp [known]

theorem issued_grow {definitions : List Definition} {c c' : Counters}
    (issued : Issued definitions c) (terms : Grow c.terms c'.terms) (types : Grow c.types c'.types) :
    Issued definitions c' where
  named := issued.named
  typeNamed := issued.typeNamed
  issued := by
    intro d member space
    obtain ⟨count, known, shape⟩ := issued.issued d member space
    obtain ⟨count', known', atMost⟩ := terms _ _ known
    exact ⟨count', known', issued_for_mono atMost shape⟩
  issuedTypes := by
    intro d member space
    obtain ⟨count, key, known, keyEq, shape, notBuiltin⟩ := issued.issuedTypes d member space
    obtain ⟨count', known', atMost⟩ := types _ _ known
    exact ⟨count', key, known', keyEq, issued_for_mono atMost shape, notBuiltin⟩
  apart := issued.apart

theorem distinct_comm {d d' : Definition} (distinct : Distinct d d') : Distinct d' d := by
  rcases distinct with h | h | h | ⟨n, m, first, second, different⟩
  · exact .inl h.symm
  · exact .inr (.inl h.symm)
  · exact .inr (.inr (.inl h.symm))
  · exact .inr (.inr (.inr ⟨m, n, second, first, different.symm⟩))

theorem not_distinct_self (d : Definition) : ¬ Distinct d d := by
  rintro (h | h | h | ⟨n, m, first, second, different⟩)
  · exact h rfl
  · exact h rfl
  · exact h rfl
  · exact different (Option.some.inj (first.symm.trans second))

/-- Recording one more definition whose key fits the counters. -/
theorem issued_add {definitions : List Definition} {c : Counters} (issued : Issued definitions c)
    (d : Definition)
    (named : d.space = .term → TermName d.name)
    (typeNamed : d.space = .type → ¬ ShadowShaped d.name)
    (shape : d.space = .term →
      ∃ count, c.terms d.name = some count ∧ IssuedFor d.name count d.key)
    (typeShape : d.space = .type → ∃ count key, c.types d.name = some count ∧
      d.key = "@" ++ key ∧ IssuedFor d.name count key ∧ (key = d.name → d.name ∉ builtinTypeNames))
    (apart : ∀ d' ∈ definitions, d.space = d'.space → d.name = d'.name → d.key = d'.key →
      ¬ Distinct d d') :
    Issued (definitions ++ [d]) c := by
  have split : ∀ {P : Definition → Prop}, (∀ d' ∈ definitions, P d') → P d →
      ∀ d' ∈ definitions ++ [d], P d' := by
    intro P old new d' member
    rcases List.mem_append.mp member with earlier | last
    · exact old d' earlier
    · rw [List.mem_singleton.mp last]
      exact new
  refine ⟨split issued.named named, split issued.typeNamed typeNamed, split issued.issued shape,
    split issued.issuedTypes typeShape, ?_⟩
  refine split ?_ ?_
  · intro first member
    refine split (issued.apart first member) ?_
    intro space name key distinct
    exact apart first member space.symm name.symm key.symm (distinct_comm distinct)
  · exact split apart fun _ _ _ => not_distinct_self d

/-- A key the counters have not given out before, and the counters after it. -/
structure FreshKey (c : String → Option Nat) (name key : String) (c' : String → Option Nat) :
    Prop where
  grow : Grow c c'
  shape : ∃ count, c' name = some count ∧ IssuedFor name count key
  unused : ∀ count other, c name = some count → IssuedFor name count other → other ≠ key

theorem shadow_key_ne (name : String) (n : Nat) : shadowKey name n ≠ name := by
  intro same
  have lengths := congrArg (fun s => s.toList.length) same
  simp [shadow_key_chars] at lengths

theorem shadow_key_unused {name other : String} {count : Nat} (issued : IssuedFor name count other) :
    other ≠ shadowKey name (count + 1) := by
  rcases issued with rfl | ⟨n, -, bounded, rfl⟩
  · exact (shadow_key_ne _ _).symm
  · intro same
    have numbers := (shadow_key_injective same).2
    omega

theorem next_key_fresh (c : String → Option Nat) (name : String) :
    FreshKey c name (nextKey c name).1 (nextKey c name).2 := by
  unfold nextKey
  cases known : c name with
  | none =>
      refine ⟨grow_update (by simp [known]), ⟨0, by simp, .inl rfl⟩, ?_⟩
      simp [known]
  | some n =>
      refine ⟨grow_update ?_, ⟨n + 1, by simp, .inr ⟨n + 1, by omega, le_rfl, rfl⟩⟩, ?_⟩
      · intro m found
        rw [known] at found
        cases found
        omega
      · intro count other found issued
        rw [known] at found
        cases found
        exact shadow_key_unused issued

theorem alternative_key_fresh (c : String → Option Nat) (name : String) :
    FreshKey c name (alternativeKey c name).1 (alternativeKey c name).2 := by
  unfold alternativeKey
  refine ⟨grow_update ?_, ⟨_, by simp, .inr ⟨_, by omega, le_rfl, rfl⟩⟩, ?_⟩
  · intro m found
    simp [found]
  · intro count other found issued
    simpa [found] using shadow_key_unused issued

/-- A definition of a plain name under a fresh key. -/
theorem issued_fresh_term {definitions : List Definition} {c : Counters}
    (issued : Issued definitions c) {name key : String} {terms : String → Option Nat}
    (termName : TermName name) (fresh : FreshKey c.terms name key terms) (unit : Nat)
    (alternative : Option Nat) :
    Issued (definitions ++ [⟨.term, unit, name, alternative, key⟩]) { c with terms := terms } := by
  have grown : Issued definitions { c with terms := terms } :=
    issued_grow issued fresh.grow (grow_rfl _)
  apply issued_add grown
  · intro _
    exact termName
  · intro space
    cases space
  · intro _
    exact fresh.shape
  · intro space
    cases space
  · intro d' member space sameName sameKey
    dsimp only at space sameName sameKey
    subst sameName
    obtain ⟨count, known, shape⟩ := issued.issued d' member space.symm
    exact absurd sameKey.symm (fresh.unused count d'.key known shape)

theorem issued_fresh_type {definitions : List Definition} {c : Counters}
    (issued : Issued definitions c) {name key : String} {types : String → Option Nat}
    (plain : ¬ ShadowShaped name) (fresh : FreshKey c.types name key types)
    (notBuiltin : key = name → name ∉ builtinTypeNames) (unit : Nat) :
    Issued (definitions ++ [⟨.type, unit, name, none, "@" ++ key⟩]) { c with types := types } := by
  have grown : Issued definitions { c with types := types } :=
    issued_grow issued (grow_rfl _) fresh.grow
  apply issued_add grown
  · intro space
    cases space
  · intro _
    exact plain
  · intro space
    cases space
  · intro _
    obtain ⟨count, known, shape⟩ := fresh.shape
    exact ⟨count, key, known, rfl, shape, notBuiltin⟩
  · intro d' member space sameName sameKey
    dsimp only at space sameName sameKey
    subst sameName
    obtain ⟨count, other, known, keyEq, shape, -⟩ := issued.issuedTypes d' member space.symm
    rw [keyEq] at sameKey
    exact absurd ((String.append_right_inj _).mp sameKey).symm
      (fresh.unused count other known shape)

/-- A definition that replaces one of its own unit under the same key. -/
theorem issued_replacing {definitions : List Definition} {c : Counters}
    (issued : Issued definitions c) {old : Definition} (member : old ∈ definitions)
    {alternative : Option Nat} (compatible : alternative = none ∨ alternative = old.alternative) :
    Issued (definitions ++ [{ old with alternative := alternative }]) c := by
  apply issued_add issued
  · exact issued.named old member
  · exact issued.typeNamed old member
  · exact issued.issued old member
  · exact issued.issuedTypes old member
  · intro d' member' space name key distinct
    apply issued.apart old member d' member' space name key
    rcases distinct with h | h | h | ⟨n, m, first, second, different⟩
    · exact .inl h
    · exact .inr (.inl h)
    · exact .inr (.inr (.inl h))
    · rcases compatible with absent | same
      · rw [absent] at first
        cases first
      · exact .inr (.inr (.inr ⟨n, m, same ▸ first, second, different⟩))

end Issued

section Tables

/-- A name the unit declared itself leads to a definition of that unit. -/
def OwnBinding (definitions : List Definition) (unit : Nat) (name : String)
    (found : Option GlobalBinding) : Prop :=
  ∃ b, found = some b ∧
    (∃ d ∈ definitions, d.space = .term ∧ d.unit = unit ∧ d.name = name ∧ d.key = b.key) ∧
    ∀ o ∈ b.overloads, ∃ d ∈ definitions, d.space = .term ∧ d.unit = unit ∧ d.name = name ∧
      d.alternative = some o.arity ∧ d.key = o.key

def OwnType (definitions : List Definition) (unit : Nat) (name : String)
    (found : Option String) : Prop :=
  ∃ d ∈ definitions, d.space = .type ∧ d.unit = unit ∧ d.name = name ∧ found = some d.key

structure Visible (definitions : List Definition) (foreign : List String) (g : GlobalTable) :
    Prop where
  bindings : ∀ name b, g.table name = some b → KeyKnown definitions foreign b.key ∧
    ∀ o ∈ b.overloads, KeyKnown definitions foreign o.key
  types : ∀ name key, g.typeKeyOfName name = some key → TypeKeyKnown definitions key

structure TableOk (definitions : List Definition) (foreign : List String) (ts : TableState) :
    Prop where
  own : ts.snapshot ≠ none → ∀ name, ts.globals.declaredInUnit name = true →
    ts.imported name = false → OwnBinding definitions ts.unit name (ts.globals.table name)
  ownTypes : ts.snapshot ≠ none → ∀ name, ts.globals.typesDeclaredInUnit name = true →
    ts.importedTypes name = false → OwnType definitions ts.unit name (ts.globals.typeKeyOfName name)
  visible : Visible definitions foreign ts.globals
  snapshotVisible : ∀ g, ts.snapshot = some g → Visible definitions foreign g

structure Invariant (s : Session) : Prop where
  issued : Issued s.definitions s.counters
  foreign : ∀ key ∈ s.foreign, ForeignShaped key
  tables : ∀ t ts, s.tables t = some ts → TableOk s.definitions s.foreign ts

variable {definitions definitions' : List Definition} {foreign foreign' : List String}

theorem key_known_mono (more : definitions ⊆ definitions') (moreForeign : foreign ⊆ foreign')
    {key : String} (known : KeyKnown definitions foreign key) :
    KeyKnown definitions' foreign' key := by
  rcases known with ⟨d, member, facts⟩ | member
  · exact .inl ⟨d, more member, facts⟩
  · exact .inr (moreForeign member)

theorem type_key_known_mono (more : definitions ⊆ definitions') {key : String}
    (known : TypeKeyKnown definitions key) : TypeKeyKnown definitions' key := by
  rcases known with ⟨d, member, facts⟩ | builtin
  · exact .inl ⟨d, more member, facts⟩
  · exact .inr builtin

theorem own_binding_mono (more : definitions ⊆ definitions') {unit : Nat} {name : String}
    {found : Option GlobalBinding} (own : OwnBinding definitions unit name found) :
    OwnBinding definitions' unit name found := by
  obtain ⟨b, foundEq, ⟨d, member, facts⟩, alternatives⟩ := own
  refine ⟨b, foundEq, ⟨d, more member, facts⟩, ?_⟩
  intro o memberO
  obtain ⟨d', member', facts'⟩ := alternatives o memberO
  exact ⟨d', more member', facts'⟩

theorem visible_mono (more : definitions ⊆ definitions') (moreForeign : foreign ⊆ foreign')
    {g : GlobalTable} (visible : Visible definitions foreign g) :
    Visible definitions' foreign' g where
  bindings := by
    intro name b found
    obtain ⟨main, alternatives⟩ := visible.bindings name b found
    exact ⟨key_known_mono more moreForeign main,
      fun o member => key_known_mono more moreForeign (alternatives o member)⟩
  types := fun name key found => type_key_known_mono more (visible.types name key found)

theorem table_ok_mono (more : definitions ⊆ definitions') (moreForeign : foreign ⊆ foreign')
    {ts : TableState} (ok : TableOk definitions foreign ts) :
    TableOk definitions' foreign' ts where
  own := fun compiling name declared unimported =>
    own_binding_mono more (ok.own compiling name declared unimported)
  ownTypes := by
    intro compiling name declared unimported
    obtain ⟨d, member, facts⟩ := ok.ownTypes compiling name declared unimported
    exact ⟨d, more member, facts⟩
  visible := visible_mono more moreForeign ok.visible
  snapshotVisible := fun g found => visible_mono more moreForeign (ok.snapshotVisible g found)

/-- Replacing one table, with more definitions and grown counters. -/
theorem invariant_set {s : Session} (invariant : Invariant s) {c : Counters}
    (more : s.definitions ⊆ definitions') (issued : Issued definitions' c) (t : Nat)
    {ts : TableState} (ok : TableOk definitions' s.foreign ts) {tableCount units : Nat} :
    Invariant
      { counters := c, moduleCounter := s.moduleCounter,
        tables := Function.update s.tables t (some ts), tableCount := tableCount, units := units,
        definitions := definitions', foreign := s.foreign } where
  issued := issued
  foreign := invariant.foreign
  tables := by
    intro other state found
    dsimp only at found ⊢
    by_cases same : other = t
    · subst same
      rw [Function.update_self] at found
      cases found
      exact ok
    · rw [Function.update_of_ne same] at found
      exact table_ok_mono more (fun _ member => member) (invariant.tables other state found)

def BindingKnown (definitions : List Definition) (foreign : List String) (b : GlobalBinding) :
    Prop :=
  KeyKnown definitions foreign b.key ∧ ∀ o ∈ b.overloads, KeyKnown definitions foreign o.key

theorem binding_known_of_own {unit : Nat} {name : String} {b : GlobalBinding}
    (own : OwnBinding definitions unit name (some b)) : BindingKnown definitions foreign b := by
  obtain ⟨_, ⟨⟩, ⟨d, member, space, -, -, key⟩, alternatives⟩ := own
  refine ⟨.inl ⟨d, member, space, key⟩, ?_⟩
  intro o memberO
  obtain ⟨d', member', space', -, -, -, key'⟩ := alternatives o memberO
  exact .inl ⟨d', member', space', key'⟩

/-- One name of a table is bound anew, by the unit itself or by an import. -/
theorem table_ok_put {ts : TableState} (ok : TableOk definitions foreign ts)
    (more : definitions ⊆ definitions') {name : String} {b : GlobalBinding}
    {imported : String → Bool} (known : BindingKnown definitions' foreign b)
    (origin : imported name = true ∨ OwnBinding definitions' ts.unit name (some b))
    (others : ∀ other, other ≠ name → imported other = ts.imported other) :
    TableOk definitions' foreign
      { ts with
        globals := { ts.globals with
          declaredInUnit := Function.update ts.globals.declaredInUnit name true
          table := Function.update ts.globals.table name (some b) }
        imported := imported } := by
  have old := table_ok_mono more (fun _ member => member) ok
  refine ⟨?_, old.ownTypes, ⟨?_, old.visible.types⟩, old.snapshotVisible⟩
  · intro compiling other declared unimported
    dsimp only at declared unimported ⊢
    by_cases same : other = name
    · subst same
      rw [Function.update_self]
      rcases origin with isImported | own
      · rw [isImported] at unimported
        cases unimported
      · exact own
    · rw [Function.update_of_ne same] at declared ⊢
      rw [others other same] at unimported
      exact old.own compiling other declared unimported
  · intro other b' found
    dsimp only at found
    by_cases same : other = name
    · subst same
      rw [Function.update_self] at found
      cases found
      exact known
    · rw [Function.update_of_ne same] at found
      exact old.visible.bindings other b' found

theorem table_ok_put_type {ts : TableState} (ok : TableOk definitions foreign ts)
    (more : definitions ⊆ definitions') {name key : String} {importedTypes : String → Bool}
    (known : TypeKeyKnown definitions' key)
    (origin : importedTypes name = true ∨ OwnType definitions' ts.unit name (some key))
    (others : ∀ other, other ≠ name → importedTypes other = ts.importedTypes other) :
    TableOk definitions' foreign
      { ts with
        globals := { ts.globals with
          typesDeclaredInUnit := Function.update ts.globals.typesDeclaredInUnit name true
          typeKeyOfName := Function.update ts.globals.typeKeyOfName name (some key) }
        importedTypes := importedTypes } := by
  have old := table_ok_mono more (fun _ member => member) ok
  refine ⟨old.own, ?_, ⟨old.visible.bindings, ?_⟩, old.snapshotVisible⟩
  · intro compiling other declared unimported
    dsimp only at declared unimported ⊢
    by_cases same : other = name
    · subst same
      rw [Function.update_self]
      rcases origin with isImported | own
      · rw [isImported] at unimported
        cases unimported
      · exact own
    · rw [Function.update_of_ne same] at declared ⊢
      rw [others other same] at unimported
      exact old.ownTypes compiling other declared unimported
  · intro other key' found
    dsimp only at found
    by_cases same : other = name
    · subst same
      rw [Function.update_self] at found
      cases found
      exact known
    · rw [Function.update_of_ne same] at found
      exact old.visible.types other key' found

end Tables

section Steps

variable {s s' : Session} {t : Nat} {ts : TableState} {snapshot : GlobalTable}

theorem update_true_self {p : String → Bool} {name : String} (holds : p name = true) :
    Function.update p name true = p := by
  rw [← holds, Function.update_eq_self]

theorem declare_keeps (invariant : Invariant s) (found : s.tables t = some ts)
    (compiling : ts.snapshot ≠ none) {name key : String} {kind : BindingKind} {c : Counters}
    {g : GlobalTable} (termName : TermName name) (unimported : ts.imported name = false)
    (declared : Globals.declare name kind s.counters ts.globals = some (key, c, g)) :
    Invariant (s.define t ts c g ⟨.term, ts.unit, name, none, key⟩) := by
  have ok := invariant.tables t ts found
  unfold Globals.declare at declared
  split at declared
  · rename_i inUnit
    obtain ⟨b, bound, ⟨old, member, space, unit, nameEq, keyEq⟩, alternatives⟩ :=
      ok.own compiling name inUnit unimported
    rw [bound] at declared
    simp only [Option.map_some, Option.some.injEq, Prod.mk.injEq] at declared
    obtain ⟨rfl, rfl, rfl⟩ := declared
    have recorded : ({ old with alternative := none } : Definition) =
        ⟨.term, ts.unit, name, none, b.key⟩ := by
      cases old
      simp_all
    have issued := issued_replacing invariant.issued member (.inl rfl)
    rw [recorded] at issued
    have own : OwnBinding (s.definitions ++ [⟨.term, ts.unit, name, none, b.key⟩]) ts.unit name
        (some { b with kind := kind }) := by
      refine ⟨_, rfl, ⟨_, List.mem_append_right _ (List.mem_singleton_self _), rfl, rfl, rfl, rfl⟩,
        ?_⟩
      intro o memberO
      obtain ⟨d, memberD, facts⟩ := alternatives o memberO
      exact ⟨d, List.mem_append_left _ memberD, facts⟩
    have put := table_ok_put ok (List.subset_append_left _ _) (binding_known_of_own own)
      (.inr own) (fun _ _ => rfl)
    rw [update_true_self inUnit] at put
    exact invariant_set invariant (List.subset_append_left _ _) issued t put
  · have fresh := next_key_fresh s.counters.terms name
    simp only [Option.some.injEq, Prod.mk.injEq] at declared
    obtain ⟨rfl, rfl, rfl⟩ := declared
    have own : OwnBinding (s.definitions ++ [⟨.term, ts.unit, name, none,
        (nextKey s.counters.terms name).1⟩]) ts.unit name
        (some { kind := kind, key := (nextKey s.counters.terms name).1 }) :=
      ⟨_, rfl, ⟨_, List.mem_append_right _ (List.mem_singleton_self _), rfl, rfl, rfl, rfl⟩,
        by simp⟩
    have put := table_ok_put ok (List.subset_append_left _ _) (binding_known_of_own own)
      (.inr own) (fun _ _ => rfl)
    exact invariant_set invariant (List.subset_append_left _ _)
      (issued_fresh_term invariant.issued termName fresh ts.unit none) t put

/-- The alternative is declared again: it keeps its key. -/
theorem declare_again_keeps (invariant : Invariant s) (found : s.tables t = some ts)
    (compiling : ts.snapshot ≠ none) {name : String} (kind : BindingKind) {b : GlobalBinding}
    {o : Overload} (inUnit : ts.globals.declaredInUnit name = true)
    (unimported : ts.imported name = false) (bound : ts.globals.table name = some b)
    (memberO : o ∈ b.overloads) :
    Invariant (s.define t ts s.counters
      { ts.globals with table := Function.update ts.globals.table name (some { b with kind := kind }) }
      ⟨.term, ts.unit, name, some o.arity, o.key⟩) := by
  have ok := invariant.tables t ts found
  obtain ⟨_, bound', ⟨main, memberMain, mainFacts⟩, alternatives⟩ :=
    ok.own compiling name inUnit unimported
  rw [bound] at bound'
  cases bound'
  obtain ⟨old, member, space, unit, nameEq, alternative, keyEq⟩ := alternatives o memberO
  have recorded : ({ old with alternative := some o.arity } : Definition) =
      ⟨.term, ts.unit, name, some o.arity, o.key⟩ := by
    cases old
    simp_all
  have issued := issued_replacing invariant.issued member (.inr alternative.symm)
  rw [recorded] at issued
  have own : OwnBinding (s.definitions ++ [⟨.term, ts.unit, name, some o.arity, o.key⟩]) ts.unit
      name (some { b with kind := kind }) := by
    refine ⟨_, rfl, ⟨main, List.mem_append_left _ memberMain, mainFacts⟩, ?_⟩
    intro o' memberO'
    obtain ⟨d, memberD, facts⟩ := alternatives o' memberO'
    exact ⟨d, List.mem_append_left _ memberD, facts⟩
  have put := table_ok_put ok (List.subset_append_left _ _) (binding_known_of_own own)
    (.inr own) (fun _ _ => rfl)
  rw [update_true_self inUnit] at put
  exact invariant_set invariant (List.subset_append_left _ _) issued t put

/-- A new alternative under a fresh key, of a method of the unit or of an imported
one. -/
theorem declare_alternative_keeps (invariant : Invariant s) (found : s.tables t = some ts)
    (compiling : ts.snapshot ≠ none) {name key : String} (kind : BindingKind) {b : GlobalBinding}
    (arity : Nat) {terms : String → Option Nat} (termName : TermName name)
    (fresh : FreshKey s.counters.terms name key terms)
    (inUnit : ts.globals.declaredInUnit name = true) (bound : ts.globals.table name = some b) :
    Invariant (s.define t ts { s.counters with terms := terms }
      { ts.globals with
        table := Function.update ts.globals.table name
          (some { b with kind := kind, overloads := b.overloads ++ [⟨arity, key⟩] }) }
      ⟨.term, ts.unit, name, some arity, key⟩) := by
  have ok := invariant.tables t ts found
  have issued := issued_fresh_term invariant.issued termName fresh ts.unit (some arity)
  have more : s.definitions ⊆ s.definitions ++ [⟨.term, ts.unit, name, some arity, key⟩] :=
    List.subset_append_left _ _
  have newMember : (⟨.term, ts.unit, name, some arity, key⟩ : Definition) ∈
      s.definitions ++ [⟨.term, ts.unit, name, some arity, key⟩] := by simp
  have known : BindingKnown (s.definitions ++ [⟨.term, ts.unit, name, some arity, key⟩])
      s.foreign { b with kind := kind, overloads := b.overloads ++ [⟨arity, key⟩] } := by
    have visible := (visible_mono more (fun _ member => member) ok.visible).bindings name b bound
    refine ⟨visible.1, ?_⟩
    intro o memberO
    rcases List.mem_append.mp memberO with earlier | last
    · exact visible.2 o earlier
    · rw [List.mem_singleton.mp last]
      exact .inl ⟨_, newMember, rfl, rfl⟩
  have origin : ts.imported name = true ∨
      OwnBinding (s.definitions ++ [⟨.term, ts.unit, name, some arity, key⟩]) ts.unit name
        (some { b with kind := kind, overloads := b.overloads ++ [⟨arity, key⟩] }) := by
    cases isImported : ts.imported name with
    | true => exact .inl rfl
    | false =>
        obtain ⟨_, bound', ⟨main, memberMain, mainFacts⟩, alternatives⟩ :=
          ok.own compiling name inUnit isImported
        rw [bound] at bound'
        cases bound'
        refine .inr ⟨_, rfl, ⟨main, more memberMain, mainFacts⟩, ?_⟩
        intro o memberO
        rcases List.mem_append.mp memberO with earlier | last
        · obtain ⟨d, memberD, facts⟩ := alternatives o earlier
          exact ⟨d, more memberD, facts⟩
        · rw [List.mem_singleton.mp last]
          exact ⟨_, newMember, rfl, rfl, rfl, rfl, rfl⟩
  have put := table_ok_put ok more known origin (fun _ _ => rfl)
  rw [update_true_self inUnit] at put
  exact invariant_set invariant more issued t put

theorem declare_def_keeps (invariant : Invariant s) (found : s.tables t = some ts)
    (compiling : ts.snapshot ≠ none) {name key : String} {kind : BindingKind} {arity : Nat}
    {duplicate : Bool} {c : Counters} {g : GlobalTable} (termName : TermName name)
    (apart : ts.imported name = true → ∀ b, ts.globals.table name = some b →
      ∀ o ∈ b.overloads, o.arity ≠ arity)
    (declared : Globals.declareDef name kind arity s.counters ts.globals =
      some (key, duplicate, c, g)) :
    Invariant (s.define t ts c g ⟨.term, ts.unit, name, some arity, key⟩) := by
  unfold Globals.declareDef at declared
  split at declared
  · rename_i inUnit
    obtain ⟨b, bound, result⟩ := Option.map_eq_some_iff.mp declared
    split at result
    · rename_i o sameArity
      obtain ⟨rfl, rfl, rfl, rfl⟩ := result
      have memberO := List.mem_of_find?_eq_some sameArity
      obtain rfl : o.arity = arity := by simpa using List.find?_some sameArity
      have unimported : ts.imported name = false := by
        by_contra isImported
        exact apart (by simpa using isImported) b bound o memberO rfl
      exact declare_again_keeps invariant found compiling kind inUnit unimported bound memberO
    · obtain ⟨rfl, rfl, rfl, rfl⟩ := result
      exact declare_alternative_keeps invariant found compiling kind arity termName
        (alternative_key_fresh s.counters.terms name) inUnit bound
  · rename_i notInUnit
    have ok := invariant.tables t ts found
    have fresh := next_key_fresh s.counters.terms name
    simp only [Globals.declare, notInUnit, Option.map_some, Option.some.injEq, Prod.mk.injEq,
      Function.update_self, Function.update_idem, List.nil_append, Bool.false_eq_true, ite_false]
      at declared
    obtain ⟨rfl, rfl, rfl, rfl⟩ := declared
    have own : OwnBinding (s.definitions ++ [⟨.term, ts.unit, name, some arity,
        (nextKey s.counters.terms name).1⟩]) ts.unit name
        (some ⟨kind, (nextKey s.counters.terms name).1,
          [⟨arity, (nextKey s.counters.terms name).1⟩]⟩) := by
      refine ⟨_, rfl, ⟨_, List.mem_append_right _ (List.mem_singleton_self _), rfl, rfl, rfl, rfl⟩,
        ?_⟩
      intro o memberO
      rw [List.mem_singleton.mp memberO]
      exact ⟨_, List.mem_append_right _ (List.mem_singleton_self _), rfl, rfl, rfl, rfl, rfl⟩
    have put := table_ok_put ok (List.subset_append_left _ _) (binding_known_of_own own)
      (.inr own) (fun _ _ => rfl)
    exact invariant_set invariant (List.subset_append_left _ _)
      (issued_fresh_term invariant.issued termName fresh ts.unit (some arity)) t put

theorem declare_type_keeps (invariant : Invariant s) (found : s.tables t = some ts)
    (compiling : ts.snapshot ≠ none) {name key : String} {c : Counters} {g : GlobalTable}
    (plain : ¬ ShadowShaped name) (reserved : name ∈ builtinTypeNames → s.counters.types name ≠ none)
    (unimported : ts.importedTypes name = false)
    (declared : Globals.declareType name s.counters ts.globals = some (key, c, g)) :
    Invariant (s.define t ts c g ⟨.type, ts.unit, name, none, key⟩) := by
  have ok := invariant.tables t ts found
  unfold Globals.declareType at declared
  split at declared
  · rename_i inUnit
    obtain ⟨old, member, space, unit, nameEq, bound⟩ :=
      ok.ownTypes compiling name inUnit unimported
    rw [bound] at declared
    simp only [Option.map_some, Option.some.injEq, Prod.mk.injEq] at declared
    obtain ⟨rfl, rfl, rfl⟩ := declared
    have recorded : ({ old with alternative := none } : Definition) =
        ⟨.type, ts.unit, name, none, old.key⟩ := by
      cases old
      simp_all
    have issued := issued_replacing invariant.issued member (.inl rfl)
    rw [recorded] at issued
    exact invariant_set invariant (List.subset_append_left _ _) issued t
      (table_ok_mono (List.subset_append_left _ _) (fun _ member => member) ok)
  · have fresh := next_key_fresh s.counters.types name
    have notBuiltin : (nextKey s.counters.types name).1 = name → name ∉ builtinTypeNames := by
      intro same builtin
      cases known : s.counters.types name with
      | none => exact reserved builtin known
      | some n =>
          simp only [nextKey, known] at same
          exact shadow_key_ne _ _ same
    simp only [Option.some.injEq, Prod.mk.injEq] at declared
    obtain ⟨rfl, rfl, rfl⟩ := declared
    generalize (nextKey s.counters.types name).1 = key at fresh notBuiltin ⊢
    have own : OwnType (s.definitions ++ [⟨.type, ts.unit, name, none, "@" ++ key⟩]) ts.unit name
        (some ("@" ++ key)) :=
      ⟨_, List.mem_append_right _ (List.mem_singleton_self _), rfl, rfl, rfl, rfl⟩
    have put := table_ok_put_type ok (List.subset_append_left _ _)
      (.inl ⟨_, List.mem_append_right _ (List.mem_singleton_self _), rfl, rfl⟩) (.inr own)
      (fun _ _ => rfl)
    exact invariant_set invariant (List.subset_append_left _ _)
      (issued_fresh_type invariant.issued plain fresh notBuiltin ts.unit) t put

theorem store_keeps (invariant : Invariant s) (found : s.tables t = some ts)
    (compiling : ts.snapshot ≠ none) {name : String} {b : GlobalBinding}
    (unimported : ts.imported name = false) (inUnit : ts.globals.declaredInUnit name = true)
    (bound : ts.globals.table name = some b) :
    Invariant (s.define t ts s.counters ts.globals ⟨.term, ts.unit, name, none, b.key⟩) := by
  have ok := invariant.tables t ts found
  obtain ⟨_, bound', ⟨old, member, space, unit, nameEq, keyEq⟩, -⟩ :=
    ok.own compiling name inUnit unimported
  rw [bound] at bound'
  cases bound'
  have recorded : ({ old with alternative := none } : Definition) =
      ⟨.term, ts.unit, name, none, b.key⟩ := by
    cases old
    simp_all
  have issued := issued_replacing invariant.issued member (.inl rfl)
  rw [recorded] at issued
  exact invariant_set invariant (List.subset_append_left _ _) issued t
    (table_ok_mono (List.subset_append_left _ _) (fun _ member => member) ok)

/-- An import of a binding that is known already. -/
theorem bind_keeps (invariant : Invariant s) (found : s.tables t = some ts) (name : String)
    {b : GlobalBinding} (known : BindingKnown s.definitions s.foreign b) :
    Invariant
      { s.setTable t
          { ts with
            globals := (Globals.bind name b s.counters ts.globals).2
            imported := Function.update ts.imported name true } with
        counters := (Globals.bind name b s.counters ts.globals).1 } := by
  have put := table_ok_put (invariant.tables t ts found) (fun _ member => member) known
    (.inl (Function.update_self name true ts.imported))
    (fun other different => Function.update_of_ne different true ts.imported)
  have issued : Issued s.definitions (Globals.bind name b s.counters ts.globals).1 :=
    issued_grow invariant.issued (grow_reserve _ _ _) (grow_rfl _)
  exact invariant_set invariant (fun _ member => member) issued t put

theorem alias_type_keeps (invariant : Invariant s) (found : s.tables t = some ts) (name : String)
    {key : String} (known : TypeKeyKnown s.definitions key) :
    Invariant
      { s.setTable t
          { ts with
            globals := (Globals.aliasType name key s.counters ts.globals).2
            importedTypes := Function.update ts.importedTypes name true } with
        counters := (Globals.aliasType name key s.counters ts.globals).1 } := by
  have put := table_ok_put_type (invariant.tables t ts found)
    (fun _ member => member) known (.inl (Function.update_self name true ts.importedTypes))
    (fun other different => Function.update_of_ne different true ts.importedTypes)
  have issued : Issued s.definitions (Globals.aliasType name key s.counters ts.globals).1 :=
    issued_grow invariant.issued (grow_rfl _) (grow_reserve _ _ _)
  exact invariant_set invariant (fun _ member => member) issued t put

theorem restored_visible {definitions : List Definition} {foreign : List String} {g other : GlobalTable}
    (visible : Visible definitions foreign g) (otherVisible : Visible definitions foreign other)
    (name : String) : Visible definitions foreign (restore name other g) where
  bindings := by
    intro found b bound
    replace bound : Function.update g.table name (other.table name) found = some b := bound
    by_cases same : found = name
    · subst same
      rw [Function.update_self] at bound
      exact otherVisible.bindings found b bound
    · rw [Function.update_of_ne same] at bound
      exact visible.bindings found b bound
  types := visible.types

/-- Once no unit is being compiled against a table, only what it shows matters. -/
theorem table_ok_idle {definitions : List Definition} {foreign : List String} {g : GlobalTable}
    (visible : Visible definitions foreign g) (ts : TableState) :
    TableOk definitions foreign { ts with globals := g, snapshot := none } where
  own := fun compiling => absurd rfl compiling
  ownTypes := fun compiling => absurd rfl compiling
  visible := visible
  snapshotVisible := by simp

theorem table_ok_begin {definitions : List Definition} {foreign : List String} {g : GlobalTable}
    (visible : Visible definitions foreign g) (unit : Nat) :
    TableOk definitions foreign
      { globals := Globals.beginUnit g, snapshot := some g, unit := unit,
        imported := fun _ => false, importedTypes := fun _ => false } where
  own := by simp [Globals.beginUnit]
  ownTypes := by simp [Globals.beginUnit]
  visible := ⟨visible.bindings, visible.types⟩
  snapshotVisible := by
    rintro g ⟨⟩
    exact visible

/-- The invariant of a table reads neither its aliases nor its descriptions. -/
theorem table_ok_congr {definitions : List Definition} {foreign : List String} {ts : TableState}
    (ok : TableOk definitions foreign ts) (g : GlobalTable) (table : g.table = ts.globals.table)
    (declared : g.declaredInUnit = ts.globals.declaredInUnit)
    (types : g.typeKeyOfName = ts.globals.typeKeyOfName)
    (typesDeclared : g.typesDeclaredInUnit = ts.globals.typesDeclaredInUnit) :
    TableOk definitions foreign { ts with globals := g } where
  own := by
    simp only [table, declared]
    exact ok.own
  ownTypes := by
    simp only [types, typesDeclared]
    exact ok.ownTypes
  visible := by
    refine ⟨?_, ?_⟩
    · rw [table]
      exact ok.visible.bindings
    · rw [types]
      exact ok.visible.types
  snapshotVisible := ok.snapshotVisible

theorem foreign_member_shaped {moduleKey : String} (shaped : ForeignShaped moduleKey)
    (name : String) : ForeignShaped (moduleKey ++ "$" ++ name) := by
  obtain ⟨n, moduleName, rfl⟩ := shaped
  exact ⟨n, moduleName ++ "$" ++ name, by simp [foreignKey, String.append_assoc]⟩

theorem foreign_keeps (invariant : Invariant s) {key : String} (shaped : ForeignShaped key)
    (moduleCounter : Nat) :
    Invariant { s with moduleCounter := moduleCounter, foreign := key :: s.foreign } where
  issued := invariant.issued
  foreign := by
    intro other member
    rcases List.mem_cons.mp member with rfl | earlier
    · exact shaped
    · exact invariant.foreign other earlier
  tables := fun t ts found =>
    table_ok_mono (fun _ member => member) (List.subset_cons_self _ _) (invariant.tables t ts found)

theorem step_keeps (invariant : Invariant s) {next : Step} (sound : Sound s next)
    (stepped : step s next = some s') : Invariant s' := by
  have issued := invariant.issued
  have same : s.definitions ⊆ s.definitions := fun _ member => member
  cases next with
  | fork source =>
      obtain ⟨ts, idle, rfl⟩ := Option.map_eq_some_iff.mp stepped
      obtain ⟨found, -⟩ := idle_eq_some.mp idle
      exact invariant_set invariant same issued s.tableCount (invariant.tables source ts found)
  | beginUnit t =>
      obtain ⟨ts, idle, rfl⟩ := Option.map_eq_some_iff.mp stepped
      obtain ⟨found, -⟩ := idle_eq_some.mp idle
      exact invariant_set invariant same issued t
        (table_ok_begin (invariant.tables t ts found).visible _)
  | declare t name kind =>
      obtain ⟨⟨ts, snapshot⟩, compiling, declared⟩ := Option.bind_eq_some_iff.mp stepped
      obtain ⟨⟨key, c, g⟩, result, rfl⟩ := Option.map_eq_some_iff.mp declared
      obtain ⟨found, inProgress⟩ := compiling_eq_some.mp compiling
      exact declare_keeps invariant found (by simp [inProgress]) sound.1 (sound.2 ts found) result
  | declareDef t name kind arity =>
      obtain ⟨⟨ts, snapshot⟩, compiling, declared⟩ := Option.bind_eq_some_iff.mp stepped
      obtain ⟨⟨key, duplicate, c, g⟩, result, rfl⟩ := Option.map_eq_some_iff.mp declared
      obtain ⟨found, inProgress⟩ := compiling_eq_some.mp compiling
      exact declare_def_keeps invariant found (by simp [inProgress]) sound.1
        (fun isImported b => sound.2 ts b found isImported) result
  | declareType t name =>
      obtain ⟨⟨ts, snapshot⟩, compiling, declared⟩ := Option.bind_eq_some_iff.mp stepped
      obtain ⟨⟨key, c, g⟩, result, rfl⟩ := Option.map_eq_some_iff.mp declared
      obtain ⟨found, inProgress⟩ := compiling_eq_some.mp compiling
      exact declare_type_keeps invariant found (by simp [inProgress]) sound.1 sound.2.1
        (sound.2.2 ts found) result
  | declareTypeAlias t name target =>
      obtain ⟨⟨ts, snapshot⟩, compiling, rfl⟩ := Option.map_eq_some_iff.mp stepped
      obtain ⟨found, -⟩ := compiling_eq_some.mp compiling
      exact invariant_set invariant same issued t
        (table_ok_congr (invariant.tables t ts found) (Globals.declareTypeAlias name target ts.globals)
          rfl rfl rfl rfl)
  | defineType t info =>
      obtain ⟨⟨ts, snapshot⟩, compiling, rfl⟩ := Option.map_eq_some_iff.mp stepped
      obtain ⟨found, -⟩ := compiling_eq_some.mp compiling
      exact invariant_set invariant same issued t
        (table_ok_congr (invariant.tables t ts found) (Globals.defineType info ts.globals)
          rfl rfl rfl rfl)
  | store t name =>
      obtain ⟨⟨ts, snapshot⟩, compiling, stored⟩ := Option.bind_eq_some_iff.mp stepped
      obtain ⟨found, inProgress⟩ := compiling_eq_some.mp compiling
      by_cases inUnit : ts.globals.declaredInUnit name = true
      · simp only [inUnit, ite_true] at stored
        obtain ⟨b, bound, rfl⟩ := Option.map_eq_some_iff.mp stored
        exact store_keeps invariant found (by simp [inProgress]) (sound ts found) inUnit bound
      · simp [inUnit] at stored
  | bind t bound source name =>
      obtain ⟨⟨ts, snapshot⟩, compiling, imported⟩ := Option.bind_eq_some_iff.mp stepped
      obtain ⟨b, looked, rfl⟩ := Option.map_eq_some_iff.mp imported
      obtain ⟨origin, originFound, bindingFound⟩ := Option.bind_eq_some_iff.mp looked
      obtain ⟨found, -⟩ := compiling_eq_some.mp compiling
      exact bind_keeps invariant found bound
        ((invariant.tables source origin originFound).visible.bindings name b bindingFound)
  | aliasType t bound source name =>
      obtain ⟨⟨ts, snapshot⟩, compiling, imported⟩ := Option.bind_eq_some_iff.mp stepped
      obtain ⟨key, looked, rfl⟩ := Option.map_eq_some_iff.mp imported
      obtain ⟨origin, originFound, keyFound⟩ := Option.bind_eq_some_iff.mp looked
      obtain ⟨found, -⟩ := compiling_eq_some.mp compiling
      exact alias_type_keeps invariant found bound
        ((invariant.tables source origin originFound).visible.types name key keyFound)
  | loadForeign moduleName =>
      cases stepped
      exact foreign_keeps invariant ⟨_, _, rfl⟩ _
  | bindForeignMember moduleKey name =>
      by_cases known : moduleKey ∈ s.foreign
      · simp only [step, known, ite_true, Option.some.injEq] at stepped
        subst stepped
        exact foreign_keeps invariant
          (foreign_member_shaped (invariant.foreign moduleKey known) name) s.moduleCounter
      · simp [step, known] at stepped
  | bindForeign t bound key =>
      obtain ⟨⟨ts, snapshot⟩, compiling, imported⟩ := Option.bind_eq_some_iff.mp stepped
      obtain ⟨found, -⟩ := compiling_eq_some.mp compiling
      by_cases known : key ∈ s.foreign
      · simp only [known, ite_true, Option.some.injEq] at imported
        subst imported
        exact bind_keeps invariant found bound ⟨.inr known, by simp⟩
      · simp [known] at imported
  | succeed t dropped =>
      obtain ⟨⟨ts, snapshot⟩, compiling, rfl⟩ := Option.map_eq_some_iff.mp stepped
      obtain ⟨found, inProgress⟩ := compiling_eq_some.mp compiling
      have ok := invariant.tables t ts found
      apply invariant_set invariant same issued t
      apply table_ok_idle
      cases dropped with
      | none => exact ok.visible
      | some name => exact restored_visible ok.visible (ok.snapshotVisible snapshot inProgress) name
  | fail t =>
      obtain ⟨⟨ts, snapshot⟩, compiling, rfl⟩ := Option.map_eq_some_iff.mp stepped
      obtain ⟨found, inProgress⟩ := compiling_eq_some.mp compiling
      exact invariant_set invariant same issued t
        (table_ok_idle ((invariant.tables t ts found).snapshotVisible snapshot inProgress) ts)

theorem run_keeps {steps : List Step} (invariant : Invariant s) (sound : SoundRun s steps)
    (ran : run s steps = some s') : Invariant s' := by
  induction steps generalizing s with
  | nil =>
      cases ran
      exact invariant
  | cons next rest induction =>
      obtain ⟨middle, stepped, ranRest⟩ := Option.bind_eq_some_iff.mp ran
      exact induction (step_keeps invariant sound.1 stepped) (sound.2 middle stepped) ranRest

end Steps

section Keys

variable {s : Session}

theorem at_key_head (key : String) : ("@" ++ key).toList.head? = some '@' := by simp

theorem term_key_head {d : Definition} (issued : Issued s.definitions s.counters)
    (member : d ∈ s.definitions) (space : d.space = .term) : d.key.toList.head? ≠ some '@' := by
  intro starts
  obtain ⟨count, -, shape⟩ := issued.issued d member space
  exact (issued.named d member space).untyped (issued_for_head (by decide) shape starts)

theorem type_key_head {d : Definition} (issued : Issued s.definitions s.counters)
    (member : d ∈ s.definitions) (space : d.space = .type) : d.key.toList.head? = some '@' := by
  obtain ⟨_, key, -, keyEq, -⟩ := issued.issuedTypes d member space
  rw [keyEq]
  exact at_key_head key

theorem keys_distinct (issued : Issued s.definitions s.counters) {d d' : Definition}
    (member : d ∈ s.definitions) (member' : d' ∈ s.definitions) (distinct : Distinct d d') :
    d.key ≠ d'.key := by
  intro same
  cases space : d.space with
  | term =>
      cases space' : d'.space with
      | term =>
          obtain ⟨_, -, shape⟩ := issued.issued d member space
          obtain ⟨_, -, shape'⟩ := issued.issued d' member' space'
          rw [← same] at shape'
          have names := issued_for_name (issued.named d member space).unshadowed
            (issued.named d' member' space').unshadowed shape shape'
          exact issued.apart d member d' member' (space.trans space'.symm) names same distinct
      | type =>
          have starts := type_key_head issued member' space'
          rw [← same] at starts
          exact term_key_head issued member space starts
  | type =>
      cases space' : d'.space with
      | term =>
          have starts := type_key_head issued member space
          rw [same] at starts
          exact term_key_head issued member' space' starts
      | type =>
          obtain ⟨_, key, -, keyEq, shape, -⟩ := issued.issuedTypes d member space
          obtain ⟨_, key', -, keyEq', shape', -⟩ := issued.issuedTypes d' member' space'
          have keys : key = key' := (String.append_right_inj _).mp (keyEq ▸ keyEq' ▸ same)
          rw [← keys] at shape'
          have names := issued_for_name (issued.typeNamed d member space)
            (issued.typeNamed d' member' space') shape shape'
          exact issued.apart d member d' member' (space.trans space'.symm) names same distinct

theorem plain_of_no_hash {name : String} (free : '#' ∉ name.toList) : ¬ ShadowShaped name := by
  rintro ⟨base, n, -, rfl⟩
  rw [shadow_key_chars] at free
  simp at free

theorem builtin_type_names_plain : ∀ name ∈ builtinTypeNames, '#' ∉ name.toList := by
  decide

theorem keys_not_builtin (issued : Issued s.definitions s.counters) {d : Definition}
    (member : d ∈ s.definitions) {info : ClassInfo} (builtin : info ∈ builtinTypes) :
    d.key ≠ info.key := by
  intro same
  obtain ⟨name, nameMember, rfl⟩ := List.mem_map.mp builtin
  dsimp only at same
  cases space : d.space with
  | term =>
      apply term_key_head issued member space
      rw [same]
      exact at_key_head name
  | type =>
      obtain ⟨_, key, -, keyEq, shape, notBuiltin⟩ := issued.issuedTypes d member space
      obtain rfl : key = name := (String.append_right_inj _).mp (keyEq ▸ same)
      rcases shape with named | ⟨n, positive, -, named⟩
      · exact notBuiltin named (named ▸ nameMember)
      · exact plain_of_no_hash (builtin_type_names_plain key nameMember) ⟨_, n, positive, named⟩

theorem foreign_head {key : String} (shaped : ForeignShaped key) :
    key.toList.head? = some '_' := by
  obtain ⟨n, moduleName, rfl⟩ := shaped
  simp [foreignKey]

theorem keys_separate (invariant : Invariant s) : KeysSeparate s where
  distinct := fun _ member _ member' => keys_distinct invariant.issued member member'
  builtin := fun _ member _ builtin => keys_not_builtin invariant.issued member builtin
  foreign := by
    intro d member key foreign same
    have shaped := invariant.foreign key foreign
    cases space : d.space with
    | term =>
        obtain ⟨_, -, shape⟩ := invariant.issued.issued d member space
        exact (invariant.issued.named d member space).unforeign
          (issued_for_foreign (same ▸ shape) shaped)
    | type =>
        have starts := type_key_head invariant.issued member space
        rw [same, foreign_head shaped] at starts
        cases starts
  bindings := fun t ts name b found bound => (invariant.tables t ts found).visible.bindings name b bound
  types := fun t ts name key found bound => (invariant.tables t ts found).visible.types name key bound

end Keys

section Start

theorem builtin_types_table (infos : List ClassInfo) (g : GlobalTable) :
    let result := infos.foldl (fun g info => defineBuiltinType info g) g
    result.table = g.table ∧ result.declaredInUnit = g.declaredInUnit ∧
      result.typesDeclaredInUnit = g.typesDeclaredInUnit ∧
      ∀ name key, result.typeKeyOfName name = some key →
        g.typeKeyOfName name = some key ∨ ∃ info ∈ infos, info.key = key := by
  induction infos generalizing g with
  | nil => simp
  | cons info infos induction =>
      obtain ⟨table, declared, types, keys⟩ := induction (defineBuiltinType info g)
      refine ⟨table, declared, types, ?_⟩
      intro name key found
      rcases keys name key found with before | ⟨later, member, keyEq⟩
      · replace before :
            Function.update g.typeKeyOfName info.name (some info.key) name = some key := before
        by_cases same : name = info.name
        · rw [same, Function.update_self] at before
          exact .inr ⟨info, List.mem_cons_self, Option.some.inj before⟩
        · rw [Function.update_of_ne same] at before
          exact .inl before
      · exact .inr ⟨later, List.mem_cons_of_mem _ member, keyEq⟩

theorem fresh_invariant : Invariant fresh where
  issued := by constructor <;> simp [fresh]
  foreign := by simp [fresh]
  tables := by
    intro t ts found
    obtain ⟨table, declared, types, keys⟩ := builtin_types_table builtinTypes Globals.empty
    have isSession : t = 0 := by
      by_contra other
      simp [fresh, other] at found
    subst isSession
    simp only [fresh, ite_true, Option.some.injEq] at found
    subst found
    refine ⟨?_, ?_, ⟨?_, ?_⟩, ?_⟩
    · intro _ name inUnit
      dsimp only at inUnit
      rw [declared] at inUnit
      cases inUnit
    · intro _ name inUnit
      dsimp only at inUnit
      rw [types] at inUnit
      cases inUnit
    · intro name b bound
      dsimp only at bound
      rw [table] at bound
      cases bound
    · intro name key bound
      rcases keys name key bound with before | builtin
      · cases before
      · exact .inr builtin
    · rintro g ⟨⟩
      exact ⟨by simp [Globals.empty], by simp [Globals.empty]⟩

theorem term_name_of_chars {name : String} (free : '#' ∉ name.toList)
    (unforeign : ¬ "__module".toList <+: name.toList) (untyped : name.toList.head? ≠ some '@') :
    TermName name where
  unshadowed := plain_of_no_hash free
  unforeign := by
    rintro ⟨n, moduleName, rfl⟩
    apply unforeign
    simp [foreignKey]
  untyped := untyped

theorem builtin_global_names_plain : ∀ name ∈ builtinGlobalNames,
    '#' ∉ name.toList ∧ ¬ "__module".toList <+: name.toList ∧ name.toList.head? ≠ some '@' := by
  decide +kernel

/-- Declarations of plain names are sound as long as nothing is imported. -/
theorem declarations_sound (names : List String) (plain : ∀ name ∈ names, TermName name)
    {s : Session} (unimported : ∀ ts, s.tables 0 = some ts → ts.imported = fun _ => false) :
    SoundRun s (names.map (fun name => Step.declare 0 name .builtin) ++ [Step.succeed 0 none]) := by
  induction names generalizing s with
  | nil => exact ⟨trivial, fun _ _ => trivial⟩
  | cons name names induction =>
      refine ⟨⟨plain name List.mem_cons_self, ?_⟩, ?_⟩
      · intro ts found
        rw [unimported ts found]
      · intro s' stepped
        obtain ⟨⟨ts, snapshot⟩, compiling, declared⟩ := Option.bind_eq_some_iff.mp stepped
        obtain ⟨⟨key, c, g⟩, -, rfl⟩ := Option.map_eq_some_iff.mp declared
        obtain ⟨found, -⟩ := compiling_eq_some.mp compiling
        apply induction (fun other member => plain other (List.mem_cons_of_mem _ member))
        intro ts' found'
        simp only [Session.define, Session.setTable, Function.update_self, Option.some.injEq]
          at found'
        rw [← found']
        exact unimported ts found

theorem start_invariant : Invariant start := by
  unfold start
  cases ran : run fresh startSteps with
  | none => exact fresh_invariant
  | some s =>
      apply run_keeps fresh_invariant _ ran
      apply declarations_sound
      · intro name member
        obtain ⟨free, unforeign, untyped⟩ := builtin_global_names_plain name member
        exact term_name_of_chars free unforeign untyped
      · intro ts found
        simp only [fresh, ite_true, Option.some.injEq] at found
        rw [← found]

end Start

section Runs

variable {s : Session} {ts : TableState}

/-- The session's own table while a unit is compiled against it. -/
structure Declaring (s : Session) (ts : TableState) : Prop where
  found : s.tables 0 = some ts
  inProgress : ts.snapshot ≠ none
  bound : ∀ name, ts.globals.declaredInUnit name = true → ts.globals.table name ≠ none

/-- Declaring `names` numbers no table or unit and counts no other name. -/
structure Declared (names : List String) (s s' : Session) : Prop where
  tableCount : s'.tableCount = s.tableCount
  units : s'.units = s.units
  types : s'.counters.types = s.counters.types
  terms : ∀ name, name ∉ names → s'.counters.terms name = s.counters.terms name

theorem set_table_self (s : Session) (t : Nat) (ts : TableState) :
    (s.setTable t ts).tables t = some ts := by
  simp [Session.setTable]

/-- A table whose own names are all bound declares every name, and keeps them bound. -/
theorem declare_bound {g : GlobalTable}
    (bound : ∀ name, g.declaredInUnit name = true → g.table name ≠ none) (name : String)
    (kind : BindingKind) (c : Counters) :
    ∃ key c' g', Globals.declare name kind c g = some (key, c', g') ∧ c'.types = c.types ∧
      (∀ other, other ≠ name → c'.terms other = c.terms other) ∧
      ∀ other, g'.declaredInUnit other = true → g'.table other ≠ none := by
  have others : ∀ b other, (other ≠ name → g.declaredInUnit other = true) →
      Function.update g.table name (some b) other ≠ none := by
    intro b other inUnit
    by_cases same : other = name
    · rw [same, Function.update_self]
      exact Option.some_ne_none b
    · rw [Function.update_of_ne same]
      exact bound other (inUnit same)
  unfold Globals.declare
  by_cases again : g.declaredInUnit name = true
  · obtain ⟨b, binding⟩ := Option.ne_none_iff_exists'.mp (bound name again)
    rw [if_pos again, binding]
    exact ⟨_, _, _, rfl, rfl, fun _ _ => rfl, fun other inUnit => others _ other fun _ => inUnit⟩
  · rw [if_neg again]
    refine ⟨_, _, _, rfl, rfl, ?_, fun other inUnit => others _ other ?_⟩
    · intro other differs
      dsimp only [nextKey]
      cases c.terms name <;> exact Function.update_of_ne differs ..
    · intro differs
      dsimp only at inUnit
      rwa [Function.update_of_ne differs] at inUnit

theorem declare_runs (declaring : Declaring s ts) (name : String) (kind : BindingKind) :
    ∃ s' ts', step s (.declare 0 name kind) = some s' ∧ Declaring s' ts' ∧
      Declared [name] s s' := by
  obtain ⟨snapshot, inProgress⟩ := Option.ne_none_iff_exists'.mp declaring.inProgress
  obtain ⟨key, c, g, declared, types, terms, bound⟩ :=
    declare_bound declaring.bound name kind s.counters
  refine ⟨s.define 0 ts c g ⟨.term, ts.unit, name, none, key⟩, { ts with globals := g }, ?_,
    ⟨set_table_self s 0 _, declaring.inProgress, bound⟩, ⟨rfl, rfl, types, ?_⟩⟩
  · have compiling := compiling_eq_some.mpr ⟨declaring.found, inProgress⟩
    simp only [step, compiling, Option.bind_some, declared, Option.map_some]
  · intro other outside
    exact terms other (by simpa using outside)

/-- The constructor's declarations all succeed and leave the table idle. -/
theorem declarations_run (names : List String) (declaring : Declaring s ts) :
    ∃ s' ts', run s (names.map (fun name => Step.declare 0 name .builtin) ++
        [Step.succeed 0 none]) = some s' ∧
      s'.idle 0 = some ts' ∧ Declared names s s' := by
  induction names generalizing s ts with
  | nil =>
      obtain ⟨snapshot, inProgress⟩ := Option.ne_none_iff_exists'.mp declaring.inProgress
      have compiling := compiling_eq_some.mpr ⟨declaring.found, inProgress⟩
      refine ⟨s.setTable 0 { ts with snapshot := none }, { ts with snapshot := none }, ?_, ?_,
        ⟨rfl, rfl, rfl, fun _ _ => rfl⟩⟩
      · simp [run, step, compiling]
      · exact idle_eq_some.mpr ⟨set_table_self s 0 _, rfl⟩
  | cons name names induction =>
      obtain ⟨s', ts', stepped, declaring', first⟩ := declare_runs declaring name .builtin
      obtain ⟨last, ts'', ran, idle, rest⟩ := induction declaring'
      refine ⟨last, ts'', ?_, idle, rest.tableCount.trans first.tableCount,
        rest.units.trans first.units, rest.types.trans first.types, ?_⟩
      · simp only [List.map_cons, List.cons_append, run, stepped, Option.bind_some, ran]
      · intro other outside
        simp only [List.mem_cons, not_or] at outside
        rw [rest.terms other outside.2, first.terms other (by simpa using outside.1)]

theorem fresh_declaring : ∃ ts, Declaring fresh ts := by
  refine ⟨_, rfl, by simp, ?_⟩
  intro name inUnit
  dsimp only at inUnit
  rw [(builtin_types_table _ _).2.1] at inUnit
  cases inUnit

theorem start_runs : ∃ ts, start.idle 0 = some ts ∧ Declared builtinGlobalNames fresh start := by
  obtain ⟨ts, declaring⟩ := fresh_declaring
  obtain ⟨s, ts', ran, idle, declared⟩ := declarations_run builtinGlobalNames declaring
  have started : start = s := by
    unfold start startSteps
    rw [ran]
    rfl
  exact ⟨ts', started ▸ idle, started ▸ declared⟩

theorem start_terms {name : String} (outside : name ∉ builtinGlobalNames) :
    start.counters.terms name = none := by
  obtain ⟨-, -, declared⟩ := start_runs
  exact declared.terms name outside

end Runs

/-- A unit that declares `x` and fails. -/
def failingUnit : List Step := [.beginUnit 0, .declare 0 "x" .val, .fail 0]

theorem failing_unit_sound (s : Session) : SoundRun s failingUnit := by
  refine ⟨trivial, ?_⟩
  intro begun began
  obtain ⟨ts, -, rfl⟩ := Option.map_eq_some_iff.mp began
  refine ⟨⟨term_name_of_chars (by decide) (by decide) (by decide), ?_⟩, ?_⟩
  · intro ts' found
    simp only [Session.setTable, Function.update_self, Option.some.injEq] at found
    rw [← found]
  · intro declared _
    exact ⟨trivial, fun _ _ => trivial⟩

theorem failing_unit_succeeds {s : Session} {ts : TableState}
    (idle : s.idle 0 = some ts) : (run s failingUnit).isSome = true := by
  obtain ⟨found, absent⟩ := idle_eq_some.mp idle
  simp [failingUnit, run, step, found, absent, Session.idle, Session.compiling, Session.setTable,
    Session.define, Globals.declare, Globals.beginUnit, Option.filter_some]

theorem failing_unit_runs : (run start failingUnit).isSome = true := by
  obtain ⟨ts, idle, -⟩ := start_runs
  exact failing_unit_succeeds idle

/-- `x` is defined in two units, so the second has the key `x#1`, which a third
unit then takes for the back-quoted name. -/
def backquotedSession : List Step :=
  [.beginUnit 0, .declare 0 "x" .val, .store 0 "x", .succeed 0 none,
    .beginUnit 0, .declare 0 "x" .val, .store 0 "x", .succeed 0 none,
    .beginUnit 0, .declare 0 "x#1" .val, .store 0 "x#1", .succeed 0 none]

/-- A unit imports `Point` of a module and defines a class of that name. -/
def importedSession : List Step :=
  [.fork 0, .beginUnit 1, .declareType 1 "Lib.Point", .succeed 1 none,
    .beginUnit 0, .aliasType 0 "Point" 1 "Lib.Point", .declareType 0 "Point", .succeed 0 none]

section Collisions

variable {s : Session} {ts : TableState}

/-- A unit that defines one value. -/
def valueUnit (name : String) : List Step :=
  [.beginUnit 0, .declare 0 name .val, .store 0 name, .succeed 0 none]

theorem value_unit_runs (idle : s.idle 0 = some ts) (name : String) :
    ∃ s' ts', run s (valueUnit name) = some s' ∧
      s'.idle 0 = some ts' ∧ s'.units = s.units + 1 ∧
      s'.counters.terms = (nextKey s.counters.terms name).2 ∧ s.definitions ⊆ s'.definitions ∧
      ⟨.term, s.units + 1, name, none, (nextKey s.counters.terms name).1⟩ ∈ s'.definitions := by
  obtain ⟨found, absent⟩ := idle_eq_some.mp idle
  simp [valueUnit, run, step, found, absent, Session.idle, Session.compiling, Session.setTable,
    Session.define, Globals.declare, Globals.beginUnit, Option.filter_some]

theorem backquoted_session_runs (idle : s.idle 0 = some ts) (units : s.units = 0)
    (unknown : s.counters.terms "x" = none) (unknown' : s.counters.terms "x#1" = none) :
    ∃ s', run s backquotedSession = some s' ∧
      ⟨.term, 2, "x", none, "x#1"⟩ ∈ s'.definitions ∧
      ⟨.term, 3, "x#1", none, "x#1"⟩ ∈ s'.definitions := by
  obtain ⟨first, ts₁, ran₁, idle₁, units₁, terms₁, -, -⟩ := value_unit_runs idle "x"
  obtain ⟨second, ts₂, ran₂, idle₂, units₂, terms₂, -, member₂⟩ := value_unit_runs idle₁ "x"
  obtain ⟨third, ts₃, ran₃, -, -, -, more₃, member₃⟩ := value_unit_runs idle₂ "x#1"
  have known₁ : first.counters.terms "x" = some 0 := by
    simp [terms₁, nextKey, unknown]
  have unknown₂ : second.counters.terms "x#1" = none := by
    simp [terms₂, nextKey, known₁, terms₁, unknown, unknown']
  have key₂ : (nextKey first.counters.terms "x").1 = "x#1" := by
    simp only [nextKey, known₁]
    decide
  have key₃ : (nextKey second.counters.terms "x#1").1 = "x#1" := by
    simp only [nextKey, unknown₂]
  rw [units₁, units, key₂] at member₂
  rw [units₂, units₁, units, key₃] at member₃
  have split : backquotedSession = valueUnit "x" ++ (valueUnit "x" ++ valueUnit "x#1") := rfl
  refine ⟨third, ?_, more₃ member₂, member₃⟩
  rw [split, run_append, ran₁, Option.bind_some, run_append, ran₂, Option.bind_some, ran₃]

theorem imported_session_runs (idle : s.idle 0 = some ts) (tableCount : s.tableCount = 1)
    (units : s.units = 0) (types : s.counters.types = fun _ => none) :
    ∃ s', run s importedSession = some s' ∧
      ⟨.type, 1, "Lib.Point", none, "@Lib.Point"⟩ ∈ s'.definitions ∧
      ⟨.type, 2, "Point", none, "@Lib.Point"⟩ ∈ s'.definitions := by
  obtain ⟨found, absent⟩ := idle_eq_some.mp idle
  simp [importedSession, run, step, Session.idle, found, absent, Session.compiling,
    Session.setTable, Session.define, Globals.declareType, nextKey, Globals.aliasType,
    Globals.beginUnit, tableCount, units, types, Option.filter_some]

theorem keys_collide {d d' : Definition} (member : d ∈ s.definitions) (member' : d' ∈ s.definitions)
    (distinct : Distinct d d') (same : d.key = d'.key) : ¬ KeysSeparate s :=
  fun separate => separate.distinct d member d' member' distinct same

end Collisions

end ProtoScala.Compiler.SessionKeys
