import Mathlib
import ProtoScala.Compiler.Globals

/-!
# Runtime keys over a whole session

A session compiles units one after another, loads modules while it compiles
them, and drops the units that fail. All its tables are copies that share the key
counters. Every definition the units make is recorded with the key it was given,
so that the keys of a whole session can be compared.
-/

namespace ProtoScala.Compiler.SessionTables

open ProtoScala.Compiler.Globals

set_option autoImplicit false

inductive Space where
  | term | type
  deriving DecidableEq, Repr

/-- A definition a unit made, and the global its value is stored in. Methods that
differ in their number of parameters are different alternatives. -/
structure Definition where
  space : Space
  unit : Nat
  name : String
  alternative : Option Nat
  key : String
  deriving DecidableEq

/-- A table and the unit being compiled against it. `snapshot` is the table as it
stood when that unit began. -/
structure TableState where
  globals : GlobalTable
  snapshot : Option GlobalTable
  unit : Nat
  imported : String → Bool
  importedTypes : String → Bool

structure Session where
  counters : Counters
  moduleCounter : Nat
  tables : Nat → Option TableState
  tableCount : Nat
  units : Nat
  definitions : List Definition
  foreign : List String

/-- One call into the tables. `t` is the table of the unit being compiled;
`source` is any table of the session, the same one included. -/
inductive Step where
  | fork (source : Nat)
  | beginUnit (t : Nat)
  | declare (t : Nat) (name : String) (kind : BindingKind)
  | declareDef (t : Nat) (name : String) (kind : BindingKind) (arity : Nat)
  | declareType (t : Nat) (name : String)
  | declareTypeAlias (t : Nat) (name target : String)
  | defineType (t : Nat) (info : ClassInfo)
  | store (t : Nat) (name : String)
  | bind (t : Nat) (bound : String) (source : Nat) (name : String)
  | aliasType (t : Nat) (bound : String) (source : Nat) (name : String)
  | loadForeign (moduleName : String)
  | bindForeignMember (moduleKey name : String)
  | bindForeign (t : Nat) (bound key : String)
  | succeed (t : Nat) (dropped : Option String)
  | fail (t : Nat)

def Session.setTable (s : Session) (t : Nat) (ts : TableState) : Session :=
  { s with tables := Function.update s.tables t (some ts) }

/-- The table of a unit that is being compiled, and its snapshot. -/
def Session.compiling (s : Session) (t : Nat) : Option (TableState × GlobalTable) :=
  (s.tables t).bind fun ts => ts.snapshot.map fun snapshot => (ts, snapshot)

/-- A table no unit is being compiled against. -/
def Session.idle (s : Session) (t : Nat) : Option TableState :=
  (s.tables t).filter fun ts => ts.snapshot.isNone

def Session.define (s : Session) (t : Nat) (ts : TableState) (c : Counters) (g : GlobalTable)
    (d : Definition) : Session :=
  { s.setTable t { ts with globals := g } with
    counters := c, definitions := s.definitions ++ [d] }

def step (s : Session) : Step → Option Session
  | .fork source =>
      (s.idle source).map fun ts =>
        { s.setTable s.tableCount ts with tableCount := s.tableCount + 1 }
  | .beginUnit t =>
      (s.idle t).map fun ts =>
        { s.setTable t
            { globals := Globals.beginUnit ts.globals
              snapshot := some ts.globals
              unit := s.units + 1
              imported := fun _ => false
              importedTypes := fun _ => false } with units := s.units + 1 }
  | .declare t name kind =>
      (s.compiling t).bind fun (ts, _) =>
        (Globals.declare name kind s.counters ts.globals).map fun (key, c, g) =>
          s.define t ts c g ⟨.term, ts.unit, name, none, key⟩
  | .declareDef t name kind arity =>
      (s.compiling t).bind fun (ts, _) =>
        (Globals.declareDef name kind arity s.counters ts.globals).map fun (key, _, c, g) =>
          s.define t ts c g ⟨.term, ts.unit, name, some arity, key⟩
  | .declareType t name =>
      (s.compiling t).bind fun (ts, _) =>
        (Globals.declareType name s.counters ts.globals).map fun (key, c, g) =>
          s.define t ts c g ⟨.type, ts.unit, name, none, key⟩
  | .declareTypeAlias t name target =>
      (s.compiling t).map fun (ts, _) =>
        s.setTable t { ts with globals := Globals.declareTypeAlias name target ts.globals }
  | .defineType t info =>
      (s.compiling t).map fun (ts, _) =>
        s.setTable t { ts with globals := Globals.defineType info ts.globals }
  -- A value's initialiser is stored under the key its name has by then.
  | .store t name =>
      (s.compiling t).bind fun (ts, _) =>
        if ts.globals.declaredInUnit name then
          (ts.globals.table name).map fun b =>
            s.define t ts s.counters ts.globals ⟨.term, ts.unit, name, none, b.key⟩
        else none
  | .bind t bound source name =>
      (s.compiling t).bind fun (ts, _) =>
        ((s.tables source).bind fun origin => origin.globals.table name).map fun b =>
          let (c, g) := Globals.bind bound b s.counters ts.globals
          { s.setTable t { ts with globals := g, imported := Function.update ts.imported bound true }
            with counters := c }
  | .aliasType t bound source name =>
      (s.compiling t).bind fun (ts, _) =>
        ((s.tables source).bind fun origin => origin.globals.typeKeyOfName name).map fun key =>
          let (c, g) := Globals.aliasType bound key s.counters ts.globals
          { s.setTable t
              { ts with globals := g, importedTypes := Function.update ts.importedTypes bound true }
            with counters := c }
  | .loadForeign moduleName =>
      some { s with
        moduleCounter := s.moduleCounter + 1
        foreign := foreignKey (s.moduleCounter + 1) moduleName :: s.foreign }
  | .bindForeignMember moduleKey name =>
      if moduleKey ∈ s.foreign then
        some { s with foreign := (moduleKey ++ "$" ++ name) :: s.foreign }
      else none
  | .bindForeign t bound key =>
      (s.compiling t).bind fun (ts, _) =>
        if key ∈ s.foreign then
          let (c, g) := Globals.bind bound { kind := .val, key := key } s.counters ts.globals
          some { s.setTable t
              { ts with globals := g, imported := Function.update ts.imported bound true }
            with counters := c }
        else none
  -- A result of type Unit is not bound: its name resolves as before the unit.
  | .succeed t dropped =>
      (s.compiling t).map fun (ts, snapshot) =>
        let globals := match dropped with
          | some name => restore name snapshot ts.globals
          | none => ts.globals
        s.setTable t { ts with globals := globals, snapshot := none }
  | .fail t =>
      (s.compiling t).map fun (ts, snapshot) =>
        s.setTable t { ts with globals := snapshot, snapshot := none }

def run (s : Session) : List Step → Option Session
  | [] => some s
  | next :: rest => (step s next).bind fun s => run s rest

/-- The session's table with the built-in types, while its constructor is still
declaring the built-in names. -/
def fresh : Session where
  counters := ⟨fun _ => none, fun _ => none⟩
  moduleCounter := 0
  tables := fun t =>
    if t = 0 then
      some
        { globals := builtinTypes.foldl (fun g info => defineBuiltinType info g) Globals.empty
          snapshot := some Globals.empty
          unit := 0
          imported := fun _ => false
          importedTypes := fun _ => false }
    else none
  tableCount := 1
  units := 0
  definitions := []
  foreign := []

def startSteps : List Step :=
  builtinGlobalNames.map (fun name => Step.declare 0 name .builtin) ++ [Step.succeed 0 none]

/-- The session after its constructor. The prelude is its first unit. -/
def start : Session := (run fresh startSteps).getD fresh

section Access

variable {s : Session} {t : Nat} {ts : TableState} {snapshot : GlobalTable}

theorem compiling_eq_some :
    s.compiling t = some (ts, snapshot) ↔ s.tables t = some ts ∧ ts.snapshot = some snapshot := by
  unfold Session.compiling
  cases s.tables t with
  | none => simp
  | some found =>
      simp only [Option.bind_some, Option.map_eq_some_iff, Prod.mk.injEq, Option.some.injEq]
      constructor
      · rintro ⟨g, present, rfl, rfl⟩
        exact ⟨rfl, present⟩
      · rintro ⟨rfl, present⟩
        exact ⟨snapshot, present, rfl, rfl⟩

theorem idle_eq_some : s.idle t = some ts ↔ s.tables t = some ts ∧ ts.snapshot = none := by
  unfold Session.idle
  simp [Option.filter_eq_some_iff]

end Access

section Rollback

/-- The step ends the unit being compiled against table `t`. -/
def Ends (t : Nat) : Step → Prop
  | .succeed t' _ => t' = t
  | .fail t' => t' = t
  | _ => False

theorem run_append (s : Session) (first second : List Step) :
    run s (first ++ second) = (run s first).bind fun s => run s second := by
  induction first generalizing s with
  | nil => rfl
  | cons next rest induction =>
      simp only [List.cons_append, run, Option.bind_assoc, induction]

/-- What one step does to the tables: nothing, a copy at the next number, or a
change of one table that keeps the snapshot of the unit it does not end. -/
theorem step_tables {s s' : Session} {next : Step} (stepped : step s next = some s') :
    (s'.tables = s.tables ∧ s'.tableCount = s.tableCount) ∨
    (∃ ts, s'.tables = Function.update s.tables s.tableCount (some ts) ∧
      s'.tableCount = s.tableCount + 1) ∨
    ∃ t ts ts', s.tables t = some ts ∧ s'.tables = Function.update s.tables t (some ts') ∧
      s'.tableCount = s.tableCount ∧
      (ts.snapshot = none ∨ ts'.snapshot = ts.snapshot ∨ Ends t next) := by
  cases next with
  | fork source =>
      obtain ⟨ts, idle, rfl⟩ := Option.map_eq_some_iff.mp stepped
      exact .inr (.inl ⟨ts, rfl, rfl⟩)
  | beginUnit t =>
      obtain ⟨ts, idle, rfl⟩ := Option.map_eq_some_iff.mp stepped
      obtain ⟨found, absent⟩ := idle_eq_some.mp idle
      exact .inr (.inr ⟨t, ts, _, found, rfl, rfl, .inl absent⟩)
  | declare t name kind =>
      obtain ⟨⟨ts, snapshot⟩, compiling, declared⟩ := Option.bind_eq_some_iff.mp stepped
      obtain ⟨⟨key, c, g⟩, -, rfl⟩ := Option.map_eq_some_iff.mp declared
      exact .inr (.inr ⟨t, ts, _, (compiling_eq_some.mp compiling).1, rfl, rfl, .inr (.inl rfl)⟩)
  | declareDef t name kind arity =>
      obtain ⟨⟨ts, snapshot⟩, compiling, declared⟩ := Option.bind_eq_some_iff.mp stepped
      obtain ⟨⟨key, duplicate, c, g⟩, -, rfl⟩ := Option.map_eq_some_iff.mp declared
      exact .inr (.inr ⟨t, ts, _, (compiling_eq_some.mp compiling).1, rfl, rfl, .inr (.inl rfl)⟩)
  | declareType t name =>
      obtain ⟨⟨ts, snapshot⟩, compiling, declared⟩ := Option.bind_eq_some_iff.mp stepped
      obtain ⟨⟨key, c, g⟩, -, rfl⟩ := Option.map_eq_some_iff.mp declared
      exact .inr (.inr ⟨t, ts, _, (compiling_eq_some.mp compiling).1, rfl, rfl, .inr (.inl rfl)⟩)
  | declareTypeAlias t name target =>
      obtain ⟨⟨ts, snapshot⟩, compiling, rfl⟩ := Option.map_eq_some_iff.mp stepped
      exact .inr (.inr ⟨t, ts, _, (compiling_eq_some.mp compiling).1, rfl, rfl, .inr (.inl rfl)⟩)
  | defineType t info =>
      obtain ⟨⟨ts, snapshot⟩, compiling, rfl⟩ := Option.map_eq_some_iff.mp stepped
      exact .inr (.inr ⟨t, ts, _, (compiling_eq_some.mp compiling).1, rfl, rfl, .inr (.inl rfl)⟩)
  | store t name =>
      obtain ⟨⟨ts, snapshot⟩, compiling, stored⟩ := Option.bind_eq_some_iff.mp stepped
      by_cases inUnit : ts.globals.declaredInUnit name = true
      · simp only [inUnit, ite_true] at stored
        obtain ⟨b, -, rfl⟩ := Option.map_eq_some_iff.mp stored
        exact .inr (.inr ⟨t, ts, _, (compiling_eq_some.mp compiling).1, rfl, rfl, .inr (.inl rfl)⟩)
      · simp [inUnit] at stored
  | bind t bound source name =>
      obtain ⟨⟨ts, snapshot⟩, compiling, imported⟩ := Option.bind_eq_some_iff.mp stepped
      obtain ⟨b, -, rfl⟩ := Option.map_eq_some_iff.mp imported
      exact .inr (.inr ⟨t, ts, _, (compiling_eq_some.mp compiling).1, rfl, rfl, .inr (.inl rfl)⟩)
  | aliasType t bound source name =>
      obtain ⟨⟨ts, snapshot⟩, compiling, imported⟩ := Option.bind_eq_some_iff.mp stepped
      obtain ⟨key, -, rfl⟩ := Option.map_eq_some_iff.mp imported
      exact .inr (.inr ⟨t, ts, _, (compiling_eq_some.mp compiling).1, rfl, rfl, .inr (.inl rfl)⟩)
  | loadForeign moduleName =>
      cases stepped
      exact .inl ⟨rfl, rfl⟩
  | bindForeignMember moduleKey name =>
      by_cases known : moduleKey ∈ s.foreign
      · simp only [step, known, ite_true, Option.some.injEq] at stepped
        subst stepped
        exact .inl ⟨rfl, rfl⟩
      · simp [step, known] at stepped
  | bindForeign t bound key =>
      obtain ⟨⟨ts, snapshot⟩, compiling, imported⟩ := Option.bind_eq_some_iff.mp stepped
      by_cases known : key ∈ s.foreign
      · simp only [known, ite_true, Option.some.injEq] at imported
        subst imported
        exact .inr (.inr ⟨t, ts, _, (compiling_eq_some.mp compiling).1, rfl, rfl, .inr (.inl rfl)⟩)
      · simp [known] at imported
  | succeed t dropped =>
      obtain ⟨⟨ts, snapshot⟩, compiling, rfl⟩ := Option.map_eq_some_iff.mp stepped
      exact .inr (.inr ⟨t, ts, _, (compiling_eq_some.mp compiling).1, rfl, rfl, .inr (.inr rfl)⟩)
  | fail t =>
      obtain ⟨⟨ts, snapshot⟩, compiling, rfl⟩ := Option.map_eq_some_iff.mp stepped
      exact .inr (.inr ⟨t, ts, _, (compiling_eq_some.mp compiling).1, rfl, rfl, .inr (.inr rfl)⟩)

/-- Tables are numbered from zero without gaps beyond the count. -/
def Counted (s : Session) : Prop := ∀ t, s.tableCount ≤ t → s.tables t = none

theorem step_counted {s s' : Session} {next : Step} (counted : Counted s)
    (stepped : step s next = some s') : Counted s' := by
  intro t beyond
  rcases step_tables stepped with ⟨tables, count⟩ | ⟨ts, tables, count⟩ |
    ⟨changed, ts, ts', found, tables, count, -⟩
  · rw [tables]
    exact counted t (count ▸ beyond)
  · rw [tables, Function.update_of_ne (by omega)]
    exact counted t (by omega)
  · have inside : changed ≠ t := by
      rintro rfl
      rw [counted changed (count ▸ beyond)] at found
      cases found
    rw [tables, Function.update_of_ne inside.symm]
    exact counted t (count ▸ beyond)

theorem run_counted {s s' : Session} {steps : List Step} (counted : Counted s)
    (ran : run s steps = some s') : Counted s' := by
  induction steps generalizing s with
  | nil =>
      cases ran
      exact counted
  | cons next rest induction =>
      obtain ⟨middle, stepped, ranRest⟩ := Option.bind_eq_some_iff.mp ran
      exact induction (step_counted counted stepped) ranRest

theorem start_counted : Counted start := by
  have freshCounted : Counted fresh := by
    intro t beyond
    have other : t ≠ 0 := by
      simp only [fresh] at beyond
      omega
    simp [fresh, other]
  unfold start
  cases ran : run fresh startSteps with
  | none => exact freshCounted
  | some s => exact run_counted freshCounted ran

/-- The snapshot of a unit stays until the step that ends the unit. -/
theorem step_snapshot {s s' : Session} {next : Step} {t : Nat} {g : GlobalTable}
    (counted : Counted s) (snapshot : ∃ ts, s.tables t = some ts ∧ ts.snapshot = some g)
    (goesOn : ¬ Ends t next) (stepped : step s next = some s') :
    ∃ ts, s'.tables t = some ts ∧ ts.snapshot = some g := by
  obtain ⟨ts, found, present⟩ := snapshot
  rcases step_tables stepped with ⟨tables, -⟩ | ⟨copy, tables, -⟩ |
    ⟨changed, old, new, oldFound, tables, -, kept⟩
  · exact ⟨ts, by rw [tables, found], present⟩
  · have inside : t ≠ s.tableCount := by
      rintro rfl
      rw [counted _ le_rfl] at found
      cases found
    exact ⟨ts, by rw [tables, Function.update_of_ne inside, found], present⟩
  · by_cases same : t = changed
    · subst same
      rw [found] at oldFound
      cases oldFound
      refine ⟨new, by rw [tables, Function.update_self], ?_⟩
      rcases kept with absent | kept | ends
      · rw [absent] at present
        cases present
      · rw [kept, present]
      · exact absurd ends goesOn
    · exact ⟨ts, by rw [tables, Function.update_of_ne same, found], present⟩

theorem run_snapshot {s s' : Session} {steps : List Step} {t : Nat} {g : GlobalTable}
    (counted : Counted s) (snapshot : ∃ ts, s.tables t = some ts ∧ ts.snapshot = some g)
    (goesOn : ∀ next ∈ steps, ¬ Ends t next) (ran : run s steps = some s') :
    ∃ ts, s'.tables t = some ts ∧ ts.snapshot = some g := by
  induction steps generalizing s with
  | nil =>
      cases ran
      exact snapshot
  | cons next rest induction =>
      obtain ⟨middle, stepped, ranRest⟩ := Option.bind_eq_some_iff.mp ran
      exact induction (step_counted counted stepped)
        (step_snapshot counted snapshot (goesOn next List.mem_cons_self) stepped)
        (fun later member => goesOn later (List.mem_cons_of_mem _ member)) ranRest

/-- The whole table a session shows under number `t`. -/
def Session.shown (s : Session) (t : Nat) : Option GlobalTable :=
  (s.tables t).map TableState.globals

/-- A unit that fails leaves its table as it was when the unit began, whatever the
unit and the modules it loaded did in between. -/
theorem failed_unit_restores {s s' : Session} {t : Nat} {during : List Step} (counted : Counted s)
    (goesOn : ∀ next ∈ during, ¬ Ends t next)
    (ran : run s (.beginUnit t :: (during ++ [Step.fail t])) = some s') :
    s'.shown t = s.shown t := by
  obtain ⟨begun, began, ranRest⟩ := Option.bind_eq_some_iff.mp ran
  have begunCounted := step_counted counted began
  obtain ⟨ts, idle, rfl⟩ := Option.map_eq_some_iff.mp began
  obtain ⟨found, -⟩ := idle_eq_some.mp idle
  rw [run_append] at ranRest
  obtain ⟨last, ranDuring, ranFail⟩ := Option.bind_eq_some_iff.mp ranRest
  obtain ⟨ts', found', present⟩ := run_snapshot (t := t) (g := ts.globals) begunCounted
    ⟨_, by simp [Session.setTable]; rfl, rfl⟩ goesOn ranDuring
  obtain ⟨final, failed, finished⟩ := Option.bind_eq_some_iff.mp ranFail
  cases finished
  obtain ⟨⟨ts'', snapshot⟩, compiling, rfl⟩ := Option.map_eq_some_iff.mp failed
  obtain ⟨found'', present''⟩ := compiling_eq_some.mp compiling
  rw [found'] at found''
  cases found''
  rw [present] at present''
  cases present''
  simp [Session.shown, Session.setTable, found]

end Rollback

end ProtoScala.Compiler.SessionTables
