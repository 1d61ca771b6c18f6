import ProtoScala.Repl.ModuleOnce
import Mathlib.Order.WellFounded

/-!
# Import cycles across threads

`claim` reports a cycle when the calling thread itself holds the module, and lets
every other caller wait. A thread that waits for a module from which a module of its
own can be reached through imports may wait for ever: the holder comes to wait for
it in turn. Where no thread starts such a wait, no group of threads waits for one
another, and the load of a module on an import cycle ends with the cycle reported.

The import graph has an edge for every prefix of an import statement that names a
source file. The first such prefix is the one the statement denotes; a later one is
tried only when those before it have failed, so the cycles that have to be reported
are those of the first prefixes.
-/

namespace ProtoScala.Repl.ImportCycles

open ProtoScala.Library.Processes
open ProtoScala.Repl.ModuleLoading
open ProtoScala.Repl.ModuleOnce

set_option autoImplicit false

/-- One file may come to load another. -/
def Imports (files : Files) (path next : Path) : Prop :=
  ∃ statement ∈ files path, ∃ target, Candidate.file target ∈ statement.candidates ∧
    target.absPath = next

/-- The file that an import statement denotes, if it is a source file. -/
def firstFile : List Candidate → Option Path
  | [] => none
  | .file target :: _ => some target.absPath
  | .foreign :: _ => none
  | .absent _ :: rest => firstFile rest

/-- One file always loads another. -/
def Denotes (files : Files) (path next : Path) : Prop :=
  ∃ statement ∈ files path, firstFile statement.candidates = some next

variable {Thread Module : Type}

/-- From a file one reaches a module whose import was reported as cyclic, or one that
failed by itself. -/
def Reported (files : Files) (session : Session Thread Module) (path : Path) : Prop :=
  ∃ origin, Relation.ReflTransGen (Imports files) path origin ∧
    ((∃ thread, (thread, origin) ∈ session.cycles) ∨ origin ∈ session.faults)

/-- Threads that wait for modules claimed by others among them. -/
def Deadlocked (system : Loader Thread Module) (group : Set Thread) : Prop :=
  group.Nonempty ∧ ∀ thread ∈ group, ∃ target callers owner,
    system.locals thread = .awaiting target :: callers ∧
      system.shared.table.loading target.absPath = some owner ∧ owner ∈ group ∧ owner ≠ thread

/-- A thread asleep in `awaitLoaded`. -/
def Blocked (system : Loader Thread Module) (thread : Thread) : Prop :=
  ∃ target callers, system.locals thread = .awaiting target :: callers ∧
    awaitLoaded system.shared.table target.absPath = none

/-- No group of threads waits for one another, so some thread can go on while any
load is under way; and once the load of a file on an import cycle has ended, the
cause is reported, a cyclic import being reported only for a file on a cycle. -/
structure CyclesReported (files : Files) (system : Loader Thread Module) : Prop where
  noDeadlock : ∀ group, ¬Deadlocked system group
  progress : ∀ thread, system.locals thread ≠ [] →
    ∃ other, system.locals other ≠ [] ∧ ¬Blocked system other
  reported : ∀ path, Relation.TransGen (Denotes files) path path →
    (find system.shared.table path).isSome ∨ path ∈ system.shared.abandoned →
    Reported files system.shared path
  cyclic : ∀ entry ∈ system.shared.cycles, Relation.TransGen (Imports files) entry.2 entry.2

/-- Whether a thread that is about to wait for another holds no module that can be
reached from the one it waits for. -/
def Unentangled (files : Files) (system : Loader Thread Module)
    (turn : Thread × Files × Move Module) : Prop :=
  ∀ target callers owner, system.locals turn.1 = .claiming target :: callers →
    turn.2.2 = .advance → system.shared.table.loading target.absPath = some owner →
    owner ≠ turn.1 →
    ∀ path ∈ held callers, ¬Relation.ReflTransGen (Imports files) target.absPath path

theorem firstFile_mem {candidates : List Candidate} {path : Path}
    (first : firstFile candidates = some path) :
    ∃ target, Candidate.file target ∈ candidates ∧ target.absPath = path := by
  induction candidates with
  | nil => cases first
  | cons candidate rest induction =>
      cases candidate with
      | file target => exact ⟨target, List.mem_cons_self, Option.some.inj first⟩
      | foreign => cases first
      | absent text =>
          obtain ⟨target, member, same⟩ := induction first
          exact ⟨target, List.mem_cons_of_mem _ member, same⟩

theorem Denotes.imports {files : Files} {path next : Path} (denotes : Denotes files path next) :
    Imports files path next := by
  obtain ⟨statement, member, first⟩ := denotes
  obtain ⟨target, inside, same⟩ := firstFile_mem first
  exact ⟨statement, member, target, inside, same⟩

variable {files : Files} {session after : Session Thread Module}

theorem Reported.step {path next : Path} (edge : Imports files path next)
    (reported : Reported files session next) : Reported files session path := by
  obtain ⟨origin, reaches, cause⟩ := reported
  exact ⟨origin, Relation.ReflTransGen.head edge reaches, cause⟩

/-- The load of a file has ended well, or its failure is reported. -/
def Settled (files : Files) (session : Session Thread Module) (path : Path) : Prop :=
  (session.table.loaded path).isSome ∨ Reported files session path

/-- A file is being loaded, or settled. -/
def Known (files : Files) (session : Session Thread Module) (path : Path) : Prop :=
  (session.table.loading path).isSome ∨ Settled files session path

/-- What a session knows only grows. -/
structure Grows (files : Files) (session after : Session Thread Module) : Prop where
  loaded : ∀ path, (session.table.loaded path).isSome → (after.table.loaded path).isSome
  reported : ∀ path, Reported files session path → Reported files after path
  known : ∀ path, Known files session path → Known files after path

def Resolved (files : Files) (session : Session Thread Module) (statement : Import) : Prop :=
  ∀ path, firstFile statement.candidates = some path → Settled files session path

/-- A file is being compiled and stands at one of its import statements. The file
the statement denotes is settled unless it is among those still to come. -/
structure Compiling (files : Files) (session : Session Thread Module) (path : Path)
    (resolving : Resolving) (left : List Import) (coming : Path → Prop) : Prop where
  ahead : ∀ statement ∈ left, statement ∈ files path
  current : ∃ statement ∈ files path,
    (∀ candidate ∈ resolving.candidates, candidate ∈ statement.candidates) ∧
      (∀ next, firstFile statement.candidates = some next →
        Settled files session next ∨ coming next) ∧
      ∀ other ∈ files path, other ∈ left ∨ Resolved files session other ∨ other = statement
  failed : ∀ next ∈ resolving.failed, Imports files path next ∧ Reported files session next

/-- The calls around the load of a file: each stands at an import statement that led
to the next. -/
def Calls (files : Files) (session : Session Thread Module) :
    Path → List (Frame Module) → Prop
  | _, [] => True
  | path, .importing caller (some resolving) left :: outer =>
      Imports files caller.absPath path ∧
        Compiling files session caller.absPath resolving left (fun next => next = path) ∧
        Calls files session caller.absPath outer
  | _, _ :: _ => False

/-- What holds of the innermost call by where it stands. -/
def Stands (files : Files) (session : Session Thread Module) (callers : List (Frame Module)) :
    Frame Module → Prop
  | .finding _ | .claiming _ | .reading _ => True
  | .awaiting target =>
      Known files session target.absPath ∧
        ∀ path ∈ held callers, ¬Relation.ReflTransGen (Imports files) target.absPath path
  | .importing target none left =>
      (∀ statement ∈ left, statement ∈ files target.absPath) ∧
        ∀ statement ∈ files target.absPath, statement ∈ left ∨ Resolved files session statement
  | .importing target (some resolving) left =>
      Compiling files session target.absPath resolving left
        (fun next => firstFile resolving.candidates = some next)
  | .initialising target | .publishing target _ =>
      ∀ statement ∈ files target.absPath, Resolved files session statement
  | .returning target => (session.table.loaded target.absPath).isSome
  | .abandoning target _ => Reported files session target.absPath

def StackStands (files : Files) (session : Session Thread Module) :
    List (Frame Module) → Prop
  | [] => True
  | frame :: callers =>
      Stands files session callers frame ∧ Calls files session frame.target.absPath callers

theorem Grows.settled (grows : Grows files session after) {path : Path}
    (settled : Settled files session path) : Settled files after path :=
  settled.imp (grows.loaded path) (grows.reported path)

theorem Grows.resolved (grows : Grows files session after) {statement : Import}
    (resolved : Resolved files session statement) : Resolved files after statement :=
  fun path first => grows.settled (resolved path first)

theorem Grows.compiling (grows : Grows files session after) {path : Path} {resolving : Resolving}
    {left : List Import} {coming : Path → Prop}
    (compiling : Compiling files session path resolving left coming) :
    Compiling files after path resolving left coming where
  ahead := compiling.ahead
  current := by
    obtain ⟨statement, member, inside, denoted, others⟩ := compiling.current
    refine ⟨statement, member, inside, ?_, ?_⟩
    · exact fun next first => (denoted next first).imp_left grows.settled
    · exact fun other member => (others other member).imp_right (Or.imp_left grows.resolved)
  failed := fun next member =>
    ⟨(compiling.failed next member).1, grows.reported next (compiling.failed next member).2⟩

/-- The caller of a load stands at an import statement. -/
theorem calls_cons {path : Path} {frame : Frame Module} {outer : List (Frame Module)}
    (calls : Calls files session path (frame :: outer)) :
    ∃ caller resolving left, frame = .importing caller (some resolving) left ∧
      Imports files caller.absPath path ∧
      Compiling files session caller.absPath resolving left (fun next => next = path) ∧
      Calls files session caller.absPath outer := by
  cases frame with
  | importing caller resolving left =>
      cases resolving with
      | none => exact absurd calls id
      | some resolving => exact ⟨caller, resolving, left, rfl, calls⟩
  | finding | claiming | awaiting | reading | initialising | publishing | returning
  | abandoning => exact absurd calls id

theorem Grows.calls (grows : Grows files session after) {path : Path}
    {callers : List (Frame Module)} (calls : Calls files session path callers) :
    Calls files after path callers := by
  induction callers generalizing path with
  | nil => trivial
  | cons frame outer induction =>
      obtain ⟨caller, resolving, left, rfl, edge, compiling, further⟩ := calls_cons calls
      exact ⟨edge, grows.compiling compiling, induction further⟩

theorem Grows.stands (grows : Grows files session after) {stack : List (Frame Module)}
    (stands : StackStands files session stack) : StackStands files after stack := by
  cases stack with
  | nil => trivial
  | cons frame callers =>
      obtain ⟨here, calls⟩ := stands
      refine ⟨?_, grows.calls calls⟩
      cases frame with
      | finding | claiming | reading => trivial
      | awaiting target => exact ⟨grows.known _ here.1, here.2⟩
      | importing target resolving left =>
          cases resolving with
          | none =>
              exact ⟨here.1, fun statement member => (here.2 statement member).imp_right grows.resolved⟩
          | some resolving => exact grows.compiling here
      | initialising | publishing => exact fun statement member => grows.resolved (here statement member)
      | returning target => exact grows.loaded _ here
      | abandoning target text => exact grows.reported _ here

/-- Every file being loaded around a load reaches it through imports. -/
theorem calls_reach {path : Path} {callers : List (Frame Module)}
    (calls : Calls files session path callers) :
    ∀ holder ∈ held callers, Relation.TransGen (Imports files) holder path := by
  induction callers generalizing path with
  | nil => simp [held]
  | cons frame outer induction =>
      obtain ⟨caller, resolving, left, rfl, edge, -, further⟩ := calls_cons calls
      intro holder member
      rw [held_cons] at member
      rcases List.mem_append.mp member with here | inside
      · obtain rfl : holder = caller.absPath := by simpa [Frame.holds] using here
        exact Relation.TransGen.single edge
      · exact Relation.TransGen.tail (induction further holder inside) edge

/-- A load that returns leaves its caller at the next statement. -/
theorem stands_resume {path : Path} {callers : List (Frame Module)}
    (calls : Calls files session path callers) (settled : Settled files session path) :
    StackStands files session (resume callers) := by
  cases callers with
  | nil => trivial
  | cons frame outer =>
      obtain ⟨caller, resolving, left, rfl, -, compiling, further⟩ := calls_cons calls
      obtain ⟨statement, -, -, denoted, others⟩ := compiling.current
      refine ⟨⟨compiling.ahead, ?_⟩, further⟩
      intro other member
      rcases others other member with ahead | resolved | rfl
      · exact Or.inl ahead
      · exact Or.inr resolved
      · refine Or.inr ?_
        intro next first
        rcases denoted next first with known | rfl
        · exact known
        · exact settled

/-- A load that throws leaves its caller at the next prefix. -/
theorem stands_raise {path : Path} {callers : List (Frame Module)} (text : String)
    (calls : Calls files session path callers) (reported : Reported files session path) :
    StackStands files session (raise path text callers) := by
  cases callers with
  | nil => trivial
  | cons frame outer =>
      obtain ⟨caller, resolving, left, rfl, edge, compiling, further⟩ := calls_cons calls
      obtain ⟨statement, member, inside, denoted, others⟩ := compiling.current
      refine ⟨⟨compiling.ahead, ⟨statement, member, inside, ?_, others⟩, ?_⟩, further⟩
      · intro next first
        rcases denoted next first with known | rfl
        · exact Or.inl known
        · exact Or.inl (Or.inr reported)
      · intro next failed
        rcases List.mem_cons.mp failed with rfl | earlier
        · exact ⟨edge, reported⟩
        · exact compiling.failed next earlier

theorem grows_refl (files : Files) (session : Session Thread Module) :
    Grows files session session := ⟨fun _ => id, fun _ => id, fun _ => id⟩

/-- More faults and cycles are known, the table being as it was. -/
theorem grows_of_causes (table : after.table = session.table)
    (cycles : ∀ entry ∈ session.cycles, entry ∈ after.cycles)
    (faults : ∀ path ∈ session.faults, path ∈ after.faults) : Grows files session after := by
  have reported : ∀ path, Reported files session path → Reported files after path := by
    rintro path ⟨origin, reaches, cause⟩
    refine ⟨origin, reaches, cause.imp ?_ (faults origin)⟩
    exact fun ⟨thread, member⟩ => ⟨thread, cycles _ member⟩
  have loaded : ∀ path, (session.table.loaded path).isSome → (after.table.loaded path).isSome := by
    rw [table]
    exact fun _ => id
  refine ⟨loaded, reported, ?_⟩
  intro path known
  rw [Known, table]
  exact known.imp_right (Or.imp (loaded path) (reported path))

/-- The table changes at one path, where the load is settled if it was ended. -/
theorem grows_of_table (changed : Path) (cycles : after.cycles = session.cycles)
    (faults : after.faults = session.faults)
    (loaded : ∀ path, (session.table.loaded path).isSome → (after.table.loaded path).isSome)
    (others : ∀ path, path ≠ changed →
      after.table.loading path = session.table.loading path)
    (here : Known files after changed) : Grows files session after := by
  have reported : ∀ path, Reported files session path → Reported files after path := by
    intro path reported
    rwa [Reported, cycles, faults]
  refine ⟨loaded, reported, ?_⟩
  intro path known
  by_cases same : path = changed
  · subst same
    exact here
  · rw [Known, others path same]
    exact known.imp_right (Or.imp (loaded path) (reported path))

/-- What a step of a thread does to the session and leaves of its stack. -/
structure Advances (files : Files) (session after : Session Thread Module)
    (left : List (Frame Module)) : Prop where
  grows : Grows files session after
  stands : StackStands files after left
  loaded : ∀ path, (after.table.loaded path).isSome → (session.table.loaded path).isSome ∨
    ∀ statement ∈ files path, Resolved files session statement
  abandoned : ∀ path ∈ after.abandoned, path ∈ session.abandoned ∨ Reported files session path
  cyclic : ∀ entry ∈ after.cycles, entry ∈ session.cycles ∨
    Relation.TransGen (Imports files) entry.2 entry.2

/-- A step that ends no load and reports no cycle. -/
theorem advances_quiet {left : List (Frame Module)} (grows : Grows files session after)
    (loaded : after.table.loaded = session.table.loaded)
    (abandoned : after.abandoned = session.abandoned) (cycles : after.cycles = session.cycles)
    (stands : StackStands files after left) : Advances files session after left where
  grows := grows
  stands := stands
  loaded := by
    rw [loaded]
    exact fun _ => Or.inl
  abandoned := by
    rw [abandoned]
    exact fun _ => Or.inl
  cyclic := by
    rw [cycles]
    exact fun _ => Or.inl

theorem advances_stay {left : List (Frame Module)} (stands : StackStands files session left) :
    Advances files session session left :=
  advances_quiet (grows_refl files session) rfl rfl rfl stands

theorem advances_return {thread : Thread} {target : Target} {found : Module}
    {callers : List (Frame Module)} (calls : Calls files session target.absPath callers)
    (loaded : session.table.loaded target.absPath = some found) :
    Advances files session (returnModule session thread target found callers).1
      (returnModule session thread target found callers).2 := by
  have grows : Grows files session (returnModule session thread target found callers).1 :=
    grows_of_causes rfl (fun _ => id) (fun _ => id)
  refine advances_quiet grows rfl rfl rfl (stands_resume (grows.calls calls) (Or.inl ?_))
  simp [returnModule, loaded]

theorem advances_imports {target : Target} {resolving : Option Resolving} {left : List Import}
    {callers : List (Frame Module)}
    (stands : StackStands files session (.importing target resolving left :: callers)) :
    Advances files session (compileImports session target resolving left callers).1
      (compileImports session target resolving left callers).2 := by
  obtain ⟨here, calls⟩ := stands
  match resolving, left with
  | none, [] =>
      apply advances_stay
      refine ⟨?_, calls⟩
      intro statement member
      exact (here.2 statement member).resolve_left (List.not_mem_nil)
  | none, statement :: left =>
      apply advances_stay
      refine ⟨⟨?_, ⟨statement, here.1 statement List.mem_cons_self, ?_, ?_, ?_⟩, ?_⟩, calls⟩
      · exact fun other member => here.1 other (List.mem_cons_of_mem _ member)
      · exact fun _ => id
      · exact fun next first => Or.inr first
      · intro other member
        rcases here.2 other member with listed | resolved
        · rcases List.mem_cons.mp listed with same | later
          · exact Or.inr (Or.inr same)
          · exact Or.inl later
        · exact Or.inr (Or.inl resolved)
      · exact fun _ member => absurd member List.not_mem_nil
  | some resolving, left =>
      have compiling : Compiling files session target.absPath resolving left
        (fun next => firstFile resolving.candidates = some next) := here
      obtain ⟨statement, member, inside, denoted, others⟩ := compiling.current
      obtain ⟨pos, candidates, lastError, failed⟩ := resolving
      match candidates with
      | .file next :: rest =>
          apply advances_stay
          refine ⟨trivial, ⟨statement, member, next, inside _ List.mem_cons_self, rfl⟩,
            ⟨compiling.ahead, ⟨statement, member, ?_, ?_, others⟩, compiling.failed⟩, calls⟩
          · exact fun candidate later => inside candidate (List.mem_cons_of_mem _ later)
          · exact fun path first => (denoted path first).imp_right fun same =>
              (Option.some.inj same).symm
      | .foreign :: rest =>
          apply advances_stay
          refine ⟨⟨compiling.ahead, ?_⟩, calls⟩
          intro other listed
          rcases others other listed with ahead | resolved | rfl
          · exact Or.inl ahead
          · exact Or.inr resolved
          · exact Or.inr fun path first => (denoted path first).resolve_right fun none => by cases none
      | .absent text :: rest =>
          apply advances_stay
          refine ⟨⟨compiling.ahead, ⟨statement, member, ?_, denoted, others⟩, compiling.failed⟩,
            calls⟩
          exact fun candidate later => inside candidate (List.mem_cons_of_mem _ later)
      | [] =>
          have grows : Grows files session (compileImports session target
              (some ⟨pos, [], lastError, failed⟩) left callers).1 := by
            refine grows_of_causes ?_ ?_ ?_
            · rfl
            · exact fun _ => id
            · intro path fault
              simp only [compileImports]
              split
              · exact List.mem_cons_of_mem _ fault
              · exact fault
          refine advances_quiet grows rfl rfl rfl ⟨?_, grows.calls calls⟩
          cases failed with
          | nil =>
              refine ⟨target.absPath, Relation.ReflTransGen.refl, Or.inr ?_⟩
              simp [compileImports]
          | cons next earlier =>
              obtain ⟨edge, reported⟩ := compiling.failed next List.mem_cons_self
              exact grows.reported _ (Reported.step edge reported)

variable [DecidableEq Thread]

theorem advances_claim {thread : Thread} {target : Target} {callers : List (Frame Module)}
    (calls : Calls files session target.absPath callers)
    (claims : session.table.loading target.absPath = some thread → target.absPath ∈ held callers)
    (unentangled : ∀ owner, session.table.loading target.absPath = some owner → owner ≠ thread →
      ∀ path ∈ held callers, ¬Relation.ReflTransGen (Imports files) target.absPath path) :
    Advances files session (advance files thread session (.claiming target) callers).1
      (advance files thread session (.claiming target) callers).2 := by
  simp only [advance, claim]
  cases loading : session.table.loading target.absPath with
  | none =>
      have grows : Grows files session { session with table := { session.table with
          loading := Function.update session.table.loading target.absPath (some thread) } } := by
        refine grows_of_table target.absPath rfl rfl (fun _ => id) ?_ ?_
        · exact fun path differs => Function.update_of_ne differs _ _
        · exact Or.inl (by simp)
      exact advances_quiet grows rfl rfl rfl ⟨trivial, grows.calls calls⟩
  | some owner =>
      by_cases own : owner = thread
      · subst own
        have cycle := calls_reach calls _ (claims loading)
        simp only [if_true]
        have grows : Grows files session
            { session with cycles := (owner, target.absPath) :: session.cycles } :=
          grows_of_causes rfl (fun _ => List.mem_cons_of_mem _) (fun _ => id)
        refine ⟨grows, stands_raise _ (grows.calls calls) ?_, fun _ => Or.inl, fun _ => Or.inl, ?_⟩
        · exact ⟨target.absPath, Relation.ReflTransGen.refl, Or.inl ⟨owner, List.mem_cons_self⟩⟩
        · intro entry member
          rcases List.mem_cons.mp member with rfl | earlier
          · exact Or.inr cycle
          · exact Or.inl earlier
      · simp only [own, if_false]
        exact advances_stay ⟨⟨Or.inl (by simp [loading]), unentangled owner loading own⟩, calls⟩

theorem advances_frame {thread : Thread} {frame : Frame Module} {callers : List (Frame Module)}
    (stands : StackStands files session (frame :: callers))
    (claims : ∀ path, session.table.loading path = some thread → path ∈ held (frame :: callers))
    (unentangled : ∀ target owner, frame = .claiming target →
      session.table.loading target.absPath = some owner → owner ≠ thread →
      ∀ path ∈ held callers, ¬Relation.ReflTransGen (Imports files) target.absPath path) :
    Advances files session (advance files thread session frame callers).1
      (advance files thread session frame callers).2 := by
  obtain ⟨here, calls⟩ := stands
  cases frame with
  | finding target =>
      simp only [advance, find]
      split
      · next hit found => exact advances_return calls found
      · exact advances_stay ⟨trivial, calls⟩
  | claiming target =>
      apply advances_claim calls
      · intro own
        simpa [held_cons, Frame.holds] using claims _ own
      · exact fun owner => unentangled target owner rfl
  | awaiting target =>
      simp only [advance, awaitLoaded]
      cases loading : session.table.loading target.absPath with
      | some owner => exact advances_stay ⟨here, calls⟩
      | none =>
          cases loaded : session.table.loaded target.absPath with
          | some found => exact advances_return calls loaded
          | none =>
              have reported : Reported files session target.absPath := by
                simpa [Known, Settled, loading, loaded] using here.1
              exact advances_stay (stands_raise _ calls reported)
  | reading target =>
      exact advances_stay ⟨⟨fun _ => id, fun _ => Or.inl⟩, calls⟩
  | importing target resolving left => exact advances_imports ⟨here, calls⟩
  | initialising target => exact advances_stay ⟨here, calls⟩
  | publishing target loadedModule =>
      have present : ((publish session.table target.absPath loadedModule).loaded
          target.absPath).isSome := by simp [publish]
      have others : ∀ path, path ≠ target.absPath →
          (publish session.table target.absPath loadedModule).loaded path =
            session.table.loaded path := fun path differs => Function.update_of_ne differs _ _
      have grows : Grows files session
          { session with table := publish session.table target.absPath loadedModule } := by
        refine grows_of_table target.absPath rfl rfl ?_ ?_ (Or.inr (Or.inl present))
        · intro path loaded
          by_cases same : path = target.absPath
          · subst same
            exact present
          · rwa [others path same]
        · exact fun path differs => Function.update_of_ne differs _ _
      refine ⟨grows, ⟨present, grows.calls calls⟩, ?_, fun _ => Or.inl, fun _ => Or.inl⟩
      intro path loaded
      by_cases same : path = target.absPath
      · subst same
        exact Or.inr here
      · simp only [advance, others path same] at loaded
        exact Or.inl loaded
  | returning target =>
      simp only [advance, find]
      split
      · next found loaded => exact advances_return calls loaded
      · exact advances_stay ⟨here, calls⟩
  | abandoning target text =>
      have grows : Grows files session { session with
          table := abandon session.table target.absPath
          abandoned := target.absPath :: session.abandoned } := by
        refine grows_of_table target.absPath rfl rfl (fun _ => id) ?_ ?_
        · exact fun path differs => Function.update_of_ne differs _ _
        · exact Or.inr (Or.inr here)
      refine ⟨grows, stands_raise _ (grows.calls calls) (grows.reported _ here), fun _ => Or.inl, ?_,
        fun _ => Or.inl⟩
      intro path member
      rcases List.mem_cons.mp member with rfl | earlier
      · exact Or.inr here
      · exact Or.inl earlier

theorem advances_act {thread : Thread} {move : Files × Move Module} {stack : List (Frame Module)}
    (same : move.1 = files) (stands : StackStands files session stack)
    (claims : ∀ path, session.table.loading path = some thread → path ∈ held stack)
    (unentangled : ∀ target callers owner, stack = .claiming target :: callers →
      move.2 = .advance → session.table.loading target.absPath = some owner → owner ≠ thread →
      ∀ path ∈ held callers, ¬Relation.ReflTransGen (Imports files) target.absPath path) :
    Advances files session (act move thread session stack).1 (act move thread session stack).2 := by
  obtain ⟨disk, kind⟩ := move
  subst same
  cases stack with
  | nil =>
      cases kind with
      | request target => exact advances_stay ⟨trivial, trivial⟩
      | advance | fail | complete => exact advances_stay trivial
  | cons frame callers =>
      cases kind with
      | request target => exact advances_stay stands
      | advance =>
          exact advances_frame stands claims
            fun target owner shape => unentangled target callers owner (by rw [shape]) rfl
      | fail fault =>
          simp only [act]
          cases failed : failing frame with
          | none => exact advances_stay stands
          | some target =>
              have grows : Grows disk session
                  { session with faults := target.absPath :: session.faults } :=
                grows_of_causes rfl (fun _ => id) (fun _ => List.mem_cons_of_mem _)
              have own : frame.target = target := by
                cases frame <;> simp_all [failing, Frame.target]
              refine advances_quiet grows rfl rfl rfl ⟨?_, ?_⟩
              · exact ⟨target.absPath, Relation.ReflTransGen.refl, Or.inr List.mem_cons_self⟩
              · exact grows.calls (own ▸ stands.2)
      | complete loadedModule =>
          cases frame with
          | initialising target =>
              have grows : Grows disk session { session with
                  completed := (target.absPath, loadedModule) :: session.completed } :=
                grows_of_causes rfl (fun _ => id) (fun _ => id)
              refine advances_quiet grows rfl rfl rfl ⟨?_, grows.calls stands.2⟩
              exact fun statement member => grows.resolved (stands.1 statement member)
          | finding | claiming | awaiting | reading | importing | publishing | returning
          | abandoning => exact advances_stay stands

/-- What holds of a session while no thread has started a wait that could close a
cycle. A file that loaded has only loaded files below it, or a reported failure. -/
structure Sound (files : Files) (system : Loader Thread Module) : Prop where
  claims : Claims system.shared.table (fun thread => held (system.locals thread))
  standing : ∀ thread, StackStands files system.shared (system.locals thread)
  loaded : ∀ path, (system.shared.table.loaded path).isSome →
    Acc (fun next path => Denotes files path next) path ∨ Reported files system.shared path
  abandoned : ∀ path ∈ system.shared.abandoned, Reported files system.shared path
  cyclic : ∀ entry ∈ system.shared.cycles, Relation.TransGen (Imports files) entry.2 entry.2

omit [DecidableEq Thread] in
/-- A file whose imports are all settled is below no cycle, or reported. -/
theorem founded_of_resolved {path : Path}
    (founded : ∀ next, (session.table.loaded next).isSome →
      Acc (fun next path => Denotes files path next) next ∨ Reported files session next)
    (resolved : ∀ statement ∈ files path, Resolved files session statement) :
    Acc (fun next path => Denotes files path next) path ∨ Reported files session path := by
  by_cases every : ∀ next, Denotes files path next →
      Acc (fun next path => Denotes files path next) next
  · exact Or.inl (Acc.intro path every)
  · push Not at every
    obtain ⟨next, denotes, cyclic⟩ := every
    obtain ⟨statement, member, first⟩ := denotes
    have below : Reported files session next := by
      rcases resolved statement member next first with loaded | reported
      · exact (founded next loaded).resolve_left cyclic
      · exact reported
    exact Or.inr (Reported.step (Denotes.imports ⟨statement, member, first⟩) below)

theorem sound_step (system : Loader Thread Module) (turn : Thread × Files × Move Module)
    (met : turn.2.1 = files ∧ Unentangled files system turn) (sound : Sound files system) :
    Sound files (system.step act turn) := by
  obtain ⟨same, unentangled⟩ := met
  have advances := advances_act same (sound.standing turn.1)
    (fun path => ((sound.claims turn.1).2 path).mp) unentangled
  have reported := advances.grows.reported
  refine ⟨?_, ?_, ?_, ?_, ?_⟩
  · have effect := act_effect turn.2 turn.1 system.shared (system.locals turn.1)
    unfold System.step
    simp only [map_update]
    exact claims_effect effect rfl sound.claims
  · intro thread
    by_cases own : thread = turn.1
    · subst own
      simpa [System.step] using advances.stands
    · simpa [System.step, Function.update_of_ne own] using
        advances.grows.stands (sound.standing thread)
  · intro path loaded
    rcases advances.loaded path loaded with before | resolved
    · exact (sound.loaded path before).imp_right (reported path)
    · exact (founded_of_resolved sound.loaded resolved).imp_right (reported path)
  · intro path member
    rcases advances.abandoned path member with before | now
    · exact reported path (sound.abandoned path before)
    · exact reported path now
  · intro entry member
    rcases advances.cyclic entry member with before | now
    · exact sound.cyclic entry before
    · exact now

omit [DecidableEq Thread] in
theorem sound_idle (files : Files) : Sound files (idle : Loader Thread Module) := by
  refine ⟨?_, ?_, ?_, ?_, ?_⟩ <;> simp [idle, held, Claims, StackStands]

/-- One thread sleeps until another ends the load of a module. -/
def Waits (system : Loader Thread Module) (thread owner : Thread) : Prop :=
  ∃ target callers, system.locals thread = .awaiting target :: callers ∧
    system.shared.table.loading target.absPath = some owner

omit [DecidableEq Thread] in
/-- From the module a thread waits for one reaches a module of every thread further
along the chain of waits. -/
theorem waits_reach {system : Loader Thread Module} (sound : Sound files system)
    {thread owner : Thread} (chain : Relation.TransGen (Waits system) thread owner)
    {target : Target} {callers : List (Frame Module)}
    (waiting : system.locals thread = .awaiting target :: callers) :
    ∃ path ∈ held (system.locals owner),
      Relation.ReflTransGen (Imports files) target.absPath path := by
  induction chain with
  | single waits =>
      obtain ⟨target', callers', waiting', loading⟩ := waits
      obtain ⟨rfl, rfl⟩ : target = target' ∧ callers = callers' := by
        simpa using waiting.symm.trans waiting'
      exact ⟨target.absPath, ((sound.claims _).2 _).mp loading, Relation.ReflTransGen.refl⟩
  | @tail middle owner _ waits induction =>
      obtain ⟨path, holds, reaches⟩ := induction
      obtain ⟨next, outer, waiting', loading⟩ := waits
      have standing := sound.standing middle
      rw [waiting'] at standing holds
      have further := calls_reach standing.2 path (by simpa [held_cons, Frame.holds] using holds)
      exact ⟨next.absPath, ((sound.claims _).2 _).mp loading,
        reaches.trans further.to_reflTransGen⟩

omit [DecidableEq Thread] in
theorem waits_acyclic {system : Loader Thread Module} (sound : Sound files system)
    (thread : Thread) : ¬Relation.TransGen (Waits system) thread thread := by
  intro cycle
  obtain ⟨owner, ⟨target, callers, waiting, -⟩, -⟩ := Relation.TransGen.head'_iff.mp cycle
  obtain ⟨path, holds, reaches⟩ := waits_reach sound cycle waiting
  have standing := sound.standing thread
  rw [waiting] at standing holds
  exact standing.1.2 path (by simpa [held_cons, Frame.holds] using holds) reaches

omit [DecidableEq Thread] in
theorem not_deadlocked {system : Loader Thread Module} (sound : Sound files system)
    (finite : { thread | system.locals thread ≠ [] }.Finite) (group : Set Thread) :
    ¬Deadlocked system group := by
  rintro ⟨nonempty, all⟩
  have busy : group ⊆ { thread | system.locals thread ≠ [] } := by
    intro thread member
    obtain ⟨target, callers, owner, waiting, -⟩ := all thread member
    simp [waiting]
  obtain ⟨thread, member, free⟩ := no_deadlock (waits_acyclic sound) (finite.subset busy) nonempty
  obtain ⟨target, callers, owner, waiting, loading, inside, -⟩ := all thread member
  exact free owner inside ⟨target, callers, waiting, loading⟩

omit [DecidableEq Thread] in
/-- The holder of a claim is busy, so not all busy threads can be asleep. -/
theorem some_thread_runs {system : Loader Thread Module} (sound : Sound files system)
    (finite : { thread | system.locals thread ≠ [] }.Finite) {thread : Thread}
    (busy : system.locals thread ≠ []) :
    ∃ other, system.locals other ≠ [] ∧ ¬Blocked system other := by
  obtain ⟨other, working, free⟩ := no_deadlock (waits_acyclic sound) finite ⟨thread, busy⟩
  refine ⟨other, working, ?_⟩
  rintro ⟨target, callers, waiting, asleep⟩
  cases loading : system.shared.table.loading target.absPath with
  | none => simp [awaitLoaded, loading] at asleep
  | some owner =>
      refine free owner ?_ ⟨target, callers, waiting, loading⟩
      intro nothing
      have holds : target.absPath ∈ held (system.locals owner) :=
        ((sound.claims owner).2 _).mp loading
      rw [nothing] at holds
      exact absurd holds List.not_mem_nil

theorem not_below_itself {below : Path → Path → Prop} {path : Path} (founded : Acc below path) :
    ¬below path path := by
  induction founded with
  | intro path _ induction => exact fun loop => induction path loop loop

omit [DecidableEq Thread] in
theorem cycles_reported_of_sound {system : Loader Thread Module} (sound : Sound files system)
    (finite : { thread | system.locals thread ≠ [] }.Finite) : CyclesReported files system where
  noDeadlock := not_deadlocked sound finite
  progress := fun _ busy => some_thread_runs sound finite busy
  reported := by
    intro path cycle ended
    rcases ended with loaded | abandoned
    · refine (sound.loaded path loaded).resolve_left ?_
      intro founded
      have swapped : Relation.TransGen (fun next path => Denotes files path next) path path :=
        Relation.transGen_swap.mp cycle
      exact not_below_itself founded.transGen swapped
    · exact sound.abandoned path abandoned
  cyclic := sound.cyclic

/-- A schedule over files that do not change. -/
def onDisk (files : Files) (schedule : List (Thread × Move Module)) :
    List (Thread × Files × Move Module) :=
  schedule.map fun turn => (turn.1, files, turn.2)

theorem meets_onDisk {system : Loader Thread Module} {schedule : List (Thread × Move Module)}
    (all : system.Meets act (Unentangled files) (onDisk files schedule)) :
    system.Meets act (fun system turn => turn.2.1 = files ∧ Unentangled files system turn)
      (onDisk files schedule) := by
  induction schedule generalizing system with
  | nil => trivial
  | cons turn later induction => exact ⟨⟨rfl, all.1⟩, induction all.2⟩

/-- While only one thread imports, it finds no claim of another. -/
theorem alone_unentangled (files : Files) (thread : Thread) (moves : List (Move Module))
    {system : Loader Thread Module}
    (claims : Claims system.shared.table (fun thread => held (system.locals thread)))
    (alone : ∀ other, other ≠ thread → system.locals other = []) :
    system.Meets act (Unentangled files) (onDisk files (moves.map fun move => (thread, move))) := by
  induction moves generalizing system with
  | nil => trivial
  | cons move later induction =>
      refine ⟨?_, induction ?_ ?_⟩
      · intro target callers owner _ _ loading differs
        have holds : target.absPath ∈ held (system.locals owner) :=
          ((claims owner).2 _).mp loading
        rw [alone owner differs] at holds
        exact absurd holds List.not_mem_nil
      · have effect := act_effect (files, move) thread system.shared (system.locals thread)
        unfold System.step
        simp only [map_update]
        exact claims_effect effect rfl claims
      · intro other differs
        simpa [System.step, Function.update_of_ne differs] using alone other differs

/-- Two files that import each other. -/
def mutualImports : Files := fun path =>
  if path = "/Cycle1.scala" then [⟨⟨1, 1⟩, [.file ⟨"/Cycle2.scala", "Cycle2"⟩]⟩]
  else if path = "/Cycle2.scala" then [⟨⟨2, 1⟩, [.file ⟨"/Cycle1.scala", "Cycle1"⟩]⟩]
  else []

def cycle1 : Target := ⟨"/Cycle1.scala", "Cycle1"⟩

def cycle2 : Target := ⟨"/Cycle2.scala", "Cycle2"⟩

/-- One thread imports the first file and is told of the cycle. -/
def loneImporter : List (Move Nat) :=
  .request cycle1 :: List.replicate 17 .advance

/-- Two threads enter the cycle from different files. -/
def crossedImporters : List (Nat × Move Nat) :=
  [(0, .request cycle1), (1, .request cycle2), (0, .advance), (1, .advance), (0, .advance),
    (1, .advance), (0, .advance), (1, .advance), (0, .advance), (1, .advance), (0, .advance),
    (1, .advance), (0, .advance), (1, .advance), (0, .advance), (1, .advance)]

end ProtoScala.Repl.ImportCycles
