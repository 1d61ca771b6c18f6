import ProtoScala.Library.Processes

/-!
# The module table and the loading of module files

`ModuleTable` keeps two maps under one mutex: the modules that are loaded and, for
each module being loaded, the thread that claimed it. `Session::loadModuleFile`
looks a module up, claims it, compiles and runs it, and publishes it, or waits for
the thread that holds the claim. The mutex is held only inside each operation, so
these are the atomic steps here; a thread is the stack of its `loadModuleFile`
calls, because compiling a module loads the modules it imports.

An import statement names a dotted path, and the compiler tries its prefixes from
the longest to the shortest: a candidate whose load fails is passed over, and the
statement fails with the text of its first candidate when no prefix resolves.

A move of a thread carries what the code does not decide: which module an idle
thread asks for, what the files on disk import when they are read, and whether
compiling and running a module ends well. Beside the table the state records what
has happened: the top levels that completed, what importers obtained, and the
failures by their origin.
-/

namespace ProtoScala.Repl.ModuleLoading

open ProtoScala.Library.Processes

set_option autoImplicit false

abbrev Path := String

/-- The two maps of the table; `Module` is a `LoadedModule`, the module object with
its exports. -/
structure ModuleTable (Thread Module : Type) where
  loaded : Path → Option Module
  loading : Path → Option Thread

/-- What `claim` answers: the claim is taken, or this thread already holds it (the
error), or another thread does. -/
inductive Claim (Thread Module : Type) where
  | claimed (table : ModuleTable Thread Module)
  | cyclic
  | held

variable {Thread Module : Type} [DecidableEq Thread]

def find (table : ModuleTable Thread Module) (absPath : Path) : Option Module :=
  table.loaded absPath

def claim (table : ModuleTable Thread Module) (thread : Thread) (absPath : Path) :
    Claim Thread Module :=
  match table.loading absPath with
  | none => .claimed { table with loading := Function.update table.loading absPath (some thread) }
  | some owner => if owner = thread then .cyclic else .held

def publish (table : ModuleTable Thread Module) (absPath : Path) (loadedModule : Module) :
    ModuleTable Thread Module :=
  { loaded := Function.update table.loaded absPath (some loadedModule)
    loading := Function.update table.loading absPath none }

def abandon (table : ModuleTable Thread Module) (absPath : Path) : ModuleTable Thread Module :=
  { table with loading := Function.update table.loading absPath none }

/-- Nothing while the module is being loaded: the caller sleeps. -/
def awaitLoaded (table : ModuleTable Thread Module) (absPath : Path) : Option (Option Module) :=
  if (table.loading absPath).isSome then none else some (table.loaded absPath)

structure SourcePos where
  line : Nat
  column : Nat
  deriving DecidableEq, Repr

/-- A module file as an import names it. -/
structure Target where
  absPath : Path
  logicalPath : String
  deriving DecidableEq, Repr

/-- What a prefix of an import's path leads to: a source file, a module of another
provider, or nothing, with the text of that error. -/
inductive Candidate where
  | file (target : Target)
  | foreign
  | absent (text : String)
  deriving DecidableEq, Repr

/-- An import statement, its prefixes from the longest to the shortest. -/
structure Import where
  pos : SourcePos
  candidates : List Candidate
  deriving DecidableEq, Repr

/-- The statement being compiled: the prefixes still to try, the text of the first
failure, and the files that failed. -/
structure Resolving where
  pos : SourcePos
  candidates : List Candidate
  lastError : Option String
  failed : List Path
  deriving DecidableEq, Repr

/-- The ways a load fails by itself. -/
inductive Fault where
  | unreadable
  | located (pos : SourcePos) (what : String)
  | definesNothing
  | thrown (shown : String)
  | scalaError (what : String)
  deriving DecidableEq, Repr

/-- A call of `loadModuleFile` by where it stands. -/
inductive Frame (Module : Type) where
  | finding (target : Target)
  | claiming (target : Target)
  | awaiting (target : Target)
  | reading (target : Target)
  | importing (target : Target) (resolving : Option Resolving) (left : List Import)
  | initialising (target : Target)
  | publishing (target : Target) (loadedModule : Module)
  | returning (target : Target)
  | abandoning (target : Target) (text : String)
  deriving DecidableEq, Repr

inductive Move (Module : Type) where
  | request (target : Target)
  | advance
  | fail (fault : Fault)
  | complete (loadedModule : Module)

/-- The table and what has happened so far. -/
structure Session (Thread Module : Type) where
  table : ModuleTable Thread Module
  completed : List (Path × Module)
  obtained : List (Thread × Path × Module)
  cycles : List (Thread × Path)
  faults : List Path
  abandoned : List Path

/-- What the files on disk import. -/
abbrev Files := Path → List Import

/-- Every error that leaves `Session::load` is a compile error with this prefix. -/
def importError (what : String) : String := "ImportError: " ++ what

/-- A compile error as `loadModuleFile` rethrows it, with the file and the place. -/
def atPlace (absPath : Path) (pos : SourcePos) (what : String) : String :=
  absPath ++ ":" ++ toString pos.line ++ ":" ++ toString pos.column ++ ": " ++ what

def Fault.text (target : Target) : Fault → String
  | .unreadable => importError ("cannot read module file: " ++ target.absPath)
  | .located pos what => importError (atPlace target.absPath pos what)
  | .definesNothing => importError ("module " ++ target.logicalPath ++ " defines nothing to import")
  | .thrown shown => importError (target.logicalPath ++ " failed to initialise: " ++ shown)
  | .scalaError what => importError what

/-- A load that returns: the caller's import statement is resolved. -/
def resume (callers : List (Frame Module)) : List (Frame Module) :=
  match callers with
  | .importing caller (some _) left :: outer => .importing caller none left :: outer
  | callers => callers

/-- A load that throws: the caller's import statement goes on to its next prefix. -/
def raise (absPath : Path) (text : String) (callers : List (Frame Module)) : List (Frame Module) :=
  match callers with
  | .importing caller (some statement) left :: outer =>
      .importing caller (some { statement with
        lastError := some (statement.lastError.getD text)
        failed := absPath :: statement.failed }) left :: outer
  | callers => callers

def returnModule (session : Session Thread Module) (thread : Thread) (target : Target)
    (loadedModule : Module) (callers : List (Frame Module)) :
    Session Thread Module × List (Frame Module) :=
  ({ session with obtained := (thread, target.absPath, loadedModule) :: session.obtained },
    resume callers)

/-- The next step of the compilation of a module: the prefixes of the import
statement at hand, then the next statement, then the run. -/
def compileImports (session : Session Thread Module) (target : Target)
    (resolving : Option Resolving) (left : List Import) (callers : List (Frame Module)) :
    Session Thread Module × List (Frame Module) :=
  match resolving, left with
  | none, [] => (session, .initialising target :: callers)
  | none, statement :: left =>
      (session, .importing target (some ⟨statement.pos, statement.candidates, none, []⟩) left ::
        callers)
  | some statement, left =>
      match statement.candidates with
      | .file next :: rest =>
          (session, .finding next ::
            .importing target (some { statement with candidates := rest }) left :: callers)
      | .foreign :: _ => (session, .importing target none left :: callers)
      | .absent text :: rest =>
          (session, .importing target (some { statement with
            candidates := rest
            lastError := some (statement.lastError.getD text) }) left :: callers)
      | [] =>
          -- no prefix resolved: the first error is reported at the statement
          ({ session with faults :=
              if statement.failed = [] then target.absPath :: session.faults else session.faults },
            .abandoning target
              (importError (atPlace target.absPath statement.pos (statement.lastError.getD ""))) ::
              callers)

/-- The innermost call goes on. -/
def advance (files : Files) (thread : Thread) (session : Session Thread Module)
    (frame : Frame Module) (callers : List (Frame Module)) :
    Session Thread Module × List (Frame Module) :=
  match frame with
  | .finding target =>
      match find session.table target.absPath with
      | some hit => returnModule session thread target hit callers
      | none => (session, .claiming target :: callers)
  | .claiming target =>
      match claim session.table thread target.absPath with
      | .claimed table => ({ session with table := table }, .reading target :: callers)
      | .cyclic =>
          ({ session with cycles := (thread, target.absPath) :: session.cycles },
            raise target.absPath
              (importError ("cyclic module import: " ++ target.logicalPath)) callers)
      | .held => (session, .awaiting target :: callers)
  | .awaiting target =>
      match awaitLoaded session.table target.absPath with
      | none => (session, .awaiting target :: callers)
      | some (some found) => returnModule session thread target found callers
      | some none =>
          (session, raise target.absPath
            (importError ("module failed to load: " ++ target.logicalPath)) callers)
  | .reading target => (session, .importing target none (files target.absPath) :: callers)
  | .importing target resolving left => compileImports session target resolving left callers
  | .initialising target => (session, .initialising target :: callers)
  | .publishing target loadedModule =>
      ({ session with table := publish session.table target.absPath loadedModule },
        .returning target :: callers)
  | .returning target =>
      match find session.table target.absPath with
      | some found => returnModule session thread target found callers
      | none => (session, .returning target :: callers)
  | .abandoning target text =>
      ({ session with
          table := abandon session.table target.absPath
          abandoned := target.absPath :: session.abandoned },
        raise target.absPath text callers)

/-- The file whose claim the innermost call holds fails to be read, to compile or to
run. -/
def failing : Frame Module → Option Target
  | .reading target | .importing target _ _ | .initialising target => some target
  | _ => none

def act : Act (Session Thread Module) Thread (List (Frame Module)) (Files × Move Module) :=
  fun move thread session stack =>
    match move.2, stack with
    | .request target, [] => (session, [.finding target])
    | .advance, frame :: callers => advance move.1 thread session frame callers
    | .fail fault, frame :: callers =>
        match failing frame with
        | some target =>
            ({ session with faults := target.absPath :: session.faults },
              .abandoning target (fault.text target) :: callers)
        | none => (session, stack)
    | .complete loadedModule, .initialising target :: callers =>
        ({ session with completed := (target.absPath, loadedModule) :: session.completed },
          .publishing target loadedModule :: callers)
    | _, stack => (session, stack)

abbrev Loader (Thread Module : Type) :=
  System (Session Thread Module) Thread (List (Frame Module))

/-- A session in which nothing has been imported. -/
def idle : Loader Thread Module where
  shared :=
    { table := { loaded := fun _ => none, loading := fun _ => none }
      completed := []
      obtained := []
      cycles := []
      faults := []
      abandoned := [] }
  locals := fun _ => []

/-- The path whose claim a call holds. -/
def Frame.holds : Frame Module → Option Path
  | .reading target | .importing target _ _ | .initialising target
  | .publishing target _ | .abandoning target _ => some target.absPath
  | .finding _ | .claiming _ | .awaiting _ | .returning _ => none

/-- The paths whose claims a thread holds, the innermost call first. -/
def held (stack : List (Frame Module)) : List Path := stack.filterMap Frame.holds

/-- The file a call is for. -/
def Frame.target : Frame Module → Target
  | .finding target | .claiming target | .awaiting target | .reading target
  | .importing target _ _ | .initialising target | .publishing target _
  | .returning target | .abandoning target _ => target

end ProtoScala.Repl.ModuleLoading
