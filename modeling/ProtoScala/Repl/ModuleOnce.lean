import ProtoScala.Library.PublishOnce
import ProtoScala.Repl.ModuleLoading

/-!
# A module is loaded once

A step of a thread is read through `View`: the table, what completed and what was
obtained, with the claims the thread holds and the completed modules it has not
published yet. `Effect` lists all a step can do to a view, and the invariants of
this module follow from it.

`claim` does not look at the loaded modules again, so a thread that looked a module
up before another published it claims the module afterwards and loads it a second
time. Where every claim that is taken is for a module not loaded yet, a module
completes once, all importers obtain the same one, and a failed load leaves nothing
behind.
-/

namespace ProtoScala.Repl.ModuleOnce

open ProtoScala.Library.Processes
open ProtoScala.Library.PublishOnce
open ProtoScala.Repl.ModuleLoading

set_option autoImplicit false

variable {Thread Module : Type}

theorem held_cons (frame : Frame Module) (callers : List (Frame Module)) :
    held (frame :: callers) = frame.holds.toList ++ held callers := by
  cases outcome : frame.holds with
  | none => simp [held, outcome]
  | some path => simp [held, outcome]

/-- The module that a call has completed and not published yet. -/
def completedIn : Frame Module → Option (Path × Module)
  | .publishing target loadedModule => some (target.absPath, loadedModule)
  | _ => none

def pending (stack : List (Frame Module)) : List (Path × Module) := stack.filterMap completedIn

theorem pending_cons (frame : Frame Module) (callers : List (Frame Module)) :
    pending (frame :: callers) = (completedIn frame).toList ++ pending callers := by
  cases outcome : completedIn frame with
  | none => simp [pending, outcome]
  | some entry => simp [pending, outcome]

def claimingIn : List (Frame Module) → Option Path
  | .claiming target :: _ => some target.absPath
  | _ => none

structure View (Thread Module : Type) where
  table : ModuleTable Thread Module
  completed : List (Path × Module)
  obtained : List (Thread × Path × Module)
  held : List Path
  pending : List (Path × Module)
  claiming : Option Path

def view (session : Session Thread Module) (stack : List (Frame Module)) : View Thread Module where
  table := session.table
  completed := session.completed
  obtained := session.obtained
  held := held stack
  pending := pending stack
  claiming := claimingIn stack

/-- What a step of a thread can do. -/
inductive Effect (thread : Thread) : View Thread Module → View Thread Module → Prop where
  | quiet (before : View Thread Module) (next : Option Path) :
      Effect thread before { before with claiming := next }
  | claim (before : View Thread Module) (next : Option Path) (path : Path)
      (claiming : before.claiming = some path) (free : before.table.loading path = none) :
      Effect thread before { before with
        table := { before.table with
          loading := Function.update before.table.loading path (some thread) }
        held := path :: before.held
        claiming := next }
  | complete (before : View Thread Module) (next : Option Path) (path : Path)
      (loadedModule : Module) (outer : List Path) (top : before.held = path :: outer)
      (below : ∀ entry ∈ before.pending, entry.1 ∈ outer) :
      Effect thread before { before with
        completed := (path, loadedModule) :: before.completed
        pending := (path, loadedModule) :: before.pending
        claiming := next }
  | publish (before : View Thread Module) (next : Option Path) (path : Path)
      (loadedModule : Module) (outer : List Path) (others : List (Path × Module))
      (top : before.held = path :: outer)
      (waiting : before.pending = (path, loadedModule) :: others)
      (below : ∀ entry ∈ others, entry.1 ∈ outer) :
      Effect thread before { before with
        table := ModuleLoading.publish before.table path loadedModule
        held := outer
        pending := others
        claiming := next }
  | abandon (before : View Thread Module) (next : Option Path) (path : Path) (outer : List Path)
      (top : before.held = path :: outer) (below : ∀ entry ∈ before.pending, entry.1 ∈ outer) :
      Effect thread before { before with
        table := ModuleLoading.abandon before.table path
        held := outer
        claiming := next }
  | obtain (before : View Thread Module) (next : Option Path) (path : Path) (loadedModule : Module)
      (found : before.table.loaded path = some loadedModule) :
      Effect thread before { before with
        obtained := (thread, path, loadedModule) :: before.obtained
        claiming := next }

theorem held_resume (callers : List (Frame Module)) : held (resume callers) = held callers := by
  unfold resume
  split
  · simp [held_cons, Frame.holds]
  · rfl

theorem pending_resume (callers : List (Frame Module)) :
    pending (resume callers) = pending callers := by
  unfold resume
  split
  · simp [pending_cons, completedIn]
  · rfl

theorem held_raise (path : Path) (text : String) (callers : List (Frame Module)) :
    held (raise path text callers) = held callers := by
  unfold raise
  split
  · simp [held_cons, Frame.holds]
  · rfl

theorem pending_raise (path : Path) (text : String) (callers : List (Frame Module)) :
    pending (raise path text callers) = pending callers := by
  unfold raise
  split
  · simp [pending_cons, completedIn]
  · rfl

/-- A completed module is one whose claim the thread still holds. -/
theorem pending_held (stack : List (Frame Module)) :
    ∀ entry ∈ pending stack, entry.1 ∈ held stack := by
  intro entry member
  obtain ⟨frame, inside, completes⟩ := List.mem_filterMap.mp member
  refine List.mem_filterMap.mpr ⟨frame, inside, ?_⟩
  cases frame <;> simp_all [completedIn, Frame.holds]
  rw [← completes]

theorem effect_quiet {thread : Thread} {session next : Session Thread Module}
    {stack left : List (Frame Module)} (table : next.table = session.table)
    (completed : next.completed = session.completed) (obtained : next.obtained = session.obtained)
    (claims : held left = held stack) (completes : pending left = pending stack) :
    Effect thread (view session stack) (view next left) := by
  have effect : Effect thread _ _ := Effect.quiet (view session stack) (claimingIn left)
  simpa [view, table, completed, obtained, claims, completes] using effect

theorem effect_return {thread : Thread} {session : Session Thread Module} {target : Target}
    {loadedModule : Module} {frame : Frame Module} {callers : List (Frame Module)}
    (found : session.table.loaded target.absPath = some loadedModule)
    (free : frame.holds = none) (quiet : completedIn frame = none) :
    Effect thread (view session (frame :: callers))
      (view (returnModule session thread target loadedModule callers).1
        (returnModule session thread target loadedModule callers).2) := by
  have effect : Effect thread _ _ := Effect.obtain (view session (frame :: callers))
    (claimingIn (resume callers)) target.absPath loadedModule found
  simpa [view, returnModule, held_cons, pending_cons, held_resume, pending_resume, free, quiet]
    using effect

theorem effect_imports (thread : Thread) (session : Session Thread Module) (target : Target)
    (resolving : Option Resolving) (left : List Import) (callers : List (Frame Module)) :
    Effect thread (view session (.importing target resolving left :: callers))
      (view (compileImports session target resolving left callers).1
        (compileImports session target resolving left callers).2) := by
  unfold compileImports
  split
  · apply effect_quiet <;> simp [held_cons, pending_cons, Frame.holds, completedIn]
  · apply effect_quiet <;> simp [held_cons, pending_cons, Frame.holds, completedIn]
  · split <;> apply effect_quiet <;> simp [held_cons, pending_cons, Frame.holds, completedIn]

variable [DecidableEq Thread]

theorem effect_claim (thread : Thread) (session : Session Thread Module) (target : Target)
    (files : Files) (callers : List (Frame Module)) :
    Effect thread (view session (.claiming target :: callers))
      (view (advance files thread session (.claiming target) callers).1
        (advance files thread session (.claiming target) callers).2) := by
  simp only [advance, claim]
  cases owner : session.table.loading target.absPath with
  | none =>
      have effect : Effect thread _ _ := Effect.claim (view session (.claiming target :: callers))
        none target.absPath rfl owner
      simpa [view, held_cons, pending_cons, Frame.holds, completedIn, claimingIn] using effect
  | some holder =>
      by_cases own : holder = thread
      · simp only [own, if_true]
        apply effect_quiet <;>
          simp [held_cons, pending_cons, held_raise, pending_raise, Frame.holds, completedIn]
      · simp only [own, if_false]
        apply effect_quiet <;> simp [held_cons, pending_cons, Frame.holds, completedIn]

theorem effect_advance (files : Files) (thread : Thread) (session : Session Thread Module)
    (frame : Frame Module) (callers : List (Frame Module)) :
    Effect thread (view session (frame :: callers))
      (view (advance files thread session frame callers).1
        (advance files thread session frame callers).2) := by
  cases frame with
  | finding target =>
      simp only [advance, find]
      split
      · next hit found => exact effect_return found rfl rfl
      · apply effect_quiet <;> simp [held_cons, pending_cons, Frame.holds, completedIn]
  | claiming target => exact effect_claim thread session target files callers
  | awaiting target =>
      simp only [advance, awaitLoaded]
      split
      · apply effect_quiet <;> rfl
      · next found outcome =>
          refine effect_return ?_ rfl rfl
          split at outcome <;> simp_all
      · apply effect_quiet <;>
          simp [held_cons, pending_cons, held_raise, pending_raise, Frame.holds, completedIn]
  | reading target =>
      apply effect_quiet <;> simp [advance, held_cons, pending_cons, Frame.holds, completedIn]
  | importing target resolving left => exact effect_imports thread session target resolving left callers
  | initialising target => apply effect_quiet <;> rfl
  | publishing target loadedModule =>
      have effect : Effect thread _ _ := Effect.publish
        (view session (.publishing target loadedModule :: callers)) none target.absPath loadedModule
        (held callers) (pending callers) (by simp [view, held_cons, Frame.holds])
        (by simp [view, pending_cons, completedIn]) (pending_held callers)
      simpa [advance, view, held_cons, pending_cons, Frame.holds, completedIn, claimingIn]
        using effect
  | returning target =>
      simp only [advance, find]
      split
      · next found loaded => exact effect_return loaded rfl rfl
      · apply effect_quiet <;> rfl
  | abandoning target text =>
      have effect : Effect thread _ _ := Effect.abandon
        (view session (.abandoning target text :: callers))
        (claimingIn (raise target.absPath text callers)) target.absPath (held callers)
        (by simp [view, held_cons, Frame.holds])
        (by simpa [view, pending_cons, completedIn] using pending_held callers)
      simpa [advance, view, held_cons, pending_cons, held_raise, pending_raise, Frame.holds,
        completedIn] using effect

theorem act_effect (move : Files × Move Module) (thread : Thread) (session : Session Thread Module)
    (stack : List (Frame Module)) :
    Effect thread (view session stack)
      (view (act move thread session stack).1 (act move thread session stack).2) := by
  unfold act
  split
  · apply effect_quiet <;> rfl
  · exact effect_advance move.1 thread session _ _
  · next fault frame callers outcome =>
      split
      · next target failed =>
          cases frame <;> simp [failing] at failed <;> subst failed <;> apply effect_quiet <;>
            simp [held_cons, pending_cons, Frame.holds, completedIn]
      · apply effect_quiet <;> rfl
  · next loadedModule target callers outcome =>
      have effect : Effect thread _ _ := Effect.complete
        (view session (.initialising target :: callers)) none target.absPath loadedModule
        (held callers) (by simp [view, held_cons, Frame.holds])
        (by simpa [view, pending_cons, completedIn] using pending_held callers)
      simpa [view, held_cons, pending_cons, Frame.holds, completedIn, claimingIn] using effect
  · apply effect_quiet <;> rfl

/-- The table knows the claims the threads hold, and no thread holds one twice. -/
def Claims (table : ModuleTable Thread Module) (heldOf : Thread → List Path) : Prop :=
  ∀ thread, (heldOf thread).Nodup ∧
    ∀ path, table.loading path = some thread ↔ path ∈ heldOf thread

theorem claims_release {table : ModuleTable Thread Module} {heldOf : Thread → List Path}
    {thread : Thread} {path : Path} {outer : List Path} {loaded : Path → Option Module}
    (claims : Claims table heldOf) (top : heldOf thread = path :: outer) :
    Claims { loaded := loaded, loading := Function.update table.loading path none }
      (Function.update heldOf thread outer) := by
  have own := claims thread
  rw [top, List.nodup_cons] at own
  intro other
  by_cases same : other = thread
  · subst same
    refine ⟨by simpa using own.1.2, ?_⟩
    intro path'
    by_cases released : path' = path
    · subst released
      simpa using own.1.1
    · simpa [Function.update_of_ne released, released] using own.2 path'
  · refine ⟨by simpa [Function.update_of_ne same] using (claims other).1, ?_⟩
    intro path'
    by_cases released : path' = path
    · subst released
      have owner : table.loading path' = some thread := (own.2 path').mpr List.mem_cons_self
      have elsewhere : path' ∉ heldOf other := by
        intro member
        rw [← (claims other).2 path', owner] at member
        exact same (Option.some.inj member).symm
      simpa [Function.update_of_ne same] using elsewhere
    · simpa [Function.update_of_ne same, Function.update_of_ne released]
        using (claims other).2 path'

theorem claims_take {table : ModuleTable Thread Module} {heldOf : Thread → List Path}
    {thread : Thread} {path : Path} (claims : Claims table heldOf)
    (free : table.loading path = none) :
    Claims { table with loading := Function.update table.loading path (some thread) }
      (Function.update heldOf thread (path :: heldOf thread)) := by
  have unheld : ∀ other, path ∉ heldOf other := by
    intro other member
    rw [← (claims other).2 path, free] at member
    cases member
  intro other
  by_cases same : other = thread
  · subst same
    refine ⟨by simpa using ⟨unheld other, (claims other).1⟩, ?_⟩
    intro path'
    by_cases taken : path' = path
    · subst taken
      simp
    · simpa [Function.update_of_ne taken, taken] using (claims other).2 path'
  · refine ⟨by simpa [Function.update_of_ne same] using (claims other).1, ?_⟩
    intro path'
    by_cases taken : path' = path
    · subst taken
      simpa [Function.update_of_ne same, Ne.symm same] using unheld other
    · simpa [Function.update_of_ne same, Function.update_of_ne taken] using (claims other).2 path'

theorem claims_effect {heldOf : Thread → List Path} {thread : Thread}
    {before after : View Thread Module} (effect : Effect thread before after)
    (own : heldOf thread = before.held) (claims : Claims before.table heldOf) :
    Claims after.table (Function.update heldOf thread after.held) := by
  have unchanged : Function.update heldOf thread before.held = heldOf := by
    rw [← own, Function.update_eq_self]
  cases effect with
  | quiet | complete | obtain =>
      simpa [unchanged] using claims
  | claim next path claiming free =>
      have taken : Claims _ (Function.update heldOf thread (path :: heldOf thread)) :=
        claims_take claims free
      rwa [own] at taken
  | publish next path loadedModule outer others top waiting below =>
      exact claims_release claims (own.trans top)
  | abandon next path outer top below =>
      exact claims_release claims (own.trans top)

omit [DecidableEq Thread] in
/-- A path that no thread is loading is held by none. -/
theorem Claims.free {table : ModuleTable Thread Module} {heldOf : Thread → List Path}
    (claims : Claims table heldOf) {path : Path} (free : table.loading path = none)
    (thread : Thread) : path ∉ heldOf thread := by
  rw [← (claims thread).2 path, free]
  exact nofun

theorem once_effect {heldOf : Thread → List Path} {pendingOf : Thread → List (Path × Module)}
    {thread : Thread} {before after : View Thread Module} (effect : Effect thread before after)
    (ownHeld : heldOf thread = before.held) (ownPending : pendingOf thread = before.pending)
    (claims : Claims before.table heldOf)
    (fresh : ∀ path, before.claiming = some path → before.table.loading path = none →
      before.table.loaded path = none)
    (once : Once before.table.loaded before.completed before.obtained heldOf pendingOf) :
    Once after.table.loaded after.completed after.obtained
      (Function.update heldOf thread after.held)
      (Function.update pendingOf thread after.pending) := by
  have sameHeld : Function.update heldOf thread before.held = heldOf := by
    rw [← ownHeld, Function.update_eq_self]
  have samePending : Function.update pendingOf thread before.pending = pendingOf := by
    rw [← ownPending, Function.update_eq_self]
  cases effect with
  | quiet next =>
      simpa [sameHeld, samePending] using once
  | claim next path claiming free =>
      have taken : Once _ _ _ (Function.update heldOf thread (path :: heldOf thread)) pendingOf :=
        once_take once (claims.free free) (fresh path claiming free)
      simpa [ownHeld, samePending] using taken
  | complete next path loadedModule outer top below =>
      have completed := once_complete once (ownHeld.trans top) (ownPending ▸ below) loadedModule
      simpa [sameHeld, ownPending] using completed
  | publish next path loadedModule outer others top waiting below =>
      exact once_publish once (ownHeld.trans top) (ownPending.trans waiting) below
  | abandon next path outer top below =>
      have released := once_abandon once (ownHeld.trans top) (ownPending ▸ below)
      simpa [samePending, ModuleLoading.abandon] using released
  | obtain next path loadedModule found =>
      simpa [sameHeld, samePending] using once_obtain once found

/-- Whether a claim that is taken is for a module not loaded yet. -/
def claimsFresh (system : Loader Thread Module) (turn : Thread × Files × Move Module) : Bool :=
  match turn.2.2, system.locals turn.1 with
  | .advance, .claiming target :: _ =>
      (system.shared.table.loading target.absPath).isSome ||
        (system.shared.table.loaded target.absPath).isNone
  | _, _ => true

/-- What it means for modules to be loaded once: a top level completes once, all
importers obtain the module that the table still has, the table has only modules that
completed, and when a failed load is given up its file can be claimed by any thread,
its waiters are told, and no call is left with the claim. -/
structure LoadedOnce (system : Loader Thread Module) : Prop where
  completes : ∀ path,
    (system.shared.completed.filter fun entry => decide (entry.1 = path)).length ≤ 1
  same : ∀ first second path found found', (first, path, found) ∈ system.shared.obtained →
    (second, path, found') ∈ system.shared.obtained → found = found'
  kept : ∀ importer path found, (importer, path, found) ∈ system.shared.obtained →
    find system.shared.table path = some found
  whole : ∀ path found, find system.shared.table path = some found →
    (path, found) ∈ system.shared.completed
  retry : ∀ thread target text callers files,
    system.locals thread = .abandoning target text :: callers →
    let after := system.step act (thread, files, .advance)
    find after.shared.table target.absPath = none ∧
      (∀ other, ∃ table, claim after.shared.table other target.absPath = .claimed table) ∧
      awaitLoaded after.shared.table target.absPath = some none ∧
      ∀ other, target.absPath ∉ held (after.locals other)

/-- The state of a session while no module has been loaded twice. -/
structure OnceIn (system : Loader Thread Module) : Prop where
  claims : Claims system.shared.table (fun thread => held (system.locals thread))
  once : Once system.shared.table.loaded system.shared.completed system.shared.obtained
    (fun thread => held (system.locals thread)) (fun thread => pending (system.locals thread))

/-- A thread about to claim does nothing else. -/
theorem claiming_waits {move : Files × Move Module} (other : move.2 ≠ .advance) (thread : Thread)
    (session : Session Thread Module) (target : Target) (callers : List (Frame Module)) :
    act move thread session (.claiming target :: callers) =
      (session, .claiming target :: callers) := by
  obtain ⟨files, kind⟩ := move
  cases kind with
  | advance => exact absurd rfl other
  | request | fail | complete => rfl

omit [DecidableEq Thread] in
theorem claims_fresh {system : Loader Thread Module} {turn : Thread × Files × Move Module}
    (fresh : claimsFresh system turn = true) (advances : turn.2.2 = .advance) {path : Path}
    (claiming : claimingIn (system.locals turn.1) = some path)
    (free : system.shared.table.loading path = none) : system.shared.table.loaded path = none := by
  unfold claimsFresh at fresh
  rw [advances] at fresh
  cases stack : system.locals turn.1 with
  | nil => simp [stack, claimingIn] at claiming
  | cons frame callers =>
      rw [stack] at claiming fresh
      cases frame <;> simp [claimingIn] at claiming
      subst claiming
      simpa [free] using fresh

theorem once_step (system : Loader Thread Module) (turn : Thread × Files × Move Module)
    (fresh : claimsFresh system turn = true) (once : OnceIn system) :
    OnceIn (system.step act turn) := by
  by_cases waits : turn.2.2 ≠ .advance ∧
      ∃ target callers, system.locals turn.1 = .claiming target :: callers
  · obtain ⟨other, target, callers, stack⟩ := waits
    have unchanged : system.step act turn = system := by
      unfold System.step
      rw [stack, claiming_waits other]
      simp only
      rw [← stack, Function.update_eq_self]
    rw [unchanged]
    exact once
  · have looks : ∀ path, claimingIn (system.locals turn.1) = some path →
        system.shared.table.loading path = none → system.shared.table.loaded path = none := by
      intro path claiming free
      have stack : ∃ target callers, system.locals turn.1 = .claiming target :: callers := by
        cases shape : system.locals turn.1 with
        | nil => simp [shape, claimingIn] at claiming
        | cons frame callers =>
            rw [shape] at claiming
            cases frame <;> simp [claimingIn] at claiming
            exact ⟨_, callers, rfl⟩
      by_cases advances : turn.2.2 = .advance
      · exact claims_fresh fresh advances claiming free
      · exact absurd ⟨advances, stack⟩ waits
    have effect := act_effect turn.2 turn.1 system.shared (system.locals turn.1)
    refine ⟨?_, ?_⟩
    · unfold System.step
      simp only [map_update]
      exact claims_effect effect rfl once.claims
    · unfold System.step
      simp only [map_update]
      exact once_effect effect rfl rfl once.claims looks once.once

omit [DecidableEq Thread] in
theorem once_idle : OnceIn (idle : Loader Thread Module) where
  claims := by
    intro thread
    simp [idle, held]
  once := once_nothing (fun _ => rfl) (fun _ => rfl)

/-- A load that is being given up is of a module nobody has published. -/
theorem retry_of_once {system : Loader Thread Module} (once : OnceIn system) {thread : Thread}
    {target : Target} {text : String} {callers : List (Frame Module)} (files : Files)
    (stack : system.locals thread = .abandoning target text :: callers) :
    let after := system.step act (thread, files, .advance)
    find after.shared.table target.absPath = none ∧
      (∀ other, ∃ table, claim after.shared.table other target.absPath = .claimed table) ∧
      awaitLoaded after.shared.table target.absPath = some none ∧
      ∀ other, target.absPath ∉ held (after.locals other) := by
  have holds : target.absPath ∈ held (system.locals thread) := by
    rw [stack, held_cons]
    simp [Frame.holds]
  have absent := once.once.unpublished thread target.absPath holds
  have table : (system.step act (thread, files, .advance)).shared.table =
      ModuleLoading.abandon system.shared.table target.absPath := by
    simp [System.step, act, stack, advance]
  have kept : OnceIn (system.step act (thread, files, .advance)) := by
    apply once_step system (thread, files, .advance) _ once
    simp [claimsFresh, stack]
  refine ⟨?_, ?_, ?_, ?_⟩
  · simpa [find, table, ModuleLoading.abandon] using absent
  · intro other
    simp [claim, table, ModuleLoading.abandon]
  · simpa [awaitLoaded, table, ModuleLoading.abandon] using absent
  · intro other holding
    have claimed := ((kept.claims other).2 target.absPath).mpr holding
    simp [table, ModuleLoading.abandon] at claimed

theorem loaded_once_of_once {system : Loader Thread Module} (once : OnceIn system) :
    LoadedOnce system where
  completes := once.once.completes_once
  same := fun _ _ _ _ _ left right => once.once.obtained_same left right
  kept := once.once.obtainedPublished
  whole := fun path found loaded => (once.once.origin path found).mpr (Or.inl loaded)
  retry := fun _ _ _ _ files stack => retry_of_once once files stack

/-- Over every interleaving in which no claim is taken for a module that is already
loaded, modules are loaded once. -/
theorem modules_loaded_once (schedule : List (Thread × Files × Move Module))
    (fresh : (idle : Loader Thread Module).Meets act
      (fun system turn => claimsFresh system turn = true) schedule) :
    LoadedOnce ((idle : Loader Thread Module).run act schedule) :=
  loaded_once_of_once (run_invariant once_step once_idle fresh)

/-- Two importers of one module that imports nothing: both look it up, the first
loads it while the second waits. -/
def waitingImporter : List (Nat × Files × Move Nat) :=
  let module : Target := ⟨"/util/Numbers.scala", "util.Numbers"⟩
  [(0, .request module), (1, .request module), (0, .advance), (1, .advance), (0, .advance),
    (1, .advance), (0, .advance), (0, .advance), (0, .complete 7), (0, .advance), (0, .advance),
    (1, .advance)].map fun turn => (turn.1, fun _ => [], turn.2)

theorem modules_loaded_once_waiting :
    ((idle : Loader Nat Nat).run act waitingImporter).shared.obtained.length = 2 ∧
      LoadedOnce ((idle : Loader Nat Nat).run act waitingImporter) :=
  ⟨by decide, modules_loaded_once waitingImporter (by decide)⟩

/-- The second importer claims only after the first has published. -/
def lateImporter : List (Nat × Files × Move Nat) :=
  let module : Target := ⟨"/util/Numbers.scala", "util.Numbers"⟩
  [(0, .request module), (1, .request module), (0, .advance), (1, .advance), (0, .advance),
    (0, .advance), (0, .advance), (0, .complete 7), (0, .advance), (0, .advance),
    (1, .advance), (1, .advance), (1, .advance), (1, .complete 8), (1, .advance),
    (1, .advance)].map fun turn => (turn.1, fun _ => [], turn.2)

theorem late_importer_loads_again :
    ¬∀ schedule : List (Nat × Files × Move Nat),
      LoadedOnce ((idle : Loader Nat Nat).run act schedule) := by
  intro always
  have twice : (((idle : Loader Nat Nat).run act lateImporter).shared.completed.filter
      fun entry => decide (entry.1 = "/util/Numbers.scala")).length = 2 := by
    decide
  have once := (always lateImporter).completes "/util/Numbers.scala"
  rw [twice] at once
  exact absurd once (by decide)

end ProtoScala.Repl.ModuleOnce
