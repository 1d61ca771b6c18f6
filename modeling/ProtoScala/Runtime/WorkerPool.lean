import Mathlib.Algebra.Order.BigOperators.Group.List
import Mathlib.Algebra.Order.Group.Nat
import Mathlib.Algebra.Ring.Nat

/-!
# The size of the worker pool

A worker that is about to block counts itself, reads the number of workers, and starts one
more when fewer than the base number would be left. Each of the three is one atomic step,
and so is each critical section of `spawnWorker` and `shutdown`.

The counter is exact in every run. The reading may be old when it is used: two workers that
count themselves first and read the number later may both leave it to the other to start a
worker, and two that see one free place may both take it. Where no worker acts on an old
reading, no thread fails to start, and no worker blocks during the shutdown, the pool stays
below its ceiling and leaves the base number of workers free.
-/

namespace ProtoScala.Runtime.WorkerPool

set_option autoImplicit false

def kMaxWorkers : Nat := 256

/-- The values of `std::size_t`. -/
def sizeModulus : Int := 18446744073709551616

/-- Where `spawnWorker` is; `register` knows whether there is a new thread. -/
inductive SpawnPc where
  | reserve
  | create
  | register (created : Bool)
  deriving DecidableEq, Repr

/-- Who called `spawnWorker`: `ensureStarted`, with the workers left to start, or
`enterBlocking`. -/
inductive Caller where
  | start (left : Nat)
  | enter
  deriving DecidableEq, Repr

/-- Where a thread is. The first line is the thread that starts the pool and shuts it down.
A worker is idle outside blocking calls; `counted` has its reading of `blockedInIo_`. -/
inductive Pc where
  | starting (left : Nat) | running | waiting | joining | clearing | stopped
  | spawn (pc : SpawnPc) (caller : Caller)
  | idle
  | counted (blocked : Int)
  | blocked
  | ended
  deriving DecidableEq, Repr

/-- `startedUp` says that `ensureStarted` has returned; no actor runs before. `registered` is
the size of `workers_`. -/
structure Pool where
  spawning : Nat
  registered : Nat
  blockedInIo : Int
  shuttingDown : Bool
  startedUp : Bool
  threads : List Pc
  deriving DecidableEq, Repr

/-- What a thread does next: its next step, a thread creation that fails, or the end of the
loop of an idle worker. -/
inductive Move where
  | next
  | fail
  | leaveLoop
  deriving DecidableEq, Repr

/-- `spawnWorker` returns to its caller. -/
def Caller.resume : Caller → Pc
  | .start left => .starting left
  | .enter => .blocked

def isWorker : Pc → Bool
  | .idle | .counted _ | .blocked | .ended | .spawn _ .enter => true
  | _ => false

namespace Pool

variable (pool : Pool)

def goes (i : Nat) (pc : Pc) : Pool :=
  { pool with threads := pool.threads.set i pc }

/-- `workers_.size() + spawning_`. -/
def total : Nat :=
  pool.registered + pool.spawning

/-- `total - blocked` is computed in `std::size_t`. -/
def wantsWorker (base : Nat) (blocked : Int) : Bool :=
  decide (pool.total < kMaxWorkers ∧ ((pool.total : Int) - blocked) % sizeModulus < base)

def allEnded : Bool :=
  pool.threads.all fun pc => !isWorker pc || decide (pc = .ended)

end Pool

def spawnStep (pool : Pool) (i : Nat) (move : Move) (caller : Caller) : SpawnPc → Pool
  | .reserve =>
    if pool.shuttingDown then pool.goes i caller.resume
    else { pool with spawning := pool.spawning + 1 }.goes i (.spawn .create caller)
  | .create =>
    if move = .fail then pool.goes i (.spawn (.register false) caller)
    else { pool with threads := pool.threads ++ [Pc.idle] }.goes i (.spawn (.register true) caller)
  | .register created =>
    { pool with
      registered := pool.registered + created.toNat
      spawning := pool.spawning - 1 }.goes i caller.resume

/-- One step of the `i`-th thread. -/
def act (base : Nat) (pool : Pool) (i : Nat) (move : Move) : Pc → Pool
  | .starting 0 => { pool with startedUp := true }.goes i .running
  | .starting (left + 1) => pool.goes i (.spawn .reserve (.start left))
  | .running => { pool with shuttingDown := true }.goes i .waiting
  | .waiting => if pool.spawning = 0 then pool.goes i .joining else pool
  | .joining => if pool.allEnded then pool.goes i .clearing else pool
  | .clearing => { pool with registered := 0 }.goes i .stopped
  | .stopped => pool
  | .spawn pc caller => spawnStep pool i move caller pc
  | .idle =>
    if move = .leaveLoop then
      if pool.shuttingDown then pool.goes i .ended else pool
    else if pool.startedUp then
      { pool with blockedInIo := pool.blockedInIo + 1 }.goes i (.counted (pool.blockedInIo + 1))
    else pool
  | .counted blocked =>
    if pool.wantsWorker base blocked then pool.goes i (.spawn .reserve .enter)
    else pool.goes i .blocked
  | .blocked => { pool with blockedInIo := pool.blockedInIo - 1 }.goes i .idle
  | .ended => pool

def step (base : Nat) (pool : Pool) (turn : Nat × Move) : Pool :=
  match pool.threads[turn.1]? with
  | none => pool
  | some pc => act base pool turn.1 turn.2 pc

def run (base : Nat) (pool : Pool) (schedule : List (Nat × Move)) : Pool :=
  schedule.foldl (step base) pool

/-- The first call of `ensureStarted`. -/
def startPool (base : Nat) : Pool where
  spawning := 0
  registered := 0
  blockedInIo := 0
  shuttingDown := false
  startedUp := false
  threads := [.starting base]

/-! ## The bounds -/

/-- A sum over the threads; a property counts as 1. -/
def weigh (weight : Pc → Nat) (pool : Pool) : Nat :=
  (pool.threads.map weight).sum

/-- Worker threads. -/
def live : Pc → Nat
  | .idle | .counted _ | .blocked | .spawn _ .enter => 1
  | _ => 0

/-- Workers between `enterBlocking` and `leaveBlocking`. -/
def between : Pc → Nat
  | .counted _ | .blocked | .spawn _ .enter => 1
  | _ => 0

/-- Workers that have finished `enterBlocking`. -/
def inCall : Pc → Nat
  | .blocked => 1
  | _ => 0

/-- Workers that are not in a blocking call. -/
def free : Pc → Nat
  | .idle | .counted _ | .spawn _ .enter => 1
  | _ => 0

structure PoolBounds (base : Nat) (pool : Pool) : Prop where
  ceiling : weigh live pool ≤ kMaxWorkers
  counter : pool.blockedInIo = weigh between pool
  spare : 0 < weigh inCall pool → pool.total < kMaxWorkers → base ≤ weigh free pool

/-- A place is reserved only while there is one. -/
def reservesInTime (pool : Pool) (turn : Nat × Move) : Prop :=
  match pool.threads[turn.1]? with
  | some (.spawn .reserve _) => pool.total < kMaxWorkers
  | _ => True

/-- The reading of a worker does not need another worker, but the counter of now does. -/
def stale (base : Nat) (pool : Pool) (blocked : Int) : Prop :=
  pool.total < kMaxWorkers ∧ (base : Int) ≤ ((pool.total : Int) - blocked) % sizeModulus ∧
    (pool.total : Int) - pool.blockedInIo < base

/-- No worker acts on an old reading, no thread fails to start, and shutdown and blocking
calls keep apart. -/
def timely (base : Nat) (pool : Pool) (turn : Nat × Move) : Prop :=
  match pool.threads[turn.1]? with
  | some (.spawn .reserve _) => pool.total < kMaxWorkers
  | some (.spawn .create _) => turn.2 ≠ .fail
  | some (.counted blocked) => ¬ stale base pool blocked
  | some .idle => turn.2 = .leaveLoop ∨ pool.shuttingDown = false
  | some .running => pool.blockedInIo = 0
  | _ => True

instance (base : Nat) (pool : Pool) (turn : Nat × Move) : Decidable (timely base pool turn) := by
  unfold timely stale
  split <;> infer_instance

/-- Every step of a schedule meets the condition. -/
def Meets (base : Nat) (met : Pool → Nat × Move → Prop) : Pool → List (Nat × Move) → Prop
  | _, [] => True
  | pool, turn :: later => met pool turn ∧ Meets base met (step base pool turn) later

instance decidableMeets (base : Nat) (met : Pool → Nat × Move → Prop)
    [∀ pool turn, Decidable (met pool turn)] :
    ∀ (pool : Pool) (schedule : List (Nat × Move)), Decidable (Meets base met pool schedule)
  | _, [] => inferInstanceAs (Decidable True)
  | pool, turn :: later =>
    have : Decidable (Meets base met (step base pool turn) later) :=
      decidableMeets base met (step base pool turn) later
    inferInstanceAs (Decidable (met pool turn ∧ Meets base met (step base pool turn) later))

/-! ## Weights -/

theorem sum_set {weight : Pc → Nat} :
    ∀ {threads : List Pc} {i : Nat} {old new : Pc}, threads[i]? = some old →
      ((threads.set i new).map weight).sum + weight old =
        (threads.map weight).sum + weight new := by
  intro threads
  induction threads with
  | nil =>
    intro i old new here
    simp at here
  | cons first rest ih =>
    intro i old new here
    cases i with
    | zero =>
      obtain rfl : first = old := by simpa using here
      simp only [List.set_cons_zero, List.map_cons, List.sum_cons]
      omega
    | succ i =>
      have later := @ih i old new (by simpa using here)
      simp only [List.set_cons_succ, List.map_cons, List.sum_cons]
      omega

/-- A thread moves from `old` to `new`. -/
theorem weigh_goes (weight : Pc → Nat) {pool : Pool} {i : Nat} {old : Pc} (new : Pc)
    (here : pool.threads[i]? = some old) :
    weigh weight (pool.goes i new) + weight old = weigh weight pool + weight new :=
  sum_set here

theorem weigh_ge (weight : Pc → Nat) {pool : Pool} {i : Nat} {pc : Pc}
    (here : pool.threads[i]? = some pc) : weight pc ≤ weigh weight pool :=
  List.single_le_sum (by simp) _ (List.mem_map_of_mem (List.mem_of_getElem? here))

theorem weigh_mono {lower upper : Pc → Nat} (le : ∀ pc, lower pc ≤ upper pc) (pool : Pool) :
    weigh lower pool ≤ weigh upper pool :=
  List.sum_le_sum fun pc _ => le pc

theorem weigh_add (first second : Pc → Nat) (pool : Pool) :
    weigh (fun pc => first pc + second pc) pool = weigh first pool + weigh second pool :=
  List.sum_map_add

/-- A new worker is idle. -/
theorem weigh_spawn (weight : Pc → Nat) (pool : Pool) :
    weigh weight { pool with threads := pool.threads ++ [.idle] } =
      weigh weight pool + weight .idle := by
  simp [weigh]

theorem weigh_congr (weight : Pc → Nat) {pool other : Pool} (same : other.threads = pool.threads) :
    weigh weight other = weigh weight pool := by
  unfold weigh
  rw [same]

theorem weigh_zero {weight : Pc → Nat} {pool : Pool} (all : ∀ pc ∈ pool.threads, weight pc = 0) :
    weigh weight pool = 0 := by
  rw [weigh, List.sum_eq_zero]
  simpa using all

/-! ## What the threads add up to -/

/-- Threads that hold a place in `spawning_`. -/
def creating : Pc → Nat
  | .spawn .create _ | .spawn (.register _) _ => 1
  | _ => 0

/-- New threads that are not registered. -/
def created : Pc → Nat
  | .spawn (.register true) _ => 1
  | _ => 0

/-- Workers, those that have ended too. -/
def worker : Pc → Nat
  | .idle | .counted _ | .blocked | .ended | .spawn _ .enter => 1
  | _ => 0

def gone : Pc → Nat
  | .ended => 1
  | _ => 0

/-- The thread that owns the pool, before it has joined the workers. -/
def owner : Pc → Nat
  | .starting _ | .running | .waiting | .joining | .spawn _ (.start _) => 1
  | _ => 0

def finished : Pc → Nat
  | .clearing | .stopped => 1
  | _ => 0

def cleared : Pc → Nat
  | .stopped => 1
  | _ => 0

def closing : Pc → Nat
  | .waiting | .joining | .clearing | .stopped => 1
  | _ => 0

def startPhase : Pc → Nat
  | .starting _ | .spawn _ (.start _) => 1
  | _ => 0

/-- What holds in every run. -/
structure Accounted (pool : Pool) : Prop where
  counter : pool.blockedInIo = weigh between pool
  slots : pool.spawning = weigh creating pool
  one : weigh owner pool + weigh finished pool = 1
  registered : weigh cleared pool = 0 → weigh worker pool = pool.registered + weigh created pool
  all_ended : weigh finished pool = 0 ∨ weigh live pool = 0
  shut : weigh closing pool = 0 ∨ pool.shuttingDown.toNat = 1
  still : weigh gone pool = 0 ∨ pool.shuttingDown.toNat = 1
  begun : weigh between pool = 0 ∨ pool.startedUp.toNat = 1
  started : weigh startPhase pool = 0 ∨ pool.startedUp.toNat = 0

/-- How the weights change when a thread moves from `old` to `new` and `more` idle workers
come. -/
structure Moved (pool next : Pool) (old new : Pc) (more : Nat) : Prop where
  weights : ∀ weight : Pc → Nat,
    weigh weight next + weight old = weigh weight pool + weight new + more * weight .idle
  enough : ∀ weight : Pc → Nat, weight old ≤ weigh weight pool

theorem moved_goes {pool : Pool} (next : Pool) {i : Nat} {old new : Pc}
    (here : pool.threads[i]? = some old) (set : next.threads = pool.threads.set i new) :
    Moved pool next old new 0 where
  weights weight := by
    have same : weigh weight next = weigh weight (pool.goes i new) := weigh_congr weight set
    have sums := weigh_goes weight new here
    omega
  enough weight := weigh_ge weight here

theorem moved_spawn {pool : Pool} {i : Nat} {old : Pc} (new : Pc)
    (here : pool.threads[i]? = some old) :
    Moved pool ({ pool with threads := pool.threads ++ [Pc.idle] }.goes i new) old new 1 where
  weights weight := by
    have here' : ({ pool with threads := pool.threads ++ [Pc.idle] } : Pool).threads[i]? =
        some old := by
      rw [List.getElem?_append_left (List.getElem?_eq_some_iff.1 here).1]
      exact here
    have sums := weigh_goes weight new here'
    rw [weigh_spawn] at sums
    omega
  enough weight := weigh_ge weight here

theorem accounted_start (base : Nat) : Accounted (startPool base) := by
  constructor <;> simp [startPool, weigh, between, creating, owner, finished, cleared, worker,
    created, live, closing, gone, startPhase]

theorem ended_live {pool : Pool} (all : pool.allEnded = true) : weigh live pool = 0 := by
  refine weigh_zero fun pc member => ?_
  have this := List.all_eq_true.1 all pc member
  cases pc with
  | spawn spawnPc caller => cases caller <;> simp_all [isWorker, live]
  | _ => simp_all [isWorker, live]

/-- No thread has a weight, and the move brings none. -/
theorem Moved.stays_zero {pool next : Pool} {old new : Pc} {more : Nat}
    (moved : Moved pool next old new more) {weight : Pc → Nat}
    (less : weight new + more * weight .idle ≤ weight old) (zero : weigh weight pool = 0) :
    weigh weight next = 0 := by
  have sums := moved.weights weight
  have enough := moved.enough weight
  omega

/-- What a move has to keep for the sums of the invariant to stay right. -/
structure Keeps (pool next : Pool) (old new : Pc) (more : Nat) : Prop where
  counter : next.blockedInIo + between old = pool.blockedInIo + between new
  slots : creating old ≤ pool.spawning →
    next.spawning + creating old = pool.spawning + creating new
  one : owner new + finished new = owner old + finished old
  registered : cleared new = 0 → cleared old = 0 ∧
    worker new + more + pool.registered + created old =
      worker old + next.registered + created new
  all_ended : (0 < live old + owner old ∧ finished new = 0) ∨
    (weigh live pool = 0 ∧ live new + more = 0)
  shuts : next.shuttingDown = true ∨
    (next.shuttingDown = pool.shuttingDown ∧ closing new ≤ closing old ∧ gone new ≤ gone old)
  begun : next.startedUp = true ∨
    (next.startedUp = pool.startedUp ∧ between new ≤ between old)
  started : (next.startedUp = pool.startedUp ∧ startPhase new ≤ startPhase old) ∨
    weigh startPhase next = 0

section

variable {pool next : Pool} {old new : Pc} {more : Nat}

theorem Moved.keeps_registered (moved : Moved pool next old new more) (inv : Accounted pool)
    (keeps : Keeps pool next old new more) (early : weigh cleared next = 0) :
    weigh worker next = next.registered + weigh created next := by
  have cleared_sums := moved.weights cleared
  have cleared_enough := moved.enough cleared
  obtain ⟨early_old, change⟩ := keeps.registered (by omega)
  have before := inv.registered (by omega)
  have workers := moved.weights worker
  have places := moved.weights created
  simp only [worker, created] at workers places change ⊢
  omega

theorem Moved.keeps_ended (moved : Moved pool next old new more) (inv : Accounted pool)
    (keeps : Keeps pool next old new more) : weigh finished next = 0 ∨ weigh live next = 0 := by
  rcases keeps.all_ended with ⟨alive, open_new⟩ | ⟨none_live, none_new⟩
  · left
    have one := inv.one
    have lives := moved.enough live
    have owners := moved.enough owner
    have none_finished : weigh finished pool = 0 := by
      rcases inv.all_ended with none_finished | none_live
      · exact none_finished
      · omega
    have idle_runs : finished .idle = 0 := rfl
    exact moved.stays_zero (by rw [idle_runs]; omega) none_finished
  · right
    have idle_live : live .idle = 1 := rfl
    exact moved.stays_zero (by rw [idle_live]; omega) none_live

theorem Moved.keeps_flag (moved : Moved pool next old new more) {weight : Pc → Nat}
    {before after : Bool} (idle : weight .idle = 0)
    (keeps : after = true ∨ (after = before ∧ weight new ≤ weight old))
    (held : weigh weight pool = 0 ∨ before.toNat = 1) :
    weigh weight next = 0 ∨ after.toNat = 1 := by
  rcases keeps with set | ⟨same, less⟩
  · exact .inr (by rw [set]; rfl)
  · rcases held with zero | set
    · exact .inl (moved.stays_zero (by rw [idle]; omega) zero)
    · exact .inr (by rw [same, set])

theorem Moved.accounted (moved : Moved pool next old new more) (inv : Accounted pool)
    (keeps : Keeps pool next old new more) : Accounted next where
  counter := by
    have sums := moved.weights between
    have change := keeps.counter
    have counter := inv.counter
    simp only [between] at sums change
    omega
  slots := by
    have sums := moved.weights creating
    have slots := inv.slots
    have enough := moved.enough creating
    have change := keeps.slots (by omega)
    simp only [creating] at sums change
    omega
  one := by
    have owners := moved.weights owner
    have ends := moved.weights finished
    have change := keeps.one
    have one := inv.one
    simp only [owner, finished] at owners ends change
    omega
  registered := moved.keeps_registered inv keeps
  all_ended := moved.keeps_ended inv keeps
  shut := moved.keeps_flag rfl (keeps.shuts.imp_right fun same => ⟨same.1, same.2.1⟩) inv.shut
  still := moved.keeps_flag rfl (keeps.shuts.imp_right fun same => ⟨same.1, same.2.2⟩) inv.still
  begun := moved.keeps_flag rfl keeps.begun inv.begun
  started := by
    rcases keeps.started with ⟨same, less⟩ | zero
    · rw [same]
      have idle : startPhase .idle = 0 := rfl
      exact inv.started.imp_left (moved.stays_zero (by rw [idle]; omega))
    · exact .inl zero

end

theorem start_phase_le_owner (pc : Pc) : startPhase pc ≤ owner pc := by
  cases pc with
  | spawn spawnPc caller => cases caller <;> simp [startPhase, owner]
  | _ => simp [startPhase, owner]

/-- The last step of `ensureStarted`: no other thread is in it. -/
theorem Moved.begins {pool next : Pool} (moved : Moved pool next (.starting 0) .running 0)
    (inv : Accounted pool) : weigh startPhase next = 0 := by
  have phase := weigh_mono start_phase_le_owner pool
  have sums := moved.weights startPhase
  have one := inv.one
  simp only [startPhase] at sums
  omega

theorem cleared_le_finished (pc : Pc) : cleared pc ≤ finished pc := by
  cases pc <;> simp [cleared, finished]

section

attribute [local simp] between creating created worker live owner finished cleared closing gone
  startPhase Caller.resume Pool.goes

theorem accounted_spawn {pool : Pool} {i : Nat} {move : Move} {pc : SpawnPc} {caller : Caller}
    (inv : Accounted pool) (here : pool.threads[i]? = some (.spawn pc caller)) :
    Accounted (spawnStep pool i move caller pc) := by
  cases pc with
  | reserve =>
    rw [spawnStep]
    split
    · refine (moved_goes (pool.goes i caller.resume) here rfl).accounted inv ?_
      cases caller <;> constructor <;> simp
    · refine (moved_goes ({ pool with spawning := pool.spawning + 1 }.goes i
        (.spawn .create caller)) here rfl).accounted inv ?_
      cases caller <;> constructor <;> simp
  | create =>
    rw [spawnStep]
    split
    · refine (moved_goes (pool.goes i (.spawn (.register false) caller)) here rfl).accounted inv ?_
      cases caller <;> constructor <;> simp
    · refine (moved_spawn (.spawn (.register true) caller) here).accounted inv ?_
      cases caller <;> constructor <;> simp <;> omega
  | register isCreated =>
    rw [spawnStep]
    refine (moved_goes ({ pool with
      registered := pool.registered + isCreated.toNat
      spawning := pool.spawning - 1 }.goes i caller.resume) here rfl).accounted inv ?_
    cases caller <;> cases isCreated <;> constructor <;> simp <;> omega

theorem accounted_act {pool : Pool} {i : Nat} {move : Move} {pc : Pc} (base : Nat)
    (inv : Accounted pool) (here : pool.threads[i]? = some pc) :
    Accounted (act base pool i move pc) := by
  cases pc with
  | spawn pc caller => exact accounted_spawn inv here
  | stopped => exact inv
  | ended => exact inv
  | starting left =>
    cases left with
    | zero =>
      have moved := moved_goes ({ pool with startedUp := true }.goes i .running) here rfl
      have begun := moved.begins inv
      refine moved.accounted inv ?_
      constructor
      case started => exact .inr begun
      all_goals simp
    | succ left =>
      refine (moved_goes (pool.goes i (.spawn .reserve (.start left))) here rfl).accounted inv ?_
      constructor <;> simp
  | running =>
    refine (moved_goes ({ pool with shuttingDown := true }.goes i .waiting) here rfl).accounted
      inv ?_
    constructor <;> simp
  | waiting =>
    rw [act]
    split
    · refine (moved_goes (pool.goes i .joining) here rfl).accounted inv ?_
      constructor <;> simp
    · exact inv
  | joining =>
    rw [act]
    split
    · rename_i joined
      have none_live := ended_live joined
      refine (moved_goes (pool.goes i .clearing) here rfl).accounted inv ?_
      constructor <;> simp [none_live]
    · exact inv
  | clearing =>
    have none_live : weigh live pool = 0 := by
      have ended : finished .clearing ≤ weigh finished pool := weigh_ge finished here
      rcases inv.all_ended with none_finished | none_live
      · rw [none_finished] at ended
        contradiction
      · exact none_live
    refine (moved_goes ({ pool with registered := 0 }.goes i .stopped) here rfl).accounted inv ?_
    constructor <;> simp [none_live]
  | idle =>
    rw [act]
    split
    · split
      · rename_i shutting
        refine (moved_goes (pool.goes i .ended) here rfl).accounted inv ?_
        constructor <;> simp [shutting]
      · exact inv
    · split
      · rename_i open_pool
        refine (moved_goes ({ pool with
          blockedInIo := pool.blockedInIo + 1 }.goes i (.counted (pool.blockedInIo + 1)))
          here rfl).accounted inv ?_
        constructor <;> simp [open_pool]
      · exact inv
  | counted blocked =>
    rw [act]
    split
    · refine (moved_goes (pool.goes i (.spawn .reserve .enter)) here rfl).accounted inv ?_
      constructor <;> simp
    · refine (moved_goes (pool.goes i .blocked) here rfl).accounted inv ?_
      constructor <;> simp
  | blocked =>
    refine (moved_goes ({ pool with
      blockedInIo := pool.blockedInIo - 1 }.goes i .idle) here rfl).accounted inv ?_
    constructor <;> simp

end

theorem accounted_step {pool : Pool} (base : Nat) (inv : Accounted pool) (turn : Nat × Move) :
    Accounted (step base pool turn) := by
  unfold step
  split
  · exact inv
  · rename_i pc here
    exact accounted_act base inv here

theorem run_invariant {base : Nat} {met : Pool → Nat × Move → Prop} (inv : Pool → Prop)
    (preserved : ∀ pool turn, met pool turn → inv pool → inv (step base pool turn)) :
    ∀ {schedule : List (Nat × Move)} {pool : Pool}, inv pool → Meets base met pool schedule →
      inv (run base pool schedule) := by
  intro schedule
  induction schedule with
  | nil => exact fun start _ => start
  | cons turn later ih => exact fun start all => ih (preserved _ turn all.1 start) all.2

theorem accounted_run (base : Nat) {pool : Pool} (inv : Accounted pool)
    (schedule : List (Nat × Move)) : Accounted (run base pool schedule) := by
  induction schedule generalizing pool with
  | nil => exact inv
  | cons turn later ih => exact ih (accounted_step base inv turn)

/-- In every run the counter is the number of workers between `enterBlocking` and
`leaveBlocking`. -/
theorem counter_exact (base : Nat) (schedule : List (Nat × Move)) :
    (run base (startPool base) schedule).blockedInIo =
      weigh between (run base (startPool base) schedule) :=
  (accounted_run base (accounted_start base) schedule).counter

/-! ## The ceiling -/

theorem created_le_creating (pc : Pc) : created pc ≤ creating pc := by
  cases pc with
  | spawn spawnPc caller =>
    cases spawnPc with
    | register isCreated => cases isCreated <;> simp [created, creating]
    | _ => simp [created, creating]
  | _ => simp [created, creating]

theorem live_le_worker (pc : Pc) : live pc ≤ worker pc := by
  cases pc with
  | spawn spawnPc caller => cases caller <;> simp [live, worker]
  | _ => simp [live, worker]

/-- Only a reservation takes one more place. -/
theorem total_step {base : Nat} {pool : Pool} {turn : Nat × Move} (inv : Accounted pool)
    (below : pool.total ≤ kMaxWorkers) (inTime : reservesInTime pool turn) :
    (step base pool turn).total ≤ kMaxWorkers := by
  unfold reservesInTime at inTime
  unfold step
  cases here : pool.threads[turn.1]? with
  | none => exact below
  | some pc =>
    rw [here] at inTime
    cases pc with
    | spawn pc caller =>
      cases pc with
      | reserve =>
        simp only [act, spawnStep] at inTime ⊢
        split
        · exact below
        · simp only [Pool.total, Pool.goes] at *
          omega
      | create =>
        simp only [act, spawnStep]
        split <;> exact below
      | register isCreated =>
        have held := weigh_ge creating here
        have slots := inv.slots
        simp only [creating] at held
        simp only [act, spawnStep, Pool.total, Pool.goes] at *
        cases isCreated <;> simp only [Bool.toNat_true, Bool.toNat_false] <;> omega
    | clearing =>
      simp only [act, Pool.total, Pool.goes] at *
      omega
    | starting left => cases left <;> exact below
    | running | stopped | ended | blocked => exact below
    | waiting | joining | counted _ =>
      simp only [act]
      split <;> exact below
    | idle =>
      simp only [act]
      split <;> split <;> exact below

theorem ceiling_of_total {pool : Pool} (inv : Accounted pool) (below : pool.total ≤ kMaxWorkers) :
    weigh live pool ≤ kMaxWorkers := by
  have workers := weigh_mono live_le_worker pool
  have places := weigh_mono created_le_creating pool
  have late := weigh_mono cleared_le_finished pool
  have slots := inv.slots
  rcases Nat.eq_zero_or_pos (weigh cleared pool) with early | cleared_pool
  · have registered := inv.registered early
    simp only [Pool.total] at below
    omega
  · have none_live := inv.all_ended
    omega

/-! ## The spare workers -/

/-- Workers that `ensureStarted` has not registered yet. -/
def owed : Pc → Nat
  | .starting left => left
  | .spawn _ (.start left) => left + 1
  | _ => 0

def readings : Pc → Nat
  | .counted _ => 1
  | _ => 0

def failures : Pc → Nat
  | .spawn (.register false) _ => 1
  | _ => 0

/-- Before the shutdown the registered workers are enough for the base number and those in
blocking calls, unless every place is taken. -/
structure Spare (base : Nat) (pool : Pool) : Prop where
  accounted : Accounted pool
  below : pool.total ≤ kMaxWorkers
  spare : pool.shuttingDown.toNat = 1 ∨ kMaxWorkers ≤ pool.total ∨
    base + weigh inCall pool ≤ pool.registered + weigh owed pool
  quiet : pool.shuttingDown.toNat = 0 ∨ weigh between pool = 0
  intact : weigh failures pool = 0

theorem spare_start (base : Nat) : Spare base (startPool base) where
  accounted := accounted_start base
  below := by simp [startPool, Pool.total]
  spare := by simp [startPool, weigh, inCall, owed]
  quiet := by simp [startPool]
  intact := by simp [startPool, weigh, failures]

/-- Reserved places belong to a worker in `enterBlocking`, or are owed. -/
theorem places_owned (pc : Pc) :
    creating pc + readings pc + inCall pc ≤ between pc + owed pc := by
  cases pc with
  | spawn spawnPc caller =>
    cases spawnPc <;> cases caller <;> simp [creating, readings, inCall, between, owed]
  | _ => simp [creating, readings, inCall, between, owed]

theorem Moved.spare_census {pool next : Pool} {old new : Pc} {more : Nat}
    (moved : Moved pool next old new more) :
    weigh inCall next + inCall old = weigh inCall pool + inCall new + more * 0 ∧
      weigh owed next + owed old = weigh owed pool + owed new + more * 0 ∧
      weigh between next + between old = weigh between pool + between new + more * 0 ∧
      weigh failures next + failures old = weigh failures pool + failures new + more * 0 ∧
      inCall old ≤ weigh inCall pool ∧ owed old ≤ weigh owed pool ∧
      between old ≤ weigh between pool ∧ failures old ≤ weigh failures pool ∧
      creating old ≤ weigh creating pool ∧ readings old ≤ weigh readings pool :=
  ⟨moved.weights _, moved.weights _, moved.weights _, moved.weights _, moved.enough _,
    moved.enough _, moved.enough _, moved.enough _, moved.enough _, moved.enough _⟩

theorem reserves_of_timely {base : Nat} {pool : Pool} {turn : Nat × Move}
    (met : timely base pool turn) : reservesInTime pool turn := by
  unfold timely at met
  unfold reservesInTime
  split
  · rename_i caller here
    simpa [here] using met
  · trivial

/-- A worker that starts no other leaves enough, by the counter of now. -/
theorem enough_of_reading {base : Nat} {pool : Pool} {blocked : Int}
    (satisfied : pool.wantsWorker base blocked = false) (fresh : ¬ stale base pool blocked) :
    kMaxWorkers ≤ pool.total ∨ (base : Int) ≤ (pool.total : Int) - pool.blockedInIo := by
  by_cases room : pool.total < kMaxWorkers
  · right
    have enough : (base : Int) ≤ ((pool.total : Int) - blocked) % sizeModulus := by
      simp only [Pool.wantsWorker, room, true_and, decide_eq_false_iff_not] at satisfied
      omega
    by_contra short
    exact fresh ⟨room, enough, by omega⟩
  · exact .inl (Nat.not_lt.1 room)

theorem spare_spawn {base : Nat} {pool : Pool} {i : Nat} {move : Move} {pc : SpawnPc}
    {caller : Caller} (inv : Spare base pool) (here : pool.threads[i]? = some (.spawn pc caller))
    (met : timely base pool (i, move)) (next : Pool)
    (stepped : next = spawnStep pool i move caller pc) :
    (next.shuttingDown.toNat = 1 ∨ kMaxWorkers ≤ next.total ∨
      base + weigh inCall next ≤ next.registered + weigh owed next) ∧
    (next.shuttingDown.toNat = 0 ∨ weigh between next = 0) ∧ weigh failures next = 0 := by
  obtain ⟨accounted, below, spare, quiet, intact⟩ := inv
  have slots := accounted.slots
  simp only [timely, here] at met
  subst stepped
  cases pc with
  | reserve =>
    rw [spawnStep]
    split
    · rename_i shutting
      have facts := (moved_goes (pool.goes i caller.resume) here rfl).spare_census
      cases caller <;>
        simp only [Caller.resume, inCall, owed, between, failures, creating, readings] at facts <;>
        simp only [Caller.resume, Pool.goes, Pool.total, shutting, Bool.toNat_true, true_or, true_and] at * <;>
        omega
    · have facts := (moved_goes ({ pool with spawning := pool.spawning + 1 }.goes i
        (.spawn .create caller)) here rfl).spare_census
      cases caller <;>
        simp only [inCall, owed, between, failures, creating, readings] at facts <;>
        simp only [Pool.goes, Pool.total] at * <;> omega
  | create =>
    rw [spawnStep, if_neg met]
    have facts := (moved_spawn (.spawn (.register true) caller) here).spare_census
    cases caller <;>
      simp only [inCall, owed, between, failures, creating, readings] at facts <;>
      simp only [Pool.goes, Pool.total] at * <;> omega
  | register isCreated =>
    rw [spawnStep]
    have facts := (moved_goes ({ pool with
      registered := pool.registered + isCreated.toNat
      spawning := pool.spawning - 1 }.goes i caller.resume) here rfl).spare_census
    cases caller <;> cases isCreated <;>
      simp only [Caller.resume, inCall, owed, between, failures, creating, readings] at facts <;>
      simp only [Caller.resume, Pool.goes, Pool.total, Bool.toNat_true, Bool.toNat_false] at * <;>
      omega

theorem spare_act {base : Nat} {pool : Pool} {i : Nat} {move : Move} {pc : Pc}
    (inv : Spare base pool) (here : pool.threads[i]? = some pc)
    (met : timely base pool (i, move)) (next : Pool) (stepped : next = act base pool i move pc) :
    (next.shuttingDown.toNat = 1 ∨ kMaxWorkers ≤ next.total ∨
      base + weigh inCall next ≤ next.registered + weigh owed next) ∧
    (next.shuttingDown.toNat = 0 ∨ weigh between next = 0) ∧ weigh failures next = 0 := by
  have same : (pool.shuttingDown.toNat = 1 ∨ kMaxWorkers ≤ pool.total ∨
      base + weigh inCall pool ≤ pool.registered + weigh owed pool) ∧
    (pool.shuttingDown.toNat = 0 ∨ weigh between pool = 0) ∧ weigh failures pool = 0 :=
    ⟨inv.spare, inv.quiet, inv.intact⟩
  have counter := inv.accounted.counter
  have slots := inv.accounted.slots
  have shut := inv.accounted.shut
  have closes := weigh_ge closing here
  obtain ⟨spare, quiet, intact⟩ := same
  cases pc with
  | spawn pc caller => exact spare_spawn inv here met next stepped
  | stopped => exact stepped ▸ ⟨spare, quiet, intact⟩
  | ended => exact stepped ▸ ⟨spare, quiet, intact⟩
  | starting left =>
    subst stepped
    cases left with
    | zero =>
      have facts := (moved_goes ({ pool with startedUp := true }.goes i .running)
        here rfl).spare_census
      simp only [inCall, owed, between, failures, creating, readings] at facts
      simp only [act, Pool.goes, Pool.total] at *
      omega
    | succ left =>
      have facts := (moved_goes (pool.goes i (.spawn .reserve (.start left)))
        here rfl).spare_census
      simp only [inCall, owed, between, failures, creating, readings] at facts
      simp only [act, Pool.goes, Pool.total] at *
      omega
  | running =>
    subst stepped
    simp only [timely, here] at met
    have facts := (moved_goes ({ pool with shuttingDown := true }.goes i .waiting)
      here rfl).spare_census
    simp only [inCall, owed, between, failures, creating, readings] at facts
    simp only [act, Pool.goes, Pool.total, Bool.toNat_true, true_or, true_and] at *
    omega
  | waiting =>
    subst stepped
    rw [act]
    split
    · have facts := (moved_goes (pool.goes i .joining) here rfl).spare_census
      simp only [inCall, owed, between, failures, creating, readings] at facts
      simp only [Pool.goes, Pool.total] at *
      omega
    · exact ⟨spare, quiet, intact⟩
  | joining =>
    subst stepped
    rw [act]
    split
    · have facts := (moved_goes (pool.goes i .clearing) here rfl).spare_census
      simp only [inCall, owed, between, failures, creating, readings] at facts
      simp only [Pool.goes, Pool.total] at *
      omega
    · exact ⟨spare, quiet, intact⟩
  | clearing =>
    subst stepped
    have facts := (moved_goes ({ pool with registered := 0 }.goes i .stopped)
      here rfl).spare_census
    simp only [inCall, owed, between, failures, creating, readings, closing] at facts closes
    simp only [act, Pool.goes, Pool.total] at *
    omega
  | idle =>
    subst stepped
    simp only [timely, here] at met
    rw [act]
    split
    · split
      · have facts := (moved_goes (pool.goes i .ended) here rfl).spare_census
        simp only [inCall, owed, between, failures, creating, readings] at facts
        simp only [Pool.goes, Pool.total] at *
        omega
      · exact ⟨spare, quiet, intact⟩
    · rename_i enters
      have running := met.resolve_left enters
      split
      · have facts := (moved_goes ({ pool with
          blockedInIo := pool.blockedInIo + 1 }.goes i (.counted (pool.blockedInIo + 1)))
          here rfl).spare_census
        simp only [inCall, owed, between, failures, creating, readings] at facts
        simp only [Pool.goes, Pool.total, running, Bool.toNat_false, true_or, true_and] at *
        omega
      · exact ⟨spare, quiet, intact⟩
  | counted blocked =>
    subst stepped
    simp only [timely, here] at met
    rw [act]
    split
    · have facts := (moved_goes (pool.goes i (.spawn .reserve .enter))
        here rfl).spare_census
      simp only [inCall, owed, between, failures, creating, readings] at facts
      simp only [Pool.goes, Pool.total] at *
      omega
    · rename_i satisfied
      rw [Bool.not_eq_true] at satisfied
      have enough := enough_of_reading satisfied met
      have places := weigh_mono places_owned pool
      simp only [weigh_add] at places
      have facts := (moved_goes (pool.goes i .blocked) here rfl).spare_census
      simp only [inCall, owed, between, failures, creating, readings] at facts
      simp only [Pool.goes, Pool.total] at *
      omega
  | blocked =>
    subst stepped
    have facts := (moved_goes ({ pool with
      blockedInIo := pool.blockedInIo - 1 }.goes i .idle) here rfl).spare_census
    simp only [inCall, owed, between, failures, creating, readings] at facts
    simp only [act, Pool.goes, Pool.total] at *
    omega

theorem spare_step {base : Nat} {pool : Pool} {turn : Nat × Move} (inv : Spare base pool)
    (met : timely base pool turn) : Spare base (step base pool turn) := by
  have accounted := accounted_step base inv.accounted turn
  have below : (step base pool turn).total ≤ kMaxWorkers :=
    total_step inv.accounted inv.below (reserves_of_timely met)
  unfold step at *
  cases here : pool.threads[turn.1]? with
  | none => exact inv
  | some pc =>
    simp only [here] at accounted below ⊢
    obtain ⟨spare, quiet, intact⟩ := spare_act inv here met _ rfl
    exact ⟨accounted, below, spare, quiet, intact⟩

theorem owed_zero {pool : Pool} (none_starts : weigh startPhase pool = 0) : weigh owed pool = 0 := by
  refine weigh_zero fun pc member => ?_
  have zero : startPhase pc = 0 :=
    List.sum_eq_zero_iff.1 none_starts _ (List.mem_map_of_mem member)
  cases pc with
  | spawn spawnPc caller => cases caller <;> simp_all [startPhase, owed]
  | _ => simp_all [startPhase, owed]

theorem in_call_le_between (pc : Pc) : inCall pc ≤ between pc := by
  cases pc with
  | spawn spawnPc caller => cases caller <;> simp [inCall, between]
  | _ => simp [inCall, between]

theorem cleared_le_closing (pc : Pc) : cleared pc ≤ closing pc := by
  cases pc <;> simp [cleared, closing]

theorem workers_split (pc : Pc) : worker pc ≤ free pc + inCall pc + gone pc := by
  cases pc with
  | spawn spawnPc caller => cases caller <;> simp [worker, free, inCall, gone]
  | _ => simp [worker, free, inCall, gone]

theorem bounds_of_spare {base : Nat} {pool : Pool} (inv : Spare base pool) :
    PoolBounds base pool where
  ceiling := ceiling_of_total inv.accounted inv.below
  counter := inv.accounted.counter
  spare := by
    intro some_blocked room
    obtain ⟨accounted, below, spare, quiet, intact⟩ := inv
    have entered := weigh_mono in_call_le_between pool
    have early := weigh_mono cleared_le_closing pool
    have workers := weigh_mono workers_split pool
    simp only [weigh_add] at workers
    have open_pool : pool.shuttingDown.toNat = 0 := by omega
    have begun := accounted.begun
    have started := accounted.started
    have settled : weigh owed pool = 0 := owed_zero (by omega)
    have shut := accounted.shut
    have still := accounted.still
    have registered := accounted.registered (by omega)
    omega

/-- In every run in which no worker acts on an old reading, no thread fails to start, and
shutdown and blocking calls keep apart, the pool keeps its bounds in every state. -/
theorem pool_bounds (base : Nat) (schedule : List (Nat × Move))
    (meets : Meets base (timely base) (startPool base) schedule) :
    PoolBounds base (run base (startPool base) schedule) :=
  bounds_of_spare (run_invariant (Spare base) (fun _ _ met inv => spare_step inv met)
    (spare_start base) meets)

/-- The steps of `ensureStarted` for two workers. -/
def startTwo : List (Nat × Move) :=
  List.replicate 9 (0, Move.next)

/-- One worker blocks, a third is started for it, and it comes back. -/
theorem one_blocks_in_time :
    PoolBounds 2 (run 2 (startPool 2) (startTwo ++ List.replicate 5 (1, Move.next))) ∧
      PoolBounds 2 (run 2 (startPool 2) (startTwo ++ List.replicate 6 (1, Move.next))) :=
  ⟨pool_bounds 2 _ (by decide), pool_bounds 2 _ (by decide)⟩

/-- Two workers count themselves; the second starts one more, and the first reads the number
of workers only then. -/
def lateReading : List (Nat × Move) :=
  startTwo ++ [(1, Move.next), (2, Move.next)] ++ List.replicate 4 (2, Move.next) ++
    [(1, Move.next)]

/-- Both are in their calls, no thread is on its way, and one worker is left of two. -/
theorem late_reading_starves :
    (run 2 (startPool 2) lateReading).threads = [.running, .blocked, .blocked, .idle] ∧
      ¬ PoolBounds 2 (run 2 (startPool 2) lateReading) := by
  refine ⟨by decide, fun bounds => ?_⟩
  exact absurd (bounds.spare (by decide) (by decide)) (by decide)

end ProtoScala.Runtime.WorkerPool
