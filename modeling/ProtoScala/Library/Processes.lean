import Mathlib.Data.Fintype.Card
import Mathlib.Data.Set.Finite.Basic
import Mathlib.Logic.Function.Basic
import Mathlib.Logic.Relation
import Mathlib.Order.WellFounded

/-!
# Processes over a shared state

Any number of processes, each with a state of its own, act in turn on one shared
state. A turn names the process and the move it makes; a process may read the
whole of its own state, which is where this differs from the call stacks of
`Library.Threads`, whose steps see one frame.

`run_invariant` takes what one turn preserves to every run whose turns meet a
condition. `no_deadlock` says that processes whose waits-for relation has no cycle
cannot all wait for each other.
-/

namespace ProtoScala.Library.Processes

set_option autoImplicit false

variable {Shared Process Local Move : Type}

structure System (Shared Process Local : Type) where
  shared : Shared
  locals : Process → Local

/-- What a process does with a move: the next shared state and its own. -/
abbrev Act (Shared Process Local Move : Type) :=
  Move → Process → Shared → Local → Shared × Local

namespace System

variable [DecidableEq Process]

def step (act : Act Shared Process Local Move) (system : System Shared Process Local)
    (turn : Process × Move) : System Shared Process Local :=
  let next := act turn.2 turn.1 system.shared (system.locals turn.1)
  { shared := next.1
    locals := Function.update system.locals turn.1 next.2 }

def run (act : Act Shared Process Local Move) (system : System Shared Process Local)
    (schedule : List (Process × Move)) : System Shared Process Local :=
  schedule.foldl (step act) system

/-- Whether every turn of a schedule meets a condition on the state it is taken in. -/
def Meets (act : Act Shared Process Local Move)
    (met : System Shared Process Local → Process × Move → Prop) :
    System Shared Process Local → List (Process × Move) → Prop
  | _, [] => True
  | system, turn :: later => met system turn ∧ Meets act met (system.step act turn) later

instance decidableMeets (act : Act Shared Process Local Move)
    (met : System Shared Process Local → Process × Move → Prop)
    [∀ system turn, Decidable (met system turn)] :
    ∀ (system : System Shared Process Local) (schedule : List (Process × Move)),
      Decidable (Meets act met system schedule)
  | _, [] => inferInstanceAs (Decidable True)
  | system, turn :: later =>
      have : Decidable (Meets act met (system.step act turn) later) :=
        decidableMeets act met (system.step act turn) later
      inferInstanceAs (Decidable (met system turn ∧ Meets act met (system.step act turn) later))

end System

/-- Among finitely many processes whose waits-for relation has no cycle, one waits
for none of the others. -/
theorem no_deadlock {waits : Process → Process → Prop}
    (acyclic : ∀ process, ¬Relation.TransGen waits process process)
    {group : Set Process} (finite : group.Finite) (nonempty : group.Nonempty) :
    ∃ process ∈ group, ∀ other ∈ group, ¬waits process other := by
  have inhabited := nonempty.to_subtype
  have fin := finite.to_subtype
  let chain : group → group → Prop := fun a b => Relation.TransGen waits b.1 a.1
  have trans : IsTrans group chain := ⟨fun a b c first second => second.trans first⟩
  have irrefl : Std.Irrefl chain := ⟨fun a cycle => acyclic a.1 cycle⟩
  have founded : WellFounded chain := Finite.wellFounded_of_trans_of_irrefl chain
  obtain ⟨last, -, least⟩ := founded.has_min Set.univ Set.univ_nonempty
  refine ⟨last.1, last.2, ?_⟩
  intro other member waiting
  exact least ⟨other, member⟩ (Set.mem_univ _) (Relation.TransGen.single waiting)

variable [DecidableEq Process]

/-- What is read of the processes when one of them moves. -/
theorem map_update {Value : Type} (read : Local → Value) (locals : Process → Local)
    (process : Process) (next : Local) :
    (fun other => read (Function.update locals process next other)) =
      Function.update (fun other => read (locals other)) process (read next) := by
  funext other
  by_cases same : other = process
  · subst same
    simp
  · simp [Function.update_of_ne same]

theorem run_invariant {act : Act Shared Process Local Move}
    {met : System Shared Process Local → Process × Move → Prop}
    {invariant : System Shared Process Local → Prop}
    (preserved : ∀ system turn, met system turn → invariant system →
      invariant (system.step act turn))
    {system : System Shared Process Local} (start : invariant system)
    {schedule : List (Process × Move)} (all : system.Meets act met schedule) :
    invariant (system.run act schedule) := by
  induction schedule generalizing system with
  | nil => exact start
  | cons turn later induction => exact induction (preserved system turn all.1 start) all.2

/-- The processes that have ever moved are finitely many, so a state that a process
starts in is the state of all but finitely many processes. -/
theorem run_finite {act : Act Shared Process Local Move} (idle : Local → Prop)
    {system : System Shared Process Local} (start : ∀ process, idle (system.locals process))
    (schedule : List (Process × Move)) :
    { process | ¬idle ((system.run act schedule).locals process) }.Finite := by
  have moved : ∀ (schedule : List (Process × Move)) (system : System Shared Process Local),
      { process | ¬idle (system.locals process) }.Finite →
        { process | ¬idle ((system.run act schedule).locals process) }.Finite := by
    intro schedule
    induction schedule with
    | nil => exact fun _ finite => finite
    | cons turn later induction =>
        intro system finite
        apply induction (system.step act turn)
        apply (finite.insert turn.1).subset
        intro process busy
        by_cases same : process = turn.1
        · exact Or.inl same
        · refine Or.inr ?_
          simpa [System.step, Function.update_of_ne same] using busy
  apply moved schedule system
  simp [start]

end ProtoScala.Library.Processes
