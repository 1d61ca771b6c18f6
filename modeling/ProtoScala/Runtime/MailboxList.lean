import Mathlib.Data.Multiset.Bind
import Mathlib.Data.Multiset.Range
import ProtoScala.Library.QueueHistory
import ProtoScala.Library.Threads

/-!
# The mailbox on a compare-and-swap list

The mailbox without protoCore's queue: a mutable object whose attribute
`__items__` refers to an immutable list. Threads push and take in any
interleaving, the allocator gives out any cell that is not in use, and the
collector may take back, before any step, every list that neither the attribute
nor a traced slot of a thread refers to. A snapshot is compared by its address,
so an address used again would pass for the old list; the pin in `push` and
`takeAll` is what rules this out.
-/

namespace ProtoScala.Runtime.MailboxList

open ProtoScala.Library.QueueHistory
open ProtoScala.Library.Threads

set_option autoImplicit false

variable {A V : Type}

/-! ## The fallback of Mailbox.cpp -/

/-- A call that has returned: its effect in the history, at `place`, and the
length of the history at its start and at its return. -/
structure Call (V : Type) where
  operation : Event V
  start : Nat
  place : Nat
  finish : Nat
deriving DecidableEq, Repr

structure Shared (A V : Type) where
  /-- The attribute `__items__`. -/
  items : A
  /-- The lists of the heap; a cell that is free, or was collected, has none. -/
  cells : A → Option (List V)
  /-- What the collector finds in the slots and the young chains of all threads. -/
  roots : Multiset A
  /-- The effects of the operations, in the order in which they took place. -/
  history : List (Event V)
  calls : List (Call V)

inductive PushPc (A : Type)
  | read
  | appendLast (cur : A)
  | setAttributeIfEqual (cur next : A)

/-- A call that finds the list empty took effect when it read the attribute:
`getSize` knows that place in the history. -/
inductive TakeAllPc (A : Type)
  | read
  | getSize (cur : A) (place : Option Nat)
  | newList (cur : A)
  | setAttributeIfEqual (cur empty : A)
  | anchor (cur : A) (place : Nat)

inductive Task (A V : Type)
  | idle
  | push (item : V) (start : Nat) (pc : PushPc A)
  | takeAll (start : Nat) (pc : TakeAllPc A)
  /-- A list was walked that had been collected. -/
  | crashed

/-- A thread: the young chain of its context, the slot it pins in, and its task. -/
structure Frame (A V : Type) where
  chain : List A
  held : Option A
  task : Task A V

/-- What happens next: a thread calls an operation, goes on, or goes on with the
cell that its allocation got; its context submits its young chain; a list is
collected. -/
inductive Choice (A V : Type)
  | push (item : V)
  | takeAll
  | isEmpty
  | go
  | alloc (cell : A)
  | submit
  | collect (cell : A)

def Frame.roots (f : Frame A V) : Multiset A :=
  (f.chain : Multiset A) + (f.held.toList : Multiset A)

section Steps

variable [DecidableEq A] [DecidableEq V]

namespace Shared

/-- A new list. The cell is a free one, or one that holds the same list, which
immutable lists may share. -/
def allocate (s : Shared A V) (cell : A) (list : List V) : Option (Shared A V) :=
  if s.cells cell = none ∨ s.cells cell = some list then
    some { s with cells := Function.update s.cells cell (some list) }
  else none

def collect (s : Shared A V) (cell : A) : Shared A V :=
  if cell = s.items ∨ cell ∈ s.roots then s
  else { s with cells := Function.update s.cells cell none }

def happen (s : Shared A V) (event : Event V) : Shared A V :=
  { s with history := s.history ++ [event] }

def returned (s : Shared A V) (operation : Event V) (start place : Nat) : Shared A V :=
  { s with calls := s.calls ++ [⟨operation, start, place, s.history.length⟩] }

end Shared

/-- The loop of `Mailbox::push`. -/
def push (choice : Choice A V) (s : Shared A V) (f : Frame A V) (item : V) (start : Nat) :
    PushPc A → Shared A V × Frame A V
  | .read => (s, { f with held := some s.items, task := .push item start (.appendLast s.items) })
  | .appendLast cur =>
      match choice, s.cells cur with
      | .alloc cell, some list =>
          match s.allocate cell (list ++ [item]) with
          | some s' =>
              (s', { f with
                chain := cell :: f.chain
                task := .push item start (.setAttributeIfEqual cur cell) })
          | none => (s, f)
      | _, some _ => (s, f)
      | _, none => (s, { f with task := .crashed })
  | .setAttributeIfEqual cur next =>
      if s.items = cur then
        ((({ s with items := next }).happen (.push item)).returned (.push item) start
            s.history.length,
          { f with held := none, task := .idle })
      else (s, { f with task := .push item start .read })

/-- The loop of `Mailbox::takeAll`. -/
def takeAll (choice : Choice A V) (s : Shared A V) (f : Frame A V) (start : Nat) :
    TakeAllPc A → Shared A V × Frame A V
  | .read =>
      if s.cells s.items = some [] then
        (s.happen (.takeAll []),
          { f with
            held := some s.items
            task := .takeAll start (.getSize s.items (some s.history.length)) })
      else
        (s, { f with held := some s.items, task := .takeAll start (.getSize s.items none) })
  | .getSize cur place =>
      match s.cells cur with
      | some [] =>
          (s.returned (.takeAll []) start (place.getD start),
            { f with held := none, task := .idle })
      | some (_ :: _) => (s, { f with task := .takeAll start (.newList cur) })
      | none => (s, { f with task := .crashed })
  | .newList cur =>
      match choice with
      | .alloc cell =>
          match s.allocate cell [] with
          | some s' =>
              (s', { f with
                chain := cell :: f.chain
                task := .takeAll start (.setAttributeIfEqual cur cell) })
          | none => (s, f)
      | _ => (s, f)
  | .setAttributeIfEqual cur empty =>
      if s.items = cur then
        match s.cells cur with
        | some batch =>
            (({ s with items := empty }).happen (.takeAll batch),
              { f with task := .takeAll start (.anchor cur s.history.length) })
        | none => (s, { f with task := .crashed })
      else (s, { f with task := .takeAll start .read })
  | .anchor cur place =>
      match s.cells cur with
      | some batch =>
          (s.returned (.takeAll batch) start place,
            { chain := cur :: f.chain, held := none, task := .idle })
      | none => (s, { f with task := .crashed })

/-- `Mailbox::isEmpty` allocates nothing between its read and `getSize`, so no
collection comes between them. -/
def isEmpty (s : Shared A V) (f : Frame A V) : Shared A V × Frame A V :=
  match s.cells s.items with
  | some list =>
      ((s.happen (.isEmpty list.isEmpty)).returned (.isEmpty list.isEmpty) s.history.length
        s.history.length, f)
  | none => (s, { f with task := .crashed })

def act (choice : Choice A V) (s : Shared A V) (f : Frame A V) : Shared A V × Frame A V :=
  match choice, f.task with
  | .collect cell, _ => (s.collect cell, f)
  | .push item, .idle => (s, { f with task := .push item s.history.length .read })
  | .takeAll, .idle => (s, { f with task := .takeAll s.history.length .read })
  | .isEmpty, .idle => isEmpty s f
  | .submit, .idle => (s, { f with chain := [] })
  | choice, .push item start pc => push choice s f item start pc
  | choice, .takeAll start pc => takeAll choice s f start pc
  | _, _ => (s, f)

/-- One step; the collector sees the slots and the chain of the thread as the
step leaves them. -/
def frameStep : FrameStep (Shared A V) (Frame A V) (Choice A V) := fun choice s f =>
  let next := act choice s f
  ({ next.1 with roots := s.roots - f.roots + next.2.roots }, [next.2])

/-- `Mailbox::create`, and threads that have called nothing yet. -/
def create (cell : A) (threads : Nat) : Machine (Shared A V) (Frame A V) where
  shared :=
    { items := cell
      cells := Function.update (fun _ => none) cell (some [])
      roots := 0
      history := []
      calls := [] }
  threads := List.replicate threads [⟨[], none, .idle⟩]

end Steps

/-! ## What a thread relies on -/

/-- The place in the history of a call that has taken effect and not returned. -/
def point (f : Frame A V) : Multiset Nat :=
  match f.task with
  | .takeAll _ (.getSize _ place) => (place.toList : Multiset Nat)
  | .takeAll _ (.anchor _ place) => {place}
  | _ => 0

/-- The lists that a task goes on with. -/
def Task.lists : Task A V → List A
  | .push _ _ (.appendLast cur) => [cur]
  | .push _ _ (.setAttributeIfEqual cur next) => [cur, next]
  | .takeAll _ (.getSize cur _) | .takeAll _ (.newList cur) | .takeAll _ (.anchor cur _) => [cur]
  | .takeAll _ (.setAttributeIfEqual cur empty) => [cur, empty]
  | _ => []

/-- A thread's snapshot and the list it made from it are still what they were. -/
def PushSound (s : Shared A V) (item : V) : PushPc A → Prop
  | .read => True
  | .appendLast cur => ∃ queue, s.cells cur = some queue
  | .setAttributeIfEqual cur next =>
      ∃ queue, s.cells cur = some queue ∧ s.cells next = some (queue ++ [item])

def TakeAllSound (s : Shared A V) (start : Nat) : TakeAllPc A → Prop
  | .read => True
  | .getSize cur place =>
      (∃ item rest, s.cells cur = some (item :: rest) ∧ place = none) ∨
        ∃ at_, s.cells cur = some [] ∧ place = some at_ ∧ start ≤ at_ ∧
          s.history[at_]? = some (.takeAll [])
  | .newList cur => ∃ queue, s.cells cur = some queue
  | .setAttributeIfEqual cur empty =>
      (∃ queue, s.cells cur = some queue) ∧ s.cells empty = some []
  | .anchor cur place =>
      ∃ batch, s.cells cur = some batch ∧ start ≤ place ∧
        s.history[place]? = some (.takeAll batch)

def TaskSound (s : Shared A V) : Task A V → Prop
  | .idle => True
  | .push item start pc => start ≤ s.history.length ∧ PushSound s item pc
  | .takeAll start pc => start ≤ s.history.length ∧ TakeAllSound s start pc
  | .crashed => False

structure FrameSound (s : Shared A V) (f : Frame A V) : Prop where
  task : TaskSound s f.task
  rooted : ∀ cell ∈ f.task.lists, cell ∈ f.roots

/-- A returned call took effect between its start and its return. -/
structure CallSound (history : List (Event V)) (call : Call V) : Prop where
  event : history[call.place]? = some call.operation
  start : call.start ≤ call.place
  finish : call.place < call.finish
  past : call.finish ≤ history.length

section Invariant

variable [DecidableEq V]

/-- The list behind the attribute is the queue that the history leaves. -/
def QueueSound (s : Shared A V) : Prop :=
  ∃ queue, s.cells s.items = some queue ∧ replay s.history = some queue

structure Sound (s : Shared A V) (frames : Multiset (Frame A V)) : Prop where
  queue : QueueSound s
  roots : s.roots = frames.bind Frame.roots
  frame : ∀ f ∈ frames, FrameSound s f
  calls : ∀ call ∈ s.calls, CallSound s.history call
  points : (s.calls.map Call.place : Multiset Nat) + frames.bind point =
    Multiset.range s.history.length

/-- What one step of a thread leaves as it was, and what it adds. -/
structure Acted (s : Shared A V) (f : Frame A V) (s' : Shared A V) (f' : Frame A V) : Prop where
  kept : ∀ cell ∈ s.roots, ∀ list, s.cells cell = some list → s'.cells cell = some list
  grown : s.history <+: s'.history
  traced : s'.roots = s.roots
  queue : QueueSound s'
  frame : FrameSound s' f'
  calls : ∀ call ∈ s'.calls, call ∈ s.calls ∨ CallSound s'.history call
  points : (s'.calls.map Call.place : Multiset Nat) + point f' +
      Multiset.range s.history.length =
    (s.calls.map Call.place : Multiset Nat) + point f + Multiset.range s'.history.length

end Invariant

theorem getElem?_of_prefix {history history' : List (Event V)} (grown : history <+: history')
    {place : Nat} {event : Event V} (there : history[place]? = some event) :
    history'[place]? = some event := by
  obtain ⟨later, rfl⟩ := grown
  rw [List.getElem?_append_left (List.getElem?_eq_some_iff.mp there).1]
  exact there

theorem call_sound_later {history history' : List (Event V)} (grown : history <+: history')
    {call : Call V} (sound : CallSound history call) : CallSound history' call where
  event := getElem?_of_prefix grown sound.event
  start := sound.start
  finish := sound.finish
  past := sound.past.trans grown.length_le

/-- A thread can rely on the lists it holds while others take steps. -/
theorem task_sound_later {s s' : Shared A V} {task : Task A V} (sound : TaskSound s task)
    (kept : ∀ cell ∈ task.lists, ∀ list, s.cells cell = some list → s'.cells cell = some list)
    (grown : s.history <+: s'.history) : TaskSound s' task := by
  have longer := grown.length_le
  cases task with
  | idle => trivial
  | crashed => exact sound
  | push item start pc =>
      refine ⟨sound.1.trans longer, ?_⟩
      have known := sound.2
      cases pc with
      | read => trivial
      | appendLast cur =>
          obtain ⟨queue, list⟩ := known
          exact ⟨queue, kept cur (by simp [Task.lists]) _ list⟩
      | setAttributeIfEqual cur next =>
          obtain ⟨queue, list, made⟩ := known
          exact ⟨queue, kept cur (by simp [Task.lists]) _ list,
            kept next (by simp [Task.lists]) _ made⟩
  | takeAll start pc =>
      refine ⟨sound.1.trans longer, ?_⟩
      have known := sound.2
      cases pc with
      | read => trivial
      | getSize cur place =>
          obtain ⟨item, rest, list, none_⟩ | ⟨at_, list, some_, after, there⟩ := known
          · exact .inl ⟨item, rest, kept cur (by simp [Task.lists]) _ list, none_⟩
          · exact .inr ⟨at_, kept cur (by simp [Task.lists]) _ list, some_, after,
              getElem?_of_prefix grown there⟩
      | newList cur =>
          obtain ⟨queue, list⟩ := known
          exact ⟨queue, kept cur (by simp [Task.lists]) _ list⟩
      | setAttributeIfEqual cur empty =>
          obtain ⟨⟨queue, list⟩, made⟩ := known
          exact ⟨⟨queue, kept cur (by simp [Task.lists]) _ list⟩,
            kept empty (by simp [Task.lists]) _ made⟩
      | anchor cur place =>
          obtain ⟨batch, list, after, there⟩ := known
          exact ⟨batch, kept cur (by simp [Task.lists]) _ list, after,
            getElem?_of_prefix grown there⟩

/-! ## Steps -/

/-- A new list hangs in the young chain, beside the pinned snapshot. -/
theorem rooted_alloc {f : Frame A V} {cur : A} (held : cur ∈ f.roots) (cell : A) {task : Task A V}
    (lists : task.lists = [cur, cell]) :
    ∀ other ∈ task.lists,
      other ∈ ({ f with chain := cell :: f.chain, task } : Frame A V).roots := by
  simp only [Frame.roots, Multiset.mem_add, Multiset.mem_coe] at held ⊢
  simp only [lists, List.mem_cons, List.not_mem_nil, or_false]
  rintro other (rfl | rfl)
  · exact held.imp_left .inr
  · exact .inl (.inl rfl)

section Acts

variable [DecidableEq V] {s s' : Shared A V} {f f' : Frame A V}

/-- A step that only moves a thread on. -/
theorem acted_only_frame (queue : QueueSound s) (frame : FrameSound s f')
    (points : point f' = point f) : Acted s f s f' where
  kept _ _ _ there := there
  grown := List.prefix_rfl
  traced := rfl
  queue := queue
  frame := frame
  calls _ mem := .inl mem
  points := by rw [points]

/-- A call returns what took effect at its place. -/
theorem acted_returned (queue : QueueSound s) {operation : Event V} {start place : Nat}
    (there : s.history[place]? = some operation) (after : start ≤ place)
    (idle : f'.task = .idle) (at_ : point f = {place}) :
    Acted s f (s.returned operation start place) f' where
  kept _ _ _ there := there
  grown := List.prefix_rfl
  traced := rfl
  queue := queue
  frame := ⟨by rw [idle]; trivial, by simp [idle, Task.lists]⟩
  calls call mem := by
    obtain old | rfl := List.mem_append.mp mem |>.imp_right List.mem_singleton.mp
    · exact .inl old
    · exact .inr ⟨there, after, (List.getElem?_eq_some_iff.mp there).1, le_rfl⟩
  points := by
    have none_ : point f' = 0 := by simp [point, idle]
    simp only [Shared.returned, List.map_append, ← Multiset.coe_add, none_, at_, add_zero]
    rfl

theorem queue_happen {items : A} {event : Event V} {queue next : List V}
    (before : replay s.history = some queue) (effect : event.after queue = some next)
    (list : s.cells items = some next) :
    QueueSound (({ s with items := items } : Shared A V).happen event) := by
  refine ⟨next, list, ?_⟩
  show replay (s.history ++ [event]) = some next
  rw [replay_append, before]
  exact effect

/-- A call takes effect: the attribute refers to the list that the effect leaves. -/
theorem acted_happen {items : A} {event : Event V} {queue next : List V}
    (before : replay s.history = some queue) (effect : event.after queue = some next)
    (list : s.cells items = some next)
    (frame : FrameSound (({ s with items := items } : Shared A V).happen event) f')
    (points : point f' = {s.history.length} + point f) :
    Acted s f (({ s with items := items } : Shared A V).happen event) f' where
  kept _ _ _ there := there
  grown := List.prefix_append _ _
  traced := rfl
  queue := queue_happen before effect list
  frame := frame
  calls _ mem := .inl mem
  points := by
    have longer : (s.history ++ [event]).length = s.history.length + 1 := by simp
    show _ = _ + Multiset.range (s.history ++ [event]).length
    rw [points, longer, Multiset.range_succ, ← Multiset.singleton_add]
    simp only [Shared.happen]
    ac_rfl

/-- A call takes effect and returns in one step. -/
theorem acted_at_once {items : A} {event : Event V} {queue next : List V} {start : Nat}
    (before : replay s.history = some queue) (effect : event.after queue = some next)
    (list : s.cells items = some next) (begun : start ≤ s.history.length)
    (idle : f'.task = .idle) (none_ : point f = 0) :
    Acted s f
      ((({ s with items := items } : Shared A V).happen event).returned event start
        s.history.length) f' where
  kept _ _ _ there := there
  grown := List.prefix_append _ _
  traced := rfl
  queue := queue_happen before effect list
  frame := ⟨by rw [idle]; trivial, by simp [idle, Task.lists]⟩
  calls call mem := by
    obtain old | rfl := List.mem_append.mp mem |>.imp_right List.mem_singleton.mp
    · exact .inl old
    · exact .inr ⟨by simp [Shared.happen, Shared.returned], begun, by simp [Shared.happen],
        le_rfl⟩
  points := by
    have idle_ : point f' = 0 := by simp [point, idle]
    simp only [Shared.happen, Shared.returned, List.map_append, List.map_cons, List.map_nil,
      List.length_append, List.length_singleton, ← Multiset.coe_add, Multiset.coe_singleton,
      Multiset.range_succ, ← Multiset.singleton_add, none_, idle_, add_zero]
    ac_rfl

theorem is_empty_acted (queue : QueueSound s) (here : f.task = .idle) :
    Acted s f (isEmpty s f).1 (isEmpty s f).2 := by
  obtain ⟨found, there, replays⟩ := queue
  simp only [isEmpty, there]
  exact acted_at_once replays (by simp [Event.after]) there le_rfl here
    (by simp [point, here])

section Allocation

variable [DecidableEq A]

theorem allocate_some {cell : A} {list : List V} (made : s.allocate cell list = some s') :
    s'.cells cell = some list ∧
      (∀ other found, s.cells other = some found → s'.cells other = some found) ∧
      s'.items = s.items ∧ s'.roots = s.roots ∧ s'.history = s.history ∧ s'.calls = s.calls := by
  unfold Shared.allocate at made
  split at made
  · next free =>
      obtain rfl := Option.some.inj made
      refine ⟨by simp, fun other found there => ?_, rfl, rfl, rfl, rfl⟩
      by_cases same : other = cell
      · subst same
        obtain none_ | shared := free
        · simp [none_] at there
        · simpa [shared] using there
      · simpa [Function.update_of_ne same] using there
  · contradiction

theorem acted_allocate {cell : A} {list : List V} (queue : QueueSound s)
    (made : s.allocate cell list = some s') (frame : FrameSound s' f')
    (points : point f' = point f) : Acted s f s' f' := by
  obtain ⟨-, kept, items, roots, history, calls⟩ := allocate_some made
  obtain ⟨found, there, replays⟩ := queue
  exact {
    kept := fun other _ => kept other
    grown := history ▸ List.prefix_rfl
    traced := roots
    queue := ⟨found, items ▸ kept _ _ there, history ▸ replays⟩
    frame
    calls := fun _ mem => .inl (calls ▸ mem)
    points := by rw [points, calls, history] }

/-- The collector leaves the list behind the attribute and all that a thread holds. -/
theorem acted_collect (queue : QueueSound s) (sound : FrameSound s f)
    (mine : ∀ cell ∈ f.roots, cell ∈ s.roots) (cell : A) : Acted s f (s.collect cell) f := by
  unfold Shared.collect
  split
  · exact acted_only_frame queue sound rfl
  · next unused =>
      obtain ⟨other, unrooted⟩ := not_or.mp unused
      have kept : ∀ held ∈ s.roots, ∀ list, s.cells held = some list →
          Function.update s.cells cell none held = some list := by
        intro held mem list there
        rw [Function.update_of_ne fun same : held = cell => unrooted (same ▸ mem)]
        exact there
      obtain ⟨found, there, replays⟩ := queue
      exact {
        kept
        grown := List.prefix_rfl
        traced := rfl
        queue := ⟨found, by simpa [Function.update_of_ne (Ne.symm other)] using there, replays⟩
        frame := ⟨task_sound_later sound.task
          (fun held mem => kept held (mine held (sound.rooted held mem))) List.prefix_rfl,
          sound.rooted⟩
        calls := fun _ mem => .inl mem
        points := rfl }

/-- One step of a push. -/
theorem push_acted (queue : QueueSound s) {item : V} {start : Nat} {pc : PushPc A}
    (here : f.task = .push item start pc) (sound : FrameSound s f) (choice : Choice A V) :
    Acted s f (push choice s f item start pc).1 (push choice s f item start pc).2 := by
  obtain ⟨task, rooted⟩ := id sound
  rw [here] at task rooted
  obtain ⟨begun, known⟩ := task
  have none_ : point f = 0 := by simp [point, here]
  cases pc with
  | read =>
      obtain ⟨found, there, -⟩ := id queue
      refine acted_only_frame queue ⟨⟨begun, found, there⟩, ?_⟩ (by rw [none_]; rfl)
      simp [push, Task.lists, Frame.roots]
  | appendLast cur =>
      obtain ⟨list, there⟩ := known
      have stays : Acted s f s f := acted_only_frame queue sound rfl
      cases choice with
      | alloc cell =>
          simp only [push, there]
          cases made : s.allocate cell (list ++ [item]) with
          | none => exact stays
          | some s' =>
              obtain ⟨filled, kept, -, -, history, -⟩ := allocate_some made
              refine acted_allocate queue made ⟨⟨history ▸ begun, list, kept _ _ there, filled⟩, ?_⟩
                (by simp [point, here])
              exact rooted_alloc (rooted cur (by simp [Task.lists])) cell rfl
      | _ => simpa only [push, there] using stays
  | setAttributeIfEqual cur next =>
      obtain ⟨list, there, made⟩ := known
      by_cases same : s.items = cur
      · obtain ⟨found, current, replays⟩ := queue
        obtain rfl : list = found := by
          rw [same, there] at current
          exact Option.some.inj current
        simp only [push, if_pos same]
        exact acted_at_once replays rfl made begun rfl none_
      · simp only [push, if_neg same]
        exact acted_only_frame queue ⟨⟨begun, trivial⟩, by simp [Task.lists]⟩ (by rw [none_]; rfl)

/-- One step of a `takeAll`. -/
theorem take_all_acted (queue : QueueSound s) {start : Nat} {pc : TakeAllPc A}
    (here : f.task = .takeAll start pc) (sound : FrameSound s f) (choice : Choice A V) :
    Acted s f (takeAll choice s f start pc).1 (takeAll choice s f start pc).2 := by
  obtain ⟨task, rooted⟩ := id sound
  rw [here] at task rooted
  obtain ⟨begun, known⟩ := task
  have later : ∀ event : Event V, start ≤ (s.happen event).history.length := by
    intro event
    simp only [Shared.happen, List.length_append]
    omega
  have last : ∀ event : Event V, (s.happen event).history[s.history.length]? = some event := by
    intro event
    simp [Shared.happen]
  cases pc with
  | read =>
      have none_ : point f = 0 := by simp [point, here]
      obtain ⟨found, there, replays⟩ := id queue
      by_cases empty : s.cells s.items = some []
      · obtain rfl : [] = found := by
          rw [empty] at there
          exact Option.some.inj there
        simp only [takeAll, if_pos empty]
        refine acted_happen replays (by simp [Event.after]) there
          ⟨⟨later _, .inr ⟨_, there, rfl, begun, last _⟩⟩, ?_⟩ (by rw [none_]; rfl)
        simp [Task.lists, Frame.roots]
      · simp only [takeAll, if_neg empty]
        refine acted_only_frame queue ⟨⟨begun, .inl ?_⟩, ?_⟩ (by rw [none_]; rfl)
        · cases found with
          | nil => exact absurd there empty
          | cons item rest => exact ⟨item, rest, there, rfl⟩
        · simp [Task.lists, Frame.roots]
  | getSize cur place =>
      obtain ⟨item, rest, list, rfl⟩ | ⟨at_, list, rfl, after, there⟩ := known
      · simp only [takeAll, list]
        exact acted_only_frame queue ⟨⟨begun, _, list⟩, rooted⟩ (by simp [point, here])
      · simp only [takeAll, list]
        exact acted_returned queue there after rfl (by simp [point, here])
  | newList cur =>
      have none_ : point f = 0 := by simp [point, here]
      obtain ⟨list, there⟩ := known
      have stays : Acted s f s f := acted_only_frame queue sound rfl
      cases choice with
      | alloc cell =>
          simp only [takeAll]
          cases made : s.allocate cell [] with
          | none => exact stays
          | some s' =>
              obtain ⟨filled, kept, -, -, history, -⟩ := allocate_some made
              refine acted_allocate queue made
                ⟨⟨history ▸ begun, ⟨list, kept _ _ there⟩, filled⟩, ?_⟩ (by rw [none_]; rfl)
              exact rooted_alloc (rooted cur (by simp [Task.lists])) cell rfl
      | _ => exact stays
  | setAttributeIfEqual cur empty =>
      have none_ : point f = 0 := by simp [point, here]
      obtain ⟨⟨batch, there⟩, made⟩ := known
      by_cases same : s.items = cur
      · obtain ⟨found, current, replays⟩ := queue
        obtain rfl : batch = found := by
          rw [same, there] at current
          exact Option.some.inj current
        simp only [takeAll, if_pos same, there]
        have held : ∀ cell ∈ [cur], cell ∈ f.roots := by
          rintro cell (_ | ⟨_, ⟨⟩⟩)
          exact rooted cur (by simp [Task.lists])
        exact acted_happen replays (by simp [Event.after]) made
          ⟨⟨later (.takeAll batch), batch, there, begun, last _⟩, held⟩ (by rw [none_]; rfl)
      · simp only [takeAll, if_neg same]
        exact acted_only_frame queue ⟨⟨begun, trivial⟩, by simp [Task.lists]⟩ (by rw [none_]; rfl)
  | anchor cur place =>
      obtain ⟨batch, list, after, there⟩ := known
      simp only [takeAll, list]
      exact acted_returned queue there after rfl (by simp [point, here])

/-- Whatever happens next, one thread steps and the others keep what they rely on. -/
theorem act_acted (queue : QueueSound s) (sound : FrameSound s f)
    (mine : ∀ cell ∈ f.roots, cell ∈ s.roots) (choice : Choice A V) :
    Acted s f (act choice s f).1 (act choice s f).2 := by
  have idle : ∀ task : Task A V, f.task = .idle → TaskSound s task → task.lists = [] →
      point { f with task } = 0 → Acted s f s { f with task } := by
    intro task here known none_ begins
    exact acted_only_frame queue ⟨known, by simp [none_]⟩ (begins.trans (by simp [point, here]))
  have stays : Acted s f s f := acted_only_frame queue sound rfl
  unfold act
  split
  · exact acted_collect queue sound mine _
  · next here => exact idle _ here ⟨le_rfl, trivial⟩ rfl rfl
  · next here => exact idle _ here ⟨le_rfl, trivial⟩ rfl rfl
  · next here => exact is_empty_acted queue here
  · next here =>
      exact acted_only_frame queue ⟨by rw [here]; trivial, by simp [here, Task.lists]⟩ rfl
  · next here => exact push_acted queue here sound _
  · next here => exact take_all_acted queue here sound _
  · exact stays

end Allocation

end Acts

/-! ## Runs -/

section Runs

variable [DecidableEq A] [DecidableEq V]

theorem frame_step_sound (choice : Choice A V) {s : Shared A V} {f : Frame A V}
    {others : Multiset (Frame A V)} (sound : Sound s (f ::ₘ others)) :
    Sound (frameStep choice s f).1 (↑(frameStep choice s f).2 + others) := by
  obtain ⟨queue, roots, frame, calls, points⟩ := sound
  have traced : s.roots = f.roots + others.bind Frame.roots := by
    rw [roots, Multiset.cons_bind]
  have acted := act_acted queue (frame f (Multiset.mem_cons_self _ _))
    (fun cell mem => traced ▸ Multiset.mem_add.mpr (.inl mem)) choice
  have one : (↑[(act choice s f).2] : Multiset (Frame A V)) + others =
      (act choice s f).2 ::ₘ others := by
    rw [Multiset.coe_singleton, Multiset.singleton_add]
  unfold frameStep
  rw [one]
  constructor
  · exact acted.queue
  · simp only [traced, Multiset.cons_bind, add_tsub_cancel_left]
    ac_rfl
  · intro other mem
    obtain rfl | mem := Multiset.mem_cons.mp mem
    · exact ⟨acted.frame.task, acted.frame.rooted⟩
    · have known := frame other (Multiset.mem_cons_of_mem mem)
      refine ⟨task_sound_later known.task (fun cell held => acted.kept cell ?_) acted.grown,
        known.rooted⟩
      rw [roots]
      exact Multiset.mem_bind.mpr ⟨other, Multiset.mem_cons_of_mem mem, known.rooted cell held⟩
  · intro call mem
    obtain old | new := acted.calls call mem
    · exact call_sound_later acted.grown (calls call old)
    · exact new
  · rw [Multiset.cons_bind] at points ⊢
    apply add_right_cancel (b := Multiset.range s.history.length)
    calc _ = (((act choice s f).1.calls.map Call.place : Multiset Nat) +
            point (act choice s f).2 + Multiset.range s.history.length) + others.bind point := by
          ac_rfl
      _ = ((s.calls.map Call.place : Multiset Nat) + (point f + others.bind point)) +
            Multiset.range (act choice s f).1.history.length := by
          rw [acted.points]
          ac_rfl
      _ = _ := by
          rw [points]
          exact add_comm _ _

theorem create_sound (cell : A) (threads : Nat) :
    Sound (create (V := V) cell threads).shared (create (V := V) cell threads).frames := by
  have idle : ∀ f ∈ (create (V := V) cell threads).frames, f = ⟨[], none, .idle⟩ := by
    intro f mem
    simp only [Machine.frames, create, Multiset.mem_coe, List.mem_flatten,
      List.mem_replicate] at mem
    obtain ⟨stack, ⟨-, rfl⟩, mem⟩ := mem
    exact List.mem_singleton.mp mem
  have nothing : ∀ {B : Type} (had : Frame A V → Multiset B), had ⟨[], none, .idle⟩ = 0 →
      (create (V := V) cell threads).frames.bind had = 0 := by
    intro B had none_
    rw [Multiset.bind_congr fun f mem => (idle f mem ▸ none_ : had f = 0), Multiset.bind_zero]
  constructor
  · exact ⟨[], by simp [create], rfl⟩
  · exact (nothing Frame.roots rfl).symm
  · intro f mem
    rw [idle f mem]
    exact ⟨trivial, by simp [Task.lists]⟩
  · intro call mem
    simp [create] at mem
  · rw [nothing point rfl]
    rfl

/-- The state after a schedule. -/
def reached (cell : A) (threads : Nat) (schedule : List (Nat × Choice A V)) :
    Machine (Shared A V) (Frame A V) :=
  (create cell threads).run frameStep schedule

/-- A linearizable mailbox, in one state of a run. -/
structure Linearizable (machine : Machine (Shared A V) (Frame A V)) : Prop where
  /-- The history replays on a sequential queue to the list behind `__items__`; the batches
  taken and then this list are all that was pushed, in the order of the pushes. -/
  queue : ∃ queue, machine.shared.cells machine.shared.items = some queue ∧
    replay machine.shared.history = some queue ∧
    pushed machine.shared.history = taken machine.shared.history ++ queue
  /-- Every call that returned took effect between its start and its return. -/
  calls : ∀ call ∈ machine.shared.calls, CallSound machine.shared.history call
  /-- Every effect is that of one call. -/
  points : (machine.shared.calls.map Call.place : Multiset Nat) + machine.frames.bind point =
    Multiset.range machine.shared.history.length
  /-- No thread walks a list that was collected. -/
  safe : ∀ f ∈ machine.frames, f.task ≠ .crashed

/-- Thread 1 has read the empty list in cell 0 when thread 0 pushes 5 and thread 2 takes it. Cell 0
is not collected while it is pinned, so thread 2's new list is not mistaken for it: thread 1 reads
again. -/
example :
    (reached (V := Nat) 0 3
      [(1, .push 7), (1, .go), (0, .push 5), (0, .go), (0, .alloc 1), (0, .go), (2, .collect 0),
        (2, .takeAll), (2, .go), (2, .go), (2, .alloc 0), (2, .alloc 2), (2, .go), (2, .go),
        (1, .alloc 3), (1, .go), (1, .go), (1, .alloc 4), (1, .go)]).shared.calls =
      [⟨.push 5, 0, 0, 1⟩, ⟨.takeAll [5], 1, 1, 2⟩, ⟨.push 7, 0, 2, 3⟩] := by
  decide +kernel

end Runs

end ProtoScala.Runtime.MailboxList
