import Mathlib.Data.Multiset.Bind
import Mathlib.Data.Multiset.Range
import ProtoScala.Runtime.ReadyStackPool

/-!
# The ready stack is linearizable

Every call takes effect at one moment between its start and its return, and the
effects in that order are those of a sequential stack. `Sound` joins the pool of
nodes with what each call in progress knows; a stale word is told from the
current one by the generation, as long as fewer than 2^32 updates lie between.
-/

namespace ProtoScala.Runtime.ReadyStackLinearization

open ProtoScala.Library.LinkedChain
open ProtoScala.Library.StackHistory
open ProtoScala.Library.Threads
open ProtoScala.Runtime.ReadyStack
open ProtoScala.Runtime.ReadyStackPool

set_option autoImplicit false

variable {V : Type}

/-- The node a call has taken out of both chains. -/
def owned : Frame V → Multiset Index
  | .push _ _ (.chunk idx) | .push _ _ (.install idx) | .push _ _ (.node idx)
  | .push _ _ (.write idx) | .push _ _ (.link idx _) => {idx}
  | .pop _ (.node idx _) | .pop _ (.read idx _) | .pop _ (.link idx _ _ _) => {idx}
  | _ => 0

/-- The place in the history of a call that has taken effect. -/
def point : Frame V → Multiset Nat
  | .push _ _ (.count place) => {place}
  | .pop _ (.node _ place) | .pop _ (.read _ place) | .pop _ (.link _ _ place _)
  | .pop _ (.count _ place) => {place}
  | _ => 0

/-- What a thread knows of a head that it read as `old` after `seen` updates. -/
structure Seen (s : Shared V) (w : Head) (old : Word) (seen : Nat) : Prop where
  order : seen ≤ s.updates w
  generation : (generationOf old).toNat = seen % 2 ^ 32
  current : s.updates w = seen → s.heads w = old

def UnlinkSound (s : Shared V) (w : Head) : UnlinkPc → Prop
  | .load => True
  | .node old seen => Seen s w old seen ∧ indexOf old ≠ kNil ∧ s.reachable (indexOf old) = true
  | .next old seen => Seen s w old seen ∧ indexOf old ≠ kNil
  | .cas old seen next =>
      Seen s w old seen ∧ indexOf old ≠ kNil ∧
        (s.updates w = seen → (s.node (indexOf old)).next = next)

/-- A link needs no more than the index in the word it compares with. -/
def LinkSound (s : Shared V) (idx : Index) : LinkPc → Prop
  | .node | .load | .store _ _ => True
  | .cas old _ => (s.node idx).next = indexOf old

/-- The event of a call, at its place in the history and no earlier than the
call. -/
def Happened (history : List (Event V)) (since place : Nat) (event : Event V) : Prop :=
  since ≤ place ∧ history[place]? = some event

def PushSound (s : Shared V) (value : V) (since : Nat) : PushPc → Prop
  | .acquire pc => UnlinkSound s .free pc
  | .fresh | .chunk _ | .install _ => True
  | .node idx | .write idx => s.reachable idx = true
  | .link idx pc =>
      s.reachable idx = true ∧ (s.node idx).value = value ∧ LinkSound s idx pc
  | .count place => Happened s.history since place (.push value)

def PopSound (s : Shared V) (since : Nat) : PopPc V → Prop
  | .unlink pc => UnlinkSound s .stack pc
  | .node idx place | .read idx place =>
      s.reachable idx = true ∧ Happened s.history since place (.pop (s.node idx).value)
  | .link idx value place pc =>
      s.reachable idx = true ∧ Happened s.history since place (.pop value) ∧
        LinkSound s idx pc
  | .count value place => Happened s.history since place (.pop value)

def FrameSound (s : Shared V) : Frame V → Prop
  | .client => True
  | .push value since pc => since ≤ s.history.length ∧ PushSound s value since pc
  | .pop since pc => since ≤ s.history.length ∧ PopSound s since pc
  | .crashed => False

/-- What an operation that returned is answered by in the history: a pop of an
empty stack returns the default value. -/
def Answers [Inhabited V] : Event V → Operation V → Prop
  | .push value, .push value' => value = value'
  | .pop value, .pop result => value = result
  | .empty, .pop result => result = default
  | _, _ => False

/-- A call that returned took effect between its start and its return. -/
def CallSound [Inhabited V] (history : List (Event V)) (call : Call V) : Prop :=
  call.point < call.upTo ∧ call.upTo ≤ history.length ∧
    ∃ event, Happened history call.since call.point event ∧ Answers event call.operation

/-- The values on the stack, from the top. -/
def contents (s : Shared V) (chain : Head → List Index) : List V :=
  (chain .stack).map fun i => (s.node i).value

structure Sound [Inhabited V] (s : Shared V) (frames : Multiset (Frame V)) : Prop where
  pool : ∃ chain, Pool s chain (frames.bind owned) ∧ Replays s.history (contents s chain)
  frame : ∀ frame ∈ frames, FrameSound s frame
  calls : ∀ call ∈ s.calls, CallSound s.history call
  points : (s.calls.map Call.point : Multiset Nat) + frames.bind point =
    Multiset.range s.history.length

/-- What a step leaves to the other threads: heads change only with their
updates, and the nodes that are not `touched` stay as they were. -/
structure Beyond (s s' : Shared V) (touched : Multiset Index) : Prop where
  updates : ∀ w, s.updates w ≤ s'.updates w
  heads : ∀ w, s'.updates w = s.updates w → s'.heads w = s.heads w
  reachable : ∀ i, s.reachable i = true → s'.reachable i = true
  history : s.history <+: s'.history
  nodes : ∀ i, i ∉ touched → s'.node i = s.node i

theorem Beyond.refl (s : Shared V) (touched : Multiset Index) : Beyond s s touched where
  updates := fun _ => Nat.le_refl _
  heads := fun _ _ => rfl
  reachable := fun _ before => before
  history := List.prefix_refl _
  nodes := fun _ _ => rfl

section Stability

variable {s s' : Shared V} {touched : Multiset Index}

theorem seen_beyond (beyond : Beyond s s' touched) {w : Head} {old : Word} {seen : Nat}
    (before : Seen s w old seen) : Seen s' w old seen where
  order := le_trans before.order (beyond.updates w)
  generation := before.generation
  current := by
    intro same
    have still : s'.updates w = s.updates w := by
      have order := before.order
      have later := beyond.updates w
      omega
    rw [beyond.heads w still]
    apply before.current
    omega

theorem unlink_sound_beyond (beyond : Beyond s s' touched) {w : Head}
    (apart : indexOf (s.heads w) ≠ kNil → indexOf (s.heads w) ∉ touched)
    {pc : UnlinkPc} (before : UnlinkSound s w pc) : UnlinkSound s' w pc := by
  cases pc with
  | load => trivial
  | node old seen =>
      exact ⟨seen_beyond beyond before.1, before.2.1, beyond.reachable _ before.2.2⟩
  | next old seen => exact ⟨seen_beyond beyond before.1, before.2⟩
  | cas old seen next =>
      obtain ⟨known, real, link⟩ := before
      refine ⟨seen_beyond beyond known, real, ?_⟩
      intro same
      have still : s.updates w = seen := by
        have order := known.order
        have later := beyond.updates w
        omega
      have top := known.current still
      rw [top] at apart
      rw [beyond.nodes _ (apart real)]
      exact link still

theorem link_sound_beyond (beyond : Beyond s s' touched) {idx : Index}
    (apart : idx ∉ touched) {pc : LinkPc} (before : LinkSound s idx pc) :
    LinkSound s' idx pc := by
  cases pc with
  | node => trivial
  | load => trivial
  | store old seen => trivial
  | cas old seen =>
      simp only [LinkSound]
      rw [beyond.nodes idx apart]
      exact before

theorem happened_inside {history : List (Event V)} {since place : Nat} {event : Event V}
    (happened : Happened history since place event) : place < history.length := by
  by_contra outside
  have nothing := happened.2
  rw [List.getElem?_eq_none (by omega)] at nothing
  contradiction

theorem happened_now (history : List (Event V)) {since : Nat} (began : since ≤ history.length)
    (event : Event V) : Happened (history ++ [event]) since history.length event :=
  ⟨began, List.getElem?_concat_length⟩

theorem happened_beyond {history history' : List (Event V)} (prefixed : history <+: history')
    {since place : Nat} {event : Event V} (before : Happened history since place event) :
    Happened history' since place event := by
  obtain ⟨later, rfl⟩ := prefixed
  refine ⟨before.1, ?_⟩
  rw [List.getElem?_append_left (happened_inside before)]
  exact before.2

theorem push_sound_beyond (beyond : Beyond s s' touched)
    (heads : ∀ w, indexOf (s.heads w) ≠ kNil → indexOf (s.heads w) ∉ touched)
    {value : V} {since : Nat} {pc : PushPc}
    (apart : ∀ i ∈ owned (.push value since pc), i ∉ touched)
    (before : PushSound s value since pc) : PushSound s' value since pc := by
  cases pc with
  | acquire pc => exact unlink_sound_beyond beyond (heads .free) before
  | fresh => trivial
  | chunk idx => trivial
  | install idx => trivial
  | node idx => exact beyond.reachable idx before
  | write idx => exact beyond.reachable idx before
  | link idx pc =>
      have mine := apart idx (Multiset.mem_singleton_self idx)
      refine ⟨beyond.reachable idx before.1, ?_, link_sound_beyond beyond mine before.2.2⟩
      rw [beyond.nodes idx mine]
      exact before.2.1
  | count place => exact happened_beyond beyond.history before

theorem pop_sound_beyond (beyond : Beyond s s' touched)
    (heads : ∀ w, indexOf (s.heads w) ≠ kNil → indexOf (s.heads w) ∉ touched)
    {since : Nat} {pc : PopPc V} (apart : ∀ i ∈ owned (.pop since pc), i ∉ touched)
    (before : PopSound s since pc) : PopSound s' since pc := by
  cases pc with
  | unlink pc => exact unlink_sound_beyond beyond (heads .stack) before
  | node idx place =>
      refine ⟨beyond.reachable idx before.1, ?_⟩
      rw [beyond.nodes idx (apart idx (Multiset.mem_singleton_self idx))]
      exact happened_beyond beyond.history before.2
  | read idx place =>
      refine ⟨beyond.reachable idx before.1, ?_⟩
      rw [beyond.nodes idx (apart idx (Multiset.mem_singleton_self idx))]
      exact happened_beyond beyond.history before.2
  | link idx value place pc =>
      exact ⟨beyond.reachable idx before.1, happened_beyond beyond.history before.2.1,
        link_sound_beyond beyond (apart idx (Multiset.mem_singleton_self idx)) before.2.2⟩
  | count value place => exact happened_beyond beyond.history before

/-- What a call knows stays true while other calls take their steps. -/
theorem frame_sound_beyond (beyond : Beyond s s' touched)
    (heads : ∀ w, indexOf (s.heads w) ≠ kNil → indexOf (s.heads w) ∉ touched)
    {frame : Frame V} (apart : ∀ i ∈ owned frame, i ∉ touched)
    (before : FrameSound s frame) : FrameSound s' frame := by
  have grown := beyond.history.length_le
  cases frame with
  | client => trivial
  | push value since pc =>
      exact ⟨le_trans before.1 grown, push_sound_beyond beyond heads apart before.2⟩
  | pop since pc =>
      exact ⟨le_trans before.1 grown, pop_sound_beyond beyond heads apart before.2⟩
  | crashed => exact before.elim

theorem call_sound_beyond [Inhabited V] (beyond : Beyond s s' touched) {call : Call V}
    (before : CallSound s.history call) : CallSound s'.history call := by
  obtain ⟨inside, returned, event, happened, answers⟩ := before
  exact ⟨inside, le_trans returned beyond.history.length_le, event,
    happened_beyond beyond.history happened, answers⟩

end Stability

section Beyonds

variable (s : Shared V) {touched : Multiset Index}

theorem beyond_exchange (w : Head) (desired : Word) : Beyond s (s.exchange w desired) touched where
  updates := by
    intro w'
    by_cases same : w' = w
    · rw [same, updates_exchange_self]
      omega
    · rw [updates_exchange_of_ne s same]
  heads := by
    intro w' still
    by_cases same : w' = w
    · rw [same, updates_exchange_self] at still
      omega
    · exact heads_exchange_of_ne s same desired
  reachable := fun _ before => before
  history := List.prefix_refl _
  nodes := fun _ _ => rfl

theorem beyond_setNode {idx : Index} (mine : idx ∈ touched) (new : Node V) :
    Beyond s (s.setNode idx new) touched where
  updates := fun _ => Nat.le_refl _
  heads := fun _ _ => rfl
  reachable := fun _ before => before
  history := List.prefix_refl _
  nodes := by
    intro i other
    apply node_setNode_of_ne
    rintro rfl
    exact other mine

theorem beyond_install (k : Nat) :
    Beyond s { s with installed := Function.update s.installed k true } touched where
  updates := fun _ => Nat.le_refl _
  heads := fun _ _ => rfl
  reachable := fun _ => reachable_install s k
  history := List.prefix_refl _
  nodes := fun _ _ => rfl

theorem beyond_fresh :
    Beyond s { s with nextFresh := s.nextFresh + 1, drawn := s.drawn + 1 } touched where
  updates := fun _ => Nat.le_refl _
  heads := fun _ _ => rfl
  reachable := fun _ before => before
  history := List.prefix_refl _
  nodes := fun _ _ => rfl

end Beyonds

theorem Beyond.record {s s' : Shared V} {touched : Multiset Index}
    (beyond : Beyond s s' touched) (event : Event V) : Beyond s (s'.record event) touched where
  updates := beyond.updates
  heads := beyond.heads
  reachable := beyond.reachable
  history := beyond.history.trans (List.prefix_append _ _)
  nodes := beyond.nodes

theorem Beyond.returned {s s' : Shared V} {touched : Multiset Index}
    (beyond : Beyond s s' touched) (size : BitVec 64) (operation : Operation V)
    (since place : Nat) :
    Beyond s ({ s' with size := size }.returned operation since place) touched where
  updates := beyond.updates
  heads := beyond.heads
  reachable := beyond.reachable
  history := beyond.history
  nodes := beyond.nodes

section Specs

variable {s : Shared V} {chain : Head → List Index} {others : Multiset Index}

theorem seen_now (pool : Pool s chain others) (w : Head) :
    Seen s w (s.heads w) (s.updates w) where
  order := Nat.le_refl _
  generation := pool.generation w
  current := fun _ => rfl

/-- A compare-exchange that finds its word back was not overtaken. -/
theorem not_overtaken (pool : Pool s chain others) {w : Head} {old : Word} {seen : Nat}
    (known : Seen s w old seen) (few : s.updates w < seen + 2 ^ 32) (found : s.heads w = old) :
    s.updates w = seen := by
  apply same_updates known.order few
  rw [← pool.generation w, found, known.generation]

theorem seen_head (pool : Pool s chain others) (w : Head) :
    (seenHead s w = .empty ∧ chain w = []) ∨
      ∃ pc, seenHead s w = .again pc ∧ UnlinkSound s w pc := by
  unfold seenHead
  split
  · next none =>
      have linked := pool.linked w
      rw [none] at linked
      exact Or.inl ⟨rfl, linked_nil linked⟩
  · next real =>
      obtain ⟨rest, top, -⟩ := linked_uncons (pool.linked w) real
      have found : s.reachable (indexOf (s.heads w)) = true := by
        apply pool.reachable w
        rw [top]
        exact List.mem_cons_self
      exact Or.inr ⟨_, rfl, seen_now pool w, real, found⟩

/-- A step of `unlinkFront` goes on, finds the list empty or takes its first
node. -/
theorem unlink_front_spec (choice : Choice V) (pool : Pool s chain others) {w : Head}
    {pc : UnlinkPc} (known : UnlinkSound s w pc)
    (few : ∀ old seen next, pc = .cas old seen next → s.updates w < seen + 2 ^ 32) :
    (∃ pc', unlinkFront choice s w pc = (s, .again pc') ∧ UnlinkSound s w pc') ∨
      (unlinkFront choice s w pc = (s, .empty) ∧ chain w = []) ∨
      ∃ idx rest, chain w = idx :: rest ∧
        unlinkFront choice s w pc =
          (s.exchange w (pack (generationOf (s.heads w) + 1) (s.node idx).next), .taken idx) := by
  have reread : ∀ taken : Prop,
      (∃ pc', (s, seenHead s w) = (s, .again pc') ∧ UnlinkSound s w pc') ∨
        ((s, seenHead s w) = (s, .empty) ∧ chain w = []) ∨ taken := by
    intro taken
    rcases seen_head pool w with ⟨empty, none⟩ | ⟨pc', again, sound⟩
    · exact Or.inr (Or.inl ⟨by rw [empty], none⟩)
    · exact Or.inl ⟨pc', by rw [again], sound⟩
  cases pc with
  | load => exact reread _
  | node old seen =>
      apply Or.inl
      simp only [unlinkFront, known.2.2, if_true]
      exact ⟨_, rfl, known.1, known.2.1⟩
  | next old seen => exact Or.inl ⟨_, rfl, known.1, known.2, fun _ => rfl⟩
  | cas old seen next =>
      obtain ⟨seenOld, real, link⟩ := known
      have exchanged : s.heads w = old → ∃ idx rest, chain w = idx :: rest ∧
          (s.exchange w (pack (generationOf old + 1) next), Unlinking.taken (indexOf old)) =
            (s.exchange w (pack (generationOf (s.heads w) + 1) (s.node idx).next),
              .taken idx) := by
        intro found
        have still := not_overtaken pool seenOld (few old seen next rfl) found
        obtain ⟨rest, top, -⟩ := linked_uncons (pool.linked w) (by rw [found]; exact real)
        refine ⟨indexOf old, rest, ?_, ?_⟩
        · rw [top, found]
        · rw [found, link still]
      simp only [unlinkFront]
      split
      · exact reread _
      · split
        · next found => exact Or.inr (Or.inr (exchanged found))
        · exact reread _

/-- A step of `linkFront` goes on, writes the link of its node or puts the node
in front. -/
theorem link_front_spec (choice : Choice V) (s : Shared V) (w : Head) {idx : Index}
    {pc : LinkPc} (found : s.reachable idx = true) (known : LinkSound s idx pc) :
    (∃ pc', linkFront choice s w idx pc = (s, .again pc') ∧ LinkSound s idx pc') ∨
      (∃ next pc', linkFront choice s w idx pc =
          (s.setNode idx { s.node idx with next := next }, .again pc') ∧
        LinkSound (s.setNode idx { s.node idx with next := next }) idx pc') ∨
      ((s.node idx).next = indexOf (s.heads w) ∧
        linkFront choice s w idx pc =
          (s.exchange w (pack (generationOf (s.heads w) + 1) idx), .done)) := by
  have failed : ∃ pc', (s, Linking.again (.store (s.heads w) (s.updates w))) = (s, .again pc') ∧
      LinkSound s idx pc' := ⟨_, rfl, trivial⟩
  cases pc with
  | node =>
      apply Or.inl
      simp only [linkFront, found, if_true]
      exact ⟨_, rfl, trivial⟩
  | load => exact Or.inl failed
  | store old seen =>
      apply Or.inr
      apply Or.inl
      refine ⟨indexOf old, _, rfl, ?_⟩
      simp only [LinkSound, node_setNode_self]
  | cas old seen =>
      simp only [linkFront]
      split
      · exact Or.inl failed
      · split
        · next same =>
            apply Or.inr
            apply Or.inr
            rw [same]
            exact ⟨known, rfl⟩
        · exact Or.inl failed

end Specs

section Contents

variable {s : Shared V} {chain : Head → List Index} {others : Multiset Index}

theorem contents_setNode (pool : Pool s chain others) {idx : Index} (mine : idx ∈ others)
    (new : Node V) : contents (s.setNode idx new) chain = contents s chain := by
  apply List.map_congr_left
  intro i member
  rw [node_setNode_of_ne]
  rintro rfl
  exact not_chained_of_owned pool mine .stack member

theorem contents_update_stack (s : Shared V) (chain : Head → List Index) (list : List Index) :
    contents s (Function.update chain .stack list) = list.map fun i => (s.node i).value := rfl

end Contents

section Steps

variable [Inhabited V] {s s' : Shared V} {frame : Frame V} {others : Multiset (Frame V)}

theorem pool_of_sound (sound : Sound s (frame ::ₘ others)) :
    ∃ chain, Pool s chain (owned frame + others.bind owned) ∧
      Replays s.history (contents s chain) := by
  have pool := sound.pool
  rwa [Multiset.cons_bind] at pool

/-- One step: what it does to the pool and the history, and what it leaves, make
the next state sound. -/
theorem sound_step {left : List (Frame V)} (sound : Sound s (frame ::ₘ others))
    (beyond : Beyond s s' (owned frame))
    (pool : ∃ chain, Pool s' chain ((left : Multiset (Frame V)).bind owned + others.bind owned) ∧
      Replays s'.history (contents s' chain))
    (leftSound : ∀ frame ∈ left, FrameSound s' frame)
    (calls : ∀ call ∈ s'.calls, call ∈ s.calls ∨ CallSound s'.history call)
    (points : (s'.calls.map Call.point : Multiset Nat) + (left : Multiset (Frame V)).bind point +
        Multiset.range s.history.length =
      (s.calls.map Call.point : Multiset Nat) + point frame +
        Multiset.range s'.history.length) :
    Sound s' (↑left + others) := by
  obtain ⟨chain, before, -⟩ := pool_of_sound sound
  have heads : ∀ w, indexOf (s.heads w) ≠ kNil → indexOf (s.heads w) ∉ owned frame := by
    intro w real mine
    obtain ⟨rest, top, -⟩ := linked_uncons (before.linked w) real
    apply not_chained_of_owned before (Multiset.mem_add.mpr (Or.inl mine)) w
    rw [top]
    exact List.mem_cons_self
  constructor
  · rw [Multiset.add_bind]
    exact pool
  · intro other member
    rcases Multiset.mem_add.mp member with new | old
    · exact leftSound other new
    · apply frame_sound_beyond beyond heads
      · intro i theirs mine
        have disjoint :=
          (Multiset.nodup_add.mp (Multiset.nodup_add.mp before.apart).2.1).2.2
        exact Multiset.disjoint_left.mp disjoint mine (Multiset.mem_bind.mpr ⟨other, old, theirs⟩)
      · exact sound.frame other (Multiset.mem_cons_of_mem old)
  · intro call member
    rcases calls call member with old | new
    · exact call_sound_beyond beyond (sound.calls call old)
    · exact new
  · have whole := sound.points
    rw [Multiset.cons_bind, ← add_assoc] at whole
    rw [Multiset.add_bind, ← add_assoc]
    apply add_right_cancel (b := Multiset.range s.history.length)
    rw [add_right_comm, points, add_right_comm, whole, add_comm]

/-- A step of a call that goes on. -/
theorem sound_next {next : Frame V} {chain : Head → List Index}
    (sound : Sound s (frame ::ₘ others)) (beyond : Beyond s s' (owned frame))
    (pool : Pool s' chain (owned next + others.bind owned))
    (replays : Replays s'.history (contents s' chain)) (nextSound : FrameSound s' next)
    (calls : s'.calls = s.calls)
    (points : point next + Multiset.range s.history.length =
      point frame + Multiset.range s'.history.length) : Sound s' (↑[next] + others) := by
  apply sound_step sound beyond
  · rw [Multiset.coe_singleton, Multiset.singleton_bind]
    exact ⟨chain, pool, replays⟩
  · intro other member
    rw [List.mem_singleton.mp member]
    exact nextSound
  · rw [calls]
    exact fun call member => Or.inl member
  · rw [calls, Multiset.coe_singleton, Multiset.singleton_bind, add_assoc, points, add_assoc]

/-- A step that changes nothing shared. -/
theorem sound_quiet {next : Frame V} (sound : Sound s (frame ::ₘ others))
    (sameNode : owned next = owned frame) (samePoint : point next = point frame)
    (nextSound : FrameSound s next) : Sound s (↑[next] + others) := by
  obtain ⟨chain, pool, replays⟩ := pool_of_sound sound
  rw [← sameNode] at pool
  apply sound_next sound (Beyond.refl s _) pool replays nextSound rfl
  rw [samePoint]

/-- The owner of a node writes it. -/
theorem sound_setNode {idx : Index} {next : Frame V} (sound : Sound s (frame ::ₘ others))
    (mine : owned frame = {idx}) (new : Node V) (sameNode : owned next = owned frame)
    (samePoint : point next = point frame) (nextSound : FrameSound (s.setNode idx new) next) :
    Sound (s.setNode idx new) (↑[next] + others) := by
  have inside : idx ∈ owned frame := by
    rw [mine]
    exact Multiset.mem_singleton_self idx
  obtain ⟨chain, pool, replays⟩ := pool_of_sound sound
  have within : idx ∈ owned frame + others.bind owned := Multiset.mem_add.mpr (Or.inl inside)
  have written := pool_setNode pool within new
  rw [← sameNode] at written
  apply sound_next sound (beyond_setNode s inside new) written _ nextSound rfl
  · rw [samePoint]
    rfl
  · rw [contents_setNode pool within]
    exact replays

/-- A step with which a call returns. -/
theorem sound_returned {call : Call V} {chain : Head → List Index}
    (sound : Sound s (frame ::ₘ others)) (beyond : Beyond s s' (owned frame))
    (pool : Pool s' chain (others.bind owned)) (replays : Replays s'.history (contents s' chain))
    (calls : s'.calls = s.calls ++ [call]) (callSound : CallSound s'.history call)
    (points : {call.point} + Multiset.range s.history.length =
      point frame + Multiset.range s'.history.length) :
    Sound s' ((([] : List (Frame V)) : Multiset (Frame V)) + others) := by
  apply sound_step sound beyond
  · rw [Multiset.coe_nil, Multiset.zero_bind, zero_add]
    exact ⟨chain, pool, replays⟩
  · exact fun _ none => absurd none List.not_mem_nil
  · rw [calls]
    intro other member
    rcases List.mem_append.mp member with old | new
    · exact Or.inl old
    · rw [List.mem_singleton.mp new]
      exact Or.inr callSound
  · rw [calls, List.map_append, ← Multiset.coe_add, Multiset.coe_nil, Multiset.zero_bind, add_zero,
      add_assoc, add_assoc, List.map_singleton, Multiset.coe_singleton, points]

/-- A call returns some time after its event. -/
theorem sound_count {operation : Operation V} {since place : Nat} {event : Event V}
    (sound : Sound s (frame ::ₘ others)) (size : BitVec 64) (free : owned frame = 0)
    (placed : point frame = {place}) (happened : Happened s.history since place event)
    (answers : Answers event operation) :
    Sound ({ s with size := size }.returned operation since place)
      ((([] : List (Frame V)) : Multiset (Frame V)) + others) := by
  obtain ⟨chain, pool, replays⟩ := pool_of_sound sound
  rw [free, zero_add] at pool
  apply sound_returned sound ((Beyond.refl s _).returned size operation since place)
    (pool_returned pool size operation since place) replays rfl
  · exact ⟨happened_inside happened, Nat.le_refl _, event, happened, answers⟩
  · rw [placed]
    rfl

/-- A push takes effect with its compare-exchange of the head. -/
theorem push_takes_effect {value : V} {since : Nat} {idx : Index} {pc : LinkPc}
    (sound : Sound s (.push value since (.link idx pc) ::ₘ others))
    (onTop : (s.node idx).next = indexOf (s.heads .stack)) :
    Sound ((s.exchange .stack (pack (generationOf (s.heads .stack) + 1) idx)).record (.push value))
      (↑([.push value since (.count s.history.length)] : List (Frame V)) + others) := by
  obtain ⟨began, found, written, -⟩ := sound.frame _ (Multiset.mem_cons_self _ _)
  obtain ⟨chain, pool, replays⟩ := pool_of_sound sound
  have linked := pool_record (pool_link pool found onTop) (.push value)
  rw [← zero_add (others.bind owned)] at linked
  have pushed : Replays (s.history ++ [Event.push value])
      (contents s (Function.update chain .stack (idx :: chain .stack))) := by
    rw [contents_update_stack, List.map_cons, written]
    exact Replays.push value replays
  apply sound_next sound ((beyond_exchange s _ _).record _) linked pushed _ rfl
  · simp [Shared.record, Shared.exchange, point, Multiset.range_succ]
  · constructor
    · simp only [Shared.record, Shared.exchange, List.length_append]
      omega
    · exact happened_now s.history began _

/-- A pop takes effect with its compare-exchange of the head. -/
theorem pop_takes_effect {since : Nat} {pc : UnlinkPc} {chain : Head → List Index} {idx : Index}
    {rest : List Index} (sound : Sound s (.pop since (.unlink pc) ::ₘ others))
    (pool : Pool s chain (others.bind owned)) (replays : Replays s.history (contents s chain))
    (top : chain .stack = idx :: rest) :
    Sound ((s.exchange .stack (pack (generationOf (s.heads .stack) + 1) (s.node idx).next)).record
        (.pop (s.node idx).value))
      (↑([.pop since (.node idx s.history.length)] : List (Frame V)) + others) := by
  have began := (sound.frame _ (Multiset.mem_cons_self _ _)).1
  have here : idx ∈ chain .stack := by
    rw [top]
    exact List.mem_cons_self
  have taken := pool_record (pool_unlink pool top) (.pop (s.node idx).value)
  have popped : Replays (s.history ++ [Event.pop (s.node idx).value])
      (contents s (Function.update chain .stack rest)) := by
    apply Replays.pop
    rw [contents_update_stack]
    simpa only [contents, top, List.map_cons] using replays
  apply sound_next sound ((beyond_exchange s _ _).record _) taken popped _ rfl
  · simp [Shared.record, Shared.exchange, point, Multiset.range_succ]
  · refine ⟨?_, pool.reachable .stack idx here, happened_now s.history began _⟩
    simp only [Shared.record, Shared.exchange, List.length_append]
    omega

/-- A pop of an empty stack takes effect with its read of the head, and returns. -/
theorem pop_finds_nothing {since : Nat} {pc : UnlinkPc} {chain : Head → List Index}
    (sound : Sound s (.pop since (.unlink pc) ::ₘ others))
    (pool : Pool s chain (others.bind owned)) (replays : Replays s.history (contents s chain))
    (none : chain .stack = []) :
    Sound ((s.record .empty).returned (.pop default) since s.history.length)
      ((([] : List (Frame V)) : Multiset (Frame V)) + others) := by
  have began := (sound.frame _ (Multiset.mem_cons_self _ _)).1
  have nothing : contents s chain = [] := by
    simp only [contents, none, List.map_nil]
  rw [nothing] at replays
  have found : Replays (s.history ++ [Event.empty]) (contents s chain) := by
    rw [nothing]
    exact Replays.empty replays
  have answered : CallSound (s.history ++ [Event.empty])
      ⟨.pop default, since, s.history.length, (s.history ++ [Event.empty]).length⟩ :=
    ⟨by simp, Nat.le_refl _, .empty, happened_now s.history began _, rfl⟩
  apply sound_returned sound
    (((Beyond.refl s _).record .empty).returned s.size (.pop default) since s.history.length)
    (pool_returned (pool_record pool .empty) s.size (.pop default) since s.history.length)
    found rfl answered
  simp [Shared.returned, Shared.record, point, Multiset.range_succ]

theorem push_step_sound (choice : Choice V) {value : V} {since : Nat} {pc : PushPc}
    (sound : Sound s (.push value since pc ::ₘ others))
    (within : withinCounters s (.push value since pc) = true) :
    Sound (pushStep choice s value since pc).1
      (↑(pushStep choice s value since pc).2 + others) := by
  simp only [withinCounters, Bool.and_eq_true] at within
  obtain ⟨few, notWrapped⟩ := within
  obtain ⟨began, known⟩ := sound.frame _ (Multiset.mem_cons_self _ _)
  obtain ⟨chain, pool, replays⟩ := pool_of_sound sound
  cases pc with
  | acquire pc =>
      have few' : ∀ old seen next, pc = .cas old seen next → s.updates .free < seen + 2 ^ 32 := by
        rintro old seen next rfl
        simpa [fewUpdates, exchanging] using few
      rcases unlink_front_spec choice pool known few' with
        ⟨pc', step, sound'⟩ | ⟨step, -⟩ | ⟨idx, rest, top, step⟩
      · simp only [pushStep, step]
        exact sound_quiet sound rfl rfl ⟨began, sound'⟩
      · simp only [pushStep, step]
        exact sound_quiet sound rfl rfl ⟨began, trivial⟩
      · have found : s.reachable idx = true := by
          apply pool.reachable .free
          rw [top]
          exact List.mem_cons_self
        simp only [pushStep, step]
        simp only [owned, zero_add] at pool
        exact sound_next sound (beyond_exchange s _ _) (pool_unlink pool top) replays
          ⟨began, found⟩ rfl rfl
  | fresh =>
      have small : s.drawn < 2 ^ 64 := by
        simpa [freshNotWrapped] using notWrapped
      simp only [owned, zero_add] at pool
      simp only [pushStep]
      split
      · apply sound_step sound (beyond_fresh s)
        · rw [Multiset.coe_nil, Multiset.zero_bind, zero_add]
          exact ⟨chain, pool_exhausted pool, replays⟩
        · exact fun _ none => absurd none List.not_mem_nil
        · exact fun call member => Or.inl member
        · rfl
      · next left =>
          exact sound_next sound (beyond_fresh s) (pool_fresh pool small (by omega)) replays
            ⟨began, trivial⟩ rfl rfl
  | chunk idx =>
      have small := chunk_lt_of_capacity (pool.handedOut idx (by simp [owned])).2
      simp only [pushStep, Nat.not_le.mpr small, if_false]
      split
      · next installed =>
          have found : s.reachable idx = true := by
            simp [Shared.reachable, small, installed]
          exact sound_quiet sound rfl rfl ⟨began, found⟩
      · exact sound_quiet sound rfl rfl ⟨began, trivial⟩
  | install idx =>
      have small := chunk_lt_of_capacity (pool.handedOut idx (by simp [owned])).2
      have found : { s with installed := Function.update s.installed (chunkOf idx) true }.reachable
          idx = true := by
        simp [Shared.reachable, small]
      exact sound_next sound (beyond_install s _) (pool_install pool _) replays ⟨began, found⟩ rfl
        rfl
  | node idx =>
      have found : s.reachable idx = true := known
      simp only [pushStep, found, if_true]
      exact sound_quiet sound rfl rfl ⟨began, found⟩
  | write idx =>
      have written : ((s.setNode idx { s.node idx with value := value }).node idx).value =
          value := by
        rw [node_setNode_self]
      exact sound_setNode sound rfl _ rfl rfl ⟨began, known, written, trivial⟩
  | link idx pc =>
      obtain ⟨found, written, linking⟩ := known
      rcases link_front_spec choice s .stack found linking with
        ⟨pc', step, sound'⟩ | ⟨next, pc', step, sound'⟩ | ⟨onTop, step⟩
      · simp only [pushStep, step]
        exact sound_quiet sound rfl rfl ⟨began, found, written, sound'⟩
      · simp only [pushStep, step]
        have kept : ((s.setNode idx { s.node idx with next := next }).node idx).value =
            value := by
          rw [node_setNode_self]
          exact written
        exact sound_setNode sound rfl _ rfl rfl ⟨began, found, kept, sound'⟩
      · simp only [pushStep, step]
        exact push_takes_effect sound onTop
  | count place => exact sound_count sound _ rfl rfl known rfl

theorem pop_step_sound (choice : Choice V) {since : Nat} {pc : PopPc V}
    (sound : Sound s (.pop since pc ::ₘ others))
    (within : withinCounters s (.pop since pc) = true) :
    Sound (popStep choice s since pc).1 (↑(popStep choice s since pc).2 + others) := by
  simp only [withinCounters, Bool.and_eq_true] at within
  have few := within.1
  obtain ⟨began, known⟩ := sound.frame _ (Multiset.mem_cons_self _ _)
  obtain ⟨chain, pool, replays⟩ := pool_of_sound sound
  cases pc with
  | unlink pc =>
      have few' : ∀ old seen next, pc = .cas old seen next → s.updates .stack < seen + 2 ^ 32 := by
        rintro old seen next rfl
        simpa [fewUpdates, exchanging] using few
      simp only [owned, zero_add] at pool
      rcases unlink_front_spec choice pool known few' with
        ⟨pc', step, sound'⟩ | ⟨step, none⟩ | ⟨idx, rest, top, step⟩
      · simp only [popStep, step]
        exact sound_quiet sound rfl rfl ⟨began, sound'⟩
      · simp only [popStep, step]
        exact pop_finds_nothing sound pool replays none
      · simp only [popStep, step]
        exact pop_takes_effect sound pool replays top
  | node idx place =>
      simp only [popStep, known.1, if_true]
      exact sound_quiet sound rfl rfl ⟨began, known⟩
  | read idx place => exact sound_quiet sound rfl rfl ⟨began, known.1, known.2, trivial⟩
  | link idx value place pc =>
      obtain ⟨found, happened, linking⟩ := known
      rcases link_front_spec choice s .free found linking with
        ⟨pc', step, sound'⟩ | ⟨next, pc', step, sound'⟩ | ⟨onTop, step⟩
      · simp only [popStep, step]
        exact sound_quiet sound rfl rfl ⟨began, found, happened, sound'⟩
      · simp only [popStep, step]
        exact sound_setNode sound rfl _ rfl rfl ⟨began, found, happened, sound'⟩
      · simp only [popStep, step]
        have linked := pool_link pool found onTop
        rw [← zero_add (others.bind owned)] at linked
        exact sound_next sound (beyond_exchange s _ _) linked replays ⟨began, happened⟩ rfl rfl
  | count value place => exact sound_count sound _ rfl rfl known rfl

theorem client_step_sound (choice : Choice V) (sound : Sound s (.client ::ₘ others)) :
    Sound (frameStep choice s .client).1 (↑(frameStep choice s .client).2 + others) := by
  have called : ∀ call : Frame V, owned call = 0 → point call = 0 → FrameSound s call →
      Sound s (↑[call, .client] + others) := by
    intro call noNode noPoint callSound
    apply sound_step sound (Beyond.refl s _)
    · rw [← Multiset.cons_coe, Multiset.cons_bind, noNode, zero_add, Multiset.coe_singleton,
        Multiset.singleton_bind]
      exact pool_of_sound sound
    · intro frame member
      rcases List.mem_cons.mp member with new | old
      · rw [new]
        exact callSound
      · rw [List.mem_singleton.mp old]
        trivial
    · exact fun call member => Or.inl member
    · rw [← Multiset.cons_coe, Multiset.cons_bind, noPoint, zero_add, Multiset.coe_singleton,
        Multiset.singleton_bind]
  cases choice with
  | push value => exact called _ rfl rfl ⟨Nat.le_refl _, trivial⟩
  | pop => exact called _ rfl rfl ⟨Nat.le_refl _, trivial⟩
  | go => exact sound_quiet sound rfl rfl trivial
  | spurious => exact sound_quiet sound rfl rfl trivial

theorem frame_step_sound (choice : Choice V) (sound : Sound s (frame ::ₘ others))
    (within : withinCounters s frame = true) :
    Sound (frameStep choice s frame).1 (↑(frameStep choice s frame).2 + others) := by
  cases frame with
  | client => exact client_step_sound choice sound
  | push value since pc => exact push_step_sound choice sound within
  | pop since pc => exact pop_step_sound choice sound within
  | crashed => exact (sound.frame _ (Multiset.mem_cons_self _ _)).elim

end Steps

section Runs

variable [Inhabited V]

theorem initial_frames {threads : Nat} {frame : Frame V}
    (member : frame ∈ (initial V threads).frames) : frame = .client := by
  simp only [Machine.frames, initial, Multiset.mem_coe, List.mem_flatten,
    List.mem_replicate] at member
  obtain ⟨stack, ⟨-, rfl⟩, inside⟩ := member
  exact List.mem_singleton.mp inside

theorem initial_bind {Item : Type} {threads : Nat} {items : Frame V → Multiset Item}
    (none : items .client = 0) : (initial V threads).frames.bind items = 0 := by
  apply Multiset.eq_zero_of_forall_notMem
  intro item member
  obtain ⟨frame, inside, here⟩ := Multiset.mem_bind.mp member
  rw [initial_frames inside, none] at here
  exact Multiset.notMem_zero item here

theorem initial_sound (threads : Nat) :
    Sound (initial V threads).shared (initial V threads).frames where
  pool := by
    rw [initial_bind rfl]
    have nothing : chained (fun _ => []) + (0 : Multiset Index) = 0 := rfl
    refine ⟨fun _ => [], ⟨?_, ?_, ?_, rfl, ?_, ?_⟩, Replays.start⟩
    · intro w
      change indexOf (kNil.setWidth 64) = kNil
      decide
    · rw [nothing]
      exact Multiset.nodup_zero
    · rw [nothing]
      exact fun i member => absurd member (Multiset.notMem_zero i)
    · exact fun w i member => absurd member List.not_mem_nil
    · intro w
      change (generationOf (kNil.setWidth 64)).toNat = 0
      decide
  frame := by
    intro frame member
    rw [initial_frames member]
    trivial
  calls := fun call member => absurd member List.not_mem_nil
  points := by
    rw [initial_bind rfl]
    rfl

/-- The state after a schedule. -/
def reached (V : Type) [Inhabited V] (threads : Nat) (schedule : List (Nat × Choice V)) :
    Machine (Shared V) (Frame V) :=
  (initial V threads).run frameStep schedule

theorem run_sound {threads : Nat} {schedule : List (Nat × Choice V)}
    (within : (initial V threads).admits frameStep withinCounters schedule = true) :
    Sound (reached V threads schedule).shared (reached V threads schedule).frames := by
  apply run_invariant_admitted frameStep withinCounters Sound _ (initial_sound threads) within
  intro choice s frame others admitted sound
  exact frame_step_sound choice sound admitted

theorem owners_agree {s : Shared V} {threads : List (List (Frame V))}
    (sound : Sound s (threads.flatten : Multiset (Frame V))) {idx : Index} {i j : Nat}
    {stack stack' : List (Frame V)} (first : threads[i]? = some stack)
    (second : threads[j]? = some stack') (mine : ∃ frame ∈ stack, idx ∈ owned frame)
    (theirs : ∃ frame ∈ stack', idx ∈ owned frame) : i = j := by
  obtain ⟨chain, pool, -⟩ := sound.pool
  have apart := (Multiset.nodup_add.mp pool.apart).2.1
  apply same_thread_of_once (count_le_one_of_nodup apart idx) first second
  · simpa using mine
  · simpa using theirs

/-- A linearizable stack, in one state of a run. -/
structure Linearizable (machine : Machine (Shared V) (Frame V)) : Prop where
  /-- The chains behind the heads share no index with each other or with the
  calls, the calls share none among themselves, and the history replays on a
  sequential stack to what the stack's chain holds. -/
  chains : ∃ chain : Head → List Index,
    (∀ w, Linked (fun i => (machine.shared.node i).next) kNil (indexOf (machine.shared.heads w))
      (chain w)) ∧
    (chained chain + machine.frames.bind owned).Nodup ∧
    Replays machine.shared.history (contents machine.shared chain) ∧
    pushed machine.shared.history =
      popped machine.shared.history + ↑(contents machine.shared chain)
  /-- A pop took the value on top, or found the stack empty, at that moment. -/
  finds : ∀ place event, machine.shared.history[place]? = some event →
    ∃ stack, Replays (machine.shared.history.take place) stack ∧ event.Finds stack
  /-- Every call that returned took effect between its start and its return. -/
  calls : ∀ call ∈ machine.shared.calls, CallSound machine.shared.history call
  /-- Every event is that of one call. -/
  points : (machine.shared.calls.map Call.point : Multiset Nat) + machine.frames.bind point =
    Multiset.range machine.shared.history.length
  /-- No index is owned by two threads. -/
  owners : ∀ (i j : Nat) (stack stack' : List (Frame V)), machine.threads[i]? = some stack →
    machine.threads[j]? = some stack' → ∀ idx, (∃ frame ∈ stack, idx ∈ owned frame) →
    (∃ frame ∈ stack', idx ∈ owned frame) → i = j
  /-- No access goes through a chunk pointer that is not set. -/
  safe : .crashed ∉ machine.frames

/-- Every interleaving of pushes and pops, as long as no head is updated 2^32
times behind a thread's back and `nextFresh_` does not wrap around. -/
theorem ready_stack_linearizable (threads : Nat) (schedule : List (Nat × Choice V))
    (within : (initial V threads).admits frameStep withinCounters schedule = true) :
    Linearizable (reached V threads schedule) := by
  have sound := run_sound within
  obtain ⟨chain, pool, replays⟩ := sound.pool
  constructor
  · exact ⟨chain, pool.linked, pool.apart, replays, pushed_eq_popped_add replays⟩
  · exact fun place event there => replays_at replays there
  · exact sound.calls
  · exact sound.points
  · exact fun i j stack stack' first second idx => owners_agree sound first second
  · exact fun crashed => sound.frame _ crashed

end Runs

/-- One thread makes a call and runs it to its end. -/
def whole (thread : Nat) (call : Choice Nat) : List (Nat × Choice Nat) :=
  (thread, call) :: List.replicate 12 (thread, .go)

/-- A pop of thread 1 has read the head and its successor when thread 0 pops both
nodes and pushes again: its compare-exchange must fail, and it takes 4. -/
def staleCommit : List (Nat × Choice Nat) :=
  whole 0 (.push 3) ++ whole 0 (.push 2) ++ whole 0 (.push 1) ++
    [(1, Choice.pop), (1, Choice.go), (1, Choice.go), (1, Choice.go)] ++
    whole 0 .pop ++ whole 0 .pop ++ whole 0 (.push 4) ++ List.replicate 12 (1, Choice.go)

theorem stale_commit_rejected :
    (reached Nat 2 staleCommit).shared.calls.map Call.operation =
        [.push 3, .push 2, .push 1, .pop 1, .pop 2, .push 4, .pop 4] ∧
      Linearizable (reached Nat 2 staleCommit) :=
  ⟨by decide +kernel, ready_stack_linearizable 2 staleCommit (by decide +kernel)⟩

/-- A thread calls `push` and goes as far as the increment of `nextFresh_`. -/
def draw (thread : Nat) : List (Nat × Choice Unit) :=
  [(thread, .push ()), (thread, .go), (thread, .go)]

/-- Threads do so one after the other. -/
def drawAll : Nat → List (Nat × Choice Unit)
  | 0 => []
  | threads + 1 => drawAll threads ++ draw threads

/-- What such a thread is left with. -/
def drawnBy (fresh : Word) : List (Frame Unit) :=
  if kCapacity ≤ fresh.toNat then [.client]
  else [.push () 0 (.chunk (fresh.setWidth 32)), .client]

/-- `n` of the threads have done so. -/
structure Drawn (threads n : Nat) (machine : Machine (Shared Unit) (Frame Unit)) : Prop where
  heads : machine.shared.heads = (initial Unit threads).shared.heads
  history : machine.shared.history = []
  fresh : machine.shared.nextFresh = BitVec.ofNat 64 n
  waiting : ∀ t, n ≤ t → t < threads → machine.threads[t]? = some [.client]
  drawn : ∀ t, t < n → machine.threads[t]? = some (drawnBy (BitVec.ofNat 64 t))

theorem draw_runs {shared : Shared Unit} {running : List (List (Frame Unit))} {n : Nat}
    (here : running[n]? = some [.client]) (none : indexOf (shared.heads .free) = kNil)
    (history : shared.history = []) :
    (Machine.mk shared running).run frameStep (draw n) =
        { shared := { shared with nextFresh := shared.nextFresh + 1, drawn := shared.drawn + 1 }
          threads := running.set n (drawnBy shared.nextFresh) } ∧
      (Machine.mk shared running).admits frameStep fewUpdates (draw n) = true := by
  have inside : n < running.length := (List.getElem?_eq_some_iff.mp here).1
  have called : (Machine.mk shared running).step frameStep (n, .push ()) =
      { shared := shared
        threads := running.set n [.push () 0 (.acquire .load), .client] } := by
    rw [step_of_get frameStep here]
    simp [frameStep, history]
  have there : ∀ stack : List (Frame Unit), (running.set n stack)[n]? = some stack :=
    fun stack => List.getElem?_set_self inside
  have loaded : (Machine.mk shared (running.set n [.push () 0 (.acquire .load), .client])).step
        frameStep (n, .go) =
      { shared := shared
        threads := running.set n [.push () 0 .fresh, .client] } := by
    rw [step_of_get frameStep (there _)]
    simp [frameStep, pushStep, unlinkFront, seenHead, none]
  have increased : (Machine.mk shared (running.set n [.push () 0 .fresh, .client])).step
        frameStep (n, .go) =
      { shared := { shared with nextFresh := shared.nextFresh + 1, drawn := shared.drawn + 1 }
        threads := running.set n (drawnBy shared.nextFresh) } := by
    rw [step_of_get frameStep (there _)]
    simp only [frameStep, pushStep, List.set_set, drawnBy]
    split <;> rfl
  constructor
  · simp only [draw, Machine.run, List.foldl_cons, List.foldl_nil]
    rw [called, loaded, increased]
  · simp only [draw, Machine.admits, Bool.and_true]
    rw [called, loaded, admits_step_of_get _ here, admits_step_of_get _ (there _),
      admits_step_of_get _ (there _)]
    rfl

theorem draw_all {threads : Nat} : ∀ n, n ≤ threads →
    Drawn threads n (reached Unit threads (drawAll n)) ∧
      (initial Unit threads).admits frameStep fewUpdates (drawAll n) = true := by
  intro n
  induction n with
  | zero =>
      intro _
      refine ⟨⟨rfl, rfl, rfl, ?_, ?_⟩, rfl⟩
      · intro t _ inside
        simp [reached, drawAll, Machine.run, initial, inside]
      · intro t impossible
        omega
  | succ n induction =>
      intro more
      obtain ⟨drawn, admitted⟩ := induction (by omega)
      have none : indexOf ((reached Unit threads (drawAll n)).shared.heads .free) = kNil := by
        rw [drawn.heads]
        rfl
      obtain ⟨ran, admits⟩ := draw_runs (drawn.waiting n (Nat.le_refl n) more) none drawn.history
      have inside := (List.getElem?_eq_some_iff.mp (drawn.waiting n (Nat.le_refl n) more)).1
      constructor
      · have split : reached Unit threads (drawAll (n + 1)) =
            (reached Unit threads (drawAll n)).run frameStep (draw n) := by
          simp only [reached, drawAll, Machine.run, List.foldl_append]
        rw [split, ran]
        constructor
        · exact drawn.heads
        · exact drawn.history
        · simp only [drawn.fresh]
          rw [BitVec.ofNat_add]
          rfl
        · intro t after below
          simp only
          rw [List.getElem?_set_ne (by omega)]
          exact drawn.waiting t (by omega) below
        · intro t before
          simp only
          rcases Nat.lt_succ_iff_lt_or_eq.mp before with earlier | now
          · rw [List.getElem?_set_ne (by omega)]
            exact drawn.drawn t earlier
          · rw [now, List.getElem?_set_self inside, drawn.fresh]
      · rw [drawAll, admits_append, admitted]
        exact admits

theorem index_drawn_twice {n : Nat} (wrapped : n = 2 ^ 64) :
    (initial Unit (n + 1)).admits frameStep fewUpdates (drawAll (n + 1)) = true ∧
      ¬ Linearizable (reached Unit (n + 1) (drawAll (n + 1))) := by
  obtain ⟨drawn, admitted⟩ := draw_all (n + 1) (Nat.le_refl (n + 1))
  refine ⟨admitted, ?_⟩
  intro linearizable
  have shared : ∀ t, BitVec.ofNat 64 t = 0 →
      ∃ frame ∈ drawnBy (BitVec.ofNat 64 t), (0 : Index) ∈ owned frame := by
    intro t zero
    rw [zero]
    exact ⟨.push () 0 (.chunk 0), by decide, by decide⟩
  have same : 0 = n := by
    apply linearizable.owners 0 n _ _ (drawn.drawn 0 (by omega)) (drawn.drawn n (by omega)) 0
    · exact shared 0 rfl
    · apply shared
      rw [wrapped]
      decide
  omega

theorem wrapped_fresh_shares_node :
    (initial Unit (2 ^ 64 + 1)).admits frameStep fewUpdates (drawAll (2 ^ 64 + 1)) = true ∧
      ¬ Linearizable (reached Unit (2 ^ 64 + 1) (drawAll (2 ^ 64 + 1))) :=
  index_drawn_twice rfl

end ProtoScala.Runtime.ReadyStackLinearization
