import Mathlib.Logic.Function.Basic
import ProtoScala.Library.LinkedChain
import ProtoScala.Library.StackHistory
import ProtoScala.Library.Threads

/-!
# The ready stack

`ReadyStack`: a Treiber stack over a pool of nodes that are recycled through a
second stack, the free list. Both heads are words `(generation << 32) | index`.

Every atomic load, store, fetch-and-add and compare-exchange is a step of its
own, as are the plain accesses to a node's value; the steps are sequentially
consistent. A weak compare-exchange may fail where it could succeed. A `client`
frame is a thread between two calls: its choices are the calls it makes.

The fields named as history are written and never read.
-/

namespace ProtoScala.Runtime.ReadyStack

open ProtoScala.Library.LinkedChain
open ProtoScala.Library.StackHistory
open ProtoScala.Library.Threads

set_option autoImplicit false

abbrev Index := BitVec 32
abbrev Word := BitVec 64

def kNil : Index := BitVec.allOnes 32

def kFirstChunkBits : Nat := 8

def kMaxChunks : Nat := 32 - kFirstChunkBits

def kCapacity : Nat := 2 ^ 32 - 2 ^ kFirstChunkBits

def pack (generation : Word) (idx : Index) : Word :=
  (generation <<< 32) ||| idx.setWidth 64

def indexOf (word : Word) : Index :=
  word.setWidth 32

def generationOf (word : Word) : Word :=
  word >>> 32

/-- The chunk that holds a node: `bit_width(v) - 1` is the binary logarithm. -/
def chunkOf (idx : Index) : Nat :=
  Nat.log2 (idx.toNat + 2 ^ kFirstChunkBits) - kFirstChunkBits

def offsetOf (idx : Index) : Nat :=
  idx.toNat + 2 ^ kFirstChunkBits - 2 ^ (kFirstChunkBits + chunkOf idx)

structure Node (V : Type) where
  value : V
  next : Index

/-- The two heads, `head_` and `free_`. -/
inductive Head
  | stack | free
deriving DecidableEq, Repr

inductive Operation (V : Type)
  | push (value : V)
  | pop (result : V)
deriving DecidableEq, Repr

/-- A call that returned: the length of the history when it was made, the place
of its own event and the length of the history when it returned. -/
structure Call (V : Type) where
  operation : Operation V
  since : Nat
  point : Nat
  upTo : Nat
deriving DecidableEq, Repr

/-- `nodes` holds the chunks' nodes by chunk and offset, in the state in which a
chunk is installed; `installed` says which of the chunk pointers are set. -/
structure Shared (V : Type) where
  heads : Head → Word
  nextFresh : Word
  size : BitVec 64
  installed : Nat → Bool
  nodes : Nat → Nat → Node V
  /-- History: the successful updates of each head. -/
  updates : Head → Nat
  /-- History: the increments of `nextFresh`. -/
  drawn : Nat
  /-- History: the effect of every call, when it took place. -/
  history : List (Event V)
  /-- History: the calls that returned. -/
  calls : List (Call V)

/-- What a step leaves open: the call a client makes, and whether a weak
compare-exchange fails for no reason. -/
inductive Choice (V : Type)
  | push (value : V)
  | pop
  | go
  | spurious
deriving DecidableEq, Repr

/-- `unlinkFront`, with the word it last read and the number of updates of the
head at that moment. -/
inductive UnlinkPc
  | load
  | node (old : Word) (seen : Nat)
  | next (old : Word) (seen : Nat)
  | cas (old : Word) (seen : Nat) (next : Index)
deriving DecidableEq, Repr

inductive LinkPc
  | node
  | load
  | store (old : Word) (seen : Nat)
  | cas (old : Word) (seen : Nat)
deriving DecidableEq, Repr

inductive PushPc
  | acquire (pc : UnlinkPc)
  | fresh
  | chunk (idx : Index)
  | install (idx : Index)
  | node (idx : Index)
  | write (idx : Index)
  | link (idx : Index) (pc : LinkPc)
  | count (point : Nat)
deriving DecidableEq, Repr

inductive PopPc (V : Type)
  | unlink (pc : UnlinkPc)
  | node (idx : Index) (point : Nat)
  | read (idx : Index) (point : Nat)
  | link (idx : Index) (value : V) (point : Nat) (pc : LinkPc)
  | count (value : V) (point : Nat)
deriving DecidableEq, Repr

/-- A call in progress; `crashed` follows an access through a chunk pointer that
is not set. -/
inductive Frame (V : Type)
  | client
  | push (value : V) (since : Nat) (pc : PushPc)
  | pop (since : Nat) (pc : PopPc V)
  | crashed
deriving DecidableEq, Repr

namespace Shared

variable {V : Type}

/-- `node(idx)`. -/
def node (s : Shared V) (idx : Index) : Node V :=
  s.nodes (chunkOf idx) (offsetOf idx)

def setNode (s : Shared V) (idx : Index) (node : Node V) : Shared V :=
  { s with
    nodes := fun chunk offset =>
      if chunk = chunkOf idx ∧ offset = offsetOf idx then node else s.nodes chunk offset }

/-- Whether `node(idx)` finds its chunk. -/
def reachable (s : Shared V) (idx : Index) : Bool :=
  decide (chunkOf idx < kMaxChunks) && s.installed (chunkOf idx)

/-- A successful compare-exchange of a head. -/
def exchange (s : Shared V) (w : Head) (desired : Word) : Shared V :=
  { s with
    heads := Function.update s.heads w desired
    updates := Function.update s.updates w (s.updates w + 1) }

def record (s : Shared V) (event : Event V) : Shared V :=
  { s with history := s.history ++ [event] }

/-- A call returns. -/
def returned (s : Shared V) (operation : Operation V) (since point : Nat) : Shared V :=
  { s with calls := s.calls ++ [⟨operation, since, point, s.history.length⟩] }

def approxSize (s : Shared V) : Nat :=
  if 0 < s.size.toInt then s.size.toNat else 0

end Shared

section Steps

variable {V : Type}

/-- Where a step of `linkFront` leads. -/
inductive Linking
  | again (pc : LinkPc)
  | done
  | crashed
deriving DecidableEq, Repr

def linkFront (choice : Choice V) (s : Shared V) (w : Head) (idx : Index) :
    LinkPc → Shared V × Linking
  | .node => (s, if s.reachable idx then .again .load else .crashed)
  | .load => (s, .again (.store (s.heads w) (s.updates w)))
  | .store old seen =>
      (s.setNode idx { s.node idx with next := indexOf old }, .again (.cas old seen))
  | .cas old _ =>
      match choice with
      | .spurious => (s, .again (.store (s.heads w) (s.updates w)))
      | _ =>
          if s.heads w = old then
            (s.exchange w (pack (generationOf old + 1) idx), .done)
          else
            (s, .again (.store (s.heads w) (s.updates w)))

/-- Where a step of `unlinkFront` leads: `empty` and `taken` are its two
returns. -/
inductive Unlinking
  | again (pc : UnlinkPc)
  | taken (idx : Index)
  | empty
  | crashed
deriving DecidableEq, Repr

/-- The head was read, by the load or by a compare-exchange that failed. -/
def seenHead (s : Shared V) (w : Head) : Unlinking :=
  if indexOf (s.heads w) = kNil then .empty else .again (.node (s.heads w) (s.updates w))

def unlinkFront (choice : Choice V) (s : Shared V) (w : Head) :
    UnlinkPc → Shared V × Unlinking
  | .load => (s, seenHead s w)
  | .node old seen => (s, if s.reachable (indexOf old) then .again (.next old seen) else .crashed)
  | .next old seen => (s, .again (.cas old seen (s.node (indexOf old)).next))
  | .cas old _ next =>
      match choice with
      | .spurious => (s, seenHead s w)
      | _ =>
          if s.heads w = old then
            (s.exchange w (pack (generationOf old + 1) next), .taken (indexOf old))
          else
            (s, seenHead s w)

/-- `push`, with `acquireNode` inlined; a `push` that throws leaves no event. -/
def pushStep (choice : Choice V) (s : Shared V) (value : V) (since : Nat) :
    PushPc → Shared V × List (Frame V)
  | .acquire pc =>
      match unlinkFront choice s .free pc with
      | (s', .again pc') => (s', [.push value since (.acquire pc')])
      | (s', .taken idx) => (s', [.push value since (.node idx)])
      | (s', .empty) => (s', [.push value since .fresh])
      | (s', .crashed) => (s', [.crashed])
  | .fresh =>
      ({ s with nextFresh := s.nextFresh + 1, drawn := s.drawn + 1 },
        if kCapacity ≤ s.nextFresh.toNat then []
        else [.push value since (.chunk (s.nextFresh.setWidth 32))])
  | .chunk idx =>
      (s,
        if kMaxChunks ≤ chunkOf idx then [.crashed]
        else if s.installed (chunkOf idx) then [.push value since (.node idx)]
        else [.push value since (.install idx)])
  | .install idx =>
      ({ s with installed := Function.update s.installed (chunkOf idx) true },
        [.push value since (.node idx)])
  | .node idx =>
      (s, if s.reachable idx then [.push value since (.write idx)] else [.crashed])
  | .write idx =>
      (s.setNode idx { s.node idx with value := value }, [.push value since (.link idx .node)])
  | .link idx pc =>
      match linkFront choice s .stack idx pc with
      | (s', .again pc') => (s', [.push value since (.link idx pc')])
      | (s', .done) =>
          (s'.record (.push value), [.push value since (.count s.history.length)])
      | (s', .crashed) => (s', [.crashed])
  | .count point =>
      ({ s with size := s.size + 1 }.returned (.push value) since point, [])

/-- `pop`: the event of a pop is its successful compare-exchange of the head, or
the read of the head that found no node. -/
def popStep [Inhabited V] (choice : Choice V) (s : Shared V) (since : Nat) :
    PopPc V → Shared V × List (Frame V)
  | .unlink pc =>
      match unlinkFront choice s .stack pc with
      | (s', .again pc') => (s', [.pop since (.unlink pc')])
      | (s', .taken idx) =>
          (s'.record (.pop (s.node idx).value), [.pop since (.node idx s.history.length)])
      | (s', .empty) =>
          ((s'.record .empty).returned (.pop default) since s.history.length, [])
      | (s', .crashed) => (s', [.crashed])
  | .node idx point =>
      (s, if s.reachable idx then [.pop since (.read idx point)] else [.crashed])
  | .read idx point => (s, [.pop since (.link idx (s.node idx).value point .node)])
  | .link idx value point pc =>
      match linkFront choice s .free idx pc with
      | (s', .again pc') => (s', [.pop since (.link idx value point pc')])
      | (s', .done) => (s', [.pop since (.count value point)])
      | (s', .crashed) => (s', [.crashed])
  | .count value point =>
      ({ s with size := s.size - 1 }.returned (.pop value) since point, [])

def frameStep [Inhabited V] (choice : Choice V) (s : Shared V) :
    Frame V → Shared V × List (Frame V)
  | .client =>
      match choice with
      | .push value => (s, [.push value s.history.length (.acquire .load), .client])
      | .pop => (s, [.pop s.history.length (.unlink .load), .client])
      | _ => (s, [.client])
  | .push value since pc => pushStep choice s value since pc
  | .pop since pc => popStep choice s since pc
  | .crashed => (s, [.crashed])

/-- A new stack, and the threads that will use it. -/
def initial (V : Type) [Inhabited V] (threads : Nat) : Machine (Shared V) (Frame V) where
  shared :=
    { heads := fun _ => kNil.setWidth 64
      nextFresh := 0
      size := 0
      installed := fun _ => false
      nodes := fun _ _ => ⟨default, kNil⟩
      updates := fun _ => 0
      drawn := 0
      history := []
      calls := [] }
  threads := List.replicate threads [.client]

/-- The head that a compare-exchange is about to update, and the number of its
updates when the thread last read it. -/
def exchanging : Frame V → Option (Head × Nat)
  | .push _ _ (.acquire (.cas _ seen _)) => some (.free, seen)
  | .push _ _ (.link _ (.cas _ seen)) => some (.stack, seen)
  | .pop _ (.unlink (.cas _ seen _)) => some (.stack, seen)
  | .pop _ (.link _ _ _ (.cas _ seen)) => some (.free, seen)
  | _ => none

/-- Fewer than 2^32 successful updates of a head between a thread's read of it
and the thread's compare-exchange. -/
def fewUpdates (s : Shared V) (frame : Frame V) : Bool :=
  match exchanging frame with
  | some (w, seen) => decide (s.updates w < seen + 2 ^ 32)
  | none => true

/-- `nextFresh_` has not yet wrapped around when a thread increments it. -/
def freshNotWrapped (s : Shared V) : Frame V → Bool
  | .push _ _ .fresh => decide (s.drawn < 2 ^ 64)
  | _ => true

def withinCounters (s : Shared V) (frame : Frame V) : Bool :=
  fewUpdates s frame && freshNotWrapped s frame

end Steps

end ProtoScala.Runtime.ReadyStack
