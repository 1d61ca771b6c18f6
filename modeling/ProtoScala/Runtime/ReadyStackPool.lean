import ProtoScala.Runtime.ReadyStack

/-!
# The node pool of the ready stack

Which nodes there are and where: every index handed out is in the stack's chain,
in the free list's chain or owned by one call, and in one of them only. `Pool`
says so of a state, and each way in which a step changes the pool keeps it.
-/

namespace ProtoScala.Runtime.ReadyStackPool

open ProtoScala.Library.LinkedChain
open ProtoScala.Library.StackHistory
open ProtoScala.Library.Threads
open ProtoScala.Runtime.ReadyStack

set_option autoImplicit false

@[simp]
theorem index_of_pack (generation : Word) (idx : Index) :
    indexOf (pack generation idx) = idx := by
  apply BitVec.eq_of_getLsbD_eq
  intro i small
  simp [indexOf, pack, small]

theorem generation_of_pack (generation : Word) (idx : Index) :
    (generationOf (pack generation idx)).toNat = generation.toNat % 2 ^ 32 := by
  have bits : generationOf (pack generation idx) = (generation.setWidth 32).setWidth 64 := by
    apply BitVec.eq_of_getLsbD_eq
    intro i small
    by_cases low : i < 32
    · simp [generationOf, pack, low, small, show 32 + i < 64 by omega]
    · simp [generationOf, pack, low, show ¬ 32 + i < 64 by omega]
  rw [bits]
  simp only [BitVec.toNat_setWidth]
  omega

theorem one_toNat : (1 : Word).toNat = 1 := rfl

/-- A compare-exchange moves the generation on by one, modulo 2^32. -/
theorem generation_of_next (word : Word) (idx : Index) {updates : Nat}
    (generation : (generationOf word).toNat = updates % 2 ^ 32) :
    (generationOf (pack (generationOf word + 1) idx)).toNat = (updates + 1) % 2 ^ 32 := by
  rw [generation_of_pack, BitVec.toNat_add, generation, one_toNat]
  omega

/-- Two reads of a head with one word, less than 2^32 updates apart, are no
updates apart. -/
theorem same_updates {seen updates : Nat} (order : seen ≤ updates) (few : updates < seen + 2 ^ 32)
    (generation : updates % 2 ^ 32 = seen % 2 ^ 32) : updates = seen := by
  omega

theorem chunk_start_le (idx : Index) :
    2 ^ (kFirstChunkBits + chunkOf idx) ≤ idx.toNat + 2 ^ kFirstChunkBits := by
  have real : idx.toNat + 2 ^ kFirstChunkBits ≠ 0 := by
    simp [kFirstChunkBits]
  have big : kFirstChunkBits ≤ Nat.log2 (idx.toNat + 2 ^ kFirstChunkBits) := by
    rw [Nat.le_log2 real]
    omega
  unfold chunkOf
  rw [Nat.add_sub_cancel' big]
  exact Nat.log2_self_le real

/-- Two nodes share no place. -/
theorem place_injective {i j : Index} (chunk : chunkOf i = chunkOf j)
    (offset : offsetOf i = offsetOf j) : i = j := by
  have first := chunk_start_le i
  have second := chunk_start_le j
  unfold offsetOf at offset
  rw [chunk] at first offset
  apply BitVec.eq_of_toNat_eq
  omega

theorem chunk_lt_of_capacity {idx : Index} (small : idx.toNat < kCapacity) :
    chunkOf idx < kMaxChunks := by
  have bound : Nat.log2 (idx.toNat + 2 ^ kFirstChunkBits) < 32 := by
    rw [Nat.log2_lt (by simp [kFirstChunkBits])]
    simp only [kCapacity, kFirstChunkBits] at small ⊢
    omega
  simp only [chunkOf, kMaxChunks, kFirstChunkBits] at bound ⊢
  omega

theorem ne_nil_of_capacity {idx : Index} (small : idx.toNat < kCapacity) : idx ≠ kNil := by
  intro same
  rw [same] at small
  exact absurd small (by decide)

section Memory

variable {V : Type} (s : Shared V) (idx : Index) (new : Node V)

@[simp]
theorem node_setNode_self : (s.setNode idx new).node idx = new := by
  simp [Shared.node, Shared.setNode]

theorem node_setNode_of_ne {i : Index} (other : i ≠ idx) :
    (s.setNode idx new).node i = s.node i := by
  simp only [Shared.node, Shared.setNode, ite_eq_right_iff, and_imp]
  intro chunk offset
  exact absurd (place_injective chunk offset) other

@[simp]
theorem node_exchange (w : Head) (desired : Word) (i : Index) :
    (s.exchange w desired).node i = s.node i := rfl

@[simp]
theorem heads_exchange_self (w : Head) (desired : Word) :
    (s.exchange w desired).heads w = desired :=
  Function.update_self ..

@[simp]
theorem heads_exchange_of_ne {w w' : Head} (other : w' ≠ w) (desired : Word) :
    (s.exchange w desired).heads w' = s.heads w' :=
  Function.update_of_ne other ..

@[simp]
theorem updates_exchange_self (w : Head) (desired : Word) :
    (s.exchange w desired).updates w = s.updates w + 1 :=
  Function.update_self ..

@[simp]
theorem updates_exchange_of_ne {w w' : Head} (other : w' ≠ w) (desired : Word) :
    (s.exchange w desired).updates w' = s.updates w' :=
  Function.update_of_ne other ..

end Memory

variable {V : Type}

/-- All indices of the two chains. -/
def chained (chain : Head → List Index) : Multiset Index :=
  ↑(chain .stack) + ↑(chain .free)

theorem mem_chained {chain : Head → List Index} {i : Index} :
    i ∈ chained chain ↔ ∃ w, i ∈ chain w := by
  unfold chained
  rw [Multiset.mem_add, Multiset.mem_coe, Multiset.mem_coe]
  constructor
  · rintro (inStack | inFree)
    · exact ⟨.stack, inStack⟩
    · exact ⟨.free, inFree⟩
  · rintro ⟨w, member⟩
    cases w with
    | stack => exact Or.inl member
    | free => exact Or.inr member

theorem chained_of_cons {chain : Head → List Index} {w : Head} {idx : Index}
    {rest : List Index} (top : chain w = idx :: rest) :
    chained chain = idx ::ₘ chained (Function.update chain w rest) := by
  cases w with
  | stack => simp [chained, top, ← Multiset.cons_coe]
  | free => simp [chained, top, ← Multiset.cons_coe, Multiset.add_cons]

theorem chained_update_cons (chain : Head → List Index) (w : Head) (idx : Index) :
    chained (Function.update chain w (idx :: chain w)) = idx ::ₘ chained chain := by
  rw [chained_of_cons (w := w) (Function.update_self ..)]
  simp

/-- The pool of a state: the chains behind the two heads and the indices that
calls in progress own. -/
structure Pool (s : Shared V) (chain : Head → List Index) (owned : Multiset Index) : Prop where
  linked : ∀ w, Linked (fun i => (s.node i).next) kNil (indexOf (s.heads w)) (chain w)
  apart : (chained chain + owned).Nodup
  handedOut : ∀ i ∈ chained chain + owned, i.toNat < s.drawn ∧ i.toNat < kCapacity
  fresh : s.nextFresh.toNat = s.drawn % 2 ^ 64
  reachable : ∀ w, ∀ i ∈ chain w, s.reachable i = true
  generation : ∀ w, (generationOf (s.heads w)).toNat = s.updates w % 2 ^ 32

section Changes

variable {s : Shared V} {chain : Head → List Index} {owned : Multiset Index}

theorem not_chained_of_owned (pool : Pool s chain owned) {i : Index} (mine : i ∈ owned)
    (w : Head) : i ∉ chain w := by
  intro member
  have disjoint := (Multiset.nodup_add.mp pool.apart).2.2
  exact Multiset.disjoint_left.mp disjoint (mem_chained.mpr ⟨w, member⟩) mine

theorem pool_unlink (pool : Pool s chain owned) {w : Head} {idx : Index} {rest : List Index}
    (top : chain w = idx :: rest) :
    Pool (s.exchange w (pack (generationOf (s.heads w) + 1) (s.node idx).next))
      (Function.update chain w rest) (idx ::ₘ owned) := by
  have moved : chained (Function.update chain w rest) + idx ::ₘ owned = chained chain + owned := by
    rw [chained_of_cons top, Multiset.add_cons, Multiset.cons_add]
  constructor
  · intro w'
    have before := pool.linked w'
    by_cases same : w' = w
    · subst same
      rw [top] at before
      simpa using before.2.2
    · simpa [same] using before
  · rw [moved]
    exact pool.apart
  · rw [moved]
    exact pool.handedOut
  · exact pool.fresh
  · intro w' i member
    apply pool.reachable w' i
    by_cases same : w' = w
    · subst same
      rw [Function.update_self] at member
      rw [top]
      exact List.mem_cons_of_mem _ member
    · rwa [Function.update_of_ne same] at member
  · intro w'
    by_cases same : w' = w
    · subst same
      rw [heads_exchange_self, updates_exchange_self]
      exact generation_of_next _ _ (pool.generation w')
    · rw [heads_exchange_of_ne _ same, updates_exchange_of_ne _ same]
      exact pool.generation w'

theorem pool_link {idx : Index} (pool : Pool s chain (idx ::ₘ owned)) {w : Head}
    (found : s.reachable idx = true) (onTop : (s.node idx).next = indexOf (s.heads w)) :
    Pool (s.exchange w (pack (generationOf (s.heads w) + 1) idx))
      (Function.update chain w (idx :: chain w)) owned := by
  have moved : chained (Function.update chain w (idx :: chain w)) + owned =
      chained chain + idx ::ₘ owned := by
    rw [chained_update_cons, Multiset.add_cons, Multiset.cons_add]
  have real : idx ≠ kNil := by
    apply ne_nil_of_capacity
    apply (pool.handedOut idx _).2
    exact Multiset.mem_add.mpr (Or.inr (Multiset.mem_cons_self _ _))
  constructor
  · intro w'
    have before := pool.linked w'
    by_cases same : w' = w
    · subst same
      have behind : Linked (fun i => (s.node i).next) kNil (s.node idx).next (chain w') := by
        rw [onTop]
        exact before
      simpa [Linked, real] using behind
    · simpa [same] using before
  · rw [moved]
    exact pool.apart
  · rw [moved]
    exact pool.handedOut
  · exact pool.fresh
  · intro w' i member
    by_cases same : w' = w
    · subst same
      rw [Function.update_self] at member
      rcases List.mem_cons.mp member with here | behind
      · rw [here]
        exact found
      · exact pool.reachable w' i behind
    · rw [Function.update_of_ne same] at member
      exact pool.reachable w' i member
  · intro w'
    by_cases same : w' = w
    · subst same
      rw [heads_exchange_self, updates_exchange_self]
      exact generation_of_next _ _ (pool.generation w')
    · rw [heads_exchange_of_ne _ same, updates_exchange_of_ne _ same]
      exact pool.generation w'

/-- The owner of a node writes it. -/
theorem pool_setNode (pool : Pool s chain owned) {idx : Index} (mine : idx ∈ owned)
    (new : Node V) : Pool (s.setNode idx new) chain owned where
  linked := by
    intro w
    apply linked_congr (pool.linked w)
    intro i member
    rw [node_setNode_of_ne]
    rintro rfl
    exact not_chained_of_owned pool mine w member
  apart := pool.apart
  handedOut := pool.handedOut
  fresh := pool.fresh
  reachable := pool.reachable
  generation := pool.generation

/-- A new index is below the capacity and in no use. -/
theorem pool_fresh (pool : Pool s chain owned) (notWrapped : s.drawn < 2 ^ 64)
    (left : s.nextFresh.toNat < kCapacity) :
    Pool { s with nextFresh := s.nextFresh + 1, drawn := s.drawn + 1 } chain
      (s.nextFresh.setWidth 32 ::ₘ owned) := by
  have value : s.nextFresh.toNat = s.drawn := by
    rw [pool.fresh, Nat.mod_eq_of_lt notWrapped]
  have index : (s.nextFresh.setWidth 32).toNat = s.drawn := by
    rw [BitVec.toNat_setWidth, value]
    simp only [kCapacity, kFirstChunkBits] at left
    omega
  constructor
  · exact pool.linked
  · rw [Multiset.add_cons]
    apply Multiset.nodup_cons.mpr
    constructor
    · intro member
      have small := (pool.handedOut _ member).1
      omega
    · exact pool.apart
  · intro i member
    rw [Multiset.add_cons, Multiset.mem_cons] at member
    rcases member with rfl | before
    · rw [index]
      exact ⟨Nat.lt_succ_self _, by omega⟩
    · have small := pool.handedOut i before
      exact ⟨Nat.lt_succ_of_lt small.1, small.2⟩
  · simp only [BitVec.toNat_add, value, one_toNat]
  · exact pool.reachable
  · exact pool.generation

/-- A `push` that finds no index left takes none. -/
theorem pool_exhausted (pool : Pool s chain owned) :
    Pool { s with nextFresh := s.nextFresh + 1, drawn := s.drawn + 1 } chain owned where
  linked := pool.linked
  apart := pool.apart
  handedOut := by
    intro i member
    have small := pool.handedOut i member
    exact ⟨Nat.lt_succ_of_lt small.1, small.2⟩
  fresh := by
    simp only [BitVec.toNat_add, pool.fresh, one_toNat]
    omega
  reachable := pool.reachable
  generation := pool.generation

theorem reachable_install (s : Shared V) (k : Nat) {i : Index} (before : s.reachable i = true) :
    { s with installed := Function.update s.installed k true }.reachable i = true := by
  simp only [Shared.reachable, Bool.and_eq_true] at before ⊢
  by_cases same : chunkOf i = k
  · rw [same, Function.update_self]
    rw [same] at before
    exact ⟨before.1, rfl⟩
  · rw [Function.update_of_ne same]
    exact before

theorem pool_install (pool : Pool s chain owned) (k : Nat) :
    Pool { s with installed := Function.update s.installed k true } chain owned where
  linked := pool.linked
  apart := pool.apart
  handedOut := pool.handedOut
  fresh := pool.fresh
  reachable := by
    intro w i member
    exact reachable_install s k (pool.reachable w i member)
  generation := pool.generation

/-- The history is no part of the pool. -/
theorem pool_record (pool : Pool s chain owned) (event : Event V) :
    Pool (s.record event) chain owned :=
  ⟨pool.linked, pool.apart, pool.handedOut, pool.fresh, pool.reachable, pool.generation⟩

/-- Nor are `size` and the calls that returned. -/
theorem pool_returned (pool : Pool s chain owned) (size : BitVec 64) (operation : Operation V)
    (since place : Nat) :
    Pool ({ s with size := size }.returned operation since place) chain owned :=
  ⟨pool.linked, pool.apart, pool.handedOut, pool.fresh, pool.reachable, pool.generation⟩

end Changes

end ProtoScala.Runtime.ReadyStackPool
