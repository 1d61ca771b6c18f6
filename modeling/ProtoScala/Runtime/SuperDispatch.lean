import Mathlib.Data.List.Forall2
import ProtoScala.Compiler.Hierarchies

/-!
# Super calls

`MAKE_CLASS` makes one prototype for each template. Its chain is read from the globals: the
linearization without the template, with the natives of case classes before `AnyRef`. A
super call looks for the template it was compiled in by identity, in the chain of the
receiver, and takes the first definition after it.
-/

namespace ProtoScala.Runtime.SuperDispatch

open ProtoScala.Compiler.Templates
open ProtoScala.Compiler.Hierarchies

set_option autoImplicit false

/-- A member. `owner` is the key in its super sites; natives and extension methods have none. -/
structure Member (M : Type) where
  owner : Option String
  body : M
  deriving DecidableEq, Repr

structure Prototype (M : Type) where
  parents : List Nat
  attributes : String → Option (Member M)

/-- The prototypes, each at its address, and the globals under the keys of types. -/
structure Heap (M : Type) where
  prototypes : List (Prototype M)
  globals : String → Option Nat

section Model

variable {M : Type}

namespace Heap

def ownAttribute (heap : Heap M) (symbol : String) (id : Nat) : Option (Member M) :=
  heap.prototypes[id]?.bind fun prototype => prototype.attributes symbol

end Heap

/-- Some class of the linearization is a case class. -/
def isProduct (types : List ClassInfo) (info : ClassInfo) : Bool :=
  info.linearization.any fun key =>
    if key == info.key then info.isCase else (findTypeByKey types key).any ClassInfo.isCase

/-- `kProductKey` in front of `kAnyRefKey`. -/
def insertProduct (chain : List String) : List String :=
  chain.takeWhile (· ≠ kAnyRefKey) ++ kProductKey :: chain.dropWhile (· ≠ kAnyRefKey)

def runtimeChain (types : List ClassInfo) (info : ClassInfo) : List String :=
  let chain := info.linearization.tail
  if isProduct types info && !chain.contains kProductKey then insertProduct chain else chain

/-- The attributes after every member has been set; the last of a name stays. -/
def memberTable (key : String) (members : List (String × M)) (symbol : String) :
    Option (Member M) :=
  (members.reverse.lookup symbol).map fun body => ⟨some key, body⟩

/-- `PUSH_GLOBAL` for the chain, `MAKE_CLASS` and `STORE_GLOBAL`. -/
def makeClass (types : List ClassInfo) (heap : Heap M) (info : ClassInfo)
    (members : List (String × M)) : Option (Heap M) :=
  ((runtimeChain types info).mapM heap.globals).map fun parents =>
    { prototypes := heap.prototypes ++ [⟨parents, memberTable info.key members⟩]
      globals := fun key =>
        if key = info.key then some heap.prototypes.length else heap.globals key }

/-- An extension method is set on the prototype of its type. -/
def extend (heap : Heap M) (key symbol : String) (body : M) : Option (Heap M) :=
  (heap.globals key).map fun id =>
    { heap with
      prototypes := heap.prototypes.modify id fun prototype =>
        { prototype with
          attributes := fun name =>
            if name = symbol then some ⟨none, body⟩ else prototype.attributes name } }

inductive Step (M : Type) where
  | makeClass (c : CompiledClass) (members : List (String × M))
  | extension (key symbol : String) (body : M)

def Step.made? : Step M → Option CompiledClass
  | .makeClass c _ => some c
  | .extension _ _ _ => none

def step (types : List ClassInfo) (heap : Heap M) : Step M → Option (Heap M)
  | .makeClass c members => makeClass types heap c.info members
  | .extension key symbol body => extend heap key symbol body

def run (types : List ClassInfo) : List (Step M) → Heap M → Option (Heap M)
  | [], heap => some heap
  | first :: rest, heap => (step types heap first).bind (run types rest)

/-- The prototypes of the runtime's own types. -/
def startHeap (natives : String → String → Option M) : Heap M where
  prototypes := builtinTypes.map fun info =>
    { parents := info.linearization.tail.map (rank builtinTypes)
      attributes := fun symbol => (natives info.key symbol).map fun body => ⟨none, body⟩ }
  globals := fun key =>
    if key ∈ builtinTypes.map ClassInfo.key then some (rank builtinTypes key) else none

/-- The parents of a new instance: its class, and the chain of its class. -/
def instanceChain (heap : Heap M) (key : String) : Option (List Nat) :=
  (heap.globals key).bind fun id =>
    heap.prototypes[id]?.map fun prototype => id :: prototype.parents

/-- A super call: its member, the owner's key, and whether the owner is named. -/
structure Site where
  symbol : String
  key : String
  exact : Bool

/-- A key without the number of its redefinition. -/
def nameOfKey (key : String) : String :=
  let number := key.toList.reverse.takeWhile (· ≠ '#')
  match key.toList.reverse.dropWhile (· ≠ '#') with
  | [] => key
  | _ :: front =>
    if number ≠ [] ∧ number.all Char.isDigit = true then String.ofList front.reverse else key

def Site.ownerName (site : Site) : String :=
  nameOfKey (String.ofList site.key.toList.tail)

def Site.spelling (site : Site) : String :=
  "super" ++ (if site.exact then "[" ++ site.ownerName ++ "]" else "") ++ "." ++ site.symbol

/-- The member that a super call runs; `typeName` is the receiver's. An error is the text of
a `NoSuchMethodError`. -/
def superSend (heap : Heap M) (typeName : String) (chain : List Nat) (site : Site) :
    Except String (Member M) :=
  match chain.dropWhile fun id => heap.globals site.key ≠ some id with
  | [] =>
    .error (site.ownerName ++ " is not in the linearization of " ++ typeName ++ ", so " ++
      site.spelling ++ " has no meaning here")
  | owner :: rest =>
    match (if site.exact then owner :: rest else rest).findSome?
        (heap.ownAttribute site.symbol) with
    | some m => .ok m
    | none => .error (site.spelling ++ " has no implementation after " ++ site.ownerName)

/-- The members that run when each calls `super` once and the receiver's is `m`. -/
def superCalls (heap : Heap M) (typeName : String) (chain : List Nat) (symbol : String) :
    Nat → Member M → List (Member M)
  | 0, m => [m]
  | depth + 1, m =>
    m :: match m.owner with
      | none => []
      | some key =>
        match superSend heap typeName chain ⟨symbol, key, false⟩ with
        | .ok next => superCalls heap typeName chain symbol depth next
        | .error _ => []

end Model

/-! ## The linearization -/

section Meaning

variable {M : Type} (heap : Heap M)

/-- The linearization of a class, with the natives of case classes where it has a case class. -/
def searched (types : List ClassInfo) (info : ClassInfo) : List String :=
  if isProduct types info && !info.linearization.contains kProductKey then
    insertProduct info.linearization
  else info.linearization

def definition (symbol key : String) : Option (Member M) :=
  (heap.globals key).bind (heap.ownAttribute symbol)

/-- The first definition in the order of the keys. -/
def firstDefinition (symbol : String) (keys : List String) : Option (Member M) :=
  keys.findSome? (definition heap symbol)

def definitions (symbol : String) (keys : List String) : List (Member M) :=
  keys.filterMap (definition heap symbol)

/-- A native or an extension method has no super call in it. -/
def untilNative : List (Member M) → List (Member M)
  | [] => []
  | m :: rest => m :: if m.owner.isSome then untilNative rest else []

/-- What super calls of a receiver do, when its class is searched in the order of `keys`. -/
structure FollowsLinearization (keys : List String) (chain : List Nat) : Prop where
  after : ∀ symbol typeName key before after, keys = before ++ key :: after →
    ((superSend heap typeName chain ⟨symbol, key, false⟩).toOption) =
      firstDefinition heap symbol after
  at_or_after : ∀ symbol typeName key before after, keys = before ++ key :: after →
    ((superSend heap typeName chain ⟨symbol, key, true⟩).toOption) =
      firstDefinition heap symbol (key :: after)
  stack : ∀ symbol typeName first, firstDefinition heap symbol keys = some first →
    superCalls heap typeName chain symbol keys.length first =
      untilNative (definitions heap symbol keys)
  once : ∀ symbol typeName first, firstDefinition heap symbol keys = some first →
    ((superCalls heap typeName chain symbol keys.length first).filterMap Member.owner).Nodup

end Meaning

/-! ## The heap that a session builds -/

section Heaps

variable {M : Type}

/-- The globals say where each key's prototype is. -/
def At (heap : Heap M) (key : String) (id : Nat) : Prop :=
  heap.globals key = some id

/-- What holds after the classes `done` have been made. -/
structure Built (types : List ClassInfo) (done : List CompiledClass) (heap : Heap M) : Prop where
  bounded : ∀ key id, At heap key id → id < heap.prototypes.length
  injective : ∀ key other id, At heap key id → At heap other id → key = other
  bound : ∀ key id, At heap key id →
    key ∈ builtinTypes.map ClassInfo.key ∨ ∃ c ∈ done, c.info.key = key
  chains : ∀ c ∈ done, ∃ id prototype, At heap c.info.key id ∧
    heap.prototypes[id]? = some prototype ∧
    List.Forall₂ (At heap) (runtimeChain types c.info) prototype.parents
  owned : ∀ key id symbol m, At heap key id → heap.ownAttribute symbol id = some m →
    m.owner = none ∨ m.owner = some key

theorem forall_of_map_m {α β : Type} {f : α → Option β} {keys : List α} :
    ∀ {ids : List β}, keys.mapM f = some ids →
      List.Forall₂ (fun key id => f key = some id) keys ids := by
  induction keys with
  | nil =>
    intro ids mapped
    obtain rfl : [] = ids := Option.some.inj mapped
    exact .nil
  | cons key keys ih =>
    intro ids mapped
    rw [List.mapM_cons] at mapped
    cases first : f key with
    | none => simp [first] at mapped
    | some id =>
      cases rest : keys.mapM f with
      | none => simp [first, rest] at mapped
      | some others =>
        simp only [first, rest, Option.pure_def, Option.bind_eq_bind, Option.bind_some,
          Option.some.injEq] at mapped
        subst mapped
        exact .cons first (ih rest)

theorem rank_inj {types : List ClassInfo} {key other : String}
    (inside : key ∈ types.map ClassInfo.key) (same : rank types key = rank types other) :
    key = other :=
  (List.idxOf_inj inside).1 same

theorem start_globals (natives : String → String → Option M) (key : String) :
    (startHeap natives).globals key =
      if key ∈ builtinTypes.map ClassInfo.key then some (rank builtinTypes key) else none := rfl

theorem built_start (types : List ClassInfo) (natives : String → String → Option M) :
    Built types [] (startHeap natives) := by
  have at_start : ∀ key id, At (startHeap natives) key id →
      key ∈ builtinTypes.map ClassInfo.key ∧ rank builtinTypes key = id := by
    intro key id place
    by_cases inside : key ∈ builtinTypes.map ClassInfo.key
    · rw [At, start_globals, if_pos inside] at place
      exact ⟨inside, Option.some.inj place⟩
    · rw [At, start_globals, if_neg inside] at place
      cases place
  constructor
  · intro key id place
    obtain ⟨inside, rfl⟩ := at_start key id place
    simpa [startHeap] using rank_lt inside
  · intro key other id place other_place
    obtain ⟨inside, here⟩ := at_start key id place
    obtain ⟨-, there⟩ := at_start other id other_place
    exact rank_inj inside (here.trans there.symm)
  · intro key id place
    exact .inl (at_start key id place).1
  · intro c member
    cases member
  · intro key id symbol m _ own
    left
    obtain ⟨prototype, found, has⟩ := Option.bind_eq_some_iff.1 own
    simp only [startHeap, List.getElem?_map, Option.map_eq_some_iff] at found
    obtain ⟨info, -, rfl⟩ := found
    obtain ⟨body, -, rfl⟩ := Option.map_eq_some_iff.1 has
    rfl

/-- A class is made once: its key was not bound. -/
theorem built_make_class {types : List ClassInfo} {done : List CompiledClass} {heap next : Heap M}
    (built : Built types done heap) {c : CompiledClass} {members : List (String × M)}
    (user : c.info.key ∉ builtinTypes.map ClassInfo.key)
    (fresh : ∀ other ∈ done, other.info.key ≠ c.info.key)
    (made : makeClass types heap c.info members = some next) :
    Built types (done ++ [c]) next := by
  obtain ⟨parents, pushed, rfl⟩ := Option.map_eq_some_iff.1 made
  have unbound : ∀ id, ¬ At heap c.info.key id := by
    intro id place
    rcases built.bound _ id place with native | ⟨other, inDone, same⟩
    · exact user native
    · exact fresh other inDone same
  set next : Heap M := ⟨heap.prototypes ++ [⟨parents, memberTable c.info.key members⟩],
    fun key => if key = c.info.key then some heap.prototypes.length else heap.globals key⟩ with next_eq
  have places : ∀ key id, At next key id ↔
      (key = c.info.key ∧ id = heap.prototypes.length) ∨ At heap key id := by
    intro key id
    by_cases own : key = c.info.key
    · subst own
      simp only [At, next_eq, if_true, Option.some.injEq, true_and]
      constructor
      · exact fun same => .inl same.symm
      · rintro (same | place)
        · exact same.symm
        · exact absurd place (unbound id)
    · simp [At, next_eq, own]
  have old : ∀ id < heap.prototypes.length, next.prototypes[id]? = heap.prototypes[id]? := by
    intro id below
    exact List.getElem?_append_left below
  have keep : ∀ {keys : List String} {ids : List Nat}, List.Forall₂ (At heap) keys ids →
      List.Forall₂ (At next) keys ids := fun chain =>
    chain.imp fun key id place => (places key id).2 (.inr place)
  constructor
  · intro key id place
    simp only [next_eq, List.length_append, List.length_singleton]
    rcases (places key id).1 place with ⟨-, rfl⟩ | earlier
    · omega
    · have := built.bounded key id earlier
      omega
  · intro key other id place other_place
    rcases (places key id).1 place with ⟨rfl, rfl⟩ | earlier <;>
      rcases (places other _).1 other_place with ⟨rfl, same⟩ | other_earlier
    · rfl
    · exact absurd (built.bounded _ _ other_earlier) (Nat.lt_irrefl _)
    · exact absurd (same ▸ built.bounded _ _ earlier) (Nat.lt_irrefl _)
    · exact built.injective key other id earlier other_earlier
  · intro key id place
    rcases (places key id).1 place with ⟨rfl, -⟩ | earlier
    · exact .inr ⟨c, by simp, rfl⟩
    · rcases built.bound key id earlier with native | ⟨other, inDone, same⟩
      · exact .inl native
      · exact .inr ⟨other, by simp [inDone], same⟩
  · intro other member
    rcases List.mem_append.1 member with inDone | last
    · obtain ⟨id, prototype, place, found, chain⟩ := built.chains other inDone
      refine ⟨id, prototype, (places _ id).2 (.inr place), ?_, keep chain⟩
      rw [old id (built.bounded _ id place)]
      exact found
    · obtain rfl := List.mem_singleton.1 last
      refine ⟨heap.prototypes.length, ⟨parents, memberTable other.info.key members⟩,
        (places _ _).2 (.inl ⟨rfl, rfl⟩), ?_, keep (forall_of_map_m pushed)⟩
      simp [next_eq]
  · intro key id symbol m place own
    rcases (places key id).1 place with ⟨rfl, rfl⟩ | earlier
    · right
      simp only [Heap.ownAttribute, next_eq, List.getElem?_concat_length, Option.bind_some,
        memberTable] at own
      obtain ⟨body, -, rfl⟩ := Option.map_eq_some_iff.1 own
      rfl
    · rw [Heap.ownAttribute, old id (built.bounded key id earlier)] at own
      exact built.owned key id symbol m earlier own

theorem built_extend {types : List ClassInfo} {done : List CompiledClass} {heap next : Heap M}
    (built : Built types done heap) {key symbol : String} {body : M}
    (extended : extend heap key symbol body = some next) : Built types done next := by
  obtain ⟨changed, -, rfl⟩ := Option.map_eq_some_iff.1 extended
  constructor
  · intro key id place
    simpa using built.bounded key id place
  · exact built.injective
  · exact built.bound
  · intro c member
    obtain ⟨id, prototype, place, found, chain⟩ := built.chains c member
    refine ⟨id, _, place, List.getElem?_modify _ _ _ _ |>.trans (by rw [found]; rfl), ?_⟩
    split <;> exact chain
  · intro key id name m place own
    obtain ⟨prototype, found, has⟩ := Option.bind_eq_some_iff.1 own
    rw [List.getElem?_modify] at found
    obtain ⟨before, was, rfl⟩ := Option.map_eq_some_iff.1 found
    have kept : before.attributes name = some m → m.owner = none ∨ m.owner = some key := by
      intro has
      exact built.owned key id name m place (by simp [Heap.ownAttribute, was, has])
    split at has
    · simp only at has
      split at has
      · left
        rw [← Option.some.inj has]
      · exact kept has
    · exact kept has

theorem built_run {types : List ClassInfo} {steps : List (Step M)} :
    ∀ {done : List CompiledClass} {heap last : Heap M}, Built types done heap →
      ((done ++ steps.filterMap Step.made?).map fun c => c.info.key).Nodup →
      (∀ c ∈ steps.filterMap Step.made?, c.info.key ∉ builtinTypes.map ClassInfo.key) →
      run types steps heap = some last →
        Built types (done ++ steps.filterMap Step.made?) last := by
  induction steps with
  | nil =>
    intro done heap last built _ _ ran
    obtain rfl : heap = last := Option.some.inj ran
    simpa using built
  | cons first rest ih =>
    intro done heap last built distinct user ran
    rw [run] at ran
    obtain ⟨next, stepped, later⟩ := Option.bind_eq_some_iff.1 ran
    cases first with
    | makeClass c members =>
      have split : done ++ (Step.makeClass c members :: rest).filterMap Step.made? =
          done ++ [c] ++ rest.filterMap Step.made? := by
        simp [Step.made?]
      rw [split] at distinct ⊢
      refine ih (built_make_class built (user c (by simp [Step.made?])) ?_ stepped) distinct
        (fun other member => user other (List.mem_cons_of_mem c member)) later
      intro other inDone same
      rw [List.map_append, List.map_append] at distinct
      have first := (List.nodup_append.1 distinct).1
      exact (List.nodup_append.1 first).2.2 _ (List.mem_map_of_mem inDone) _ (by simp) same
    | extension key symbol body =>
      exact ih (built_extend built stepped) distinct user later

end Heaps

/-! ## The search -/

section Search

variable {M : Type} {heap : Heap M}

/-- The search for the owner among addresses is the search for its key. -/
theorem drop_until {keys : List String} {ids : List Nat}
    (injective : ∀ key other id, At heap key id → At heap other id → key = other)
    (chain : List.Forall₂ (At heap) keys ids) (owner : String) :
    List.Forall₂ (At heap) (keys.dropWhile (· ≠ owner))
      (ids.dropWhile fun id => heap.globals owner ≠ some id) := by
  induction chain with
  | nil => exact .nil
  | @cons key id keys ids place rest ih =>
    by_cases same : key = owner
    · subst same
      have here : heap.globals key = some id := place
      simpa [List.dropWhile, here] using List.Forall₂.cons place rest
    · have other : heap.globals owner ≠ some id := fun there =>
        same (injective key owner id place there)
      simpa [List.dropWhile, same, other] using ih

theorem find_definition {keys : List String} {ids : List Nat}
    (chain : List.Forall₂ (At heap) keys ids) (symbol : String) :
    ids.findSome? (heap.ownAttribute symbol) = firstDefinition heap symbol keys := by
  induction chain with
  | nil => rfl
  | @cons key id keys ids place rest ih =>
    have same : definition heap symbol key = heap.ownAttribute symbol id := by
      rw [definition, place, Option.bind_some]
    rw [firstDefinition, List.findSome?_cons, List.findSome?_cons, same, ih]
    rfl

theorem drop_while_ne {keys before after : List String} {owner : String}
    (split : keys = before ++ owner :: after) (distinct : keys.Nodup) :
    keys.dropWhile (· ≠ owner) = owner :: after := by
  subst split
  have absent : ∀ key ∈ before, key ≠ owner := by
    rintro key member rfl
    exact (List.nodup_append.1 distinct).2.2 key member key (by simp) rfl
  rw [List.dropWhile_append_of_pos (by simpa using absent)]
  simp [List.dropWhile]

/-- The definition that a super call selects. -/
theorem super_send {keys : List String} {ids : List Nat} {before after : List String}
    {key : String} (split : keys = before ++ key :: after) (distinct : keys.Nodup)
    (injective : ∀ key other id, At heap key id → At heap other id → key = other)
    (chain : List.Forall₂ (At heap) keys ids) (typeName symbol : String) (exact_owner : Bool) :
    (superSend heap typeName ids ⟨symbol, key, exact_owner⟩).toOption =
      firstDefinition heap symbol (if exact_owner then key :: after else after) := by
  have found := drop_until injective chain key
  rw [drop_while_ne split distinct] at found
  unfold superSend
  split
  · rename_i none_left
    rw [none_left] at found
    cases found
  · rename_i owner rest left
    rw [left] at found
    have searched : (if exact_owner then owner :: rest else rest).findSome?
        (heap.ownAttribute symbol) =
          firstDefinition heap symbol (if exact_owner then key :: after else after) := by
      cases exact_owner with
      | true => exact find_definition found symbol
      | false =>
        cases found with
        | cons _ tail => exact find_definition tail symbol
    simp only [searched]
    cases firstDefinition heap symbol (if exact_owner then key :: after else after) <;> rfl

/-- The first definition among the keys, with what stands before and after it. -/
theorem first_definition_some {symbol : String} {keys : List String} {m : Member M}
    (first : firstDefinition heap symbol keys = some m) :
    ∃ before key after, keys = before ++ key :: after ∧ definition heap symbol key = some m ∧
      definitions heap symbol keys = m :: definitions heap symbol after := by
  obtain ⟨before, key, after, split, found, none_before⟩ := List.findSome?_eq_some_iff.1 first
  refine ⟨before, key, after, split, found, ?_⟩
  have nothing : before.filterMap (definition heap symbol) = [] := by
    rw [List.filterMap_eq_nil_iff]
    exact none_before
  rw [definitions, split, List.filterMap_append, nothing, List.filterMap_cons_some found]
  rfl

theorem definitions_nil {symbol : String} {keys : List String}
    (none_found : firstDefinition heap symbol keys = none) : definitions heap symbol keys = [] := by
  rw [definitions, List.filterMap_eq_nil_iff]
  exact List.findSome?_eq_none_iff.1 none_found

/-- From a definition on, the calls run through the later definitions up to a native. -/
theorem super_calls_from {keys : List String} {ids : List Nat} (distinct : keys.Nodup)
    (injective : ∀ key other id, At heap key id → At heap other id → key = other)
    (owned : ∀ key symbol m, definition heap symbol key = some m →
      m.owner = none ∨ m.owner = some key)
    (chain : List.Forall₂ (At heap) keys ids) (typeName symbol : String) :
    ∀ (depth : Nat) (before : List String) (key : String) (after : List String) (m : Member M),
      keys = before ++ key :: after → definition heap symbol key = some m →
        after.length ≤ depth →
          superCalls heap typeName ids symbol depth m =
            untilNative (m :: definitions heap symbol after) := by
  intro depth
  induction depth with
  | zero =>
    intro before key after m _ _ short
    rw [List.length_eq_zero_iff.1 (Nat.le_zero.1 short)]
    simp [superCalls, untilNative, definitions]
  | succ depth ih =>
    intro before key after m split found short
    rw [superCalls, untilNative]
    rcases owned key symbol m found with native | own
    · simp [native]
    · have selected := super_send split distinct injective chain typeName symbol false
      simp only [own, Option.isSome_some, if_true, Bool.false_eq_true, if_false] at selected ⊢
      congr 1
      cases next : firstDefinition heap symbol after with
      | none =>
        rw [definitions_nil next]
        cases sent : superSend heap typeName ids ⟨symbol, key, false⟩ with
        | error text => rfl
        | ok other => simp [sent, next, Except.toOption] at selected
      | some other =>
        obtain ⟨skipped, later, rest, split', found', all⟩ := first_definition_some next
        cases sent : superSend heap typeName ids ⟨symbol, key, false⟩ with
        | error text => simp [sent, next, Except.toOption] at selected
        | ok selected_member =>
          obtain rfl : selected_member = other := by
            simpa [sent, next, Except.toOption] using selected
          rw [all]
          refine ih (before ++ key :: skipped) later rest selected_member ?_ found' ?_
          · rw [split, split']
            simp
          · have := congrArg List.length split'
            simp only [List.length_append, List.length_cons] at this
            omega

theorem until_native_sublist (members : List (Member M)) :
    (untilNative members).Sublist members := by
  induction members with
  | nil => exact .slnil
  | cons m rest ih =>
    rw [untilNative]
    refine List.Sublist.cons_cons m ?_
    split
    · exact ih
    · exact List.nil_sublist rest

theorem owners_sublist {keys : List String} (symbol : String)
    (owned : ∀ key symbol m, definition heap symbol key = some m →
      m.owner = none ∨ m.owner = some key) :
    ((definitions heap symbol keys).filterMap Member.owner).Sublist keys := by
  induction keys with
  | nil => exact .slnil
  | cons key keys ih =>
    rw [definitions]
    cases found : definition heap symbol key with
    | none =>
      rw [List.filterMap_cons_none found]
      exact ih.cons key
    | some m =>
      rw [List.filterMap_cons_some found]
      rcases owned key symbol m found with native | own
      · rw [List.filterMap_cons_none native]
        exact ih.cons key
      · rw [List.filterMap_cons_some own]
        exact ih.cons_cons key

theorem follows_of_chain {keys : List String} {ids : List Nat} (distinct : keys.Nodup)
    (injective : ∀ key other id, At heap key id → At heap other id → key = other)
    (owned : ∀ key symbol m, definition heap symbol key = some m →
      m.owner = none ∨ m.owner = some key)
    (chain : List.Forall₂ (At heap) keys ids) : FollowsLinearization heap keys ids := by
  have stack : ∀ symbol typeName first, firstDefinition heap symbol keys = some first →
      superCalls heap typeName ids symbol keys.length first =
        untilNative (definitions heap symbol keys) := by
    intro symbol typeName first chosen
    obtain ⟨before, key, after, split, found, all⟩ := first_definition_some chosen
    rw [all]
    refine super_calls_from distinct injective owned chain typeName symbol keys.length before key
      after first split found ?_
    rw [split]
    simp only [List.length_append, List.length_cons]
    omega
  constructor
  · intro symbol typeName key before after split
    exact super_send split distinct injective chain typeName symbol false
  · intro symbol typeName key before after split
    exact super_send split distinct injective chain typeName symbol true
  · exact stack
  · intro symbol typeName first chosen
    rw [stack symbol typeName first chosen]
    exact distinct.sublist (((until_native_sublist _).filterMap Member.owner).trans
      (owners_sublist symbol owned))

end Search

/-! ## The chains of classes -/

theorem insert_product_nodup {chain : List String} (distinct : chain.Nodup)
    (absent : kProductKey ∉ chain) : (insertProduct chain).Nodup := by
  have whole := List.takeWhile_append_dropWhile (p := fun key => decide (key ≠ kAnyRefKey))
    (l := chain)
  have shuffled : (insertProduct chain).Perm (kProductKey :: chain) := by
    refine List.perm_middle.trans ?_
    rw [whole]
  rw [shuffled.nodup_iff, List.nodup_cons]
  exact ⟨absent, distinct⟩

theorem searched_nodup {types : List ClassInfo} {info : ClassInfo}
    (distinct : info.linearization.Nodup) : (searched types info).Nodup := by
  unfold searched
  split
  · rename_i inserted
    refine insert_product_nodup distinct ?_
    simp only [Bool.and_eq_true, Bool.not_eq_true', List.contains_eq_mem,
      decide_eq_false_iff_not] at inserted
    exact inserted.2
  · exact distinct

theorem cons_runtime_chain {types : List ClassInfo} {info : ClassInfo}
    (headed : info.linearization = info.key :: info.linearization.tail)
    (user : info.key ∉ builtinTypes.map ClassInfo.key) :
    info.key :: runtimeChain types info = searched types info := by
  have not_any_ref : info.key ≠ kAnyRefKey := by
    intro same
    exact user (same ▸ by decide)
  have not_product : kProductKey ≠ info.key := by
    intro same
    exact user (same ▸ by decide)
  have contains_same : info.linearization.contains kProductKey =
      info.linearization.tail.contains kProductKey := by
    rw [headed]
    simp [not_product]
  simp only [runtimeChain, searched, contains_same]
  split
  · rw [headed]
    simp [insertProduct, not_any_ref]
  · exact headed.symm

theorem compile_unit_keys {s next : Session} {unit : List TemplateDef}
    (ok : compileUnit s unit = .ok next) :
    next.classes.map (fun c => c.template.key) =
      s.classes.map (fun c => c.template.key) ++ unit.map TemplateDef.key := by
  unfold compileUnit at ok
  cases described : describeAll unit s.types with
  | error message => simp [described] at ok
  | ok types =>
    simp only [described] at ok
    cases compiled : compileAll types unit with
    | error message => simp [compiled, Except.map] at ok
    | ok classes =>
      simp only [compiled, Except.map, Except.ok.injEq] at ok
      subst ok
      rw [← (compile_all_ok compiled).1, List.map_append, List.map_map]
      rfl

theorem run_units_keys {units : List (List TemplateDef)} :
    ∀ {s last : Session}, runUnits units s = .ok last →
      last.classes.map (fun c => c.template.key) =
        s.classes.map (fun c => c.template.key) ++ keysOf units := by
  induction units with
  | nil =>
    intro s last ok
    cases ok
    simp [keysOf]
  | cons unit rest ih =>
    intro s last ok
    rw [runUnits] at ok
    cases compiled : compileUnit s unit with
    | error message => simp [compiled] at ok
    | ok next =>
      simp only [compiled] at ok
      rw [ih ok, compile_unit_keys compiled]
      simp [keysOf]

/-- In every session whose types have different keys: when its classes have been made, in
order and with extension methods set in between, super calls of an instance of any class
follow the linearization of that class. Where the class is or inherits a case class, the
natives of case classes stand before `AnyRef` in it. -/
theorem super_follows_linearization {M : Type} (units : List (List TemplateDef)) (s : Session)
    (ran : runUnits units start = .ok s)
    (distinct : (builtinTypes.map ClassInfo.key ++ keysOf units).Nodup)
    (natives : String → String → Option M) (steps : List (Step M)) (heap : Heap M)
    (order : steps.filterMap Step.made? = s.classes)
    (executed : run s.types steps (startHeap natives) = some heap) :
    ∀ c ∈ s.classes, ∃ chain, instanceChain heap c.info.key = some chain ∧
      FollowsLinearization heap (searched s.types c.info) chain := by
  have sound : Sound s := sound_run sound_start ran distinct
  have user : ∀ c ∈ s.classes, c.info.key ∉ builtinTypes.map ClassInfo.key := by
    intro c member native
    have keyed : c.template.key ∈ keysOf units := by
      have all := run_units_keys ran
      simp only [start, List.map_nil, List.nil_append] at all
      rw [← all]
      exact List.mem_map_of_mem member
    rw [(sound.recorded c member).placed.key_eq] at native
    exact (List.nodup_append.1 distinct).2.2 _ native _ keyed rfl
  have built := built_run (built_start s.types natives) (by simpa [order] using sound.distinct)
    (by simpa [order] using user) executed
  rw [order, List.nil_append] at built
  intro c member
  obtain ⟨id, prototype, place, found, chain⟩ := built.chains c member
  refine ⟨id :: prototype.parents, ?_, ?_⟩
  · have here : heap.globals c.info.key = some id := place
    simp [instanceChain, here, found]
  · have inTypes := (sound.recorded c member).described
    have full : List.Forall₂ (At heap) (searched s.types c.info) (id :: prototype.parents) := by
      rw [← cons_runtime_chain (sound.linked.headed c.info inTypes) (user c member)]
      exact .cons place chain
    refine follows_of_chain (searched_nodup (sound.linked.nodup c.info inTypes)) built.injective
      ?_ full
    intro key symbol m defined
    obtain ⟨id', place', own⟩ := Option.bind_eq_some_iff.1 defined
    exact built.owned key id' symbol m place' own

/-- `trait T { def m }`, `trait U extends T { override def m }` and
`case class C extends T with U { override def toString = super.toString }`. -/
def stacked : List (List TemplateDef) :=
  [[{ name := "T", key := "@T", kind := .trait_ },
    { name := "U", key := "@U", kind := .trait_, parents := [{ type := "@T" }] },
    { name := "C", key := "@C", isCase := true,
      parents := [{ type := "@T" }, { type := "@U" }] }]]

def stackedSession : Session :=
  (runUnits stacked start).toOption.getD start

/-- The members as texts; natives are `toString` of `Product` and of `AnyRef`. -/
def stackedNatives (key symbol : String) : Option String :=
  if symbol = "toString" ∧ (key = kProductKey ∨ key = kAnyRefKey) then some key else none

def stackedMembers (key : String) : List (String × String) :=
  if key = "@C" then [("toString", "C.toString")] else [("m", key)]

def stackedSteps : List (Step String) :=
  stackedSession.classes.map fun c => .makeClass c (stackedMembers c.info.key)

def stackedHeap : Option (Heap String) :=
  run stackedSession.types stackedSteps (startHeap stackedNatives)

theorem stacked_follows :
    ∃ heap, stackedHeap = some heap ∧ ∀ c ∈ stackedSession.classes, ∃ chain,
      instanceChain heap c.info.key = some chain ∧
        FollowsLinearization heap (searched stackedSession.types c.info) chain := by
  have ran : runUnits stacked start = .ok stackedSession := by rfl
  have made : stackedHeap.isSome = true := by rfl
  obtain ⟨heap, executed⟩ := Option.isSome_iff_exists.1 made
  refine ⟨heap, executed, super_follows_linearization stacked stackedSession ran (by decide)
    stackedNatives stackedSteps heap ?_ executed⟩
  rw [stackedSteps, List.filterMap_map]
  exact List.filterMap_some

/-- A super call in a case class selects a native of `Product`, which is not in the
linearization of the class. -/
theorem case_class_natives :
    ∃ heap c chain, stackedHeap = some heap ∧ stackedSession.classes[2]? = some c ∧
      instanceChain heap c.info.key = some chain ∧
      c.info.linearization = ["@C", "@U", "@T", "@AnyRef", "@Any"] ∧
      (superSend heap "C" chain ⟨"toString", "@C", false⟩).toOption = some ⟨none, "@Product"⟩ ∧
      firstDefinition heap "toString" ["@U", "@T", "@AnyRef", "@Any"] = some ⟨none, "@AnyRef"⟩ ∧
      ¬ FollowsLinearization heap c.info.linearization chain := by
  have facts : (stackedHeap.bind fun heap => stackedSession.classes[2]?.bind fun c =>
      (instanceChain heap c.info.key).map fun chain =>
        decide (c.info.linearization = ["@C", "@U", "@T", "@AnyRef", "@Any"] ∧
          (superSend heap "C" chain ⟨"toString", "@C", false⟩).toOption =
            some ⟨none, "@Product"⟩ ∧
          firstDefinition heap "toString" ["@U", "@T", "@AnyRef", "@Any"] =
            some ⟨none, "@AnyRef"⟩)) = some true := by
    rfl
  obtain ⟨heap, executed, facts⟩ := Option.bind_eq_some_iff.1 facts
  obtain ⟨c, third, facts⟩ := Option.bind_eq_some_iff.1 facts
  obtain ⟨chain, parents, facts⟩ := Option.map_eq_some_iff.1 facts
  obtain ⟨lin, selected, first⟩ := of_decide_eq_true facts
  refine ⟨heap, c, chain, executed, third, parents, lin, selected, first, fun follows => ?_⟩
  have same := follows.after "toString" "C" "@C" [] _ lin
  rw [selected, first] at same
  exact absurd same (by decide)

end ProtoScala.Runtime.SuperDispatch
