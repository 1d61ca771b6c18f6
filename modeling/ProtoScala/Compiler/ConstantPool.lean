import Mathlib
import ProtoScala.Library.Interning

/-!
# The constant pool of a bytecode module

Ten tables index one vector of constants, each by a key of its own shape. Four
of the keys are strings joined from several fields, so the pool is faithful
exactly to the call sequences on which those strings tell the requests apart.
-/

namespace ProtoScala.Compiler.ConstantPool

open ProtoScala.Library.Interning

set_option autoImplicit false

inductive ConstKind where
  | int | bigInt | double | string | char | symbol | sendSite
  | names | classSpec | superSite | kwSendSite
  deriving DecidableEq, Repr

/-- One constant, without the interned symbols that linking adds to it. A double
is its bit pattern. -/
structure Const where
  kind : ConstKind
  ival : Int64 := 0
  dval : UInt64 := 0
  sval : String := ""
  base : Int := 10
  argc : UInt32 := 0
  names : List String := []
  fields : List String := []
  key : String := ""
  flags : UInt32 := 0
  exact : Bool := false
  deriving DecidableEq

structure ClassSpecData where
  displayName : String
  key : String
  parentCount : UInt32 := 0
  memberKeys : List String
  fields : List String
  flags : UInt32 := 0
  deriving DecidableEq

/-- The constants and the tables that find them again. -/
structure BytecodeModule where
  consts : List Const := []
  intIndex : List (Int64 × Nat) := []
  bigIntIndex : List (String × Nat) := []
  doubleIndex : List (UInt64 × Nat) := []
  stringIndex : List (String × Nat) := []
  charIndex : List (Int64 × Nat) := []
  symbolIndex : List (String × Nat) := []
  sendIndex : List (String × Nat) := []
  namesIndex : List (String × Nat) := []
  superIndex : List (String × Nat) := []
  kwIndex : List (String × Nat) := []

/-- `try_emplace` of the next index under `key`; the constant is appended when
the key is new. -/
def findOrAdd {Key : Type} [BEq Key] (index : List (Key × Nat)) (key : Key)
    (consts : List Const) (c : Const) : Nat × List (Key × Nat) × List Const :=
  match index.lookup key with
  | some found => (found, index, consts)
  | none => (consts.length, (key, consts.length) :: index, consts ++ [c])

/-- The names with a comma before each one that does not come first: the comma
is left out while the text is still empty. -/
def joined (v : List String) : String :=
  v.foldl (fun out s => out ++ ((if out.isEmpty then "" else ",") ++ s)) ""

def bigIntKey (digits : String) (base : Int) : String :=
  toString base ++ ":" ++ digits

def sendKey (name : String) (argc : UInt32) (fallback : String) : String :=
  name ++ "/" ++ toString argc.toNat ++ "/" ++ fallback

def superKey (name : String) (argc : UInt32) (ownerKey : String) (exact : Bool) : String :=
  ownerKey ++ "/" ++ name ++ "/" ++ toString argc.toNat ++ (if exact then "/x" else "")

def kwKey (name : String) (positional : UInt32) (keywords : List String) (fallback : String) :
    String :=
  name ++ "/" ++ toString positional.toNat ++ "/" ++ joined keywords ++ "/" ++ fallback

def charValue (c : UInt32) : Int64 := Int64.ofNat c.toNat

def addInt (v : Int64) (m : BytecodeModule) : Nat × BytecodeModule :=
  let (place, index, consts) :=
    findOrAdd m.intIndex v m.consts { kind := .int, ival := v }
  (place, { m with intIndex := index, consts := consts })

def addBigInt (digits : String) (base : Int) (m : BytecodeModule) : Nat × BytecodeModule :=
  let (place, index, consts) :=
    findOrAdd m.bigIntIndex (bigIntKey digits base) m.consts
      { kind := .bigInt, sval := digits, base := base }
  (place, { m with bigIntIndex := index, consts := consts })

def addDouble (bits : UInt64) (m : BytecodeModule) : Nat × BytecodeModule :=
  let (place, index, consts) :=
    findOrAdd m.doubleIndex bits m.consts { kind := .double, dval := bits }
  (place, { m with doubleIndex := index, consts := consts })

def addString (s : String) (m : BytecodeModule) : Nat × BytecodeModule :=
  let (place, index, consts) :=
    findOrAdd m.stringIndex s m.consts { kind := .string, sval := s }
  (place, { m with stringIndex := index, consts := consts })

def addChar (c : UInt32) (m : BytecodeModule) : Nat × BytecodeModule :=
  let (place, index, consts) :=
    findOrAdd m.charIndex (charValue c) m.consts { kind := .char, ival := charValue c }
  (place, { m with charIndex := index, consts := consts })

def addSymbol (name : String) (m : BytecodeModule) : Nat × BytecodeModule :=
  let (place, index, consts) :=
    findOrAdd m.symbolIndex name m.consts { kind := .symbol, sval := name }
  (place, { m with symbolIndex := index, consts := consts })

def addSendSite (name : String) (argc : UInt32) (fallback : String) (m : BytecodeModule) :
    Nat × BytecodeModule :=
  let (place, index, consts) :=
    findOrAdd m.sendIndex (sendKey name argc fallback) m.consts
      { kind := .sendSite, sval := name, argc := argc, key := fallback }
  (place, { m with sendIndex := index, consts := consts })

def addNames (names : List String) (m : BytecodeModule) : Nat × BytecodeModule :=
  let (place, index, consts) :=
    findOrAdd m.namesIndex (joined names) m.consts { kind := .names, names := names }
  (place, { m with namesIndex := index, consts := consts })

/-- A class specification is appended without a lookup. -/
def addClassSpec (spec : ClassSpecData) (m : BytecodeModule) : Nat × BytecodeModule :=
  let c : Const :=
    { kind := .classSpec, sval := spec.displayName, argc := spec.parentCount,
      names := spec.memberKeys, fields := spec.fields, key := spec.key, flags := spec.flags }
  (m.consts.length, { m with consts := m.consts ++ [c] })

def addSuperSite (name : String) (argc : UInt32) (ownerKey : String) (exact : Bool)
    (m : BytecodeModule) : Nat × BytecodeModule :=
  let (place, index, consts) :=
    findOrAdd m.superIndex (superKey name argc ownerKey exact) m.consts
      { kind := .superSite, sval := name, argc := argc, key := ownerKey, exact := exact }
  (place, { m with superIndex := index, consts := consts })

def addKwSendSite (name : String) (positional : UInt32) (keywords : List String)
    (fallback : String) (m : BytecodeModule) : Nat × BytecodeModule :=
  let (place, index, consts) :=
    findOrAdd m.kwIndex (kwKey name positional keywords fallback) m.consts
      { kind := .kwSendSite, sval := name, argc := positional, names := keywords, key := fallback }
  (place, { m with kwIndex := index, consts := consts })

/-- One call of an `add` function with its arguments. -/
inductive Call where
  | int (v : Int64)
  | bigInt (digits : String) (base : Int)
  | double (bits : UInt64)
  | string (s : String)
  | char (c : UInt32)
  | symbol (name : String)
  | sendSite (name : String) (argc : UInt32) (fallback : String)
  | names (list : List String)
  | classSpec (spec : ClassSpecData)
  | superSite (name : String) (argc : UInt32) (ownerKey : String) (exact : Bool)
  | kwSendSite (name : String) (positional : UInt32) (keywords : List String) (fallback : String)
  deriving DecidableEq

def add : Call → BytecodeModule → Nat × BytecodeModule
  | .int v => addInt v
  | .bigInt digits base => addBigInt digits base
  | .double bits => addDouble bits
  | .string s => addString s
  | .char c => addChar c
  | .symbol name => addSymbol name
  | .sendSite name argc fallback => addSendSite name argc fallback
  | .names list => addNames list
  | .classSpec spec => addClassSpec spec
  | .superSite name argc ownerKey exact => addSuperSite name argc ownerKey exact
  | .kwSendSite name positional keywords fallback => addKwSendSite name positional keywords fallback

def addAll (m : BytecodeModule) (calls : List Call) : BytecodeModule :=
  calls.foldl (fun m call => (add call m).2) m

/-- The constant a call asks for. -/
def Call.requested : Call → Const
  | .int v => { kind := .int, ival := v }
  | .bigInt digits base => { kind := .bigInt, sval := digits, base := base }
  | .double bits => { kind := .double, dval := bits }
  | .string s => { kind := .string, sval := s }
  | .char c => { kind := .char, ival := charValue c }
  | .symbol name => { kind := .symbol, sval := name }
  | .sendSite name argc fallback =>
      { kind := .sendSite, sval := name, argc := argc, key := fallback }
  | .names list => { kind := .names, names := list }
  | .classSpec spec =>
      { kind := .classSpec, sval := spec.displayName, argc := spec.parentCount,
        names := spec.memberKeys, fields := spec.fields, key := spec.key, flags := spec.flags }
  | .superSite name argc ownerKey exact =>
      { kind := .superSite, sval := name, argc := argc, key := ownerKey, exact := exact }
  | .kwSendSite name positional keywords fallback =>
      { kind := .kwSendSite, sval := name, argc := positional, names := keywords, key := fallback }

/-- The index the call answers after the calls in `before`. -/
def answered (before : List Call) (call : Call) : Nat :=
  (add call (addAll {} before)).1

/-- Every call finds the constant it asked for at the index it was answered,
from that moment on, and calls that are answered one index asked for equal
constants. -/
structure Faithful (calls : List Call) : Prop where
  kept : ∀ before call after, calls = before ++ call :: after → ∀ later, later <+: after →
    (addAll {} (before ++ call :: later)).consts[answered before call]? = some call.requested
  shared : ∀ before call after before' call' after',
    calls = before ++ call :: after → calls = before' ++ call' :: after' →
    answered before call = answered before' call' → call.requested = call'.requested

/-- The key strings made by joining several fields. -/
def Call.joinedKey : Call → Option (ConstKind × String)
  | .sendSite name argc fallback => some (.sendSite, sendKey name argc fallback)
  | .names list => some (.names, joined list)
  | .superSite name argc ownerKey exact => some (.superSite, superKey name argc ownerKey exact)
  | .kwSendSite name positional keywords fallback =>
      some (.kwSendSite, kwKey name positional keywords fallback)
  | _ => none

/-- Two calls of one kind join different requests to one key string. -/
def Call.collides (first second : Call) : Prop :=
  first.joinedKey ≠ none ∧ first.joinedKey = second.joinedKey ∧
    first.requested ≠ second.requested

instance (first second : Call) : Decidable (first.collides second) :=
  inferInstanceAs (Decidable (_ ∧ _ ∧ _))

/-- The tables as one: which table, and the key within it. -/
inductive PoolKey where
  | int (v : Int64)
  | bigInt (key : String)
  | double (bits : UInt64)
  | string (s : String)
  | char (v : Int64)
  | symbol (name : String)
  | send (key : String)
  | names (key : String)
  | super (key : String)
  | kw (key : String)
  deriving DecidableEq

def Call.poolKey : Call → Option PoolKey
  | .int v => some (.int v)
  | .bigInt digits base => some (.bigInt (bigIntKey digits base))
  | .double bits => some (.double bits)
  | .string s => some (.string s)
  | .char c => some (.char (charValue c))
  | .symbol name => some (.symbol name)
  | .sendSite name argc fallback => some (.send (sendKey name argc fallback))
  | .names list => some (.names (joined list))
  | .classSpec _ => none
  | .superSite name argc ownerKey exact => some (.super (superKey name argc ownerKey exact))
  | .kwSendSite name positional keywords fallback =>
      some (.kw (kwKey name positional keywords fallback))

def Call.request (call : Call) : Request PoolKey Const := ⟨call.poolKey, call.requested⟩

def indexOf (m : BytecodeModule) : PoolKey → Option Nat
  | .int v => m.intIndex.lookup v
  | .bigInt key => m.bigIntIndex.lookup key
  | .double bits => m.doubleIndex.lookup bits
  | .string s => m.stringIndex.lookup s
  | .char v => m.charIndex.lookup v
  | .symbol name => m.symbolIndex.lookup name
  | .send key => m.sendIndex.lookup key
  | .names key => m.namesIndex.lookup key
  | .super key => m.superIndex.lookup key
  | .kw key => m.kwIndex.lookup key

def pool (m : BytecodeModule) : Pool PoolKey Const := ⟨m.consts, indexOf m⟩

theorem lookup_emplaced {Key : Type} [BEq Key] [LawfulBEq Key] [DecidableEq Key]
    (index : List (Key × Nat)) (key other : Key) (place : Nat) :
    ((key, place) :: index).lookup other = if other = key then some place else index.lookup other := by
  by_cases same : other = key
  · simp [same]
  · have different : (other == key) = false := by simpa using same
    simp [List.lookup_cons, different, same]

/-- A table of the module seen as part of the pool: `tag` names its keys and
`put` replaces it together with the constants. -/
structure Table (m : BytecodeModule) (Key : Type) [DecidableEq Key] where
  index : List (Key × Nat)
  tag : Key → PoolKey
  put : List (Key × Nat) → List Const → BytecodeModule
  injective : ∀ key other, tag key = tag other → key = other := by simp
  unchanged : put index m.consts = m := by rfl
  consts : ∀ index consts, (put index consts).consts = consts := by simp
  own : ∀ index consts key, indexOf (put index consts) (tag key) = index.lookup key := by
    simp [indexOf]
  others : ∀ index consts other, (∀ key, other ≠ tag key) →
      indexOf (put index consts) other = indexOf m other := by
    intro index consts other apart
    cases other <;> simp_all [indexOf]

theorem find_or_add_simulates {m : BytecodeModule} {Key : Type} [DecidableEq Key]
    (table : Table m Key) (key : Key) (c : Const) :
    ((findOrAdd table.index key m.consts c).1,
        pool (table.put (findOrAdd table.index key m.consts c).2.1
          (findOrAdd table.index key m.consts c).2.2)) =
      (pool m).findOrAdd (table.tag key) c := by
  have looked : (pool m).index (table.tag key) = table.index.lookup key := by
    have own := table.own table.index m.consts key
    rw [table.unchanged] at own
    exact own
  unfold Pool.findOrAdd findOrAdd
  rw [looked]
  cases table.index.lookup key with
  | some found => simp [table.unchanged]
  | none =>
      simp only [pool, table.consts, Prod.mk.injEq, Pool.mk.injEq, true_and]
      funext other
      by_cases tagged : ∃ k, other = table.tag k
      · obtain ⟨k, rfl⟩ := tagged
        rw [table.own, lookup_emplaced]
        by_cases same : k = key
        · simp [same]
        · have apart : table.tag k ≠ table.tag key := fun equal => same (table.injective _ _ equal)
          have own := table.own table.index m.consts k
          rw [table.unchanged] at own
          rw [Function.update_of_ne apart, own, if_neg same]
      · have untagged : ∀ k, other ≠ table.tag k := fun k equal => tagged ⟨k, equal⟩
        rw [table.others _ _ _ untagged, Function.update_of_ne (untagged key)]

theorem add_simulates (call : Call) (m : BytecodeModule) :
    ((add call m).1, pool (add call m).2) = (pool m).answer call.request := by
  cases call with
  | int v =>
      exact find_or_add_simulates
        { index := m.intIndex, tag := .int, put := fun index consts =>
            { m with intIndex := index, consts := consts } } v _
  | bigInt digits base =>
      exact find_or_add_simulates
        { index := m.bigIntIndex, tag := .bigInt, put := fun index consts =>
            { m with bigIntIndex := index, consts := consts } } (bigIntKey digits base) _
  | double bits =>
      exact find_or_add_simulates
        { index := m.doubleIndex, tag := .double, put := fun index consts =>
            { m with doubleIndex := index, consts := consts } } bits _
  | string s =>
      exact find_or_add_simulates
        { index := m.stringIndex, tag := .string, put := fun index consts =>
            { m with stringIndex := index, consts := consts } } s _
  | char c =>
      exact find_or_add_simulates
        { index := m.charIndex, tag := .char, put := fun index consts =>
            { m with charIndex := index, consts := consts } } (charValue c) _
  | symbol name =>
      exact find_or_add_simulates
        { index := m.symbolIndex, tag := .symbol, put := fun index consts =>
            { m with symbolIndex := index, consts := consts } } name _
  | sendSite name argc fallback =>
      exact find_or_add_simulates
        { index := m.sendIndex, tag := .send, put := fun index consts =>
            { m with sendIndex := index, consts := consts } } (sendKey name argc fallback) _
  | names list =>
      exact find_or_add_simulates
        { index := m.namesIndex, tag := .names, put := fun index consts =>
            { m with namesIndex := index, consts := consts } } (joined list) _
  | classSpec spec => rfl
  | superSite name argc ownerKey exact =>
      exact find_or_add_simulates
        { index := m.superIndex, tag := .super, put := fun index consts =>
            { m with superIndex := index, consts := consts } } (superKey name argc ownerKey exact) _
  | kwSendSite name positional keywords fallback =>
      exact find_or_add_simulates
        { index := m.kwIndex, tag := .kw, put := fun index consts =>
            { m with kwIndex := index, consts := consts } } (kwKey name positional keywords fallback) _

theorem pool_add_all (m : BytecodeModule) (calls : List Call) :
    pool (addAll m calls) = (pool m).run (calls.map Call.request) := by
  induction calls generalizing m with
  | nil => rfl
  | cons call calls induction =>
      have stepped := congrArg Prod.snd (add_simulates call m)
      rw [List.map_cons, run_cons, ← stepped]
      exact induction (add call m).2

theorem pool_start : pool {} = Pool.empty := by
  unfold pool Pool.empty
  congr 1
  funext key
  cases key <;> rfl

theorem answered_eq (before : List Call) (call : Call) :
    answered before call =
      ((Pool.empty.run (before.map Call.request)).answer call.request).1 := by
  rw [← pool_start, ← pool_add_all, ← add_simulates]
  rfl

theorem consts_add_all (calls : List Call) :
    (addAll {} calls).consts = (Pool.empty.run (calls.map Call.request)).entries := by
  rw [← pool_start, ← pool_add_all]
  rfl

section Keys

/-- What stands before the first separator, and what stands after it. -/
theorem split_at_separator {c : Char} {left right rest rest' : List Char}
    (leftFree : c ∉ left) (rightFree : c ∉ right)
    (equal : left ++ c :: rest = right ++ c :: rest') : left = right ∧ rest = rest' := by
  induction left generalizing right with
  | nil =>
      cases right with
      | nil => simpa using equal
      | cons d right =>
          simp only [List.nil_append, List.cons_append, List.cons.injEq] at equal
          exact absurd (equal.1 ▸ List.mem_cons_self) rightFree
  | cons d left induction =>
      cases right with
      | nil =>
          simp only [List.nil_append, List.cons_append, List.cons.injEq] at equal
          exact absurd (equal.1 ▸ List.mem_cons_self) leftFree
      | cons e right =>
          simp only [List.cons_append, List.cons.injEq] at equal
          simp only [List.mem_cons, not_or] at leftFree rightFree
          obtain ⟨same, rest⟩ := induction leftFree.2 rightFree.2 equal.2
          exact ⟨by rw [equal.1, same], rest⟩

theorem separator_not_mem_nat {c : Char} (separator : c.isDigit = false) (n : Nat) :
    c ∉ (toString n).toList := by
  intro member
  rw [Nat.toString_eq_repr, Nat.toList_repr] at member
  rw [Nat.isDigit_of_mem_toDigits (by decide) (by decide) member] at separator
  cases separator

theorem colon_not_mem_int (n : Int) : ':' ∉ (toString n).toList := by
  cases n with
  | ofNat n => exact separator_not_mem_nat (by decide) n
  | negSucc n =>
      have digits := separator_not_mem_nat (c := ':') (by decide) n.succ
      have shown : (toString (Int.negSucc n)).toList = '-' :: (toString n.succ).toList := by
        change ("-" ++ Nat.repr n.succ).toList = _
        simp
      rw [shown]
      simpa using digits

theorem big_int_key_injective {digits digits' : String} {base base' : Int}
    (equal : bigIntKey digits base = bigIntKey digits' base') : digits = digits' ∧ base = base' := by
  have chars := congrArg String.toList equal
  simp only [bigIntKey, String.toList_append, List.append_assoc] at chars
  obtain ⟨bases, rest⟩ := split_at_separator (colon_not_mem_int base) (colon_not_mem_int base') chars
  exact ⟨String.toList_inj.mp rest, Int.repr_injective (String.toList_inj.mp bases)⟩

/-- Calls under one key ask for one constant, unless their joined keys coincide. -/
theorem requested_eq_of_key {first second : Call} {key : PoolKey}
    (firstKey : first.poolKey = some key) (secondKey : second.poolKey = some key)
    (apart : ¬ first.collides second) : first.requested = second.requested := by
  have keys : first.poolKey = second.poolKey := firstKey.trans secondKey.symm
  have present : first.poolKey ≠ none := by simp [firstKey]
  clear firstKey secondKey
  by_contra different
  cases first <;> cases second <;>
    simp_all [Call.poolKey, Call.collides, Call.joinedKey, Call.requested]
  exact different (big_int_key_injective keys).1 (big_int_key_injective keys).2

theorem pool_key_eq_of_collides {first second : Call} (collide : first.collides second) :
    ∃ key, first.poolKey = some key ∧ second.poolKey = some key := by
  obtain ⟨present, same, -⟩ := collide
  cases first <;> cases second <;> simp_all [Call.poolKey, Call.joinedKey]

end Keys

theorem unambiguous_iff (calls : List Call) :
    Unambiguous (calls.map Call.request) ↔
      ∀ first ∈ calls, ∀ second ∈ calls, ¬ first.collides second := by
  constructor
  · intro unambiguous first firstMember second secondMember collide
    obtain ⟨key, firstKey, secondKey⟩ := pool_key_eq_of_collides collide
    exact collide.2.2 (unambiguous _ (List.mem_map_of_mem firstMember) _
      (List.mem_map_of_mem secondMember) key firstKey secondKey)
  · intro apart first firstMember second secondMember key firstKey secondKey
    obtain ⟨call, member, rfl⟩ := List.mem_map.mp firstMember
    obtain ⟨call', member', rfl⟩ := List.mem_map.mp secondMember
    exact requested_eq_of_key firstKey secondKey (apart call member call' member')

/-- Faithfulness is exactness of the pool run over the requests. -/
theorem faithful_iff_exact (calls : List Call) :
    Faithful calls ↔ Exact (calls.map Call.request) := by
  constructor
  · intro faithful before request after split later extended
    obtain ⟨firstCalls, restCalls, rfl, rfl, restSplit⟩ := List.map_eq_append_iff.mp split
    obtain ⟨call, lastCalls, rfl, rfl, rfl⟩ := List.map_eq_cons_iff.mp restSplit
    obtain ⟨tail, tailEq⟩ := extended
    obtain ⟨laterCalls, tailCalls, rfl, rfl, rfl⟩ := List.map_eq_append_iff.mp tailEq.symm
    have kept := faithful.kept firstCalls call (laterCalls ++ tailCalls) rfl laterCalls
      (List.prefix_append _ _)
    rw [consts_add_all, answered_eq, List.map_append, List.map_cons, run_append, run_cons] at kept
    exact kept
  · intro exact
    have kept : ∀ before call after, calls = before ++ call :: after → ∀ later, later <+: after →
        (addAll {} (before ++ call :: later)).consts[answered before call]? =
          some call.requested := by
      rintro before call after rfl later ⟨tail, rfl⟩
      rw [consts_add_all, answered_eq, List.map_append, List.map_cons, run_append, run_cons]
      exact exact (before.map Call.request) call.request ((later ++ tail).map Call.request)
        (by simp) (later.map Call.request) (by simp)
    refine ⟨kept, ?_⟩
    intro before call after before' call' after' split split' same
    have final := kept before call after split after List.prefix_rfl
    have final' := kept before' call' after' split' after' List.prefix_rfl
    rw [← split, same] at final
    rw [← split'] at final'
    exact Option.some.inj (final.symm.trans final')

/-- A sequence of calls is answered faithfully exactly when no two of its calls
join different requests to one key string. -/
theorem constants_faithful_iff (calls : List Call) :
    Faithful calls ↔ ∀ first ∈ calls, ∀ second ∈ calls, ¬ first.collides second := by
  rw [faithful_iff_exact, exact_iff_unambiguous, unambiguous_iff]

/-- Two name lists, one of them a single back-quoted name with a comma. -/
theorem comma_in_name_not_faithful :
    ¬ Faithful [.names ["a,b"], .names ["a", "b"]] := by
  intro faithful
  have kept := faithful.kept [.names ["a,b"]] (.names ["a", "b"]) [] rfl [] List.prefix_rfl
  revert kept
  decide

/-- A name that no key string can misread: neither empty nor holding a
separator. -/
def PlainName (name : String) : Prop :=
  name ≠ "" ∧ ',' ∉ name.toList ∧ '/' ∉ name.toList

/-- The names that come before a separator in the call's key are plain. -/
def Call.plain : Call → Prop
  | .sendSite name _ _ => PlainName name
  | .names list => ∀ name ∈ list, PlainName name
  | .superSite name _ ownerKey _ => PlainName name ∧ PlainName ownerKey
  | .kwSendSite name _ keywords _ => PlainName name ∧ ∀ keyword ∈ keywords, PlainName keyword
  | _ => True

section PlainNames

def commaTexts (v : List String) : List Char := v.flatMap fun s => ',' :: s.toList

theorem join_onto (out : String) (present : out ≠ "") (v : List String) :
    (v.foldl (fun out s => out ++ ((if out.isEmpty then "" else ",") ++ s)) out).toList =
      out.toList ++ commaTexts v := by
  induction v generalizing out with
  | nil => simp [commaTexts]
  | cons s v induction =>
      have full : out.isEmpty = false := by simpa using present
      have longer : out ++ ("," ++ s) ≠ "" := by
        intro empty
        have chars := congrArg String.toList empty
        simp at chars
      simp only [List.foldl_cons, full, Bool.false_eq_true, ite_false]
      rw [induction _ longer]
      simp [commaTexts]

theorem joined_cons {s : String} (present : s ≠ "") (v : List String) :
    (joined (s :: v)).toList = s.toList ++ commaTexts v := by
  simpa [joined] using join_onto s present v

theorem comma_texts_injective {s s' : String} {v v' : List String}
    (free : ∀ name ∈ s :: v, ',' ∉ name.toList) (free' : ∀ name ∈ s' :: v', ',' ∉ name.toList)
    (equal : s.toList ++ commaTexts v = s'.toList ++ commaTexts v') : s :: v = s' :: v' := by
  induction v generalizing s s' v' with
  | nil =>
      cases v' with
      | nil =>
          have same : s = s' := String.toList_inj.mp (by simpa [commaTexts] using equal)
          rw [same]
      | cons next rest =>
          have inside : ',' ∈ s.toList := by
            have whole : s.toList = s'.toList ++ commaTexts (next :: rest) := by
              simpa [commaTexts] using equal
            rw [whole]
            simp [commaTexts]
          exact absurd inside (free s List.mem_cons_self)
  | cons t v induction =>
      cases v' with
      | nil =>
          have inside : ',' ∈ s'.toList := by
            have whole : s'.toList = s.toList ++ commaTexts (t :: v) := by
              simpa [commaTexts] using equal.symm
            rw [whole]
            simp [commaTexts]
          exact absurd inside (free' s' List.mem_cons_self)
      | cons next rest =>
          obtain ⟨heads, tails⟩ := split_at_separator (free s List.mem_cons_self)
            (free' s' List.mem_cons_self)
            (show s.toList ++ ',' :: (t.toList ++ commaTexts v) =
                s'.toList ++ ',' :: (next.toList ++ commaTexts rest) by
              simpa [commaTexts] using equal)
          have later := induction (fun name member => free name (List.mem_cons_of_mem _ member))
            (fun name member => free' name (List.mem_cons_of_mem _ member)) tails
          rw [String.toList_inj.mp heads, later]

theorem joined_injective {v v' : List String} (plain : ∀ name ∈ v, PlainName name)
    (plain' : ∀ name ∈ v', PlainName name) (equal : joined v = joined v') : v = v' := by
  have empty : joined [] = "" := rfl
  cases v with
  | nil =>
      cases v' with
      | nil => rfl
      | cons s' v' =>
          have present := (plain' s' List.mem_cons_self).1
          have chars := congrArg String.toList (empty.symm.trans equal)
          rw [joined_cons present] at chars
          simp [present] at chars
  | cons s v =>
      have present := (plain s List.mem_cons_self).1
      cases v' with
      | nil =>
          have chars := congrArg String.toList (equal.trans empty)
          rw [joined_cons present] at chars
          simp [present] at chars
      | cons s' v' =>
          have chars := congrArg String.toList equal
          rw [joined_cons present, joined_cons (plain' s' List.mem_cons_self).1] at chars
          exact comma_texts_injective (fun name member => (plain name member).2.1)
            (fun name member => (plain' name member).2.1) chars

theorem slash_not_mem_joined {v : List String} (plain : ∀ name ∈ v, PlainName name) :
    '/' ∉ (joined v).toList := by
  cases v with
  | nil => simp [joined]
  | cons s v =>
      rw [joined_cons (plain s List.mem_cons_self).1]
      simp only [commaTexts, List.mem_append, List.mem_flatMap, List.mem_cons, not_or, not_exists,
        not_and]
      refine ⟨(plain s List.mem_cons_self).2.2, ?_⟩
      intro name member
      exact ⟨by decide, (plain name (List.mem_cons_of_mem _ member)).2.2⟩

theorem argc_injective {argc argc' : UInt32}
    (equal : (toString argc.toNat).toList = (toString argc'.toNat).toList) : argc = argc' :=
  UInt32.toNat_inj.mp (Nat.repr_injective (String.toList_inj.mp equal))

theorem send_key_injective {name name' : String} {argc argc' : UInt32} {fallback fallback' : String}
    (plain : PlainName name) (plain' : PlainName name')
    (equal : sendKey name argc fallback = sendKey name' argc' fallback') :
    name = name' ∧ argc = argc' ∧ fallback = fallback' := by
  have chars := congrArg String.toList equal
  simp only [sendKey, String.toList_append, List.append_assoc] at chars
  obtain ⟨names, chars⟩ := split_at_separator plain.2.2 plain'.2.2 chars
  obtain ⟨counts, fallbacks⟩ := split_at_separator (separator_not_mem_nat (by decide) _)
    (separator_not_mem_nat (by decide) _) chars
  exact ⟨String.toList_inj.mp names, argc_injective counts, String.toList_inj.mp fallbacks⟩

theorem kw_key_injective {name name' : String} {positional positional' : UInt32}
    {keywords keywords' : List String} {fallback fallback' : String}
    (plain : PlainName name) (plain' : PlainName name')
    (plainKeywords : ∀ keyword ∈ keywords, PlainName keyword)
    (plainKeywords' : ∀ keyword ∈ keywords', PlainName keyword)
    (equal : kwKey name positional keywords fallback = kwKey name' positional' keywords' fallback') :
    name = name' ∧ positional = positional' ∧ keywords = keywords' ∧ fallback = fallback' := by
  have chars := congrArg String.toList equal
  simp only [kwKey, String.toList_append, List.append_assoc] at chars
  obtain ⟨names, chars⟩ := split_at_separator plain.2.2 plain'.2.2 chars
  obtain ⟨counts, chars⟩ := split_at_separator (separator_not_mem_nat (by decide) _)
    (separator_not_mem_nat (by decide) _) chars
  obtain ⟨joins, fallbacks⟩ := split_at_separator (slash_not_mem_joined plainKeywords)
    (slash_not_mem_joined plainKeywords') chars
  exact ⟨String.toList_inj.mp names, argc_injective counts,
    joined_injective plainKeywords plainKeywords' (String.toList_inj.mp joins),
    String.toList_inj.mp fallbacks⟩

theorem super_key_injective {name name' : String} {argc argc' : UInt32} {ownerKey ownerKey' : String}
    {exact exact' : Bool} (plain : PlainName name) (plain' : PlainName name')
    (plainOwner : PlainName ownerKey) (plainOwner' : PlainName ownerKey')
    (equal : superKey name argc ownerKey exact = superKey name' argc' ownerKey' exact') :
    name = name' ∧ argc = argc' ∧ ownerKey = ownerKey' ∧ exact = exact' := by
  have chars := congrArg String.toList equal
  simp only [superKey, String.toList_append, List.append_assoc] at chars
  obtain ⟨owners, chars⟩ := split_at_separator plainOwner.2.2 plainOwner'.2.2 chars
  obtain ⟨names, chars⟩ := split_at_separator plain.2.2 plain'.2.2 chars
  have free : ∀ n : UInt32, '/' ∉ (toString n.toNat).toList :=
    fun n => separator_not_mem_nat (by decide) n.toNat
  -- The flag is the only slash after the count.
  have marked : ∀ (n : UInt32) (flag : Bool),
      '/' ∈ (toString n.toNat).toList ++ (if flag then "/x" else "").toList ↔ flag = true := by
    intro n flag
    cases flag with
    | false => simpa using free n
    | true => simp
  replace chars : (toString argc.toNat).toList ++ (if exact then "/x" else "").toList =
      (toString argc'.toNat).toList ++ (if exact' then "/x" else "").toList := chars
  obtain rfl : exact = exact' := by
    rw [Bool.eq_iff_iff, ← marked argc exact, ← marked argc' exact', chars]
  have counts := List.append_cancel_right chars
  exact ⟨String.toList_inj.mp names, argc_injective counts, String.toList_inj.mp owners, rfl⟩

theorem plain_calls_apart {first second : Call} (plain : first.plain) (plain' : second.plain) :
    ¬ first.collides second := by
  rintro ⟨present, keys, different⟩
  apply different
  cases first <;> cases second <;> simp_all [Call.joinedKey, Call.requested, Call.plain]
  · exact send_key_injective plain plain' keys
  · exact different (joined_injective plain plain' keys)
  · exact super_key_injective plain.1 plain'.1 plain.2 plain'.2 keys
  · exact kw_key_injective plain.1 plain'.1 plain.2 plain'.2 keys

/-- Names that hold no separator are always served faithfully. -/
theorem plain_calls_faithful {calls : List Call} (plain : ∀ call ∈ calls, call.plain) :
    Faithful calls := by
  rw [faithful_iff_exact, exact_iff_unambiguous, unambiguous_iff]
  intro first firstMember second secondMember
  exact plain_calls_apart (plain first firstMember) (plain second secondMember)

end PlainNames

end ProtoScala.Compiler.ConstantPool
