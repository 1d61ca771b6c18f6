import Mathlib

/-!
# The table of global bindings

Every global definition is given the key of the runtime global that holds it:
the name itself the first time, `name#N` afterwards. The counters behind `N` are
shared by every copy of a table, so they are passed next to the table and a
rolled-back copy never brings them back.
-/

namespace ProtoScala.Compiler.Globals

set_option autoImplicit false

inductive BindingKind where
  | val | var | lazyVal | def_ | paramlessDef | builtin | param | object | byNameParam
  deriving DecidableEq, Repr

structure Overload where
  arity : Nat
  key : String
  deriving DecidableEq

structure GlobalBinding where
  kind : BindingKind
  key : String
  overloads : List Overload := []
  deriving DecidableEq

/-- The name and key of a described type. -/
structure ClassInfo where
  name : String
  key : String
  deriving DecidableEq

/-- How many shadowing keys each name was given; `none` before its first key. -/
structure Counters where
  terms : String → Option Nat
  types : String → Option Nat

/-- One copy of the table. Its maps are functions, its sets predicates. -/
structure GlobalTable where
  table : String → Option GlobalBinding
  declaredInUnit : String → Bool
  typeKeyOfName : String → Option String
  typeAliases : String → Option String
  typesByKey : String → Option ClassInfo
  typesDeclaredInUnit : String → Bool

def empty : GlobalTable where
  table _ := none
  declaredInUnit _ := false
  typeKeyOfName _ := none
  typeAliases _ := none
  typesByKey _ := none
  typesDeclaredInUnit _ := false

def shadowKey (name : String) (n : Nat) : String := name ++ "#" ++ toString n

/-- `try_emplace(name, 0)` and, when the name was known, the next number. -/
def nextKey (counters : String → Option Nat) (name : String) :
    String × (String → Option Nat) :=
  match counters name with
  | none => (name, Function.update counters name (some 0))
  | some n => (shadowKey name (n + 1), Function.update counters name (some (n + 1)))

def beginUnit (g : GlobalTable) : GlobalTable :=
  { g with declaredInUnit := fun _ => false, typesDeclaredInUnit := fun _ => false }

/-- `declare`; `none` is the `out_of_range` of `table_.at`. -/
def declare (name : String) (kind : BindingKind) (c : Counters) (g : GlobalTable) :
    Option (String × Counters × GlobalTable) :=
  if g.declaredInUnit name then
    (g.table name).map fun b =>
      (b.key, c, { g with table := Function.update g.table name (some { b with kind := kind }) })
  else
    let (key, terms) := nextKey c.terms name
    some (key, { c with terms := terms },
      { g with
        declaredInUnit := Function.update g.declaredInUnit name true
        table := Function.update g.table name (some { kind := kind, key := key }) })

/-- The number after the name's last one; an unknown name counts from zero. -/
def alternativeKey (counters : String → Option Nat) (name : String) :
    String × (String → Option Nat) :=
  let n := (counters name).getD 0 + 1
  (shadowKey name n, Function.update counters name (some n))

/-- `declareDef`; the boolean is `*duplicate`. -/
def declareDef (name : String) (kind : BindingKind) (arity : Nat) (c : Counters)
    (g : GlobalTable) : Option (String × Bool × Counters × GlobalTable) :=
  if g.declaredInUnit name then
    (g.table name).map fun b =>
      match b.overloads.find? (fun o => o.arity == arity) with
      | some o =>
          (o.key, true, c,
            { g with table := Function.update g.table name (some { b with kind := kind }) })
      | none =>
          let (key, terms) := alternativeKey c.terms name
          (key, false, { c with terms := terms },
            { g with
              table := Function.update g.table name
                (some { b with kind := kind, overloads := b.overloads ++ [⟨arity, key⟩] }) })
  else
    (declare name kind c g).map fun (key, c, g) =>
      (key, false, c,
        { g with
          table := Function.update g.table name
            ((g.table name).map fun b => { b with overloads := b.overloads ++ [⟨arity, key⟩] }) })

/-- What stands before and after the last `#`. -/
def splitAtLastHash : List Char → Option (List Char × List Char)
  | [] => none
  | c :: rest =>
      match splitAtLastHash rest with
      | some (before, after) => some (c :: before, after)
      | none => if c = '#' then some ([], rest) else none

def decimalValue (digits : List Char) : Nat :=
  digits.foldl (fun n c => n * 10 + (c.toNat - '0'.toNat)) 0

/-- The `N` of a key `name#N`, or zero. -/
def reservedNumber (name key : String) : Nat :=
  match splitAtLastHash key.toList with
  | some (before, digits) =>
      if before = name.toList ∧ digits.all Char.isDigit then decimalValue digits else 0
  | none => 0

def reserveKey (counters : String → Option Nat) (name key : String) : String → Option Nat :=
  Function.update counters name (some (max ((counters name).getD 0) (reservedNumber name key)))

/-- An import binds the name to a binding that exists already. -/
def bind (name : String) (b : GlobalBinding) (c : Counters) (g : GlobalTable) :
    Counters × GlobalTable :=
  ({ c with terms := reserveKey c.terms name b.key },
    { g with
      declaredInUnit := Function.update g.declaredInUnit name true
      table := Function.update g.table name (some b) })

/-- Makes the name resolve as it does in `other`, or not at all. -/
def restore (name : String) (other g : GlobalTable) : GlobalTable :=
  { g with table := Function.update g.table name (other.table name) }

def declareType (name : String) (c : Counters) (g : GlobalTable) :
    Option (String × Counters × GlobalTable) :=
  if g.typesDeclaredInUnit name then
    (g.typeKeyOfName name).map fun key => (key, c, g)
  else
    let (key, types) := nextKey c.types name
    some ("@" ++ key, { c with types := types },
      { g with
        typesDeclaredInUnit := Function.update g.typesDeclaredInUnit name true
        typeKeyOfName := Function.update g.typeKeyOfName name (some ("@" ++ key)) })

def declareTypeAlias (name target : String) (g : GlobalTable) : GlobalTable :=
  { g with typeAliases := Function.update g.typeAliases name (some target) }

/-- An imported type: the name resolves to a key that exists already. -/
def aliasType (name key : String) (c : Counters) (g : GlobalTable) : Counters × GlobalTable :=
  ({ c with types := reserveKey c.types name (String.ofList (key.toList.drop 1)) },
    { g with
      typesDeclaredInUnit := Function.update g.typesDeclaredInUnit name true
      typeKeyOfName := Function.update g.typeKeyOfName name (some key) })

def defineType (info : ClassInfo) (g : GlobalTable) : GlobalTable :=
  { g with typesByKey := Function.update g.typesByKey info.key (some info) }

def defineBuiltinType (info : ClassInfo) (g : GlobalTable) : GlobalTable :=
  defineType info { g with typeKeyOfName := Function.update g.typeKeyOfName info.name (some info.key) }

def kMaxTupleArity : Nat := 22

def tupleNames : List String :=
  (List.range (kMaxTupleArity - 1)).map fun n => "Tuple" ++ toString (n + 2)

def builtinGlobalNames : List String :=
  ["println", "print", "List", "Nil", "__raise", "Actor", "Future", "Thread", "System",
    "__fmt", "__tryOf", "__classNameOf", "__isInstanceOf", "__isForeignObject", "__kwprobe",
    "__installExtension", "__varargs", "Vector", "Map", "Set", "__fileWriteText",
    "__fileExists", "__fileDelete", "__splitLines", "__skipLines", "__srcOpen", "__srcStdin",
    "__srcLine", "__srcRest", "__srcClose", "__stdinLine", "__fileReadBytes",
    "__fileWriteBytes", "__fileStat", "__fileList", "__fileMkdirs", "__fileMove",
    "__fileCopy", "__fileRemoveTree", "__bytesFromSeq", "__bytesFromString",
    "__bytesLength", "__bytesAt", "__bytesSlice", "__bytesConcat", "__bytesEquals",
    "__bytesHash", "__bytesToList", "__bytesDecode", "__bytesShow", "__ioEnv", "__ioProps",
    "__ioExit", "__ioStderr", "__procRunInherit", "__procCapture", "__procSpawn",
    "__procWait", "__procKill", "__tcpConnect", "__tcpListen", "__tcpAccept", "__sockName",
    "__peerName", "__fdReadLine", "__fdRead", "__fdReadBytes", "__fdReadAll", "__fdWrite",
    "__fdSetTimeout", "__fdClose", "__tlsConnect", "__udpBind", "__udpSend",
    "__udpReceive", "__httpRequest", "__httpReadRequest", "__httpWriteResponse",
    "__httpParseQuery", "__urlEncode"] ++ tupleNames

def builtinTypeNames : List String :=
  tupleNames ++
    ["Enum", "Range", "Vector", "Map", "Set", "Actor", "Future", "Any", "AnyRef", "Product",
      "Serializable"]

/-- Every built-in type has its name behind an `@` as its key. -/
def builtinTypes : List ClassInfo :=
  builtinTypeNames.map fun name => ⟨name, "@" ++ name⟩

/-- The key under which a foreign module's object is stored. -/
def foreignKey (n : Nat) (moduleName : String) : String :=
  "__module" ++ toString n ++ "$" ++ moduleName

section KeyShapes

/-- A name spelled like a shadowing key, which only back-quotes allow. -/
def ShadowShaped (name : String) : Prop := ∃ base n, 1 ≤ n ∧ name = shadowKey base n

/-- A name spelled like the key of a foreign module. -/
def ForeignShaped (name : String) : Prop := ∃ n moduleName, name = foreignKey n moduleName

/-- A key the counters can have given to `name` by the time they stand at `count`. -/
def IssuedFor (name : String) (count : Nat) (key : String) : Prop :=
  key = name ∨ ∃ n, 1 ≤ n ∧ n ≤ count ∧ key = shadowKey name n

theorem issued_for_mono {name key : String} {count count' : Nat} (atMost : count ≤ count')
    (issued : IssuedFor name count key) : IssuedFor name count' key := by
  rcases issued with same | ⟨n, positive, bounded, same⟩
  · exact .inl same
  · exact .inr ⟨n, positive, bounded.trans atMost, same⟩

theorem digits_free {c : Char} (separator : c.isDigit = false) (n : Nat) :
    c ∉ (toString n).toList := by
  intro member
  rw [Nat.toString_eq_repr, Nat.toList_repr] at member
  rw [Nat.isDigit_of_mem_toDigits (by decide) (by decide) member] at separator
  cases separator

theorem shadow_key_chars (name : String) (n : Nat) :
    (shadowKey name n).toList = name.toList ++ '#' :: (toString n).toList := by
  simp [shadowKey]

theorem split_at_last_hash {before after : List Char} (free : '#' ∉ after) :
    splitAtLastHash (before ++ '#' :: after) = some (before, after) := by
  have none : ∀ chars : List Char, '#' ∉ chars → splitAtLastHash chars = none := by
    intro chars
    induction chars with
    | nil => intro _; rfl
    | cons c rest induction =>
        intro absent
        simp only [List.mem_cons, not_or] at absent
        simp [splitAtLastHash, induction absent.2, Ne.symm absent.1]
  induction before with
  | nil => simp [splitAtLastHash, none after free]
  | cons c before induction => simp [splitAtLastHash, induction]

theorem shadow_key_injective {name name' : String} {n n' : Nat}
    (equal : shadowKey name n = shadowKey name' n') : name = name' ∧ n = n' := by
  have chars := congrArg (fun s => splitAtLastHash s.toList) equal
  simp only [shadow_key_chars, split_at_last_hash (digits_free (by decide) _), Option.some.injEq,
    Prod.mk.injEq] at chars
  exact ⟨String.toList_inj.mp chars.1, Nat.repr_injective (String.toList_inj.mp chars.2)⟩

/-- Different names of ordinary shape never share a key. -/
theorem issued_for_name {name name' key : String} {count count' : Nat}
    (plain : ¬ ShadowShaped name) (plain' : ¬ ShadowShaped name')
    (issued : IssuedFor name count key) (issued' : IssuedFor name' count' key) : name = name' := by
  rcases issued with same | ⟨n, positive, -, same⟩ <;>
    rcases issued' with same' | ⟨n', positive', -, same'⟩
  · exact same.symm.trans same'
  · exact absurd ⟨name', n', positive', same.symm.trans same'⟩ plain
  · exact absurd ⟨name, n, positive, same'.symm.trans same⟩ plain'
  · exact (shadow_key_injective (same.symm.trans same')).1

theorem issued_for_head {name key : String} {count : Nat} {c : Char} (notHash : c ≠ '#')
    (issued : IssuedFor name count key) (starts : key.toList.head? = some c) :
    name.toList.head? = some c := by
  rcases issued with rfl | ⟨n, -, -, rfl⟩
  · exact starts
  · rw [shadow_key_chars] at starts
    cases chars : name.toList with
    | nil => simp [chars, Ne.symm notHash] at starts
    | cons d rest => simpa [chars] using starts

/-- Cutting a shadowing number off a foreign key leaves a foreign key. -/
theorem issued_for_foreign {name key : String} {count : Nat} (issued : IssuedFor name count key)
    (foreign : ForeignShaped key) : ForeignShaped name := by
  obtain ⟨n, moduleName, rfl⟩ := foreign
  rcases issued with same | ⟨m, -, -, same⟩
  · exact ⟨n, moduleName, same.symm⟩
  · have chars := congrArg String.toList same
    rw [shadow_key_chars] at chars
    have shape : (foreignKey n moduleName).toList =
        ("__module".toList ++ (toString n).toList ++ ['$']) ++ moduleName.toList := by
      simp [foreignKey]
    have free : '#' ∉ "__module".toList ++ (toString n).toList ++ ['$'] := by
      simp only [List.mem_append, not_or]
      exact ⟨⟨by decide, digits_free (by decide) n⟩, by decide⟩
    rw [shape] at chars
    rcases List.append_eq_append_iff.mp chars with ⟨rest, nameEq, restEq⟩ | ⟨rest, frontEq, restEq⟩
    · refine ⟨n, String.ofList rest, String.toList_inj.mp ?_⟩
      rw [nameEq]
      simp [foreignKey]
    · cases rest with
      | nil =>
          refine ⟨n, "", String.toList_inj.mp ?_⟩
          rw [List.append_nil] at frontEq
          rw [← frontEq]
          simp [foreignKey]
      | cons d rest =>
          simp only [List.cons_append, List.cons.injEq] at restEq
          rw [frontEq, ← restEq.1] at free
          simp at free

end KeyShapes

end ProtoScala.Compiler.Globals
