import ProtoScala.Library.HashedMaps
import ProtoScala.Runtime.ValueEquality

/-!
# Maps and sets

A Map or a Set is an object around a hashed map, and both share their natives: a Set
stores its element as key and as value. The bulk operations read their argument through
one keyed view: a Map or a Set as it is, a List, a Vector or a Range element by element,
or pair by pair for a Map.

The hashed map itself is the platform's; it is taken as given, with the semantics of keys
that the runtime hands to it.
-/

namespace ProtoScala.Runtime.KeyedCollections

open ProtoScala.Library.HashedMaps
open ProtoScala.Runtime.Values
open ProtoScala.Runtime.ValueEquality

set_option autoImplicit false

/-- What the natives read of the program: its classes, the attributes a class gives to its
instances, the names of the fields of a pair, and the classes of tuples. -/
structure RuntimeLayout where
  classes : ClassTable
  classAttribute : ClassId → Symbol → Option Value
  first : Symbol
  second : Symbol
  isTuple : ClassId → Bool

variable (L : RuntimeLayout)

def scalaKeySemantics : KeySemantics Value where
  isIdentityKey := scalaIsIdentityKey
  identical := Value.sameWord
  hash := fun key => (scalaHash L.classes key).toNat
  equals := valuesEqual L.classes

inductive Error where
  | wrongType (method expected : String)
  | notAPair (method : String)
  | notAMember (method : String)
  deriving DecidableEq, Repr

def getAttribute (v : Value) (key : Symbol) : Option Value :=
  (instanceOf v).bind fun x =>
    ((x.names.zip x.elements).lookup key).or (L.classAttribute x.cls key)

def isNull : Option Value → Bool
  | none | some .null => true
  | _ => false

/-- The key and the value of a pair, or an error. -/
def pairOf (v : Value) (method : String) : Except Error (Value × Value) :=
  let a := getAttribute L v L.first
  let b := getAttribute L v L.second
  if (isNull a || isNull b) && !((instanceOf v).any fun x => L.isTuple x.cls) then
    .error (.notAPair method)
  else .ok (a.getD .null, b.getD .null)

inductive Collection (Data : Type) where
  /-- A List, a Vector or a Range. -/
  | sequence (v : Value)
  | keyed (isSet : Bool) (data : Data)

def elementsOf (view : SeqView) : List Value := (List.range view.size).map view.elemAt

/-- The entries that the elements of a sequence stand for. -/
def entriesOf (pairs : Bool) (method : String) : List Value → Except Error (List (Value × Value))
  | [] => .ok []
  | e :: rest =>
      match (if pairs then pairOf L e method else .ok (e, e)) with
      | .error reason => .error reason
      | .ok entry => (entriesOf pairs method rest).map (entry :: ·)

variable {L} (map : HashedMap (scalaKeySemantics L) Value)

def asKeyedData (other : Collection map.Data) (pairs : Bool) (method : String) :
    Except Error map.Data :=
  match other with
  | .keyed _ data => .ok data
  | .sequence v =>
      match seqViewOf v with
      | none => .error (.wrongType method "a collection")
      | some view => (entriesOf L pairs method (elementsOf view)).map (putAll map map.newMap)

inductive BulkOp where
  | add
  | remove
  | keepCommon
  | keepMissing
  deriving DecidableEq, Repr

/-- `++` and `union`, `--`, `intersect`, `diff`. -/
def BulkOp.method : BulkOp → String
  | .add => "++"
  | .remove => "--"
  | .keepCommon => "intersect"
  | .keepMissing => "diff"

/-- The entries of `mine` whose keys are found in `theirs`, or are not. -/
def keepIf (common : Bool) (mine theirs : map.Data) : map.Data :=
  (map.entries mine).foldl
    (fun out e =>
      if (map.hashedGet theirs e.1).isSome == common then map.hashedPut out e.1 e.2 else out)
    map.newMap

def bulkData (op : BulkOp) (mine theirs : map.Data) : map.Data :=
  match op with
  | .add => putAll map mine (map.entries theirs)
  | .remove => removeAll map mine (map.entries theirs)
  | .keepCommon => keepIf map true mine theirs
  | .keepMissing => keepIf map false mine theirs

def bulk (op : BulkOp) (self other : Collection map.Data) :
    Except Error (Collection map.Data) :=
  match self with
  | .sequence _ => .error (.notAMember op.method)
  | .keyed isSet mine =>
      (asKeyedData map other (!isSet) op.method).map fun theirs =>
        .keyed isSet (bulkData map op mine theirs)

def plus (self : Collection map.Data) (x : Value) : Except Error (Collection map.Data) :=
  match self with
  | .sequence _ => .error (.notAMember "+")
  | .keyed true data => .ok (.keyed true (map.hashedPut data x x))
  | .keyed false data =>
      (pairOf L x "Map.+").map fun entry => .keyed false (map.hashedPut data entry.1 entry.2)

def updated (self : Collection map.Data) (k v : Value) : Except Error (Collection map.Data) :=
  match self with
  | .sequence _ => .error (.notAMember "updated")
  | .keyed isSet data => .ok (.keyed isSet (map.hashedPut data k v))

/-- `-` and `removed`. -/
def minus (self : Collection map.Data) (k : Value) : Except Error (Collection map.Data) :=
  match self with
  | .sequence _ => .error (.notAMember "-")
  | .keyed isSet data => .ok (.keyed isSet (map.hashedRemove data k))

def toMap (self : Collection map.Data) : Except Error (Collection map.Data) :=
  match self with
  | .keyed false data => .ok (.keyed false data)
  | .sequence (.range _) => .error (.notAMember "toMap")
  | other => (asKeyedData map other true "toMap").map (.keyed false)

def toSet (self : Collection map.Data) : Except Error (Collection map.Data) :=
  match self with
  | .keyed true data => .ok (.keyed true data)
  | other => (asKeyedData map other false "toSet").map (.keyed true)

def keySet (self : Collection map.Data) : Except Error (Collection map.Data) :=
  match self with
  | .sequence _ => .error (.notAMember "keySet")
  | .keyed _ data =>
      .ok (.keyed true (putAll map map.newMap ((map.entries data).map fun e => (e.1, e.1))))

def subsetOf (self other : Collection map.Data) : Except Error Bool :=
  match self with
  | .sequence _ => .error (.notAMember "subsetOf")
  | .keyed _ mine =>
      (asKeyedData map other false "subsetOf").map fun theirs =>
        (map.entries mine).all fun e => (map.hashedGet theirs e.1).isSome

/-! ## Building collections -/

/-- How a collection is built. -/
inductive Expr where
  /-- A List, a Vector or a Range. -/
  | sequence (v : Value)
  /-- `Map(...)` and `Set(...)`. -/
  | mapOf (pairs : List Value)
  | setOf (elements : List Value)
  | plus (e : Expr) (x : Value)
  | minus (e : Expr) (k : Value)
  | updated (e : Expr) (k v : Value)
  | bulk (op : BulkOp) (e other : Expr)
  | toMap (e : Expr)
  | toSet (e : Expr)
  | keySet (e : Expr)

def eval : Expr → Except Error (Collection map.Data)
  | .sequence v => .ok (.sequence v)
  | .mapOf pairs =>
      (entriesOf L true "Map(...)" pairs).map fun entries =>
        .keyed false (putAll map map.newMap entries)
  | .setOf elements =>
      .ok (.keyed true (putAll map map.newMap (elements.map fun e => (e, e))))
  | .plus e x => (eval e).bind fun c => plus map c x
  | .minus e k => (eval e).bind fun c => minus map c k
  | .updated e k v => (eval e).bind fun c => updated map c k v
  | .bulk op e other => (eval e).bind fun c => (eval other).bind fun c' => bulk map op c c'
  | .toMap e => (eval e).bind (toMap map)
  | .toSet e => (eval e).bind (toSet map)
  | .keySet e => (eval e).bind (keySet map)

end ProtoScala.Runtime.KeyedCollections
