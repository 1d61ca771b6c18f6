import Mathlib.Data.List.Nodup
import Mathlib.Data.List.Perm.Subperm
import Mathlib.Tactic.Common

/-!
# `copy` of a case class

The call of `copy` with positional and named arguments: the compiler splits the arguments,
and `product_copy` finds the values of the fields under the fields' keys and answers a new
instance, derived from the receiver when the constructor would only store the fields, and
else built by the constructor. Whether it would is read off the instructions that the
compiler emitted.
-/

namespace ProtoScala.Runtime.CaseClassCopy

set_option autoImplicit false

structure Param where
  name : String
  isPrivate : Bool
  isDouble : Bool

def privateKey (typeKey name : String) : String := typeKey ++ "::" ++ name

/-- The key of a parameter's field; `typeKey` is without its first character. -/
def fieldKey (typeKey : String) (p : Param) : String :=
  if p.isPrivate then privateKey typeKey p.name else p.name

/-- A case class that has a `copy`: no parameter is repeated, and none is by name. Behind the
stores of the fields, its constructor has the initialisers of the parents, the second stores of
overriding fields, the lazy holders and the statements, instructions of `I`. No name is a
private key: only names in back quotes may have `::`. -/
structure CaseClass (I : Type) where
  typeKey : String
  params : List Param
  mutableInstances : Bool
  body : List I
  namesApart : (params.map Param.name).Nodup
  plainNames : ∀ p ∈ params, ∀ q ∈ params, p.name ≠ privateKey typeKey q.name

inductive Instruction (I : Type) where
  /-- `PUSH_LOCAL`, `SEND toDouble`, `STORE_LOCAL` of a `Double` parameter. -/
  | widen (param : Nat)
  /-- `PUSH_LOCAL`, `STORE_FIELD_IF_NEW`; the group of several is these in order. -/
  | storeFieldIfNew (key : String) (param : Nat)
  | other (instruction : I)

namespace CaseClass

variable {I : Type}

def key (cls : CaseClass I) : Param → String := fieldKey cls.typeKey

def fields (cls : CaseClass I) : List String := cls.params.map cls.key

def widenDoubleParams (I : Type) (k : Nat) : List Param → List (Instruction I)
  | [] => []
  | p :: rest =>
      if p.isDouble then .widen k :: widenDoubleParams I (k + 1) rest
      else widenDoubleParams I (k + 1) rest

def parameterFields (cls : CaseClass I) (k : Nat) : List Param → List (Instruction I)
  | [] => []
  | p :: rest => .storeFieldIfNew (cls.key p) k :: cls.parameterFields (k + 1) rest

/-- The code of `compileConstructor`. -/
def constructor (cls : CaseClass I) : List (Instruction I) :=
  widenDoubleParams I 0 cls.params ++ cls.parameterFields 0 cls.params ++ cls.body.map .other

/-- What `compileConstructor` answers: it compares the sizes of the code before and behind. -/
def fieldsOnlyInit (cls : CaseClass I) : Bool :=
  !cls.mutableInstances && (widenDoubleParams I 0 cls.params).isEmpty && cls.body.isEmpty

end CaseClass

/-- An instance, with its own attributes. -/
structure Instance (I V : Type) where
  address : Nat
  cls : CaseClass I
  own : String → Option V

/-- A call `copy(positional..., name = value...)`. -/
structure CopyCall (V : Type) where
  positional : List V
  named : List (String × V)

inductive CopyError where
  | specifiedTwice (name : String)
  | wrongArgCount (atMost given : Nat)
  | alreadyInstantiated (name : String)
  | noParameter (name : String)

variable {I V E : Type} (null : V)

/-- `compileNamedSend` and `splitNamedArgs`: a name stands only once. -/
def firstRepeated : List String → List String → Option String
  | _, [] => none
  | seen, name :: rest =>
      if name ∈ seen then some name else firstRepeated (name :: seen) rest

def element (self : Instance I V) (key : String) : V := (self.own key).getD null

def keywordAt (named : List (String × V)) (key : String) : Option V :=
  (named.find? fun entry => entry.1 == key).map Prod.snd

/-- `copyValues`: the values of the fields and how many named arguments are used. -/
def copyValues (self : Instance I V) (call : CopyCall V) : Nat → List String → List V × Nat
  | _, [] => ([], 0)
  | i, key :: rest =>
      let later := copyValues self call (i + 1) rest
      match call.positional[i]? with
      | some value => (value :: later.1, later.2)
      | none =>
          match keywordAt call.named key with
          | some value => (value :: later.1, later.2 + 1)
          | none => (element null self key :: later.1, later.2)

/-- `rejectCopyKeywords`, with the keywords in the order of `processElements`. -/
def rejectCopyKeywords (fields : List String) (positional : Nat) :
    List (String × V) → Option CopyError
  | [] => none
  | (name, _) :: rest =>
      if name ∈ fields then
        if name ∈ fields.take positional then some (.alreadyInstantiated name)
        else rejectCopyKeywords fields positional rest
      else some (.noParameter name)

/-- The arguments of `product_copy`, and then `path` with the values of the fields. -/
def copyWith {α : Type} (path : List V → α) (self : Instance I V) (call : CopyCall V) :
    Except CopyError α :=
  match firstRepeated [] (call.named.map Prod.fst) with
  | some name => .error (.specifiedTwice name)
  | none =>
      let fields := self.cls.fields
      if fields.length < call.positional.length then
        .error (.wrongArgCount fields.length call.positional.length)
      else
        let values := copyValues null self call 0 fields
        if values.2 ≠ call.named.length then
          match rejectCopyKeywords fields call.positional.length call.named with
          | some reason => .error reason
          -- not reached: some keyword was not used
          | none => .error (.noParameter "")
        else .ok (path values.1)

/-- `setAttributes`: always a new cell. -/
def setAttributes (cell : Nat) (self : Instance I V) (changed : List (String × V)) :
    Instance I V where
  address := cell
  cls := self.cls
  own key := ((changed.reverse.find? fun entry => entry.1 == key).map Prod.snd).or (self.own key)

/-- The new instance derived from the receiver. -/
def derived [DecidableEq V] (cell : Nat) (self : Instance I V) (values : List V) : Instance I V :=
  let entries := self.cls.fields.zip values
  let changed := entries.filter fun entry => decide (entry.2 ≠ element null self entry.1)
  match changed, entries with
  | [], first :: _ => setAttributes cell self [first]
  | changed, _ => setAttributes cell self changed

/-- What running the instructions takes: the `toDouble` of a value, and the rest. -/
structure Machine (I V E : Type) where
  toDouble : V → Except E V
  run : I → Instance I V × List V → Except E (Instance I V × List V)

/-- One instruction on `this` and the slots of the parameters. -/
def Machine.step (machine : Machine I V E) (frame : Instance I V × List V) :
    Instruction I → Except E (Instance I V × List V)
  | .widen k =>
      match frame.2[k]? with
      | some value => (machine.toDouble value).map fun wide => (frame.1, frame.2.set k wide)
      | none => .ok frame
  | .storeFieldIfNew key k =>
      match frame.2[k]?, frame.1.own key with
      | some value, none =>
          .ok ({ frame.1 with own := fun other => if other = key then some value
                                                  else frame.1.own other }, frame.2)
      | _, _ => .ok frame
  | .other instruction => machine.run instruction frame

/-- `construct`: a new instance, and the constructor on it. -/
def construct (machine : Machine I V E) (cell : Nat) (cls : CaseClass I) (values : List V) :
    Except E (Instance I V) :=
  (cls.constructor.foldlM machine.step (⟨cell, cls, fun _ => none⟩, values)).map Prod.fst

def kDeriveMax : Nat := 32

/-- The two paths of `product_copy`. -/
def copied [DecidableEq V] (machine : Machine I V E) (cell : Nat) (self : Instance I V)
    (values : List V) : Except E (Instance I V) :=
  let n := self.cls.fields.length
  if 0 < n ∧ n ≤ kDeriveMax ∧ self.cls.fieldsOnlyInit = true then
    .ok (derived null cell self values)
  else construct machine cell self.cls values

/-- `product_copy`: a rejected call, or what the path for the class gives. -/
def productCopy [DecidableEq V] (machine : Machine I V E) (cell : Nat) (self : Instance I V)
    (call : CopyCall V) : Except CopyError (Except E (Instance I V)) :=
  copyWith null (copied null machine cell self) self call

/-! ## The arguments -/

def CopyCall.names (call : CopyCall V) : List String := call.named.map Prod.fst

/-- Every named argument stands once and is one of `selectors` behind the positional ones. -/
structure TakenBy (selectors : List String) (call : CopyCall V) : Prop where
  once : call.names.Nodup
  fit : call.positional.length ≤ selectors.length
  known : ∀ name ∈ call.names, name ∈ selectors.drop call.positional.length

def CaseClass.names (cls : CaseClass I) : List String := cls.params.map Param.name

/-- More positional arguments than fields, a name that is no parameter, a repeated name, or
a name already given by position. -/
inductive Refused (cls : CaseClass I) (call : CopyCall V) : Prop
  | tooMany (more : cls.params.length < call.positional.length)
  | unknown {name : String} (named : name ∈ call.names) (other : name ∉ cls.names)
  | repeated (twice : ¬call.names.Nodup)
  | given {name : String} (named : name ∈ call.names)
      (position : name ∈ cls.names.take call.positional.length)

theorem taken_iff_not_refused (cls : CaseClass I) (call : CopyCall V) :
    TakenBy cls.names call ↔ ¬Refused cls call := by
  constructor
  · intro taken refused
    cases refused with
    | tooMany more =>
        have fit := taken.fit
        rw [CaseClass.names, List.length_map] at fit
        omega
    | unknown named other => exact other (List.mem_of_mem_drop (taken.known _ named))
    | repeated twice => exact twice taken.once
    | given named position =>
        have apart := cls.namesApart
        rw [← CaseClass.names, ← List.take_append_drop call.positional.length cls.names] at apart
        exact List.disjoint_of_nodup_append apart position (taken.known _ named)
  · intro accepted
    constructor
    · by_contra twice
      exact accepted (.repeated twice)
    · by_contra more
      apply accepted
      apply Refused.tooMany
      rw [CaseClass.names, List.length_map] at more
      exact Nat.lt_of_not_le more
    · intro name named
      have known : name ∈ cls.names := by
        by_contra other
        exact accepted (.unknown named other)
      rw [← List.take_append_drop call.positional.length cls.names, List.mem_append] at known
      rcases known with position | behind
      · exact absurd (.given named position) accepted
      · exact behind

theorem first_repeated_none (seen names : List String) :
    firstRepeated seen names = none ↔ names.Nodup ∧ ∀ name ∈ names, name ∉ seen := by
  induction names generalizing seen with
  | nil => simp [firstRepeated]
  | cons name rest ih =>
      rw [firstRepeated, List.nodup_cons, List.forall_mem_cons]
      by_cases twice : name ∈ seen
      · simp [twice]
      · rw [if_neg twice, ih]
        simp only [List.mem_cons, not_or]
        constructor
        · rintro ⟨once, apart⟩
          exact ⟨⟨fun again => (apart name again).1 rfl, once⟩, twice, fun x member =>
            (apart x member).2⟩
        · rintro ⟨⟨fresh, once⟩, -, apart⟩
          exact ⟨once, fun x member => ⟨fun same => fresh (same ▸ member), apart x member⟩⟩

/-! ## The keys -/

namespace CaseClass

variable (cls : CaseClass I)

theorem key_private {p : Param} (hidden : p.isPrivate = true) :
    cls.key p = privateKey cls.typeKey p.name := if_pos hidden

theorem key_public {p : Param} (visible : p.isPrivate = false) : cls.key p = p.name := by
  rw [key, fieldKey, visible]
  rfl

theorem name_injective {p q : Param} (inP : p ∈ cls.params) (inQ : q ∈ cls.params)
    (same : p.name = q.name) : p = q :=
  List.inj_on_of_nodup_map cls.namesApart inP inQ same

theorem key_injective {p q : Param} (inP : p ∈ cls.params) (inQ : q ∈ cls.params)
    (same : cls.key p = cls.key q) : p = q := by
  apply cls.name_injective inP inQ
  cases hiddenP : p.isPrivate with
  | true =>
      rw [cls.key_private hiddenP] at same
      cases hiddenQ : q.isPrivate with
      | true =>
          rw [cls.key_private hiddenQ] at same
          exact String.append_right_inj _ |>.mp same
      | false =>
          rw [cls.key_public hiddenQ] at same
          exact absurd same.symm (cls.plainNames q inQ p inP)
  | false =>
      rw [cls.key_public hiddenP] at same
      cases hiddenQ : q.isPrivate with
      | true =>
          rw [cls.key_private hiddenQ] at same
          exact absurd same (cls.plainNames p inP q inQ)
      | false => rwa [cls.key_public hiddenQ] at same

theorem fields_nodup : cls.fields.Nodup :=
  List.Nodup.map_on (fun _ inP _ inQ same => cls.key_injective inP inQ same)
    cls.namesApart.of_map

end CaseClass

/-- No named argument that would be right is the name of a private parameter, or its key. -/
def NoPrivateNamed (cls : CaseClass I) (call : CopyCall V) : Prop :=
  ∀ p ∈ cls.params, p.isPrivate = true →
    (p.name ∈ call.names → ¬TakenBy cls.names call) ∧
      (cls.key p ∈ call.names → ¬TakenBy cls.fields call)

theorem mem_drop_map {f : Param → String} {cls : CaseClass I} {n : Nat} {name : String} :
    name ∈ (cls.params.map f).drop n ↔ ∃ p ∈ cls.params.drop n, f p = name := by
  rw [← List.map_drop, List.mem_map]

theorem no_private_named_iff (cls : CaseClass I) (call : CopyCall V) :
    NoPrivateNamed cls call ↔ (TakenBy cls.fields call ↔ TakenBy cls.names call) := by
  constructor
  · intro visible
    constructor
    · intro taken
      refine ⟨taken.once, ?_, fun name named => ?_⟩
      · simpa [CaseClass.names, CaseClass.fields] using taken.fit
      · obtain ⟨p, behind, same⟩ := mem_drop_map.mp (taken.known name named)
        apply mem_drop_map.mpr
        cases hidden : p.isPrivate with
        | true =>
            have out := (visible p (List.mem_of_mem_drop behind) hidden).2 (same ▸ named)
            exact absurd taken out
        | false => exact ⟨p, behind, by rwa [cls.key_public hidden] at same⟩
    · intro taken
      refine ⟨taken.once, ?_, fun name named => ?_⟩
      · simpa [CaseClass.names, CaseClass.fields] using taken.fit
      · obtain ⟨p, behind, same⟩ := mem_drop_map.mp (taken.known name named)
        apply mem_drop_map.mpr
        cases hidden : p.isPrivate with
        | true =>
            have out := (visible p (List.mem_of_mem_drop behind) hidden).1 (same ▸ named)
            exact absurd taken out
        | false => exact ⟨p, behind, by rwa [cls.key_public hidden]⟩
  · intro both p inP hidden
    constructor
    · intro named taken
      obtain ⟨q, behind, same⟩ := mem_drop_map.mp ((both.mpr taken).known p.name named)
      have inQ := List.mem_of_mem_drop behind
      cases hiddenQ : q.isPrivate with
      | true =>
          rw [cls.key_private hiddenQ] at same
          exact cls.plainNames p inP q inQ same.symm
      | false =>
          rw [cls.key_public hiddenQ] at same
          rw [cls.name_injective inQ inP same, hidden] at hiddenQ
          cases hiddenQ
    · intro named taken
      obtain ⟨q, behind, same⟩ := mem_drop_map.mp ((both.mp taken).known _ named)
      rw [cls.key_private hidden] at same
      exact cls.plainNames q (List.mem_of_mem_drop behind) p inP same

/-! ## The values -/

theorem keyword_some_iff (named : List (String × V)) (key : String) :
    (keywordAt named key).isSome = true ↔ key ∈ named.map Prod.fst := by
  rw [keywordAt, Option.isSome_map, List.find?_isSome]
  simp

theorem keyword_none {named : List (String × V)} {key : String} (other : key ∉ named.map Prod.fst) :
    keywordAt named key = none := by
  rw [← keyword_some_iff] at other
  simpa using other

/-- Its positional argument, else the named one under `key`, else the receiver's own value. -/
def valueAt (self : Instance I V) (call : CopyCall V) (own key : String) (i : Nat) : V :=
  match call.positional[i]? with
  | some value => value
  | none => (keywordAt call.named key).getD (element null self own)

theorem copy_values_get (self : Instance I V) (call : CopyCall V) (k : Nat) (keys : List String)
    (i : Nat) :
    (copyValues null self call k keys).1[i]? =
      keys[i]?.map fun key => valueAt null self call key key (k + i) := by
  induction keys generalizing k i with
  | nil => rfl
  | cons key rest ih =>
      have head : (copyValues null self call k (key :: rest)).1 =
          valueAt null self call key key k :: (copyValues null self call (k + 1) rest).1 := by
        rw [copyValues, valueAt]
        cases call.positional[k]? with
        | some value => rfl
        | none => cases keywordAt call.named key <;> rfl
      rw [head]
      cases i with
      | zero => rfl
      | succ i =>
          rw [List.getElem?_cons_succ, ih, List.getElem?_cons_succ, Nat.add_right_comm,
            Nat.add_assoc]

theorem copy_values_length (self : Instance I V) (call : CopyCall V) (k : Nat)
    (keys : List String) : (copyValues null self call k keys).1.length = keys.length := by
  induction keys generalizing k with
  | nil => rfl
  | cons key rest ih =>
      rw [copyValues, List.length_cons, ← ih (k + 1)]
      cases call.positional[k]? with
      | some value => rfl
      | none => cases keywordAt call.named key <;> rfl

theorem copy_values_used (self : Instance I V) (call : CopyCall V) (k : Nat) (keys : List String) :
    (copyValues null self call k keys).2 =
      ((keys.drop (call.positional.length - k)).filter
        fun key => decide (key ∈ call.names)).length := by
  induction keys generalizing k with
  | nil => simp [copyValues]
  | cons key rest ih =>
      rw [copyValues]
      rcases Nat.lt_or_ge k call.positional.length with inside | past
      · rw [List.getElem?_eq_getElem inside,
          show call.positional.length - k = call.positional.length - (k + 1) + 1 by omega,
          List.drop_succ_cons]
        exact ih (k + 1)
      · rw [List.getElem?_eq_none past, show call.positional.length - k = 0 by omega,
          List.drop_zero]
        have later := ih (k + 1)
        rw [show call.positional.length - (k + 1) = 0 by omega, List.drop_zero] at later
        by_cases given : key ∈ call.names
        · obtain ⟨value, found⟩ := Option.isSome_iff_exists.mp
            ((keyword_some_iff call.named key).mpr given)
          simp only [found]
          rw [List.filter_cons_of_pos (by simpa using given), List.length_cons, later]
        · simp only [keyword_none given]
          rw [List.filter_cons_of_neg (by simpa using given), later]

/-- All keywords are used exactly when they are keys of the fields behind the positional ones. -/
theorem all_used_iff (cls : CaseClass I) (self : Instance I V) (call : CopyCall V)
    (once : call.names.Nodup) :
    (copyValues null self call 0 cls.fields).2 = call.named.length ↔
      ∀ name ∈ call.names, name ∈ cls.fields.drop call.positional.length := by
  have apart : ((cls.fields.drop call.positional.length).filter
      fun key => decide (key ∈ call.names)).Nodup :=
    (cls.fields_nodup.sublist (List.drop_sublist _ _)).filter _
  have inside : ((cls.fields.drop call.positional.length).filter
      fun key => decide (key ∈ call.names)) ⊆ call.names := by
    intro key member
    simpa using (List.mem_filter.mp member).2
  have fewer := List.subperm_of_subset apart inside
  rw [copy_values_used, Nat.sub_zero, show call.named.length = call.names.length from
    (List.length_map _).symm]
  constructor
  · intro same name named
    have perm := fewer.perm_of_length_le (Nat.le_of_eq same.symm)
    exact (List.mem_filter.mp (perm.mem_iff.mpr named)).1
  · intro known
    apply Nat.le_antisymm fewer.length_le
    apply (List.subperm_of_subset once ?_).length_le
    intro name named
    exact List.mem_filter.mpr ⟨known name named, by simpa using named⟩

theorem copy_taken {α : Type} {self : Instance I V} {call : CopyCall V} (path : List V → α)
    (taken : TakenBy self.cls.fields call) :
    copyWith null path self call = .ok (path (copyValues null self call 0 self.cls.fields).1) := by
  have once := (first_repeated_none [] call.names).mpr ⟨taken.once, by simp⟩
  have used := (all_used_iff null self.cls self call taken.once).mpr taken.known
  unfold copyWith
  rw [← CopyCall.names, once]
  simp only
  rw [if_neg (Nat.not_lt.mpr taken.fit), if_neg (not_not.mpr used)]

theorem copy_refused {α : Type} {self : Instance I V} {call : CopyCall V} (path : List V → α)
    (refused : ¬TakenBy self.cls.fields call) :
    ∃ reason, copyWith null path self call = .error reason := by
  unfold copyWith
  rw [← CopyCall.names]
  cases repeats : firstRepeated [] call.names with
  | some name => exact ⟨_, rfl⟩
  | none =>
      have once := ((first_repeated_none [] call.names).mp repeats).1
      simp only
      split_ifs with more unused
      · exact ⟨_, rfl⟩
      · cases rejectCopyKeywords self.cls.fields call.positional.length call.named <;>
          exact ⟨_, rfl⟩
      · have known := (all_used_iff null self.cls self call once).mp (not_not.mp unused)
        exact absurd ⟨once, Nat.le_of_not_lt more, known⟩ refused

/-! ## The new instance -/

theorem find_entry {entries : List (String × V)} {key : String} {value : V}
    (apart : (entries.map Prod.fst).Nodup) (member : (key, value) ∈ entries) :
    (entries.find? fun entry => entry.1 == key).map Prod.snd = some value := by
  induction entries with
  | nil => simp at member
  | cons entry rest ih =>
      rw [List.map_cons, List.nodup_cons] at apart
      by_cases here : entry.1 = key
      · rw [List.find?_cons_of_pos (by simpa using here)]
        rcases List.mem_cons.mp member with same | later
        · rw [← same]
          rfl
        · have again := List.mem_map_of_mem (f := Prod.fst) later
          rw [← here] at again
          exact absurd again apart.1
      · rw [List.find?_cons_of_neg (by simpa using here)]
        rcases List.mem_cons.mp member with same | later
        · exact absurd (congrArg Prod.fst same).symm here
        · exact ih apart.2 later

/-- `STORE_FIELD_IF_NEW` of each entry in turn. -/
def storeFieldsIfNew (o : Instance I V) : List (String × V) → Instance I V
  | [] => o
  | (key, value) :: rest =>
      storeFieldsIfNew
        (match o.own key with
        | none => { o with own := fun other => if other = key then some value else o.own other }
        | some _ => o) rest

theorem store_fields_if_new (o : Instance I V) (entries : List (String × V)) :
    (storeFieldsIfNew o entries).address = o.address ∧
      (storeFieldsIfNew o entries).cls = o.cls ∧
      ∀ k, (storeFieldsIfNew o entries).own k =
        (o.own k).or ((entries.find? fun entry => entry.1 == k).map Prod.snd) := by
  induction entries generalizing o with
  | nil => simp [storeFieldsIfNew]
  | cons entry rest ih =>
      obtain ⟨key, value⟩ := entry
      rw [storeFieldsIfNew]
      cases present : o.own key with
      | some old =>
          simp only
          obtain ⟨address, cls, own⟩ := ih o
          refine ⟨address, cls, fun k => ?_⟩
          rw [own]
          by_cases here : key = k
          · rw [← here, present]
            rfl
          · rw [List.find?_cons_of_neg (by simpa using here)]
      | none =>
          simp only
          obtain ⟨address, cls, own⟩ := ih { o with
            own := fun other => if other = key then some value else o.own other }
          refine ⟨address, cls, fun k => ?_⟩
          rw [own]
          simp only
          by_cases here : key = k
          · rw [if_pos here.symm, List.find?_cons_of_pos (by simpa using here), ← here, present]
            rfl
          · rw [if_neg (Ne.symm here), List.find?_cons_of_neg (by simpa using here)]

theorem run_parameter_fields (machine : Machine I V E) (cls : CaseClass I) (o : Instance I V)
    (slots : List V) (k : Nat) (params : List Param) :
    (cls.parameterFields k params).foldlM machine.step (o, slots) =
      .ok (storeFieldsIfNew o ((params.map cls.key).zip (slots.drop k)), slots) := by
  induction params generalizing k o with
  | nil => rfl
  | cons p rest ih =>
      rw [CaseClass.parameterFields, List.foldlM_cons, Machine.step, List.map_cons]
      rcases Nat.lt_or_ge k slots.length with inside | past
      · rw [List.getElem?_eq_getElem inside, List.drop_eq_getElem_cons inside, List.zip_cons_cons,
          storeFieldsIfNew]
        cases present : o.own (cls.key p) with
        | some old => exact ih o (k + 1)
        | none => exact ih _ (k + 1)
      · have later := ih o (k + 1)
        rw [List.drop_eq_nil_of_le (by omega), List.zip_nil_right] at later
        rw [List.getElem?_eq_none past, List.drop_eq_nil_of_le past, List.zip_nil_right]
        exact later

/-- The compiler's flag: the constructor has only the stores of the fields. -/
theorem construct_fields_only (machine : Machine I V E) (cell : Nat) {cls : CaseClass I}
    (values : List V) (only : cls.fieldsOnlyInit = true) :
    construct machine cell cls values =
      .ok (storeFieldsIfNew ⟨cell, cls, fun _ => none⟩ (cls.fields.zip values)) := by
  rw [CaseClass.fieldsOnlyInit, Bool.and_eq_true, Bool.and_eq_true, List.isEmpty_iff,
    List.isEmpty_iff] at only
  obtain ⟨⟨-, noWidening⟩, noBody⟩ := only
  rw [construct, CaseClass.constructor, noWidening, noBody, List.nil_append, List.map_nil,
    List.append_nil, run_parameter_fields, List.drop_zero]
  rfl

theorem zip_keys_nodup (cls : CaseClass I) {values : List V}
    (length : values.length = cls.fields.length) :
    ((cls.fields.zip values).map Prod.fst).Nodup := by
  rw [List.map_fst_zip (Nat.le_of_eq length.symm)]
  exact cls.fields_nodup

theorem stored_element {cls : CaseClass I} {values : List V} (cell : Nat)
    (length : values.length = cls.fields.length) {key : String} {value : V}
    (member : (key, value) ∈ cls.fields.zip values) :
    element null (storeFieldsIfNew ⟨cell, cls, fun _ => none⟩ (cls.fields.zip values)) key =
      value := by
  rw [element, (store_fields_if_new _ _).2.2, Option.none_or,
    find_entry (zip_keys_nodup cls length) member]
  rfl

/-- Rewriting entries keeps the others, and rewritten entries have their values. -/
theorem set_attributes_element (cell : Nat) (self : Instance I V) {changed : List (String × V)}
    (apart : (changed.map Prod.fst).Nodup) {key : String} {value : V}
    (holds : (key, value) ∈ changed ∨
      key ∉ changed.map Prod.fst ∧ element null self key = value) :
    element null (setAttributes cell self changed) key = value := by
  rw [element, setAttributes]
  rcases holds with member | ⟨other, same⟩
  · have reversed : (changed.reverse.map Prod.fst).Nodup := by
      rwa [List.map_reverse, List.nodup_reverse]
    simp only
    rw [find_entry reversed (List.mem_reverse.mpr member)]
    rfl
  · have missing : changed.reverse.find? (fun entry => entry.1 == key) = none := by
      apply List.find?_eq_none.mpr
      intro entry member
      have inside := List.mem_map_of_mem (f := Prod.fst) (List.mem_reverse.mp member)
      simp only [beq_iff_eq]
      exact fun here => other (here ▸ inside)
    simp only
    rw [missing]
    exact same

theorem derived_element [DecidableEq V] {self : Instance I V} {values : List V} (cell : Nat)
    (length : values.length = self.cls.fields.length) {key : String} {value : V}
    (member : (key, value) ∈ self.cls.fields.zip values) :
    element null (derived null cell self values) key = value := by
  have apart := zip_keys_nodup self.cls length
  unfold derived
  simp only
  generalize self.cls.fields.zip values = entries at apart member ⊢
  cases changes : entries.filter fun entry => decide (entry.2 ≠ element null self entry.1) with
  | nil =>
      have kept : ∀ entry ∈ entries, entry.2 = element null self entry.1 := by
        intro entry inside
        have unchanged := List.filter_eq_nil_iff.mp changes entry inside
        simpa using unchanged
      cases entries with
      | nil => simp at member
      | cons first rest =>
          apply set_attributes_element null cell self (by simp)
          by_cases here : key = first.1
          · left
            have same := (kept _ member).trans (here ▸ (kept first List.mem_cons_self).symm)
            rw [List.mem_singleton]
            exact Prod.ext here same
          · right
            exact ⟨by simpa using here, (kept _ member).symm⟩
  | cons change more =>
      have part : (change :: more).Sublist entries := changes ▸ List.filter_sublist
      apply set_attributes_element null cell self (apart.sublist (part.map Prod.fst))
      by_cases differs : value ≠ element null self key
      · left
        rw [← changes]
        exact List.mem_filter.mpr ⟨member, by simpa using differs⟩
      · right
        constructor
        · intro inside
          obtain ⟨other, otherIn, sameKey⟩ := List.mem_map.mp inside
          have found := find_entry apart (part.subset otherIn)
          rw [sameKey, find_entry apart member] at found
          rw [← changes] at otherIn
          have changed := (List.mem_filter.mp otherIn).2
          rw [sameKey, ← Option.some.inj found] at changed
          simp only [decide_eq_true_eq] at changed
          exact differs changed
        · exact (not_not.mp differs).symm

/-! ## A call -/

/-- What `copy` does: a call is an error when it is refused and no other. Else the new instance
comes from the values that the positional argument, the one named by the parameter's source
name, or the receiver gives each field. Where the derived instance is taken, the constructor
builds an instance of the same class with the same value in every field, and neither is the
receiver. -/
structure CopyMeets (E : Type) [DecidableEq V] (obj : Instance I V)
    (call : CopyCall V) : Prop where
  refuses : ∀ (machine : Machine I V E) (cell : Nat),
    (∃ reason, productCopy null machine cell obj call = .error reason) ↔ Refused obj.cls call
  answers : ¬Refused obj.cls call → ∃ values, values.length = obj.cls.params.length ∧
    (∀ i p, obj.cls.params[i]? = some p →
      values[i]? = some (valueAt null obj call (obj.cls.key p) p.name i)) ∧
    ∀ (machine : Machine I V E) (cell : Nat),
      productCopy null machine cell obj call = .ok (copied null machine cell obj values)
  paths : obj.cls.fieldsOnlyInit = true → ∀ values, values.length = obj.cls.params.length →
    ∀ (machine : Machine I V E) (fast slow : Nat), obj.address < fast → obj.address < slow →
      ∃ built, construct machine slow obj.cls values = .ok built ∧
        built.address ≠ obj.address ∧ (derived null fast obj values).address ≠ obj.address ∧
        built.cls = (derived null fast obj values).cls ∧
        ∀ key ∈ obj.cls.fields,
          element null built key = element null (derived null fast obj values) key

theorem value_at_name {self : Instance I V} {call : CopyCall V}
    (visible : NoPrivateNamed self.cls call) (taken : TakenBy self.cls.names call) {p : Param}
    (inP : p ∈ self.cls.params) (i : Nat) :
    valueAt null self call (self.cls.key p) p.name i =
      valueAt null self call (self.cls.key p) (self.cls.key p) i := by
  cases hidden : p.isPrivate with
  | false => rw [self.cls.key_public hidden]
  | true =>
      have byKey := ((no_private_named_iff self.cls call).mp visible).mpr taken
      have noName : p.name ∉ call.names := fun named => (visible p inP hidden).1 named taken
      have noKey : self.cls.key p ∉ call.names := fun named => (visible p inP hidden).2 named byKey
      rw [valueAt, valueAt, keyword_none noName, keyword_none noKey]

theorem values_by_name {self : Instance I V} {call : CopyCall V}
    (visible : NoPrivateNamed self.cls call) (taken : TakenBy self.cls.names call) (i : Nat)
    (p : Param) (param : self.cls.params[i]? = some p) :
    (copyValues null self call 0 self.cls.fields).1[i]? =
      some (valueAt null self call (self.cls.key p) p.name i) := by
  have inP := List.mem_of_getElem? param
  rw [copy_values_get, CaseClass.fields, List.getElem?_map, param, Nat.zero_add,
    value_at_name null visible taken inP]
  rfl

/-- The derived instance and the one built by a constructor that only stores the fields. -/
theorem paths_agree [DecidableEq V] {self : Instance I V} {values : List V}
    (only : self.cls.fieldsOnlyInit = true) (length : values.length = self.cls.params.length)
    (machine : Machine I V E) {fast slow : Nat} (newFast : self.address < fast)
    (newSlow : self.address < slow) :
    ∃ built, construct machine slow self.cls values = .ok built ∧
      built.address ≠ self.address ∧ (derived null fast self values).address ≠ self.address ∧
      built.cls = (derived null fast self values).cls ∧
      ∀ key ∈ self.cls.fields,
        element null built key = element null (derived null fast self values) key := by
  have sizes : values.length = self.cls.fields.length := by
    rw [length, CaseClass.fields, List.length_map]
  obtain ⟨address, cls, -⟩ := store_fields_if_new
    ⟨slow, self.cls, fun _ => none⟩ (self.cls.fields.zip values)
  have cell : (derived null fast self values).address = fast ∧
      (derived null fast self values).cls = self.cls := by
    unfold derived
    simp only
    split <;> exact ⟨rfl, rfl⟩
  refine ⟨_, construct_fields_only machine slow values only, ?_, ?_, ?_, ?_⟩
  · rw [address]
    exact (Nat.ne_of_lt newSlow).symm
  · rw [cell.1]
    exact (Nat.ne_of_lt newFast).symm
  · rw [cls, cell.2]
  · intro key inside
    rw [← List.map_fst_zip (Nat.le_of_eq sizes.symm)] at inside
    obtain ⟨⟨_, value⟩, member, rfl⟩ := List.mem_map.mp inside
    rw [stored_element null slow sizes member, derived_element null fast sizes member]

/-- `case class C(private val a: Int)`. -/
def privateClass : CaseClass Empty where
  typeKey := "C"
  params := [⟨"a", true, false⟩]
  mutableInstances := false
  body := []
  namesApart := by decide
  plainNames := by decide

end ProtoScala.Runtime.CaseClassCopy
