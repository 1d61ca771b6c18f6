import ProtoScala.Compiler.Globals
import ProtoScala.Library.RecordTables
import ProtoScala.Runtime.PreludeImage

/-!
# The symbols of the prelude image

Behind the modules the image holds the compiler's table of globals: the bindings, the names of the
types and their descriptions, and the by-name selector index. `collectGlobals` writes them into
the tables in the order of their names, so that the generated file does not depend on the order of
a hash map; the second half of `buildPreludeImage` fills them into the session's table.

Of the table of globals the image leaves out the overloads of a binding, and this model what
`bind` and `aliasType` note besides the entry: the names of the unit and the reserved keys.
-/

namespace ProtoScala.Runtime.PreludeGlobals

open ProtoScala.Compiler.Globals (BindingKind Overload)
open ProtoScala.Library.RecordTables
open ProtoScala.Runtime.PreludeImage

set_option autoImplicit false

/-! ## The table of globals -/

inductive ClassKind where
  | class_ | trait | object
  deriving DecidableEq, Repr

inductive MemberKind where
  | val | var | lazyVal | def_ | paramlessDef
  deriving DecidableEq, Repr

structure MemberInfo where
  kind : MemberKind := .def_
  key : String
  concrete : Bool := true
  byNameMasks : List UInt32 := []
  byNameValue : Bool := false
  deriving DecidableEq, Repr

structure ClassInfo where
  name : String
  key : String
  kind : ClassKind := .class_
  isCase : Bool := false
  isAbstract : Bool := false
  isFinal : Bool := false
  isSealed : Bool := false
  builtin : Bool := false
  mutableInstances : Bool := false
  hasInit : Bool := true
  linearization : List String := []
  fields : List String := []
  ctorParams : List String := []
  primaryArity : Nat := 0
  primaryMinArity : Nat := 0
  primaryVariadic : Bool := false
  primaryByNameMasks : List UInt32 := []
  auxArities : List Nat := []
  members : Map String MemberInfo := ∅
  companionTermKey : String := ""
  companionTypeKey : String := ""
  companionHasApply : Bool := false
  companionHasUnapply : Bool := false

structure GlobalBinding where
  kind : BindingKind
  key : String
  byNameMasks : List UInt32 := []
  overloads : List Overload := []

structure GlobalTable where
  table : Map String GlobalBinding := ∅
  typeKeyOfName : Map String String := ∅
  typesByKey : Map String ClassInfo := ∅
  byNameSelectors : Map String UInt32 := ∅

/-! ## The tables -/

structure PreludeBindingRec where
  name : String
  kind : BindingKind
  key : String
  maskFirst : Nat
  maskCount : Nat

structure PreludeMemberRec where
  name : String
  kind : MemberKind
  key : String
  concrete : Bool
  byNameValue : Bool
  maskFirst : Nat
  maskCount : Nat

def kPTCase : UInt32 := 1
def kPTAbstract : UInt32 := 2
def kPTFinal : UInt32 := 4
def kPTSealed : UInt32 := 8
def kPTBuiltin : UInt32 := 16
def kPTMutableInstances : UInt32 := 32
def kPTHasInit : UInt32 := 64
def kPTPrimaryVariadic : UInt32 := 128
def kPTCompanionHasApply : UInt32 := 256
def kPTCompanionHasUnapply : UInt32 := 512

structure PreludeTypeRec where
  name : String
  key : String
  kind : ClassKind
  flags : UInt32
  linFirst : Nat
  linCount : Nat
  fieldFirst : Nat
  fieldCount : Nat
  ctorFirst : Nat
  ctorCount : Nat
  auxFirst : Nat
  auxCount : Nat
  primaryMaskFirst : Nat
  primaryMaskCount : Nat
  memberFirst : Nat
  memberCount : Nat
  primaryArity : UInt32
  primaryMinArity : UInt32
  companionTermKey : String
  companionTypeKey : String

/-- The tables of the modules and those of the globals; the strings are shared. -/
structure GlobalTables extends Tables where
  masks : List UInt32 := []
  auxArities : List UInt32 := []
  bindings : List PreludeBindingRec := []
  members : List PreludeMemberRec := []
  types : List PreludeTypeRec := []
  typeAliases : List (String × String) := []
  selectors : List (String × UInt32) := []

/-! ## Collecting -/

def addBinding (t : GlobalTables) (entry : String × GlobalBinding) : GlobalTables :=
  { t with
    masks := t.masks ++ entry.2.byNameMasks
    bindings := t.bindings ++ [{
      name := entry.1, kind := entry.2.kind, key := entry.2.key
      maskFirst := t.masks.length, maskCount := entry.2.byNameMasks.length }] }

def addMember (t : GlobalTables) (entry : String × MemberInfo) : GlobalTables :=
  { t with
    masks := t.masks ++ entry.2.byNameMasks
    members := t.members ++ [{
      name := entry.1, kind := entry.2.kind, key := entry.2.key, concrete := entry.2.concrete
      byNameValue := entry.2.byNameValue
      maskFirst := t.masks.length, maskCount := entry.2.byNameMasks.length }] }

def flag (set : Bool) (bit : UInt32) : UInt32 := if set then bit else 0

def classFlags (c : ClassInfo) : UInt32 :=
  flag c.isCase kPTCase ||| flag c.isAbstract kPTAbstract ||| flag c.isFinal kPTFinal |||
    flag c.isSealed kPTSealed ||| flag c.builtin kPTBuiltin |||
    flag c.mutableInstances kPTMutableInstances ||| flag c.hasInit kPTHasInit |||
    flag c.primaryVariadic kPTPrimaryVariadic |||
    flag c.companionHasApply kPTCompanionHasApply |||
    flag c.companionHasUnapply kPTCompanionHasUnapply

/-- The tables with what the record of a type refers to, its members last. -/
def addTypeParts (t : GlobalTables) (c : ClassInfo) : GlobalTables :=
  { t with
    strings := t.strings ++ c.linearization ++ c.fields ++ c.ctorParams
    auxArities := t.auxArities ++ c.auxArities.map UInt32.ofNat
    masks := t.masks ++ c.primaryByNameMasks }

def typeRec (t : GlobalTables) (key : String) (c : ClassInfo) : PreludeTypeRec where
  name := c.name
  key := key
  kind := c.kind
  flags := classFlags c
  linFirst := t.strings.length
  linCount := c.linearization.length
  fieldFirst := t.strings.length + c.linearization.length
  fieldCount := c.fields.length
  ctorFirst := t.strings.length + c.linearization.length + c.fields.length
  ctorCount := c.ctorParams.length
  auxFirst := t.auxArities.length
  auxCount := c.auxArities.length
  primaryMaskFirst := t.masks.length
  primaryMaskCount := c.primaryByNameMasks.length
  memberFirst := t.members.length
  memberCount := (ordered c.members).length
  primaryArity := UInt32.ofNat c.primaryArity
  primaryMinArity := UInt32.ofNat c.primaryMinArity
  companionTermKey := c.companionTermKey
  companionTypeKey := c.companionTypeKey

def addType (t : GlobalTables) (entry : String × ClassInfo) : GlobalTables :=
  let filled := (ordered entry.2.members).foldl addMember (addTypeParts t entry.2)
  { filled with types := filled.types ++ [typeRec t entry.1 entry.2] }

/-- `collectGlobals`, and the selectors that `emitImage` writes. -/
def collectGlobals (g : GlobalTable) (t : GlobalTables) : GlobalTables :=
  let bound := (ordered g.table).foldl addBinding t
  let named := { bound with typeAliases := bound.typeAliases ++ ordered g.typeKeyOfName }
  let typed := (ordered g.typesByKey).foldl addType named
  { typed with selectors := ordered g.byNameSelectors }

/-! ## Rebuilding -/

def masksAt (t : GlobalTables) (first count : Nat) : List UInt32 := range t.masks first count

def bindingOf (t : GlobalTables) (r : PreludeBindingRec) : String × GlobalBinding :=
  (cString r.name,
    { kind := r.kind, key := cString r.key, byNameMasks := masksAt t r.maskFirst r.maskCount })

def memberOf (t : GlobalTables) (r : PreludeMemberRec) : String × MemberInfo :=
  (cString r.name,
    { kind := r.kind, key := cString r.key, concrete := r.concrete, byNameValue := r.byNameValue
      byNameMasks := masksAt t r.maskFirst r.maskCount })

def has (flags bit : UInt32) : Bool := flags &&& bit != 0

def classInfoOf (t : GlobalTables) (r : PreludeTypeRec) : ClassInfo where
  name := cString r.name
  key := cString r.key
  kind := r.kind
  isCase := has r.flags kPTCase
  isAbstract := has r.flags kPTAbstract
  isFinal := has r.flags kPTFinal
  isSealed := has r.flags kPTSealed
  builtin := has r.flags kPTBuiltin
  mutableInstances := has r.flags kPTMutableInstances
  hasInit := has r.flags kPTHasInit
  primaryVariadic := has r.flags kPTPrimaryVariadic
  companionHasApply := has r.flags kPTCompanionHasApply
  companionHasUnapply := has r.flags kPTCompanionHasUnapply
  linearization := stringsAt t.toTables r.linFirst r.linCount
  fields := stringsAt t.toTables r.fieldFirst r.fieldCount
  ctorParams := stringsAt t.toTables r.ctorFirst r.ctorCount
  primaryArity := r.primaryArity.toNat
  primaryMinArity := r.primaryMinArity.toNat
  primaryByNameMasks := masksAt t r.primaryMaskFirst r.primaryMaskCount
  auxArities := (range t.auxArities r.auxFirst r.auxCount).map UInt32.toNat
  members := ((range t.members r.memberFirst r.memberCount).map (memberOf t)).foldl emplace ∅
  companionTermKey := cString r.companionTermKey
  companionTypeKey := cString r.companionTypeKey

/-- The union of all by-name masks of a selector. -/
def anyByNameMaskOf (selectors : Map String UInt32) (selector : String) : UInt32 :=
  (selectors.lookup selector).getD 0

def noteByNameSelector (selectors : Map String UInt32) (entry : String × UInt32) :
    Map String UInt32 :=
  if entry.2 = 0 then selectors
  else selectors.insert entry.1 (anyByNameMaskOf selectors entry.1 ||| entry.2)

/-- `bind`, `defineType` and `aliasType` for every record. -/
def fillGlobals (t : GlobalTables) (g : GlobalTable) : GlobalTable where
  table := fill (t.bindings.map (bindingOf t)) g.table
  byNameSelectors := (t.selectors.map fun r => (cString r.1, r.2)).foldl noteByNameSelector
    g.byNameSelectors
  typesByKey := fill ((t.types.map (classInfoOf t)).map fun c => (c.key, c)) g.typesByKey
  typeKeyOfName := fill (t.typeAliases.map fun r => (cString r.1, cString r.2)) g.typeKeyOfName

/-- The whole of `buildPreludeImage`. -/
def buildPrelude (t : GlobalTables) (g : GlobalTable) :
    Except String (BytecodeModule × GlobalTable) := do
  let top ← buildPreludeImage t.toTables
  return (top, fillGlobals t g)

/-! ## What the compiler builds -/

structure MemberImaged (name : String) (m : MemberInfo) : Prop where
  name : Clean name
  key : Clean m.key

/-- A type stands under its own key, and its counts fit the records. -/
structure TypeImaged (key : String) (c : ClassInfo) : Prop where
  own : c.key = key
  name : Clean c.name
  key : Clean c.key
  strings : ∀ s ∈ c.linearization ++ c.fields ++ c.ctorParams, Clean s
  arity : c.primaryArity < 4294967296
  minArity : c.primaryMinArity < 4294967296
  aux : ∀ arity ∈ c.auxArities, arity < 4294967296
  members : ∀ name m, c.members.lookup name = some m → MemberImaged name m
  companions : Clean c.companionTermKey ∧ Clean c.companionTypeKey

structure GlobalsImaged (g : GlobalTable) : Prop where
  bindings : ∀ name b, g.table.lookup name = some b → Clean name ∧ Clean b.key
  typeKeys : ∀ name key, g.typeKeyOfName.lookup name = some key → Clean name ∧ Clean key
  types : ∀ key c, g.typesByKey.lookup key = some c → TypeImaged key c
  selectors : ∀ name mask, g.byNameSelectors.lookup name = some mask → Clean name

/-! ## Reading back -/

/-- The tables that the records of the globals refer to grow. -/
structure Grows (t t' : GlobalTables) : Prop where
  strings : t.strings <+: t'.strings
  masks : t.masks <+: t'.masks
  auxArities : t.auxArities <+: t'.auxArities
  members : t.members <+: t'.members

theorem Grows.refl (t : GlobalTables) : Grows t t := by
  constructor <;> exact List.prefix_rfl

theorem Grows.trans {t t' t'' : GlobalTables} (first : Grows t t') (second : Grows t' t'') :
    Grows t t'' :=
  ⟨first.strings.trans second.strings, first.masks.trans second.masks,
    first.auxArities.trans second.auxArities, first.members.trans second.members⟩

def withoutOverloads (b : GlobalBinding) : GlobalBinding := { b with overloads := [] }

theorem add_binding_reads (t : GlobalTables) (entry : String × GlobalBinding)
    (name : Clean entry.1) (key : Clean entry.2.key) :
    Grows t (addBinding t entry) ∧
      ∃ r, (addBinding t entry).bindings = t.bindings ++ [r] ∧
        ∀ t', Grows (addBinding t entry) t' →
          bindingOf t' r = (entry.1, withoutOverloads entry.2) := by
  refine ⟨⟨List.prefix_rfl, List.prefix_append _ _, List.prefix_rfl, List.prefix_rfl⟩, _, rfl,
    fun t' grows => ?_⟩
  simp only [bindingOf, masksAt, range_part grows.masks, c_string_clean name, c_string_clean key]
  rfl

theorem add_member_reads (t : GlobalTables) (entry : String × MemberInfo)
    (clean : MemberImaged entry.1 entry.2) :
    Grows t (addMember t entry) ∧
      ∃ r, (addMember t entry).members = t.members ++ [r] ∧
        ∀ t', Grows (addMember t entry) t' → memberOf t' r = entry := by
  refine ⟨⟨List.prefix_rfl, List.prefix_append _ _, List.prefix_rfl, List.prefix_append _ _⟩, _,
    rfl, fun t' grows => ?_⟩
  simp only [memberOf, masksAt, range_part grows.masks, c_string_clean clean.name,
    c_string_clean clean.key]

theorem members_read (entries : List (String × MemberInfo))
    (clean : ∀ entry ∈ entries, MemberImaged entry.1 entry.2) (t : GlobalTables) :
    Grows t (entries.foldl addMember t) ∧
      ∃ recs, (entries.foldl addMember t).members = t.members ++ recs ∧
        recs.length = entries.length ∧
        ∀ t', Grows (entries.foldl addMember t) t' → recs.map (memberOf t') = entries.map id :=
  fold_read_back Grows.refl Grows.trans entries
    (fun t entry mem => add_member_reads t entry (clean entry mem)) t

theorem members_types (entries : List (String × MemberInfo)) (t : GlobalTables) :
    (entries.foldl addMember t).types = t.types := by
  induction entries generalizing t with
  | nil => rfl
  | cons entry rest kept => exact kept (addMember t entry)

theorem has_or (first second bit : UInt32) :
    has (first ||| second) bit = (has first bit || has second bit) := by
  have both : (first ||| second) &&& bit = (first &&& bit) ||| (second &&& bit) := by
    rw [← UInt32.toBitVec_inj]
    exact BitVec.and_or_distrib_right
  rw [has, has, has, both, Bool.eq_iff_iff]
  simp only [bne_iff_ne, ne_eq, UInt32.or_eq_zero_iff, Bool.or_eq_true]
  exact Decidable.not_and_iff_not_or_not

theorem has_flag (set : Bool) (own bit : UInt32) :
    has (flag set own) bit = (has own bit && set) := by
  cases set with
  | false =>
      rw [Bool.and_false, has, flag, if_neg Bool.false_ne_true, UInt32.zero_and]
      rfl
  | true => rw [Bool.and_true, flag, if_pos rfl]

/-- The ten flags of a type do not share a bit. -/
theorem flags_apart : ∀ a b c d e f g h i j : Bool,
    let flags := flag a kPTCase ||| flag b kPTAbstract ||| flag c kPTFinal ||| flag d kPTSealed |||
      flag e kPTBuiltin ||| flag f kPTMutableInstances ||| flag g kPTHasInit |||
      flag h kPTPrimaryVariadic ||| flag i kPTCompanionHasApply ||| flag j kPTCompanionHasUnapply
    has flags kPTCase = a ∧ has flags kPTAbstract = b ∧ has flags kPTFinal = c ∧
      has flags kPTSealed = d ∧ has flags kPTBuiltin = e ∧ has flags kPTMutableInstances = f ∧
      has flags kPTHasInit = g ∧ has flags kPTPrimaryVariadic = h ∧
      has flags kPTCompanionHasApply = i ∧ has flags kPTCompanionHasUnapply = j := by
  intro a b c d e f g h i j
  simp only [has_or, has_flag]
  refine ⟨?_, ?_, ?_, ?_, ?_, ?_, ?_, ?_, ?_, ?_⟩
  · cases a <;> rfl
  · cases b <;> rfl
  · cases c <;> rfl
  · cases d <;> rfl
  · cases e <;> rfl
  · cases f <;> rfl
  · cases g <;> rfl
  · cases h <;> rfl
  · cases i <;> rfl
  · cases j <;> rfl

theorem add_type_reads (t : GlobalTables) (entry : String × ClassInfo)
    (imaged : TypeImaged entry.1 entry.2) :
    Grows t (addType t entry) ∧
      ∃ r, (addType t entry).types = t.types ++ [r] ∧
        ∀ t', Grows (addType t entry) t' → classInfoOf t' r = entry.2 := by
  obtain ⟨name, c⟩ := entry
  obtain ⟨own, clean, key, strings, arity, minArity, aux, members, term, type⟩ := imaged
  obtain rfl : c.key = name := own
  obtain ⟨grown, recs, added, length, same⟩ := members_read (ordered c.members)
    (fun entry mem => members entry.1 entry.2 (mem_ordered.mp mem)) (addTypeParts t c)
  have parts : Grows t (addTypeParts t c) :=
    ⟨⟨c.linearization ++ c.fields ++ c.ctorParams, by simp [addTypeParts]⟩, List.prefix_append _ _,
      List.prefix_append _ _, List.prefix_rfl⟩
  have whole := parts.trans grown
  refine ⟨⟨whole.strings, whole.masks, whole.auxArities, whole.members⟩, typeRec t c.key c, ?_,
    fun t' grows => ?_⟩
  · simp only [addType, members_types]
    rfl
  · have later : Grows ((ordered c.members).foldl addMember (addTypeParts t c)) t' :=
      ⟨grows.strings, grows.masks, grows.auxArities, grows.members⟩
    have stored := grown.trans later
    have texts : t.strings ++ c.linearization ++ c.fields ++ c.ctorParams <+: t'.strings :=
      stored.strings
    have linearization : stringsAt t'.toTables t.strings.length c.linearization.length =
        c.linearization :=
      strings_at (fun s mem => strings s (by simp [mem]))
        (List.IsPrefix.trans ⟨c.fields ++ c.ctorParams, by simp⟩ texts)
    have fields : stringsAt t'.toTables (t.strings.length + c.linearization.length)
        c.fields.length = c.fields := by
      rw [← List.length_append]
      exact strings_at (fun s mem => strings s (by simp [mem]))
        (List.IsPrefix.trans ⟨c.ctorParams, rfl⟩ texts)
    have ctorParams : stringsAt t'.toTables
        (t.strings.length + c.linearization.length + c.fields.length) c.ctorParams.length =
        c.ctorParams := by
      rw [← List.length_append, ← List.length_append]
      exact strings_at (fun s mem => strings s (by simp [mem])) texts
    have masks : masksAt t' t.masks.length c.primaryByNameMasks.length = c.primaryByNameMasks :=
      range_part stored.masks
    have arities : (range t'.auxArities t.auxArities.length c.auxArities.length).map
        UInt32.toNat = c.auxArities := by
      have there := range_part stored.auxArities
      rw [List.length_map] at there
      rw [there, List.map_map]
      exact (List.map_congr_left fun arity mem => word (aux arity mem)).trans (List.map_id' _)
    have inner : ((range t'.members t.members.length (ordered c.members).length).map
        (memberOf t')).foldl emplace ∅ = c.members := by
      have there : t.members ++ recs <+: t'.members := added ▸ later.members
      rw [← length, range_part there, same t' later, List.map_id, emplace_ordered]
    obtain ⟨f1, f2, f3, f4, f5, f6, f7, f8, f9, f10⟩ := flags_apart c.isCase c.isAbstract c.isFinal
      c.isSealed c.builtin c.mutableInstances c.hasInit c.primaryVariadic c.companionHasApply
      c.companionHasUnapply
    simp only [classInfoOf, typeRec, classFlags, linearization, fields, ctorParams, masks, arities,
      inner, f1, f2, f3, f4, f5, f6, f7, f8, f9, f10, c_string_clean clean, c_string_clean key,
      c_string_clean term, c_string_clean type, word arity, word minArity]

theorem bindings_read (entries : List (String × GlobalBinding))
    (clean : ∀ entry ∈ entries, Clean entry.1 ∧ Clean entry.2.key) (t : GlobalTables) :
    Grows t (entries.foldl addBinding t) ∧
      ∃ recs, (entries.foldl addBinding t).bindings = t.bindings ++ recs ∧
        recs.length = entries.length ∧
        ∀ t', Grows (entries.foldl addBinding t) t' →
          recs.map (bindingOf t') = entries.map fun entry => (entry.1, withoutOverloads entry.2) :=
  fold_read_back Grows.refl Grows.trans entries
    (fun t entry mem => add_binding_reads t entry (clean entry mem).1 (clean entry mem).2) t

theorem types_read (entries : List (String × ClassInfo))
    (imaged : ∀ entry ∈ entries, TypeImaged entry.1 entry.2) (t : GlobalTables) :
    Grows t (entries.foldl addType t) ∧
      ∃ recs, (entries.foldl addType t).types = t.types ++ recs ∧
        recs.length = entries.length ∧
        ∀ t', Grows (entries.foldl addType t) t' →
          recs.map (classInfoOf t') = entries.map Prod.snd :=
  fold_read_back Grows.refl Grows.trans entries
    (fun t entry mem => add_type_reads t entry (imaged entry mem)) t

/-! ## The selectors -/

theorem note_mask (m : Map String UInt32) (entry : String × UInt32) (name : String) :
    anyByNameMaskOf (noteByNameSelector m entry) name =
      if name = entry.1 then anyByNameMaskOf m name ||| entry.2 else anyByNameMaskOf m name := by
  unfold noteByNameSelector
  by_cases nothing : entry.2 = 0
  · simp [nothing]
  · rw [if_neg nothing]
    by_cases same : name = entry.1
    · subst same
      rw [if_pos rfl, anyByNameMaskOf, Finmap.lookup_insert]
      rfl
    · rw [if_neg same, anyByNameMaskOf, Finmap.lookup_insert_of_ne m same]
      rfl

theorem notes_absent {name : String} (entries : List (String × UInt32)) :
    ∀ m : Map String UInt32, name ∉ entries.map Prod.fst →
      anyByNameMaskOf (entries.foldl noteByNameSelector m) name = anyByNameMaskOf m name := by
  induction entries with
  | nil => exact fun _ _ => rfl
  | cons entry rest noted =>
      intro m absent
      obtain ⟨other, absent⟩ := not_or.mp (mt List.mem_cons.mpr absent)
      rw [List.foldl_cons, noted _ absent, note_mask, if_neg other]

theorem notes_present {name : String} {mask : UInt32} (entries : List (String × UInt32)) :
    ∀ m : Map String UInt32, (entries.map Prod.fst).Nodup → (name, mask) ∈ entries →
      anyByNameMaskOf (entries.foldl noteByNameSelector m) name =
        anyByNameMaskOf m name ||| mask := by
  induction entries with
  | nil => exact fun _ _ mem => absurd mem List.not_mem_nil
  | cons entry rest noted =>
      intro m nodup mem
      obtain ⟨absent, nodup⟩ := List.nodup_cons.mp nodup
      obtain rfl | mem := List.mem_cons.mp mem
      · rw [List.foldl_cons, notes_absent rest _ absent, note_mask, if_pos rfl]
      · have other : name ≠ entry.1 := by
          rintro rfl
          exact absent (List.mem_map.mpr ⟨_, mem, rfl⟩)
        rw [List.foldl_cons, noted _ nodup mem, note_mask, if_neg other]

theorem selectors_read_back (selectors m : Map String UInt32)
    (clean : ∀ name mask, selectors.lookup name = some mask → Clean name) (name : String) :
    anyByNameMaskOf
        (((ordered selectors).map fun r => (cString r.1, r.2)).foldl noteByNameSelector m) name =
      anyByNameMaskOf m name ||| anyByNameMaskOf selectors name := by
  have read : (ordered selectors).map (fun r => (cString r.1, r.2)) = ordered selectors :=
    (List.map_congr_left fun r mem => by
      rw [c_string_clean (clean r.1 r.2 (mem_ordered.mp mem))]).trans (List.map_id' _)
  rw [read]
  cases there : selectors.lookup name with
  | some mask =>
      rw [notes_present _ m (ordered_nodup selectors) (mem_ordered.mpr there)]
      simp [anyByNameMaskOf, there]
  | none =>
      have absent : name ∉ (ordered selectors).map Prod.fst := by
        rw [ordered_keys, Finset.mem_sort, Finmap.mem_keys]
        exact Finmap.lookup_eq_none.mp there
      rw [notes_absent _ m absent]
      simp [anyByNameMaskOf, there]

/-! ## The round trip -/

/-- The session's table after the image is loaded: what the compiler knew, and else what the
session knew before. -/
structure Filled (g start rebuilt : GlobalTable) : Prop where
  table : ∀ name, rebuilt.table.lookup name =
    ((g.table.lookup name).map withoutOverloads).or (start.table.lookup name)
  typeKeyOfName : ∀ name, rebuilt.typeKeyOfName.lookup name =
    (g.typeKeyOfName.lookup name).or (start.typeKeyOfName.lookup name)
  typesByKey : ∀ key, rebuilt.typesByKey.lookup key =
    (g.typesByKey.lookup key).or (start.typesByKey.lookup key)
  selectors : ∀ name, anyByNameMaskOf rebuilt.byNameSelectors name =
    anyByNameMaskOf start.byNameSelectors name ||| anyByNameMaskOf g.byNameSelectors name

/-- What the types do not touch. -/
structure Kept (t t' : GlobalTables) : Prop where
  bindings : t'.bindings = t.bindings
  typeAliases : t'.typeAliases = t.typeAliases
  tables : ({ t'.toTables with strings := [] } : Tables) = { t.toTables with strings := [] }

theorem Kept.trans {t t' t'' : GlobalTables} (first : Kept t t') (second : Kept t' t'') :
    Kept t t'' :=
  ⟨second.bindings.trans first.bindings, second.typeAliases.trans first.typeAliases,
    second.tables.trans first.tables⟩

theorem fold_kept {E : Type} {add : GlobalTables → E → GlobalTables}
    (step : ∀ t e, Kept t (add t e)) (entries : List E) (t : GlobalTables) :
    Kept t (entries.foldl add t) := by
  induction entries generalizing t with
  | nil => exact ⟨rfl, rfl, rfl⟩
  | cons e rest kept => exact (step t e).trans (kept (add t e))

theorem types_kept (entries : List (String × ClassInfo)) (t : GlobalTables) :
    Kept t (entries.foldl addType t) := by
  refine fold_kept (fun t entry => ?_) entries t
  have one : ∀ t member, Kept t (addMember t member) := fun _ _ => ⟨rfl, rfl, rfl⟩
  have members := fold_kept one (ordered entry.2.members) (addTypeParts t entry.2)
  exact ⟨members.bindings, members.typeAliases, members.tables⟩

theorem bindings_kept (entries : List (String × GlobalBinding)) (t : GlobalTables) :
    (entries.foldl addBinding t).toTables = t.toTables ∧
      (entries.foldl addBinding t).types = t.types ∧
      (entries.foldl addBinding t).typeAliases = t.typeAliases := by
  induction entries generalizing t with
  | nil => exact ⟨rfl, rfl, rfl⟩
  | cons entry rest kept => exact kept (addBinding t entry)

theorem extends_of_same {t t' : Tables}
    (same : ({ t' with strings := [] } : Tables) = { t with strings := [] })
    (strings : t.strings <+: t'.strings) : Extends t t' ∧ t'.modules = t.modules := by
  obtain ⟨code, lines, _, consts, handlers, captures, defaults, modules⟩ := t
  obtain ⟨_, _, _, _, _, _, _, _⟩ := t'
  simp only [Tables.mk.injEq, true_and] at same
  obtain ⟨rfl, rfl, rfl, rfl, rfl, rfl, rfl⟩ := same
  exact ⟨⟨List.prefix_rfl, List.prefix_rfl, strings, List.prefix_rfl, List.prefix_rfl,
    List.prefix_rfl, List.prefix_rfl⟩, rfl⟩

/-- Filling in a map as it was written down. -/
theorem lookup_fill_same {V : Type} (m start : Map String V) (name : String) :
    (fill (ordered m) start).lookup name = (m.lookup name).or (start.lookup name) := by
  have filled := lookup_fill_ordered m id start name
  rw [Option.map_id] at filled
  refine Eq.trans ?_ filled
  exact congrArg (fun entries => (fill entries start).lookup name) (List.map_id' _).symm

/-- `def f(x: => Any)` and `case class C(x: Any)`. -/
def sampleGlobals : GlobalTable where
  table := Finmap.singleton "f" { kind := .def_, key := "f", byNameMasks := [1] }
  typeKeyOfName := Finmap.singleton "C" "@C"
  typesByKey := Finmap.singleton "@C" {
    name := "C", key := "@C", isCase := true, linearization := ["@C", "@AnyRef", "@Any"]
    fields := ["x"], ctorParams := ["x"], primaryArity := 1, primaryMinArity := 1
    members := Finmap.singleton "x" { kind := .val, key := "x" } }
  byNameSelectors := Finmap.singleton "f" 1

theorem lookup_singleton {V : Type} {name other : String} {value found : V}
    (there : (Finmap.singleton name value : Map String V).lookup other = some found) :
    other = name ∧ found = value := by
  have bound : other ∈ (Finmap.singleton name value : Map String V) :=
    Finmap.mem_iff.mpr ⟨found, there⟩
  obtain rfl := (Finmap.mem_singleton other name _).mp bound
  rw [Finmap.lookup_singleton_eq] at there
  exact ⟨rfl, (Option.some.inj there).symm⟩

theorem sample_globals_imaged : GlobalsImaged sampleGlobals where
  bindings _ _ there := by
    obtain ⟨rfl, rfl⟩ := lookup_singleton there
    decide
  typeKeys _ _ there := by
    obtain ⟨rfl, rfl⟩ := lookup_singleton there
    decide
  types _ _ there := by
    obtain ⟨rfl, rfl⟩ := lookup_singleton there
    refine ⟨rfl, by decide, by decide, by decide, by decide, by decide, by decide, ?_, by decide⟩
    intro name member there
    obtain ⟨rfl, rfl⟩ := lookup_singleton there
    exact ⟨by decide, by decide⟩
  selectors _ _ there := by
    obtain ⟨rfl, -⟩ := lookup_singleton there
    decide

end ProtoScala.Runtime.PreludeGlobals
