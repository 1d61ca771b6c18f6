import Mathlib.Data.Multiset.AddSub
import Mathlib.Algebra.Order.Group.Multiset
import Mathlib.Tactic.Abel
import ProtoScala.Library.Outlines

/-!
# Templates inside objects

`expandEnums` turns every `enum` into a sealed class and a companion object with one
template for each case; a hand-written object of that name is folded into the companion.
`liftNestedTemplates` then moves every template that stands in an object to the front of
the unit, under its dotted name. A template in a class or a trait is an error.

A template's `extends` clause is resolved before there is any scope, so lifting also
qualifies the parents that are written with a simple name.
-/

namespace ProtoScala.Frontend.TemplateLifting

open ProtoScala.Library.Outlines

set_option autoImplicit false

inductive TemplateKind where
  | «class» | trait | object | enum
  deriving DecidableEq, Repr

inductive TypeKind where
  | name | applied | function | tuple | byName | repeated | wildcard | infixed | builtin
  deriving DecidableEq, Repr

/-- The arguments of a type are erased. -/
structure TypeTree where
  kind : TypeKind
  name : String
  deriving DecidableEq, Repr

structure ParentRef (E : Type) where
  type : Option TypeTree
  args : List E
  hasArgs : Bool

structure Modifiers where
  isPrivate : Bool
  isProtected : Bool
  isOverride : Bool
  isAbstract : Bool
  isFinal : Bool
  isSealed : Bool
  deriving DecidableEq, Repr

def noModifiers : Modifiers := ⟨false, false, false, false, false, false⟩

structure EnumCase (E P : Type) where
  name : String
  params : List P
  parentArgs : List E
  hasParentArgs : Bool
  hasParens : Bool

/-- A template without its body. `E` is an expression or any other statement, `P` a
constructor parameter. -/
structure TemplateDef (E P : Type) where
  kind : TemplateKind
  isCase : Bool
  mods : Modifiers
  name : String
  typeParams : List String
  hasParamClause : Bool
  ctorParams : List P
  parents : List (ParentRef E)
  selfName : String
  enumCompanion : Bool
  enumCases : List (EnumCase E P)

/-- A leaf is a statement that is not a template. -/
abbrev Stat (E P : Type) := Item E (TemplateDef E P)

section Lifting

variable {E P : Type}

/-- One enclosing level: the dotted name of the template and the templates declared in it.
The unit itself has no name. -/
structure LiftScope where
  path : String
  names : List String

def templateNames : List (Stat E P) → List String
  | [] => []
  | .leaf _ :: ss => templateNames ss
  | .node t _ :: ss => t.name :: templateNames ss

/-- The innermost scope comes first. -/
def qualifySibling (scopes : List LiftScope) (ty : TypeTree) : TypeTree :=
  if ty.kind = .name ∨ ty.kind = .applied then
    match scopes.find? (fun scope => ty.name ∈ scope.names) with
    | some scope =>
      if scope.path ≠ "" then { ty with name := scope.path ++ "." ++ ty.name } else ty
    | none => ty
  else ty

def qualifyParent (scopes : List LiftScope) (p : ParentRef E) : ParentRef E :=
  { p with type := p.type.map (qualifySibling scopes) }

def notInObject : String :=
  "classes, traits and objects must be defined at the top level of a file or in an object"

/-- A template whose body has no template left in it. -/
structure Flat (E P : Type) where
  template : TemplateDef E P
  body : List E

mutual

/-- The statement a member stays as and the templates that are moved out of it, deeper
nesting first. `path` is the dotted name of the template the member belongs to. -/
def liftMember (isObject : Bool) (path : String) (scopes : List LiftScope) :
    Stat E P → Except String (List E × List (Flat E P))
  | .leaf m => .ok ([m], [])
  | .node t body =>
    if isObject then
      match liftBody (t.kind == .object) (path ++ "." ++ t.name)
          (⟨path ++ "." ++ t.name, templateNames body⟩ :: scopes) body with
      | .error e => .error e
      | .ok (keep, deeper) =>
        .ok ([], deeper ++ [⟨{ t with
          parents := t.parents.map (qualifyParent scopes)
          name := path ++ "." ++ t.name }, keep⟩])
    else .error notInObject

def liftBody (isObject : Bool) (path : String) (scopes : List LiftScope) :
    List (Stat E P) → Except String (List E × List (Flat E P))
  | [] => .ok ([], [])
  | m :: ss =>
    match liftMember isObject path scopes m with
    | .error e => .error e
    | .ok (own, lifted) =>
      (liftBody isObject path scopes ss).map fun (keep, out) => (own ++ keep, lifted ++ out)

end

def liftFrom (scopes : List LiftScope) (t : TemplateDef E P) (body : List (Stat E P)) :
    Except String (List E × List (Flat E P)) :=
  liftBody (t.kind == .object) t.name (⟨t.name, templateNames body⟩ :: scopes) body

def liftStats (scopes : List LiftScope) :
    List (Stat E P) → Except String (List (Stat E P) × List (Flat E P))
  | [] => .ok ([], [])
  | .leaf m :: ss => (liftStats scopes ss).map fun (own, out) => (.leaf m :: own, out)
  | .node t body :: ss =>
    match liftFrom scopes t body with
    | .error e => .error e
    | .ok (keep, lifted) =>
      (liftStats scopes ss).map fun (own, out) =>
        (.node t (keep.map .leaf) :: own, lifted ++ out)

def Flat.stat (flat : Flat E P) : Stat E P := .node flat.template (flat.body.map .leaf)

/-- The lifted templates come first, so that the object they were written in can name
them. -/
def liftNestedTemplates (ss : List (Stat E P)) : Except String (List (Stat E P)) :=
  (liftStats [⟨"", templateNames ss⟩] ss).map fun (own, lifted) => lifted.map Flat.stat ++ own

end Lifting

section Places

variable {E P : Type}

/-- The dotted names and the statements of the templates around a place, innermost first;
the unit is last. -/
abbrev Context (E P : Type) := List (String × List (Stat E P))

def unitContext (ss : List (Stat E P)) : Context E P := [("", ss)]

def fullName : Context E P → String → String
  | (path, _) :: _ :: _, name => path ++ "." ++ name
  | _, name => name

def enterTemplate (ctx : Context E P) (t : TemplateDef E P) (body : List (Stat E P)) :
    Context E P :=
  (fullName ctx t.name, body) :: ctx

def Defines (ss : List (Stat E P)) (name : String) : Prop :=
  ∃ t body, Item.node t body ∈ ss ∧ t.name = name

/-- `path` is the innermost level that defines a template of this name. -/
def Innermost (ctx : Context E P) (name path : String) : Prop :=
  ∃ inner ss outer, ctx = inner ++ (path, ss) :: outer ∧ Defines ss name ∧
    ∀ level ∈ inner, ¬ Defines level.2 name

/-- A type after lifting. A simple name of a template around the place becomes the dotted
name of the innermost one; every other type is left alone. -/
structure Refers (ctx : Context E P) (old new : TypeTree) : Prop where
  kept : new.kind = old.kind
  qualified : (old.kind = .name ∨ old.kind = .applied) → ∀ path, Innermost ctx old.name path →
    new.name = if path = "" then old.name else path ++ "." ++ old.name
  outside : (∀ path, ¬ Innermost ctx old.name path) → new = old
  other : ¬ (old.kind = .name ∨ old.kind = .applied) → new = old

structure ParentRefers (ctx : Context E P) (old new : ParentRef E) : Prop where
  args : new.args = old.args
  hasArgs : new.hasArgs = old.hasArgs
  type : Option.Rel (Refers ctx) old.type new.type

def leaves : List (Stat E P) → List E
  | [] => []
  | .leaf m :: ss => m :: leaves ss
  | .node _ _ :: ss => leaves ss

/-- What lifting makes of a template: its dotted name, its parents as they are seen from
where it was written, and everything else as it was. -/
structure LiftedTo (ctx : Context E P) (t : TemplateDef E P) (body : List (Stat E P))
    (flat : Flat E P) : Prop where
  name : flat.template.name = fullName ctx t.name
  parents : List.Forall₂ (ParentRefers ctx) t.parents flat.template.parents
  rest : { flat.template with name := t.name, parents := t.parents } = t
  body : flat.body = leaves body

mutual

def nestsMember (isObject : Bool) : Stat E P → Bool
  | .leaf _ => true
  | .node t body => isObject && nestsIn (t.kind == .object) body

/-- Every template inside another one stands in an object. -/
def nestsIn (isObject : Bool) : List (Stat E P) → Bool
  | [] => true
  | m :: ss => nestsMember isObject m && nestsIn isObject ss

end

def nestsInObjects : List (Stat E P) → Bool
  | [] => true
  | .leaf _ :: ss => nestsInObjects ss
  | .node t body :: ss => nestsIn (t.kind == .object) body && nestsInObjects ss

/-- A statement of the unit without the templates in it. -/
def ownStat : Stat E P → Stat E P
  | .leaf m => .leaf m
  | .node t body => .node t ((leaves body).map .leaf)

theorem mem_template_names {ss : List (Stat E P)} {name : String} :
    name ∈ templateNames ss ↔ Defines ss name := by
  induction ss with
  | nil => simp [templateNames, Defines]
  | cons s ss ih =>
      cases s with
      | leaf m =>
          rw [templateNames, ih]
          simp [Defines]
      | node t body =>
          rw [templateNames, List.mem_cons, ih]
          constructor
          · rintro (rfl | ⟨t', body', hmem, hname⟩)
            · exact ⟨t, body, by simp, rfl⟩
            · exact ⟨t', body', List.mem_cons_of_mem _ hmem, hname⟩
          · rintro ⟨t', body', hmem, hname⟩
            rcases List.mem_cons.mp hmem with heq | hmem
            · obtain ⟨rfl, rfl⟩ := Item.node.inj heq
              exact .inl hname.symm
            · exact .inr ⟨t', body', hmem, hname⟩

def scopesOf (ctx : Context E P) : List LiftScope :=
  ctx.map fun level => ⟨level.1, templateNames level.2⟩

/-- The scope that is found is the innermost level that defines the name. -/
theorem find_scope_innermost {ctx : Context E P} {name : String} {scope : LiftScope}
    (hfound : (scopesOf ctx).find? (fun scope => name ∈ scope.names) = some scope) :
    Innermost ctx name scope.path := by
  induction ctx with
  | nil => simp [scopesOf] at hfound
  | cons level ctx ih =>
      obtain ⟨path, ss⟩ := level
      simp only [scopesOf, List.map_cons, List.find?_cons] at hfound
      by_cases hname : name ∈ templateNames ss
      · simp only [hname, decide_true, Option.some.injEq] at hfound
        subst hfound
        exact ⟨[], ss, ctx, rfl, mem_template_names.mp hname, by simp⟩
      · simp only [hname, decide_false] at hfound
        obtain ⟨inner, found, outer, rfl, hdefines, hnone⟩ := ih hfound
        refine ⟨(path, ss) :: inner, found, outer, rfl, hdefines, ?_⟩
        intro level hlevel
        rcases List.mem_cons.mp hlevel with rfl | hlevel
        · exact fun hdefined => hname (mem_template_names.mpr hdefined)
        · exact hnone level hlevel

/-- There is one innermost level. -/
theorem innermost_unique {ctx : Context E P} {name path path' : String}
    (hinner : Innermost ctx name path) (hinner' : Innermost ctx name path') : path = path' := by
  obtain ⟨inner, ss, outer, hctx, hdefines, hnone⟩ := hinner
  obtain ⟨inner', ss', outer', hctx', hdefines', hnone'⟩ := hinner'
  rw [hctx] at hctx'
  rcases List.append_eq_append_iff.mp hctx' with ⟨between, hleft, hright⟩ | ⟨between, hleft, hright⟩
  · cases between with
    | nil =>
        simp only [List.nil_append, List.cons.injEq, Prod.mk.injEq] at hright
        exact hright.1.1
    | cons level between =>
        simp only [List.cons_append, List.cons.injEq] at hright
        obtain ⟨rfl, _⟩ := hright
        exact absurd hdefines (hnone' (path, ss) (by simp [hleft]))
  · cases between with
    | nil =>
        simp only [List.nil_append, List.cons.injEq, Prod.mk.injEq] at hright
        exact hright.1.1.symm
    | cons level between =>
        simp only [List.cons_append, List.cons.injEq] at hright
        obtain ⟨rfl, _⟩ := hright
        exact absurd hdefines' (hnone (path', ss') (by simp [hleft]))

theorem find_scope_none {ctx : Context E P} {name : String}
    (hnone : (scopesOf ctx).find? (fun scope => name ∈ scope.names) = none) (path : String) :
    ¬ Innermost ctx name path := by
  rintro ⟨inner, ss, outer, rfl, hdefines, _⟩
  rw [List.find?_eq_none] at hnone
  refine hnone ⟨path, templateNames ss⟩ (by simp [scopesOf]) ?_
  simpa using mem_template_names.mpr hdefines

/-- `qualifySibling` names the innermost template around the place. -/
theorem qualify_refers (ctx : Context E P) (ty : TypeTree) :
    Refers ctx ty (qualifySibling (scopesOf ctx) ty) := by
  unfold qualifySibling
  by_cases hsimple : ty.kind = .name ∨ ty.kind = .applied
  · rw [if_pos hsimple]
    cases hfound : (scopesOf ctx).find? (fun scope => ty.name ∈ scope.names) with
    | none =>
        exact ⟨rfl, fun _ path hinner => absurd hinner (find_scope_none hfound path),
          fun _ => rfl, fun _ => rfl⟩
    | some scope =>
        have hinner := find_scope_innermost hfound
        refine ⟨?_, ?_, fun hnone => absurd hinner (hnone _), fun hother => absurd hsimple hother⟩
        · dsimp only
          split <;> rfl
        · intro _ path hpath
          obtain rfl := innermost_unique hinner hpath
          dsimp only
          by_cases hempty : scope.path = ""
          · simp [hempty]
          · simp [hempty]
  · rw [if_neg hsimple]
    exact ⟨rfl, fun hkind => absurd hkind hsimple, fun _ => rfl, fun _ => rfl⟩

theorem qualify_parent_refers (ctx : Context E P) (p : ParentRef E) :
    ParentRefers ctx p (qualifyParent (scopesOf ctx) p) := by
  refine ⟨rfl, rfl, ?_⟩
  cases htype : p.type with
  | none =>
      simp only [qualifyParent, htype, Option.map_none]
      exact .none
  | some ty =>
      simp only [qualifyParent, htype, Option.map_some]
      exact .some (qualify_refers ctx ty)

/-- A template as lifting leaves it, from the context of the body it stood in. -/
def flatten (place : Context E P × TemplateDef E P × List (Stat E P)) : Flat E P :=
  ⟨{ place.2.1 with
      parents := place.2.1.parents.map (qualifyParent (scopesOf place.1))
      name := fullName place.1 place.2.1.name }, leaves place.2.2⟩

theorem flatten_lifted (ctx : Context E P) (t : TemplateDef E P) (body : List (Stat E P)) :
    LiftedTo ctx t body (flatten (ctx, t, body)) where
  name := rfl
  parents := by
    rw [flatten, List.forall₂_map_right_iff, List.forall₂_same]
    exact fun p _ => qualify_parent_refers ctx p
  rest := rfl
  body := rfl

mutual

theorem lift_member_walk (isObject : Bool) (path : String) (around : List (Stat E P))
    (level : String × List (Stat E P)) (outer : Context E P) (m : Stat E P) :
    liftMember isObject path (scopesOf ((path, around) :: level :: outer)) m =
      if nestsMember isObject m then
        .ok (leaves [m],
          (walkItem enterTemplate ((path, around) :: level :: outer) m).map flatten)
      else .error notInObject := by
  cases m with
  | leaf m => rfl
  | node t body =>
      have hbody := lift_body_walk (t.kind == .object) (path ++ "." ++ t.name) body
        (path, around) (level :: outer) body
      cases isObject with
      | false => rfl
      | true =>
          have hscopes : (⟨path ++ "." ++ t.name, templateNames body⟩ : LiftScope) ::
              scopesOf ((path, around) :: level :: outer) =
              scopesOf ((path ++ "." ++ t.name, body) :: (path, around) :: level :: outer) :=
            rfl
          rw [liftMember, if_pos rfl, hscopes, hbody, nestsMember, Bool.true_and]
          cases nestsIn (t.kind == .object) body with
          | false => rfl
          | true =>
              rw [walkItem, List.map_append]
              rfl

/-- `liftBody` moves out what `walk` visits, in its order. -/
theorem lift_body_walk (isObject : Bool) (path : String) (around : List (Stat E P))
    (level : String × List (Stat E P)) (outer : Context E P) (ss : List (Stat E P)) :
    liftBody isObject path (scopesOf ((path, around) :: level :: outer)) ss =
      if nestsIn isObject ss then
        .ok (leaves ss,
          (walk enterTemplate ((path, around) :: level :: outer) ss).map flatten)
      else .error notInObject := by
  cases ss with
  | nil => rfl
  | cons m ss =>
      have hmember := lift_member_walk isObject path around level outer m
      have hrest := lift_body_walk isObject path around level outer ss
      have hleaves : leaves (m :: ss) = leaves [m] ++ leaves ss := by
        cases m <;> rfl
      rw [liftBody, hmember, hrest, nestsIn, walk, List.map_append, hleaves]
      cases nestsMember isObject m with
      | false => rfl
      | true =>
          cases nestsIn isObject ss with
          | false => rfl
          | true => rfl

end

theorem lift_stats_walk (around ss : List (Stat E P)) :
    liftStats (scopesOf (unitContext around)) ss =
      if nestsInObjects ss then
        .ok (ss.map ownStat, (walkInside enterTemplate (unitContext around) ss).map flatten)
      else .error notInObject := by
  induction ss with
  | nil => rfl
  | cons s ss ih =>
      cases s with
      | leaf m =>
          rw [liftStats, ih, nestsInObjects]
          cases nestsInObjects ss with
          | true => rfl
          | false => rfl
      | node t body =>
          have hbody : liftFrom (scopesOf (unitContext around)) t body =
              if nestsIn (t.kind == .object) body then
                .ok (leaves body,
                  (walk enterTemplate (enterTemplate (unitContext around) t body) body).map
                    flatten)
              else .error notInObject :=
            lift_body_walk (t.kind == .object) t.name body ("", around) [] body
          rw [liftStats, hbody, ih, nestsInObjects]
          cases nestsIn (t.kind == .object) body with
          | false => rfl
          | true =>
              rw [Bool.true_and]
              cases nestsInObjects ss with
              | false => rfl
              | true =>
                  simp only [if_true, Except.map, walkInside, List.map_append, List.map_cons,
                    ownStat]

/-- Where a template stands inside another one. -/
def placeOf (ss : List (Stat E P)) (place : List Nat) :
    Option (Context E P × TemplateDef E P × List (Stat E P)) :=
  located enterTemplate (unitContext ss) ss place

/-- What lifting does with a unit: the lifted templates are those at `places`, in order,
and each statement of the unit keeps its place behind them. -/
structure Lifted (ss result : List (Stat E P)) (places : List (List Nat))
    (lifted : List (Flat E P)) : Prop where
  result : result = lifted.map Flat.stat ++ ss.map ownStat
  once : places.Nodup
  complete : ∀ place, place ∈ places ↔ 2 ≤ place.length ∧ (placeOf ss place).isSome = true
  each : List.Forall₂ (fun place flat => ∃ ctx t body, placeOf ss place = some (ctx, t, body) ∧
    LiftedTo ctx t body flat) places lifted

theorem flatten_each {ss : List (Stat E P)} {places : List (List Nat)}
    {found : List (Context E P × TemplateDef E P × List (Stat E P))}
    (hfound : places.map (placeOf ss) = found.map some) :
    List.Forall₂ (fun place flat => ∃ ctx t body, placeOf ss place = some (ctx, t, body) ∧
      LiftedTo ctx t body flat) places (found.map flatten) := by
  induction places generalizing found with
  | nil =>
      cases found with
      | nil => exact .nil
      | cons first found => cases hfound
  | cons place places ih =>
      cases found with
      | nil => cases hfound
      | cons first found =>
          simp only [List.map_cons, List.cons.injEq] at hfound
          obtain ⟨ctx, t, body⟩ := first
          exact .cons ⟨ctx, t, body, hfound.1, flatten_lifted ctx t body⟩ (ih hfound.2)

/-- Lifting keeps every template of a unit. -/
theorem lift_unit (ss : List (Stat E P)) :
    (nestsInObjects ss = true →
      ∃ result lifted, liftNestedTemplates ss = .ok result ∧ Lifted ss result (nested ss) lifted) ∧
    (nestsInObjects ss = false → liftNestedTemplates ss = .error notInObject) := by
  have hwalk : liftStats [⟨"", templateNames ss⟩] ss = _ := lift_stats_walk ss ss
  constructor
  · intro hnests
    rw [hnests, if_pos rfl] at hwalk
    refine ⟨_, _, by rw [liftNestedTemplates, hwalk]; rfl, rfl, nested_nodup ss, ?_,
      flatten_each (nested_located enterTemplate (unitContext ss) ss)⟩
    intro place
    rw [nested, List.mem_filter, mem_positions enterTemplate (unitContext ss)]
    simp only [decide_eq_true_eq]
    exact And.comm
  · intro hnests
    rw [hnests] at hwalk
    rw [liftNestedTemplates, hwalk]
    rfl

end Places

section Enums

variable {E P : Type}

/-- The tree of `val ordinal: Int = i`, and the parser, which reads the text of the
generated methods. -/
structure Source (E P : Type) where
  ordinal : Nat → E
  parseSource : String → Except String (List (Stat E P))

def kEnumMarkerKey : String := "@Enum"

def EnumCase.singleton (c : EnumCase E P) : Bool := c.params.isEmpty && !c.hasParens

/-- `sealed abstract class E(..) extends .. with Enum`. -/
def sealedClass (e : TemplateDef E P) : TemplateDef E P :=
  { e with
    kind := .class
    isCase := false
    mods := { e.mods with isAbstract := true, isSealed := true }
    parents := e.parents ++ [⟨some ⟨.builtin, kEnumMarkerKey⟩, [], false⟩]
    enumCompanion := false
    enumCases := [] }

/-- A case object when the case has no parameter clause, else a case class. -/
def caseTemplate (src : Source E P) (enumName : String) (i : Nat) (c : EnumCase E P) :
    Stat E P :=
  .node
    { kind := if c.singleton then .object else .class
      isCase := true
      mods := noModifiers
      name := c.name
      typeParams := []
      hasParamClause := c.hasParens
      ctorParams := c.params
      parents := [⟨some ⟨.name, enumName⟩, c.parentArgs, c.hasParentArgs⟩]
      selfName := ""
      enumCompanion := false
      enumCases := [] }
    [.leaf (src.ordinal i)]

def caseTemplates (src : Source E P) (enumName : String) : Nat → List (EnumCase E P) →
    List (Stat E P)
  | _, [] => []
  | i, c :: cases => caseTemplate src enumName i c :: caseTemplates src enumName (i + 1) cases

def generatedSource (e : TemplateDef E P) : String :=
  let singletons := (e.enumCases.filter EnumCase.singleton).map (·.name)
  let values :=
    if e.enumCases.all EnumCase.singleton then
      "def values: List[" ++ e.name ++ "] = " ++
        String.join (singletons.map fun c => c ++ " :: ") ++ "Nil\n" ++
        "def valueOf(name: String): " ++ e.name ++ " =\n" ++
        String.join (singletons.map fun c =>
          "  if name == \"" ++ c ++ "\" then " ++ c ++ " else\n") ++
        "  throw new IllegalArgumentException(\"enum " ++ e.name ++
        " has no case with name: \" + name)\n"
    else ""
  values ++ "def fromOrdinal(n: Int): " ++ e.name ++ " =\n" ++
    String.join (singletons.map fun c =>
      "  if n == " ++ c ++ ".ordinal then " ++ c ++ " else\n") ++
    "  throw new NoSuchElementException(\"enum " ++ e.name ++
    " has no case with ordinal: \" + n)\n"

def companionTemplate (e : TemplateDef E P) : TemplateDef E P where
  kind := .object
  isCase := false
  mods := noModifiers
  name := e.name
  typeParams := []
  hasParamClause := false
  ctorParams := []
  parents := []
  selfName := ""
  enumCompanion := true
  enumCases := []

def expandEnum (src : Source E P) (e : TemplateDef E P) (body : List (Stat E P)) :
    Except String (List (Stat E P)) :=
  (src.parseSource (generatedSource e)).map fun generated =>
    [.node (sealedClass e) body,
      .node (companionTemplate e) (caseTemplates src e.name 0 e.enumCases ++ generated)]

/-- A hand-written object that is the companion `gen` was generated for. -/
def absorbs (gen : TemplateDef E P) : Option (Stat E P) → Bool
  | some (.node user _) =>
    !user.enumCompanion && user.kind == .object && user.name == gen.name
  | _ => false

/-- The hand-written object owns the modifiers, the parents and the self alias. -/
def absorb (gen user : TemplateDef E P) : TemplateDef E P :=
  { gen with
    mods := user.mods
    isCase := user.isCase
    selfName := user.selfName
    parents := user.parents }

/-- The statement at `k`, when it is a generated companion, takes in the first hand-written
one, whose place is left empty. -/
def mergeAt (ss : List (Option (Stat E P))) (k : Nat) : List (Option (Stat E P)) :=
  match ss[k]? with
  | some (some (.node gen body)) =>
    if gen.enumCompanion && gen.kind == .object then
      match ss.findIdx? (absorbs gen) with
      | some j =>
        match ss[j]? with
        | some (some (.node user own)) =>
          (ss.set k (some (.node (absorb gen user) (body ++ own)))).set j none
        | _ => ss
      | none => ss
    else ss
  | _ => ss

def mergeEnumCompanions (ss : List (Stat E P)) : List (Stat E P) :=
  ((List.range ss.length).foldl mergeAt (ss.map some)).filterMap id

mutual

def expandStat (src : Source E P) : Stat E P → Except String (List (Stat E P))
  | .leaf m => .ok [.leaf m]
  | .node t body =>
    if t.kind = .enum then expandEnum src t body
    else (expandStats src body).map fun ss => [.node t (mergeEnumCompanions ss)]

def expandStats (src : Source E P) : List (Stat E P) → Except String (List (Stat E P))
  | [] => .ok []
  | s :: ss =>
    match expandStat src s with
    | .error e => .error e
    | .ok out => (expandStats src ss).map (out ++ ·)

end

def expandEnums (src : Source E P) (ss : List (Stat E P)) : Except String (List (Stat E P)) :=
  (expandStats src ss).map mergeEnumCompanions

/-- The two passes of `desugar` that move templates. -/
def desugarTemplates (src : Source E P) (ss : List (Stat E P)) :
    Except String (List (Stat E P)) :=
  match expandEnums src ss with
  | .error e => .error e
  | .ok expanded => liftNestedTemplates expanded

/-- Members of an object of this name. -/
def objectMembers (name : String) : Stat E P → Multiset (Stat E P)
  | .node t body => if t.kind = .object ∧ t.name = name then body else 0
  | .leaf _ => 0

def membersOf (name : String) (ss : List (Stat E P)) : Multiset (Stat E P) :=
  (ss.map (objectMembers name)).sum

def isObject : Stat E P → Bool
  | .node t _ => t.kind == .object
  | .leaf _ => false

/-- Folding companions together loses no member and touches nothing but objects. -/
structure Merged (ss result : List (Stat E P)) : Prop where
  members : ∀ name, membersOf name result = membersOf name ss
  others : result.filter (fun s => !isObject s) = ss.filter (fun s => !isObject s)

/-- A count of what is in a statement that folding two companions together adds up. -/
def Additive {A : Type} (count : Stat E P → Multiset A) : Prop :=
  ∀ gen user body own, gen.kind = .object → user.kind = .object → user.name = gen.name →
    count (.node (absorb gen user) (body ++ own)) = count (.node gen body) + count (.node user own)

/-- The empty place of an absorbed object counts nothing. -/
def placeCount {A : Type} (count : Stat E P → Multiset A) (s : Option (Stat E P)) : Multiset A :=
  (s.map count).getD 0

theorem members_additive (name : String) : Additive (objectMembers (E := E) (P := P) name) := by
  intro gen user body own hobject huser hname
  by_cases hn : gen.name = name
  · simp [objectMembers, absorb, hobject, huser, hname, hn]
  · simp [objectMembers, absorb, hobject, huser, hname, hn]

theorem sum_set {α M : Type} [AddCommMonoid M] (f : α → M) {l : List α} {k : Nat} {a b : α}
    (hk : l[k]? = some b) : ((l.set k a).map f).sum + f b = (l.map f).sum + f a := by
  induction l generalizing k with
  | nil => simp at hk
  | cons c l ih =>
      cases k with
      | zero =>
          simp only [List.getElem?_cons_zero, Option.some.injEq] at hk
          subst hk
          simp only [List.set_cons_zero, List.map_cons, List.sum_cons]
          abel
      | succ k =>
          simp only [List.getElem?_cons_succ] at hk
          simp only [List.set_cons_succ, List.map_cons, List.sum_cons, add_assoc, ih hk]

theorem filter_map_set {α β : Type} (f : α → Option β) {l : List α} {k : Nat} {a b : α}
    (hk : l[k]? = some b) (hold : f b = none) (hnew : f a = none) :
    (l.set k a).filterMap f = l.filterMap f := by
  induction l generalizing k with
  | nil => simp at hk
  | cons c l ih =>
      cases k with
      | zero =>
          simp only [List.getElem?_cons_zero, Option.some.injEq] at hk
          subst hk
          simp [hold, hnew]
      | succ k =>
          simp only [List.getElem?_cons_succ] at hk
          simp only [List.set_cons_succ, List.filterMap_cons, ih hk]

/-- A step either does nothing or moves one hand-written body into a companion. -/
theorem merge_at_cases (ss : List (Option (Stat E P))) (k : Nat) :
    mergeAt ss k = ss ∨ ∃ gen user body own j, ss[k]? = some (some (.node gen body)) ∧
      ss[j]? = some (some (.node user own)) ∧ j ≠ k ∧ gen.kind = .object ∧ user.kind = .object ∧
      user.name = gen.name ∧
      mergeAt ss k = (ss.set k (some (.node (absorb gen user) (body ++ own)))).set j none := by
  unfold mergeAt
  split
  · rename_i gen body hgen
    split
    · rename_i hcompanion
      simp only [Bool.and_eq_true, beq_iff_eq] at hcompanion
      split
      · rename_i j hj
        split
        · rename_i user own huser
          obtain ⟨hlt, habsorbs, _⟩ := List.findIdx?_eq_some_iff_getElem.mp hj
          have hget : ss[j] = some (.node user own) := by
            rw [List.getElem?_eq_getElem hlt, Option.some.injEq] at huser
            exact huser
          rw [hget] at habsorbs
          simp only [absorbs, Bool.and_eq_true, Bool.not_eq_true', beq_iff_eq] at habsorbs
          refine .inr ⟨gen, user, body, own, j, hgen, huser, ?_, hcompanion.2, habsorbs.1.2,
            habsorbs.2, rfl⟩
          rintro rfl
          rw [hgen] at huser
          simp only [Option.some.injEq, Item.node.injEq] at huser
          obtain ⟨rfl, _⟩ := huser
          rw [hcompanion.1] at habsorbs
          exact absurd habsorbs.1.1 (by simp)
        · exact .inl rfl
      · exact .inl rfl
    · exact .inl rfl
  · exact .inl rfl

theorem merge_at_count {A : Type} {count : Stat E P → Multiset A} (hadd : Additive count)
    (ss : List (Option (Stat E P))) (k : Nat) :
    ((mergeAt ss k).map (placeCount count)).sum = (ss.map (placeCount count)).sum := by
  rcases merge_at_cases ss k with hsame |
    ⟨gen, user, body, own, j, hgen, huser, hjk, hobject, huserObject, hname, hmerged⟩
  · rw [hsame]
  · have hset : (ss.set k (some (.node (absorb gen user) (body ++ own))))[j]? =
        some (some (.node user own)) := by
      rw [List.getElem?_set_ne (Ne.symm hjk), huser]
    have hfirst := sum_set (placeCount count)
      (a := some (Item.node (absorb gen user) (body ++ own))) hgen
    have hsecond := sum_set (placeCount count) (a := none) hset
    have hmoved : placeCount count (some (.node (absorb gen user) (body ++ own))) =
        placeCount count (some (.node gen body)) + placeCount count (some (.node user own)) :=
      hadd gen user body own hobject huserObject hname
    have hnone : placeCount count (none : Option (Stat E P)) = 0 := rfl
    rw [hmoved] at hfirst
    rw [hnone, add_zero] at hsecond
    rw [hmerged]
    have hsame : ∀ a b c d e : Multiset A, a + b = d → d + c = e + (c + b) → a = e := by
      rintro a b c d e rfl h
      rw [add_assoc, add_comm b c] at h
      exact add_right_cancel h
    exact hsame _ _ _ _ _ hsecond hfirst

def otherPlace : Option (Stat E P) → Option (Stat E P)
  | some s => if isObject s then none else some s
  | none => none

theorem merge_at_others (ss : List (Option (Stat E P))) (k : Nat) :
    (mergeAt ss k).filterMap otherPlace = ss.filterMap otherPlace := by
  rcases merge_at_cases ss k with hsame |
    ⟨gen, user, body, own, j, hgen, huser, hjk, hobject, huserObject, _, hmerged⟩
  · rw [hsame]
  · have hset : (ss.set k (some (.node (absorb gen user) (body ++ own))))[j]? =
        some (some (.node user own)) := by
      rw [List.getElem?_set_ne (Ne.symm hjk), huser]
    rw [hmerged, filter_map_set otherPlace hset (by simp [otherPlace, isObject, huserObject]) rfl,
      filter_map_set otherPlace hgen (by simp [otherPlace, isObject, hobject])
        (by simp [otherPlace, isObject, absorb, hobject])]

theorem compact_count {A : Type} (count : Stat E P → Multiset A)
    (places : List (Option (Stat E P))) :
    ((places.filterMap id).map count).sum = (places.map (placeCount count)).sum := by
  induction places with
  | nil => rfl
  | cons place places ih =>
      cases place with
      | none =>
          rw [List.filterMap_cons_none rfl, ih, List.map_cons, List.sum_cons]
          exact (zero_add _).symm
      | some s =>
          have hcons : (some s :: places).filterMap id = s :: places.filterMap id := rfl
          rw [hcons, List.map_cons, List.sum_cons, ih, List.map_cons, List.sum_cons]
          rfl

theorem compact_others (places : List (Option (Stat E P))) :
    (places.filterMap id).filter (fun s => !isObject s) = places.filterMap otherPlace := by
  induction places with
  | nil => rfl
  | cons place places ih =>
      cases place with
      | none => rw [List.filterMap_cons_none rfl, List.filterMap_cons_none rfl, ih]
      | some s =>
          have hcons : (some s :: places).filterMap id = s :: places.filterMap id := rfl
          rw [hcons, List.filter_cons, ih]
          cases hobject : isObject s with
          | true => simp [otherPlace, hobject]
          | false => simp [otherPlace, hobject]

theorem compact_all (ss : List (Stat E P)) : (ss.map some).filterMap id = ss := by
  rw [List.filterMap_map]
  exact List.filterMap_some

/-- The merge keeps every count that adds up. -/
theorem merge_count {A : Type} {count : Stat E P → Multiset A} (hadd : Additive count)
    (ss : List (Stat E P)) :
    ((mergeEnumCompanions ss).map count).sum = (ss.map count).sum := by
  have hrun : ∀ (ks : List Nat) (places : List (Option (Stat E P))),
      ((ks.foldl mergeAt places).map (placeCount count)).sum =
        (places.map (placeCount count)).sum := by
    intro ks
    induction ks with
    | nil => exact fun _ => rfl
    | cons k ks ih => exact fun places => (ih _).trans (merge_at_count hadd places k)
  rw [mergeEnumCompanions, compact_count, hrun, ← compact_count, compact_all]

theorem merge_others (ss : List (Stat E P)) :
    (mergeEnumCompanions ss).filter (fun s => !isObject s) = ss.filter (fun s => !isObject s) := by
  have hrun : ∀ (ks : List Nat) (places : List (Option (Stat E P))),
      (ks.foldl mergeAt places).filterMap otherPlace = places.filterMap otherPlace := by
    intro ks
    induction ks with
    | nil => exact fun _ => rfl
    | cons k ks ih => exact fun places => (ih _).trans (merge_at_others places k)
  rw [mergeEnumCompanions, compact_others, hrun, ← compact_others, compact_all]

theorem merged (ss : List (Stat E P)) : Merged ss (mergeEnumCompanions ss) where
  members name := merge_count (members_additive name) ss
  others := merge_others ss

mutual

/-- Every statement below a statement that is not a template. -/
def leavesIn : Stat E P → Multiset E
  | .leaf m => {m}
  | .node _ body => allLeaves body

def allLeaves : List (Stat E P) → Multiset E
  | [] => 0
  | s :: ss => leavesIn s + allLeaves ss

end

theorem all_leaves_sum (ss : List (Stat E P)) : allLeaves ss = (ss.map leavesIn).sum := by
  induction ss with
  | nil => rfl
  | cons s ss ih => rw [allLeaves, List.map_cons, List.sum_cons, ih]

theorem all_leaves_append (ss ss' : List (Stat E P)) :
    allLeaves (ss ++ ss') = allLeaves ss + allLeaves ss' := by
  rw [all_leaves_sum, all_leaves_sum, all_leaves_sum, List.map_append, List.sum_append]

theorem leaves_additive : Additive (leavesIn (E := E) (P := P)) := by
  intro gen user body own _ _ _
  exact all_leaves_append body own

theorem merge_leaves (ss : List (Stat E P)) :
    allLeaves (mergeEnumCompanions ss) = allLeaves ss := by
  rw [all_leaves_sum, merge_count leaves_additive, ← all_leaves_sum]

mutual

theorem expand_stat_leaves (src : Source E P) (s : Stat E P) (out : List (Stat E P))
    (hout : expandStat src s = .ok out) : leavesIn s ≤ allLeaves out := by
  cases s with
  | leaf m =>
      simp only [expandStat, Except.ok.injEq] at hout
      subst hout
      simp [allLeaves, leavesIn]
  | node t body =>
      rw [expandStat] at hout
      split at hout
      · unfold expandEnum at hout
        cases hparse : src.parseSource (generatedSource t) with
        | error e =>
            rw [hparse] at hout
            cases hout
        | ok generated =>
            rw [hparse] at hout
            simp only [Except.map, Except.ok.injEq] at hout
            subst hout
            simp only [allLeaves, leavesIn]
            exact Multiset.le_add_right _ _
      · cases hbody : expandStats src body with
        | error e =>
            rw [hbody] at hout
            cases hout
        | ok expanded =>
            have hle := expand_stats_leaves src body expanded hbody
            rw [hbody] at hout
            simp only [Except.map, Except.ok.injEq] at hout
            subst hout
            simpa only [allLeaves, leavesIn, merge_leaves, add_zero] using hle

theorem expand_stats_leaves (src : Source E P) (ss expanded : List (Stat E P))
    (hexpanded : expandStats src ss = .ok expanded) : allLeaves ss ≤ allLeaves expanded := by
  cases ss with
  | nil =>
      rw [allLeaves]
      exact Multiset.zero_le _
  | cons s ss =>
      rw [expandStats] at hexpanded
      cases hfirst : expandStat src s with
      | error e =>
          rw [hfirst] at hexpanded
          cases hexpanded
      | ok out =>
          have hleft := expand_stat_leaves src s out hfirst
          cases hrest : expandStats src ss with
          | error e =>
              rw [hfirst, hrest] at hexpanded
              cases hexpanded
          | ok rest =>
              have hright := expand_stats_leaves src ss rest hrest
              rw [hfirst, hrest] at hexpanded
              simp only [Except.map, Except.ok.injEq] at hexpanded
              subst hexpanded
              rw [allLeaves, all_leaves_append]
              exact add_le_add hleft hright

end

theorem leaves_of_leaves (ms : List E) :
    allLeaves (ms.map (.leaf : E → Stat E P)) = ms := by
  induction ms with
  | nil => rfl
  | cons m ms ih =>
      rw [List.map_cons, allLeaves, ih, leavesIn]
      rfl

mutual

theorem walk_item_leaves (ctx : Context E P) (s : Stat E P) :
    leavesIn s = (leaves [s] : Multiset E) +
      allLeaves ((walkItem enterTemplate ctx s).map fun place => (flatten place).stat) := by
  cases s with
  | leaf m => simp [leavesIn, leaves, walkItem, allLeaves]
  | node t body =>
      have hbody := walk_leaves (enterTemplate ctx t body) body
      rw [leavesIn, hbody, walkItem, List.map_append, all_leaves_append, List.map_cons,
        List.map_nil, allLeaves, Flat.stat, leavesIn, flatten, leaves_of_leaves]
      simp only [leaves, allLeaves, Multiset.coe_nil, zero_add, add_zero]
      exact add_comm _ _

/-- The statements below a list are its own and those of the templates moved out of it. -/
theorem walk_leaves (ctx : Context E P) (ss : List (Stat E P)) :
    allLeaves ss = (leaves ss : Multiset E) +
      allLeaves ((walk enterTemplate ctx ss).map fun place => (flatten place).stat) := by
  cases ss with
  | nil => simp [allLeaves, leaves, walk]
  | cons s ss =>
      have hfirst := walk_item_leaves ctx s
      have hrest := walk_leaves ctx ss
      have hleaves : leaves (s :: ss) = leaves [s] ++ leaves ss := by
        cases s <;> rfl
      rw [allLeaves, hfirst, hrest, walk, List.map_append, all_leaves_append, hleaves,
        ← Multiset.coe_add]
      abel

end

theorem inside_leaves (ctx : Context E P) (ss : List (Stat E P)) :
    allLeaves ss =
      allLeaves ((walkInside enterTemplate ctx ss).map fun place => (flatten place).stat) +
        allLeaves (ss.map ownStat) := by
  induction ss with
  | nil => rfl
  | cons s ss ih =>
      cases s with
      | leaf m =>
          rw [allLeaves, ih, walkInside, List.map_cons, allLeaves, ownStat]
          abel
      | node t body =>
          rw [allLeaves, ih, leavesIn, walk_leaves (enterTemplate ctx t body) body, walkInside,
            List.map_append, all_leaves_append, List.map_cons, allLeaves, ownStat, leavesIn,
            leaves_of_leaves]
          abel

/-- Lifting keeps every statement that is not a template. -/
theorem lift_leaves {ss result : List (Stat E P)} (hok : liftNestedTemplates ss = .ok result) :
    allLeaves result = allLeaves ss := by
  have hwalk : liftStats [⟨"", templateNames ss⟩] ss = _ := lift_stats_walk ss ss
  unfold liftNestedTemplates at hok
  rw [hwalk] at hok
  split at hok
  · simp only [Except.map, Except.ok.injEq] at hok
    rw [← hok, all_leaves_append, List.map_map,
      inside_leaves (unitContext ss) ss]
    rfl
  · cases hok

end Enums

end ProtoScala.Frontend.TemplateLifting
