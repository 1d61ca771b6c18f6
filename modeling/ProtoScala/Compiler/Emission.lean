import ProtoScala.Compiler.Globals
import ProtoScala.Runtime.FrameExecution

/-!
# Scopes, slots and emitted code

A function body is compiled with a stack of scopes that give each local name its
slot; slots are never used twice. Code comes in fragments whose jumps out of the
fragment are still open and are resolved once the place they go to is known.

`Sound` says what the code of an expression does in a frame: it leaves the value
on the operand stack and touches only the variables in scope and the slots it was
given for itself. The reference meaning of an expression is an evaluation over the
environment of the scopes and over the variables, which live in the frame too.
-/

namespace ProtoScala.Compiler.Emission

open ProtoScala.Compiler.Bytecode
open ProtoScala.Compiler.Globals (BindingKind)
open ProtoScala.Runtime.ExecutionEngine
open ProtoScala.Runtime.FrameExecution

set_option autoImplicit false

/-! ## Fragments -/

/-- An instruction, or a conditional jump to the place that a failed test goes to:
on true or on false. -/
inductive Item where
  | instr (i : Instr)
  | fail (sense : Bool)

/-- The instructions of a fragment whose failed tests go to the place `after`
instructions behind its end. -/
def resolve : List Item → Nat → List Instr
  | [], _ => []
  | .instr i :: rest, after => i :: resolve rest after
  | .fail true :: rest, after => .jumpIfTrue (rest.length + after) :: resolve rest after
  | .fail false :: rest, after => .jumpIfFalse (rest.length + after) :: resolve rest after

section

attribute [local simp] resolve

end

@[simp] theorem resolve_length (items : List Item) (after : Nat) :
    (resolve items after).length = items.length := by
  induction items with
  | nil => rfl
  | cons item rest induction =>
      cases item with
      | instr i => simp [resolve, induction]
      | fail sense => cases sense <;> simp [resolve, induction]

theorem resolve_append (first second : List Item) (after : Nat) :
    resolve (first ++ second) after =
      resolve first (second.length + after) ++ resolve second after := by
  induction first with
  | nil => rfl
  | cons item rest induction =>
      cases item with
      | instr i => simp [resolve, induction]
      | fail sense => cases sense <;> simp [resolve, induction, Nat.add_assoc]

@[simp] theorem resolve_instrs (code : List Instr) (after : Nat) :
    resolve (code.map .instr) after = code := by
  induction code with
  | nil => rfl
  | cons i rest induction => simp [resolve, induction]

/-- A fragment stands at `pc`. -/
def Placed (code : List Instr) (pc : Nat) (fragment : List Instr) : Prop :=
  ∀ i < fragment.length, code[pc + i]? = fragment[i]?

theorem placed_append {code : List Instr} {pc : Nat} {first second : List Instr}
    (placed : Placed code pc (first ++ second)) :
    Placed code pc first ∧ Placed code (pc + first.length) second := by
  constructor
  · intro i inside
    rw [placed i (by simp; omega), List.getElem?_append_left inside]
  · intro i inside
    rw [Nat.add_assoc, placed (first.length + i) (by simp; omega),
      List.getElem?_append_right (by omega), Nat.add_sub_cancel_left]

theorem placed_cons {code : List Instr} {pc : Nat} {i : Instr} {rest : List Instr}
    (placed : Placed code pc (i :: rest)) : code[pc]? = some i ∧ Placed code (pc + 1) rest := by
  have apart : Placed code pc ([i] ++ rest) := placed
  obtain ⟨first, later⟩ := placed_append apart
  exact ⟨by simpa using first 0 Nat.one_pos, later⟩

/-! ## Scopes -/

structure LocalInfo where
  slot : Nat
  kind : BindingKind := .val
  boxed : Bool := false
  deriving DecidableEq, Repr

/-- An unboxed `var`: its slot is assigned while its scope is open. -/
def LocalInfo.variable (info : LocalInfo) : Bool := info.kind = .var && !info.boxed

/-- The scopes of a function, the innermost first, with what it captures in the
outermost one. -/
abbrev Scopes := List (List (String × LocalInfo))

def findInFunction (scopes : Scopes) (name : String) : Option LocalInfo :=
  scopes.findSome? fun scope => scope.lookup name

def declareLocal (name : String) (info : LocalInfo) : Scopes → Scopes
  | [] => [[(name, info)]]
  | scope :: outer => ((name, info) :: scope) :: outer

theorem find_declare (name : String) (info : LocalInfo) (scopes : Scopes) (other : String) :
    findInFunction (declareLocal name info scopes) other =
      if other = name then some info else findInFunction scopes other := by
  by_cases same : other = name
  · subst same
    cases scopes <;> simp [declareLocal, findInFunction]
  · have differs : (other == name) = false := beq_false_of_ne same
    cases scopes <;>
      simp [declareLocal, findInFunction, List.findSome?_cons, List.lookup_cons, differs, same]

theorem find_push (scopes : Scopes) (name : String) :
    findInFunction ([] :: scopes) name = findInFunction scopes name := by
  simp [findInFunction, List.findSome?_cons]

/-! ## The meaning of scopes in a frame -/

/-- What a name means: a value (a cell when boxed), or a variable kept elsewhere. -/
inductive Binding (V : Type) where
  | value (boxed : Bool) (v : V)
  | variable (slot : Nat)

abbrev Env (V : Type) := String → Option (Binding V)

variable {V W N α : Type}

/-- The variables, and everything outside the frame. -/
abbrev Machine (V W : Type) := (Nat → V) × W

def LocalInfo.binding (info : LocalInfo) (null : V) (live : List V) : Binding V :=
  if info.variable then .variable info.slot else .value info.boxed (live.getD info.slot null)

def envOf (null : V) (scopes : Scopes) (live : List V) : Env V := fun name =>
  (findInFunction scopes name).map fun info => info.binding null live

def Env.bind (env : Env V) (name : String) (v : V) : Env V :=
  Function.update env name (some (.value false v))

/-- An evaluation that leaves the variables alone. -/
def outside (x : Eval V W α) : Eval V (Machine V W) α := fun s =>
  match x s.2 with
  | .done a w => .done a (s.1, w)
  | .raised value w => .raised value (s.1, w)
  | .returned value w => .returned value (s.1, w)
  | .diverged => .diverged

theorem follows_outside {ends : Ends V (Machine V W)} {k : α → Machine V W → Prop} {x : Eval V W α}
    {store : Nat → V} {w : W} :
    (outside x (store, w)).Follows ends k ↔
      (x w).Follows ⟨fun value w => ends.raises value (store, w),
        fun value w => ends.returns value (store, w), ends.diverges⟩ fun a w => k a (store, w) := by
  unfold outside
  cases x w <;> rfl

/-- How the code of a function sees its frame: where the operands start, the
variables, and the first slot that is free for the code. -/
structure Layout where
  base : Nat
  vars : Nat → Prop
  free : Nat

/-- The slots after some code has run. Operands may have been added. -/
structure Stays (null : V) (l : Layout) (live : List V) (store : Nat → V) (live' : List V) :
    Prop where
  longer : live.length ≤ live'.length
  kept : ∀ i < live.length, i < l.free ∨ l.base ≤ i → ¬ l.vars i → live'[i]? = live[i]?
  holds : ∀ i, l.vars i → live'.getD i null = store i

/-- The ends of an evaluation, for code that may raise anywhere from `lo` to `hi`. -/
def Layout.ends (null : V) (l : Layout) (lo hi : Nat) (live : List V) (post : Post V W) :
    Ends V (Machine V W) where
  raises value s := ∀ pc live', lo ≤ pc → pc < hi → Stays null l live s.1 live' →
    post.raises ⟨pc, live', s.2⟩ value
  returns value s := post.returns value s.2
  diverges := post.diverges

/-- The slots that the scopes name: below `free`, and a variable where the frame
has one. -/
def Visible (l : Layout) (scopes : Scopes) : Prop :=
  ∀ name info, findInFunction scopes name = some info →
    info.slot < l.free ∧ (info.variable = true ↔ l.vars info.slot)

/-- The frame that code runs in which needs the slots below `needed`. -/
structure Site (null : V) (l : Layout) (needed : Nat) (live : List V) (store : Nat → V) :
    Prop where
  enough : l.free ≤ needed
  room : needed ≤ l.base
  based : l.base ≤ live.length
  declared : ∀ i, l.vars i → i < l.free
  holds : ∀ i, l.vars i → live.getD i null = store i

/-- The code of an expression: compiled in `scopes` with the slots from `free` to
`needed` for itself, it computes `eval`. -/
def Sound (M : Engine V W N) (scopes : Scopes) (free needed : Nat) (code : List Instr)
    (eval : Env V → Eval V (Machine V W) V) : Prop :=
  ∀ (mod : BytecodeModule) (pc : Nat) (vars : Nat → Prop) (live : List V) (store : Nat → V) (w : W)
    (post : Post V W),
    let null := M.platform.null
    let l : Layout := ⟨mod.stackBase, vars, free⟩
    Placed mod.code pc code → Site null l needed live store → Visible l scopes →
    (eval (envOf null scopes live) (store, w)).Follows
      (l.ends null pc (pc + code.length) live post)
      (fun v s => ∀ live', live'.length = live.length → Stays null l live s.1 live' →
        Exec M mod post ⟨pc + code.length, live' ++ [v], s.2⟩) →
    Exec M mod post ⟨pc, live, w⟩

/-- The one way in which code from `lo` to `hi` may end, for each outcome of what
it computes. -/
def Layout.outcome (null : V) (l : Layout) (lo hi : Nat) (live : List V) :
    Outcome V (Machine V W) V → Post V W
  | .done v s =>
      { stops := fun point => ∃ live', live'.length = live.length ∧ Stays null l live s.1 live' ∧
          point = ⟨hi, live' ++ [v], s.2⟩
        raises := fun _ _ => False, returns := fun _ _ => False, diverges := False }
  | .raised value s =>
      { stops := fun _ => False
        raises := fun point raised => lo ≤ point.pc ∧ point.pc < hi ∧
          Stays null l live s.1 point.live ∧ point.world = s.2 ∧ raised = value
        returns := fun _ _ => False, diverges := False }
  | .returned value s =>
      { stops := fun _ => False, raises := fun _ _ => False
        returns := fun v w => v = value ∧ w = s.2, diverges := False }
  | .diverged =>
      { stops := fun _ => False, raises := fun _ _ => False, returns := fun _ _ => False
        diverges := True }

theorem follows_outcome {M : Engine V W N} {mod : BytecodeModule} {null : V} {l : Layout}
    {lo hi : Nat} {live : List V} (out : Outcome V (Machine V W) V) :
    out.Follows (l.ends null lo hi live (l.outcome null lo hi live out))
      (fun v s => ∀ live', live'.length = live.length → Stays null l live s.1 live' →
        Exec M mod (l.outcome null lo hi live out) ⟨hi, live' ++ [v], s.2⟩) := by
  cases out with
  | done v s => exact fun live' same stays => .stop ⟨live', same, stays, rfl⟩
  | raised value s => exact fun pc live' low high stays => ⟨low, high, stays, rfl, rfl⟩
  | returned value s => exact ⟨rfl, rfl⟩
  | diverged => trivial

/-- How expressions are compiled, what they mean and which names they mention. -/
structure ExprCompiler (M : Engine V W N) (E : Type) where
  compileExpr : E → Scopes → Nat → Except String (List Instr × Nat)
  eval : E → Env V → Eval V (Machine V W) V
  reads : E → String → Bool
  grows : ∀ {e scopes free code needed}, compileExpr e scopes free = .ok (code, needed) →
    free ≤ needed
  eval_congr : ∀ {e env env'}, (∀ name, reads e name = true → env name = env' name) →
    eval e env = eval e env'
  sound : ∀ {e scopes free code needed}, compileExpr e scopes free = .ok (code, needed) →
    Sound M scopes free needed code (eval e)

/-! ## Moving through a frame -/

section Moving

variable {null : V} {l : Layout} {needed : Nat} {live live' : List V} {store store' : Nat → V}

theorem site_stays (site : Site null l needed live store) : Stays null l live store live where
  longer := Nat.le_refl _
  kept _ _ _ _ := rfl
  holds := site.holds

theorem site_var_bound (site : Site null l needed live store) {i : Nat} (var : l.vars i) :
    i < live.length := by
  have declared := site.declared i var
  have enough := site.enough
  have room := site.room
  have based := site.based
  omega

/-- Operands do not disturb the slots. -/
theorem stays_append (site : Site null l needed live store) (operands : List V)
    (stays : Stays null l live store' live') : Stays null l live store' (live' ++ operands) where
  longer := by
    have longer := stays.longer
    simp
    omega
  kept i inside guarded constant := by
    rw [List.getElem?_append_left (Nat.lt_of_lt_of_le inside stays.longer)]
    exact stays.kept i inside guarded constant
  holds i var := by
    have inside := Nat.lt_of_lt_of_le (site_var_bound site var) stays.longer
    rw [List.getD_append _ _ _ _ inside]
    exact stays.holds i var

/-- A free slot may be written. -/
theorem stays_set (site : Site null l needed live store) {slot : Nat} (v : V)
    (above : l.free ≤ slot) (below : slot < l.base) (stays : Stays null l live store' live') :
    Stays null l live store' (live'.set slot v) where
  longer := by
    rw [List.length_set]
    exact stays.longer
  kept i inside guarded constant := by
    rw [List.getElem?_set_ne (by omega)]
    exact stays.kept i inside guarded constant
  holds i var := by
    have declared := site.declared i var
    rw [List.getD_eq_getElem?_getD, List.getElem?_set_ne (by omega), ← List.getD_eq_getElem?_getD]
    exact stays.holds i var

theorem stays_trans {free : Nat} (more : l.free ≤ free) {live'' : List V} {store'' : Nat → V}
    (first : Stays null l live store' live')
    (second : Stays null ⟨l.base, l.vars, free⟩ live' store'' live'') :
    Stays null l live store'' live'' where
  longer := Nat.le_trans first.longer second.longer
  kept i inside guarded constant := by
    have first' := first.kept i inside guarded constant
    have wider : i < free ∨ l.base ≤ i := guarded.imp_left fun below => Nat.lt_of_lt_of_le below more
    have second' := second.kept i (Nat.lt_of_lt_of_le inside first.longer) wider constant
    exact second'.trans first'
  holds i var := second.holds i var

/-- Later code with more slots taken. -/
theorem site_later {free : Nat} (site : Site null l needed live store) (more : l.free ≤ free)
    (enough : free ≤ needed) (stays : Stays null l live store' live') :
    Site null ⟨l.base, l.vars, free⟩ needed live' store' where
  enough := enough
  room := site.room
  based := Nat.le_trans site.based stays.longer
  declared i var := Nat.lt_of_lt_of_le (site.declared i var) more
  holds := stays.holds

theorem site_fewer {fewer : Nat} (site : Site null l needed live store) (free : l.free ≤ fewer)
    (less : fewer ≤ needed) : Site null l fewer live store :=
  { site with enough := free, room := Nat.le_trans less site.room }

theorem visible_later {scopes : Scopes} {free : Nat} (visible : Visible l scopes)
    (more : l.free ≤ free) : Visible ⟨l.base, l.vars, free⟩ scopes := by
  intro name info found
  obtain ⟨below, kind⟩ := visible name info found
  exact ⟨Nat.lt_of_lt_of_le below more, kind⟩

theorem visible_push {scopes : Scopes} (visible : Visible l scopes) : Visible l ([] :: scopes) := by
  intro name info found
  rw [find_push] at found
  exact visible name info found

/-- A slot that holds no variable keeps its value. -/
theorem stays_slot (site : Site null l needed live store) {slot : Nat} (taken : slot < l.free)
    (constant : ¬ l.vars slot) (stays : Stays null l live store' live') :
    live'.getD slot null = live.getD slot null := by
  have enough := site.enough
  have room := site.room
  have based := site.based
  simp only [List.getD_eq_getElem?_getD]
  rw [stays.kept slot (by omega) (.inl taken) constant]

theorem env_stays {scopes : Scopes} (site : Site null l needed live store)
    (visible : Visible l scopes) (stays : Stays null l live store' live') :
    envOf null scopes live' = envOf null scopes live := by
  funext name
  unfold envOf
  cases found : findInFunction scopes name with
  | none => rfl
  | some info =>
      obtain ⟨below, kind⟩ := visible name info found
      simp only [Option.map_some, LocalInfo.binding]
      by_cases var : info.variable = true
      · simp [var]
      · rw [stays_slot site below (fun is => var (kind.mpr is)) stays]

theorem env_push (scopes : Scopes) : envOf null ([] :: scopes) live = envOf null scopes live := by
  funext name
  simp only [envOf, find_push]

/-- An operation of the instruction at `pc`, inside the code whose ends are
given. -/
theorem follows_at {lo hi pc : Nat} {x : Eval V W α} {k : α → Machine V W → Prop}
    {post : Post V W} {w : W} (low : lo ≤ pc) (high : pc < hi)
    (stays : Stays null l live store' live')
    (follows : (outside x (store', w)).Follows (l.ends null lo hi live post) k) :
    (x w).Follows (post.ends pc live') fun a w => k a (store', w) := by
  rw [follows_outside] at follows
  refine follows_mono follows (fun _ _ done => done) (fun value w raises => ?_)
    (fun _ _ returns => returns) (fun diverges => diverges)
  exact raises pc live' low high stays

end Moving

end ProtoScala.Compiler.Emission
