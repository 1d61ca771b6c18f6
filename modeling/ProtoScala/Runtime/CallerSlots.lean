import Mathlib.Data.List.Nodup
import Mathlib.Data.List.Range

/-!
# The rooting slots of natives

The constructions and destructions on one thread of `NativeCallScope`, `SafepointPermit` and
`CallerSlots`, with the operations on live slots. A live scope is known by the number of scopes
below it; so is the window that a `NativeCallScope` has of its own.
-/

namespace ProtoScala.Runtime.CallerSlots

set_option autoImplicit false

/-- A `ProtoContext`. -/
abbrev Frame := Nat

def kPrimitiveSlots : Nat := 8
def kMaxSlots : Nat := 8
def kTickStride : Nat := 64

/-- `next` counts from the first spare slot of the frame. -/
structure PrimitiveWindow where
  frame : Frame
  next : Nat
  stop : Nat
  depth : Nat
  outside : Nat
  permits : Nat
  submissions : Nat
  deriving DecidableEq

/-- `t_window`, and the windows of the live scopes. -/
structure Windows where
  current : Option Nat
  at_ : Nat → Option PrimitiveWindow

inductive Slot where
  | spare (frame : Frame) (i : Nat)
  | own (scope i : Nat)
  deriving DecidableEq

/-- Where the slots of a `CallerSlots` begin: in a window, or in its own array. -/
inductive Place where
  | spare (frame : Frame) (start : Nat)
  | array
  deriving DecidableEq

inductive Scope where
  | native (ctx : Frame) (saved : Option Nat) (nested : Bool)
  | permit (window : Option Nat)
  | slots (ctx : Frame) (window : Option Nat) (place : Place) (n : Nat)
  deriving DecidableEq

/-- The last scope is first; `none` in the memory is `PROTO_NONE`. -/
structure State (V : Type) where
  windows : Windows
  scopes : List Scope
  memory : Slot → Option V
  ticks : Nat → Nat
  submitted : List Frame
  anchored : List (Frame × Option V)

inductive Op (V : Type) where
  | enter (ctx : Frame) (spare : Option Frame)
  | permit (ctx : Frame)
  | take (ctx : Frame) (n : Nat)
  | leave
  | set (scope i : Nat) (v : Option V)
  | pin (scope i : Nat) (v : Option V)
  | tick (scope : Nat)

namespace Windows

def modify (b : Windows) (w : Nat) (f : PrimitiveWindow → PrimitiveWindow) : Windows :=
  { b with at_ := fun i => if i = w then (b.at_ i).map f else b.at_ i }

/-- With the window of one scope opened or gone, and another one current. -/
def put (b : Windows) (w : Nat) (window : Option PrimitiveWindow) (current : Option Nat) :
    Windows :=
  ⟨current, fun i => if i = w then window else b.at_ i⟩

/-- The current window, where it exists. -/
def window (b : Windows) : Option (Nat × PrimitiveWindow) :=
  b.current.bind fun w => (b.at_ w).map fun pw => (w, pw)

end Windows

def slotAt (scope : Nat) : Place → Nat → Slot
  | .spare frame start, i => .spare frame (start + i)
  | .array, i => .own scope i

def slotsOf (scope : Nat) : Scope → List Slot
  | .slots _ _ place n => (List.range n).map (slotAt scope place)
  | _ => []

def scopeAt (scopes : List Scope) (scope : Nat) : Option Scope := scopes.reverse[scope]?

variable {V : Type}

def clear (slots : List Slot) (memory : Slot → Option V) (slot : Slot) : Option V :=
  if slot ∈ slots then none else memory slot

/-- The constructor of `NativeCallScope`. -/
def enter (s : State V) (ctx : Frame) (spare : Option Frame) : State V :=
  match s.windows.window with
  | some (w, pw) =>
      if pw.frame = ctx then
        { s with
          windows := s.windows.modify w fun pw => { pw with depth := pw.depth + 1 }
          scopes := .native ctx (some w) true :: s.scopes }
      else enterFrame s ctx spare
  | none => enterFrame s ctx spare
where
  enterFrame (s : State V) (ctx : Frame) (spare : Option Frame) : State V :=
    let scopes := .native ctx s.windows.current false :: s.scopes
    if spare = some ctx then
      let own := ⟨ctx, 0, kPrimitiveSlots, 1, 0, 0, 0⟩
      { s with
        windows := s.windows.put s.scopes.length (some own) (some s.scopes.length)
        scopes }
    else { s with windows := { s.windows with current := none }, scopes }

def permit (s : State V) (ctx : Frame) : State V :=
  match s.windows.window with
  | some (w, pw) =>
      if pw.frame = ctx ∧ pw.depth = 1 then
        { s with
          windows := s.windows.modify w fun pw => { pw with permits := pw.permits + 1 }
          scopes := .permit (some w) :: s.scopes }
      else { s with scopes := .permit none :: s.scopes }
  | none => { s with scopes := .permit none :: s.scopes }

/-- The constructor of `CallerSlots`; it throws before it changes anything. -/
def take (s : State V) (ctx : Frame) (n : Nat) : State V :=
  if kMaxSlots < n then s
  else
    match s.windows.window with
    | some (w, pw) =>
        if n ≤ pw.stop - pw.next then
          taken (s.windows.modify w fun pw => { pw with next := pw.next + n })
            (.slots ctx (some w) (.spare pw.frame pw.next) n)
        else
          taken (s.windows.modify w fun pw => { pw with outside := pw.outside + 1 })
            (.slots ctx (some w) .array n)
    | none => taken s.windows (.slots ctx none .array n)
where
  taken (windows : Windows) (scope : Scope) : State V :=
    { s with
      windows
      scopes := scope :: s.scopes
      memory := clear (slotsOf s.scopes.length scope) s.memory
      ticks := fun i => if i = s.scopes.length then 0 else s.ticks i }

/-- What the destructor of a scope does to the windows; `number` counts the scopes below it. -/
def undo (number : Nat) : Scope → Windows → Windows
  | .native _ (some w) true, b => b.modify w fun pw => { pw with depth := pw.depth - 1 }
  | .native _ none true, b => b
  | .native _ saved false, b => b.put number none saved
  | .permit (some w), b => b.modify w fun pw => { pw with permits := pw.permits - 1 }
  | .permit none, b => b
  | .slots _ (some w) (.spare _ start) _, b => b.modify w fun pw => { pw with next := start }
  | .slots _ (some w) .array _, b => b.modify w fun pw => { pw with outside := pw.outside - 1 }
  | .slots _ none _ _, b => b

def leave (s : State V) : Option (State V) :=
  match s.scopes with
  | [] => none
  | scope :: scopes =>
      some
        { s with
          windows := undo scopes.length scope s.windows
          scopes
          memory := clear (slotsOf scopes.length scope) s.memory }

def write (s : State V) (slot : Slot) (v : Option V) : State V :=
  { s with memory := fun other => if other = slot then v else s.memory other }

/-- `CallerSlots::safepoint`: whether there is a chain to hand over is the context's. -/
def safepoint (s : State V) (ctx : Frame) (window : Option Nat) (place : Place) : State V :=
  match s.windows.window with
  | some (w, pw) =>
      if place ≠ .array ∧ window = some w ∧ pw.frame = ctx ∧ pw.depth = 1 ∧ 0 < pw.permits ∧
          pw.outside = 0 then
        { s with
          windows := s.windows.modify w fun pw => { pw with submissions := pw.submissions + 1 }
          submitted := ctx :: s.submitted }
      else s
  | none => s

def step (s : State V) : Op V → Option (State V)
  | .enter ctx spare => some (enter s ctx spare)
  | .permit ctx => some (permit s ctx)
  | .take ctx n => some (take s ctx n)
  | .leave => leave s
  | .set scope i v =>
      match scopeAt s.scopes scope with
      | some (.slots _ _ place n) => if i < n then some (write s (slotAt scope place i) v) else none
      | _ => none
  | .pin scope i v =>
      match scopeAt s.scopes scope with
      | some (.slots ctx _ place n) =>
          if i < n then
            let s := write s (slotAt scope place i) v
            some (if place = .array then { s with anchored := (ctx, v) :: s.anchored } else s)
          else none
      | _ => none
  | .tick scope =>
      match scopeAt s.scopes scope with
      | some (.slots ctx window place _) =>
          let count := s.ticks scope + 1
          let s := { s with ticks := fun i => if i = scope then count else s.ticks i }
          some (if count % kTickStride = 0 then safepoint s ctx window place else s)
      | _ => none

/-- A thread before its first native call; no slot need be clear. -/
def initial (memory : Slot → Option V) : State V :=
  ⟨⟨none, fun _ => none⟩, [], memory, fun _ => 0, [], []⟩

/-! ## What the slots are for -/

/-- The slots of the live `CallerSlots`. -/
def held : List Scope → List Slot
  | [] => []
  | scope :: scopes => slotsOf scopes.length scope ++ held scopes

/-- One of the spare slots of a frame, or of the array of a live scope. -/
def Slot.Exists (scopes : List Scope) : Slot → Prop
  | .spare _ i => i < kPrimitiveSlots
  | .own scope i => scope < scopes.length ∧ i < kMaxSlots

/-- The native activations in a context. -/
def activations (frame : Frame) (scopes : List Scope) : Nat :=
  scopes.countP fun
    | .native ctx _ _ => ctx = frame
    | _ => false

/-- The context of the native that is running. -/
def running : List Scope → Option Frame
  | [] => none
  | .native ctx _ _ :: _ => some ctx
  | _ :: scopes => running scopes

/-- The live `CallerSlots` of a window that have their own array. -/
def untraced (w : Nat) (scopes : List Scope) : Nat :=
  scopes.countP fun
    | .slots _ window .array _ => window = some w
    | _ => false

def permitted (w : Nat) (scopes : List Scope) : Nat :=
  scopes.countP fun
    | .permit window => window = some w
    | _ => false

/-- The windows, but for the submissions that they count. -/
def bookkeeping (b : Windows) : Windows :=
  { b with at_ := fun w => (b.at_ w).map fun pw => { pw with submissions := 0 } }

/-- A run, step by step, with the windows as they were when each live scope was constructed. -/
inductive Run (Allowed : State V → Op V → Prop) : State V → List Windows → Prop
  | start (memory : Slot → Option V) : Run Allowed (initial memory) []
  | construct {s s' : State V} {before : List Windows} {op : Op V} {scope : Scope} :
      Run Allowed s before → Allowed s op → step s op = some s' → s'.scopes = scope :: s.scopes →
        Run Allowed s' (s.windows :: before)
  | use {s s' : State V} {before : List Windows} {op : Op V} :
      Run Allowed s before → Allowed s op → step s op = some s' → s'.scopes = s.scopes →
        Run Allowed s' before
  | destruct {s s' : State V} {b : Windows} {before : List Windows} :
      Run Allowed s (b :: before) → leave s = some s' → Run Allowed s' before

/-- The discipline of the slots in a state that a run reaches. -/
structure Disciplined (s : State V) (before : List Windows) : Prop where
  disjoint : (held s.scopes).Nodup
  placed : ∀ slot ∈ held s.scopes, slot.Exists s.scopes
  cleared : ∀ s' scope, s.scopes = scope :: s'.scopes → leave s = some s' →
    ∀ slot ∈ slotsOf s'.scopes.length scope, s'.memory slot = none
  restored : ∀ s' b rest, before = b :: rest → leave s = some s' →
    bookkeeping s'.windows = bookkeeping b
  submits : ∀ s' scope frame, step s (.tick scope) = some s' →
    s'.submitted = frame :: s.submitted → ∃ w pw, s.windows.current = some w ∧
      s.windows.at_ w = some pw ∧ pw.frame = frame ∧ untraced w s.scopes = 0 ∧
        running s.scopes = some frame ∧ activations frame s.scopes = 1 ∧
          0 < permitted w s.scopes

/-- Every step that a thread takes. -/
def Any (_ : State V) (_ : Op V) : Prop := True

/-- No window is opened over a frame in which a native is running already. -/
def OpensFresh (s : State V) : Op V → Prop
  | .enter ctx spare =>
      spare = some ctx → (∀ w pw, s.windows.window = some (w, pw) → pw.frame ≠ ctx) →
        activations ctx s.scopes = 0
  | _ => True

/-! ## What a construction can do -/

def erase (pw : PrimitiveWindow) : PrimitiveWindow := { pw with submissions := 0 }

theorem bookkeeping_modify (b : Windows) (w : Nat) (f : PrimitiveWindow → PrimitiveWindow)
    (commutes : ∀ pw, erase (f pw) = f (erase pw)) :
    bookkeeping (b.modify w f) = (bookkeeping b).modify w f := by
  unfold bookkeeping Windows.modify
  congr 1
  funext i
  by_cases same : i = w
  · simp only [if_pos same, Option.map_map]
    exact Option.map_congr fun pw _ => commutes pw
  · simp only [if_neg same]

theorem bookkeeping_put (b : Windows) (w : Nat) (window : Option PrimitiveWindow)
    (current : Option Nat) :
    bookkeeping (b.put w window current) = (bookkeeping b).put w (window.map erase) current := by
  unfold bookkeeping Windows.put
  congr 1
  funext i
  by_cases same : i = w
  · simp only [if_pos same]
    rfl
  · simp only [if_neg same]

theorem modify_at (b : Windows) (w i : Nat) (f : PrimitiveWindow → PrimitiveWindow) :
    (b.modify w f).at_ i = (b.at_ i).map fun pw => if i = w then f pw else pw := by
  unfold Windows.modify
  by_cases same : i = w
  · simp only [if_pos same]
  · simp only [if_neg same]
    exact Option.map_id'.symm

theorem bookkeeping_undo (number : Nat) (scope : Scope) (b : Windows) :
    bookkeeping (undo number scope b) = undo number scope (bookkeeping b) := by
  cases scope with
  | native ctx saved nested =>
      cases nested with
      | true =>
          cases saved with
          | none => rfl
          | some w => exact bookkeeping_modify b w _ fun _ => rfl
      | false =>
          cases saved <;> exact bookkeeping_put b number none _
  | permit window =>
      cases window with
      | none => rfl
      | some w => exact bookkeeping_modify b w _ fun _ => rfl
  | slots ctx window place n =>
      cases window with
      | none => rfl
      | some w => cases place <;> exact bookkeeping_modify b w _ fun _ => rfl

/-- What the constructors do to the windows. -/
inductive Grown (b : Windows) (scopes : List Scope) : Scope → Windows → Prop
  | nested {w : Nat} {pw : PrimitiveWindow} : b.current = some w → b.at_ w = some pw →
      Grown b scopes (.native pw.frame (some w) true)
        (b.modify w fun pw => { pw with depth := pw.depth + 1 })
  | opened {ctx : Frame} : activations ctx scopes = 0 →
      Grown b scopes (.native ctx b.current false)
        (b.put scopes.length (some ⟨ctx, 0, kPrimitiveSlots, 1, 0, 0, 0⟩) (some scopes.length))
  | host {ctx : Frame} : Grown b scopes (.native ctx b.current false) { b with current := none }
  | granted {w : Nat} {pw : PrimitiveWindow} : b.current = some w → b.at_ w = some pw →
      Grown b scopes (.permit (some w))
        (b.modify w fun pw => { pw with permits := pw.permits + 1 })
  | refused : Grown b scopes (.permit none) b
  | traced {w : Nat} {pw : PrimitiveWindow} {ctx : Frame} {n : Nat} : b.current = some w →
      b.at_ w = some pw → n ≤ pw.stop - pw.next →
        Grown b scopes (.slots ctx (some w) (.spare pw.frame pw.next) n)
          (b.modify w fun pw => { pw with next := pw.next + n })
  | outside {w : Nat} {pw : PrimitiveWindow} {ctx : Frame} {n : Nat} : b.current = some w →
      b.at_ w = some pw → n ≤ kMaxSlots →
        Grown b scopes (.slots ctx (some w) .array n)
          (b.modify w fun pw => { pw with outside := pw.outside + 1 })
  | loose {ctx : Frame} {n : Nat} : n ≤ kMaxSlots → Grown b scopes (.slots ctx none .array n) b

theorem window_some {b : Windows} {w : Nat} {pw : PrimitiveWindow}
    (found : b.window = some (w, pw)) : b.current = some w ∧ b.at_ w = some pw := by
  obtain ⟨w', current, inside⟩ := Option.bind_eq_some_iff.mp found
  obtain ⟨pw', at_, pair⟩ := Option.map_eq_some_iff.mp inside
  cases pair
  exact ⟨current, at_⟩

theorem window_books {b : Windows} {w : Nat} {pw : PrimitiveWindow}
    (found : b.window = some (w, pw)) :
    (bookkeeping b).current = some w ∧ (bookkeeping b).at_ w = some (erase pw) := by
  obtain ⟨current, at_⟩ := window_some found
  exact ⟨current, congrArg (Option.map erase) at_⟩

theorem enter_grown (s : State V) (ctx : Frame) (spare : Option Frame)
    (fresh : OpensFresh s (.enter ctx spare)) :
    ∃ scope, (enter s ctx spare).scopes = scope :: s.scopes ∧
      Grown (bookkeeping s.windows) s.scopes scope (bookkeeping (enter s ctx spare).windows) := by
  have other : (∀ w pw, s.windows.window = some (w, pw) → pw.frame ≠ ctx) →
      ∃ scope, (enter.enterFrame s ctx spare).scopes = scope :: s.scopes ∧
        Grown (bookkeeping s.windows) s.scopes scope
          (bookkeeping (enter.enterFrame s ctx spare).windows) := by
    intro elsewhere
    unfold enter.enterFrame
    split_ifs with published
    · have opened := Grown.opened (b := bookkeeping s.windows) (fresh published elsewhere)
      refine ⟨_, rfl, ?_⟩
      rw [bookkeeping_put]
      exact opened
    · exact ⟨_, rfl, .host⟩
  unfold enter
  split
  · next w pw found =>
      split_ifs with same
      · obtain ⟨current, at_⟩ := window_books found
        subst same
        refine ⟨_, rfl, ?_⟩
        simp only
        rw [bookkeeping_modify _ _ _ fun _ => by rfl]
        exact @Grown.nested _ _ w (erase pw) current at_
      · refine other fun w' pw' found' => ?_
        rw [found] at found'
        cases found'
        exact same
  · next absent =>
      refine other fun w' pw' found' => ?_
      rw [absent] at found'
      cases found'

theorem permit_grown (s : State V) (ctx : Frame) :
    ∃ scope, (permit s ctx).scopes = scope :: s.scopes ∧
      Grown (bookkeeping s.windows) s.scopes scope (bookkeeping (permit s ctx).windows) := by
  unfold permit
  split
  · next w pw found =>
      split_ifs with outermost
      · obtain ⟨current, at_⟩ := window_books found
        refine ⟨_, rfl, ?_⟩
        simp only
        rw [bookkeeping_modify _ _ _ fun _ => by rfl]
        exact Grown.granted current at_
      · exact ⟨_, rfl, .refused⟩
  · exact ⟨_, rfl, .refused⟩

theorem take_grown (s : State V) (ctx : Frame) (n : Nat) :
    take s ctx n = s ∨ ∃ scope, (take s ctx n).scopes = scope :: s.scopes ∧
      Grown (bookkeeping s.windows) s.scopes scope (bookkeeping (take s ctx n).windows) := by
  unfold take
  split_ifs with tooMany
  · exact .inl rfl
  · have few := Nat.le_of_not_lt tooMany
    right
    split
    · next w pw found =>
        obtain ⟨current, at_⟩ := window_books found
        split_ifs with room
        · refine ⟨_, rfl, ?_⟩
          simp only [take.taken]
          rw [bookkeeping_modify _ _ _ fun _ => by rfl]
          exact @Grown.traced _ _ w (erase pw) ctx n current at_ room
        · refine ⟨_, rfl, ?_⟩
          simp only [take.taken]
          rw [bookkeeping_modify _ _ _ fun _ => by rfl]
          exact Grown.outside current at_ few
    · exact ⟨_, rfl, .loose few⟩

theorem safepoint_books (s : State V) (ctx : Frame) (window : Option Nat) (place : Place) :
    (safepoint s ctx window place).scopes = s.scopes ∧
      bookkeeping (safepoint s ctx window place).windows = bookkeeping s.windows := by
  unfold safepoint
  split
  · next w pw found =>
      split_ifs with safe
      · refine ⟨rfl, ?_⟩
        have counted : ∀ b : Windows, bookkeeping
            (b.modify w fun pw => { pw with submissions := pw.submissions + 1 }) =
              bookkeeping b := by
          intro b
          refine congrArg (Windows.mk b.current) (funext fun i => ?_)
          rw [modify_at, Option.map_map]
          refine Option.map_congr fun pw _ => ?_
          rw [Function.comp_apply]
          split_ifs <;> rfl
        exact counted s.windows
      · exact ⟨rfl, rfl⟩
  · exact ⟨rfl, rfl⟩

/-- The windows and the live scopes after a step: a scope is constructed, or the last one is
destroyed, or nothing changes but what the windows count of submissions. -/
theorem step_cases {s s' : State V} {op : Op V} (fresh : OpensFresh s op)
    (stepped : step s op = some s') :
    (s'.scopes = s.scopes ∧ bookkeeping s'.windows = bookkeeping s.windows) ∨
      (∃ scope, s'.scopes = scope :: s.scopes ∧
        Grown (bookkeeping s.windows) s.scopes scope (bookkeeping s'.windows)) ∨
      leave s = some s' := by
  cases op with
  | enter ctx spare =>
      cases stepped
      exact .inr (.inl (enter_grown s ctx spare fresh))
  | permit ctx =>
      cases stepped
      exact .inr (.inl (permit_grown s ctx))
  | take ctx n =>
      cases stepped
      rcases take_grown s ctx n with refused | grown
      · rw [refused]
        exact .inl ⟨rfl, rfl⟩
      · exact .inr (.inl grown)
  | leave => exact .inr (.inr stepped)
  | set scope i v =>
      left
      rw [step] at stepped
      split at stepped
      · split_ifs at stepped
        cases stepped
        exact ⟨rfl, rfl⟩
      · cases stepped
  | pin scope i v =>
      left
      rw [step] at stepped
      split at stepped
      · split_ifs at stepped <;> cases stepped <;> exact ⟨rfl, rfl⟩
      · cases stepped
  | tick scope =>
      left
      rw [step] at stepped
      split at stepped
      · cases stepped
        split_ifs
        · exact safepoint_books _ _ _ _
        · exact ⟨rfl, rfl⟩
      · cases stepped

/-! ## What holds of the windows -/

/-- The windows lie apart, and what is held of their slots lies below the next free one. -/
structure Placed (at_ : Nat → Option PrimitiveWindow) (scopes : List Scope) : Prop where
  inside : ∀ w pw, at_ w = some pw → w < scopes.length ∧ pw.next ≤ pw.stop ∧
    pw.stop = kPrimitiveSlots ∧ 0 < activations pw.frame scopes
  apart : ∀ w w' pw pw', at_ w = some pw → at_ w' = some pw' → pw.frame = pw'.frame → w = w'
  spare : ∀ frame i, Slot.spare frame i ∈ held scopes →
    ∃ w pw, at_ w = some pw ∧ pw.frame = frame ∧ i < pw.next
  own : ∀ scope i, Slot.own scope i ∈ held scopes → scope < scopes.length ∧ i < kMaxSlots
  nodup : (held scopes).Nodup

/-- What the current window counts are live scopes. -/
structure Counted (b : Windows) (scopes : List Scope) : Prop where
  later : ∀ w, scopes.length ≤ w → untraced w scopes = 0 ∧ permitted w scopes = 0
  current : ∀ w, b.current = some w → ∃ pw, b.at_ w = some pw ∧
    running scopes = some pw.frame ∧ pw.depth = activations pw.frame scopes ∧
      pw.outside = untraced w scopes ∧ pw.permits = permitted w scopes

/-- The windows at a live scope and at each one below it, back to none. -/
def Nested : Windows → List Scope → List Windows → Prop
  | b, [], [] => Placed b.at_ [] ∧ Counted b []
  | b, scope :: scopes, b' :: before =>
      (Placed b.at_ (scope :: scopes) ∧ Counted b (scope :: scopes)) ∧
        undo scopes.length scope b = b' ∧ Nested b' scopes before
  | _, _, _ => False

theorem undo_native (number : Nat) (ctx : Frame) (saved : Option Nat) (b : Windows) :
    undo number (.native ctx saved false) b = b.put number none saved := by
  cases saved <;> rfl

theorem grown_undo {b b' : Windows} {scopes : List Scope} {scope : Scope}
    (placed : Placed b.at_ scopes) (grown : Grown b scopes scope b') :
    undo scopes.length scope b' = b := by
  have back : ∀ w (f g : PrimitiveWindow → PrimitiveWindow), (∀ pw, b.at_ w = some pw →
      g (f pw) = pw) → (b.modify w f).modify w g = b := by
    intro w f g inverse
    refine congrArg (Windows.mk b.current) (funext fun i => ?_)
    by_cases same : i = w
    · subst same
      rw [if_pos rfl, modify_at, Option.map_map]
      refine (Option.map_congr fun pw found => ?_).trans Option.map_id'
      rw [Function.comp_apply, if_pos rfl]
      exact inverse pw found
    · rw [if_neg same]
      exact if_neg same
  have vacant : b.at_ scopes.length = none := by
    cases found : b.at_ scopes.length with
    | none => rfl
    | some pw => exact absurd (placed.inside _ pw found).1 (Nat.lt_irrefl _)
  have emptied : (fun i => if i = scopes.length then none else b.at_ i) = b.at_ := by
    funext i
    split_ifs with same
    · rw [same, vacant]
    · rfl
  cases grown with
  | nested current at_ => exact back _ _ _ fun pw _ => rfl
  | opened fresh =>
      rw [undo_native]
      refine congrArg (Windows.mk b.current) (Eq.trans (funext fun i => ?_) emptied)
      by_cases same : i = scopes.length
      · simp only [if_pos same]
      · simp only [if_neg same]
        exact if_neg same
  | host =>
      rw [undo_native]
      exact congrArg (Windows.mk b.current) emptied
  | granted current at_ => exact back _ _ _ fun pw _ => rfl
  | refused => rfl
  | traced current at_ room =>
      refine back _ _ _ fun pw at_' => ?_
      obtain rfl := Option.some.inj (at_.symm.trans at_')
      rfl
  | outside current at_ few => exact back _ _ _ fun pw _ => rfl
  | loose few => rfl

/-! ### The slots -/

theorem modified {b : Windows} {w i : Nat} {f : PrimitiveWindow → PrimitiveWindow}
    {pw : PrimitiveWindow} (found : (b.modify w f).at_ i = some pw) :
    ∃ pw', b.at_ i = some pw' ∧ pw = if i = w then f pw' else pw' := by
  rw [modify_at] at found
  obtain ⟨pw', at_, eq⟩ := Option.map_eq_some_iff.mp found
  exact ⟨pw', at_, eq.symm⟩

/-- A window may take more of its slots. -/
theorem placed_modify {b : Windows} {scopes : List Scope} {w : Nat}
    {f : PrimitiveWindow → PrimitiveWindow} (placed : Placed b.at_ scopes)
    (same : ∀ pw, (f pw).frame = pw.frame ∧ (f pw).stop = pw.stop ∧ pw.next ≤ (f pw).next)
    (room : ∀ pw, b.at_ w = some pw → (f pw).next ≤ pw.stop) :
    Placed (b.modify w f).at_ scopes := by
  have frames : ∀ i pw, (if i = w then f pw else pw).frame = pw.frame := by
    intro i pw
    split_ifs
    · exact (same pw).1
    · rfl
  constructor
  · intro i pw found
    obtain ⟨pw', at_, rfl⟩ := modified found
    obtain ⟨below, enough, stop, active⟩ := placed.inside i pw' at_
    rw [frames]
    refine ⟨below, ?_, ?_, active⟩
    · split_ifs with here
      · subst here
        rw [(same pw').2.1]
        exact room pw' at_
      · exact enough
    · split_ifs
      · rw [(same pw').2.1, stop]
      · exact stop
  · intro i j pw pw' found found' equal
    obtain ⟨one, at_, rfl⟩ := modified found
    obtain ⟨two, at_', rfl⟩ := modified found'
    rw [frames, frames] at equal
    exact placed.apart i j one two at_ at_' equal
  · intro frame i member
    obtain ⟨w', pw, at_, rfl, below⟩ := placed.spare frame i member
    refine ⟨w', if w' = w then f pw else pw, ?_, frames w' pw, ?_⟩
    · rw [modify_at, at_, Option.map_some]
    · split_ifs
      · exact Nat.lt_of_lt_of_le below (same pw).2.2
      · exact below
  · exact placed.own
  · exact placed.nodup

theorem activations_cons (frame : Frame) (scope : Scope) (scopes : List Scope) :
    activations frame scopes ≤ activations frame (scope :: scopes) :=
  List.Sublist.countP_le (List.sublist_cons_self scope scopes)

theorem activations_native (frame ctx : Frame) (saved : Option Nat) (nested : Bool)
    (scopes : List Scope) : activations frame (.native ctx saved nested :: scopes) =
      activations frame scopes + if ctx = frame then 1 else 0 := by
  rw [activations, List.countP_cons]
  simp [activations]

/-- A scope whose slots are free and below the next free ones may be constructed. -/
theorem placed_push {at_ : Nat → Option PrimitiveWindow} {scopes : List Scope} {scope : Scope}
    (placed : Placed at_ scopes) (once : (slotsOf scopes.length scope).Nodup)
    (free : ∀ slot ∈ slotsOf scopes.length scope, slot ∉ held scopes)
    (spare : ∀ frame i, Slot.spare frame i ∈ slotsOf scopes.length scope →
      ∃ w pw, at_ w = some pw ∧ pw.frame = frame ∧ i < pw.next)
    (own : ∀ number i, Slot.own number i ∈ slotsOf scopes.length scope →
      number = scopes.length ∧ i < kMaxSlots) :
    Placed at_ (scope :: scopes) := by
  constructor
  · intro w pw found
    obtain ⟨below, enough, stop, active⟩ := placed.inside w pw found
    exact ⟨Nat.lt_succ_of_lt below, enough, stop,
      Nat.lt_of_lt_of_le active (activations_cons _ _ _)⟩
  · exact placed.apart
  · intro frame i member
    exact (List.mem_append.mp member).elim (spare frame i) (placed.spare frame i)
  · intro number i member
    rcases List.mem_append.mp member with new | old
    · obtain ⟨rfl, small⟩ := own number i new
      exact ⟨Nat.lt_succ_self _, small⟩
    · obtain ⟨below, small⟩ := placed.own number i old
      exact ⟨Nat.lt_succ_of_lt below, small⟩
  · exact List.nodup_append'.mpr ⟨once, placed.nodup, fun slot new old => free slot new old⟩

theorem placed_push_none {at_ : Nat → Option PrimitiveWindow} {scopes : List Scope}
    {scope : Scope} (placed : Placed at_ scopes) (nothing : slotsOf scopes.length scope = []) :
    Placed at_ (scope :: scopes) := by
  refine placed_push placed ?_ ?_ ?_ ?_ <;> rw [nothing]
  · exact List.nodup_nil
  all_goals simp

theorem placed_push_array {at_ : Nat → Option PrimitiveWindow} {scopes : List Scope}
    {ctx : Frame} {window : Option Nat} {n : Nat} (placed : Placed at_ scopes)
    (few : n ≤ kMaxSlots) : Placed at_ (.slots ctx window .array n :: scopes) := by
  have shape : ∀ slot ∈ slotsOf scopes.length (.slots ctx window .array n),
      ∃ i < n, slot = .own scopes.length i := by
    intro slot member
    obtain ⟨i, inside, rfl⟩ := List.mem_map.mp member
    exact ⟨i, List.mem_range.mp inside, rfl⟩
  refine placed_push placed ?_ ?_ ?_ ?_
  · exact List.nodup_range.map fun i j same => (Slot.own.inj same).2
  · intro slot member old
    obtain ⟨i, _, rfl⟩ := shape slot member
    exact absurd (placed.own _ _ old).1 (Nat.lt_irrefl _)
  · intro frame i member
    obtain ⟨j, _, impossible⟩ := shape _ member
    cases impossible
  · intro number i member
    obtain ⟨j, inside, same⟩ := shape _ member
    cases same
    exact ⟨rfl, Nat.lt_of_lt_of_le inside few⟩

theorem placed_push_traced {b : Windows} {scopes : List Scope} {ctx : Frame} {w n : Nat}
    {pw : PrimitiveWindow} (placed : Placed b.at_ scopes) (at_ : b.at_ w = some pw)
    (room : n ≤ pw.stop - pw.next) :
    Placed (b.modify w fun pw => { pw with next := pw.next + n }).at_
      (.slots ctx (some w) (.spare pw.frame pw.next) n :: scopes) := by
  have within := (placed.inside w pw at_).2.1
  have shape : ∀ slot ∈ slotsOf scopes.length (.slots ctx (some w) (.spare pw.frame pw.next) n),
      ∃ i < n, slot = .spare pw.frame (pw.next + i) := by
    intro slot member
    obtain ⟨i, inside, rfl⟩ := List.mem_map.mp member
    exact ⟨i, List.mem_range.mp inside, rfl⟩
  have grown : Placed (b.modify w fun pw => { pw with next := pw.next + n }).at_ scopes := by
    refine placed_modify placed (fun pw' => ⟨rfl, rfl, Nat.le_add_right _ _⟩) fun pw' at_' => ?_
    obtain rfl := Option.some.inj (at_.symm.trans at_')
    show pw.next + n ≤ pw.stop
    omega
  refine placed_push grown ?_ ?_ ?_ ?_
  · exact List.nodup_range.map fun i j same => Nat.add_left_cancel (Slot.spare.inj same).2
  · intro slot member old
    obtain ⟨i, _, rfl⟩ := shape slot member
    obtain ⟨w', pw', at_', frame, below⟩ := placed.spare _ _ old
    obtain rfl := placed.apart w' w pw' pw at_' at_ frame
    obtain rfl := Option.some.inj (at_.symm.trans at_')
    omega
  · intro frame i member
    obtain ⟨j, inside, same⟩ := shape _ member
    cases same
    refine ⟨w, { pw with next := pw.next + n }, ?_, rfl, Nat.add_lt_add_left inside _⟩
    rw [modify_at, at_, Option.map_some, if_pos rfl]
  · intro number i member
    obtain ⟨j, _, impossible⟩ := shape _ member
    cases impossible

theorem placed_open {b : Windows} {scopes : List Scope} {ctx : Frame} {saved : Option Nat}
    (placed : Placed b.at_ scopes) (fresh : activations ctx scopes = 0) :
    Placed
      (b.put scopes.length (some ⟨ctx, 0, kPrimitiveSlots, 1, 0, 0, 0⟩) (some scopes.length)).at_
      (.native ctx saved false :: scopes) := by
  have pushed : Placed b.at_ (.native ctx saved false :: scopes) := placed_push_none placed rfl
  have elsewhere : ∀ w pw, b.at_ w = some pw → w ≠ scopes.length ∧ pw.frame ≠ ctx := by
    intro w pw found
    obtain ⟨below, _, _, active⟩ := placed.inside w pw found
    refine ⟨Nat.ne_of_lt below, ?_⟩
    rintro rfl
    omega
  have cases_ : ∀ {w pw}, (b.put scopes.length (some ⟨ctx, 0, kPrimitiveSlots, 1, 0, 0, 0⟩)
      (some scopes.length)).at_ w = some pw →
        (w = scopes.length ∧ pw = ⟨ctx, 0, kPrimitiveSlots, 1, 0, 0, 0⟩) ∨
          b.at_ w = some pw := by
    intro w pw found
    unfold Windows.put at found
    simp only at found
    split_ifs at found with here
    · exact .inl ⟨here, (Option.some.inj found).symm⟩
    · exact .inr found
  constructor
  · intro w pw found
    rcases cases_ found with ⟨rfl, rfl⟩ | old
    · refine ⟨Nat.lt_succ_self _, Nat.zero_le _, rfl, ?_⟩
      rw [activations_native, if_pos rfl]
      exact Nat.succ_pos _
    · exact pushed.inside w pw old
  · intro w w' pw pw' found found' same
    rcases cases_ found with ⟨rfl, rfl⟩ | old <;> rcases cases_ found' with ⟨rfl, rfl⟩ | old'
    · rfl
    · exact absurd same.symm (elsewhere w' pw' old').2
    · exact absurd same (elsewhere w pw old).2
    · exact placed.apart w w' pw pw' old old' same
  · intro frame i member
    obtain ⟨w, pw, at_, same, below⟩ := pushed.spare frame i member
    refine ⟨w, pw, ?_, same, below⟩
    unfold Windows.put
    simp only [if_neg (elsewhere w pw at_).1]
    exact at_
  · exact pushed.own
  · exact pushed.nodup

theorem grown_placed {b b' : Windows} {scopes : List Scope} {scope : Scope}
    (placed : Placed b.at_ scopes) (grown : Grown b scopes scope b') :
    Placed b'.at_ (scope :: scopes) := by
  have kept : ∀ w (f : PrimitiveWindow → PrimitiveWindow),
      (∀ pw, (f pw).frame = pw.frame ∧ (f pw).stop = pw.stop ∧ (f pw).next = pw.next) →
        Placed (b.modify w f).at_ scopes := by
    intro w f same
    refine placed_modify placed (fun pw => ?_) fun pw at_ => ?_
    · exact ⟨(same pw).1, (same pw).2.1, (same pw).2.2.ge⟩
    · rw [(same pw).2.2]
      exact (placed.inside w pw at_).2.1
  cases grown with
  | nested current at_ => exact placed_push_none (kept _ _ fun _ => ⟨rfl, rfl, rfl⟩) rfl
  | opened fresh => exact placed_open placed fresh
  | host => exact placed_push_none placed rfl
  | granted current at_ => exact placed_push_none (kept _ _ fun _ => ⟨rfl, rfl, rfl⟩) rfl
  | refused => exact placed_push_none placed rfl
  | traced current at_ room => exact placed_push_traced placed at_ room
  | outside current at_ few => exact placed_push_array (kept _ _ fun _ => ⟨rfl, rfl, rfl⟩) few
  | loose few => exact placed_push_array placed few

/-! ### The counts -/

theorem untraced_slots (w : Nat) (ctx : Frame) (window : Option Nat) (n : Nat)
    (scopes : List Scope) : untraced w (.slots ctx window .array n :: scopes) =
      untraced w scopes + if window = some w then 1 else 0 := by
  rw [untraced, List.countP_cons]
  simp [untraced]

theorem permitted_permit (w : Nat) (window : Option Nat) (scopes : List Scope) :
    permitted w (.permit window :: scopes) =
      permitted w scopes + if window = some w then 1 else 0 := by
  rw [permitted, List.countP_cons]
  simp [permitted]

/-- A scope with no window of its own changes the counts of the current window as the
constructor does. -/
theorem counted_push {b : Windows} {scopes : List Scope} {scope : Scope} {w : Nat}
    {f : PrimitiveWindow → PrimitiveWindow} (placed : Placed b.at_ scopes)
    (counted : Counted b scopes) (current : b.current = some w)
    (others : ∀ w', w' ≠ w → untraced w' (scope :: scopes) = untraced w' scopes ∧
      permitted w' (scope :: scopes) = permitted w' scopes)
    (counts : ∀ pw, b.at_ w = some pw → (f pw).frame = pw.frame ∧
      (running scopes = some pw.frame → running (scope :: scopes) = some pw.frame) ∧
        (f pw).depth + activations pw.frame scopes =
            pw.depth + activations pw.frame (scope :: scopes) ∧
          (f pw).outside + untraced w scopes = pw.outside + untraced w (scope :: scopes) ∧
            (f pw).permits + permitted w scopes = pw.permits + permitted w (scope :: scopes)) :
    Counted (b.modify w f) (scope :: scopes) := by
  obtain ⟨pw, at_, run, depth, outside, permits⟩ := counted.current w current
  obtain ⟨frame, run', depth', outside', permits'⟩ := counts pw at_
  have below := (placed.inside w pw at_).1
  constructor
  · intro w' beyond
    obtain ⟨none_, none'⟩ := counted.later w' (Nat.le_of_succ_le beyond)
    obtain ⟨same, same'⟩ := others w' (Nat.ne_of_gt (Nat.lt_trans below beyond))
    exact ⟨same.trans none_, same'.trans none'⟩
  · intro w' current'
    obtain rfl : w = w' := Option.some.inj (current.symm.trans current')
    refine ⟨f pw, ?_, ?_, ?_, ?_, ?_⟩
    · rw [modify_at, at_, Option.map_some, if_pos rfl]
    · rw [frame]
      exact run' run
    · rw [frame]
      omega
    · omega
    · omega

/-- A scope that no window counts. -/
theorem counted_same {b : Windows} {scopes : List Scope} {scope : Scope}
    (counted : Counted b scopes) (run : running (scope :: scopes) = running scopes)
    (active : ∀ frame, activations frame (scope :: scopes) = activations frame scopes)
    (outside : ∀ w, untraced w (scope :: scopes) = untraced w scopes)
    (permits : ∀ w, permitted w (scope :: scopes) = permitted w scopes) :
    Counted b (scope :: scopes) := by
  constructor
  · intro w beyond
    rw [outside, permits]
    exact counted.later w (Nat.le_of_succ_le beyond)
  · intro w current
    obtain ⟨pw, counts⟩ := counted.current w current
    refine ⟨pw, ?_⟩
    rw [run, active, outside, permits]
    exact counts

theorem grown_counted {b b' : Windows} {scopes : List Scope} {scope : Scope}
    (placed : Placed b.at_ scopes) (counted : Counted b scopes)
    (grown : Grown b scopes scope b') : Counted b' (scope :: scopes) := by
  cases grown with
  | nested current at_ =>
      refine counted_push placed counted current (fun _ _ => ⟨rfl, rfl⟩) fun pw at_' => ?_
      obtain rfl := Option.some.inj (at_.symm.trans at_')
      refine ⟨rfl, fun _ => rfl, ?_, rfl, rfl⟩
      rw [activations_native, if_pos rfl]
      exact Nat.add_right_comm _ 1 _
  | opened fresh =>
      constructor
      · intro w beyond
        exact counted.later w (Nat.le_of_succ_le beyond)
      · intro w current
        obtain rfl : scopes.length = w := Option.some.inj current
        obtain ⟨none_, none'⟩ := counted.later scopes.length (Nat.le_refl _)
        refine ⟨_, if_pos rfl, rfl, ?_, none_.symm, none'.symm⟩
        rw [activations_native, if_pos rfl, fresh]
  | host =>
      exact ⟨fun w beyond => counted.later w (Nat.le_of_succ_le beyond),
        fun w impossible => nomatch impossible⟩
  | granted current at_ =>
      refine counted_push placed counted current (fun w' other => ⟨rfl, ?_⟩) fun pw at_' => ?_
      · rw [permitted_permit, if_neg fun same => other (Option.some.inj same).symm, Nat.add_zero]
      · refine ⟨rfl, fun run => run, rfl, rfl, ?_⟩
        rw [permitted_permit, if_pos rfl]
        exact Nat.add_right_comm pw.permits 1 _
  | refused =>
      refine counted_same counted rfl (fun _ => rfl) (fun w => rfl) fun w => ?_
      rw [permitted_permit, if_neg (Option.some_ne_none w).symm, Nat.add_zero]
  | traced current at_ room =>
      exact counted_push placed counted current (fun _ _ => ⟨rfl, rfl⟩) fun pw at_' =>
        ⟨rfl, fun run => run, rfl, rfl, rfl⟩
  | outside current at_ few =>
      refine counted_push placed counted current (fun w' other => ⟨?_, rfl⟩) fun pw at_' => ?_
      · rw [untraced_slots, if_neg fun same => other (Option.some.inj same).symm, Nat.add_zero]
      · refine ⟨rfl, fun run => run, rfl, ?_, rfl⟩
        rw [untraced_slots, if_pos rfl]
        exact Nat.add_right_comm pw.outside 1 _
  | loose few =>
      refine counted_same counted rfl (fun _ => rfl) (fun w => ?_) fun w => rfl
      rw [untraced_slots, if_neg (Option.some_ne_none w).symm, Nat.add_zero]

/-! ## Whole runs -/

theorem nested_top {b : Windows} {scopes : List Scope} {before : List Windows}
    (nested : Nested b scopes before) : Placed b.at_ scopes ∧ Counted b scopes := by
  cases scopes <;> cases before
  · exact nested
  · exact nested.elim
  · exact nested.elim
  · exact nested.1

theorem leave_pops {s s' : State V} (left : leave s = some s') :
    ∃ scope, s.scopes = scope :: s'.scopes := by
  unfold leave at left
  split at left
  · cases left
  · next scope scopes shape =>
      cases left
      exact ⟨scope, shape⟩

theorem leave_eq {s s' : State V} {scope : Scope} (popped : s.scopes = scope :: s'.scopes)
    (left : leave s = some s') :
    s'.windows = undo s'.scopes.length scope s.windows ∧
      s'.memory = clear (slotsOf s'.scopes.length scope) s.memory := by
  unfold leave at left
  rw [popped] at left
  have same := Option.some.inj left
  rw [← same]
  exact ⟨rfl, rfl⟩

/-- A chain is handed over only under the conditions that `safepoint` tests. -/
theorem tick_submits {s s' : State V} {scope : Nat} {frame : Frame}
    (ticked : step s (.tick scope) = some s') (submitted : s'.submitted = frame :: s.submitted) :
    ∃ w pw, s.windows.current = some w ∧ s.windows.at_ w = some pw ∧ pw.frame = frame ∧
      pw.depth = 1 ∧ 0 < pw.permits ∧ pw.outside = 0 := by
  have unchanged : s.submitted ≠ frame :: s.submitted := fun same =>
    absurd (congrArg List.length same).symm (Nat.succ_ne_self _)
  rw [step] at ticked
  split at ticked
  · next ctx window place n _ =>
      obtain rfl := Option.some.inj ticked
      split_ifs at submitted
      · unfold safepoint at submitted
        split at submitted
        · next w pw found =>
            obtain ⟨current, at_⟩ := window_some found
            split_ifs at submitted with safe
            · obtain ⟨_, _, owner, depth, permits, outside⟩ := safe
              obtain rfl := (List.cons.inj submitted).1
              exact ⟨w, pw, current, at_, owner, depth, permits, outside⟩
            · exact absurd submitted unchanged
        · exact absurd submitted unchanged
      · exact absurd submitted unchanged
  · cases ticked

/-- The windows at a live scope are those that the scopes over it lead back to. -/
theorem run_nested {s : State V} {before : List Windows} (run : Run OpensFresh s before) :
    Nested (bookkeeping s.windows) s.scopes (before.map bookkeeping) := by
  induction run with
  | start memory =>
      refine ⟨⟨?_, ?_, ?_, ?_, List.nodup_nil⟩, fun _ _ => ⟨rfl, rfl⟩, ?_⟩ <;>
        intros <;> contradiction
  | @construct s s' before op scope run fresh stepped pushed induction =>
      have longer : s'.scopes.length = s.scopes.length + 1 := by rw [pushed, List.length_cons]
      rcases step_cases fresh stepped with ⟨same, _⟩ | ⟨scope', pushed', grown⟩ | left
      · rw [same] at longer
        exact absurd longer.symm (Nat.succ_ne_self _)
      · obtain rfl := (List.cons.inj (pushed.symm.trans pushed')).1
        obtain ⟨placed, counted⟩ := nested_top induction
        rw [pushed]
        exact ⟨⟨grown_placed placed grown, grown_counted placed counted grown⟩,
          grown_undo placed grown, induction⟩
      · obtain ⟨scope', popped⟩ := leave_pops left
        rw [popped, List.length_cons] at longer
        omega
  | use run fresh stepped same induction =>
      rcases step_cases fresh stepped with ⟨_, books⟩ | ⟨scope, pushed, _⟩ | left
      · rwa [books, same]
      · rw [same] at pushed
        exact absurd (congrArg List.length pushed).symm (Nat.succ_ne_self _)
      · obtain ⟨scope, popped⟩ := leave_pops left
        rw [same] at popped
        exact absurd (congrArg List.length popped).symm (Nat.succ_ne_self _)
  | @destruct s s' b before run left induction =>
      obtain ⟨scope, popped⟩ := leave_pops left
      rw [popped] at induction
      obtain ⟨_, restored, below⟩ := induction
      rw [(leave_eq popped left).1, bookkeeping_undo, restored]
      exact below

/-- In every run that opens no second window over a frame, the slots of live scopes are apart
and where they belong, a scope that is left clears its slots and gives the windows back as they
were, and a tick hands a chain over only where nothing is held outside of traced slots and the
outermost native of the frame runs with a permit. -/
theorem slot_discipline {s : State V} {before : List Windows} (run : Run OpensFresh s before) :
    Disciplined s before := by
  have nested := run_nested run
  obtain ⟨placed, counted⟩ := nested_top nested
  constructor
  · exact placed.nodup
  · intro slot member
    cases slot with
    | spare frame i =>
        obtain ⟨w, pw, at_, _, below⟩ := placed.spare frame i member
        obtain ⟨_, enough, stop, _⟩ := placed.inside w pw at_
        exact Nat.lt_of_lt_of_le below (stop ▸ enough)
    | own scope i => exact placed.own scope i member
  · intro s' scope popped left slot member
    rw [(leave_eq popped left).2, clear, if_pos member]
  · intro s' b rest top left
    obtain ⟨scope, popped⟩ := leave_pops left
    rw [top, popped] at nested
    rw [(leave_eq popped left).1, bookkeeping_undo]
    exact nested.2.1
  · intro s' scope frame ticked submitted
    obtain ⟨w, pw, current, at_, rfl, depth, permits, outside⟩ := tick_submits ticked submitted
    obtain ⟨pw', at_', run', depth', outside', permits'⟩ := counted.current w current
    obtain ⟨pw'', at_'', rfl⟩ := Option.map_eq_some_iff.mp at_'
    obtain rfl := Option.some.inj (at_.symm.trans at_'')
    exact ⟨w, pw, current, at_, rfl, outside'.symm.trans outside, run', depth'.symm.trans depth,
      permits' ▸ permits⟩

/-- A native of frame 1 with a permit and a slot. -/
theorem permitted_native : ∃ (s : State Unit) (before : List Windows),
    s.scopes = [.slots 1 (some 0) (.spare 1 0) 1, .permit (some 0), .native 1 none false] ∧
      Disciplined s before := by
  have start : Run OpensFresh (initial fun _ => (none : Option Unit)) [] := .start _
  have entered := Run.construct start
    (show OpensFresh _ (.enter 1 (some 1)) from fun _ _ => rfl)
    (show step (initial fun _ => (none : Option Unit)) (.enter 1 (some 1)) = some _ from rfl) rfl
  have allowed := Run.construct entered (show OpensFresh _ (.permit 1) from trivial)
    (show step _ (.permit 1) = some _ from rfl) rfl
  have holds := Run.construct allowed (show OpensFresh _ (.take 1 1) from trivial)
    (show step _ (.take 1 1) = some _ from rfl) rfl
  exact ⟨_, _, rfl, slot_discipline holds⟩

/-- A native of frame 1 that holds a slot calls one in context 2, which calls one of frame 1
again: the new window gives the same slot out once more. -/
theorem slot_given_twice :
    ¬∀ (s : State Unit) (before : List Windows), Run Any s before → Disciplined s before := by
  intro all
  have start : Run Any (initial fun _ => (none : Option Unit)) [] := .start _
  have first := Run.construct start trivial
    (show step (initial fun _ => (none : Option Unit)) (.enter 1 (some 1)) = some _ from rfl) rfl
  have holds := Run.construct first trivial (show step _ (.take 1 1) = some _ from rfl) rfl
  have away := Run.construct holds trivial
    (show step _ (.enter 2 (some 1)) = some _ from rfl) rfl
  have again := Run.construct away trivial
    (show step _ (.enter 1 (some 1)) = some _ from rfl) rfl
  have holds' := Run.construct again trivial (show step _ (.take 1 1) = some _ from rfl) rfl
  have once := (all _ _ holds').disjoint
  exact absurd once (by decide)

end ProtoScala.Runtime.CallerSlots
