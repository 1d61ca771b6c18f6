import Mathlib.Data.List.Induction
import ProtoScala.Runtime.PreludeImage

/-!
# Breakpoints and sources

A client sets the breakpoints of a file before or after the file is compiled, and a file may be
compiled more than once. Whatever the order of these calls, a source has its breakpoints on the
lines that its modules taken together and the client's last request for it say.
-/

namespace ProtoScala.Debugger.Breakpoints

open ProtoScala.Library
open ProtoScala.Runtime.PreludeImage (BytecodeModule Body)

set_option autoImplicit false

/-! ## Hit conditions -/

inductive Hit where
  | none | eq | ge | gt | lt | le | mod
  deriving DecidableEq, Repr

/-- Without the count of its hits. -/
structure LineBreakpoint where
  condition : String := ""
  hit : Hit := .none
  hitN : Nat := 0
  isLog : Bool := false
  logMessage : String := ""
  deriving DecidableEq, Repr

def LineBreakpoint.plain (bp : LineBreakpoint) : Bool :=
  bp.condition = "" && bp.hit = .none && !bp.isLog

def isSpace (c : Char) : Bool :=
  c = ' ' || c = '\t' || c = '\n' || c = '\x0b' || c = '\x0c' || c = '\r'

/-- The comparison that a text starts with, and what stands behind it. -/
def takeHit : List Char → Hit × List Char
  | '=' :: '=' :: rest => (.eq, rest)
  | '>' :: '=' :: rest => (.ge, rest)
  | '<' :: '=' :: rest => (.le, rest)
  | '>' :: rest => (.gt, rest)
  | '<' :: rest => (.lt, rest)
  | '%' :: rest => (.mod, rest)
  | '=' :: rest => (.eq, rest)
  | text => (.eq, text)

def decimalValue (digits : List Char) : Nat :=
  digits.foldl (fun n c => n * 10 + (c.toNat - '0'.toNat)) 0

/-- `3`, `== 3`, `>= 2`, `> 2`, `< 4`, `<= 4`, `% 2`; none when malformed. -/
def parseHitCondition (text : List Char) (bp : LineBreakpoint) : Option LineBreakpoint :=
  let (op, rest) := takeHit (text.dropWhile isSpace)
  let number := rest.dropWhile isSpace
  let digits := number.takeWhile Char.isDigit
  let n := decimalValue digits
  if digits.isEmpty || 15 < digits.length then none
  else if !((number.dropWhile Char.isDigit).dropWhile isSpace).isEmpty then none
  else if op = .mod && n = 0 then none
  else some { bp with hit := op, hitN := n }

/-! ## The registry -/

structure Requested where
  id : Nat
  line : Int
  /-- None: an unconditional breakpoint. -/
  bp : Option LineBreakpoint
  /-- Why it cannot be armed. -/
  invalid : String
  deriving DecidableEq, Repr

/-- What a client is shown of a source. -/
structure Info where
  path : String
  name : String
  content : Option String
  origin : String

structure Source where
  info : Info
  ref : Nat
  hasCode : List Bool := []
  armed : List Bool := []
  special : Nat → Option LineBreakpoint := fun _ => none
  lineCount : Nat := 0

def Source.library (s : Source) : Bool := s.info.content.isSome

def Source.armedAt (s : Source) (line : Int) : Bool :=
  0 < line && line < s.lineCount && s.armed.getD line.toNat false

/-- An answer to the client. -/
structure Breakpoint where
  id : Nat
  line : Int
  verified : Bool
  message : String
  deriving DecidableEq, Repr

structure Registry where
  sources : String → Option Source := fun _ => none
  order : List String := []
  byRef : Nat → Option String := fun _ => none
  nextRef : Nat := 1
  requested : String → Option (List Requested) := fun _ => none
  nextId : Nat := 1

def noCode : String := "no code on or after this line (yet)"

/-- The first line at or after a requested one that has code, or 0. -/
def resolveLine (s : Source) (line : Int) : Nat :=
  if line ≤ 0 then 0
  else ((List.range' line.toNat (s.lineCount - line.toNat)).find? fun l =>
    s.hasCode.getD l false).getD 0

def armOne (s : Source) (r : Requested) : Source × Breakpoint :=
  if r.invalid ≠ "" then (s, ⟨r.id, r.line, false, r.invalid⟩)
  else
    let at_ := resolveLine s r.line
    if 0 < at_ then
      -- Two breakpoints resolved to one line: the first one set wins.
      ({ s with
          special := if s.armed.getD at_ false = false ∧ r.bp.isSome then
            Function.update s.special at_ r.bp else s.special
          armed := s.armed.set at_ true },
        ⟨r.id, at_, true, ""⟩)
    else (s, ⟨r.id, r.line, false, noCode⟩)

def armAll (s : Source) : List Requested → Source × List Breakpoint
  | [] => (s, [])
  | r :: rest =>
      let one := armOne s r
      let more := armAll one.1 rest
      (more.1, one.2 :: more.2)

def arm (s : Source) (req : List Requested) : Source × List Breakpoint :=
  armAll { s with armed := List.replicate s.lineCount false, special := fun _ => none } req

/-- A line breakpoint as the client set it. -/
structure BreakpointSpec where
  line : Int
  condition : String := ""
  hitCondition : String := ""
  logMessage : String := ""
  isLogpoint : Bool := false

def requestOf (id : Nat) (sp : BreakpointSpec) : Requested :=
  let bp : LineBreakpoint :=
    { condition := sp.condition, isLog := sp.isLogpoint, logMessage := sp.logMessage }
  let hit := sp.hitCondition.toList.dropWhile fun c => c = ' ' || c = '\t'
  match if hit.isEmpty then some bp else parseHitCondition hit bp with
  | none => ⟨id, sp.line, none, "invalid hit condition `" ++ sp.hitCondition ++
      "`: write N, == N, >= N, > N, < N, <= N or % N"⟩
  | some bp => ⟨id, sp.line, if bp.plain then none else some bp, ""⟩

def requestsOf (first : Nat) : List BreakpointSpec → List Requested
  | [] => []
  | sp :: specs => requestOf first sp :: requestsOf (first + 1) specs

def setBreakpointsForKey (key : String) (specs : List BreakpointSpec) (reg : Registry) :
    Registry × List Breakpoint :=
  let req := requestsOf reg.nextId specs
  let asked := { reg with
    requested := Function.update reg.requested key (some req)
    nextId := reg.nextId + specs.length }
  match reg.sources key with
  | some s =>
      let armed := arm s req
      ({ asked with sources := Function.update reg.sources key (some armed.1) }, armed.2)
  | none =>
      (asked, req.map fun r =>
        ⟨r.id, r.line, false, if r.invalid = "" then noCode else r.invalid⟩)

/-! ## The lines of a module -/

def opReturn : UInt32 := 20
def opPushUnit : UInt32 := 3

def lineAt (m : Body) (pc : Nat) : Int := (m.words[pc]?.map Prod.snd).getD 0

def opAt (m : Body) (pc : Nat) : UInt32 := (m.words[pc]?.map Prod.fst).getD 0 &&& 0xFF

/-- A function's epilogue: its `RETURN`, or the `()` that a Unit body returns. -/
def isEpilogue (m : Body) (pc : Nat) : Bool :=
  opAt m pc = opReturn ||
    (opAt m pc = opPushUnit && pc + 1 < m.words.length && opAt m (pc + 1) = opReturn &&
      lineAt m (pc + 1) = lineAt m pc)

/-- `resize` to more entries. -/
def widen (lines : List Bool) (count : Nat) : List Bool :=
  lines ++ List.replicate (count - lines.length) false

def markInstr (m : Body) (lines : List Bool) (pc : Nat) : List Bool :=
  let l := lineAt m pc
  if l ≤ 0 || isEpilogue m pc then lines
  else (widen lines (l.toNat + 1)).set l.toNat true

mutual

def markLines : BytecodeModule → List Bool → List Bool
  | .node m blocks, lines =>
      markBlocks blocks ((List.range m.words.length).foldl (markInstr m) lines)

def markBlocks : List BytecodeModule → List Bool → List Bool
  | [], lines => lines
  | block :: blocks, lines => markBlocks blocks (markLines block lines)

end

/-- The source of a file with the lines of one more module, before it is armed. -/
def enteredSource (mod : BytecodeModule) (s : Source) : Source :=
  -- A file compiled twice (a module re-imported): the union of its lines.
  let lines := widen (markLines mod []) s.hasCode.length
  let lines := lines.mapIdx fun l marked => marked || s.hasCode.getD l false
  let s := if s.lineCount < lines.length + 1 then
      { s with
        armed := List.replicate (lines.length + 1) false
        lineCount := lines.length + 1 }
    else s
  { s with hasCode := widen lines s.lineCount }

/-- A new or a known source gets the lines of one more module, and the breakpoints asked for it. -/
def registerSource (mod : BytecodeModule) (key : String) (info : Info) (reg : Registry) :
    Registry × Bool × List Breakpoint :=
  let known := reg.sources key
  let s := enteredSource mod (known.getD { info := info, ref := reg.nextRef })
  let entered := if known.isSome then reg
    else { reg with
      nextRef := reg.nextRef + 1
      byRef := Function.update reg.byRef reg.nextRef (some key)
      order := reg.order ++ [key] }
  match reg.requested key with
  | some req =>
      let armed := arm s req
      ({ entered with sources := Function.update reg.sources key (some armed.1) }, known.isNone,
        armed.2)
  | none =>
      ({ entered with sources := Function.update reg.sources key (some s) }, known.isNone, [])

/-! ## Runs -/

/-- The calls that the client and the session make, each under the registry's lock. -/
inductive Call where
  | setBreakpoints (key : String) (specs : List BreakpointSpec)
  | register (mod : BytecodeModule) (key : String) (info : Info)

def step (reg : Registry) : Call → Registry
  | .setBreakpoints key specs => (setBreakpointsForKey key specs reg).1
  | .register mod key info => (registerSource mod key info reg).1

def run (calls : List Call) : Registry := calls.foldl step {}

/-! ## What the calls say -/

/-- An instruction of the module, outside an epilogue, has the line. -/
def BodyHas (m : Body) (l : Nat) : Prop :=
  0 < l ∧ ∃ pc < m.words.length, lineAt m pc = l ∧ isEpilogue m pc = false

mutual

def ModuleHas : BytecodeModule → Nat → Prop
  | .node m blocks, l => BodyHas m l ∨ BlocksHave blocks l

def BlocksHave : List BytecodeModule → Nat → Prop
  | [], _ => False
  | block :: blocks, l => ModuleHas block l ∨ BlocksHave blocks l

end

/-- The modules that were compiled from a file. -/
def modulesOf (key : String) (calls : List Call) : List BytecodeModule :=
  calls.filterMap fun call =>
    match call with
    | .register mod k _ => if k = key then some mod else none
    | .setBreakpoints _ _ => none

def asked (key : String) (last : List BreakpointSpec) : Call → List BreakpointSpec
  | .setBreakpoints k specs => if k = key then specs else last
  | .register _ _ _ => last

/-- The client's last request for a file. -/
def specsOf (key : String) (calls : List Call) : List BreakpointSpec := calls.foldl (asked key) []

def HasCode (key : String) (calls : List Call) (l : Nat) : Prop :=
  ∃ mod ∈ modulesOf key calls, ModuleHas mod l

/-- The first line with code at or after the requested one. -/
def Resolves (code : Nat → Prop) (line : Int) (at_ : Nat) : Prop :=
  0 < line ∧ line ≤ at_ ∧ code at_ ∧ ∀ l : Nat, line ≤ l → l < at_ → ¬code l

/-- A request is armed on a line. -/
def Binds (code : Nat → Prop) (r : Requested) (l : Nat) : Prop :=
  r.invalid = "" ∧ Resolves code r.line l

/-- The client is told the line of a request that is armed, and of no other. -/
structure Answers (code : Nat → Prop) (r : Requested) (b : Breakpoint) : Prop where
  id : b.id = r.id
  verified : b.verified = true ↔ ∃ l, Binds code r l
  line : ∀ l : Nat, Binds code r l → b.line = l

def Valid (sp : BreakpointSpec) : Prop := (requestOf 0 sp).invalid = ""

/-- The first element of a list that has a property. -/
inductive First {α : Type} (has : α → Prop) : List α → α → Prop
  | here {x rest} : has x → First has (x :: rest) x
  | later {x y rest} : ¬has y → First has rest x → First has (y :: rest) x

/-! ## The lines -/

theorem get_widen (lines : List Bool) (count l : Nat) :
    (widen lines count).getD l false = lines.getD l false := by
  simp only [widen, List.getD_eq_getElem?_getD, List.getElem?_append]
  split
  · rfl
  · next outside =>
      rw [List.getElem?_eq_none (by omega : lines.length ≤ l), List.getElem?_replicate]
      split <;> rfl

theorem widen_length (lines : List Bool) (count : Nat) :
    (widen lines count).length = max lines.length count := by
  simp only [widen, List.length_append, List.length_replicate]
  omega

theorem get_set_true (lines : List Bool) {at_ : Nat} (inside : at_ < lines.length) (l : Nat) :
    (lines.set at_ true).getD l false = true ↔ lines.getD l false = true ∨ l = at_ := by
  simp only [List.getD_eq_getElem?_getD, List.getElem?_set]
  by_cases same : at_ = l
  · simp [same, same ▸ inside]
  · simp [same, Ne.symm same]

theorem mark_instr (m : Body) (lines : List Bool) (pc l : Nat) :
    (markInstr m lines pc).getD l false = true ↔
      lines.getD l false = true ∨ (0 < l ∧ lineAt m pc = l ∧ isEpilogue m pc = false) := by
  unfold markInstr
  by_cases skipped : lineAt m pc ≤ 0 ∨ isEpilogue m pc = true
  · rw [if_pos (by simpa using skipped)]
    refine ⟨.inl, fun marked => marked.resolve_right ?_⟩
    rintro ⟨positive, line, body⟩
    rcases skipped with low | epilogue
    · omega
    · rw [epilogue] at body
      contradiction
  · obtain ⟨positive, body⟩ := not_or.mp skipped
    rw [if_neg (by simpa using skipped)]
    have inside : (lineAt m pc).toNat < (widen lines ((lineAt m pc).toNat + 1)).length := by
      rw [widen_length]
      omega
    rw [get_set_true _ inside, get_widen]
    refine or_congr_right ⟨fun same => ⟨by omega, by omega, by simpa using body⟩, ?_⟩
    rintro ⟨_, line, _⟩
    omega

theorem mark_body (m : Body) (count : Nat) (lines : List Bool) (l : Nat) :
    ((List.range count).foldl (markInstr m) lines).getD l false = true ↔
      lines.getD l false = true ∨
        (0 < l ∧ ∃ pc < count, lineAt m pc = l ∧ isEpilogue m pc = false) := by
  induction count with
  | zero => simp
  | succ count marked =>
      rw [List.range_succ, List.foldl_append, List.foldl_cons, List.foldl_nil, mark_instr, marked]
      constructor
      · rintro ((old | ⟨positive, pc, before, here⟩) | ⟨positive, here⟩)
        · exact .inl old
        · exact .inr ⟨positive, pc, by omega, here⟩
        · exact .inr ⟨positive, count, by omega, here⟩
      · rintro (old | ⟨positive, pc, before, here⟩)
        · exact .inl (.inl old)
        · rcases Nat.lt_succ_iff_lt_or_eq.mp before with before | rfl
          · exact .inl (.inr ⟨positive, pc, before, here⟩)
          · exact .inr ⟨positive, here⟩

mutual

theorem mark_lines : ∀ (mod : BytecodeModule) (lines : List Bool) (l : Nat),
    (markLines mod lines).getD l false = true ↔ lines.getD l false = true ∨ ModuleHas mod l
  | .node m blocks, lines, l => by
      rw [markLines, mark_blocks blocks _ l, mark_body, ModuleHas, BodyHas, or_assoc]

theorem mark_blocks : ∀ (blocks : List BytecodeModule) (lines : List Bool) (l : Nat),
    (markBlocks blocks lines).getD l false = true ↔
      lines.getD l false = true ∨ BlocksHave blocks l
  | [], lines, l => by simp [markBlocks, BlocksHave]
  | block :: blocks, lines, l => by
      rw [markBlocks, mark_blocks blocks _ l, mark_lines block lines l, BlocksHave, or_assoc]

end

/-! ## Arming -/

/-- The tables of a source are of one size. -/
structure Sized (s : Source) : Prop where
  code : s.hasCode.length = s.lineCount
  armed : s.armed.length = s.lineCount

theorem resolve_line {s : Source} (sized : s.hasCode.length = s.lineCount) (code : Nat → Prop)
    (coded : ∀ l, s.hasCode.getD l false = true ↔ code l) (line : Int) (at_ : Nat) :
    (resolveLine s line = at_ ∧ 0 < at_) ↔ Resolves code line at_ := by
  unfold resolveLine Resolves
  by_cases positive : line ≤ 0
  · rw [if_pos positive]
    omega
  · rw [if_neg positive]
    have inside : ∀ l, code l → l < s.lineCount := by
      intro l has
      by_contra outside
      rw [← coded, List.getD_eq_getElem?_getD, List.getElem?_eq_none (by omega)] at has
      contradiction
    cases found : (List.range' line.toNat (s.lineCount - line.toNat)).find? fun l =>
        s.hasCode.getD l false with
    | none =>
        rw [List.find?_range'_eq_none] at found
        simp only [Option.getD_none]
        refine ⟨by omega, fun ⟨_, after, has, _⟩ => ?_⟩
        have none_ := found at_ (by omega) (by have := inside at_ has; omega)
        rw [(coded at_).mpr has] at none_
        contradiction
    | some l =>
        rw [List.find?_range'_eq_some] at found
        obtain ⟨has, member, before⟩ := found
        rw [List.mem_range'_1] at member
        simp only [Option.getD_some]
        constructor
        · rintro ⟨rfl, _⟩
          refine ⟨by omega, by omega, (coded l).mp has, fun k after less hasK => ?_⟩
          have none_ := before k (by omega) less
          rw [(coded k).mpr hasK] at none_
          contradiction
        · rintro ⟨_, after, hasAt, least⟩
          have same : l = at_ := by
            rcases Nat.lt_trichotomy l at_ with less | same | more
            · exact absurd ((coded l).mp has) (least l (by omega) less)
            · exact same
            · have none_ := before at_ (by omega) more
              rw [(coded at_).mpr hasAt] at none_
              contradiction
          exact ⟨same, by omega⟩

/-- What arming one request does to a source. -/
structure OneArmed (code : Nat → Prop) (s : Source) (r : Requested) (s' : Source) : Prop where
  sameCode : s'.hasCode = s.hasCode
  sameCount : s'.lineCount = s.lineCount
  sized : s'.armed.length = s.lineCount
  armed : ∀ l, s'.armed.getD l false = true ↔ s.armed.getD l false = true ∨ Binds code r l
  kept : ∀ l, s.armed.getD l false = true ∨ ¬Binds code r l → s'.special l = s.special l
  taken : ∀ l, s.armed.getD l false = false → s.special l = none → Binds code r l →
    s'.special l = r.bp

theorem not_binds {s : Source} {code : Nat → Prop} {r : Requested}
    (same : ∀ at_, (resolveLine s r.line = at_ ∧ 0 < at_) ↔ Resolves code r.line at_)
    (unbound : r.invalid ≠ "" ∨ ¬0 < resolveLine s r.line) (l : Nat) : ¬Binds code r l := by
  rintro ⟨valid, resolves⟩
  obtain ⟨at_, positive⟩ := (same l).mpr resolves
  rcases unbound with invalid | nowhere
  · exact invalid valid
  · omega

theorem arm_one {s : Source} (sized : Sized s) (code : Nat → Prop)
    (coded : ∀ l, s.hasCode.getD l false = true ↔ code l) (r : Requested) :
    OneArmed code s r (armOne s r).1 ∧ Answers code r (armOne s r).2 := by
  have same := resolve_line sized.code code coded r.line
  have nothing : (∀ l, ¬Binds code r l) → OneArmed code s r s := fun unbound =>
    ⟨rfl, rfl, sized.armed, fun l => by simp [unbound l], fun _ _ => rfl,
      fun l _ _ bound => absurd bound (unbound l)⟩
  unfold armOne
  by_cases invalid : r.invalid = ""
  · rw [if_neg (not_not.mpr invalid)]
    by_cases somewhere : 0 < resolveLine s r.line
    · have bound : ∀ l, Binds code r l ↔ l = resolveLine s r.line := by
        intro l
        rw [Binds, ← same l]
        constructor
        · rintro ⟨_, at_, _⟩
          exact at_.symm
        · rintro rfl
          exact ⟨invalid, rfl, somewhere⟩
      have inside : resolveLine s r.line < s.armed.length := by
        have has := (same _).mp ⟨rfl, somewhere⟩
        have marked := (coded _).mpr has.2.2.1
        by_contra outside
        rw [List.getD_eq_getElem?_getD,
          List.getElem?_eq_none (by have := sized.code; have := sized.armed; omega)] at marked
        contradiction
      rw [if_pos somewhere]
      refine ⟨⟨rfl, rfl, ?_, ?_, ?_, ?_⟩, rfl, ?_, ?_⟩
      · rw [List.length_set, sized.armed]
      · intro l
        rw [get_set_true _ inside, bound]
      · rintro l (before | unbound)
        · dsimp only
          split
          · next fresh =>
              have other : l ≠ resolveLine s r.line := by
                rintro rfl
                rw [fresh.1] at before
                contradiction
              rw [Function.update_of_ne other]
          · rfl
        · rw [bound] at unbound
          dsimp only
          split
          · rw [Function.update_of_ne unbound]
          · rfl
      · intro l fresh clear here
        obtain rfl := (bound l).mp here
        dsimp only
        split
        · rw [Function.update_self]
        · next plain =>
            rw [clear]
            cases special : r.bp with
            | none => rfl
            | some bp => exact absurd ⟨fresh, by rw [special]; rfl⟩ plain
      · exact ⟨fun _ => ⟨_, (bound _).mpr rfl⟩, fun _ => rfl⟩
      · intro l here
        rw [(bound l).mp here]
    · have unbound := not_binds same (.inr somewhere)
      rw [if_neg somewhere]
      exact ⟨nothing unbound, rfl, by simp [unbound], fun l here => absurd here (unbound l)⟩
  · have unbound := not_binds same (.inl invalid)
    rw [if_pos invalid]
    exact ⟨nothing unbound, rfl, by simp [unbound], fun l here => absurd here (unbound l)⟩

/-- What arming requests one after the other does to a source. -/
structure AllArmed (code : Nat → Prop) (s : Source) (req : List Requested) (s' : Source) :
    Prop where
  sameCode : s'.hasCode = s.hasCode
  sameCount : s'.lineCount = s.lineCount
  sized : s'.armed.length = s.lineCount
  armed : ∀ l, s'.armed.getD l false = true ↔
    s.armed.getD l false = true ∨ ∃ r ∈ req, Binds code r l
  kept : ∀ l, s.armed.getD l false = true → s'.special l = s.special l
  quiet : ∀ l, (∀ r ∈ req, ¬Binds code r l) → s'.special l = s.special l
  taken : ∀ l r, s.armed.getD l false = false → s.special l = none →
    First (fun r => Binds code r l) req r → s'.special l = r.bp

theorem arm_all (code : Nat → Prop) (req : List Requested) : ∀ {s : Source}, Sized s →
    (∀ l, s.hasCode.getD l false = true ↔ code l) →
    AllArmed code s req (armAll s req).1 ∧
      List.Forall₂ (Answers code) req (armAll s req).2 := by
  induction req with
  | nil =>
      intro s sized coded
      refine ⟨⟨rfl, rfl, sized.armed, fun l => by simp [armAll], fun _ _ => rfl,
        fun _ _ => rfl, ?_⟩, .nil⟩
      rintro l r _ _ ⟨⟩
  | cons r rest more =>
      intro s sized coded
      obtain ⟨one, answer⟩ := arm_one sized code coded r
      have sized' : Sized (armOne s r).1 :=
        ⟨by rw [one.sameCode, one.sameCount, sized.code], by rw [one.sized, one.sameCount]⟩
      obtain ⟨all, answers⟩ := more sized' (by rw [one.sameCode]; exact coded)
      refine ⟨⟨all.sameCode.trans one.sameCode, all.sameCount.trans one.sameCount,
        all.sized.trans one.sameCount, ?_, ?_, ?_, ?_⟩, .cons answer answers⟩
      · intro l
        rw [armAll, all.armed, one.armed, or_assoc]
        simp only [List.mem_cons, exists_eq_or_imp]
      · intro l before
        rw [armAll, all.kept l ((one.armed l).mpr (.inl before)), one.kept l (.inl before)]
      · intro l unbound
        have others := all.quiet l fun r' member => unbound r' (List.mem_cons_of_mem r member)
        rw [armAll, others, one.kept l (.inr (unbound r List.mem_cons_self))]
      · intro l winner fresh clear first
        rw [armAll]
        cases first with
        | here binds =>
            rw [all.kept l ((one.armed l).mpr (.inr binds)), one.taken l fresh clear binds]
        | later unbound first =>
            refine all.taken l winner ?_ ?_ first
            · have still := (one.armed l).not.mpr
                (not_or.mpr ⟨ne_true_of_eq_false fresh, unbound⟩)
              exact eq_false_of_ne_true still
            · rw [one.kept l (.inr unbound), clear]

/-- A source whose breakpoints are those of a list of requests. -/
structure Armed (code : Nat → Prop) (req : List Requested) (s : Source) : Prop where
  sized : Sized s
  coded : ∀ l, s.hasCode.getD l false = true ↔ code l
  armed : ∀ l, s.armed.getD l false = true ↔ ∃ r ∈ req, Binds code r l
  quiet : ∀ l, (∀ r ∈ req, ¬Binds code r l) → s.special l = none
  special : ∀ l r, First (fun r => Binds code r l) req r → s.special l = r.bp

theorem get_replicate (count l : Nat) : (List.replicate count false).getD l false = false := by
  rw [List.getD_eq_getElem?_getD, List.getElem?_replicate]
  split <;> rfl

theorem arm_armed (code : Nat → Prop) (req : List Requested) {s : Source}
    (sized : s.hasCode.length = s.lineCount)
    (coded : ∀ l, s.hasCode.getD l false = true ↔ code l) :
    Armed code req (arm s req).1 ∧ List.Forall₂ (Answers code) req (arm s req).2 := by
  obtain ⟨all, answers⟩ := arm_all code req
    (s := { s with armed := List.replicate s.lineCount false, special := fun _ => none })
    ⟨sized, List.length_replicate⟩ coded
  refine ⟨⟨⟨?_, ?_⟩, ?_, ?_, all.quiet, ?_⟩, answers⟩
  · rw [arm, all.sameCode, all.sameCount]
    exact sized
  · rw [arm, all.sized, all.sameCount]
  · intro l
    rw [arm, all.sameCode, coded]
  · intro l
    rw [arm, all.armed, get_replicate]
    simp
  · intro l r first
    exact all.taken l r (get_replicate _ l) rfl first

/-! ## Runs of calls -/

theorem request_of (id : Nat) (sp : BreakpointSpec) :
    requestOf id sp = { requestOf 0 sp with id := id } := by
  unfold requestOf
  dsimp only
  split <;> rfl

theorem request_line (sp : BreakpointSpec) : (requestOf 0 sp).line = sp.line := by
  unfold requestOf
  dsimp only
  split <;> rfl

/-- The breakpoint of a client is armed on a line. -/
theorem binds_request (code : Nat → Prop) (id : Nat) (sp : BreakpointSpec) (l : Nat) :
    Binds code (requestOf id sp) l ↔ Valid sp ∧ Resolves code sp.line l := by
  rw [request_of, Binds, request_line, Valid]

/-- A remainder of hits is taken by a number other than 0. -/
theorem parse_hit {text : List Char} {bp bp' : LineBreakpoint}
    (parsed : parseHitCondition text bp = some bp') (remainder : bp'.hit = .mod) :
    bp'.hitN ≠ 0 := by
  unfold parseHitCondition at parsed
  dsimp only at parsed
  split_ifs at parsed with _ _ zero
  rw [Option.some.injEq] at parsed
  subst parsed
  intro none_
  refine zero ?_
  rw [Bool.and_eq_true, decide_eq_true_eq, decide_eq_true_eq]
  exact ⟨remainder, none_⟩

example : parseHitCondition ['>', '=', ' ', '1', '2'] {} = some { hit := .ge, hitN := 12 } := by
  decide

theorem request_hit {id : Nat} {sp : BreakpointSpec} {bp : LineBreakpoint}
    (special : (requestOf id sp).bp = some bp) :
    bp.plain = false ∧ (bp.hit = .mod → bp.hitN ≠ 0) := by
  unfold requestOf at special
  dsimp only at special
  split at special
  · contradiction
  · next bp' parsed =>
      dsimp only at special
      split_ifs at special with plain
      rw [Option.some.injEq] at special
      subst special
      refine ⟨eq_false_of_ne_true plain, fun remainder => ?_⟩
      split_ifs at parsed with blank
      · rw [Option.some.injEq] at parsed
        rw [← parsed] at remainder
        contradiction
      · exact parse_hit parsed remainder

theorem requests_bind (code : Nat → Prop) (specs : List BreakpointSpec) (first l : Nat) :
    (∃ r ∈ requestsOf first specs, Binds code r l) ↔
      ∃ sp ∈ specs, Valid sp ∧ Resolves code sp.line l := by
  induction specs generalizing first with
  | nil => simp [requestsOf]
  | cons sp specs more =>
      simp only [requestsOf, List.mem_cons, exists_eq_or_imp, more, binds_request]

theorem first_request {code : Nat → Prop} {specs : List BreakpointSpec} {sp : BreakpointSpec}
    {l : Nat} (first : Nat)
    (winner : First (fun sp => Valid sp ∧ Resolves code sp.line l) specs sp) :
    ∃ r, First (fun r => Binds code r l) (requestsOf first specs) r ∧
      r.bp = (requestOf 0 sp).bp := by
  induction winner generalizing first with
  | here binds =>
      exact ⟨_, .here ((binds_request code first _ l).mpr binds), by rw [request_of]⟩
  | later unbound _ more =>
      obtain ⟨r, later, same⟩ := more (first + 1)
      exact ⟨r, .later (fun binds => unbound ((binds_request code first _ l).mp binds)) later,
        same⟩

/-- The registry after a list of calls, at one file. -/
structure Follows (key : String) (calls : List Call) (reg : Registry) : Prop where
  asked : ∃ first, (reg.requested key).getD [] = requestsOf first (specsOf key calls)
  known : reg.sources key = none ↔ modulesOf key calls = []
  armed : ∀ s, reg.sources key = some s →
    Armed (HasCode key calls) ((reg.requested key).getD []) s

theorem modules_append (key : String) (calls : List Call) (call : Call) :
    modulesOf key (calls ++ [call]) = modulesOf key calls ++ modulesOf key [call] :=
  List.filterMap_append

theorem specs_append (key : String) (calls : List Call) (call : Call) :
    specsOf key (calls ++ [call]) = asked key (specsOf key calls) call := by
  rw [specsOf, List.foldl_append]
  rfl

/-- The code of a file after a call that registers no module of it. -/
theorem same_code {key : String} {call : Call} (calls : List Call)
    (none_ : modulesOf key [call] = []) :
    modulesOf key (calls ++ [call]) = modulesOf key calls ∧
      HasCode key (calls ++ [call]) = HasCode key calls := by
  have same : modulesOf key (calls ++ [call]) = modulesOf key calls := by
    rw [modules_append, none_, List.append_nil]
  refine ⟨same, ?_⟩
  funext l
  rw [HasCode, HasCode, same]

/-- A call about another file. -/
theorem follows_other {key : String} {calls : List Call} {reg reg' : Registry} {call : Call}
    (follows : Follows key calls reg) (asks : reg'.requested key = reg.requested key)
    (sources : reg'.sources key = reg.sources key)
    (modules : modulesOf key [call] = []) (specs : ∀ last, asked key last call = last) :
    Follows key (calls ++ [call]) reg' := by
  obtain ⟨same, code⟩ := same_code calls modules
  refine ⟨?_, ?_, ?_⟩
  · rw [asks, specs_append, specs]
    exact follows.asked
  · rw [sources, same]
    exact follows.known
  · rw [asks, sources, code]
    exact follows.armed

theorem set_requested (key : String) (specs : List BreakpointSpec) (reg : Registry) :
    (setBreakpointsForKey key specs reg).1.requested =
      Function.update reg.requested key (some (requestsOf reg.nextId specs)) := by
  unfold setBreakpointsForKey
  dsimp only
  split <;> rfl

theorem set_sources (key : String) (specs : List BreakpointSpec) (reg : Registry) :
    (setBreakpointsForKey key specs reg).1.sources =
      Function.update reg.sources key
        ((reg.sources key).map fun s => (arm s (requestsOf reg.nextId specs)).1) := by
  unfold setBreakpointsForKey
  dsimp only
  split
  · next s source => rw [source, Option.map_some]
  · next source =>
      rw [source, Option.map_none]
      exact (Function.update_eq_self_iff.mpr source.symm).symm

theorem follows_set {key : String} {calls : List Call} {reg : Registry}
    (follows : Follows key calls reg) (k : String) (specs : List BreakpointSpec) :
    Follows key (calls ++ [Call.setBreakpoints k specs]) (setBreakpointsForKey k specs reg).1 := by
  have modules : modulesOf key [.setBreakpoints k specs] = [] := rfl
  by_cases other : k = key
  · subst other
    obtain ⟨same, code⟩ := same_code calls modules
    refine ⟨⟨reg.nextId, ?_⟩, ?_, ?_⟩
    · rw [set_requested, Function.update_self, specs_append, asked, if_pos rfl]
      rfl
    · rw [same, ← follows.known, set_sources, Function.update_self, Option.map_eq_none_iff]
    · intro s' found
      rw [set_sources, Function.update_self, Option.map_eq_some_iff] at found
      obtain ⟨s, source, rfl⟩ := found
      have before := follows.armed s source
      rw [code, set_requested, Function.update_self]
      exact (arm_armed _ _ before.sized.code before.coded).1
  · refine follows_other follows ?_ ?_ modules fun last => by rw [asked, if_neg other]
    · rw [set_requested, Function.update_of_ne (Ne.symm other)]
    · rw [set_sources, Function.update_of_ne (Ne.symm other)]

theorem get_union (lines old : List Bool) (l : Nat) :
    ((widen lines old.length).mapIdx fun l marked => marked || old.getD l false).getD l false =
      (lines.getD l false || old.getD l false) := by
  rw [← get_widen lines old.length l]
  simp only [List.getD_eq_getElem?_getD, List.getElem?_mapIdx]
  cases inside : (widen lines old.length)[l]? with
  | some marked => rfl
  | none =>
      rw [List.getElem?_eq_none_iff, widen_length] at inside
      rw [List.getElem?_eq_none (by omega : old.length ≤ l)]
      rfl

/-- The code of a source after one more module of its file was compiled. -/
theorem has_code_register (key : String) (calls : List Call) (mod : BytecodeModule) (info : Info)
    (l : Nat) :
    HasCode key (calls ++ [Call.register mod key info]) l ↔
      ModuleHas mod l ∨ HasCode key calls l := by
  have one : modulesOf key [.register mod key info] = [mod] := by
    simp [modulesOf]
  rw [HasCode, HasCode, modules_append, one, or_comm]
  simp only [List.mem_append, List.mem_singleton, or_and_right, exists_or, exists_eq_left]

theorem entered_source (mod : BytecodeModule) {s : Source}
    (sized : s.hasCode.length = s.lineCount) :
    (enteredSource mod s).hasCode.length = (enteredSource mod s).lineCount ∧
      (enteredSource mod s).special = s.special ∧
      (enteredSource mod s).armed = List.replicate (enteredSource mod s).lineCount false ∧
      ∀ l, (enteredSource mod s).hasCode.getD l false = true ↔
        ModuleHas mod l ∨ s.hasCode.getD l false = true := by
  have wide : s.hasCode.length ≤ (widen (markLines mod []) s.hasCode.length).length := by
    rw [widen_length]
    omega
  unfold enteredSource
  dsimp only
  rw [List.length_mapIdx, if_pos (by omega)]
  refine ⟨?_, rfl, rfl, fun l => ?_⟩
  · rw [widen_length, List.length_mapIdx]
    dsimp only
    omega
  · rw [get_widen, get_union, Bool.or_eq_true, mark_lines]
    simp

theorem register_requested (mod : BytecodeModule) (key : String) (info : Info) (reg : Registry) :
    (registerSource mod key info reg).1.requested = reg.requested := by
  unfold registerSource
  dsimp only
  split <;> dsimp only <;> split <;> rfl

/-- The source that `registerSource` leaves of a file. -/
theorem register_sources (mod : BytecodeModule) (key : String) (info : Info) (reg : Registry) :
    ∃ s', (registerSource mod key info reg).1.sources = Function.update reg.sources key (some s') ∧
      (∀ req, reg.requested key = some req → s' = (arm (enteredSource mod
        ((reg.sources key).getD { info := info, ref := reg.nextRef })) req).1) ∧
      (reg.requested key = none → s' = enteredSource mod
        ((reg.sources key).getD { info := info, ref := reg.nextRef })) := by
  unfold registerSource
  cases asks : reg.requested key with
  | some req => exact ⟨_, rfl, fun _ same => by rw [Option.some.inj same], fun none_ => by
      contradiction⟩
  | none => exact ⟨_, rfl, fun _ some_ => by contradiction, fun _ => rfl⟩

theorem follows_register {key : String} {calls : List Call} {reg : Registry}
    (follows : Follows key calls reg) (mod : BytecodeModule) (k : String) (info : Info) :
    Follows key (calls ++ [Call.register mod k info]) (registerSource mod k info reg).1 := by
  obtain ⟨s', sources, requested, unasked⟩ := register_sources mod k info reg
  have asks := register_requested mod k info reg
  by_cases other : k = key
  · subst other
    have specs : specsOf k (calls ++ [Call.register mod k info]) = specsOf k calls :=
      specs_append _ _ _
    have modules : modulesOf k [.register mod k info] = [mod] := by
      simp [modulesOf]
    -- The lines of the source before this call.
    have before : ∀ s, (reg.sources k).getD { info := info, ref := reg.nextRef } = s →
        s.hasCode.length = s.lineCount ∧
          ∀ l, s.hasCode.getD l false = true ↔ HasCode k calls l := by
      rintro _ rfl
      cases source : reg.sources k with
      | some s => exact ⟨(follows.armed s source).sized.code, (follows.armed s source).coded⟩
      | none =>
          refine ⟨rfl, fun l => ?_⟩
          rw [HasCode, follows.known.mp source]
          simp
    obtain ⟨sized, coded⟩ := before _ rfl
    obtain ⟨size, same, clear, codes⟩ := entered_source mod sized
    have code : ∀ l, (enteredSource mod ((reg.sources k).getD
          { info := info, ref := reg.nextRef })).hasCode.getD l false = true ↔
        HasCode k (calls ++ [Call.register mod k info]) l := by
      intro l
      rw [codes, coded, has_code_register]
    refine ⟨?_, ?_, ?_⟩
    · rw [asks, specs]
      exact follows.asked
    · rw [sources, Function.update_self, modules_append, modules]
      simp
    · intro s found
      rw [sources, Function.update_self, Option.some.injEq] at found
      rw [← found, asks]
      cases req : reg.requested k with
      | some req' =>
          rw [requested req' req]
          exact (arm_armed _ _ size code).1
      | none =>
          rw [unasked req]
          refine ⟨⟨size, ?_⟩, code, fun l => ?_, fun l _ => ?_, ?_⟩
          · rw [clear, List.length_replicate]
          · rw [clear, get_replicate]
            simp
          · -- Without a request for its file, a source was never armed.
            rw [same]
            cases source : reg.sources k with
            | none => rfl
            | some s =>
                have quiet := (follows.armed s source).quiet l
                rw [req] at quiet
                exact quiet (by simp)
          · rintro l r ⟨⟩
  · refine follows_other follows (by rw [asks]) ?_ ?_ fun _ => rfl
    · rw [sources, Function.update_of_ne (Ne.symm other)]
    · simp [modulesOf, other]

theorem run_follows (key : String) (calls : List Call) : Follows key calls (run calls) := by
  induction calls using List.reverseRecOn with
  | nil =>
      refine ⟨⟨1, rfl⟩, ⟨fun _ => rfl, fun _ => rfl⟩, ?_⟩
      intro s found
      contradiction
  | append_singleton calls call follows =>
      have last : run (calls ++ [call]) = step (run calls) call := by
        rw [run, List.foldl_append]
        rfl
      rw [last]
      cases call with
      | setBreakpoints k specs => exact follows_set follows k specs
      | register mod k info => exact follows_register follows mod k info

/-- What a client is answered when it asks for breakpoints. -/
theorem set_answers {key : String} {calls : List Call} {reg : Registry}
    (follows : Follows key calls reg) (specs : List BreakpointSpec) :
    List.Forall₂ (Answers (HasCode key calls)) (requestsOf reg.nextId specs)
      (setBreakpointsForKey key specs reg).2 := by
  unfold setBreakpointsForKey
  dsimp only
  split
  · next s source =>
      have before := follows.armed s source
      exact (arm_armed _ _ before.sized.code before.coded).2
  · next source =>
      have nowhere : ∀ r l, ¬Binds (HasCode key calls) r l := by
        rintro r l ⟨_, _, _, ⟨mod, registered, _⟩, _⟩
        rw [follows.known.mp source] at registered
        contradiction
      refine List.forall₂_map_right_iff.mpr (List.forall₂_same.mpr fun r _ => ⟨rfl, ?_, ?_⟩)
      · simp [nowhere]
      · exact fun l bound => absurd bound (nowhere r l)

/-- Either a first element of a list has a property, or none has. -/
theorem first_or_none {α : Type} (has : α → Prop) (list : List α) :
    (∃ x, First has list x) ∨ ∀ x ∈ list, ¬has x := by
  induction list with
  | nil => exact .inr (by simp)
  | cons x rest more =>
      by_cases here : has x
      · exact .inl ⟨x, .here here⟩
      · rcases more with ⟨y, later⟩ | none_
        · exact .inl ⟨y, .later here later⟩
        · refine .inr fun y member => ?_
          rcases List.mem_cons.mp member with rfl | member
          · exact here
          · exact none_ y member

/-- The condition of a line is that of the first request for it. -/
theorem special_first {code : Nat → Prop} {specs : List BreakpointSpec} {first : Nat} {s : Source}
    (armed : Armed code (requestsOf first specs) s) {l : Nat} {sp : BreakpointSpec}
    (winner : First (fun sp => Valid sp ∧ Resolves code sp.line l) specs sp) :
    s.special l = (requestOf 0 sp).bp := by
  obtain ⟨r, leads, same⟩ := first_request first winner
  rw [armed.special l r leads, same]

theorem special_request {code : Nat → Prop} {specs : List BreakpointSpec} {first : Nat}
    {s : Source} (armed : Armed code (requestsOf first specs) s) {l : Nat} {bp : LineBreakpoint}
    (special : s.special l = some bp) :
    ∃ sp, First (fun sp => Valid sp ∧ Resolves code sp.line l) specs sp ∧
      (requestOf 0 sp).bp = some bp := by
  rcases first_or_none (fun sp => Valid sp ∧ Resolves code sp.line l) specs with
    ⟨sp, winner⟩ | none_
  · exact ⟨sp, winner, (special_first armed winner).symm.trans special⟩
  · have unbound : ∀ r ∈ requestsOf first specs, ¬Binds code r l := by
      intro r member bound
      obtain ⟨sp, spec, binds⟩ := (requests_bind _ _ first l).mp ⟨r, member, bound⟩
      exact none_ sp spec binds
    rw [armed.quiet l unbound] at special
    contradiction

theorem armed_at {code : Nat → Prop} {specs : List BreakpointSpec} {first : Nat} {s : Source}
    (armed : Armed code (requestsOf first specs) s) (l : Nat) :
    s.armedAt l = true ↔ ∃ sp ∈ specs, Valid sp ∧ Resolves code sp.line l := by
  rw [← requests_bind _ _ first, ← armed.armed, Source.armedAt]
  constructor
  · intro set
    exact (Bool.and_eq_true _ _ ▸ set).2
  · intro set
    obtain ⟨r, _, _, positive, after, _⟩ := (armed.armed l).mp set
    have inside : l < s.armed.length := by
      by_contra outside
      rw [List.getD_eq_getElem?_getD, List.getElem?_eq_none (by omega)] at set
      contradiction
    rw [armed.sized.armed] at inside
    simp only [Int.toNat_natCast, set, Bool.and_true, Bool.and_eq_true, decide_eq_true_eq]
    omega

theorem first_mem {α : Type} {has : α → Prop} {list : List α} {x : α} (first : First has list x) :
    x ∈ list ∧ has x := by
  induction first with
  | here holds => exact ⟨List.mem_cons_self, holds⟩
  | later _ _ more => exact ⟨List.mem_cons_of_mem _ more.1, more.2⟩

/-- Whatever the order in which a client sets breakpoints and files are compiled: a source has
the lines of all the modules of its file, the breakpoints of the client's last request for the
file stand on the first lines with code at or after those requested, the first request for a
line decides, and the client is answered the lines where its breakpoints stand. -/
theorem breakpoints_follow (calls : List Call) (key : String) :
    ((run calls).sources key = none ↔ modulesOf key calls = []) ∧
    (∀ s, (run calls).sources key = some s →
      (∀ l, s.hasCode.getD l false = true ↔ HasCode key calls l) ∧
      (∀ l : Nat, s.armedAt l = true ↔
        ∃ sp ∈ specsOf key calls, Valid sp ∧ Resolves (HasCode key calls) sp.line l) ∧
      (∀ (l : Nat) sp,
        First (fun sp => Valid sp ∧ Resolves (HasCode key calls) sp.line l) (specsOf key calls) sp →
          s.special l = (requestOf 0 sp).bp) ∧
      ∀ (l : Nat) bp, s.special l = some bp → s.armedAt l = true) ∧
    ∀ specs, List.Forall₂ (Answers (HasCode key calls)) (requestsOf (run calls).nextId specs)
      (setBreakpointsForKey key specs (run calls)).2 := by
  have follows := run_follows key calls
  refine ⟨follows.known, fun s source => ?_, set_answers follows⟩
  obtain ⟨first, asks⟩ := follows.asked
  have armed := follows.armed s source
  rw [asks] at armed
  refine ⟨armed.coded, armed_at armed, fun l sp => special_first armed, fun l bp special => ?_⟩
  obtain ⟨sp, winner, _⟩ := special_request armed special
  exact (armed_at armed l).mpr ⟨sp, first_mem winner⟩

/-- The hits of a breakpoint are never divided by 0, whatever was called before. -/
theorem special_hit {calls : List Call} {key : String} {s : Source} {l : Nat}
    {bp : LineBreakpoint} (source : (run calls).sources key = some s)
    (special : s.special l = some bp) : bp.plain = false ∧ (bp.hit = .mod → bp.hitN ≠ 0) := by
  have follows := run_follows key calls
  have armed := follows.armed s source
  obtain ⟨first, asks⟩ := follows.asked
  rw [asks] at armed
  obtain ⟨sp, _, request⟩ := special_request armed special
  exact request_hit request

end ProtoScala.Debugger.Breakpoints
