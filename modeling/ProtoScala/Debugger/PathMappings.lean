import Mathlib.Data.List.Basic
import Mathlib.Data.List.Induction
import Mathlib.Data.List.Pairwise

/-!
# The path mappings of the debug adapter

A mapping pairs a root on the client's side with one on the adapter's. A path goes to the
other side by the longest root it stands under.
-/

namespace ProtoScala.Debugger.PathMappings

set_option autoImplicit false

abbrev Path := List UInt8

def slash : UInt8 := 47
def backslash : UInt8 := 92
def colon : UInt8 := 58

structure PathMapping where
  «local» : Path
  remote : Path
  localWindows : Bool
  remoteWindows : Bool
  deriving DecidableEq, Repr

def isAlpha (c : UInt8) : Bool := (65 ≤ c && c ≤ 90) || (97 ≤ c && c ≤ 122)

def looksWindows (p : Path) : Bool :=
  match p with
  | c :: d :: _ => (isAlpha c && d == colon) || (c == backslash && d == backslash)
  | _ => false

def forwardSlashes (p : Path) : Path := p.map fun c => if c = backslash then slash else c

def lowerByte (c : UInt8) : UInt8 := if 65 ≤ c ∧ c ≤ 90 then c + 32 else c

def lowerAscii (s : Path) : Path := s.map lowerByte

/-- The loop of `trimRoot`. -/
def popSeparators (p : Path) : Path :=
  if 1 < p.length ∧ p.getLast? = some slash ∧ ¬(p.length = 3 ∧ p[1]? = some colon) then
    popSeparators p.dropLast
  else p
termination_by p.length
decreasing_by
  rw [List.length_dropLast]
  omega

def trimRoot (p : Path) : Path := popSeparators (forwardSlashes p)

/-- The rest of `path` under `root`: it starts with a separator or is empty. -/
def under (root : Path) (windows : Bool) (path : Path) : Option Path :=
  let p := forwardSlashes path
  let a := if windows then lowerAscii p else p
  let r := if windows then lowerAscii root else root
  if a.length < r.length ∨ a.take r.length ≠ r then none
  else if a.length = r.length then some []
  else if r.getLast? = some slash ∨ a[r.length]? = some slash then some (p.drop r.length)
  else none

def joinRoot (root : Path) (windows : Bool) (rest : Path) : Path :=
  let out := root ++ rest
  if windows then out.map fun c => if c = slash then backslash else c else out

/-- A pair that `handleLaunch` accepts. -/
structure Roots where
  localRoot : Path
  remoteRoot : Path
  local_ne : localRoot ≠ []
  remote_ne : remoteRoot ≠ []

def Roots.mapping (pair : Roots) : PathMapping :=
  ⟨trimRoot pair.localRoot, trimRoot pair.remoteRoot, looksWindows pair.localRoot,
    looksWindows pair.remoteRoot⟩

/-- A root, and whether it looks like a Windows path. -/
structure Side where
  root : Path
  windows : Bool
  deriving DecidableEq, Repr

def localSide (m : PathMapping) : Side := ⟨m.local, m.localWindows⟩
def remoteSide (m : PathMapping) : Side := ⟨m.remote, m.remoteWindows⟩

/-- One turn of the loop over the mappings, with the best so far and its rest. -/
def better (side : PathMapping → Side) (path : Path) (best : Option (PathMapping × Path))
    (m : PathMapping) : Option (PathMapping × Path) :=
  match under (side m).root (side m).windows path, best with
  | none, best => best
  | some rest, none => some (m, rest)
  | some rest, some best =>
      if (side best.1).root.length < (side m).root.length then some (m, rest) else some best

def bestOf (side : PathMapping → Side) (mappings : List PathMapping) (path : Path) :
    Option (PathMapping × Path) :=
  mappings.foldl (better side path) none

def toAdapter (mappings : List PathMapping) (clientPath : Path) : Path :=
  if clientPath = [] ∨ mappings = [] then clientPath
  else
    match bestOf localSide mappings clientPath with
    | some (best, rest) => joinRoot best.remote best.remoteWindows rest
    | none => clientPath

def toClient (mappings : List PathMapping) (adapterPath : Path) : Option Path :=
  match bestOf remoteSide mappings adapterPath with
  | none => none
  | some (best, rest) => some (joinRoot best.local best.localWindows rest)

/-! ## What the mappings are for -/

/-- Equal, or equal but for the case of letters. -/
def Alike (windows : Bool) (a b : Path) : Prop :=
  if windows then lowerAscii a = lowerAscii b else a = b

instance (windows : Bool) (a b : Path) : Decidable (Alike windows a b) :=
  inferInstanceAs (Decidable (ite _ _ _))

def endsInSlash (root : Path) : Prop := root.getLast? = some slash

instance (root : Path) : Decidable (endsInSlash root) := inferInstanceAs (Decidable (_ = _))

/-- A root without the separator that a file-system root ends in. -/
def stem (root : Path) : Path := if endsInSlash root then root.dropLast else root

/-- The root is a prefix of the path by whole components. -/
def Under (side : Side) (p : Path) : Prop :=
  Alike side.windows side.root p ∨
    ∃ front rest, p = front ++ slash :: rest ∧ Alike side.windows (stem side.root) front

/-- With the separators of a side. -/
def styled (windows : Bool) (p : Path) : Path :=
  if windows then p.map fun c => if c = slash then backslash else c else p

/-- The path with one root in the place of another: the other root alone, or the other root,
one separator and the rest. -/
def Moved (one other : Side) (p result : Path) : Prop :=
  (Alike one.windows one.root p ∧ result = styled other.windows other.root) ∨
    ¬Alike one.windows one.root p ∧ ∃ front rest, p = front ++ slash :: rest ∧
      Alike one.windows (stem one.root) front ∧
        result = styled other.windows (stem other.root ++ slash :: rest)

/-- The mapping with the longest root over a path, the first of them where several are. -/
def Longest (side : PathMapping → Side) (mappings : List PathMapping) (p : Path)
    (m : PathMapping) : Prop :=
  Under (side m) p ∧ ∃ before after, mappings = before ++ m :: after ∧
    (∀ other ∈ before, Under (side other) p → (side other).root.length < (side m).root.length) ∧
      ∀ other ∈ after, Under (side other) p → (side other).root.length ≤ (side m).root.length

/-- The mapping that a path is translated by, or none. -/
def Translated (side other : PathMapping → Side) (mappings : List PathMapping) (p : Path) :
    Option Path → Prop
  | some result => ∃ m, Longest side mappings p m ∧ Moved (side m) (other m) p result
  | none => ∀ m ∈ mappings, ¬Under (side m) p

/-- One root lies under the other, letters compared as the laxer of the two compares them. -/
def Nested (a b : Side) : Prop :=
  Under ⟨a.root, a.windows || b.windows⟩ b.root ∨ Under ⟨b.root, a.windows || b.windows⟩ a.root

/-- The same path but for the style of separators and the case of a Windows root. -/
def SamePath (side : Side) (p q : Path) : Prop :=
  ∃ front rest, forwardSlashes p = front ++ rest ∧ Alike side.windows side.root front ∧
    forwardSlashes q = side.root ++ rest

/-! ## One root -/

def foldByte (windows : Bool) (c : UInt8) : UInt8 := if windows then lowerByte c else c

theorem fold_plain : foldByte false = id := rfl

theorem fold_slash (windows : Bool) (c : UInt8) : foldByte windows c = slash ↔ c = slash := by
  have all : ∀ n : Fin 256, lowerByte (.ofFin n) = slash ↔ UInt8.ofFin n = slash := by
    decide +kernel
  cases windows with
  | false => exact Iff.rfl
  | true => exact all c.toFin

theorem alike_iff (windows : Bool) (a b : Path) :
    Alike windows a b ↔ a.map (foldByte windows) = b.map (foldByte windows) := by
  cases windows with
  | false => rw [fold_plain, List.map_id, List.map_id, Alike, if_neg Bool.false_ne_true]
  | true => exact Iff.rfl

theorem alike_length {windows : Bool} {a b : Path} (same : Alike windows a b) :
    a.length = b.length := by
  have lengths := congrArg List.length ((alike_iff windows a b).mp same)
  rwa [List.length_map, List.length_map] at lengths

theorem alike_append {windows : Bool} {a b c d : Path} (lengths : a.length = c.length) :
    Alike windows (a ++ b) (c ++ d) ↔ Alike windows a c ∧ Alike windows b d := by
  rw [alike_iff, alike_iff, alike_iff, List.map_append, List.map_append]
  constructor
  · intro same
    exact List.append_inj same (by simp [lengths])
  · rintro ⟨first, second⟩
    rw [first, second]

theorem alike_slash {windows : Bool} {c d : UInt8} (same : Alike windows [c] [d]) :
    c = slash ↔ d = slash := by
  have bytes := (alike_iff windows _ _).mp same
  rw [List.map_singleton, List.map_singleton, List.singleton_inj] at bytes
  rw [← fold_slash windows c, bytes, fold_slash]

theorem fold_eq (windows : Bool) (p : Path) :
    (if windows then lowerAscii p else p) = p.map (foldByte windows) := by
  cases windows with
  | false => rw [fold_plain, List.map_id, if_neg Bool.false_ne_true]
  | true => rfl

theorem ends_fold (windows : Bool) (root : Path) :
    (root.map (foldByte windows)).getLast? = some slash ↔ endsInSlash root := by
  rw [endsInSlash, List.getLast?_map]
  cases root.getLast? with
  | none => simp
  | some c => simp [fold_slash]

theorem stem_slash {root : Path} (ends : endsInSlash root) : stem root ++ [slash] = root := by
  rw [stem, if_pos ends]
  exact List.dropLast_append_getLast? slash ends

theorem stem_plain {root : Path} (plain : ¬endsInSlash root) : stem root = root := if_neg plain

/-- What stands under a root: the rest is empty or set off by a separator. -/
def SetOff (root rest : Path) : Prop :=
  rest = [] ∨ endsInSlash root ∨ ∃ later, rest = slash :: later

theorem set_off_next {root rest : Path} (setOff : SetOff root rest) (more : rest ≠ []) :
    endsInSlash root ∨ rest.head? = some slash := by
  rcases setOff with empty | ends | ⟨later, rfl⟩
  · exact absurd empty more
  · exact .inl ends
  · exact .inr rfl

theorem under_some {root path rest : Path} {windows : Bool} :
    under root windows path = some rest ↔
      ∃ front, forwardSlashes path = front ++ rest ∧ Alike windows root front ∧
        SetOff root rest := by
  unfold under
  simp only [fold_eq, List.length_map, ← List.map_take, ends_fold]
  generalize forwardSlashes path = p
  constructor
  · intro found
    split_ifs at found with other whole setOff
    · obtain rfl : rest = [] := (Option.some.inj found).symm
      rw [not_or, not_not, ← whole, List.take_length] at other
      exact ⟨p, (List.append_nil p).symm, (alike_iff _ _ _).mpr other.2.symm, .inl rfl⟩
    · obtain rfl := Option.some.inj found
      rw [not_or, not_not] at other
      refine ⟨p.take root.length, (List.take_append_drop _ p).symm,
        (alike_iff _ _ _).mpr other.2.symm, .inr (setOff.imp_right fun next => ?_)⟩
      obtain ⟨c, at_, isSlash⟩ := List.getElem?_map .. ▸ next |> Option.map_eq_some_iff.mp
      rw [fold_slash] at isSlash
      obtain ⟨below, rfl⟩ := List.getElem?_eq_some_iff.mp at_
      exact ⟨_, by rw [List.drop_eq_getElem_cons below, isSlash]⟩
  · rintro ⟨front, rfl, same, setOff⟩
    have lengths := alike_length same
    have folded := (alike_iff _ _ _).mp same
    have prefixed : ¬((front ++ rest).length < root.length ∨
        ((front ++ rest).take root.length).map (foldByte windows) ≠
          root.map (foldByte windows)) := by
      rw [lengths, List.take_left' rfl, folded, List.length_append]
      simp
    rw [if_neg prefixed, lengths]
    by_cases empty : rest = []
    · rw [empty, List.append_nil, if_pos rfl]
    · have more : (front ++ rest).length ≠ front.length := by
        have positive := List.length_pos_of_ne_nil empty
        rw [List.length_append]
        omega
      have next := set_off_next setOff empty
      rw [if_neg more, List.drop_left' rfl, if_pos]
      refine next.imp_right fun head => ?_
      rw [List.getElem?_map, List.getElem?_append_right (Nat.le_refl _), Nat.sub_self,
        ← List.head?_eq_getElem?, head, Option.map_some, (fold_slash windows slash).mpr rfl]

/-- The rest without the separator that sets it off. -/
def restAfter (root rest : Path) : Path := if endsInSlash root then rest else rest.tail

/-- A path below a root, cut at the separator behind the root. -/
theorem below_cut {windows : Bool} {root front rest : Path} (same : Alike windows root front)
    (setOff : SetOff root rest) (more : rest ≠ []) :
    ∃ start, front ++ rest = start ++ slash :: restAfter root rest ∧
      Alike windows (stem root) start := by
  rw [restAfter]
  by_cases ends : endsInSlash root
  · have lengths := alike_length same
    rw [← stem_slash ends, List.length_append, List.length_singleton] at lengths
    rcases List.eq_nil_or_concat front with rfl | ⟨start, c, rfl⟩
    · exact absurd lengths (Nat.succ_ne_zero _)
    · rw [List.concat_eq_append] at same lengths ⊢
      rw [List.length_append, List.length_singleton, Nat.add_right_cancel_iff] at lengths
      rw [← stem_slash ends, alike_append lengths] at same
      rw [if_pos ends, (alike_slash same.2).mp rfl]
      exact ⟨start, by simp, same.1⟩
  · obtain ⟨later, rfl⟩ := (setOff.resolve_left more).resolve_left ends
    rw [if_neg ends, stem_plain ends, List.tail_cons]
    exact ⟨front, rfl, same⟩

/-- A rest that is found is the whole of what moves to the other side. -/
theorem moved_iff {one other : Side} {path rest result : Path}
    (found : under one.root one.windows path = some rest) :
    Moved one other (forwardSlashes path) result ↔
      result = styled other.windows
        (if rest = [] then other.root else stem other.root ++ slash :: restAfter one.root rest) := by
  obtain ⟨front, shape, same, setOff⟩ := under_some.mp found
  rw [shape]
  by_cases empty : rest = []
  · rw [if_pos empty, empty, List.append_nil]
    exact ⟨fun moved => moved.elim And.right fun other => absurd same other.1,
      fun eq => .inl ⟨same, eq⟩⟩
  · have different : ¬Alike one.windows one.root (front ++ rest) := by
      intro whole
      have lengths := alike_length whole
      have positive := List.length_pos_of_ne_nil empty
      rw [List.length_append, ← alike_length same] at lengths
      omega
    obtain ⟨start, cut, stemmed⟩ := below_cut same setOff empty
    rw [if_neg empty]
    constructor
    · rintro (⟨whole, _⟩ | ⟨_, front', rest', cut', same', eq⟩)
      · exact absurd whole different
      · rw [cut] at cut'
        have parts := List.append_inj cut' ((alike_length stemmed).symm.trans (alike_length same'))
        rw [eq, (List.cons.inj parts.2).2]
    · intro eq
      exact .inr ⟨different, start, _, cut, stemmed, eq⟩

theorem styled_length (windows : Bool) (p : Path) : (styled windows p).length = p.length := by
  unfold styled
  split_ifs <;> simp

/-- Where a rest is left, the two sides join it alike exactly where both roots end in a
separator or neither does. -/
theorem joined_right {one other : Side} {rest : Path} (setOff : SetOff one.root rest)
    (more : rest ≠ []) :
    joinRoot other.root other.windows rest =
        styled other.windows (stem other.root ++ slash :: restAfter one.root rest) ↔
      (endsInSlash one.root ↔ endsInSlash other.root) := by
  have join : joinRoot other.root other.windows rest = styled other.windows (other.root ++ rest) :=
    rfl
  have unequal : ∀ {a b : Path}, a.length ≠ b.length →
      styled other.windows a ≠ styled other.windows b := by
    intro a b lengths same
    have equal := congrArg List.length same
    rw [styled_length, styled_length] at equal
    exact lengths equal
  rw [join, restAfter]
  by_cases ends : endsInSlash one.root <;> by_cases ends' : endsInSlash other.root
  · rw [if_pos ends, List.append_cons, stem_slash ends']
    exact iff_of_true rfl (iff_of_true ends ends')
  · rw [if_pos ends, stem_plain ends']
    exact iff_of_false (unequal (by simp)) fun both => ends' (both.mp ends)
  · obtain ⟨later, rfl⟩ := (setOff.resolve_left more).resolve_left ends
    have longer : other.root.length = (stem other.root).length + 1 := by
      rw [← congrArg List.length (stem_slash ends'), List.length_append, List.length_singleton]
    rw [if_neg ends, List.tail_cons]
    exact iff_of_false (unequal (by simp [longer])) fun both => ends (both.mpr ends')
  · obtain ⟨later, rfl⟩ := (setOff.resolve_left more).resolve_left ends
    rw [if_neg ends, stem_plain ends']
    exact iff_of_true rfl (iff_of_false ends ends')

/-- A path under a root, cut as the code cuts it. -/
theorem under_parts (side : Side) (p : Path) :
    Under side p ↔ ∃ front rest, p = front ++ rest ∧ Alike side.windows side.root front ∧
      SetOff side.root rest := by
  constructor
  · rintro (whole | ⟨front, rest, rfl, same⟩)
    · exact ⟨p, [], (List.append_nil p).symm, whole, .inl rfl⟩
    · by_cases ends : endsInSlash side.root
      · refine ⟨front ++ [slash], rest, List.append_cons .., ?_, .inr (.inl ends)⟩
        rw [← stem_slash ends]
        exact (alike_append (alike_length same)).mpr ⟨same, (alike_iff _ _ _).mpr rfl⟩
      · rw [stem_plain ends] at same
        exact ⟨front, slash :: rest, rfl, same, .inr (.inr ⟨rest, rfl⟩)⟩
  · rintro ⟨front, rest, rfl, same, setOff⟩
    by_cases empty : rest = []
    · rw [empty, List.append_nil]
      exact .inl same
    · obtain ⟨start, cut, stemmed⟩ := below_cut same setOff empty
      exact .inr ⟨start, _, cut, stemmed⟩

/-- A path stands under a root exactly where the code finds a rest. -/
theorem under_iff (side : Side) (path : Path) :
    Under side (forwardSlashes path) ↔
      ∃ rest, under side.root side.windows path = some rest := by
  rw [under_parts, exists_comm]
  exact exists_congr fun rest => under_some.symm

/-! ## The longest root -/

theorem longest_last {side : PathMapping → Side} {mappings : List PathMapping} {p : Path}
    {last : PathMapping} (reached : Under (side last) p)
    (shorter : ∀ m ∈ mappings, Under (side m) p →
      (side m).root.length < (side last).root.length) :
    Longest side (mappings ++ [last]) p last :=
  ⟨reached, mappings, [], rfl, shorter, fun _ impossible => nomatch impossible⟩

theorem longest_before {side : PathMapping → Side} {mappings : List PathMapping} {p : Path}
    {m last : PathMapping} (longest : Longest side mappings p m)
    (shorter : Under (side last) p → (side last).root.length ≤ (side m).root.length) :
    Longest side (mappings ++ [last]) p m := by
  obtain ⟨reached, before, after, rfl, earlier, later⟩ := longest
  refine ⟨reached, before, after ++ [last], by simp, earlier, fun other member => ?_⟩
  rcases List.mem_append.mp member with inside | isLast
  · exact later other inside
  · rw [List.mem_singleton.mp isLast]
    exact shorter

theorem longest_mem {side : PathMapping → Side} {mappings : List PathMapping} {p : Path}
    {m : PathMapping} (longest : Longest side mappings p m) : m ∈ mappings := by
  obtain ⟨_, before, after, rfl, _⟩ := longest
  exact List.mem_append_right _ List.mem_cons_self

theorem longest_most {side : PathMapping → Side} {mappings : List PathMapping} {p : Path}
    {m : PathMapping} (longest : Longest side mappings p m) :
    ∀ other ∈ mappings, Under (side other) p →
      (side other).root.length ≤ (side m).root.length := by
  obtain ⟨_, before, after, rfl, earlier, later⟩ := longest
  intro other member reached
  rcases List.mem_append.mp member with inside | rest
  · exact Nat.le_of_lt (earlier other inside reached)
  · rcases List.mem_cons.mp rest with rfl | inside
    · exact Nat.le_refl _
    · exact later other inside reached

theorem longest_unique {side : PathMapping → Side} {mappings : List PathMapping} {p : Path}
    {m m' : PathMapping} (one : Longest side mappings p m) (two : Longest side mappings p m') :
    m = m' := by
  have most := longest_most one
  have most' := longest_most two
  obtain ⟨reached, before, after, rfl, earlier, _⟩ := one
  obtain ⟨reached', before', after', cut, earlier', _⟩ := two
  rcases List.append_eq_append_iff.mp cut with ⟨between, rfl, rest⟩ | ⟨between, rfl, rest⟩
  · cases between with
    | nil => exact (List.cons.inj rest).1
    | cons first between =>
        obtain rfl := (List.cons.inj rest).1
        have shorter := earlier' m (by simp) reached
        have longer := most m' (by rw [cut]; simp) reached'
        exact absurd shorter (Nat.not_lt.mpr longer)
  · cases between with
    | nil => exact (List.cons.inj rest).1.symm
    | cons first between =>
        obtain rfl := (List.cons.inj rest).1
        have shorter := earlier m' (by simp) reached'
        have longer := most' m (by simp) reached
        exact absurd shorter (Nat.not_lt.mpr longer)

theorem best_of (side : PathMapping → Side) (mappings : List PathMapping) (path : Path) :
    match bestOf side mappings path with
    | none => ∀ m ∈ mappings, ¬Under (side m) (forwardSlashes path)
    | some (m, rest) => under (side m).root (side m).windows path = some rest ∧
        Longest side mappings (forwardSlashes path) m := by
  induction mappings using List.reverseRecOn with
  | nil => exact fun m impossible => nomatch impossible
  | append_singleton mappings last induction =>
      rw [bestOf, List.foldl_append, List.foldl_cons, List.foldl_nil, ← bestOf]
      cases found : under (side last).root (side last).windows path with
      | none =>
          have outside : ¬Under (side last) (forwardSlashes path) := by
            rw [under_iff, found]
            exact fun ⟨rest, impossible⟩ => nomatch impossible
          cases best : bestOf side mappings path with
          | none =>
              rw [best] at induction
              simp only [better, found]
              intro m member
              rcases List.mem_append.mp member with before | isLast
              · exact induction m before
              · rw [List.mem_singleton.mp isLast]
                exact outside
          | some top =>
              rw [best] at induction
              simp only [better, found]
              exact ⟨induction.1, longest_before induction.2 fun reached => absurd reached outside⟩
      | some rest =>
          have reached : Under (side last) (forwardSlashes path) :=
            (under_iff _ _).mpr ⟨rest, found⟩
          cases best : bestOf side mappings path with
          | none =>
              rw [best] at induction
              simp only [better, found]
              exact ⟨trivial, longest_last reached fun m member inside =>
                absurd inside (induction m member)⟩
          | some top =>
              rw [best] at induction
              simp only [better, found]
              by_cases longer : (side top.1).root.length < (side last).root.length
              · rw [if_pos longer]
                exact ⟨found, longest_last reached fun m member inside =>
                  Nat.lt_of_le_of_lt (longest_most induction.2 m member inside) longer⟩
              · rw [if_neg longer]
                exact ⟨induction.1, longest_before induction.2 fun _ => Nat.le_of_not_lt longer⟩

/-! ## Both directions -/

/-- The root that a path is translated by is the path itself, or the roots of its pair agree on
whether they end in a separator. -/
def Plain (side other : PathMapping → Side) (mappings : List PathMapping) (p : Path) : Prop :=
  ∀ m, Longest side mappings p m → Alike (side m).windows (side m).root p ∨
    (endsInSlash (side m).root ↔ endsInSlash (other m).root)

theorem alike_root_iff {side : Side} {path rest : Path}
    (found : under side.root side.windows path = some rest) :
    Alike side.windows side.root (forwardSlashes path) ↔ rest = [] := by
  obtain ⟨front, shape, same, _⟩ := under_some.mp found
  rw [shape]
  constructor
  · intro whole
    have lengths := alike_length whole
    rw [List.length_append, ← alike_length same] at lengths
    exact List.length_eq_zero_iff.mp (by omega)
  · rintro rfl
    rwa [List.append_nil]

/-- What the code joins is the path moved, exactly where the mapping is plain for it. -/
theorem joined_moved {one other : Side} {path rest : Path}
    (found : under one.root one.windows path = some rest) :
    Moved one other (forwardSlashes path) (joinRoot other.root other.windows rest) ↔
      Alike one.windows one.root (forwardSlashes path) ∨
        (endsInSlash one.root ↔ endsInSlash other.root) := by
  obtain ⟨_, _, _, setOff⟩ := under_some.mp found
  rw [moved_iff found, alike_root_iff found]
  by_cases empty : rest = []
  · rw [if_pos empty, empty, joinRoot, List.append_nil]
    exact iff_of_true rfl (.inl rfl)
  · rw [if_neg empty, joined_right setOff empty, or_iff_right empty]

/-- A translation by the best mapping, as both directions make it. -/
theorem best_translated {side other : PathMapping → Side} {mappings : List PathMapping}
    {path rest : Path} {m : PathMapping} (best : bestOf side mappings path = some (m, rest)) :
    Translated side other mappings (forwardSlashes path)
        (some (joinRoot (other m).root (other m).windows rest)) ↔
      Plain side other mappings (forwardSlashes path) := by
  have chosen := best_of side mappings path
  rw [best] at chosen
  obtain ⟨found, longest⟩ := chosen
  constructor
  · rintro ⟨m', longest', moved⟩ m'' longest''
    obtain rfl := longest_unique longest longest'
    obtain rfl := longest_unique longest longest''
    exact (joined_moved found).mp moved
  · intro plain
    exact ⟨m, longest, (joined_moved found).mpr (plain m longest)⟩

/-! ## There and back -/

theorem alike_lax {windows lax : Bool} {a b : Path} (more : windows = true → lax = true)
    (same : Alike windows a b) : Alike lax a b := by
  cases windows with
  | true => rwa [more rfl]
  | false =>
      rw [Alike, if_neg Bool.false_ne_true] at same
      exact (alike_iff _ _ _).mpr (by rw [same])

theorem alike_trans {windows : Bool} {a b c : Path} (one : Alike windows a b)
    (two : Alike windows c b) : Alike windows a c :=
  (alike_iff _ _ _).mpr (((alike_iff _ _ _).mp one).trans ((alike_iff _ _ _).mp two).symm)

/-- A root that matches less of a path than another does lies over that other. -/
theorem shorter_under {a b : Side} {lax : Bool} {front between rest : Path}
    (laxA : a.windows = true → lax = true) (laxB : b.windows = true → lax = true)
    (one : Alike a.windows a.root front) (two : Alike b.windows b.root (front ++ between))
    (setOff : SetOff a.root (between ++ rest)) : Under ⟨a.root, lax⟩ b.root := by
  have lengths := alike_length two
  rw [List.length_append] at lengths
  have cut : b.root.take front.length ++ b.root.drop front.length = b.root :=
    List.take_append_drop _ _
  have cutLength : (b.root.take front.length).length = front.length := by
    rw [List.length_take]
    omega
  rw [← cut, alike_append cutLength] at two
  refine (under_parts _ _).mpr ⟨_, _, cut.symm,
    alike_trans (alike_lax laxA one) (alike_lax laxB two.1), ?_⟩
  rcases setOff with empty | ends | ⟨later, starts⟩
  · have nothing : between = [] := (List.append_eq_nil_iff.mp empty).1
    rw [nothing] at two
    exact .inl (List.length_eq_zero_iff.mp (alike_length two.2))
  · exact .inr (.inl ends)
  · cases between with
    | nil => exact .inl (List.length_eq_zero_iff.mp (alike_length two.2))
    | cons d between =>
        obtain rfl : d = slash := (List.cons.inj starts).1
        cases behind : b.root.drop front.length with
        | nil => exact .inl rfl
        | cons c later =>
            have heads : Alike b.windows [c] [slash] := by
              have split := behind ▸ two.2
              exact ((alike_append (a := [c]) (c := [slash]) rfl).mp split).1
            rw [(alike_slash heads).mpr rfl]
            exact .inr (.inr ⟨later, rfl⟩)

/-- Two roots over one path are nested. -/
theorem common_nested {a b : Side} {p : Path} (one : Under a p) (two : Under b p) :
    Nested a b := by
  obtain ⟨front, rest, rfl, same, setOff⟩ := (under_parts a p).mp one
  obtain ⟨front', rest', cut, same', setOff'⟩ := (under_parts b _).mp two
  rcases List.append_eq_append_iff.mp cut with ⟨between, rfl, rfl⟩ | ⟨between, rfl, rfl⟩
  · exact .inl (shorter_under (by simp +contextual) (by simp +contextual) same same' setOff)
  · exact .inr (shorter_under (by simp +contextual) (by simp +contextual) same' same setOff')

theorem nested_symm {a b : Side} (nested : Nested a b) : Nested b a := by
  rw [Nested, Bool.or_comm]
  exact nested.symm

theorem forward_clean (p : Path) : backslash ∉ forwardSlashes p := by
  rw [forwardSlashes, List.mem_map]
  rintro ⟨c, _, turned⟩
  split_ifs at turned with back
  · exact absurd turned (by decide)
  · exact back turned

theorem forward_same {p : Path} (clean : backslash ∉ p) : forwardSlashes p = p := by
  rw [forwardSlashes]
  refine (List.map_congr_left fun c member => ?_).trans (List.map_id p)
  have notBack : c ≠ backslash := fun back => clean (back ▸ member)
  exact if_neg notBack

/-- A joined path, seen with forward separators. -/
theorem forward_joined {root rest : Path} (windows : Bool) (clean : backslash ∉ root)
    (clean' : backslash ∉ rest) : forwardSlashes (joinRoot root windows rest) = root ++ rest := by
  have both : backslash ∉ root ++ rest := by
    rw [List.mem_append]
    exact fun either => either.elim clean clean'
  rw [joinRoot]
  cases windows with
  | false => exact forward_same both
  | true =>
      rw [if_pos rfl, forwardSlashes, List.map_map]
      refine (List.map_congr_left fun c member => ?_).trans (List.map_id _)
      have notBack : c ≠ backslash := fun back => both (back ▸ member)
      by_cases isSlash : c = slash
      · rw [Function.comp_apply, if_pos isSlash, if_pos rfl, isSlash, id]
      · rw [Function.comp_apply, if_neg isSlash, if_neg notBack, id]

theorem pop_begins (p : Path) : popSeparators p <+: p := by
  rw [popSeparators]
  split_ifs
  · exact (pop_begins p.dropLast).trans (List.dropLast_prefix p)
  · exact List.prefix_rfl
termination_by p.length
decreasing_by
  rw [List.length_dropLast]
  omega

theorem pop_ne {p : Path} (some_ : p ≠ []) : popSeparators p ≠ [] := by
  rw [popSeparators]
  split_ifs with more
  · refine pop_ne fun empty => ?_
    have length := congrArg List.length empty
    rw [List.length_dropLast, List.length_nil] at length
    omega
  · exact some_
termination_by p.length
decreasing_by
  rw [List.length_dropLast]
  omega

theorem trim_clean (p : Path) : backslash ∉ trimRoot p := fun member =>
  forward_clean p ((pop_begins _).subset member)

theorem trim_ne {p : Path} (some_ : p ≠ []) : trimRoot p ≠ [] :=
  pop_ne fun empty => some_ (List.map_eq_nil_iff.mp empty)

theorem under_nonempty {side : Side} (rooted : side.root ≠ []) : ¬Under side [] := by
  rintro (whole | ⟨front, rest, empty, _⟩)
  · exact rooted (List.length_eq_zero_iff.mp (alike_length whole))
  · exact List.cons_ne_nil _ _ (List.append_eq_nil_iff.mp empty.symm).2

theorem under_rest_clean {root path rest : Path} {windows : Bool}
    (found : under root windows path = some rest) : backslash ∉ rest := by
  obtain ⟨front, shape, _⟩ := under_some.mp found
  intro member
  refine forward_clean path ?_
  rw [shape]
  exact List.mem_append_right _ member

/-- A joined path stands under the root it was joined to, with the same rest. -/
theorem under_joined {one : Side} (other : Side) {path rest : Path} (clean : backslash ∉ other.root)
    (found : under one.root one.windows path = some rest)
    (plain : rest = [] ∨ (endsInSlash one.root ↔ endsInSlash other.root)) :
    under other.root other.windows (joinRoot other.root other.windows rest) = some rest := by
  obtain ⟨_, _, _, setOff⟩ := under_some.mp found
  refine under_some.mpr ⟨other.root, forward_joined _ clean (under_rest_clean found),
    (alike_iff _ _ _).mpr rfl, ?_⟩
  rcases setOff with empty | ends | starts
  · exact .inl empty
  · exact plain.imp_right fun both => .inl (both.mp ends)
  · exact .inr (.inr starts)

theorem plain_of_none {side other : PathMapping → Side} {mappings : List PathMapping} {p : Path}
    (outside : ∀ m ∈ mappings, ¬Under (side m) p) : Plain side other mappings p := by
  intro m longest
  exact absurd longest.1 (outside m (longest_mem longest))

def mappingsOf (pairs : List Roots) : List PathMapping := pairs.map Roots.mapping

/-- `toAdapter`, `toClient` and the way there and back are right for a path. -/
structure Right (mappings : List PathMapping) (p : Path) : Prop where
  toAdapter_right :
    Translated localSide remoteSide mappings (forwardSlashes p) (some (toAdapter mappings p)) ∨
      Translated localSide remoteSide mappings (forwardSlashes p) none ∧
        toAdapter mappings p = p
  toClient_right :
    Translated remoteSide localSide mappings (forwardSlashes p) (toClient mappings p)
  back :
    mappings.Pairwise (fun a b => ¬Nested (localSide a) (localSide b)) →
      mappings.Pairwise (fun a b => ¬Nested (remoteSide a) (remoteSide b)) →
        ∀ m ∈ mappings, Under (localSide m) (forwardSlashes p) →
          ∃ q, toClient mappings (toAdapter mappings p) = some q ∧ SamePath (localSide m) p q

section Pairs

variable (pairs : List Roots) (p : Path)

theorem mapping_roots : ∀ m ∈ mappingsOf pairs,
    m.local ≠ [] ∧ backslash ∉ m.local ∧ m.remote ≠ [] ∧ backslash ∉ m.remote := by
  intro m member
  obtain ⟨pair, _, rfl⟩ := List.mem_map.mp member
  exact ⟨trim_ne pair.local_ne, trim_clean _, trim_ne pair.remote_ne, trim_clean _⟩

/-- The guard of `toAdapter` answers as the loop would. -/
theorem to_adapter_eq : toAdapter (mappingsOf pairs) p =
    match bestOf localSide (mappingsOf pairs) p with
    | some (best, rest) => joinRoot best.remote best.remoteWindows rest
    | none => p := by
  rw [toAdapter]
  split_ifs with guard
  · cases best : bestOf localSide (mappingsOf pairs) p with
    | none => rfl
    | some top =>
        have chosen := best_of localSide (mappingsOf pairs) p
        rw [best] at chosen
        obtain ⟨found, longest⟩ := chosen
        have member := longest_mem longest
        rcases guard with rfl | empty
        · have reached := (under_iff (localSide top.1) []).mpr ⟨_, found⟩
          exact absurd reached (under_nonempty (mapping_roots pairs top.1 member).1)
        · rw [empty] at member
          cases member
  · rfl

theorem adapter_right_iff :
    (Translated localSide remoteSide (mappingsOf pairs) (forwardSlashes p)
        (some (toAdapter (mappingsOf pairs) p)) ∨
      Translated localSide remoteSide (mappingsOf pairs) (forwardSlashes p) none ∧
        toAdapter (mappingsOf pairs) p = p) ↔
      Plain localSide remoteSide (mappingsOf pairs) (forwardSlashes p) := by
  rw [to_adapter_eq]
  have chosen := best_of localSide (mappingsOf pairs) p
  cases best : bestOf localSide (mappingsOf pairs) p with
  | none =>
      rw [best] at chosen
      exact iff_of_true (.inr ⟨chosen, rfl⟩) (plain_of_none chosen)
  | some top =>
      rw [best] at chosen
      have member := longest_mem chosen.2
      have covered : ¬Translated localSide remoteSide (mappingsOf pairs) (forwardSlashes p) none :=
        fun outside => outside top.1 member chosen.2.1
      rw [or_iff_left fun none_ => covered none_.1]
      exact best_translated best

theorem client_right_iff :
    Translated remoteSide localSide (mappingsOf pairs) (forwardSlashes p)
        (toClient (mappingsOf pairs) p) ↔
      Plain remoteSide localSide (mappingsOf pairs) (forwardSlashes p) := by
  have chosen := best_of remoteSide (mappingsOf pairs) p
  rw [toClient]
  cases best : bestOf remoteSide (mappingsOf pairs) p with
  | none =>
      rw [best] at chosen
      exact iff_of_true chosen (plain_of_none chosen)
  | some top => exact best_translated best

/-- Where roots are not nested, a path stands under one of them at most. -/
theorem apart_same {side : PathMapping → Side} {mappings : List PathMapping} {q : Path}
    (apart : mappings.Pairwise fun a b => ¬Nested (side a) (side b)) {a b : PathMapping}
    (member : a ∈ mappings) (member' : b ∈ mappings) (one : Under (side a) q)
    (two : Under (side b) q) : a = b := by
  by_contra different
  have symmetric : Std.Symm fun a b => ¬Nested (side a) (side b) :=
    ⟨fun _ _ separate nested => separate (nested_symm nested)⟩
  exact apart.forall member member' different (common_nested one two)

/-- A path that a plain mapping takes over comes back. -/
theorem there_and_back
    (plain : Plain localSide remoteSide (mappingsOf pairs) (forwardSlashes p))
    (apart : (mappingsOf pairs).Pairwise fun a b => ¬Nested (localSide a) (localSide b))
    (apart' : (mappingsOf pairs).Pairwise fun a b => ¬Nested (remoteSide a) (remoteSide b))
    (m : PathMapping) (member : m ∈ mappingsOf pairs)
    (reached : Under (localSide m) (forwardSlashes p)) :
    ∃ q, toClient (mappingsOf pairs) (toAdapter (mappingsOf pairs) p) = some q ∧
      SamePath (localSide m) p q := by
  have chosen := best_of localSide (mappingsOf pairs) p
  rw [to_adapter_eq]
  cases best : bestOf localSide (mappingsOf pairs) p with
  | none =>
      rw [best] at chosen
      exact absurd reached (chosen m member)
  | some top =>
      rw [best] at chosen
      obtain ⟨found, longest⟩ := chosen
      obtain rfl := apart_same apart (longest_mem longest) member longest.1 reached
      obtain ⟨_, cleanLocal, _, cleanRemote⟩ := mapping_roots pairs top.1 member
      have agree := (plain top.1 longest).imp_left (alike_root_iff found).mp
      have found' := under_joined (remoteSide top.1) cleanRemote found agree
      have reached' := (under_iff (remoteSide top.1) _).mpr ⟨_, found'⟩
      have chosen' := best_of remoteSide (mappingsOf pairs)
        (joinRoot top.1.remote top.1.remoteWindows top.2)
      simp only [toClient]
      cases best' : bestOf remoteSide (mappingsOf pairs)
          (joinRoot top.1.remote top.1.remoteWindows top.2) with
      | none =>
          rw [best'] at chosen'
          exact absurd reached' (chosen' top.1 member)
      | some top' =>
          rw [best'] at chosen'
          obtain ⟨found'', longest'⟩ := chosen'
          have same := apart_same apart' (longest_mem longest') member longest'.1 reached'
          have rests : top'.2 = top.2 := by
            rw [same] at found''
            exact Option.some.inj (found''.symm.trans found')
          obtain ⟨front, shape, alike, _⟩ := under_some.mp found
          simp only [same, rests]
          exact ⟨_, rfl, front, top.2, shape, alike,
            forward_joined _ cleanLocal (under_rest_clean found)⟩

/-- The mappings translate a path right, both ways and back, exactly where the pair that it is
translated by has two roots that end in a separator or two that do not, or the path is the root
itself. -/
theorem path_mappings :
    Right (mappingsOf pairs) p ↔
      Plain localSide remoteSide (mappingsOf pairs) (forwardSlashes p) ∧
        Plain remoteSide localSide (mappingsOf pairs) (forwardSlashes p) := by
  constructor
  · intro right
    exact ⟨(adapter_right_iff pairs p).mp right.toAdapter_right,
      (client_right_iff pairs p).mp right.toClient_right⟩
  · rintro ⟨plain, plain'⟩
    exact ⟨(adapter_right_iff pairs p).mpr plain, (client_right_iff pairs p).mpr plain',
      there_and_back pairs p plain⟩

end Pairs

/-- The client's "/" for "/srv". -/
def wholeDisk : Roots := ⟨[slash], [slash, 115, 114, 118], by decide, by decide⟩

/-- The path "/x" goes over as "/srvx", which stands under no remote root. -/
theorem missing_separator : ¬∀ pairs p, p ≠ [] → Right (mappingsOf pairs) p := by
  intro all
  have right := all [wholeDisk] [slash, 120] (by decide)
  have mapped : mappingsOf [wholeDisk] = [⟨[slash], [slash, 115, 114, 118], false, false⟩] := by
    simp [mappingsOf, Roots.mapping, wholeDisk, trimRoot, popSeparators, forwardSlashes,
      looksWindows, isAlpha, slash, backslash, colon]
  rw [mapped] at right
  have alone : ∀ side : PathMapping → Side,
      List.Pairwise (fun a b => ¬Nested (side a) (side b))
        [⟨[slash], [slash, 115, 114, 118], false, false⟩] := fun side =>
    List.pairwise_singleton _ _
  have reached : Under ⟨[slash], false⟩ (forwardSlashes [slash, 120]) :=
    .inr ⟨[], [120], rfl, by decide⟩
  have lost : toClient [⟨[slash], [slash, 115, 114, 118], false, false⟩]
      (toAdapter [⟨[slash], [slash, 115, 114, 118], false, false⟩] [slash, 120]) = none := by
    decide
  obtain ⟨q, back, _⟩ := right.back (alone _) (alone _) _ List.mem_cons_self reached
  rw [lost] at back
  cases back

end ProtoScala.Debugger.PathMappings
