import Mathlib.Data.List.Forall2
import Mathlib.Data.List.TakeDrop
import Mathlib.Data.List.TakeWhile

/-!
# The prelude's iterators

The derived iterators of `Iterator` as objects: a state that `hasNext` and `next` change,
around the state of the iterator they are derived from. An `Iter` carries what is left of
its elements and that the two methods answer by it, which is also why the loops over
another iterator end. `next` answers `none` where it throws `NoSuchElementException`.

Each state records the arguments of the calls of its function (a source, the elements it
gave out). `Ledger` says what may stand there.
-/

namespace ProtoScala.Runtime.Iterators

set_option autoImplicit false

structure Iter (V : Type) where
  State : Type
  hasNext : State → Bool × State
  next : State → Option V × State
  left : State → List V
  has_answer : ∀ s, (hasNext s).1 = !(left s).isEmpty
  has_left : ∀ s, left (hasNext s).2 = left s
  next_answer : ∀ s, (next s).1 = (left s).head?
  next_left : ∀ s, left (next s).2 = (left s).tail

variable {V : Type}

namespace Iter

theorem has_true {it : Iter V} {s : it.State} (more : (it.hasNext s).1 = true) :
    ∃ x rest, it.left s = x :: rest ∧ (it.next (it.hasNext s).2).1 = some x ∧
      it.left (it.next (it.hasNext s).2).2 = rest := by
  have answer := it.has_answer s
  rw [more] at answer
  cases left : it.left s with
  | nil => simp [left] at answer
  | cons x rest =>
      refine ⟨x, rest, rfl, ?_, ?_⟩
      · rw [it.next_answer, it.has_left, left]
        rfl
      · rw [it.next_left, it.has_left, left]
        rfl

theorem has_false {it : Iter V} {s : it.State} (none_left : ¬(it.hasNext s).1 = true) :
    it.left s = [] := by
  rw [it.has_answer] at none_left
  simpa using none_left

theorem next_shorter {it : Iter V} {s : it.State} (more : (it.hasNext s).1 = true) :
    (it.left (it.next (it.hasNext s).2).2).length < (it.left s).length := by
  obtain ⟨x, rest, left, -, after⟩ := has_true more
  rw [left, after]
  exact Nat.lt_succ_self _

end Iter

/-! ## A list -/

structure ListState (V : Type) where
  rest : List V
  consumed : List V

/-- `__ListIterator`. -/
def listIterator : Iter V where
  State := ListState V
  hasNext s := (!s.rest.isEmpty, s)
  next s :=
    match s.rest with
    | [] => (none, s)
    | h :: tail => (some h, ⟨tail, s.consumed ++ [h]⟩)
  left s := s.rest
  has_answer _ := rfl
  has_left _ := rfl
  next_answer s := by cases s.rest <;> rfl
  next_left s := by
    cases rest : s.rest <;> simp [rest]

/-! ## `map` -/

/-- The iterator below, and the arguments of the calls of a function. -/
structure MappedState (S V : Type) where
  it : S
  calls : List V

/-- `__MappedIterator`. -/
def mapped (it : Iter V) (f : V → V) : Iter V where
  State := MappedState it.State V
  hasNext s := ((it.hasNext s.it).1, { s with it := (it.hasNext s.it).2 })
  next s :=
    match (it.next s.it).1 with
    | some x => (some (f x), ⟨(it.next s.it).2, s.calls ++ [x]⟩)
    | none => (none, { s with it := (it.next s.it).2 })
  left s := (it.left s.it).map f
  has_answer s := by
    rw [it.has_answer, List.isEmpty_map]
  has_left s := by
    rw [it.has_left]
  next_answer s := by
    rw [it.next_answer, List.head?_map]
    cases (it.left s.it).head? <;> rfl
  next_left s := by
    rw [← List.map_tail, ← it.next_left]
    cases (it.next s.it).1 <;> rfl

/-! ## `filter` -/

structure FilteredState (S V : Type) where
  it : S
  ready : Bool
  item : V
  calls : List V

/-- The loop of `hasNext`. -/
def filteredLoop (it : Iter V) (p : V → Bool) (keep : Bool) (s : FilteredState it.State V) :
    FilteredState it.State V :=
  if s.ready = true then s
  else if _more : (it.hasNext s.it).1 = true then
    match (it.next (it.hasNext s.it).2).1 with
    | some x =>
        let s := { s with it := (it.next (it.hasNext s.it).2).2, calls := s.calls ++ [x] }
        if p x = keep then filteredLoop it p keep { s with item := x, ready := true }
        else filteredLoop it p keep s
    -- not reached: `hasNext` has answered true
    | none => { s with it := (it.next (it.hasNext s.it).2).2 }
  else { s with it := (it.hasNext s.it).2 }
termination_by (it.left s.it).length
decreasing_by
  · exact Iter.next_shorter _more
  · exact Iter.next_shorter _more

def filteredLeft (it : Iter V) (p : V → Bool) (keep : Bool) (s : FilteredState it.State V) :
    List V :=
  (if s.ready = true then [s.item] else []) ++ (it.left s.it).filter fun x => p x == keep

/-- The loop gives nothing out, and finds the first item when there is one. -/
theorem filtered_loop (it : Iter V) (p : V → Bool) (keep : Bool) (s : FilteredState it.State V) :
    filteredLeft it p keep (filteredLoop it p keep s) = filteredLeft it p keep s ∧
      (filteredLoop it p keep s).ready = !(filteredLeft it p keep s).isEmpty ∧
      ((filteredLoop it p keep s).ready = true →
        (filteredLeft it p keep s).head? = some (filteredLoop it p keep s).item) := by
  induction s using filteredLoop.induct it p keep with
  | case1 s ready =>
      rw [filteredLoop, if_pos ready]
      simp [filteredLeft, ready]
  | case2 s waiting more x taken s' kept ih =>
      obtain ⟨y, rest, left, answer, after⟩ := Iter.has_true more
      obtain rfl : x = y := Option.some.inj (taken.symm.trans answer)
      have same : filteredLeft it p keep { s' with item := x, ready := true } =
          filteredLeft it p keep s := by
        simp [filteredLeft, s', waiting, left, after, kept]
      rw [filteredLoop, if_neg waiting, dif_pos more, taken]
      simp only
      rw [if_pos kept, ← same]
      exact ih
  | case3 s waiting more x taken s' dropped ih =>
      obtain ⟨y, rest, left, answer, after⟩ := Iter.has_true more
      obtain rfl : x = y := Option.some.inj (taken.symm.trans answer)
      have same : filteredLeft it p keep s' = filteredLeft it p keep s := by
        simp [filteredLeft, s', waiting, left, after, dropped]
      rw [filteredLoop, if_neg waiting, dif_pos more, taken]
      simp only
      rw [if_neg dropped, ← same]
      exact ih
  | case4 s waiting more taken =>
      obtain ⟨y, rest, left, answer, after⟩ := Iter.has_true more
      rw [taken] at answer
      cases answer
  | case5 s waiting none_left =>
      have left := Iter.has_false none_left
      rw [filteredLoop, if_neg waiting, dif_neg none_left]
      simp [filteredLeft, waiting, it.has_left, left]

/-- `__FilteredIterator`. -/
def filtered (it : Iter V) (p : V → Bool) (keep : Bool) : Iter V where
  State := FilteredState it.State V
  hasNext s := ((filteredLoop it p keep s).ready, filteredLoop it p keep s)
  next s :=
    let s := filteredLoop it p keep s
    if s.ready = true then (some s.item, { s with ready := false }) else (none, s)
  left s := filteredLeft it p keep s
  has_answer s := (filtered_loop it p keep s).2.1
  has_left s := (filtered_loop it p keep s).1
  next_answer s := by
    obtain ⟨-, found, first⟩ := filtered_loop it p keep s
    simp only
    split_ifs with ready
    · exact (first ready).symm
    · rw [eq_false_of_ne_true ready] at found
      have empty : filteredLeft it p keep s = [] := by simpa using found.symm
      rw [empty]
      rfl
  next_left s := by
    obtain ⟨same, found, -⟩ := filtered_loop it p keep s
    simp only
    rw [← same]
    split_ifs with ready
    · simp [filteredLeft, ready]
    · rw [eq_false_of_ne_true ready, ← same] at found
      have empty : filteredLeft it p keep (filteredLoop it p keep s) = [] := by
        simpa using found.symm
      rw [empty]
      rfl

/-! ## `flatMap` -/

structure FlatMappedState (S V : Type) where
  it : S
  current : List V
  calls : List V

/-- The loop of `hasNext`; `f x` stands for `f(x).toList`. -/
def flatMappedLoop (it : Iter V) (f : V → List V) (s : FlatMappedState it.State V) :
    FlatMappedState it.State V :=
  if s.current.isEmpty = false then s
  else if _more : (it.hasNext s.it).1 = true then
    match (it.next (it.hasNext s.it).2).1 with
    | some x => flatMappedLoop it f ⟨(it.next (it.hasNext s.it).2).2, f x, s.calls ++ [x]⟩
    -- not reached: `hasNext` has answered true
    | none => { s with it := (it.next (it.hasNext s.it).2).2 }
  else { s with it := (it.hasNext s.it).2 }
termination_by (it.left s.it).length
decreasing_by exact Iter.next_shorter _more

def flatMappedLeft (it : Iter V) (f : V → List V) (s : FlatMappedState it.State V) : List V :=
  s.current ++ (it.left s.it).flatMap f

theorem flat_mapped_loop (it : Iter V) (f : V → List V) (s : FlatMappedState it.State V) :
    flatMappedLeft it f (flatMappedLoop it f s) = flatMappedLeft it f s ∧
      (flatMappedLoop it f s).current.isEmpty = (flatMappedLeft it f s).isEmpty := by
  induction s using flatMappedLoop.induct it f with
  | case1 s waiting =>
      rw [flatMappedLoop, if_pos waiting]
      refine ⟨rfl, ?_⟩
      cases current : s.current with
      | nil => simp [current] at waiting
      | cons h tail => simp [flatMappedLeft, current]
  | case2 s empty more x taken ih =>
      obtain ⟨y, rest, left, answer, after⟩ := Iter.has_true more
      obtain rfl : x = y := Option.some.inj (taken.symm.trans answer)
      have none_current : s.current = [] := by simpa using empty
      have same : flatMappedLeft it f ⟨(it.next (it.hasNext s.it).2).2, f x, s.calls ++ [x]⟩ =
          flatMappedLeft it f s := by
        simp [flatMappedLeft, none_current, left, after]
      rw [flatMappedLoop, if_neg empty, dif_pos more, taken]
      simp only
      rw [← same]
      exact ih
  | case3 s empty more taken =>
      obtain ⟨y, rest, left, answer, after⟩ := Iter.has_true more
      rw [taken] at answer
      cases answer
  | case4 s empty none_left =>
      have left := Iter.has_false none_left
      have none_current : s.current = [] := by simpa using empty
      rw [flatMappedLoop, if_neg empty, dif_neg none_left]
      simp [flatMappedLeft, none_current, it.has_left, left]

/-- `__FlatMappedIterator`. -/
def flatMapped (it : Iter V) (f : V → List V) : Iter V where
  State := FlatMappedState it.State V
  hasNext s := (!(flatMappedLoop it f s).current.isEmpty, flatMappedLoop it f s)
  next s :=
    let s := flatMappedLoop it f s
    match s.current with
    | [] => (none, s)
    | h :: tail => (some h, { s with current := tail })
  left s := flatMappedLeft it f s
  has_answer s := by
    rw [(flat_mapped_loop it f s).2]
  has_left s := (flat_mapped_loop it f s).1
  next_answer s := by
    obtain ⟨same, found⟩ := flat_mapped_loop it f s
    rw [← same] at found ⊢
    cases current : (flatMappedLoop it f s).current with
    | nil =>
        rw [current] at found
        rw [List.isEmpty_iff.mp found.symm]
        simp [current]
    | cons h tail => simp [current, flatMappedLeft]
  next_left s := by
    obtain ⟨same, found⟩ := flat_mapped_loop it f s
    rw [← same] at found ⊢
    cases current : (flatMappedLoop it f s).current with
    | nil =>
        rw [current] at found
        simp only [current]
        rw [List.isEmpty_iff.mp found.symm]
        rfl
    | cons h tail => simp [current, flatMappedLeft]

/-! ## `take` and `drop` -/

structure TakeState (S : Type) where
  it : S
  left : Int

/-- `__TakeIterator`. -/
def taking (it : Iter V) : Iter V where
  State := TakeState it.State
  hasNext s :=
    if 0 < s.left then ((it.hasNext s.it).1, { s with it := (it.hasNext s.it).2 })
    else (false, s)
  next s :=
    if s.left ≤ 0 then (none, s)
    else ((it.next s.it).1, ⟨(it.next s.it).2, s.left - 1⟩)
  left s := (it.left s.it).take s.left.toNat
  has_answer s := by
    split_ifs with more
    · rw [it.has_answer]
      cases it.left s.it with
      | nil => rw [List.take_nil]
      | cons x rest => simp [more]
    · rw [Int.toNat_of_nonpos (Int.not_lt.mp more)]
      rfl
  has_left s := by
    split_ifs
    · rw [it.has_left]
    · rfl
  next_answer s := by
    split_ifs with done
    · rw [Int.toNat_of_nonpos done]
      rfl
    · rw [it.next_answer, show s.left.toNat = (s.left - 1).toNat + 1 by omega]
      cases it.left s.it <;> rfl
  next_left s := by
    split_ifs with done
    · rw [Int.toNat_of_nonpos done]
      rfl
    · rw [it.next_left, show s.left.toNat = (s.left - 1).toNat + 1 by omega]
      cases it.left s.it <;> simp

/-- The loop of `drop`, which is over before the pipeline goes on. -/
def dropLoop (it : Iter V) (n k : Int) (s : it.State) : it.State :=
  if k < n then
    if _more : (it.hasNext s).1 = true then
      dropLoop it n (k + 1) (it.next (it.hasNext s).2).2
    else (it.hasNext s).2
  else s
termination_by (it.left s).length
decreasing_by exact Iter.next_shorter _more

theorem drop_loop (it : Iter V) (n k : Int) (s : it.State) :
    it.left (dropLoop it n k s) = (it.left s).drop (n - k).toNat := by
  induction k, s using dropLoop.induct it n with
  | case1 k s early more ih =>
      obtain ⟨x, rest, left, -, after⟩ := Iter.has_true more
      rw [dropLoop, if_pos early, dif_pos more, ih, left, after,
        show (n - k).toNat = (n - (k + 1)).toNat + 1 by omega, List.drop_succ_cons]
  | case2 k s early none_left =>
      rw [dropLoop, if_pos early, dif_neg none_left, it.has_left, Iter.has_false none_left,
        List.drop_nil]
  | case3 k s late =>
      rw [dropLoop, if_neg late, show (n - k).toNat = 0 by omega, List.drop_zero]

/-! ## `takeWhile` -/

structure TakeWhileState (S V : Type) where
  it : S
  ready : Bool
  done : Bool
  item : V
  calls : List V

/-- What `hasNext` does to the state. -/
def takeWhileLook (it : Iter V) (p : V → Bool) (s : TakeWhileState it.State V) :
    TakeWhileState it.State V :=
  if s.ready = false ∧ s.done = false then
    if (it.hasNext s.it).1 = true then
      match (it.next (it.hasNext s.it).2).1 with
      | some x =>
          let s := { s with it := (it.next (it.hasNext s.it).2).2, calls := s.calls ++ [x] }
          if p x = true then { s with item := x, ready := true } else { s with done := true }
      -- not reached: `hasNext` has answered true
      | none => { s with it := (it.next (it.hasNext s.it).2).2 }
    else { s with it := (it.hasNext s.it).2, done := true }
  else s

def takeWhileLeft (it : Iter V) (p : V → Bool) (s : TakeWhileState it.State V) : List V :=
  (if s.ready = true then [s.item] else []) ++
    if s.done = true then [] else (it.left s.it).takeWhile p

theorem take_while_look (it : Iter V) (p : V → Bool) (s : TakeWhileState it.State V) :
    takeWhileLeft it p (takeWhileLook it p s) = takeWhileLeft it p s ∧
      (takeWhileLook it p s).ready = !(takeWhileLeft it p s).isEmpty ∧
      ((takeWhileLook it p s).ready = true →
        (takeWhileLeft it p s).head? = some (takeWhileLook it p s).item) := by
  unfold takeWhileLook
  by_cases looks : s.ready = false ∧ s.done = false
  · obtain ⟨waiting, going⟩ := looks
    rw [if_pos ⟨waiting, going⟩]
    by_cases more : (it.hasNext s.it).1 = true
    · obtain ⟨x, rest, left, answer, after⟩ := Iter.has_true more
      rw [if_pos more, answer]
      simp only
      by_cases holds : p x = true
      · simp [takeWhileLeft, waiting, going, left, after, holds]
      · simp [takeWhileLeft, waiting, going, left, holds]
    · rw [if_neg more]
      simp [takeWhileLeft, waiting, going, Iter.has_false more]
  · rw [if_neg looks]
    cases ready : s.ready with
    | true => simp [takeWhileLeft, ready]
    | false =>
        have done : s.done = true := by simpa [ready] using looks
        simp [takeWhileLeft, ready, done]

/-- `__TakeWhileIterator`. -/
def takingWhile (it : Iter V) (p : V → Bool) : Iter V where
  State := TakeWhileState it.State V
  hasNext s := ((takeWhileLook it p s).ready, takeWhileLook it p s)
  next s :=
    let s := takeWhileLook it p s
    if s.ready = true then (some s.item, { s with ready := false }) else (none, s)
  left s := takeWhileLeft it p s
  has_answer s := (take_while_look it p s).2.1
  has_left s := (take_while_look it p s).1
  next_answer s := by
    obtain ⟨-, found, first⟩ := take_while_look it p s
    simp only
    split_ifs with ready
    · exact (first ready).symm
    · rw [eq_false_of_ne_true ready] at found
      have empty : takeWhileLeft it p s = [] := by simpa using found.symm
      rw [empty]
      rfl
  next_left s := by
    obtain ⟨same, found, -⟩ := take_while_look it p s
    simp only
    rw [← same]
    split_ifs with ready
    · simp [takeWhileLeft, ready]
    · rw [eq_false_of_ne_true ready, ← same] at found
      have empty : takeWhileLeft it p (takeWhileLook it p s) = [] := by simpa using found.symm
      rw [empty]
      rfl

/-! ## `dropWhile` -/

structure DropWhileState (S V : Type) where
  it : S
  started : Bool
  ready : Bool
  item : V
  calls : List V

/-- The loop of the first `hasNext`. -/
def dropWhileLoop (it : Iter V) (p : V → Bool) (s : DropWhileState it.State V) :
    DropWhileState it.State V :=
  if _more : (it.hasNext s.it).1 = true then
    match (it.next (it.hasNext s.it).2).1 with
    | some x =>
        let s := { s with it := (it.next (it.hasNext s.it).2).2, calls := s.calls ++ [x] }
        if p x = false then { s with item := x, ready := true } else dropWhileLoop it p s
    -- not reached: `hasNext` has answered true
    | none => { s with it := (it.next (it.hasNext s.it).2).2 }
  else { s with it := (it.hasNext s.it).2 }
termination_by (it.left s.it).length
decreasing_by exact Iter.next_shorter _more

def dropWhileStart (it : Iter V) (p : V → Bool) (s : DropWhileState it.State V) :
    DropWhileState it.State V :=
  if s.started = false then dropWhileLoop it p { s with started := true } else s

def startedLeft (it : Iter V) (s : DropWhileState it.State V) : List V :=
  (if s.ready = true then [s.item] else []) ++ it.left s.it

/-- An item that stands there before the start stays when there is nothing else. -/
def dropWhileLeft (it : Iter V) (p : V → Bool) (s : DropWhileState it.State V) : List V :=
  if s.started = true then startedLeft it s
  else
    match (it.left s.it).dropWhile p with
    | [] => if s.ready = true then [s.item] else []
    | x :: rest => x :: rest

theorem drop_while_loop (it : Iter V) (p : V → Bool) (s : DropWhileState it.State V) :
    startedLeft it (dropWhileLoop it p s) = (match (it.left s.it).dropWhile p with
      | [] => if s.ready = true then [s.item] else []
      | x :: rest => x :: rest) ∧ (dropWhileLoop it p s).started = s.started := by
  induction s using dropWhileLoop.induct it p with
  | case1 s more x taken kept =>
      obtain ⟨y, rest, left, answer, after⟩ := Iter.has_true more
      obtain rfl : x = y := Option.some.inj (taken.symm.trans answer)
      rw [dropWhileLoop, dif_pos more, taken]
      simp [startedLeft, left, after, kept]
  | case2 s more x taken s' dropped ih =>
      obtain ⟨y, rest, left, answer, after⟩ := Iter.has_true more
      obtain rfl : x = y := Option.some.inj (taken.symm.trans answer)
      have goes : p x = true := by simpa using dropped
      rw [dropWhileLoop, dif_pos more, taken]
      simp only
      rw [if_neg dropped, left, List.dropWhile_cons_of_pos goes]
      simpa only [s', after] using ih
  | case3 s more taken =>
      obtain ⟨y, rest, left, answer, after⟩ := Iter.has_true more
      rw [taken] at answer
      cases answer
  | case4 s none_left =>
      have left := Iter.has_false none_left
      rw [dropWhileLoop, dif_neg none_left]
      simp [startedLeft, it.has_left, left]

theorem drop_while_start (it : Iter V) (p : V → Bool) (s : DropWhileState it.State V) :
    startedLeft it (dropWhileStart it p s) = dropWhileLeft it p s ∧
      (dropWhileStart it p s).started = true := by
  unfold dropWhileStart dropWhileLeft
  cases started : s.started with
  | true => exact ⟨rfl, started⟩
  | false =>
      obtain ⟨same, kept⟩ := drop_while_loop it p { s with started := true }
      exact ⟨same, kept⟩

theorem started_left {it : Iter V} {s : DropWhileState it.State V} (p : V → Bool)
    (started : s.started = true) : dropWhileLeft it p s = startedLeft it s :=
  if_pos started

/-- `hasNext`, with `||` of two answers. -/
def dropWhileHas (it : Iter V) (p : V → Bool) (s : DropWhileState it.State V) :
    Bool × DropWhileState it.State V :=
  let s := dropWhileStart it p s
  if s.ready = true then (true, s)
  else ((it.hasNext s.it).1, { s with it := (it.hasNext s.it).2 })

theorem drop_while_has (it : Iter V) (p : V → Bool) (s : DropWhileState it.State V) :
    (dropWhileHas it p s).1 = !(dropWhileLeft it p s).isEmpty ∧
      startedLeft it (dropWhileHas it p s).2 = dropWhileLeft it p s ∧
      (dropWhileHas it p s).2.started = true := by
  obtain ⟨same, started⟩ := drop_while_start it p s
  unfold dropWhileHas
  rw [← same]
  simp only
  split_ifs with ready
  · simp [startedLeft, ready, started]
  · simp [startedLeft, ready, started, it.has_answer, it.has_left]

/-- `__DropWhileIterator`. -/
def droppingWhile (it : Iter V) (p : V → Bool) : Iter V where
  State := DropWhileState it.State V
  hasNext s := dropWhileHas it p s
  next s :=
    let (more, s) := dropWhileHas it p s
    if more = false then (none, s)
    else if s.ready = true then (some s.item, { s with ready := false })
    else ((it.next s.it).1, { s with it := (it.next s.it).2 })
  left s := dropWhileLeft it p s
  has_answer s := (drop_while_has it p s).1
  has_left s := by
    obtain ⟨-, same, started⟩ := drop_while_has it p s
    rw [started_left p started, same]
  next_answer s := by
    obtain ⟨answer, same, started⟩ := drop_while_has it p s
    simp only
    rw [answer, ← same]
    split_ifs with ended ready
    · have empty : startedLeft it (dropWhileHas it p s).2 = [] := by simpa using ended
      rw [empty]
      rfl
    · simp [startedLeft, ready]
    · simp [startedLeft, ready, it.next_answer]
  next_left s := by
    obtain ⟨answer, same, started⟩ := drop_while_has it p s
    simp only
    rw [answer, ← same]
    split_ifs with ended ready
    · have empty : startedLeft it (dropWhileHas it p s).2 = [] := by simpa using ended
      rw [started_left p started, empty]
      rfl
    · simp [dropWhileLeft, startedLeft, ready, started]
    · simp [dropWhileLeft, startedLeft, ready, started, it.next_left]

/-! ## `zipWithIndex` -/

structure ZipState (S : Type) where
  it : S
  i : Int

def zipFrom (pair : V → Int → V) : Int → List V → List V
  | _, [] => []
  | i, x :: rest => pair x i :: zipFrom pair (i + 1) rest

/-- `__ZipWithIndexIterator`. -/
def zipped (it : Iter V) (pair : V → Int → V) : Iter V where
  State := ZipState it.State
  hasNext s := ((it.hasNext s.it).1, { s with it := (it.hasNext s.it).2 })
  next s :=
    match (it.next s.it).1 with
    | some x => (some (pair x s.i), ⟨(it.next s.it).2, s.i + 1⟩)
    | none => (none, { s with it := (it.next s.it).2 })
  left s := zipFrom pair s.i (it.left s.it)
  has_answer s := by
    rw [it.has_answer]
    cases it.left s.it <;> rfl
  has_left s := by
    rw [it.has_left]
  next_answer s := by
    rw [it.next_answer]
    cases it.left s.it <;> rfl
  next_left s := by
    have after := it.next_left s.it
    rw [it.next_answer]
    cases left : it.left s.it with
    | nil =>
        rw [left] at after
        simp only [List.head?_nil, after]
        rfl
    | cons x rest =>
        rw [left] at after
        simp only [List.head?_cons, after]
        rfl

/-! ## The calls that are made -/

/-- `calls` lists, from the last function of the pipeline down to the source, what it was
applied to, and `reached` all that reaches it. Once `hasNext` has answered false the object
is quiet: no call makes another call. -/
structure Ledger (it : Iter V) where
  calls : it.State → List (List V)
  reached : List (List V)
  Fair : it.State → Prop
  Quiet : it.State → Prop
  fair_calls : ∀ s, Fair s → List.Forall₂ (fun made all => made <+: all) (calls s) reached
  has_fair : ∀ s, Fair s → Fair (it.hasNext s).2
  next_fair : ∀ s, Fair s → Fair (it.next s).2
  has_quiet : ∀ s, (it.hasNext s).1 = false → Quiet (it.hasNext s).2
  quiet_left : ∀ s, Quiet s → it.left s = []
  quiet_has : ∀ s, Quiet s → calls (it.hasNext s).2 = calls s ∧ Quiet (it.hasNext s).2
  quiet_next : ∀ s, Quiet s → calls (it.next s).2 = calls s ∧ Quiet (it.next s).2

/-- The calls of a function so far are for the elements that are not left any more. -/
structure Fed {it : Iter V} (ledger : Ledger it) (whole : List V) (calls : List V) (s : it.State) :
    Prop where
  fair : ledger.Fair s
  split : calls ++ it.left s = whole

section Fed

variable {it : Iter V} {ledger : Ledger it} {whole calls : List V} {s : it.State}

theorem Fed.has (fed : Fed ledger whole calls s) : Fed ledger whole calls (it.hasNext s).2 :=
  ⟨ledger.has_fair s fed.fair, by rw [it.has_left, fed.split]⟩

theorem Fed.next_some (fed : Fed ledger whole calls s) {x : V} (answer : (it.next s).1 = some x) :
    Fed ledger whole (calls ++ [x]) (it.next s).2 := by
  refine ⟨ledger.next_fair s fed.fair, ?_⟩
  rw [it.next_answer] at answer
  rw [it.next_left, List.append_assoc, List.singleton_append, ← fed.split]
  cases left : it.left s with
  | nil => simp [left] at answer
  | cons y rest =>
      rw [left, List.head?_cons] at answer
      rw [Option.some.inj answer]
      rfl

theorem Fed.next_none (fed : Fed ledger whole calls s) (answer : (it.next s).1 = none) :
    Fed ledger whole calls (it.next s).2 := by
  refine ⟨ledger.next_fair s fed.fair, ?_⟩
  rw [it.next_answer, List.head?_eq_none_iff] at answer
  rw [it.next_left, answer, ← fed.split, answer]
  rfl

theorem Fed.forall (fed : Fed ledger whole calls s) :
    List.Forall₂ (fun made all => made <+: all) (calls :: ledger.calls s)
      (whole :: ledger.reached) :=
  List.Forall₂.cons ⟨it.left s, fed.split⟩ (ledger.fair_calls s fed.fair)

theorem Ledger.quiet_has_answer (ledger : Ledger it) (quiet : ledger.Quiet s) :
    (it.hasNext s).1 = false := by
  rw [it.has_answer, ledger.quiet_left s quiet]
  rfl

theorem Ledger.quiet_next_answer (ledger : Ledger it) (quiet : ledger.Quiet s) :
    (it.next s).1 = none := by
  rw [it.next_answer, ledger.quiet_left s quiet]
  rfl

end Fed

def listLedger (xs : List V) : Ledger (listIterator : Iter V) where
  calls s := [s.consumed]
  reached := [xs]
  Fair s := s.consumed ++ s.rest = xs
  Quiet s := s.rest = []
  fair_calls s fair := List.Forall₂.cons ⟨s.rest, fair⟩ List.Forall₂.nil
  has_fair _ fair := fair
  next_fair := by
    rintro ⟨rest, consumed⟩ fair
    cases rest with
    | nil => exact fair
    | cons h tail => simpa [listIterator] using fair
  has_quiet s ended := by simpa [listIterator] using ended
  quiet_left _ quiet := quiet
  quiet_has _ quiet := ⟨rfl, quiet⟩
  quiet_next := by
    rintro ⟨rest, consumed⟩ quiet
    obtain rfl : rest = [] := quiet
    exact ⟨rfl, rfl⟩

section Ledgers

variable {it : Iter V} (ledger : Ledger it) (whole : List V)

def mappedLedger (f : V → V) : Ledger (mapped it f) where
  calls s := s.calls :: ledger.calls s.it
  reached := whole :: ledger.reached
  Fair s := Fed ledger whole s.calls s.it
  Quiet s := ledger.Quiet s.it
  fair_calls _ fed := fed.forall
  has_fair _ fed := fed.has
  next_fair s fed := by
    simp only [mapped]
    cases answer : (it.next s.it).1 with
    | none => exact fed.next_none answer
    | some x => exact fed.next_some answer
  has_quiet s ended := ledger.has_quiet s.it ended
  quiet_left s quiet := by
    simp [mapped, ledger.quiet_left s.it quiet]
  quiet_has s quiet := by
    obtain ⟨same, still⟩ := ledger.quiet_has s.it quiet
    exact ⟨congrArg (s.calls :: ·) same, still⟩
  quiet_next s quiet := by
    obtain ⟨same, still⟩ := ledger.quiet_next s.it quiet
    simp only [mapped, ledger.quiet_next_answer quiet]
    exact ⟨congrArg (s.calls :: ·) same, still⟩

theorem filtered_loop_fed (p : V → Bool) (keep : Bool) (s : FilteredState it.State V) :
    Fed ledger whole s.calls s.it →
      Fed ledger whole (filteredLoop it p keep s).calls (filteredLoop it p keep s).it := by
  induction s using filteredLoop.induct it p keep with
  | case1 s ready =>
      rw [filteredLoop, if_pos ready]
      exact id
  | case2 s waiting more x taken s' kept ih =>
      intro fed
      rw [filteredLoop, if_neg waiting, dif_pos more, taken]
      simp only
      rw [if_pos kept]
      exact ih (fed.has.next_some taken)
  | case3 s waiting more x taken s' dropped ih =>
      intro fed
      rw [filteredLoop, if_neg waiting, dif_pos more, taken]
      simp only
      rw [if_neg dropped]
      exact ih (fed.has.next_some taken)
  | case4 s waiting more taken =>
      intro fed
      rw [filteredLoop, if_neg waiting, dif_pos more, taken]
      exact fed.has.next_none taken
  | case5 s waiting none_left =>
      intro fed
      rw [filteredLoop, if_neg waiting, dif_neg none_left]
      exact fed.has

theorem filtered_loop_quiet (p : V → Bool) (keep : Bool) (s : FilteredState it.State V) :
    (filteredLoop it p keep s).ready = false → ledger.Quiet (filteredLoop it p keep s).it := by
  induction s using filteredLoop.induct it p keep with
  | case1 s ready =>
      rw [filteredLoop, if_pos ready, ready]
      simp
  | case2 s waiting more x taken s' kept ih =>
      rw [filteredLoop, if_neg waiting, dif_pos more, taken]
      simp only
      rw [if_pos kept]
      exact ih
  | case3 s waiting more x taken s' dropped ih =>
      rw [filteredLoop, if_neg waiting, dif_pos more, taken]
      simp only
      rw [if_neg dropped]
      exact ih
  | case4 s waiting more taken =>
      obtain ⟨y, rest, left, answer, after⟩ := Iter.has_true more
      rw [taken] at answer
      cases answer
  | case5 s waiting none_left =>
      intro _
      rw [filteredLoop, if_neg waiting, dif_neg none_left]
      exact ledger.has_quiet s.it (eq_false_of_ne_true none_left)

theorem filtered_loop_over (p : V → Bool) (keep : Bool) {s : FilteredState it.State V}
    (waiting : s.ready = false) (quiet : ledger.Quiet s.it) :
    filteredLoop it p keep s = { s with it := (it.hasNext s.it).2 } := by
  rw [filteredLoop, if_neg (by simp [waiting]), dif_neg]
  simp [ledger.quiet_has_answer quiet]

def filteredLedger (p : V → Bool) (keep : Bool) : Ledger (filtered it p keep) where
  calls s := s.calls :: ledger.calls s.it
  reached := whole :: ledger.reached
  Fair s := Fed ledger whole s.calls s.it
  Quiet s := s.ready = false ∧ ledger.Quiet s.it
  fair_calls _ fed := fed.forall
  has_fair s fed := filtered_loop_fed ledger whole p keep s fed
  next_fair s fed := by
    have looked := filtered_loop_fed ledger whole p keep s fed
    simp only [filtered]
    split_ifs <;> exact looked
  has_quiet s ended := ⟨ended, filtered_loop_quiet ledger p keep s ended⟩
  quiet_left s quiet := by
    simp [filtered, filteredLeft, quiet.1, ledger.quiet_left s.it quiet.2]
  quiet_has s quiet := by
    obtain ⟨same, still⟩ := ledger.quiet_has s.it quiet.2
    simp only [filtered, filtered_loop_over ledger p keep quiet.1 quiet.2, same]
    exact ⟨trivial, quiet.1, still⟩
  quiet_next s quiet := by
    obtain ⟨same, still⟩ := ledger.quiet_has s.it quiet.2
    simp only [filtered, filtered_loop_over ledger p keep quiet.1 quiet.2, quiet.1,
      Bool.false_eq_true, if_false, same]
    exact ⟨trivial, trivial, still⟩

theorem flat_mapped_loop_fed (f : V → List V) (s : FlatMappedState it.State V) :
    Fed ledger whole s.calls s.it →
      Fed ledger whole (flatMappedLoop it f s).calls (flatMappedLoop it f s).it := by
  induction s using flatMappedLoop.induct it f with
  | case1 s waiting =>
      rw [flatMappedLoop, if_pos waiting]
      exact id
  | case2 s empty more x taken ih =>
      intro fed
      rw [flatMappedLoop, if_neg empty, dif_pos more, taken]
      exact ih (fed.has.next_some taken)
  | case3 s empty more taken =>
      intro fed
      rw [flatMappedLoop, if_neg empty, dif_pos more, taken]
      exact fed.has.next_none taken
  | case4 s empty none_left =>
      intro fed
      rw [flatMappedLoop, if_neg empty, dif_neg none_left]
      exact fed.has

theorem flat_mapped_loop_quiet (f : V → List V) (s : FlatMappedState it.State V) :
    (flatMappedLoop it f s).current = [] → ledger.Quiet (flatMappedLoop it f s).it := by
  induction s using flatMappedLoop.induct it f with
  | case1 s waiting =>
      intro empty
      rw [flatMappedLoop, if_pos waiting] at empty
      simp [empty] at waiting
  | case2 s empty more x taken ih =>
      rw [flatMappedLoop, if_neg empty, dif_pos more, taken]
      exact ih
  | case3 s empty more taken =>
      obtain ⟨y, rest, left, answer, after⟩ := Iter.has_true more
      rw [taken] at answer
      cases answer
  | case4 s empty none_left =>
      intro _
      rw [flatMappedLoop, if_neg empty, dif_neg none_left]
      exact ledger.has_quiet s.it (eq_false_of_ne_true none_left)

theorem flat_mapped_loop_over (f : V → List V) {s : FlatMappedState it.State V}
    (empty : s.current = []) (quiet : ledger.Quiet s.it) :
    flatMappedLoop it f s = { s with it := (it.hasNext s.it).2 } := by
  rw [flatMappedLoop, if_neg (by simp [empty]), dif_neg]
  simp [ledger.quiet_has_answer quiet]

def flatMappedLedger (f : V → List V) : Ledger (flatMapped it f) where
  calls s := s.calls :: ledger.calls s.it
  reached := whole :: ledger.reached
  Fair s := Fed ledger whole s.calls s.it
  Quiet s := s.current = [] ∧ ledger.Quiet s.it
  fair_calls _ fed := fed.forall
  has_fair s fed := flat_mapped_loop_fed ledger whole f s fed
  next_fair s fed := by
    have looked := flat_mapped_loop_fed ledger whole f s fed
    simp only [flatMapped]
    cases (flatMappedLoop it f s).current <;> exact looked
  has_quiet s ended := by
    have empty : (flatMappedLoop it f s).current = [] := by simpa [flatMapped] using ended
    exact ⟨empty, flat_mapped_loop_quiet ledger f s empty⟩
  quiet_left s quiet := by
    simp [flatMapped, flatMappedLeft, quiet.1, ledger.quiet_left s.it quiet.2]
  quiet_has s quiet := by
    obtain ⟨same, still⟩ := ledger.quiet_has s.it quiet.2
    simp only [flatMapped, flat_mapped_loop_over ledger f quiet.1 quiet.2, same]
    exact ⟨trivial, quiet.1, still⟩
  quiet_next s quiet := by
    obtain ⟨same, still⟩ := ledger.quiet_has s.it quiet.2
    simp only [flatMapped, flat_mapped_loop_over ledger f quiet.1 quiet.2, quiet.1, same]
    exact ⟨trivial, trivial, still⟩

def takingLedger : Ledger (taking it) where
  calls s := ledger.calls s.it
  reached := ledger.reached
  Fair s := ledger.Fair s.it
  Quiet s := s.left ≤ 0 ∨ ledger.Quiet s.it
  fair_calls s fair := ledger.fair_calls s.it fair
  has_fair s fair := by
    simp only [taking]
    split_ifs
    · exact ledger.has_fair s.it fair
    · exact fair
  next_fair s fair := by
    simp only [taking]
    split_ifs
    · exact fair
    · exact ledger.next_fair s.it fair
  has_quiet s ended := by
    simp only [taking] at ended ⊢
    split_ifs at ended ⊢ with more
    · exact Or.inr (ledger.has_quiet s.it ended)
    · exact Or.inl (Int.not_lt.mp more)
  quiet_left s quiet := by
    rcases quiet with done | quiet
    · simp [taking, Int.toNat_of_nonpos done]
    · simp [taking, ledger.quiet_left s.it quiet]
  quiet_has s quiet := by
    simp only [taking]
    split_ifs with more
    · rcases quiet with done | quiet
      · omega
      · obtain ⟨same, still⟩ := ledger.quiet_has s.it quiet
        exact ⟨same, Or.inr still⟩
    · exact ⟨rfl, quiet⟩
  quiet_next s quiet := by
    simp only [taking]
    split_ifs with done
    · exact ⟨rfl, quiet⟩
    · obtain ⟨same, still⟩ := ledger.quiet_next s.it (quiet.resolve_left done)
      exact ⟨same, Or.inr still⟩

theorem drop_loop_fair (n k : Int) (s : it.State) :
    ledger.Fair s → ledger.Fair (dropLoop it n k s) := by
  induction k, s using dropLoop.induct it n with
  | case1 k s early more ih =>
      intro fair
      rw [dropLoop, if_pos early, dif_pos more]
      exact ih (ledger.next_fair _ (ledger.has_fair s fair))
  | case2 k s early none_left =>
      intro fair
      rw [dropLoop, if_pos early, dif_neg none_left]
      exact ledger.has_fair s fair
  | case3 k s late =>
      rw [dropLoop, if_neg late]
      exact id

theorem take_while_look_fed (p : V → Bool) {s : TakeWhileState it.State V}
    (fed : Fed ledger whole s.calls s.it) :
    Fed ledger whole (takeWhileLook it p s).calls (takeWhileLook it p s).it := by
  unfold takeWhileLook
  split_ifs with looks more
  · cases taken : (it.next (it.hasNext s.it).2).1 with
    | none => exact fed.has.next_none taken
    | some x =>
        simp only
        split_ifs <;> exact fed.has.next_some taken
  · exact fed.has
  · exact fed

/-- Looking in vain ends the iterator. -/
theorem take_while_look_done (p : V → Bool) {s : TakeWhileState it.State V}
    (waiting : (takeWhileLook it p s).ready = false) : (takeWhileLook it p s).done = true := by
  unfold takeWhileLook at waiting ⊢
  by_cases looks : s.ready = false ∧ s.done = false
  · rw [if_pos looks] at waiting ⊢
    by_cases more : (it.hasNext s.it).1 = true
    · obtain ⟨x, rest, left, answer, after⟩ := Iter.has_true more
      rw [if_pos more, answer] at waiting ⊢
      simp only at waiting ⊢
      by_cases holds : p x = true
      · simp [holds] at waiting
      · simp [holds]
    · rw [if_neg more]
  · rw [if_neg looks] at waiting ⊢
    simpa [waiting] using looks

theorem take_while_look_over (p : V → Bool) {s : TakeWhileState it.State V}
    (done : s.done = true) : takeWhileLook it p s = s := by
  unfold takeWhileLook
  rw [if_neg]
  simp [done]

def takingWhileLedger (p : V → Bool) : Ledger (takingWhile it p) where
  calls s := s.calls :: ledger.calls s.it
  reached := whole :: ledger.reached
  Fair s := Fed ledger whole s.calls s.it
  Quiet s := s.ready = false ∧ s.done = true
  fair_calls _ fed := fed.forall
  has_fair _ fed := take_while_look_fed ledger whole p fed
  next_fair s fed := by
    have looked := take_while_look_fed ledger whole p fed
    simp only [takingWhile]
    split_ifs <;> exact looked
  has_quiet _ ended := ⟨ended, take_while_look_done p ended⟩
  quiet_left s quiet := by
    simp [takingWhile, takeWhileLeft, quiet.1, quiet.2]
  quiet_has s quiet := by
    simp only [takingWhile, take_while_look_over p quiet.2]
    exact ⟨trivial, quiet⟩
  quiet_next s quiet := by
    simp only [takingWhile, take_while_look_over p quiet.2, quiet.1, Bool.false_eq_true, if_false]
    exact ⟨trivial, trivial, quiet.2⟩

theorem drop_while_loop_fed (p : V → Bool) (s : DropWhileState it.State V) :
    Fed ledger whole s.calls s.it →
      Fed ledger whole (dropWhileLoop it p s).calls (dropWhileLoop it p s).it := by
  induction s using dropWhileLoop.induct it p with
  | case1 s more x taken kept =>
      intro fed
      rw [dropWhileLoop, dif_pos more, taken]
      simp only
      rw [if_pos kept]
      exact fed.has.next_some taken
  | case2 s more x taken s' dropped ih =>
      intro fed
      rw [dropWhileLoop, dif_pos more, taken]
      simp only
      rw [if_neg dropped]
      exact ih (fed.has.next_some taken)
  | case3 s more taken =>
      intro fed
      rw [dropWhileLoop, dif_pos more, taken]
      exact fed.has.next_none taken
  | case4 s none_left =>
      intro fed
      rw [dropWhileLoop, dif_neg none_left]
      exact fed.has

/-- Behind the first `hasNext` no more calls are made. -/
structure FedAtStart (s : DropWhileState it.State V) : Prop where
  fair : ledger.Fair s.it
  part : s.calls <+: whole
  fed : s.started = false → Fed ledger whole s.calls s.it

theorem drop_while_start_fed (p : V → Bool) {s : DropWhileState it.State V}
    (fed : FedAtStart ledger whole s) : FedAtStart ledger whole (dropWhileStart it p s) := by
  unfold dropWhileStart
  split_ifs with waiting
  · have looped := drop_while_loop_fed ledger whole p { s with started := true } (fed.fed waiting)
    exact ⟨looped.fair, ⟨_, looped.split⟩, fun _ => looped⟩
  · exact fed

theorem drop_while_has_fed (p : V → Bool) {s : DropWhileState it.State V}
    (fed : FedAtStart ledger whole s) : FedAtStart ledger whole (dropWhileHas it p s).2 := by
  have started := drop_while_start_fed ledger whole p fed
  unfold dropWhileHas
  simp only
  split_ifs
  · exact started
  · exact ⟨ledger.has_fair _ started.fair, started.part, fun waiting => (started.fed waiting).has⟩

theorem drop_while_has_over (p : V → Bool) {s : DropWhileState it.State V}
    (started : s.started = true) (waiting : s.ready = false) :
    dropWhileHas it p s = ((it.hasNext s.it).1, { s with it := (it.hasNext s.it).2 }) := by
  simp [dropWhileHas, dropWhileStart, started, waiting]

def droppingWhileLedger (p : V → Bool) : Ledger (droppingWhile it p) where
  calls s := s.calls :: ledger.calls s.it
  reached := whole :: ledger.reached
  Fair s := FedAtStart ledger whole s
  Quiet s := (s.started = true ∧ s.ready = false) ∧ ledger.Quiet s.it
  fair_calls s fed := List.Forall₂.cons fed.part (ledger.fair_calls s.it fed.fair)
  has_fair _ fed := drop_while_has_fed ledger whole p fed
  next_fair s fed := by
    have looked := drop_while_has_fed ledger whole p fed
    simp only [droppingWhile]
    split_ifs
    · exact looked
    · exact ⟨looked.fair, looked.part, looked.fed⟩
    · refine ⟨ledger.next_fair _ looked.fair, looked.part, fun waiting => ?_⟩
      rw [(drop_while_has it p s).2.2] at waiting
      cases waiting
  has_quiet s ended := by
    have started := (drop_while_start it p s).2
    simp only [droppingWhile, dropWhileHas] at ended ⊢
    split_ifs at ended ⊢ with ready
    exact ⟨⟨started, eq_false_of_ne_true ready⟩, ledger.has_quiet _ ended⟩
  quiet_left s quiet := by
    simp [droppingWhile, dropWhileLeft, startedLeft, quiet.1.1, quiet.1.2,
      ledger.quiet_left s.it quiet.2]
  quiet_has s quiet := by
    obtain ⟨same, still⟩ := ledger.quiet_has s.it quiet.2
    simp only [droppingWhile, drop_while_has_over p quiet.1.1 quiet.1.2, same]
    exact ⟨trivial, quiet.1, still⟩
  quiet_next s quiet := by
    obtain ⟨same, still⟩ := ledger.quiet_has s.it quiet.2
    simp only [droppingWhile, drop_while_has_over p quiet.1.1 quiet.1.2,
      ledger.quiet_has_answer quiet.2, if_true, same]
    exact ⟨trivial, quiet.1, still⟩

def zippedLedger (pair : V → Int → V) : Ledger (zipped it pair) where
  calls s := ledger.calls s.it
  reached := ledger.reached
  Fair s := ledger.Fair s.it
  Quiet s := ledger.Quiet s.it
  fair_calls s fair := ledger.fair_calls s.it fair
  has_fair s fair := ledger.has_fair s.it fair
  next_fair s fair := by
    have kept := ledger.next_fair s.it fair
    simp only [zipped]
    cases (it.next s.it).1 <;> exact kept
  has_quiet s ended := ledger.has_quiet s.it ended
  quiet_left s quiet := by
    simp [zipped, ledger.quiet_left s.it quiet, zipFrom]
  quiet_has s quiet := ledger.quiet_has s.it quiet
  quiet_next s quiet := by
    simp only [zipped, ledger.quiet_next_answer quiet]
    exact ledger.quiet_next s.it quiet

end Ledgers

/-! ## Pipelines -/

inductive Combinator (V : Type) where
  | map (f : V → V)
  | filter (p : V → Bool)
  | filterNot (p : V → Bool)
  | withFilter (p : V → Bool)
  | flatMap (f : V → List V)
  | take (n : Int)
  | drop (n : Int)
  | takeWhile (p : V → Bool)
  | dropWhile (p : V → Bool)
  | zipWithIndex

/-- An iterator in a state in which its calls are accounted for. -/
structure Pipeline (V : Type) where
  it : Iter V
  ledger : Ledger it
  state : it.State
  fair : ledger.Fair state

namespace Pipeline

def elements (P : Pipeline V) : List V := P.it.left P.state

def ofList (xs : List V) : Pipeline V where
  it := listIterator
  ledger := listLedger xs
  state := ⟨xs, []⟩
  fair := List.nil_append xs

theorem fed (P : Pipeline V) : Fed P.ledger P.elements [] P.state :=
  ⟨P.fair, rfl⟩

def filter (P : Pipeline V) (null : V) (p : V → Bool) (keep : Bool) : Pipeline V where
  it := filtered P.it p keep
  ledger := filteredLedger P.ledger P.elements p keep
  state := ⟨P.state, false, null, []⟩
  fair := P.fed

/-- The methods of `Iterator`. -/
def derive (null : V) (pair : V → Int → V) (P : Pipeline V) : Combinator V → Pipeline V
  | .map f =>
      { it := mapped P.it f
        ledger := mappedLedger P.ledger P.elements f
        state := ⟨P.state, []⟩
        fair := P.fed }
  | .filter p => P.filter null p true
  | .filterNot p => P.filter null p false
  | .withFilter p => P.filter null p true
  | .flatMap f =>
      { it := flatMapped P.it f
        ledger := flatMappedLedger P.ledger P.elements f
        state := ⟨P.state, [], []⟩
        fair := P.fed }
  | .take n =>
      { it := taking P.it
        ledger := takingLedger P.ledger
        state := ⟨P.state, n⟩
        fair := P.fair }
  | .drop n =>
      { P with
        state := dropLoop P.it n 0 P.state
        fair := drop_loop_fair P.ledger n 0 P.state P.fair }
  | .takeWhile p =>
      { it := takingWhile P.it p
        ledger := takingWhileLedger P.ledger P.elements p
        state := ⟨P.state, false, false, null, []⟩
        fair := P.fed }
  | .dropWhile p =>
      { it := droppingWhile P.it p
        ledger := droppingWhileLedger P.ledger P.elements p
        state := ⟨P.state, false, false, null, []⟩
        fair := ⟨P.fair, List.nil_prefix, fun _ => P.fed⟩ }
  | .zipWithIndex =>
      { it := zipped P.it pair
        ledger := zippedLedger P.ledger pair
        state := ⟨P.state, 0⟩
        fair := P.fair }

end Pipeline

/-- The same method on a List. -/
def onList (pair : V → Int → V) (xs : List V) : Combinator V → List V
  | .map f => xs.map f
  | .filter p => xs.filter p
  | .filterNot p => xs.filter fun x => !p x
  | .withFilter p => xs.filter p
  | .flatMap f => xs.flatMap f
  | .take n => xs.take n.toNat
  | .drop n => xs.drop n.toNat
  | .takeWhile p => xs.takeWhile p
  | .dropWhile p => xs.dropWhile p
  | .zipWithIndex => xs.zipIdx.map fun (x, i) => pair x i

/-- The elements that reach the function of a method. -/
def argumentsOf (xs : List V) : Combinator V → List (List V)
  | .map _ | .filter _ | .filterNot _ | .withFilter _ | .flatMap _ | .takeWhile _
  | .dropWhile _ => [xs]
  | .take _ | .drop _ | .zipWithIndex => []

theorem zip_from_zip_idx (pair : V → Int → V) (xs : List V) (i : Nat) :
    zipFrom pair i xs = (xs.zipIdx i).map fun (x, i) => pair x i := by
  induction xs generalizing i with
  | nil => rfl
  | cons x rest ih =>
      rw [List.zipIdx_cons, List.map_cons, ← ih]
      rfl

theorem derive_elements (null : V) (pair : V → Int → V) (P : Pipeline V) (c : Combinator V) :
    (P.derive null pair c).elements = onList pair P.elements c := by
  cases c with
  | zipWithIndex => exact zip_from_zip_idx pair P.elements 0
  | drop n =>
      refine (drop_loop P.it n 0 P.state).trans ?_
      rw [Int.sub_zero]
      rfl
  | dropWhile p =>
      simp only [Pipeline.derive, Pipeline.elements, droppingWhile, dropWhileLeft, onList]
      cases (P.it.left P.state).dropWhile p <;> rfl
  | filter p =>
      simp [Pipeline.derive, Pipeline.filter, Pipeline.elements, filtered, filteredLeft, onList]
  | filterNot p =>
      simp [Pipeline.derive, Pipeline.filter, Pipeline.elements, filtered, filteredLeft, onList]
  | withFilter p =>
      simp [Pipeline.derive, Pipeline.filter, Pipeline.elements, filtered, filteredLeft, onList]
  | takeWhile p => rfl
  | _ => rfl

theorem derive_reached (null : V) (pair : V → Int → V) (P : Pipeline V) (c : Combinator V) :
    (P.derive null pair c).ledger.reached = argumentsOf P.elements c ++ P.ledger.reached := by
  cases c <;> rfl

def pipeline (null : V) (pair : V → Int → V) (xs : List V) (cs : List (Combinator V)) :
    Pipeline V :=
  cs.foldl (Pipeline.derive null pair) (Pipeline.ofList xs)

def listPipeline (pair : V → Int → V) (xs : List V) (cs : List (Combinator V)) : List V :=
  cs.foldl (onList pair) xs

/-- What reaches the functions of the pipeline and, last, what the source gives out. -/
def argumentLists (pair : V → Int → V) :
    List V → List (List V) → List (Combinator V) → List (List V)
  | _, below, [] => below
  | xs, below, c :: cs => argumentLists pair (onList pair xs c) (argumentsOf xs c ++ below) cs

theorem pipeline_elements (null : V) (pair : V → Int → V) (P : Pipeline V)
    (cs : List (Combinator V)) :
    (cs.foldl (Pipeline.derive null pair) P).elements = cs.foldl (onList pair) P.elements ∧
      (cs.foldl (Pipeline.derive null pair) P).ledger.reached =
        argumentLists pair P.elements P.ledger.reached cs := by
  induction cs generalizing P with
  | nil => exact ⟨rfl, rfl⟩
  | cons c cs ih =>
      obtain ⟨elements, reached⟩ := ih (P.derive null pair c)
      rw [derive_elements] at elements reached
      rw [derive_reached] at reached
      exact ⟨elements, reached⟩

/-! ## Runs -/

inductive Call where
  | hasNext
  | next

/-- An answer of `hasNext`, or one of `next`. -/
abbrev Answer (V : Type) : Type := Bool ⊕ Option V

def step (it : Iter V) (s : it.State) : Call → Answer V × it.State
  | .hasNext => (Sum.inl (it.hasNext s).1, (it.hasNext s).2)
  | .next => (Sum.inr (it.next s).1, (it.next s).2)

def run (it : Iter V) : it.State → List Call → List (Answer V) × it.State
  | s, [] => ([], s)
  | s, call :: later =>
      let rest := run it (step it s call).2 later
      ((step it s call).1 :: rest.1, rest.2)

/-- What the calls answer when `xs` are the elements to come. -/
def listRun : List V → List Call → List (Answer V)
  | _, [] => []
  | xs, .hasNext :: later => Sum.inl (decide (xs ≠ [])) :: listRun xs later
  | xs, .next :: later => Sum.inr xs.head? :: listRun xs.tail later

theorem run_answers (it : Iter V) (s : it.State) (calls : List Call) :
    (run it s calls).1 = listRun (it.left s) calls := by
  induction calls generalizing s with
  | nil => rfl
  | cons call later ih =>
      cases call with
      | hasNext =>
          simp only [run, step, listRun, ih, it.has_left, it.has_answer]
          cases it.left s <;> rfl
      | next => simp only [run, step, listRun, ih, it.next_left, it.next_answer]

theorem run_fair {it : Iter V} (ledger : Ledger it) {s : it.State} (fair : ledger.Fair s)
    (calls : List Call) : ledger.Fair (run it s calls).2 := by
  induction calls generalizing s with
  | nil => exact fair
  | cons call later ih =>
      cases call with
      | hasNext => exact ih (ledger.has_fair s fair)
      | next => exact ih (ledger.next_fair s fair)

theorem run_quiet {it : Iter V} (ledger : Ledger it) {s : it.State} (quiet : ledger.Quiet s)
    (calls : List Call) : ledger.calls (run it s calls).2 = ledger.calls s := by
  induction calls generalizing s with
  | nil => rfl
  | cons call later ih =>
      cases call with
      | hasNext =>
          obtain ⟨same, still⟩ := ledger.quiet_has s quiet
          exact (ih still).trans same
      | next =>
          obtain ⟨same, still⟩ := ledger.quiet_next s quiet
          exact (ih still).trans same

/-- The calls answer the elements of the same pipeline on a List; a function is applied only to
what reaches it, in order; a `next` that throws changes no later answer, and once `hasNext`
has answered false nothing is applied or consumed any more. -/
theorem iterator_pipelines (null : V) (pair : V → Int → V) (xs : List V)
    (cs : List (Combinator V)) (calls : List Call) :
    let P := pipeline null pair xs cs
    let s := (run P.it P.state calls).2
    (run P.it P.state calls).1 = listRun (listPipeline pair xs cs) calls ∧
      List.Forall₂ (fun made all => made <+: all) (P.ledger.calls s)
        (argumentLists pair xs [xs] cs) ∧
      ((P.it.next s).1 = none → ∀ later,
        (run P.it (P.it.next s).2 later).1 = (run P.it s later).1) ∧
      ((P.it.hasNext s).1 = false → ∀ later,
        P.ledger.calls (run P.it (P.it.hasNext s).2 later).2 =
          P.ledger.calls (P.it.hasNext s).2) := by
  intro P s
  obtain ⟨elements, reached⟩ := pipeline_elements null pair (Pipeline.ofList xs) cs
  refine ⟨?_, ?_, fun ended later => ?_, fun ended later => ?_⟩
  · rw [run_answers]
    exact congrArg (listRun · calls) elements
  · have calls_fair := P.ledger.fair_calls s (run_fair P.ledger P.fair calls)
    exact reached ▸ calls_fair
  · rw [run_answers, run_answers, P.it.next_left]
    rw [P.it.next_answer, List.head?_eq_none_iff] at ended
    rw [ended]
    rfl
  · exact run_quiet P.ledger (P.ledger.has_quiet s ended) later

end ProtoScala.Runtime.Iterators
