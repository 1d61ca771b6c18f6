import Mathlib.Data.List.Basic
import Mathlib.Data.List.Infix

/-!
# Searching a list for a list

`find` and `rfind` as of `std::string`: the first occurrence at or behind a position, and the
last one at or before it. Cutting a list at the occurrences found one after the other gives
pieces that hold none.
-/

namespace ProtoScala.Library.Searching

set_option autoImplicit false

variable {α : Type}

/-- `t` stands in `s` from place `i` on. -/
def OccursAt (t s : List α) (i : Nat) : Prop := t <+: s.drop i

theorem occurs_inside {t s : List α} {i : Nat} (some_items : t ≠ []) (occurs : OccursAt t s i) :
    i + t.length ≤ s.length := by
  have length := occurs.length_le
  have positive := List.length_pos_iff.mpr some_items
  rw [List.length_drop] at length
  omega

theorem occurs_drop {t s : List α} {start i : Nat} :
    OccursAt t (s.drop start) i ↔ OccursAt t s (start + i) := by
  rw [OccursAt, OccursAt, List.drop_drop]

theorem occurs_of_infix {t s : List α} (inside : t <:+: s) :
    ∃ j, j ≤ s.length ∧ OccursAt t s j := by
  obtain ⟨before, behind, rfl⟩ := inside
  refine ⟨before.length, ?_, behind, ?_⟩
  · simp only [List.length_append]
    omega
  · rw [List.append_assoc, List.drop_left]

variable [DecidableEq α]

/-- The place of the first occurrence. -/
def firstAt (t : List α) : List α → Option Nat
  | [] => if t.isPrefixOf [] then some 0 else none
  | x :: rest => if t.isPrefixOf (x :: rest) then some 0 else (firstAt t rest).map (· + 1)

/-- The first occurrence at or behind `start`. -/
def find (s t : List α) (start : Nat) : Option Nat :=
  if start ≤ s.length then (firstAt t (s.drop start)).map (start + ·) else none

/-- The last occurrence at or before a place. -/
def lastAt (s t : List α) : Nat → Option Nat
  | 0 => if t.isPrefixOf s then some 0 else none
  | i + 1 => if t.isPrefixOf (s.drop (i + 1)) then some (i + 1) else lastAt s t i

def rfind (s t : List α) (pos : Nat) : Option Nat :=
  if t.length ≤ s.length then lastAt s t (min (s.length - t.length) pos) else none

theorem first_at_cons (t : List α) (x : α) (rest : List α) :
    firstAt t (x :: rest) =
      if t.isPrefixOf (x :: rest) then some 0 else (firstAt t rest).map (· + 1) := rfl

theorem first_at_some {t s : List α} {i : Nat} :
    firstAt t s = some i ↔
      i ≤ s.length ∧ OccursAt t s i ∧ ∀ j, j < i → ¬OccursAt t s j := by
  induction s generalizing i with
  | nil =>
      rw [firstAt]
      split_ifs with here
      · have occurs := List.isPrefixOf_iff_prefix.mp here
        constructor
        · rintro ⟨⟩
          exact ⟨Nat.le_refl _, occurs, fun j before => absurd before (Nat.not_lt_zero j)⟩
        · rintro ⟨bound, -⟩
          rw [Nat.le_zero.mp bound]
      · refine iff_of_false (fun found => nomatch found) fun found => here ?_
        have occurs := found.2.1
        rw [OccursAt, List.drop_nil] at occurs
        exact List.isPrefixOf_iff_prefix.mpr occurs
  | cons x rest induction =>
      rw [first_at_cons]
      split_ifs with here
      · have occurs : OccursAt t (x :: rest) 0 := List.isPrefixOf_iff_prefix.mp here
        constructor
        · rintro ⟨⟩
          exact ⟨Nat.zero_le _, occurs, fun j before => absurd before (Nat.not_lt_zero j)⟩
        · rintro ⟨-, -, first⟩
          rcases Nat.eq_zero_or_pos i with rfl | behind
          · rfl
          · exact absurd occurs (first 0 behind)
      · have not_here : ¬OccursAt t (x :: rest) 0 := fun occurs =>
          here (List.isPrefixOf_iff_prefix.mpr occurs)
        cases i with
        | zero =>
            refine iff_of_false (fun found => ?_) fun found => not_here found.2.1
            cases later : firstAt t rest <;> rw [later] at found <;> cases found
        | succ i =>
            have shifted : (firstAt t rest).map (· + 1) = some (i + 1) ↔
                firstAt t rest = some i := by
              cases firstAt t rest <;> simp
            rw [shifted, induction, List.length_cons]
            refine and_congr Nat.succ_le_succ_iff.symm (and_congr Iff.rfl ?_)
            constructor
            · intro first j before
              cases j with
              | zero => exact not_here
              | succ j => exact first j (Nat.lt_of_succ_lt_succ before)
            · exact fun first j before => first (j + 1) (Nat.succ_lt_succ before)

theorem first_at_none {t s : List α} :
    firstAt t s = none ↔ ∀ j, j ≤ s.length → ¬OccursAt t s j := by
  constructor
  · intro absent j inside occurs
    induction s generalizing j with
    | nil =>
        rw [OccursAt, List.drop_nil] at occurs
        rw [firstAt, if_pos (List.isPrefixOf_iff_prefix.mpr occurs)] at absent
        cases absent
    | cons x rest induction =>
        rw [first_at_cons] at absent
        split_ifs at absent with here
        rw [Option.map_eq_none_iff] at absent
        cases j with
        | zero => exact here (List.isPrefixOf_iff_prefix.mpr occurs)
        | succ j => exact induction absent j (Nat.le_of_succ_le_succ inside) occurs
  · intro absent
    cases found : firstAt t s with
    | none => rfl
    | some i =>
        obtain ⟨inside, occurs, -⟩ := first_at_some.mp found
        exact absurd occurs (absent i inside)

theorem find_some {s t : List α} {start i : Nat} :
    find s t start = some i ↔
      start ≤ i ∧ i ≤ s.length ∧ OccursAt t s i ∧
        ∀ j, start ≤ j → j < i → ¬OccursAt t s j := by
  unfold find
  split_ifs with inside
  · constructor
    · intro found
      obtain ⟨k, first, rfl⟩ := Option.map_eq_some_iff.mp found
      obtain ⟨bound, occurs, least⟩ := first_at_some.mp first
      rw [List.length_drop] at bound
      refine ⟨Nat.le_add_right _ _, by omega, occurs_drop.mp occurs, fun j behind before at_j => ?_⟩
      refine least (j - start) (by omega) (occurs_drop.mpr ?_)
      rwa [Nat.add_sub_cancel' behind]
    · rintro ⟨behind, bound, occurs, least⟩
      refine Option.map_eq_some_iff.mpr ⟨i - start, first_at_some.mpr ⟨?_, ?_, ?_⟩, by omega⟩
      · rw [List.length_drop]
        omega
      · exact occurs_drop.mpr (by rwa [Nat.add_sub_cancel' behind])
      · exact fun j before at_j => least (start + j) (Nat.le_add_right _ _) (by omega)
          (occurs_drop.mp at_j)
  · refine iff_of_false (fun found => nomatch found) fun found => ?_
    have := found.1
    have := found.2.1
    omega

theorem find_none {s t : List α} {start : Nat} (absent : find s t start = none) :
    ∀ j, start ≤ j → j ≤ s.length → ¬OccursAt t s j := by
  intro j behind inside occurs
  unfold find at absent
  rw [if_pos (Nat.le_trans behind inside), Option.map_eq_none_iff, first_at_none] at absent
  refine absent (j - start) (by rw [List.length_drop]; omega) (occurs_drop.mpr ?_)
  rwa [Nat.add_sub_cancel' behind]

theorem last_at_some {s t : List α} {pos i : Nat} :
    lastAt s t pos = some i ↔
      i ≤ pos ∧ OccursAt t s i ∧ ∀ j, i < j → j ≤ pos → ¬OccursAt t s j := by
  induction pos with
  | zero =>
      rw [lastAt]
      split_ifs with here
      · constructor
        · rintro ⟨⟩
          exact ⟨Nat.le_refl _, List.isPrefixOf_iff_prefix.mp here, fun j _ _ _ => by omega⟩
        · rintro ⟨bound, -⟩
          rw [Nat.le_zero.mp bound]
      · refine iff_of_false (fun found => nomatch found) fun ⟨bound, occurs, _⟩ => here ?_
        rw [Nat.le_zero.mp bound] at occurs
        exact List.isPrefixOf_iff_prefix.mpr occurs
  | succ pos induction =>
      rw [lastAt]
      split_ifs with here
      · have occurs : OccursAt t s (pos + 1) := List.isPrefixOf_iff_prefix.mp here
        constructor
        · rintro ⟨⟩
          exact ⟨Nat.le_refl _, occurs, fun j _ _ _ => by omega⟩
        · rintro ⟨bound, -, last⟩
          rcases Nat.lt_or_ge i (pos + 1) with before | whole
          · exact absurd occurs (last (pos + 1) before (Nat.le_refl _))
          · rw [Nat.le_antisymm bound whole]
      · have not_here : ¬OccursAt t s (pos + 1) := fun occurs =>
          here (List.isPrefixOf_iff_prefix.mpr occurs)
        rw [induction]
        constructor
        · rintro ⟨bound, occurs, last⟩
          refine ⟨Nat.le_succ_of_le bound, occurs, fun j behind inside at_j => ?_⟩
          rcases Nat.lt_or_ge j (pos + 1) with before | whole
          · exact last j behind (Nat.le_of_lt_succ before) at_j
          · exact not_here (Nat.le_antisymm inside whole ▸ at_j)
        · rintro ⟨bound, occurs, last⟩
          have before : i ≠ pos + 1 := fun same => not_here (same ▸ occurs)
          exact ⟨by omega, occurs, fun j behind inside =>
            last j behind (Nat.le_succ_of_le inside)⟩

theorem rfind_some {s t : List α} (some_items : t ≠ []) {pos i : Nat} :
    rfind s t pos = some i ↔
      i ≤ pos ∧ OccursAt t s i ∧ ∀ j, i < j → j ≤ pos → ¬OccursAt t s j := by
  unfold rfind
  split_ifs with fits
  · rw [last_at_some]
    constructor
    · rintro ⟨bound, occurs, last⟩
      refine ⟨by omega, occurs, fun j behind before at_j => ?_⟩
      have inside := occurs_inside some_items at_j
      exact last j behind (by omega) at_j
    · rintro ⟨bound, occurs, last⟩
      have inside := occurs_inside some_items occurs
      exact ⟨by omega, occurs, fun j behind before => last j behind (by omega)⟩
  · refine iff_of_false (fun found => nomatch found) fun found => ?_
    have inside := occurs_inside some_items found.2.1
    omega

theorem last_at_none {s t : List α} {pos : Nat} (absent : lastAt s t pos = none) :
    ∀ j, j ≤ pos → ¬OccursAt t s j := by
  induction pos with
  | zero =>
      intro j inside occurs
      rw [Nat.le_zero.mp inside, OccursAt, List.drop_zero] at occurs
      rw [lastAt, if_pos (List.isPrefixOf_iff_prefix.mpr occurs)] at absent
      cases absent
  | succ pos induction =>
      intro j inside occurs
      rw [lastAt] at absent
      split_ifs at absent with here
      rcases Nat.lt_or_ge j (pos + 1) with before | whole
      · exact induction absent j (Nat.le_of_lt_succ before) occurs
      · rw [Nat.le_antisymm inside whole] at occurs
        exact here (List.isPrefixOf_iff_prefix.mpr occurs)

theorem rfind_none {s t : List α} (some_items : t ≠ []) {pos : Nat} (absent : rfind s t pos = none) :
    ∀ j, j ≤ pos → ¬OccursAt t s j := by
  intro j before occurs
  have inside := occurs_inside some_items occurs
  unfold rfind at absent
  rw [if_pos (by omega)] at absent
  exact last_at_none absent j (by omega) occurs

/-- The empty list stands everywhere. -/
theorem rfind_nil (s : List α) (pos : Nat) : rfind s [] pos = some (min s.length pos) := by
  unfold rfind
  rw [List.length_nil, if_pos (Nat.zero_le _), Nat.sub_zero]
  cases min s.length pos <;> simp [lastAt]

/-! ## Cutting -/

theorem cut_shorter {s t : List α} (some_items : t ≠ []) {start i : Nat}
    (found : find s t start = some i) : s.length + 1 - (i + t.length) < s.length + 1 - start := by
  obtain ⟨behind, inside, -⟩ := find_some.mp found
  have positive := List.length_pos_iff.mpr some_items
  omega

/-- The pieces between the occurrences found one after the other, from `start` on. -/
def piecesFrom (s t : List α) (some_items : t ≠ []) (start : Nat) : List (List α) :=
  match _found : find s t start with
  | none => [s.drop start]
  | some i => (s.drop start).take (i - start) :: piecesFrom s t some_items (i + t.length)
termination_by s.length + 1 - start
decreasing_by exact cut_shorter some_items _found

/-- The same with `u` where an occurrence was. -/
def replacedFrom (s t u : List α) (some_items : t ≠ []) (start : Nat) : List α :=
  match _found : find s t start with
  | none => s.drop start
  | some i => (s.drop start).take (i - start) ++ u ++ replacedFrom s t u some_items (i + t.length)
termination_by s.length + 1 - start
decreasing_by exact cut_shorter some_items _found

theorem pieces_none {s t : List α} (some_items : t ≠ []) {start : Nat}
    (absent : find s t start = none) : piecesFrom s t some_items start = [s.drop start] := by
  rw [piecesFrom]
  split
  · rfl
  · next found => rw [absent] at found; cases found

theorem pieces_some {s t : List α} (some_items : t ≠ []) {start i : Nat}
    (found : find s t start = some i) :
    piecesFrom s t some_items start =
      (s.drop start).take (i - start) :: piecesFrom s t some_items (i + t.length) := by
  rw [piecesFrom]
  split
  · next absent => rw [found] at absent; cases absent
  · next other => rw [found] at other; cases other; rfl

theorem replaced_none {s t u : List α} (some_items : t ≠ []) {start : Nat}
    (absent : find s t start = none) : replacedFrom s t u some_items start = s.drop start := by
  rw [replacedFrom]
  split
  · rfl
  · next found => rw [absent] at found; cases found

theorem replaced_some {s t u : List α} (some_items : t ≠ []) {start i : Nat}
    (found : find s t start = some i) :
    replacedFrom s t u some_items start =
      (s.drop start).take (i - start) ++ u ++ replacedFrom s t u some_items (i + t.length) := by
  rw [replacedFrom]
  split
  · next absent => rw [found] at absent; cases absent
  · next other => rw [found] at other; cases other; rfl

theorem pieces_ne_nil {s t : List α} (some_items : t ≠ []) (start : Nat) :
    piecesFrom s t some_items start ≠ [] := by
  cases found : find s t start with
  | none => rw [pieces_none some_items found]; exact List.cons_ne_nil _ _
  | some i => rw [pieces_some some_items found]; exact List.cons_ne_nil _ _

/-- Where an occurrence was found, the rest is a piece, the occurrence and a shorter rest. -/
theorem drop_found {s t : List α} {start i : Nat} (found : find s t start = some i) :
    s.drop start = (s.drop start).take (i - start) ++ t ++ s.drop (i + t.length) := by
  obtain ⟨behind, -, ⟨rest, split⟩, -⟩ := find_some.mp found
  have left : (s.drop start).drop (i - start) = t ++ rest := by
    rw [List.drop_drop, Nat.add_sub_cancel' behind, split]
  have right : s.drop (i + t.length) = rest := by
    rw [← List.drop_drop, ← split, List.drop_left]
  calc s.drop start = (s.drop start).take (i - start) ++ (s.drop start).drop (i - start) :=
        (List.take_append_drop _ _).symm
    _ = _ := by rw [left, right, List.append_assoc]

theorem join_pieces {s t : List α} (some_items : t ≠ []) (start : Nat) :
    t.intercalate (piecesFrom s t some_items start) = s.drop start := by
  cases found : find s t start with
  | none => rw [pieces_none some_items found, List.intercalate_singleton]
  | some i =>
      rw [pieces_some some_items found,
        List.intercalate_cons_of_ne_nil (pieces_ne_nil some_items _),
        join_pieces some_items (i + t.length), ← drop_found found]
termination_by s.length + 1 - start
decreasing_by exact cut_shorter some_items found

theorem join_replaced {s t u : List α} (some_items : t ≠ []) (start : Nat) :
    replacedFrom s t u some_items start = u.intercalate (piecesFrom s t some_items start) := by
  cases found : find s t start with
  | none =>
      rw [pieces_none some_items found, replaced_none some_items found, List.intercalate_singleton]
  | some i =>
      rw [pieces_some some_items found, replaced_some some_items found,
        List.intercalate_cons_of_ne_nil (pieces_ne_nil some_items _),
        join_replaced some_items (i + t.length)]
termination_by s.length + 1 - start
decreasing_by exact cut_shorter some_items found

theorem piece_clear {s t : List α} (some_items : t ≠ []) (start : Nat) :
    ∀ piece ∈ piecesFrom s t some_items start, ¬t <:+: piece := by
  cases found : find s t start with
  | none =>
      rw [pieces_none some_items found]
      intro piece member inside
      rw [List.mem_singleton.mp member] at inside
      obtain ⟨j, bound, occurs⟩ := occurs_of_infix inside
      have place := occurs_inside some_items (occurs_drop.mp occurs)
      exact find_none found (start + j) (Nat.le_add_right _ _) (by omega) (occurs_drop.mp occurs)
  | some i =>
      rw [pieces_some some_items found]
      intro piece member inside
      rcases List.mem_cons.mp member with rfl | later
      · obtain ⟨j, -, occurs⟩ := occurs_of_infix inside
        obtain ⟨behind, -, -, first⟩ := find_some.mp found
        have place := occurs_inside some_items occurs
        have positive := List.length_pos_iff.mpr some_items
        rw [List.length_take] at place
        have whole : OccursAt t (s.drop start) j :=
          occurs.trans ((List.take_prefix _ _).drop j)
        exact first (start + j) (Nat.le_add_right _ _) (by omega) (occurs_drop.mp whole)
      · exact piece_clear some_items (i + t.length) piece later inside
termination_by s.length + 1 - start
decreasing_by exact cut_shorter some_items found

end ProtoScala.Library.Searching
