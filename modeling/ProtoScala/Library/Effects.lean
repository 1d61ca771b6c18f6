import Mathlib.Tactic.TypeStar
import Mathlib.Tactic.Common

/-!
# Code over a state that answers or throws

`Triple` bounds what a run does from the states that meet its precondition: what it
answers and what it throws, each with the state it ends in.
-/

namespace ProtoScala.Library.Effects

set_option autoImplicit false

def Eff (σ ε α : Type) : Type := σ → Except ε α × σ

namespace Eff

variable {σ ε α β : Type}

def follow (next : α → Eff σ ε β) : Except ε α × σ → Except ε β × σ
  | (.ok result, state) => next result state
  | (.error thrown, state) => (.error thrown, state)

instance : Monad (Eff σ ε) where
  pure result := fun state => (.ok result, state)
  bind first next := fun state => follow next (first state)

def raise (thrown : ε) : Eff σ ε α := fun state => (.error thrown, state)

theorem pure_at (result : α) (state : σ) :
    (pure result : Eff σ ε α) state = (.ok result, state) := rfl

theorem bind_at (first : Eff σ ε α) (next : α → Eff σ ε β) (state : σ) :
    (first >>= next) state = follow next (first state) := rfl

theorem follow_pure (ending : Except ε α × σ) : follow pure ending = ending := by
  obtain ⟨thrown | result, state⟩ := ending <;> rfl

instance : LawfulMonad (Eff σ ε) :=
  LawfulMonad.mk' _
    (fun run => funext fun state => follow_pure (run state))
    (fun _ _ => rfl)
    (fun first next later => by
      funext state
      simp only [bind_at]
      obtain ⟨thrown | result, state⟩ := first state <;> rfl)

/-- What a run ends with. -/
def ends (ok : α → σ → Prop) (bad : ε → σ → Prop) : Except ε α × σ → Prop
  | (.ok result, state) => ok result state
  | (.error thrown, state) => bad thrown state

def Triple (pre : σ → Prop) (run : Eff σ ε α) (ok : α → σ → Prop) (bad : ε → σ → Prop) : Prop :=
  ∀ state, pre state → ends ok bad (run state)

namespace Triple

variable {pre : σ → Prop} {ok ok' : α → σ → Prop} {bad bad' : ε → σ → Prop} {after : β → σ → Prop}

theorem pure {result : α} (holds : ∀ state, pre state → ok result state) :
    Triple pre (Pure.pure result : Eff σ ε α) ok bad := holds

theorem raise {thrown : ε} (holds : ∀ state, pre state → bad thrown state) :
    Triple pre (Eff.raise thrown : Eff σ ε α) ok bad := holds

theorem bind {first : Eff σ ε α} {next : α → Eff σ ε β} (run : Triple pre first ok bad)
    (rest : ∀ result, Triple (ok result) (next result) after bad) :
    Triple pre (first >>= next) after bad := by
  intro state holds
  have ending := run state holds
  rw [bind_at]
  generalize first state = reached at ending ⊢
  obtain ⟨thrown | result, state'⟩ := reached
  · exact ending
  · exact rest result state' ending

theorem assume {fact : Prop} {run : Eff σ ε α} (triple : fact → Triple pre run ok bad) :
    Triple (fun state => fact ∧ pre state) run ok bad :=
  fun state ⟨holds, start⟩ => triple holds state start

theorem weaken {run : Eff σ ε α} (triple : Triple pre run ok bad)
    (result : ∀ value state, ok value state → ok' value state)
    (thrown : ∀ error state, bad error state → bad' error state) : Triple pre run ok' bad' := by
  intro state holds
  have ending := triple state holds
  generalize run state = reached at ending ⊢
  obtain ⟨error | value, state'⟩ := reached
  · exact thrown error state' ending
  · exact result value state' ending

end Triple

end Eff

end ProtoScala.Library.Effects
