import ProtoScala.Runtime.SchedulerClaims

/-!
# Facts that last through a turn

A fact about an actor that its turn alone can disturb: `Free` is what holds while
no turn of the actor is under way, `Busy` what holds at each program counter of
its turn. `TurnRule` asks for the steps one at a time; the claim does the rest.
-/

namespace ProtoScala.Runtime.SchedulerTurns

open ProtoScala.Library.Threads
open ProtoScala.Runtime.ActorScheduler
open ProtoScala.Runtime.SchedulerClaims

set_option autoImplicit false

def turnOf (a : ActorId) : Frame → Bool
  | .turn held _ _ => held == a
  | _ => false

theorem turn_held {a : ActorId} {frame : Frame} (turn : turnOf a frame = true) :
    holds a frame = true := by
  unfold turnOf at turn
  split at turn
  · exact turn
  · contradiction

theorem turn_of_mem {a : ActorId} {frame : Frame} (turn : turnOf a frame = true) :
    ∃ home pc, frame = .turn a home pc := by
  unfold turnOf at turn
  split at turn
  · next held home pc => exact ⟨home, pc, by rw [beq_iff_eq.mp turn]⟩
  · contradiction

/-- While one frame holds the claim no other frame is a turn of the actor. -/
theorem no_other_turn {s : Shared} {frame : Frame} {others : Multiset Frame} {a : ActorId}
    (claims : ClaimedOnce s (frame ::ₘ others)) (held : holds a frame = true) :
    ∀ other ∈ others, turnOf a other = false := by
  have none := (claimed_of_holds claims held).2.1
  rw [holders, Multiset.countP_eq_zero] at none
  intro other member
  by_contra turn
  exact none other member (turn_held (by simpa using turn))

theorem finish_leaves_no_turn (s : Shared) (held a : ActorId) (home : Option Phase)
    (pc : FinishPc) : ∀ left ∈ (finishStep s held home pc).2, turnOf a left = false := by
  have later : ∀ left ∈ back home, turnOf a left = false := by
    cases home <;> simp [back, turnOf]
  have handed : ∀ left ∈ .handoff held (.pendingOf .high) :: back home,
      turnOf a left = false := List.forall_mem_cons.mpr ⟨rfl, later⟩
  unfold finishStep
  repeat' split
  all_goals first
    | exact later
    | exact handed
    | exact List.forall_mem_singleton.mpr rfl

/-- Apart from the turn itself, a holder of the claim only moves the word
`sched` and begins no turn. -/
theorem holder_step {choice : Choice} {s : Shared} {frame : Frame} {a : ActorId}
    (held : holds a frame = true) (other : turnOf a frame = false) :
    (∃ sched, (frameStep choice s frame).1.actors a = { s.actors a with sched := sched }) ∧
      (frameStep choice s frame).1.futures = s.futures ∧
      ∀ left ∈ (frameStep choice s frame).2, turnOf a left = false := by
  cases frame with
  | resume a' pc =>
      cases pc with
      | count => exact ⟨⟨_, rfl⟩, rfl, List.forall_mem_singleton.mpr rfl⟩
      | _ => simp [holds] at held
  | handoff a' pc =>
      simp only [frameStep]
      unfold handoffStep
      repeat' split
      all_goals exact ⟨⟨_, rfl⟩, rfl, by simp [turnOf]⟩
  | turn a' home pc =>
      simp only [holds, turnOf] at held other
      simp [held] at other
  | finish a' home pc =>
      refine ⟨?_, ?_, finish_leaves_no_turn s a' a home pc⟩
      · simp only [frameStep]
        unfold finishStep
        repeat' split
        all_goals first
          | exact ⟨_, rfl⟩
          | (simp only [Shared.setSched, actors_modifyActor]
             split_ifs with same
             · subst same
               exact ⟨_, rfl⟩
             · exact ⟨_, rfl⟩)
      · simp only [frameStep]
        unfold finishStep
        repeat' split
        all_goals rfl
  | _ => simp [holds] at held

/-- A turn that appears for an actor whose claim the frame does not hold has
just been popped. -/
theorem outside_begins {choice : Choice} {s : Shared} {frame : Frame} {a : ActorId}
    (outside : holds a frame = false) {home : Option Phase} {pc : TurnPc}
    (new : .turn a home pc ∈ (frameStep choice s frame).2) : pc = .start := by
  cases kind : ofTurn frame with
  | false =>
      rcases other_leaves choice s frame kind _ new with plain | ⟨a', home', same⟩
      · simp [ofTurn] at plain
      · cases same
        rfl
  | true =>
      cases frame with
      | turn held home' pc' =>
          have different : held ≠ a := by
            rintro rfl
            simp [holds] at outside
          rcases turn_leaves choice s held home' pc' _ new with
            begun | ⟨pc'', same⟩ | same | ⟨home'', same⟩
          · simp [begins] at begun
          · cases same
            exact absurd rfl different
          · cases same
          · cases same
      | finish held home' pc' =>
          have none := finish_leaves_no_turn s held a home' pc' _ new
          simp [turnOf] at none
      | _ => simp [ofTurn] at kind

section

variable (Free : Shared → ActorId → Prop) (Busy : Shared → ActorId → TurnPc → Prop)

/-- What each kind of step has to keep. -/
structure TurnRule : Prop where
  outsideFree : ∀ choice s frame a, holds a frame = false → Free s a →
    Free (frameStep choice s frame).1 a
  outsideBusy : ∀ choice s frame a pc, holds a frame = false → Busy s a pc →
    Busy (frameStep choice s frame).1 a pc
  holder : ∀ choice s frame a, holds a frame = true → turnOf a frame = false → Free s a →
    Free (frameStep choice s frame).1 a
  begins : ∀ s a, Free s a → Busy s a .start
  ended : ∀ choice s a home pc, Busy s a pc →
    (∀ left ∈ (turnStep choice s a home pc).2, turnOf a left = false) →
    Free (turnStep choice s a home pc).1 a
  goes : ∀ choice s a home home' pc pc', Busy s a pc →
    .turn a home' pc' ∈ (turnStep choice s a home pc).2 →
    Busy (turnStep choice s a home pc).1 a pc'

/-- The rule for the steps that meet a condition. -/
structure TurnRuleUnder (met : Choice → Shared → Frame → Bool) : Prop where
  outsideFree : ∀ choice s frame a, met choice s frame = true → holds a frame = false →
    Free s a → Free (frameStep choice s frame).1 a
  outsideBusy : ∀ choice s frame a pc, met choice s frame = true → holds a frame = false →
    Busy s a pc → Busy (frameStep choice s frame).1 a pc
  holder : ∀ choice s frame a, met choice s frame = true → holds a frame = true →
    turnOf a frame = false → Free s a → Free (frameStep choice s frame).1 a
  begins : ∀ s a, Free s a → Busy s a .start
  ended : ∀ choice s a home pc, met choice s (.turn a home pc) = true → Busy s a pc →
    (∀ left ∈ (turnStep choice s a home pc).2, turnOf a left = false) →
    Free (turnStep choice s a home pc).1 a
  goes : ∀ choice s a home home' pc pc', met choice s (.turn a home pc) = true → Busy s a pc →
    .turn a home' pc' ∈ (turnStep choice s a home pc).2 →
    Busy (turnStep choice s a home pc).1 a pc'

structure TurnInvariant (s : Shared) (frames : Multiset Frame) : Prop where
  free : ∀ a, (∀ frame ∈ frames, turnOf a frame = false) → Free s a
  busy : ∀ a home pc, .turn a home pc ∈ frames → Busy s a pc

end

section

variable {Free : Shared → ActorId → Prop} {Busy : Shared → ActorId → TurnPc → Prop}
variable {met : Choice → Shared → Frame → Bool}

theorem turn_rule_under (rule : TurnRule Free Busy) :
    TurnRuleUnder Free Busy (fun _ _ _ => true) where
  outsideFree := fun choice s frame a _ => rule.outsideFree choice s frame a
  outsideBusy := fun choice s frame a pc _ => rule.outsideBusy choice s frame a pc
  holder := fun choice s frame a _ => rule.holder choice s frame a
  begins := rule.begins
  ended := fun choice s a home pc _ => rule.ended choice s a home pc
  goes := fun choice s a home home' pc pc' _ => rule.goes choice s a home home' pc pc'

theorem free_step (rule : TurnRuleUnder Free Busy met) {choice : Choice} {s : Shared}
    {frame : Frame} {others : Multiset Frame} (meets : met choice s frame = true)
    (claims : ClaimedOnce s (frame ::ₘ others))
    (invariant : TurnInvariant Free Busy s (frame ::ₘ others)) {a : ActorId}
    (noTurn : ∀ left ∈ (↑(frameStep choice s frame).2 + others : Multiset Frame),
      turnOf a left = false) : Free (frameStep choice s frame).1 a := by
  cases held : holds a frame with
  | false =>
      refine rule.outsideFree choice s frame a meets held (invariant.free a ?_)
      intro other member
      rcases Multiset.mem_cons.mp member with rfl | old
      · by_contra turn
        simp [turn_held (by simpa using turn)] at held
      · exact noTurn other (Multiset.mem_add.mpr (Or.inr old))
  | true =>
      cases turn : turnOf a frame with
      | false =>
          refine rule.holder choice s frame a meets held turn (invariant.free a ?_)
          intro other member
          rcases Multiset.mem_cons.mp member with rfl | old
          · exact turn
          · exact no_other_turn claims held other old
      | true =>
          obtain ⟨home, pc, rfl⟩ := turn_of_mem turn
          have busy := invariant.busy a home pc (Multiset.mem_cons_self _ _)
          exact rule.ended choice s a home pc meets busy fun left member =>
            noTurn left (Multiset.mem_add.mpr (Or.inl member))

/-- A turn that has just been popped is alone. -/
theorem popped_alone {s : Shared} {left : List Frame} {others : Multiset Frame} {a : ActorId}
    {home : Option Phase} {pc : TurnPc} (claims : ClaimedOnce s (↑left + others))
    (new : .turn a home pc ∈ left) : ∀ other ∈ others, turnOf a other = false := by
  obtain ⟨before, after, split⟩ := List.append_of_mem new
  intro other old
  have swapped : ClaimedOnce s (.turn a home pc ::ₘ (↑(before ++ after) + others)) := by
    rw [split] at claims
    rw [← Multiset.cons_add, Multiset.cons_coe]
    rwa [Multiset.coe_eq_coe.mpr (List.perm_middle.symm)]
  exact no_other_turn swapped (by simp [holds]) other (Multiset.mem_add.mpr (Or.inr old))

theorem busy_step (rule : TurnRuleUnder Free Busy met) {choice : Choice} {s : Shared}
    {frame : Frame} {others : Multiset Frame} (meets : met choice s frame = true)
    (claims : ClaimedOnce s (frame ::ₘ others))
    (invariant : TurnInvariant Free Busy s (frame ::ₘ others)) {a : ActorId}
    {home : Option Phase} {pc : TurnPc}
    (member : .turn a home pc ∈ (↑(frameStep choice s frame).2 + others : Multiset Frame)) :
    Busy (frameStep choice s frame).1 a pc := by
  cases held : holds a frame with
  | false =>
      rcases Multiset.mem_add.mp member with new | old
      · obtain rfl := outside_begins held new
        refine rule.begins _ a (rule.outsideFree choice s frame a meets held (invariant.free a ?_))
        intro other old
        rcases Multiset.mem_cons.mp old with rfl | old
        · by_contra turn
          simp [turn_held (by simpa using turn)] at held
        · exact popped_alone (claimed_once_step choice s frame others claims) new other old
      · exact rule.outsideBusy choice s frame a pc meets held
          (invariant.busy a home pc (Multiset.mem_cons_of_mem old))
  | true =>
      rcases Multiset.mem_add.mp member with new | old
      · cases turn : turnOf a frame with
        | false =>
            have none := (holder_step held turn).2.2 _ new
            simp [turnOf] at none
        | true =>
            obtain ⟨home', pc', rfl⟩ := turn_of_mem turn
            have busy := invariant.busy a home' pc' (Multiset.mem_cons_self _ _)
            exact rule.goes choice s a home' home pc' pc meets busy new
      · have none := no_other_turn claims held _ old
        simp [turnOf] at none

/-- The rule keeps the invariant through every step that meets the condition. -/
theorem turn_invariant_step_under (rule : TurnRuleUnder Free Busy met) (choice : Choice)
    (s : Shared) (frame : Frame) (others : Multiset Frame) (meets : met choice s frame = true)
    (claims : ClaimedOnce s (frame ::ₘ others))
    (invariant : TurnInvariant Free Busy s (frame ::ₘ others)) :
    TurnInvariant Free Busy (frameStep choice s frame).1
      (↑(frameStep choice s frame).2 + others) :=
  ⟨fun _ noTurn => free_step rule meets claims invariant noTurn,
    fun _ _ _ member => busy_step rule meets claims invariant member⟩

/-- The rule keeps the invariant through every step. -/
theorem turn_invariant_step (rule : TurnRule Free Busy) (choice : Choice) (s : Shared)
    (frame : Frame) (others : Multiset Frame) (claims : ClaimedOnce s (frame ::ₘ others))
    (invariant : TurnInvariant Free Busy s (frame ::ₘ others)) :
    TurnInvariant Free Busy (frameStep choice s frame).1
      (↑(frameStep choice s frame).2 + others) :=
  turn_invariant_step_under (turn_rule_under rule) choice s frame others rfl claims invariant

theorem turn_invariant_initial (states : ActorId → Ref) (workers programs : Nat)
    (start : ∀ a, Free (initial states workers programs).shared a) :
    TurnInvariant Free Busy (initial states workers programs).shared
      (initial states workers programs).frames := by
  refine ⟨fun a _ => start a, ?_⟩
  intro a home pc member
  rcases initial_frames states workers programs _ member with same | same <;> cases same

/-- The rule and the initial state give the invariant after every schedule whose
steps meet the condition. -/
theorem reached_turn_invariant_under (rule : TurnRuleUnder Free Busy met)
    (states : ActorId → Ref) (workers programs : Nat)
    (start : ∀ a, Free (initial states workers programs).shared a)
    {schedule : List (Nat × Choice)}
    (meets : (initial states workers programs).meets frameStep met schedule = true) :
    TurnInvariant Free Busy (reached states workers programs schedule).shared
      (reached states workers programs schedule).frames := by
  have both := run_invariant_meeting frameStep met
    (fun s frames => ClaimedOnce s frames ∧ TurnInvariant Free Busy s frames)
    (fun choice s frame others meets before =>
      ⟨claimed_once_step choice s frame others before.1,
        turn_invariant_step_under rule choice s frame others meets before.1 before.2⟩)
    ⟨initial_claimed_once states workers programs,
      turn_invariant_initial states workers programs start⟩ meets
  exact both.2

/-- The rule and the initial state give the invariant in every reachable state. -/
theorem reached_turn_invariant (rule : TurnRule Free Busy) (states : ActorId → Ref)
    (workers programs : Nat) (start : ∀ a, Free (initial states workers programs).shared a)
    (schedule : List (Nat × Choice)) :
    TurnInvariant Free Busy (reached states workers programs schedule).shared
      (reached states workers programs schedule).frames := by
  apply reached_turn_invariant_under (turn_rule_under rule) states workers programs start
  rw [← admits_eq_meets frameStep (fun _ _ => true)]
  exact admits_every frameStep _ schedule

end

end ProtoScala.Runtime.SchedulerTurns
