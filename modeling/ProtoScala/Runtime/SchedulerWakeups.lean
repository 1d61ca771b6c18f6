import ProtoScala.Runtime.SchedulerClaims

/-!
# No message is left behind

A sender pushes before it looks at `sched`; a worker scans the mailboxes before
it gives the claim up. While the worker still holds an unmarked claim, a message
in a band it has already scanned comes with a sender that has not looked yet.
-/

namespace ProtoScala.Runtime.SchedulerWakeups

open ProtoScala.Library.Threads
open ProtoScala.Runtime.ActorScheduler
open ProtoScala.Runtime.SchedulerClaims

set_option autoImplicit false

/-- A sender between its push and the end of its claim loop. -/
def announces (a : ActorId) : Frame → Bool
  | .send held _ .load => held == a
  | .send held _ .claim => held == a
  | .send held _ .mark => held == a
  | _ => false

def Announced (frames : Multiset Frame) (a : ActorId) : Prop :=
  ∃ frame ∈ frames, announces a frame = true

/-- A message of the band waits: in the mailbox, or in the last batch past
`pendingIdx`. -/
def Queued (actor : Actor) (b : Band) : Prop :=
  actor.leftover b ≠ [] ∨ actor.mailbox b ≠ []

def Drained (actor : Actor) (bands : Nat) : Prop :=
  ∀ b : Band, b.rank < bands → ¬Queued actor b

/-- The bands `hasWork` has been through. -/
def scannedBands : FinishPc → Nat
  | .pendingOf _ b => b.rank
  | .mailboxOf _ b => b.rank
  | .release _ => 3
  | _ => 0

/-- The band whose pending list `hasWork` has read and whose mailbox it has
not. -/
def halfScanned : FinishPc → Option Band
  | .mailboxOf _ b => some b
  | _ => none

/-- Under an unmarked claim, what `hasWork` has been through is empty unless a
sender is about to mark the claim. -/
def ScanSound (s : Shared) (frames : Multiset Frame) : Frame → Prop
  | .finish a _ pc =>
      (∀ b ∈ halfScanned pc, (s.actors a).leftover b = []) ∧
        (s.sched a = .claimed → Announced frames a ∨ Drained (s.actors a) (scannedBands pc))
  | _ => True

structure Awake (s : Shared) (frames : Multiset Frame) : Prop where
  claims : ClaimedOnce s frames
  idle : ∀ a, s.sched a = .idle → Announced frames a ∨ Drained (s.actors a) 3
  scans : ∀ frame ∈ frames, ScanSound s frames frame

theorem drained_congr {actor actor' : Actor} (left : actor'.leftover = actor.leftover)
    (mail : actor'.mailbox = actor.mailbox) {bands : Nat} (drained : Drained actor bands) :
    Drained actor' bands := by
  intro b lower
  rw [Queued, left, mail]
  exact drained b lower

theorem announces_send {a : ActorId} {frame : Frame} (announcing : announces a frame = true) :
    ∃ b pc, frame = .send a b pc := by
  unfold announces at announcing
  split at announcing
  · next held b => exact ⟨b, .load, by rw [beq_iff_eq.mp announcing]⟩
  · next held b => exact ⟨b, .claim, by rw [beq_iff_eq.mp announcing]⟩
  · next held b => exact ⟨b, .mark, by rw [beq_iff_eq.mp announcing]⟩
  · contradiction

/-- A sender stays in its loop while the word it looks at is idle or claimed and
does not change. -/
theorem announced_persists {choice : Choice} {s : Shared} {frame : Frame}
    {others : Multiset Frame} {a : ActorId} (announced : Announced (frame ::ₘ others) a)
    (same : (frameStep choice s frame).1.sched a = s.sched a)
    (open_ : s.sched a = .idle ∨ s.sched a = .claimed) :
    Announced (↑(frameStep choice s frame).2 + others) a := by
  obtain ⟨sender, member, announcing⟩ := announced
  rcases Multiset.mem_cons.mp member with rfl | other
  · obtain ⟨b, pc, rfl⟩ := announces_send announcing
    have stays : ∃ left ∈ (frameStep choice s (.send a b pc)).2, announces a left = true := by
      simp only [frameStep] at same ⊢
      cases pc with
      | push env => simp [announces] at announcing
      | load =>
          rw [sendStep]
          rcases open_ with idle | claimed
          · simp [idle, announces]
          · simp [claimed, announces]
      | claim =>
          rw [sendStep] at same ⊢
          split_ifs at same ⊢ with idle
          · rw [sched_setSched, if_pos rfl, idle] at same
            contradiction
          · simp [announces]
      | mark =>
          rw [sendStep] at same ⊢
          split_ifs at same ⊢ with claimed
          · rw [sched_setSched, if_pos rfl, claimed] at same
            contradiction
          · simp [announces]
    obtain ⟨left, leftMember, announcing⟩ := stays
    exact ⟨left, Multiset.mem_add.mpr (Or.inl leftMember), announcing⟩
  · exact ⟨sender, Multiset.mem_add.mpr (Or.inr other), announcing⟩

/-- A call without the claim cannot make the actor idle, nor undo a mark. -/
theorem outside_sched {choice : Choice} {s : Shared} {frame : Frame} {a : ActorId}
    (outside : holds a frame = false) :
    ((frameStep choice s frame).1.sched a = .idle → s.sched a = .idle) ∧
      ((frameStep choice s frame).1.sched a = .claimed → claimsOf (s.sched a) = 1 →
        s.sched a = .claimed) := by
  have change := outside_step choice s frame a outside
  unfold Shared.sched
  generalize (frameStep choice s frame).1.actors a = after at change
  cases change with
  | same => exact ⟨id, fun claimed _ => claimed⟩
  | pushed b env sender => exact ⟨id, fun claimed _ => claimed⟩
  | claimed free => simp [free, claimsOf]
  | woken parked => simp [parked, claimsOf]
  | marked taken => simp

/-- A call without the claim queues a message only together with its sender. -/
theorem outside_drained {choice : Choice} {s : Shared} {frame : Frame}
    {others : Multiset Frame} {a : ActorId} (outside : holds a frame = false)
    (same : (frameStep choice s frame).1.sched a = s.sched a)
    (open_ : s.sched a = .idle ∨ s.sched a = .claimed) {bands : Nat}
    (sound : Announced (frame ::ₘ others) a ∨ Drained (s.actors a) bands) :
    Announced (↑(frameStep choice s frame).2 + others) a ∨
      Drained ((frameStep choice s frame).1.actors a) bands := by
  rcases sound with announced | drained
  · exact Or.inl (announced_persists announced same open_)
  · have change := outside_step choice s frame a outside
    have word : ((frameStep choice s frame).1.actors a).sched = (s.actors a).sched := same
    generalize equation : (frameStep choice s frame).1.actors a = after at change word
    cases change with
    | same => exact Or.inr drained
    | pushed b env sender =>
        subst sender
        refine Or.inl ⟨.send a b .load, ?_, by simp [announces]⟩
        simp [frameStep, sendStep]
    | claimed free => simp [free] at word
    | woken parked => simp [parked] at word
    | marked taken => simp [taken] at word

theorem outside_leftover {choice : Choice} {s : Shared} {frame : Frame} {a : ActorId}
    (outside : holds a frame = false) :
    ((frameStep choice s frame).1.actors a).leftover = (s.actors a).leftover := by
  have change := outside_step choice s frame a outside
  generalize (frameStep choice s frame).1.actors a = after at change
  cases change <;> rfl

/-- A frame of `finishTurn` announces nothing, so the sender is another. -/
theorem announced_of_other {frame : Frame} {left : List Frame} {others : Multiset Frame}
    {a : ActorId} (quiet : announces a frame = false)
    (announced : Announced (frame ::ₘ others) a) : Announced (↑left + others) a := by
  obtain ⟨sender, member, announcing⟩ := announced
  rcases Multiset.mem_cons.mp member with rfl | other
  · simp [quiet] at announcing
  · exact ⟨sender, Multiset.mem_add.mpr (Or.inr other), announcing⟩

theorem idle_step (choice : Choice) (s : Shared) (frame : Frame) (others : Multiset Frame)
    (awake : Awake s (frame ::ₘ others)) (a : ActorId)
    (idle : (frameStep choice s frame).1.sched a = .idle) :
    Announced (↑(frameStep choice s frame).2 + others) a ∨
      Drained ((frameStep choice s frame).1.actors a) 3 := by
  cases held : holds a frame with
  | false =>
      have before := (outside_sched held).1 idle
      exact outside_drained held (idle.trans before.symm) (Or.inl before) (awake.idle a before)
  | true =>
      obtain ⟨home, loaded, rfl, equal⟩ :=
        (holder_gives_up held (claimed_of_holds awake.claims held).2.2).1 idle
      have scans := awake.claims.scans _ (Multiset.mem_cons_self _ _)
      obtain rfl : loaded = .claimed := by simpa [scansClaimed] using scans
      have sound := (awake.scans _ (Multiset.mem_cons_self _ _)).2 equal
      rcases sound with announced | drained
      · exact Or.inl (announced_of_other rfl announced)
      · have released : (frameStep choice s (.finish a home (.release .claimed))).1.actors a =
            { s.actors a with sched := .idle } := by
          simp [frameStep, finishStep, equal, Shared.setSched]
        rw [released]
        exact Or.inr (drained_congr rfl rfl drained)

/-- The scan goes through the bands in order. -/
theorem drained_next {actor : Actor} {b lower : Band} (next : b.next? = some lower)
    (drained : Drained actor b.rank) (left : actor.leftover b = [])
    (mail : actor.mailbox b = []) : Drained actor lower.rank := by
  have only : ∀ b', b'.rank < lower.rank → b'.rank < b.rank ∨ b' = b := by
    intro b' below
    cases b <;> cases lower <;> cases b' <;> simp_all [Band.next?, Band.rank]
  intro b' below
  rcases only b' below with earlier | rfl
  · exact drained b' earlier
  · simp [Queued, left, mail]

theorem drained_all {actor : Actor} {b : Band} (last : b.next? = none)
    (drained : Drained actor b.rank) (left : actor.leftover b = [])
    (mail : actor.mailbox b = []) : Drained actor 3 := by
  intro b' _
  have only : b'.rank < b.rank ∨ b' = b := by
    cases b <;> cases b' <;> simp_all [Band.next?, Band.rank]
  rcases only with earlier | rfl
  · exact drained b' earlier
  · simp [Queued, left, mail]

theorem scan_sound_start (s : Shared) (frames : Multiset Frame) (a : ActorId)
    (home : Option Phase) (pc : FinishPc) (fresh : scannedBands pc = 0)
    (whole : halfScanned pc = none) : ScanSound s frames (.finish a home pc) := by
  refine ⟨by simp [whole], fun _ => Or.inr ?_⟩
  rw [fresh]
  intro b below
  omega

theorem finish_scan_step (s : Shared) (others : Multiset Frame) (a : ActorId)
    (home : Option Phase) (pc : FinishPc)
    (sound : ScanSound s (.finish a home pc ::ₘ others) (.finish a home pc))
    (scans : scansClaimed (.finish a home pc) = true) :
    ∀ left ∈ (finishStep s a home pc).2,
      ScanSound (finishStep s a home pc).1 (↑(finishStep s a home pc).2 + others) left := by
  have later : ∀ s' frames, ∀ left ∈ back home, ScanSound s' frames left := by
    intro s' frames
    cases home <;> simp [back, ScanSound]
  have handed : ∀ s' frames, ∀ left ∈ .handoff a (.pendingOf .high) :: back home,
      ScanSound s' frames left :=
    fun s' frames => List.forall_mem_cons.mpr ⟨trivial, later s' frames⟩
  cases pc with
  | park =>
      rw [finishStep]
      split_ifs <;>
        exact List.forall_mem_singleton.mpr (scan_sound_start _ _ _ _ _ rfl rfl)
  | parkCount => exact later _ _
  | unpark => exact handed _ _
  | load =>
      rw [finishStep]
      split_ifs <;>
        exact List.forall_mem_singleton.mpr (scan_sound_start _ _ _ _ _ rfl rfl)
  | demote =>
      rw [finishStep]
      split_ifs <;>
        exact List.forall_mem_singleton.mpr (scan_sound_start _ _ _ _ _ rfl rfl)
  | pendingOf loaded b =>
      rw [finishStep]
      split_ifs with more
      · exact handed _ _
      · push Not at more
        refine List.forall_mem_singleton.mpr ⟨?_, ?_⟩
        · simpa [halfScanned] using more
        · intro claimed
          rcases sound.2 claimed with announced | drained
          · exact Or.inl (announced_of_other rfl announced)
          · exact Or.inr drained
  | mailboxOf loaded b =>
      have left : (s.actors a).leftover b = [] := sound.1 b rfl
      rw [finishStep]
      split_ifs with more
      · exact handed _ _
      · push Not at more
        split
        · next lower next =>
            refine List.forall_mem_singleton.mpr ⟨by simp [halfScanned], fun claimed => ?_⟩
            rcases sound.2 claimed with announced | drained
            · exact Or.inl (announced_of_other rfl announced)
            · exact Or.inr (drained_next next drained left more)
        · next last =>
            refine List.forall_mem_singleton.mpr ⟨by simp [halfScanned], fun claimed => ?_⟩
            rcases sound.2 claimed with announced | drained
            · exact Or.inl (announced_of_other rfl announced)
            · exact Or.inr (drained_all last drained left more)
  | release loaded =>
      rw [finishStep]
      split_ifs
      · exact later _ _
      · exact List.forall_mem_singleton.mpr (scan_sound_start _ _ _ _ _ rfl rfl)

theorem scan_step (choice : Choice) (s : Shared) (frame : Frame) (others : Multiset Frame)
    (awake : Awake s (frame ::ₘ others)) :
    ∀ left ∈ (↑(frameStep choice s frame).2 + others : Multiset Frame),
      ScanSound (frameStep choice s frame).1 (↑(frameStep choice s frame).2 + others) left := by
  intro left member
  rcases Multiset.mem_add.mp member with new | old
  · cases kind : ofTurn frame with
    | false =>
        rcases other_leaves choice s frame kind left new with plain | ⟨a, home, rfl⟩
        · unfold ScanSound
          split
          · simp [ofTurn] at plain
          · trivial
        · trivial
    | true =>
        cases frame with
        | turn held home pc =>
            rcases turn_leaves choice s held home pc left new with
              begun | ⟨pc', rfl⟩ | rfl | ⟨home', rfl⟩
            · unfold begins at begun
              split at begun <;> trivial
            · trivial
            · exact scan_sound_start _ _ _ _ _ rfl rfl
            · exact scan_sound_start _ _ _ _ _ rfl rfl
        | finish held home pc =>
            exact finish_scan_step s others held home pc
              (awake.scans _ (Multiset.mem_cons_self _ _))
              (awake.claims.scans _ (Multiset.mem_cons_self _ _)) left new
        | _ => simp [ofTurn] at kind
  · have sound := awake.scans left (Multiset.mem_cons_of_mem old)
    cases left with
    | finish a home pc =>
        by_cases counted : pc = .parkCount
        · subst counted
          exact scan_sound_start _ _ _ _ _ rfl rfl
        · have heldHere : holds a (.finish a home pc) = true := by
            cases pc <;> simp_all [holds]
          have outside := outside_of_other awake.claims old heldHere
          have once := (only_holder awake.claims (Multiset.mem_cons_of_mem old) heldHere).1
          refine ⟨?_, ?_⟩
          · rw [outside_leftover outside]
            exact sound.1
          · intro claimed
            have before := (outside_sched outside).2 claimed once
            exact outside_drained outside (claimed.trans before.symm) (Or.inr before)
              (sound.2 before)
    | _ => trivial

theorem awake_step (choice : Choice) (s : Shared) (frame : Frame) (others : Multiset Frame)
    (awake : Awake s (frame ::ₘ others)) :
    Awake (frameStep choice s frame).1 (↑(frameStep choice s frame).2 + others) :=
  ⟨claimed_once_step choice s frame others awake.claims, idle_step choice s frame others awake,
    scan_step choice s frame others awake⟩

theorem reached_awake (states : ActorId → Ref) (workers programs : Nat)
    (schedule : List (Nat × Choice)) :
    Awake (reached states workers programs schedule).shared
      (reached states workers programs schedule).frames := by
  apply run_invariant frameStep Awake awake_step
  refine ⟨initial_claimed_once states workers programs, ?_, ?_⟩
  · intro a _
    refine Or.inr fun b _ => ?_
    simp [Queued, initial, Actor.leftover]
  · intro frame member
    rcases initial_frames states workers programs frame member with rfl | rfl <;> trivial

/-- A call of `send` or `resume` for `a`, or a turn of `a`, up to its return. -/
def inside (a : ActorId) : Frame → Bool
  | .send held _ _ => held == a
  | .resume held _ => held == a
  | .handoff held _ => held == a
  | .turn held _ _ => held == a
  | .finish held _ _ => held == a
  | _ => false

theorem inside_of_holds {a : ActorId} {frame : Frame} (held : holds a frame = true) :
    inside a frame = true := by
  unfold holds at held
  split at held <;> first | exact held | contradiction

/-- No message is stranded: when some band of an actor has a message and no call
for the actor is in progress, the actor is on exactly one ready stack or
suspended, and in particular not idle. -/
theorem no_lost_message (states : ActorId → Ref) (workers programs : Nat)
    (schedule : List (Nat × Choice)) (a : ActorId) (b : Band)
    (queued : Queued ((reached states workers programs schedule).shared.actors a) b)
    (quiet : ∀ frame ∈ (reached states workers programs schedule).frames,
      inside a frame = false) :
    let s := (reached states workers programs schedule).shared
    (((s.sched a = .claimed ∨ s.sched a = .claimedWake) ∧ entries s a = 1) ∨
      s.sched a = .suspended) ∧ s.sched a ≠ .idle := by
  intro s
  have awake := reached_awake states workers programs schedule
  have busy : s.sched a ≠ .idle := by
    intro idle
    rcases awake.idle a idle with ⟨sender, member, announcing⟩ | drained
    · obtain ⟨b', pc, rfl⟩ := announces_send announcing
      simpa [inside] using quiet _ member
    · exact drained b (by cases b <;> simp [Band.rank]) queued
  have none : holders (reached states workers programs schedule).frames a = 0 := by
    rw [holders, Multiset.countP_eq_zero]
    intro frame member held
    simpa [quiet frame member] using inside_of_holds held
  have once := awake.claims.once a
  rw [none, Nat.add_zero] at once
  refine ⟨?_, busy⟩
  have word : ∀ sched, s.sched a = sched → entries s a = claimsOf sched := by
    rintro sched rfl
    exact once
  cases sched : s.sched a with
  | idle => exact absurd sched busy
  | claimed => exact Or.inl ⟨Or.inl rfl, word _ sched⟩
  | claimedWake => exact Or.inl ⟨Or.inr rfl, word _ sched⟩
  | suspended => exact Or.inr rfl

/-- One program thread sends one message and returns from `send`. -/
def oneSend : List (Nat × Choice) :=
  (1, Choice.send 0 .low ⟨7, none⟩) :: List.replicate 5 (1, Choice.proceed)

theorem one_send_is_ready :
    let s := (reached (fun _ => 0) 1 1 oneSend).shared
    (((s.sched 0 = .claimed ∨ s.sched 0 = .claimedWake) ∧ entries s 0 = 1) ∨
      s.sched 0 = .suspended) ∧ s.sched 0 ≠ .idle :=
  no_lost_message (fun _ => 0) 1 1 oneSend 0 .low (Or.inr (by decide)) (by decide)

end ProtoScala.Runtime.SchedulerWakeups
