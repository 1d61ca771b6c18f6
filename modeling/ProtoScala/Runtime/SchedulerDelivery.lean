import Mathlib.Data.List.Induction
import ProtoScala.Runtime.SchedulerTurns
import ProtoScala.Runtime.SchedulerWakeups

/-!
# Every message once, in the order of its band

For every actor and band, what was pushed is what was delivered, followed by
what a turn has in hand, the rest of the last batch and the mailbox, in this
order. A turn reaches a band only past higher bands it found empty.
-/

namespace ProtoScala.Runtime.SchedulerDelivery

open ProtoScala.Library.Threads
open ProtoScala.Runtime.ActorScheduler
open ProtoScala.Runtime.SchedulerClaims
open ProtoScala.Runtime.SchedulerTurns
open ProtoScala.Runtime.SchedulerWakeups

set_option autoImplicit false

/-- The envelopes that left the queues of a band and have not reached
`deliver`. -/
def inHand (b : Band) : TurnPc → List Envelope
  | .store _ taken env batch => if taken = b then env :: batch else []
  | .count _ taken env => if taken = b then [env] else []
  | .deliver _ taken env => if taken = b then [env] else []
  | _ => []

def Ledger (actor : Actor) (hand : Band → List Envelope) : Prop :=
  ∀ b, actor.pushed b =
    actor.delivered b ++ (hand b ++ (actor.leftover b ++ actor.mailbox b))

/-- Every higher band has no leftover and its `takeAll` found nothing. -/
def HigherSeen (actor : Actor) (b : Band) (seen : List Band) : Prop :=
  ∀ higher : Band, higher.rank < b.rank → actor.leftover higher = [] ∧ higher ∈ seen

def ScanOrdered (actor : Actor) : TurnPc → Prop
  | .next _ b seen => HigherSeen actor b seen
  | .take _ b seen => HigherSeen actor b seen ∧ actor.leftover b = []
  | .store _ b _ _ => actor.leftover b = []
  | _ => True

/-- The account of an actor in its turn. -/
def TurnAccount (s : Shared) (a : ActorId) (pc : TurnPc) : Prop :=
  Ledger (s.actors a) (fun b => inHand b pc) ∧ ScanOrdered (s.actors a) pc

/-- The account of an actor that no turn works on. -/
def RestAccount (s : Shared) (a : ActorId) : Prop := Ledger (s.actors a) fun _ => []

/-- What the two facts read of an actor. -/
structure SameQueues (actor actor' : Actor) : Prop where
  pushed : actor'.pushed = actor.pushed
  delivered : actor'.delivered = actor.delivered
  leftover : actor'.leftover = actor.leftover
  mailbox : actor'.mailbox = actor.mailbox

theorem SameQueues.refl (actor : Actor) : SameQueues actor actor := ⟨rfl, rfl, rfl, rfl⟩

theorem SameQueues.ledger {actor actor' : Actor} (same : SameQueues actor actor')
    {hand : Band → List Envelope} (ledger : Ledger actor hand) : Ledger actor' hand := by
  intro b
  rw [same.pushed, same.delivered, same.leftover, same.mailbox]
  exact ledger b

theorem scan_ordered_congr {actor actor' : Actor} (same : actor'.leftover = actor.leftover)
    {pc : TurnPc} (ordered : ScanOrdered actor pc) : ScanOrdered actor' pc := by
  unfold ScanOrdered HigherSeen at *
  rw [same]
  exact ordered

/-- An update of the attributes that are not queues. -/
theorem queues_modified {s : Shared} {a : ActorId} {change : Actor → Actor}
    (kept : SameQueues (s.actors a) (change (s.actors a))) :
    SameQueues (s.actors a) ((s.modifyActor a change).actors a) := by
  rw [actors_modifyActor_self]
  exact kept

/-- A call without the claim appends to `pushed` and to the mailbox together. -/
theorem outside_ledger {choice : Choice} {s : Shared} {frame : Frame} {a : ActorId}
    (outside : holds a frame = false) {hand : Band → List Envelope}
    (ledger : Ledger (s.actors a) hand) :
    Ledger ((frameStep choice s frame).1.actors a) hand := by
  have change := outside_step choice s frame a outside
  generalize (frameStep choice s frame).1.actors a = after at change
  cases change with
  | same => exact ledger
  | pushed b env sender =>
      intro b'
      have before := ledger b'
      by_cases same : b' = b
      · subst same
        simp only [Function.update_self]
        rw [before]
        simp [Actor.leftover]
      · simp only [Function.update_of_ne same]
        exact before
  | claimed free => exact ledger
  | woken parked => exact ledger
  | marked taken => exact ledger

/-! ## A step of the turn itself -/

/-- After a step of the turn the account holds with what the next frame of the
turn has in hand, or with nothing when the turn is over. -/
structure TurnAccounted (a : ActorId) (next : Shared × List Frame) : Prop where
  ended : (∀ frame ∈ next.2, turnOf a frame = false) → Ledger (next.1.actors a) fun _ => []
  goes : ∀ home pc, .turn a home pc ∈ next.2 →
    Ledger (next.1.actors a) (fun b => inHand b pc) ∧ ScanOrdered (next.1.actors a) pc

/-- A frame of the turn that has nothing in hand and is not in the middle of a
scan. -/
def atRest (a : ActorId) : Frame → Prop
  | .turn held _ pc => held = a →
      (∀ b, inHand b pc = []) ∧ ∀ actor : Actor, ScanOrdered actor pc
  | _ => True

theorem at_rest_accounted {a : ActorId} {s s' : Shared} {left : List Frame}
    (ledger : Ledger (s.actors a) fun _ => []) (same : SameQueues (s.actors a) (s'.actors a))
    (rest : ∀ frame ∈ left, atRest a frame) : TurnAccounted a (s', left) := by
  refine ⟨fun _ => same.ledger ledger, ?_⟩
  intro home pc member
  obtain ⟨nothing, ordered⟩ := rest _ member rfl
  refine ⟨?_, ordered _⟩
  simp only [nothing]
  exact same.ledger ledger

theorem scan_start (actor : Actor) (budget : Nat) :
    ScanOrdered actor (.next budget .high []) := by
  intro higher lower
  simp [Band.rank] at lower

theorem at_rest_next (a held : ActorId) (home : Option Phase) (budget : Nat) :
    atRest a (.turn held home (.next budget .high [])) := by
  intro _
  exact ⟨fun _ => rfl, fun actor => scan_start actor budget⟩

theorem at_rest_complete (a : ActorId) (future : Option FutureId) (value : Ref) (failed : Bool) :
    ∀ frame ∈ completeFrames future value failed, atRest a frame := by
  cases future <;> simp [completeFrames, atRest]

theorem at_rest_begins {a : ActorId} {frame : Frame} (begun : begins frame = true) :
    atRest a frame := by
  unfold begins at begun
  split at begun <;> trivial

theorem running_accounted (choice : Choice) (s : Shared) (a : ActorId) (home : Option Phase)
    (call : Invocation) (ledger : Ledger (s.actors a) fun _ => []) :
    TurnAccounted a (runningStep choice s a home call) := by
  have running : atRest a (.turn a home (.running call)) :=
    fun _ => ⟨fun _ => rfl, fun _ => trivial⟩
  have calls : ∀ first, begins first = true →
      ∀ frame ∈ [first, .turn a home (.running call)], atRest a frame := by
    intro first begun
    exact List.forall_mem_cons.mpr
      ⟨at_rest_begins begun, List.forall_mem_singleton.mpr running⟩
  have replies : ∀ value failed, ∀ frame ∈ completeFrames call.future value failed ++
      [Frame.turn a home (.next call.budget .high [])], atRest a frame := by
    intro value failed
    exact List.forall_mem_append.mpr ⟨at_rest_complete a _ _ _,
      List.forall_mem_singleton.mpr (at_rest_next a a home _)⟩
  have idles : ∀ frame ∈ [.turn a home (.running call)], atRest a frame :=
    List.forall_mem_singleton.mpr running
  cases choice with
  | send target b env => exact at_rest_accounted ledger (.refl _) (calls _ rfl)
  | complete f value failed =>
      exact at_rest_accounted ledger (.refl _) (calls _ rfl)
  | onComplete f k => exact at_rest_accounted ledger (.refl _) (calls _ rfl)
  | await f =>
      refine at_rest_accounted ledger (.refl _) ?_
      exact List.forall_mem_singleton.mpr fun _ => ⟨fun _ => rfl, fun _ => trivial⟩
  | returns newState reply =>
      exact at_rest_accounted ledger (queues_modified ⟨rfl, rfl, rfl, rfl⟩) (replies reply false)
  | throws error => exact at_rest_accounted ledger (.refl _) (replies error true)
  | defect =>
      refine at_rest_accounted ledger (.refl _) ?_
      exact List.forall_mem_singleton.mpr trivial
  | record frame => exact at_rest_accounted ledger (.refl _) idles
  | refused => exact at_rest_accounted ledger (.refl _) idles
  | shutdown => exact at_rest_accounted ledger (.refl _) idles
  | proceed => exact at_rest_accounted ledger (.refl _) idles

theorem await_accounted (choice : Choice) (s : Shared) (a : ActorId) (home : Option Phase)
    (pc : TurnPc) (waits : awaits pc = true) (ledger : Ledger (s.actors a) fun _ => []) :
    TurnAccounted a (awaitStep choice s a home pc) := by
  have same : ∀ s' : Shared, SameQueues (s.actors a) (s'.actors a) →
      ∀ pc, (∀ b, inHand b pc = []) → (∀ actor, ScanOrdered actor pc) →
      TurnAccounted a (s', [.turn a home pc]) := by
    intro s' same pc nothing ordered
    exact at_rest_accounted ledger same
      (List.forall_mem_singleton.mpr fun _ => ⟨nothing, ordered⟩)
  unfold awaitStep
  split
  · split_ifs <;> exact same s (.refl _) _ (fun _ => rfl) fun _ => trivial
  · exact same _ (queues_modified ⟨rfl, rfl, rfl, rfl⟩) _ (fun _ => rfl) fun _ => trivial
  · exact same _ (queues_modified ⟨rfl, rfl, rfl, rfl⟩) _ (fun _ => rfl) fun _ => trivial
  · split_ifs <;> exact same s (.refl _) _ (fun _ => rfl) fun _ => trivial
  · exact same s (.refl _) _ (fun _ => rfl) fun _ => trivial
  · split_ifs
    · exact same (s.modifyFuture _ _) (.refl _) (.waiterRecheck _ _) (fun _ => rfl)
        fun _ => trivial
    · exact same s (.refl _) _ (fun _ => rfl) fun _ => trivial
  · split_ifs <;> exact same s (.refl _) _ (fun _ => rfl) fun _ => trivial
  · exact same _ (queues_modified ⟨rfl, rfl, rfl, rfl⟩) _ (fun _ => rfl) fun _ => trivial
  · split
    · exact same _ (queues_modified ⟨rfl, rfl, rfl, rfl⟩) _ (fun _ => rfl) fun _ => trivial
    · exact same s (.refl _) _ (fun _ => rfl) fun _ => trivial
    · exact same s (.refl _) _ (fun _ => rfl) fun _ => trivial
  · exact at_rest_accounted ledger (queues_modified ⟨rfl, rfl, rfl, rfl⟩)
      (List.forall_mem_singleton.mpr trivial)
  · next unlisted => cases pc <;> simp_all [awaits]

/-- A turn that takes one message from the leftovers. -/
theorem ledger_next {actor : Actor} {b : Band} {env : Envelope} {rest : List Envelope}
    (found : actor.leftover b = env :: rest) (ledger : Ledger actor fun _ => [])
    (budget : Nat) :
    Ledger { actor with
      pendingIdx := Function.update actor.pendingIdx b (actor.pendingIdx b + 1) }
      fun b' => inHand b' (.count budget b env) := by
  intro b'
  have before := ledger b'
  by_cases same : b' = b
  · subst same
    have remaining : (actor.pending b').drop (actor.pendingIdx b' + 1) = rest := by
      have tail := congrArg List.tail found
      rw [Actor.leftover, List.tail_drop] at tail
      exact tail
    simp only [Actor.leftover, Function.update_self, remaining, inHand, if_true]
    rw [before, found]
    simp
  · simp only [Actor.leftover, Function.update_of_ne same, inHand, if_neg (Ne.symm same)]
    exact before

/-- A turn that takes the whole mailbox. -/
theorem ledger_take {actor : Actor} {b : Band} {env : Envelope} {batch : List Envelope}
    (found : actor.mailbox b = env :: batch) (empty : actor.leftover b = [])
    (ledger : Ledger actor fun _ => []) (budget : Nat) :
    Ledger { actor with mailbox := Function.update actor.mailbox b [] }
      fun b' => inHand b' (.store budget b env batch) := by
  intro b'
  have before := ledger b'
  by_cases same : b' = b
  · subst same
    have none : (actor.pending b').drop (actor.pendingIdx b') = [] := empty
    simp only [Actor.leftover, Function.update_self, inHand, if_true, none]
    rw [before, empty, found]
    simp
  · simp only [Actor.leftover, Function.update_of_ne same, inHand, if_neg (Ne.symm same)]
    exact before

/-- The batch becomes the pending list, read up to its first message. -/
theorem ledger_store {actor : Actor} {b : Band} {env : Envelope} {batch : List Envelope}
    (empty : actor.leftover b = []) {budget : Nat}
    (ledger : Ledger actor fun b' => inHand b' (.store budget b env batch)) :
    Ledger { actor with
      pending := Function.update actor.pending b (env :: batch)
      pendingIdx := Function.update actor.pendingIdx b 1 }
      fun b' => inHand b' (.count budget b env) := by
  intro b'
  have before := ledger b'
  by_cases same : b' = b
  · subst same
    simp only [inHand, if_true] at before
    simp only [Actor.leftover, Function.update_self, inHand, if_true]
    rw [before, empty]
    simp
  · simp only [inHand, if_neg (Ne.symm same)] at before
    simp only [Actor.leftover, Function.update_of_ne same, inHand, if_neg (Ne.symm same)]
    exact before

theorem ledger_deliver {actor : Actor} {b : Band} {env : Envelope} {budget : Nat}
    (ledger : Ledger actor fun b' => inHand b' (.deliver budget b env)) :
    Ledger { actor with
      delivered := Function.update actor.delivered b (actor.delivered b ++ [env]) }
      fun _ => [] := by
  intro b'
  have before := ledger b'
  by_cases same : b' = b
  · subst same
    simp only [inHand, if_true] at before
    simp only [Actor.leftover, Function.update_self]
    rw [before]
    simp [Actor.leftover]
  · simp only [inHand, if_neg (Ne.symm same)] at before
    simp only [Actor.leftover, Function.update_of_ne same]
    exact before

theorem turn_step_accounted (choice : Choice) (s : Shared) (a : ActorId)
    (home : Option Phase) (pc : TurnPc)
    (ledger : Ledger (s.actors a) fun b => inHand b pc)
    (ordered : ScanOrdered (s.actors a) pc) :
    TurnAccounted a (turnStep choice s a home pc) := by
  have single : ∀ (s' : Shared) (pc' : TurnPc),
      Ledger (s'.actors a) (fun b => inHand b pc') → ScanOrdered (s'.actors a) pc' →
      TurnAccounted a (s', [.turn a home pc']) := by
    intro s' pc' ledger ordered
    refine ⟨?_, ?_⟩
    · intro none
      have here := none (.turn a home pc') (by simp)
      simp [turnOf] at here
    · intro home' pc'' member
      obtain ⟨rfl, rfl⟩ : home' = home ∧ pc'' = pc' := by simpa using member
      exact ⟨ledger, ordered⟩
  have ends : ∀ (s' : Shared) (pc' : FinishPc), SameQueues (s.actors a) (s'.actors a) →
      Ledger (s.actors a) (fun _ => []) → TurnAccounted a (s', [.finish a home pc']) := by
    intro s' pc' same ledger
    exact at_rest_accounted ledger same (List.forall_mem_singleton.mpr trivial)
  cases pc with
  | start =>
      rw [turnStep]
      split_ifs
      · exact single s _ ledger trivial
      · exact single s _ ledger (scan_start _ _)
  | resumeRead =>
      rw [turnStep]
      split
      · exact single _ (.next kBatchSize .high [])
          ((queues_modified ⟨rfl, rfl, rfl, rfl⟩).ledger ledger) (scan_start _ _)
      · exact single s (.resumeState _ _) ledger trivial
  | resumeState f future =>
      rw [turnStep]
      split_ifs
      · exact single s _ ledger trivial
      · exact ends _ _ (queues_modified ⟨rfl, rfl, rfl, rfl⟩) ledger
  | resumeClear f future =>
      exact single _ (.running _) ((queues_modified ⟨rfl, rfl, rfl, rfl⟩).ledger ledger) trivial
  | next budget b seen =>
      cases budget with
      | zero => exact ends s _ (.refl _) ledger
      | succ budget =>
          rw [turnStep]
          split
          · next env rest found =>
              refine single _ (.count budget b env) ?_ trivial
              rw [actors_modifyActor_self]
              exact ledger_next found ledger budget
          · next empty => exact single s _ ledger ⟨ordered, empty⟩
  | take budget b seen =>
      rw [turnStep]
      split
      · next env batch found =>
          refine single _ (.store budget b env batch) ?_ ?_
          · rw [actors_modifyActor_self]
            exact ledger_take found ordered.2 ledger budget
          · rw [actors_modifyActor_self]
            exact ordered.2
      · split
        · next lower next =>
            refine single s _ ledger ?_
            intro higher below
            have only : higher.rank < b.rank ∨ higher = b := by
              cases b <;> cases lower <;> cases higher <;> simp_all [Band.next?, Band.rank]
            rcases only with earlier | rfl
            · exact ⟨(ordered.1 higher earlier).1,
                List.mem_cons_of_mem _ (ordered.1 higher earlier).2⟩
            · exact ⟨ordered.2, List.mem_cons_self⟩
        · exact ends s _ (.refl _) ledger
  | store budget b env batch =>
      refine single _ (.count budget b env) ?_ trivial
      rw [actors_modifyActor_self]
      exact ledger_store ordered ledger
  | count budget b env => exact single _ (.deliver budget b env) ledger trivial
  | deliver budget b env =>
      refine single _ (.running _) ?_ trivial
      rw [actors_modifyActor_self]
      exact ledger_deliver ledger
  | running call => exact running_accounted choice s a home call ledger
  | _ =>
      rw [turn_step_await _ _ _ _ _ rfl]
      exact await_accounted choice s a home _ rfl ledger

/-! ## Every step keeps the account -/

theorem delivery_rule : TurnRule RestAccount TurnAccount where
  outsideFree := fun _ _ _ _ outside account => outside_ledger outside account
  outsideBusy := fun _ _ _ _ _ outside account =>
    ⟨outside_ledger outside account.1, scan_ordered_congr (outside_leftover outside) account.2⟩
  holder := by
    intro choice s frame a held other account
    obtain ⟨sched, same⟩ := (holder_step held other).1
    rw [RestAccount, same]
    exact account
  begins := fun _ _ account => ⟨account, trivial⟩
  ended := fun choice s a home pc account none =>
    (turn_step_accounted choice s a home pc account.1 account.2).ended none
  goes := fun choice s a home home' pc pc' account new =>
    (turn_step_accounted choice s a home pc account.1 account.2).goes home' pc' new

theorem reached_accounted (states : ActorId → Ref) (workers programs : Nat)
    (schedule : List (Nat × Choice)) :
    TurnInvariant RestAccount TurnAccount (reached states workers programs schedule).shared
      (reached states workers programs schedule).frames :=
  reached_turn_invariant delivery_rule states workers programs (fun _ _ => rfl) schedule

/-! ## What a scan has observed -/

/-- The bands a scan has found empty, with the messages its turn may still take
afterwards. -/
def scanOf : TurnPc → Option (Nat × List Band)
  | .next (budget + 1) _ seen => some (budget, seen)
  | .take budget _ seen => some (budget, seen)
  | _ => none

theorem scan_of_await {choice : Choice} {s : Shared} {a : ActorId} {home home' : Option Phase}
    {pc pc' : TurnPc} (waits : awaits pc = true)
    (new : .turn a home' pc' ∈ (awaitStep choice s a home pc).2) : scanOf pc' = none := by
  unfold awaitStep at new
  split at new
  case h_11 => cases pc <;> simp_all [awaits]
  all_goals
    first
      | (split_ifs at new <;> simp_all [scanOf])
      | (split at new <;> simp_all [scanOf])
      | simp_all [scanOf]

theorem scan_of_running {choice : Choice} {s : Shared} {a : ActorId}
    {home home' : Option Phase} {call : Invocation} {pc' : TurnPc}
    (new : .turn a home' pc' ∈ (runningStep choice s a home call).2) {budget : Nat}
    {seen : List Band} (scan : scanOf pc' = some (budget, seen)) : seen = [] := by
  have replies : ∀ value failed, Frame.turn a home' pc' ∈
      completeFrames call.future value failed ++ [Frame.turn a home (.next call.budget .high [])] →
      seen = [] := by
    intro value failed member
    rcases List.mem_append.mp member with reply | last
    · cases future : call.future <;> simp [future, completeFrames] at reply
    · obtain ⟨rfl, rfl⟩ : home' = home ∧ pc' = .next call.budget .high [] := by
        simpa using last
      cases left : call.budget <;> simp_all [scanOf]
  cases choice with
  | returns newState reply => exact replies reply false new
  | throws error => exact replies error true new
  | _ => simp_all [runningStep, scanOf]

theorem turn_scan_origin {choice : Choice} {s : Shared} {a : ActorId} {home : Option Phase}
    {pc pc' : TurnPc} (new : .turn a home pc' ∈ (turnStep choice s a home pc).2) {budget : Nat}
    {seen' : List Band} (scan : scanOf pc' = some (budget, seen')) {higher : Band}
    (observed : higher ∈ seen') :
    ∃ pc₀ seen, Frame.turn a home pc = .turn a home pc₀ ∧ scanOf pc₀ = some (budget, seen) ∧
      (higher ∈ seen ∨ (s.actors a).mailbox higher = []) := by
  cases pc with
  | next left b seen =>
      cases left with
      | zero => simp [turnStep] at new
      | succ left =>
          rw [turnStep] at new
          split at new
          · simp_all [scanOf]
          · obtain rfl : pc' = .take left b seen := by simpa using new
            obtain ⟨rfl, rfl⟩ : left = budget ∧ seen = seen' := by simpa [scanOf] using scan
            exact ⟨_, seen, rfl, rfl, Or.inl observed⟩
  | take left b seen =>
      rw [turnStep] at new
      split at new
      · simp_all [scanOf]
      · next empty =>
          split at new
          · next lower _ =>
              obtain rfl : pc' = .next (left + 1) lower (b :: seen) := by simpa using new
              obtain ⟨rfl, rfl⟩ : left = budget ∧ b :: seen = seen' := by
                simpa [scanOf] using scan
              refine ⟨_, seen, rfl, rfl, ?_⟩
              rcases List.mem_cons.mp observed with rfl | earlier
              · exact Or.inr empty
              · exact Or.inl earlier
          · simp at new
  | running call =>
      rw [scan_of_running new scan] at observed
      simp at observed
  | start =>
      rw [turnStep] at new
      split_ifs at new <;> simp_all [scanOf, kBatchSize]
  | resumeRead =>
      rw [turnStep] at new
      split at new <;> simp_all [scanOf, kBatchSize]
  | resumeState f future =>
      rw [turnStep] at new
      split_ifs at new <;> simp_all [scanOf]
  | resumeClear f future => simp_all [turnStep, scanOf]
  | store left b env batch => simp_all [turnStep, scanOf]
  | count left b env => simp_all [turnStep, scanOf]
  | deliver left b env => simp_all [turnStep, scanOf]
  | _ =>
      rw [turn_step_await _ _ _ _ _ rfl] at new
      rw [scan_of_await rfl new] at scan
      contradiction

/-- A band is in `seen` because the frame before had it there, or because the
step has just found its mailbox empty. -/
theorem scan_origin {choice : Choice} {s : Shared} {frame : Frame} {a : ActorId}
    {home : Option Phase} {pc' : TurnPc} (new : .turn a home pc' ∈ (frameStep choice s frame).2)
    {budget : Nat} {seen' : List Band} (scan : scanOf pc' = some (budget, seen'))
    {higher : Band} (observed : higher ∈ seen') :
    ∃ pc seen, frame = .turn a home pc ∧ scanOf pc = some (budget, seen) ∧
      (higher ∈ seen ∨ (s.actors a).mailbox higher = []) := by
  cases held : holds a frame with
  | false =>
      rw [outside_begins held new] at scan
      simp [scanOf] at scan
  | true =>
      cases turn : turnOf a frame with
      | false =>
          have none := (holder_step held turn).2.2 _ new
          simp [turnOf] at none
      | true =>
          obtain ⟨home', pc, rfl⟩ := turn_of_mem turn
          obtain rfl : home' = home := by
            rcases turn_leaves choice s a home' pc _ new with
              begun | ⟨pc'', same⟩ | same | ⟨home'', same⟩
            · simp [begins] at begun
            · cases same
              rfl
            · cases same
            · cases same
          exact turn_scan_origin new scan observed

/-- A scan that reaches a band has, for every band it has passed, a moment since
it began at which the mailbox of that band was empty. -/
def ObservedEmpty (machine : List (Nat × Choice) → Machine Shared Frame)
    (past : List (Nat × Choice)) (a : ActorId) (home : Option Phase) (budget : Nat)
    (higher : Band) : Prop :=
  ∃ moment, moment <+: past ∧ ((machine moment).shared.actors a).mailbox higher = [] ∧
    ∀ since, moment <+: since → since <+: past →
      ∃ pc seen, scanOf pc = some (budget, seen) ∧ .turn a home pc ∈ (machine since).frames

theorem observed_empty_extend {machine : List (Nat × Choice) → Machine Shared Frame}
    {past : List (Nat × Choice)} {scheduled : Nat × Choice} {a : ActorId}
    {home : Option Phase} {budget : Nat} {higher : Band}
    (observed : ObservedEmpty machine past a home budget higher) {pc : TurnPc}
    {seen : List Band} (scan : scanOf pc = some (budget, seen))
    (now : .turn a home pc ∈ (machine (past ++ [scheduled])).frames) :
    ObservedEmpty machine (past ++ [scheduled]) a home budget higher := by
  obtain ⟨moment, before, empty, scanning⟩ := observed
  refine ⟨moment, before.trans (List.prefix_append _ _), empty, ?_⟩
  intro since after upTo
  rcases List.prefix_concat_iff.mp upTo with rfl | earlier
  · exact ⟨pc, seen, scan, now⟩
  · exact scanning since after earlier

/-- `seen` tells the truth in every reachable state. -/
theorem seen_observed (states : ActorId → Ref) (workers programs : Nat)
    (schedule : List (Nat × Choice)) :
    ∀ (a : ActorId) (home : Option Phase) (pc : TurnPc) (budget : Nat) (seen : List Band),
      .turn a home pc ∈ (reached states workers programs schedule).frames →
      scanOf pc = some (budget, seen) → ∀ higher ∈ seen,
        ObservedEmpty (reached states workers programs) schedule a home budget higher := by
  induction schedule using List.reverseRecOn with
  | nil =>
      intro a home pc budget seen member
      rcases initial_frames states workers programs _ member with same | same <;> cases same
  | append_singleton past scheduled induction =>
      intro a home pc budget seen member scan higher observed
      have unfolded : reached states workers programs (past ++ [scheduled]) =
          (reached states workers programs past).step frameStep scheduled := by
        simp [reached, Machine.run]
      have extended : ObservedEmpty (reached states workers programs) past a home budget higher →
          ObservedEmpty (reached states workers programs) (past ++ [scheduled]) a home budget
            higher :=
        fun before => observed_empty_extend before scan member
      rcases step_frames frameStep (reached states workers programs past) scheduled with
        same | ⟨frame, others, whole, -, next, left⟩
      · rw [unfolded, same] at member
        exact extended (induction a home pc budget seen member scan higher observed)
      · have after := member
        rw [unfolded, left] at after
        rcases Multiset.mem_add.mp after with new | old
        · obtain ⟨pc', seen', rfl, scan', origin⟩ := scan_origin new scan observed
          have before : .turn a home pc' ∈ (reached states workers programs past).frames := by
            rw [whole]
            exact Multiset.mem_cons_self _ _
          rcases origin with earlier | empty
          · exact extended (induction a home pc' budget seen' before scan' higher earlier)
          · apply extended
            refine ⟨past, List.prefix_refl past, empty, ?_⟩
            intro since from_ upTo
            obtain rfl : past = since :=
              from_.eq_of_length (le_antisymm from_.length_le upTo.length_le)
            exact ⟨pc', seen', scan', before⟩
        · have before : .turn a home pc ∈ (reached states workers programs past).frames := by
            rw [whole]
            exact Multiset.mem_cons_of_mem old
          exact extended (induction a home pc budget seen before scan higher observed)

/-- `nextMessage` takes a message of the band: from its leftovers, or from its
mailbox. -/
def Takes (actor : Actor) (budget : Nat) (b : Band) (pc : TurnPc) : Prop :=
  (∃ seen, pc = .next (budget + 1) b seen ∧ actor.leftover b ≠ []) ∨
    ∃ seen, pc = .take budget b seen ∧ actor.mailbox b ≠ []

/-- What is delivered is a prefix of what was pushed, in every band; the rest is
in the hand of the actor's turn, in the last batch or in the mailbox, in this
order; and when a message of a band is taken, the higher bands have no leftover
and each of their mailboxes was empty at a moment of the same scan. -/
theorem exactly_once_in_order (states : ActorId → Ref) (workers programs : Nat)
    (schedule : List (Nat × Choice)) (a : ActorId) (b : Band) :
    let machine := reached states workers programs schedule
    let actor := machine.shared.actors a
    actor.delivered b <+: actor.pushed b ∧
      (∃ hand, actor.pushed b =
          actor.delivered b ++ (hand ++ (actor.leftover b ++ actor.mailbox b)) ∧
        (hand ≠ [] → ∃ home pc, .turn a home pc ∈ machine.frames ∧ hand = inHand b pc)) ∧
      ∀ home pc budget, .turn a home pc ∈ machine.frames → Takes actor budget b pc →
        ∀ higher : Band, higher.rank < b.rank → actor.leftover higher = [] ∧
          ObservedEmpty (reached states workers programs) schedule a home budget higher := by
  intro machine actor
  have account := reached_accounted states workers programs schedule
  have split : ∃ hand, actor.pushed b =
      actor.delivered b ++ (hand ++ (actor.leftover b ++ actor.mailbox b)) ∧
      (hand ≠ [] → ∃ home pc, .turn a home pc ∈ machine.frames ∧ hand = inHand b pc) := by
    by_cases busy : ∃ frame ∈ machine.frames, turnOf a frame = true
    · obtain ⟨frame, member, turn⟩ := busy
      obtain ⟨home, pc, rfl⟩ := turn_of_mem turn
      exact ⟨inHand b pc, (account.busy a home pc member).1 b, fun _ => ⟨home, pc, member, rfl⟩⟩
    · push Not at busy
      refine ⟨[], account.free a ?_ b, fun nonempty => absurd rfl nonempty⟩
      intro frame member
      simpa using busy frame member
  refine ⟨?_, split, ?_⟩
  · obtain ⟨hand, whole, -⟩ := split
    rw [whole]
    exact List.prefix_append _ _
  · intro home pc budget member takes higher above
    have ordered := (account.busy a home pc member).2
    have observed := seen_observed states workers programs schedule a home pc budget
    rcases takes with ⟨seen, rfl, -⟩ | ⟨seen, rfl, -⟩
    · exact ⟨(ordered higher above).1,
        observed seen member rfl higher (ordered higher above).2⟩
    · exact ⟨(ordered.1 higher above).1,
        observed seen member rfl higher (ordered.1 higher above).2⟩

end ProtoScala.Runtime.SchedulerDelivery
