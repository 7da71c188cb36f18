import AtMostOnce.Proofs.Session.Lockstep
import AtMostOnce.Proofs.Session.Tally
import Mathlib.Data.List.Perm.Basic

/-! Breakdowns are alike. Where a handler breaks down that comes to no gate, any other one of its
kind could have stood in its place. Nobody but its own caller would have been told anything else. -/
namespace AtMostOnce
variable {V : Type}

/-- The handler comes to no gate and breaks down in this way. -/
structure Handler.BreaksDown (h : Handler V) (b : Breakdown) : Prop where
  gate : h.gate? = none
  ending : h.ending = .breakdown b

theorem Handler.BreaksDown.result {h : Handler V} {b : Breakdown} (hb : h.BreaksDown b) :
    h.result = .error b := by
  rw [Handler.result, hb.ending]

/-- The call `c'` is `c` with a handler that breaks down in another way. -/
structure Call.Replaces (c' c : Call V) : Prop where
  name : c'.name = c.name
  id : c'.id = c.id
  vocabulary : c'.vocabulary = c.vocabulary
  breaksDown : ∃ b, c.handler.BreaksDown b
  breaksDown' : ∃ b, c'.handler.BreaksDown b

/-- The same call, or `c'` in the place of `c`. -/
inductive Call.Swapped (c c' : Call V) : Call V → Call V → Prop where
  | same (d : Call V) : Swapped c c' d d
  | swapped : Swapped c c' c c'

inductive Execution.Swapped (c c' : Call V) : Execution V → Execution V → Prop where
  | of {d d' : Call V} (h : c.Swapped c' d d') (number : Nat) (attended : Bool) :
    Swapped c c' ⟨d, number, attended⟩ ⟨d', number, attended⟩

inductive Waiter.Swapped (c c' : Call V) : Waiter V → Waiter V → Prop where
  | of {d d' : Call V} (h : c.Swapped c' d d') (number : Nat) :
    Swapped c c' ⟨d, number⟩ ⟨d', number⟩

inductive Step.Swapped (c c' : Call V) : Step V → Step V → Prop where
  | same (st : Step V) : Swapped c c' st st
  | swapped : Swapped c c' (.call c) (.call c')

/-- The same event, or that of `c'` in the place of that of `c`. It tells the same, but for the
breakdown of the own handler. -/
inductive Event.Swapped (c c' : Call V) : Event V → Event V → Prop where
  | same (e : Event V) : Swapped c c' e e
  | claimed (now : Instant) (decision : Decision V) :
    Swapped c c' (.claimed now c decision) (.claimed now c' decision)
  | answered (answer : Answer V) : Swapped c c' (.finished c answer) (.finished c' answer)
  | brokeDown {b b' : Breakdown} (h : c.handler.BreaksDown b) (h' : c'.handler.BreaksDown b') :
    Swapped c c' (.finished c (.error (.internal b))) (.finished c' (.error (.internal b')))

/-- The schedule does not tell the two calls from each other. -/
def Schedule.Blind (σ : Schedule V) (c c' : Call V) : Prop :=
  ∀ n cs cs', List.Forall₂ (c.Swapped c') cs cs' →
    List.Forall₂ (c.Swapped c') (σ.arrange n cs) (σ.arrange n cs')

theorem Schedule.blind_arrival (c c' : Call V) : Schedule.arrival.Blind c c' :=
  fun _ _ _ h => h

namespace Call.Swapped
variable {c c' d d' : Call V}

theorem name (h : c'.Replaces c) (hd : c.Swapped c' d d') : d'.name = d.name := by
  cases hd with
  | same => rfl
  | swapped => exact h.name

theorem id (h : c'.Replaces c) (hd : c.Swapped c' d d') : d'.id = d.id := by
  cases hd with
  | same => rfl
  | swapped => exact h.id

theorem answer (h : c'.Replaces c) (hd : c.Swapped c' d d') (o : Outcome V) :
    d'.answer o = d.answer o := by
  cases hd with
  | same => rfl
  | swapped => rw [Call.answer, Call.answer, h.vocabulary]

theorem gate? (h : c'.Replaces c) (hd : c.Swapped c' d d') :
    d'.handler.gate? = d.handler.gate? := by
  cases hd with
  | same => rfl
  | swapped =>
    obtain ⟨b, hb⟩ := h.breaksDown
    obtain ⟨b', hb'⟩ := h.breaksDown'
    rw [hb.gate, hb'.gate]

theorem claimed (hd : c.Swapped c' d d') (now : Instant) (decision : Decision V) :
    Event.Swapped c c' (.claimed now d decision) (.claimed now d' decision) := by
  cases hd with
  | same => exact .same _
  | swapped => exact .claimed now decision

theorem answered (hd : c.Swapped c' d d') (answer : Answer V) :
    Event.Swapped c c' (.finished d answer) (.finished d' answer) := by
  cases hd with
  | same => exact .same _
  | swapped => exact .answered answer

/-- Both handlers leave the same outcome, or both break down. -/
theorem result (h : c'.Replaces c) (hd : c.Swapped c' d d') :
    (∃ o, d.handler.result = .ok o ∧ d'.handler.result = .ok o) ∨
      ∃ b b', d.handler.result = .error b ∧ d'.handler.result = .error b' ∧
        Event.Swapped c c' (.finished d (.error (.internal b)))
          (.finished d' (.error (.internal b'))) := by
  cases hd with
  | same =>
    cases hr : d.handler.result with
    | ok o => exact .inl ⟨o, rfl, rfl⟩
    | error b => exact .inr ⟨b, b, rfl, rfl, .same _⟩
  | swapped =>
    obtain ⟨b, hb⟩ := h.breaksDown
    obtain ⟨b', hb'⟩ := h.breaksDown'
    exact .inr ⟨b, b', hb.result, hb'.result, .brokeDown hb hb'⟩

end Call.Swapped

namespace Execution.Swapped
variable {c c' : Call V} {e e' : Execution V}

theorem caller (he : Execution.Swapped c c' e e') :
    List.Forall₂ (c.Swapped c') e.caller e'.caller := by
  cases he with
  | of hd n attended =>
    cases attended with
    | false => exact .nil
    | true => exact .cons hd .nil

theorem leave (h : c'.Replaces c) (he : Execution.Swapped c c' e e') (name : String) :
    Execution.Swapped c c' (e.leave name) (e'.leave name) := by
  cases he with
  | of hd n attended =>
    unfold Execution.leave
    dsimp only
    rw [hd.name h]
    split
    · exact .of hd n false
    · exact .of hd n attended

theorem closedGate? (h : c'.Replaces c) (he : Execution.Swapped c c' e e') (opened : List String) :
    e'.closedGate? opened = e.closedGate? opened := by
  cases he with
  | of hd n attended => rw [Execution.closedGate?, Execution.closedGate?, hd.gate? h]

end Execution.Swapped

/-- The one session is the other with `c'` in the place of `c`. -/
structure Session.Swapped (c c' : Call V) (s s' : Session V) : Prop where
  coordinator : s'.coordinator = s.coordinator
  now : s'.now = s.now
  opened : s'.opened = s.opened
  sweeps : s'.sweeps = s.sweeps
  parked : List.Forall₂ (Execution.Swapped c c') s.parked s'.parked
  waiters : List.Forall₂ (Waiter.Swapped c c') s.waiters s'.waiters
  events : List.Forall₂ (Event.Swapped c c') s.events s'.events

namespace Session.Swapped
variable {c c' d d' : Call V} {e e' : Execution V} {es es' : List (Execution V)}
  {cs cs' : List (Call V)} {s s' : Session V}

theorem waitingOn (hs : Session.Swapped c c' s s') (n : Nat) :
    List.Forall₂ (c.Swapped c') (s.waitingOn n) (s'.waitingOn n) := by
  have hfiltered : List.Forall₂ (Waiter.Swapped c c')
      (s.waiters.filter fun w => w.number = n) (s'.waiters.filter fun w => w.number = n) := by
    refine List.rel_filter ?_ hs.waiters
    rintro w w' ⟨hd, k⟩
    exact Iff.rfl
  refine List.rel_map ?_ hfiltered
  rintro w w' ⟨hd, k⟩
  exact hd

theorem dismissed (hs : Session.Swapped c c' s s') (n : Nat) :
    List.Forall₂ (Waiter.Swapped c c') (s.waiters.filter fun w => w.number ≠ n)
      (s'.waiters.filter fun w => w.number ≠ n) := by
  refine List.rel_filter ?_ hs.waiters
  rintro w w' ⟨hd, k⟩
  exact Iff.rfl

theorem answers (h : c'.Replaces c) (hcs : List.Forall₂ (c.Swapped c') cs cs') (o : Outcome V) :
    List.Forall₂ (Event.Swapped c c') (Activity.answers cs o) (Activity.answers cs' o) := by
  refine List.rel_reverse (List.rel_map ?_ hcs)
  intro d d' hd
  dsimp only
  rw [hd.answer h]
  exact hd.answered _

theorem claim (h : c'.Replaces c) (hs : Session.Swapped c c' s s') (hd : c.Swapped c' d d') :
    List.Forall₂ (Execution.Swapped c c') (s.claim d).1.toList (s'.claim d').1.toList ∧
      Session.Swapped c c' (s.claim d).2 (s'.claim d').2 := by
  rcases hl : s.coordinator.memo.lookup s.now d.id s.coordinator.memo.nextGeneration
    with ⟨answer, m⟩
  have hl' : s'.coordinator.memo.lookup s'.now d'.id s'.coordinator.memo.nextGeneration =
      (answer, m) := by
    rw [hs.coordinator, hs.now, hd.id h]
    exact hl
  cases answer with
  | live o =>
    rw [claim_of_live hl, claim_of_live hl', hs.coordinator, hs.now, hd.answer h]
    exact ⟨.nil, ⟨rfl, rfl, hs.opened, hs.sweeps, hs.parked, hs.waiters,
      .cons (hd.answered _) (.cons (hd.claimed _ _) hs.events)⟩⟩
  | pending n =>
    rw [claim_of_pending hl, claim_of_pending hl', hs.coordinator, hs.now]
    exact ⟨.nil, ⟨rfl, rfl, hs.opened, hs.sweeps, hs.parked,
      List.rel_append hs.waiters (.cons (.of hd n) .nil), .cons (hd.claimed _ _) hs.events⟩⟩
  | claimed n =>
    rw [claim_of_claimed hl, claim_of_claimed hl', hs.coordinator, hs.now]
    exact ⟨.cons (.of hd n true) .nil, ⟨rfl, rfl, hs.opened, hs.sweeps, hs.parked, hs.waiters,
      .cons (hd.claimed _ _) hs.events⟩⟩

theorem proceed (h : c'.Replaces c) (hs : Session.Swapped c c' s s')
    (he : Execution.Swapped c c' e e') :
    List.Forall₂ (c.Swapped c') (s.proceed e).1 (s'.proceed e').1 ∧
      Session.Swapped c c' (s.proceed e).2 (s'.proceed e').2 := by
  have hgate : e'.closedGate? s'.opened = e.closedGate? s.opened := by
    rw [hs.opened]
    exact he.closedGate? h s.opened
  have hcaller := he.caller
  cases hg : (e.closedGate? s.opened).isSome with
  | true =>
    rw [proceed_of_closed hg, proceed_of_closed (hgate ▸ hg)]
    exact ⟨.nil, ⟨hs.coordinator, hs.now, hs.opened, hs.sweeps,
      List.rel_append hs.parked (.cons he .nil), hs.waiters, hs.events⟩⟩
  | false =>
    have hwaiting := hs.waitingOn e.number
    have hlength := hwaiting.length_eq
    cases he with
    | of hd n attended =>
      rcases hd.result h with ⟨o, hr, hr'⟩ | ⟨b, b', hr, hr', htold⟩
      · rw [proceed_of_ok hg hr, proceed_of_ok (hgate ▸ hg) hr', hs.coordinator, hs.now, hd.id h]
        exact ⟨.nil, ⟨rfl, rfl, hs.opened, hs.sweeps, hs.parked, hs.dismissed n,
          List.rel_append (answers h (List.rel_append hcaller hwaiting) o)
            (.cons (.same _) hs.events)⟩⟩
      · rw [proceed_of_error hg hr, proceed_of_error (hgate ▸ hg) hr', hs.coordinator, hs.now,
          hd.id h]
        dsimp only at hlength
        dsimp only
        rw [← hlength]
        refine ⟨hwaiting, ⟨rfl, rfl, hs.opened, hs.sweeps, hs.parked, hs.dismissed n,
          List.rel_append ?_ (.cons (.same _) hs.events)⟩⟩
        cases attended with
        | false => exact .nil
        | true => exact .cons htold .nil

theorem claimAll (h : c'.Replaces c) (hs : Session.Swapped c c' s s')
    (hcs : List.Forall₂ (c.Swapped c') cs cs') :
    List.Forall₂ (Execution.Swapped c c') (s.claimAll cs).1 (s'.claimAll cs').1 ∧
      Session.Swapped c c' (s.claimAll cs).2 (s'.claimAll cs').2 := by
  induction hcs generalizing s s' with
  | nil => exact ⟨.nil, hs⟩
  | cons hd _ ih =>
    obtain ⟨hstarted, hclaimed⟩ := hs.claim h hd
    obtain ⟨hothers, hall⟩ := ih hclaimed
    exact ⟨List.rel_append hstarted hothers, hall⟩

theorem proceedAll (h : c'.Replaces c) (hs : Session.Swapped c c' s s')
    (hes : List.Forall₂ (Execution.Swapped c c') es es') :
    List.Forall₂ (c.Swapped c') (s.proceedAll es).1 (s'.proceedAll es').1 ∧
      Session.Swapped c c' (s.proceedAll es).2 (s'.proceedAll es').2 := by
  induction hes generalizing s s' with
  | nil => exact ⟨.nil, hs⟩
  | cons he _ ih =>
    obtain ⟨hreleased, hproceeded⟩ := hs.proceed h he
    obtain ⟨hothers, hall⟩ := ih hproceeded
    exact ⟨List.rel_append hreleased hothers, hall⟩

end Session.Swapped

namespace Schedule
variable {c c' : Call V}

/-- Where the one does not tell the two calls from each other, it serves for both sessions. -/
def Serves (c c' : Call V) (σ τ : Schedule V) : Prop := σ.Blind c c' → τ = σ

theorem Serves.until {σ τ τ' : Schedule V} (h : σ.Serves c c' τ) (h' : σ.Serves c c' τ')
    (bound : Nat) : σ.Serves c c' (τ.until bound τ') := by
  intro blind
  rw [h blind, h' blind]
  simp [Schedule.until]

/-- Whatever the order of callers, those of the other session can come in the same one. -/
theorem exists_arrange_swapped (σ : Schedule V) (n : Nat) {cs cs' : List (Call V)}
    (hcs : List.Forall₂ (c.Swapped c') cs cs') :
    ∃ τ, σ.Serves c c' τ ∧ List.Forall₂ (c.Swapped c') (σ.arrange n cs) (τ.arrange n cs') := by
  by_cases blind : σ.Blind c c'
  · exact ⟨σ, fun _ => rfl, blind n cs cs' hcs⟩
  · obtain ⟨ds, hds, hperm⟩ := List.perm_comp_forall₂ (σ.perm n cs) hcs
    refine ⟨arranging cs' ds hperm, fun hb => absurd hb blind, ?_⟩
    rw [arranging]
    dsimp only
    rw [if_pos rfl]
    exact hds

end Schedule

namespace Session.Swapped
open Activity
variable {c c' : Call V} {es es' : List (Execution V)} {s s' : Session V} {st st' : Step V}

theorem round (h : c'.Replaces c) (hs : Session.Swapped c c' s s')
    (hes : List.Forall₂ (Execution.Swapped c c') es es') (σ : Schedule V) :
    ∃ τ, σ.Serves c c' τ ∧
      List.Forall₂ (Execution.Swapped c c') (s.round σ es).1 (s'.round τ es').1 ∧
      Session.Swapped c c' (s.round σ es).2 (s'.round τ es').2 := by
  obtain ⟨hreleased, hproceeded⟩ := hs.proceedAll h hes
  let n := (s.proceedAll es).2.events.length
  obtain ⟨τ, serves, harranged⟩ := σ.exists_arrange_swapped n hreleased
  refine ⟨τ, serves, ?_⟩
  unfold Session.round
  rw [← hproceeded.events.length_eq]
  exact hproceeded.claimAll h harranged

theorem settle (h : c'.Replaces c) (hs : Session.Swapped c c' s s')
    (hes : List.Forall₂ (Execution.Swapped c c') es es') (σ : Schedule V) :
    ∃ τ, σ.Serves c c' τ ∧ Session.Swapped c c' (s.settle σ es) (s'.settle τ es') := by
  induction s, es using round_induction σ generalizing s' es' with
  | done s es hdone =>
    obtain ⟨τ, serves, hready, hround⟩ := hs.round h hes σ
    rw [hdone, List.forall₂_nil_left_iff] at hready
    refine ⟨τ, serves, ?_⟩
    rw [settle_eq_round σ, settle_eq_round τ, if_pos hdone, if_pos hready]
    exact hround
  | more s es hmore ih =>
    obtain ⟨τ, serves, hready, hround⟩ := hs.round h hes σ
    obtain ⟨τ', serves', hrest⟩ := ih hround hready
    refine ⟨τ.until (s'.round τ es').2.events.length τ', serves.until serves' _, ?_⟩
    rw [← settle_round σ, settle_until]
    exact hrest

theorem unfinished (hs : Session.Swapped c c' s s') :
    List.Forall₂ (c.Swapped c') s.unfinished s'.unfinished := by
  refine List.rel_append (List.rel_flatMap hs.parked fun _ _ he => he.caller) ?_
  refine List.rel_map ?_ hs.waiters
  rintro w w' ⟨hd, n⟩
  exact hd

theorem isWaiting (h : c'.Replaces c) (hs : Session.Swapped c c' s s') (name : String) :
    s'.isWaiting name = s.isWaiting name := by
  unfold Session.isWaiting
  have hcs := hs.unfinished
  generalize s.unfinished = cs, s'.unfinished = cs' at hcs
  induction hcs with
  | nil => rfl
  | cons hd _ ih => rw [List.any_cons, List.any_cons, ih, hd.name h]

theorem sweep (hs : Session.Swapped c c' s s') : Session.Swapped c c' s.sweep s'.sweep where
  coordinator := by
    rw [Session.sweep, Session.sweepDue, hs.sweeps, hs.now, hs.coordinator]
    rfl
  now := hs.now
  opened := hs.opened
  sweeps := by
    rw [Session.sweep, Session.sweepDue, hs.sweeps, hs.now]
    rfl
  parked := hs.parked
  waiters := hs.waiters
  events := hs.events

theorem drop (h : c'.Replaces c) (hs : Session.Swapped c c' s s') (name : String) :
    Session.Swapped c c' (s.drop name) (s'.drop name) where
  coordinator := hs.coordinator
  now := hs.now
  opened := hs.opened
  sweeps := hs.sweeps
  parked := List.rel_map (fun _ _ he => he.leave h name) hs.parked
  waiters := by
    refine List.rel_filter ?_ hs.waiters
    rintro w w' ⟨hd, n⟩
    simp only [hd.name h]
  events := by
    show List.Forall₂ _ (_ :: s.events) (_ :: s'.events)
    rw [hs.isWaiting h]
    exact .cons (.same _) hs.events

theorem openGate (h : c'.Replaces c) (hs : Session.Swapped c c' s s') (gate : String) :
    let a := Activity.openGate { session := s } gate
    let a' := Activity.openGate { session := s' } gate
    Session.Swapped c c' a.session a'.session ∧
      List.Forall₂ (Execution.Swapped c c') a.ready a'.ready := by
  intro a a'
  have hgate : ∀ e e', Execution.Swapped c c' e e' →
      (decide (e.closedGate? s.opened = some gate) ↔
        decide (e'.closedGate? s'.opened = some gate)) := by
    intro e e' he
    rw [hs.opened, he.closedGate? h]
  refine ⟨⟨hs.coordinator, hs.now, congrArg (gate :: ·) hs.opened, hs.sweeps, ?_, hs.waiters,
    hs.events⟩, ?_⟩
  · show List.Forall₂ _ (List.partition _ _).2 (List.partition _ _).2
    rw [List.partition_eq_filter_filter, List.partition_eq_filter_filter]
    refine List.rel_filter ?_ hs.parked
    intro e e' he
    simpa using not_congr (hgate e e' he)
  · show List.Forall₂ _ ([] ++ (List.partition _ _).1) ([] ++ (List.partition _ _).1)
    rw [List.partition_eq_filter_filter, List.partition_eq_filter_filter]
    exact List.rel_filter (fun e e' he => hgate e e' he) hs.parked

theorem begin (h : c'.Replaces c) (hs : Session.Swapped c c' s s') (hst : st.Swapped c c' st') :
    Session.Swapped c c' (begin s st).session (begin s' st').session ∧
      List.Forall₂ (Execution.Swapped c c') (begin s st).ready (begin s' st').ready ∧
      List.Forall₂ (c.Swapped c') (begin s st).claimants (begin s' st').claimants := by
  cases hst with
  | swapped => exact ⟨hs, .nil, .cons .swapped .nil⟩
  | same =>
    cases st with
    | call d => exact ⟨hs, .nil, .cons (.same d) .nil⟩
    | openGate gate =>
      obtain ⟨hopened, hready⟩ := hs.openGate h gate
      exact ⟨hopened, hready, .nil⟩
    | drop name => exact ⟨hs.drop h name, .nil, .nil⟩
    | advance d =>
      exact ⟨⟨hs.coordinator, congrArg (· + d) hs.now, hs.opened, hs.sweeps, hs.parked, hs.waiters,
        hs.events⟩, .nil, .nil⟩
    | purge =>
      refine ⟨⟨?_, hs.now, hs.opened, hs.sweeps, hs.parked, hs.waiters, ?_⟩, .nil, .nil⟩
      · show (s'.coordinator.purge s'.now).2 = (s.coordinator.purge s.now).2
        rw [hs.coordinator, hs.now]
      · show List.Forall₂ _ (.purged (s.coordinator.purge s.now).1 :: s.events)
          (.purged (s'.coordinator.purge s'.now).1 :: s'.events)
        rw [hs.coordinator, hs.now]
        exact .cons (.same _) hs.events
    | startSweep timer interval =>
      refine ⟨⟨hs.coordinator, hs.now, hs.opened, ?_, hs.parked, hs.waiters, hs.events⟩, .nil, .nil⟩
      show s'.sweeps ++ [.start timer interval s'.now] =
        s.sweeps ++ [.start timer interval s.now]
      rw [hs.sweeps, hs.now]
    | stopSweeps =>
      exact ⟨⟨hs.coordinator, hs.now, hs.opened, rfl, hs.parked, hs.waiters, hs.events⟩, .nil, .nil⟩
    | look => exact ⟨hs, .nil, .nil⟩

theorem step (h : c'.Replaces c) (hs : Session.Swapped c c' s s') (hst : st.Swapped c c' st')
    (σ : Schedule V) :
    ∃ τ, σ.Serves c c' τ ∧ Session.Swapped c c' (s.step σ st) (s'.step τ st') := by
  obtain ⟨hbegun, hready, hclaimants⟩ := hs.begin h hst
  obtain ⟨hstarted, hclaimed⟩ := hbegun.claimAll h hclaimants
  obtain ⟨τ, serves, hsettled⟩ := hclaimed.settle h (List.rel_append hready hstarted) σ
  rw [← act_eq_settle, ← act_eq_settle] at hsettled
  exact ⟨τ, serves, hsettled.sweep⟩

/-- Whatever the schedule of the one run, there is one for the other. -/
theorem run (h : c'.Replaces c) (hs : Session.Swapped c c' s s') {steps steps' : List (Step V)}
    (hsteps : List.Forall₂ (Step.Swapped c c') steps steps') (σ : Schedule V) :
    ∃ τ, σ.Serves c c' τ ∧
      ∀ n, Session.Swapped c c' (s.run σ (steps.take n)) (s'.run τ (steps'.take n)) := by
  induction hsteps generalizing s s' with
  | nil =>
    refine ⟨σ, fun _ => rfl, fun n => ?_⟩
    rw [List.take_nil]
    exact hs
  | @cons st st' steps steps' hst _ ih =>
    obtain ⟨τ, serves, hstep⟩ := hs.step h hst σ
    obtain ⟨τ', serves', hrun⟩ := ih hstep
    refine ⟨τ.until (s'.step τ st').events.length τ', serves.until serves' _, fun n => ?_⟩
    cases n with
    | zero => exact hs
    | succ n =>
      rw [List.take_succ_cons, List.take_succ_cons, run_cons_until]
      exact hrun n

theorem started (hs : Session.Swapped c c' s s') : s'.started = s.started := by
  rw [started_eq_countP, started_eq_countP, List.countP_eq_length_filter,
    List.countP_eq_length_filter]
  refine (List.Forall₂.length_eq (List.rel_filter ?_ hs.events)).symm
  intro e e' he
  cases he with
  | same => exact Iff.rfl
  | claimed now decision => cases decision <;> exact Iff.rfl
  | _ => exact Iff.rfl

theorem since {t t' : Session V} (ht : Session.Swapped c c' t t') (hs : Session.Swapped c c' s s') :
    List.Forall₂ (Event.Swapped c c') (s.since t) (s'.since t') := by
  unfold Session.since
  rw [← hs.events.length_eq, ← ht.events.length_eq]
  exact List.rel_reverse (List.forall₂_take _ hs.events)

end Session.Swapped

namespace Session
open Activity
variable {maxSize ttl : Nat}

/-- An execution that comes to no gate and breaks down gives back its claim, and nothing else of the
memory has changed. The next one to claim the id starts its handler. -/
theorem proceed_of_breaksDown {a : Activity V} (h : Reachable maxSize ttl a) {e : Execution V}
    (he : e ∈ a.ready) {b : Breakdown} (hb : e.call.handler.BreaksDown b) :
    let k := a.session.coordinator
    let s := (a.session.proceed e).2
    s.coordinator = { k with
        memo := { k.memo with slots := k.memo.slots.erase e.call.id }
        rollbacks := k.rollbacks + 1 } ∧
      ∀ d, d.id = e.call.id →
        (s.claim d).1 = some { call := d, number := k.memo.nextGeneration } := by
  intro k s
  have hrunning : (e.call, e.number) ∈ a.running :=
    List.mem_map_of_mem (f := Execution.key) (List.mem_append_right _ he)
  have hclaimed : k.memo.slots.find? e.call.id = some (.claimed e.number e.number) :=
    (k.memo.find?_claims_eq_some_iff _ _ _).mp (h.accounted.2.find?_claims_of_running hrunning)
  have hgate : (e.closedGate? a.session.opened).isSome = false := by
    rw [Execution.closedGate?, hb.gate]
    rfl
  have howned : k.memo.isClaimedBy e.call.id e.number = true := by
    unfold Memo.isClaimedBy
    rw [hclaimed]
    exact decide_eq_true rfl
  have hreleased : k.rollBack e.call.id e.number = { k with
      memo := { k.memo with slots := k.memo.slots.erase e.call.id }
      rollbacks := k.rollbacks + 1 } := by
    rw [Coordinator.rollBack, Memo.release, if_pos howned]
  have hcoordinator : s.coordinator = k.rollBack e.call.id e.number := by
    simp only [s]
    rw [proceed_of_error hgate hb.result]
  rw [hreleased] at hcoordinator
  refine ⟨hcoordinator, fun d hd => ?_⟩
  have hfree : s.coordinator.memo.slots.find? d.id = none := by
    rw [hcoordinator, hd]
    dsimp only
    rw [Table.find?_erase, if_pos rfl]
  have hlookup : s.coordinator.memo.lookup s.now d.id s.coordinator.memo.nextGeneration =
      s.coordinator.memo.claim d.id s.coordinator.memo.nextGeneration := by
    rw [Memo.lookup, hfree]
  rw [claim_of_claimed hlookup, hcoordinator]

/-- From `t'` to `u'` the same happens as from `t` to `u`, with `c'` in the place of `c`. -/
structure AlikeBut (c c' : Call V) (t u t' u' : Session V) : Prop where
  coordinator : u'.coordinator = u.coordinator
  started : u'.started = u.started
  since : List.Forall₂ (Event.Swapped c c') (u.since t) (u'.since t')
  unfinished : List.Forall₂ (c.Swapped c') u.unfinished u'.unfinished

/-- Take a run, and put in the place of one call another one that differs in its handler only. Both
handlers come to no gate and break down, in whatever way. Then every step leaves the same counters,
the same callers unanswered and as many handlers started, and tells the same, but for the breakdown
that the caller itself is told of. Released callers claim in the same order, if that does not depend
on which of the two calls is there. Wherever such a handler breaks down, that is counted once, its
claim is given back, nothing is remembered, and the next one to claim the id starts its handler. -/
theorem breakdowns_alike (σ : Schedule V) (maxSize ttl : Nat) {c c' : Call V} (h : c'.Replaces c)
    (before after : List (Step V)) :
    let s : Session V := { coordinator := .new maxSize ttl }
    let steps := before ++ .call c :: after
    let steps' := before ++ .call c' :: after
    (∃ τ, (σ.Blind c c' → τ = σ) ∧
      ∀ n, AlikeBut c c' (s.run σ (steps.take n)) (s.run σ (steps.take (n + 1)))
        (s.run τ (steps'.take n)) (s.run τ (steps'.take (n + 1)))) ∧
      ∀ a, Reachable maxSize ttl a → ∀ e ∈ a.ready, e.call = c →
        let k := a.session.coordinator
        let s := (a.session.proceed e).2
        s.coordinator = { k with
            memo := { k.memo with slots := k.memo.slots.erase c.id }
            rollbacks := k.rollbacks + 1 } ∧
          ∀ d, d.id = c.id →
            (s.claim d).1 = some { call := d, number := k.memo.nextGeneration } := by
  intro s steps steps'
  constructor
  · have hsame : Session.Swapped c c' s s := ⟨rfl, rfl, rfl, rfl, .nil, .nil, .nil⟩
    have hothers : ∀ sts : List (Step V), List.Forall₂ (Step.Swapped c c') sts sts := fun sts =>
      List.forall₂_same.mpr fun st _ => .same st
    have hsteps : List.Forall₂ (Step.Swapped c c') steps steps' :=
      List.rel_append (hothers before) (.cons .swapped (hothers after))
    obtain ⟨τ, serves, hrun⟩ := hsame.run h hsteps σ
    refine ⟨τ, serves, fun n => ?_⟩
    have ht := hrun n
    have hu := hrun (n + 1)
    exact ⟨hu.coordinator, hu.started, ht.since hu, hu.unfinished⟩
  · rintro a reached e he rfl
    obtain ⟨b, hb⟩ := h.breaksDown
    exact proceed_of_breaksDown reached he hb

/-- A caller has waited for a handler that breaks down, and its own breaks down too, with an error
or before it has begun to run. A third caller is served all the same. -/
theorem breakdowns_alike_of_waiter :
    let first : Call Nat :=
      ⟨"first", ⟨"id"⟩, .wide, { gate := some "gate", ending := .breakdown (.undeclared []) }⟩
    let second : Call Nat :=
      ⟨"second", ⟨"id"⟩, .wide, { ending := .breakdown (.undeclared ["lost"]) }⟩
    let stillborn : Call Nat := ⟨"second", ⟨"id"⟩, .wide,
      { gate := some "gate", ending := .breakdown (.stillborn "lost") }⟩
    let third : Call Nat := ⟨"third", ⟨"id"⟩, .narrow, { ending := .value 8 }⟩
    let s : Session Nat := { coordinator := .new 2 10 }
    let steps (c : Call Nat) : List (Step Nat) :=
      [.call first] ++ .call c :: [.call third, .openGate "gate"]
    let ended (c : Call Nat) := s.run .arrival (steps c)
    stillborn.Replaces second ∧ (ended second).coordinator.rollbacks = 2 ∧
      (ended second).coordinator.executions = 3 ∧
      AlikeBut second stillborn (s.run .arrival ((steps second).take 3)) (ended second)
        (s.run .arrival ((steps stillborn).take 3)) (ended stillborn) := by
  intro first second stillborn third s steps ended
  have replaces : stillborn.Replaces second :=
    ⟨rfl, rfl, rfl, ⟨_, rfl, rfl⟩, ⟨_, rfl, rfl⟩⟩
  have counted : (ended second).coordinator.rollbacks = 2 ∧
      (ended second).coordinator.executions = 3 := by
    simp only [ended, steps, s, first, second, third]
    cbv
  obtain ⟨⟨τ, serves, alike⟩, -⟩ := breakdowns_alike .arrival 2 10 replaces [.call first]
    [.call third, .openGate "gate"]
  obtain rfl := serves (Schedule.blind_arrival second stillborn)
  exact ⟨replaces, counted.1, counted.2, alike 3⟩

end Session
end AtMostOnce
