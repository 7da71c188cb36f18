import AtMostOnce.Proofs.Memo.Swept
import AtMostOnce.Proofs.Session.Rounds
import AtMostOnce.Proofs.Session.Tally

/-! Twin sessions. Of two sessions that are alike but for outcomes whose time is over, one is purged
now and then. Whatever else is done to both, they go on alike. -/
namespace AtMostOnce
variable {V : Type}

/-- A step that purges, or that starts or stops sweeps. -/
def Step.isPurging : Step V → Bool
  | .purge | .startSweep .. | .stopSweeps => true
  | _ => false

namespace Session
open Activity

/-- The session with another memory, other sweeps and another log. -/
def twin (s : Session V) (m : Memo V Nat) (sweeps : List Sweep) (log : List (Event V)) :
    Session V where
  coordinator := { s.coordinator with memo := m }
  now := s.now
  parked := s.parked
  waiters := s.waiters
  opened := s.opened
  sweeps := sweeps
  events := log

/-- A session without sweeps and its twin, to which the same has happened since their logs were `b`
and `b'`. The memory of the twin is swept of some outcomes whose time is over. -/
inductive Twins (b b' : List (Event V)) (s : Session V) : Session V → Prop where
  | intro (m : Memo V Nat) (sweeps : List Sweep) (told : List (Event V))
    (memo : Memo.Swept s.now s.coordinator.memo m) (still : s.sweeps = [])
    (logged : s.events = told ++ b) (starts : b'.countP Event.isStart = b.countP Event.isStart) :
    Twins b b' s (s.twin m sweeps (told ++ b'))

theorem sweep_of_still {s : Session V} (h : s.sweeps = []) : s.sweep = s := by
  unfold sweep
  rw [sweepDue, h, List.map_nil, Sweep.purgeDue, ← h]

namespace Twins
variable {b b' : List (Event V)} {s s' : Session V}

theorem of_eq (m : Memo V Nat) (sweeps : List Sweep) (told : List (Event V))
    (memo : Memo.Swept s.now s.coordinator.memo m) (still : s.sweeps = [])
    (logged : s.events = told ++ b) (starts : b'.countP Event.isStart = b.countP Event.isStart)
    (h : s' = s.twin m sweeps (told ++ b')) : Twins b b' s s' :=
  h ▸ .intro m sweeps told memo still logged starts

theorem claim (h : Twins b b' s s') (c : Call V) :
    (s'.claim c).1 = (s.claim c).1 ∧ Twins b b' (s.claim c).2 (s'.claim c).2 := by
  obtain ⟨m, sweeps, told, memo, still, logged, starts⟩ := h
  obtain ⟨hanswer, hswept⟩ := memo.lookup c.id s.coordinator.memo.nextGeneration
  rcases hd : s.coordinator.memo.lookup s.now c.id s.coordinator.memo.nextGeneration
    with ⟨answer, m₁⟩
  rcases hd' : m.lookup s.now c.id s.coordinator.memo.nextGeneration with ⟨answer', m₁'⟩
  rw [hd, hd'] at hanswer hswept
  obtain rfl : answer' = answer := hanswer
  have hd' : (s.twin m sweeps (told ++ b')).coordinator.memo.lookup s.now c.id
      (s.twin m sweeps (told ++ b')).coordinator.memo.nextGeneration = (answer', m₁') := by
    rw [← hd', ← memo.nextGeneration_eq]
    rfl
  cases answer' with
  | live o =>
    rw [claim_of_live hd, claim_of_live hd']
    exact ⟨rfl, .intro m₁' sweeps (_ :: _ :: told) hswept still
      (congrArg (fun log => _ :: _ :: log) logged) starts⟩
  | pending n =>
    rw [claim_of_pending hd, claim_of_pending hd']
    exact ⟨rfl, .intro m₁' sweeps (_ :: told) hswept still
      (congrArg (fun log => _ :: log) logged) starts⟩
  | claimed n =>
    rw [claim_of_claimed hd, claim_of_claimed hd']
    exact ⟨rfl, .intro m₁' sweeps (_ :: told) hswept still
      (congrArg (fun log => _ :: log) logged) starts⟩

theorem claimAll (h : Twins b b' s s') (cs : List (Call V)) :
    (s'.claimAll cs).1 = (s.claimAll cs).1 ∧ Twins b b' (s.claimAll cs).2 (s'.claimAll cs).2 := by
  induction cs generalizing s s' with
  | nil => exact ⟨rfl, h⟩
  | cons c cs ih =>
    obtain ⟨hfirst, htwins⟩ := h.claim c
    obtain ⟨hrest, htwins'⟩ := ih htwins
    refine ⟨?_, htwins'⟩
    simp only [Session.claimAll]
    rw [hfirst, hrest]

theorem proceed (h : Twins b b' s s') (e : Execution V) :
    (s'.proceed e).1 = (s.proceed e).1 ∧ Twins b b' (s.proceed e).2 (s'.proceed e).2 := by
  obtain ⟨m, sweeps, told, memo, still, logged, starts⟩ := h
  cases hg : (e.closedGate? s.opened).isSome with
  | true =>
    have hg' : (e.closedGate? (s.twin m sweeps (told ++ b')).opened).isSome = true := hg
    rw [proceed_of_closed hg, proceed_of_closed hg']
    exact ⟨rfl, .intro m sweeps told memo still logged starts⟩
  | false =>
    have hg' : (e.closedGate? (s.twin m sweeps (told ++ b')).opened).isSome = false := hg
    cases hres : e.call.handler.result with
    | ok o =>
      rw [proceed_of_ok hg hres, proceed_of_ok hg' hres]
      let news : List (Event V) := answers (e.caller ++ s.waitingOn e.number) o ++
        [.committed s.now e.call.id e.number o]
      refine ⟨rfl, .of_eq (m.commit s.now e.call.id e.number o) sweeps (news ++ told)
        (memo.commit e.call.id e.number o) still ?_ starts ?_⟩
      · simp [news, logged]
      · simp only [news, List.append_assoc, List.singleton_append]
        rfl
    | error f =>
      rw [proceed_of_error hg hres, proceed_of_error hg' hres]
      let news : List (Event V) := (e.caller.map fun c => .finished c (.error (.internal f))) ++
        [.rolledBack s.now e.call.id e.number (s.waitingOn e.number).length]
      refine ⟨rfl, .of_eq (m.release e.call.id e.number) sweeps (news ++ told)
        (memo.release e.call.id e.number) still ?_ starts ?_⟩
      · simp [news, logged]
      · simp only [news, List.append_assoc, List.singleton_append]
        rfl

theorem proceedAll (h : Twins b b' s s') (es : List (Execution V)) :
    (s'.proceedAll es).1 = (s.proceedAll es).1 ∧
      Twins b b' (s.proceedAll es).2 (s'.proceedAll es).2 := by
  induction es generalizing s s' with
  | nil => exact ⟨rfl, h⟩
  | cons e es ih =>
    obtain ⟨hfirst, htwins⟩ := h.proceed e
    obtain ⟨hrest, htwins'⟩ := ih htwins
    refine ⟨?_, htwins'⟩
    simp only [Session.proceedAll]
    rw [hfirst, hrest]

section
variable {σ σ' : Schedule V} (aligned : ∀ n, σ'.arrange (b'.length + n) = σ.arrange (b.length + n))
include aligned

/-- Released callers claim in the same order, reckoned from when the logs were `b` and `b'`. -/
theorem arrange (h : Twins b b' s s') (cs : List (Call V)) :
    σ'.arrange s'.events.length cs = σ.arrange s.events.length cs := by
  obtain ⟨m, sweeps, told, memo, still, logged, starts⟩ := h
  have hlength : s.events.length = b.length + told.length := by
    rw [logged, List.length_append, Nat.add_comm]
  have hlength' : (s.twin m sweeps (told ++ b')).events.length = b'.length + told.length := by
    rw [twin, List.length_append, Nat.add_comm]
  rw [hlength, hlength', aligned]

theorem round (h : Twins b b' s s') (ready : List (Execution V)) :
    (s'.round σ' ready).1 = (s.round σ ready).1 ∧
      Twins b b' (s.round σ ready).2 (s'.round σ' ready).2 := by
  obtain ⟨hreleased, hround⟩ := h.proceedAll ready
  unfold Session.round
  rw [hreleased, hround.arrange aligned]
  exact hround.claimAll _

theorem settle (h : Twins b b' s s') (ready : List (Execution V)) :
    Twins b b' (s.settle σ ready) (s'.settle σ' ready) := by
  induction s, ready using round_induction σ generalizing s' with
  | done s ready hdone =>
    obtain ⟨hstarted, hround⟩ := h.round aligned ready
    rw [settle_eq_round σ s, settle_eq_round σ' s', if_pos hdone, if_pos (hstarted.trans hdone)]
    exact hround
  | more s ready hmore ih =>
    obtain ⟨hstarted, hround⟩ := h.round aligned ready
    rw [settle_eq_round σ s, settle_eq_round σ' s', if_neg hmore,
      if_neg (hstarted.trans_ne hmore), hstarted]
    exact ih hround

theorem startCall (h : Twins b b' s s') (c : Call V) :
    Twins b b' (s.startCall σ c) (s'.startCall σ' c) := by
  obtain ⟨hstarted, hclaimed⟩ := h.claim c
  have hstart : s'.startCall σ' c = (s'.claim c).2.settle σ' (s.claim c).1.toList := by
    rw [← hstarted]
    rfl
  rw [hstart]
  exact hclaimed.settle aligned (s.claim c).1.toList

theorem openGate (h : Twins b b' s s') (gate : String) :
    Twins b b' (s.openGate σ gate) (s'.openGate σ' gate) := by
  obtain ⟨m, sweeps, told, memo, still, logged, starts⟩ := h
  let opened : Session V := { s with
    opened := gate :: s.opened
    parked := (s.parked.partition fun e => e.closedGate? s.opened = some gate).2 }
  have htwins : Twins b b' opened (opened.twin m sweeps (told ++ b')) :=
    .intro m sweeps told memo still logged starts
  exact htwins.settle aligned (s.parked.partition fun e => e.closedGate? s.opened = some gate).1

end

theorem drop (h : Twins b b' s s') (name : String) : Twins b b' (s.drop name) (s'.drop name) := by
  obtain ⟨m, sweeps, told, memo, still, logged, starts⟩ := h
  exact .intro m sweeps (.dropped name (s.isWaiting name) :: told) memo still
    (congrArg (Event.dropped name (s.isWaiting name) :: ·) logged) starts

theorem advance (h : Twins b b' s s') (d : Nat) :
    Twins b b' { s with now := s.now + d } { s' with now := s'.now + d } := by
  obtain ⟨m, sweeps, told, memo, still, logged, starts⟩ := h
  exact .intro m sweeps told (memo.later (Nat.le_add_right _ _)) still logged starts

/-- What a step does by itself, it does to both, unless it purges. -/
theorem act {σ σ' : Schedule V}
    (aligned : ∀ n, σ'.arrange (b'.length + n) = σ.arrange (b.length + n))
    (h : Twins b b' s s') {st : Step V} (hst : st.isPurging = false) :
    Twins b b' (s.act σ st) (s'.act σ' st) := by
  cases st with
  | call c => exact h.startCall aligned c
  | openGate gate => exact h.openGate aligned gate
  | drop name => exact h.drop name
  | advance d => exact h.advance d
  | look => exact h
  | purge => cases hst
  | startSweep timer interval => cases hst
  | stopSweeps => cases hst

/-- Sweeps purge the twin and nothing else. -/
theorem sweep (h : Twins b b' s s') : Twins b b' s.sweep s'.sweep := by
  obtain ⟨m, sweeps, told, memo, still, logged, starts⟩ := h
  let t := s.twin m sweeps (told ++ b')
  obtain ⟨m', hm', hpurged⟩ : ∃ m', Memo.Swept s.now s.coordinator.memo m' ∧
      t.sweep.coordinator = { s.coordinator with memo := m' } := by
    refine Sweep.purgeDue_invariant (P := fun k : Coordinator V => ∃ m',
      Memo.Swept s.now s.coordinator.memo m' ∧ k = { s.coordinator with memo := m' }) ?_
      ⟨m, memo, rfl⟩
    rintro k ⟨m', hm', rfl⟩
    exact ⟨(m'.purge s.now).2, hm'.purge, rfl⟩
  rw [sweep_of_still still]
  refine .of_eq m' (sweeps.map fun w => w.advance s.now) told hm' still logged starts ?_
  show ({ t with
    coordinator := t.sweep.coordinator
    sweeps := sweeps.map fun w => w.advance s.now } : Session V) = _
  rw [hpurged]
  rfl

theorem step {σ σ' : Schedule V}
    (aligned : ∀ n, σ'.arrange (b'.length + n) = σ.arrange (b.length + n))
    (h : Twins b b' s s') {st : Step V} (hst : st.isPurging = false) :
    Twins b b' (s.step σ st) (s'.step σ' st) := (h.act aligned hst).sweep

/-- The logs so far are taken as the new beginning. -/
theorem restart (h : Twins b b' s s') : Twins s.events s'.events s s' := by
  obtain ⟨m, sweeps, told, memo, still, logged, starts⟩ := h
  refine .intro m sweeps [] memo still rfl ?_
  rw [twin, logged, List.countP_append, List.countP_append, starts]

/-- A step that purges is taken by the twin alone. -/
theorem purge (h : Twins b b' s s') (σ : Schedule V) {st : Step V} (hst : st.isPurging = true) :
    Twins s.events (s'.step σ st).events s (s'.step σ st) := by
  have acted : ∃ b'', Twins s.events b'' s (s'.act σ st) ∧ s.sweeps = [] := by
    obtain ⟨m, sweeps, told, memo, still, logged, starts⟩ := h
    have starts' : (told ++ b').countP Event.isStart = s.events.countP Event.isStart := by
      rw [logged, List.countP_append, List.countP_append, starts]
    cases st with
    | purge =>
      exact ⟨.purged (m.purge s.now).1 :: (told ++ b'),
        .intro (m.purge s.now).2 sweeps [] memo.purge still rfl starts', still⟩
    | startSweep timer interval =>
      exact ⟨_, .intro m (sweeps ++ [.start timer interval s.now]) [] memo still rfl starts', still⟩
    | stopSweeps => exact ⟨_, .intro m [] [] memo still rfl starts', still⟩
    | call c => cases hst
    | openGate gate => cases hst
    | drop name => cases hst
    | advance d => cases hst
    | look => cases hst
  obtain ⟨b'', hacted, still⟩ := acted
  have hswept := hacted.sweep
  rw [sweep_of_still still] at hswept
  exact hswept.restart

end Twins
end Session
end AtMostOnce
