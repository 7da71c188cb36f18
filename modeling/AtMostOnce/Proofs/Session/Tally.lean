import AtMostOnce.Proofs.Memo.Balance
import AtMostOnce.Proofs.Session.Account

/-! What the figures of a session count. Each counter is told by the log, and whatever has been
executed is in one place: rolled back, under way, held, evicted or expired. -/
namespace AtMostOnce
variable {V : Type}

def Event.isStart : Event V → Bool
  | .claimed _ _ (.execute _) => true
  | _ => false

theorem Session.started_eq_countP (s : Session V) :
    s.started = s.events.countP Event.isStart := by
  unfold started
  congr 1

def Event.isRollBack : Event V → Bool
  | .rolledBack .. => true
  | _ => false

def Step.isCall : Step V → Bool
  | .call _ => true
  | _ => false

namespace History

/-- The callers that wait on execution `n` and have not gone away. -/
def waitingOn (n : Nat) : List (Event V) → List (Call V)
  | [] => []
  | ev :: past =>
    match ev with
    | .claimed _ c (.wait m) => if m = n then waitingOn n past ++ [c] else waitingOn n past
    | .dropped name _ => (waitingOn n past).filter fun c => c.name ≠ name
    | .committed _ _ m _ | .rolledBack _ _ m _ => if m = n then [] else waitingOn n past
    | _ => waitingOn n past

/-- How many callers were waiting on executions when these broke down. -/
def released : List (Event V) → Nat
  | [] => 0
  | ev :: past =>
    match ev with
    | .rolledBack _ _ n _ => (waitingOn n past).length + released past
    | _ => released past

end History

namespace Activity
open History
variable {a b : Activity V}

/-- The counters are those of the log. -/
structure Counted (a : Activity V) : Prop where
  claims : a.session.coordinator.hits + a.session.coordinator.waits + a.session.coordinator.misses =
    a.log.countP Event.isClaim
  misses : a.session.coordinator.misses = a.log.countP Event.isStart
  executions : a.session.coordinator.executions = a.log.countP Event.isStart
  rollbacks : a.session.coordinator.rollbacks = a.log.countP Event.isRollBack

/-- Neither claims nor rollbacks. -/
def Uncounted (told : List (Event V)) : Prop :=
  ∀ ev ∈ told, ev.isClaim = false ∧ ev.isStart = false ∧ ev.isRollBack = false

theorem Uncounted.countP_eq_zero {told : List (Event V)} (h : Uncounted told) :
    told.countP Event.isClaim = 0 ∧ told.countP Event.isStart = 0 ∧
      told.countP Event.isRollBack = 0 := by
  simp only [List.countP_eq_zero, Bool.not_eq_true]
  exact ⟨fun ev hev => (h ev hev).1, fun ev hev => (h ev hev).2.1, fun ev hev => (h ev hev).2.2⟩

theorem uncounted_answers (cs : List (Call V)) (o : Outcome V) : Uncounted (answers cs o) := by
  intro ev hev
  obtain ⟨c, -, he⟩ := mem_answers_iff.mp hev
  rw [he]
  exact ⟨rfl, rfl, rfl⟩

namespace Counted

/-- What is not counted changes nothing. -/
theorem of_memo (h : a.Counted) (memo : Memo V Nat)
    (hk : b.session.coordinator = { a.session.coordinator with memo := memo })
    (told : List (Event V)) (logged : b.log = told ++ a.log) (ht : Uncounted told) :
    b.Counted := by
  obtain ⟨hc, hs, hr⟩ := ht.countP_eq_zero
  constructor
  · rw [hk, logged, List.countP_append, hc, Nat.zero_add]
    exact h.claims
  · rw [hk, logged, List.countP_append, hs, Nat.zero_add]
    exact h.misses
  · rw [hk, logged, List.countP_append, hs, Nat.zero_add]
    exact h.executions
  · rw [hk, logged, List.countP_append, hr, Nat.zero_add]
    exact h.rollbacks

theorem claim (h : a.Counted) (c : Call V) (es : List (Execution V)) (cs : List (Call V)) :
    Counted ⟨(a.session.claim c).2, es, cs⟩ := by
  obtain ⟨hc, hm, he, hr⟩ := h
  unfold log at hc hm he hr
  rcases hd : a.session.coordinator.memo.lookup a.session.now c.id
    a.session.coordinator.memo.nextGeneration with ⟨answer, m⟩
  cases answer with
  | live o =>
    rw [Session.claim_of_live hd]
    constructor <;>
      simp [log, List.countP_cons, Event.isClaim, Event.isStart, Event.isRollBack] <;> omega
  | pending n =>
    rw [Session.claim_of_pending hd]
    constructor <;>
      simp [log, List.countP_cons, Event.isClaim, Event.isStart, Event.isRollBack] <;> omega
  | claimed n =>
    rw [Session.claim_of_claimed hd]
    constructor <;>
      simp [log, List.countP_cons, Event.isClaim, Event.isStart, Event.isRollBack] <;> omega

theorem proceed (h : a.Counted) (e : Execution V) (es : List (Execution V))
    (cs : List (Call V)) : Counted ⟨(a.session.proceed e).2, es, cs⟩ := by
  cases hg : (e.closedGate? a.session.opened).isSome with
  | true =>
    rw [Session.proceed_of_closed hg]
    exact h.of_memo _ rfl [] rfl (by simp [Uncounted])
  | false =>
    cases hres : e.call.handler.result with
    | ok o =>
      rw [Session.proceed_of_ok hg hres]
      refine h.of_memo _ rfl (answers (e.caller ++ a.session.waitingOn e.number) o ++
        [.committed a.session.now e.call.id e.number o]) ?_ ?_
      · simp [log]
      · intro ev hev
        rcases List.mem_append.mp hev with hev | hev
        · exact uncounted_answers _ _ ev hev
        · rw [List.mem_singleton.mp hev]
          exact ⟨rfl, rfl, rfl⟩
    | error f =>
      rw [Session.proceed_of_error hg hres]
      have ht : Uncounted (e.caller.map fun c =>
          Event.finished (V := V) c (.error (.internal f))) := by
        intro ev hev
        obtain ⟨c, -, he⟩ := List.mem_map.mp hev
        rw [← he]
        exact ⟨rfl, rfl, rfl⟩
      obtain ⟨hc, hs, hr⟩ := ht.countP_eq_zero
      obtain ⟨hc', hm', he', hr'⟩ := h
      unfold log at hc' hm' he' hr'
      constructor <;>
        simp [log, List.countP_append, List.countP_cons, hc, hs, hr, Event.isClaim, Event.isStart,
          Event.isRollBack, Coordinator.rollBack] <;> omega

/-- Sweeps count nothing. -/
theorem memo_sweep (s : Session V) :
    ∃ memo, s.sweep.coordinator = { s.coordinator with memo := memo } := by
  refine Sweep.purgeDue_invariant
    (P := fun k : Coordinator V => ∃ memo, k = { s.coordinator with memo := memo }) ?_ ⟨_, rfl⟩
  rintro k ⟨memo, rfl⟩
  exact ⟨_, rfl⟩

theorem move (h : a.Counted) (hm : Move a b) : b.Counted := by
  cases hm with
  | claim c cs hc => exact h.claim c _ _
  | proceed e es hr => exact h.proceed e _ _
  | sweep =>
    obtain ⟨memo, hk⟩ := memo_sweep a.session
    exact h.of_memo memo hk [] rfl (by simp [Uncounted])
  | drop name =>
    refine h.of_memo _ rfl [_] rfl ?_
    simp [Uncounted, Event.isClaim, Event.isStart, Event.isRollBack]
  | purge =>
    refine h.of_memo _ rfl [_] rfl ?_
    simp [Uncounted, Event.isClaim, Event.isStart, Event.isRollBack]
  | _ => exact h.of_memo _ rfl [] rfl (by simp [Uncounted])

end Counted

theorem countP_milestones (a : Activity V) {p : Event V → Bool}
    (hp : ∀ ev, p ev = true → ev.isMilestone = true) :
    a.milestones.countP p = a.log.countP p := by
  rw [milestones, List.countP_filter]
  apply List.countP_congr
  intro ev _
  by_cases hev : p ev = true
  · simp [hev, hp ev hev]
  · simp [hev]

/-- Whatever has been started is rolled back, or the ledger has it to show. -/
theorem volume_effect (hk : a.Kept) (ha : a.Accounted) (he : Effect a b)
    (h : a.ledger.volume + a.milestones.countP Event.isRollBack =
      a.milestones.countP Event.isStart) :
    b.ledger.volume + b.milestones.countP Event.isRollBack =
      b.milestones.countP Event.isStart := by
  cases he with
  | start c n looked logged unsettled waiters clock =>
    have hm := milestones_of_milestone [] logged (by simp) rfl
    rw [Ledger.volume_of_claimed hk.ledger looked, hm,
      List.countP_cons_of_neg (by simp [Event.isRollBack]), List.countP_cons_of_pos rfl]
    omega
  | wait c n looked logged unsettled waiters clock =>
    obtain ⟨-, hl⟩ := Ledger.lookup_of_pending looked
    have hm := milestones_of_silent [_] logged (by simp [Event.isMilestone])
    rw [hm, hl]
    exact h
  | replay c o looked logged unsettled waiters clock =>
    obtain ⟨-, -, hl⟩ := Ledger.lookup_of_live looked
    have hm := milestones_of_silent [_, _] logged (by simp [Event.isMilestone])
    rw [hm, hl]
    exact h
  | commit e o result unsettled ledger logged waiters clock =>
    have hr : a.running.Perm (e.key :: b.running) := unsettled.map Execution.key
    have hm := milestones_of_milestone _ logged (fun ev => isMilestone_of_mem_answers) rfl
    have hf : a.ledger.claims.find? e.call.id = some (e.number, e.number) :=
      ha.find?_claims_of_running (hr.mem_iff.mpr List.mem_cons_self)
    rw [hm, ledger, Ledger.volume_commit hf]
    exact h
  | rollBack e f result unsettled ledger logged waiters clock =>
    have hr : a.running.Perm (e.key :: b.running) := unsettled.map Execution.key
    have hm := milestones_of_milestone _ logged (by simp [Event.isMilestone]) rfl
    have hf : a.ledger.claims.find? e.call.id = some (e.number, e.number) :=
      ha.find?_claims_of_running (hr.mem_iff.mpr List.mem_cons_self)
    have hv := Ledger.volume_release hf
    rw [hm, ledger, List.countP_cons_of_pos rfl, List.countP_cons_of_neg (by simp [Event.isStart])]
    omega
  | quiet noise silent logged unsettled ledger waiters clock =>
    have hm := milestones_of_silent _ logged fun ev hev => isMilestone_of_isNoise (silent ev hev)
    have hv : b.ledger.volume = a.ledger.volume := by
      rcases ledger with hl | hl <;> rw [hl]
      exact Ledger.volume_purge _ _
    rw [hm, hv]
    exact h

/-- Whoever waits is in the log, and has claimed once and then once more for each execution that
has broken down meanwhile. -/
structure Queued (calls : Nat) (a : Activity V) : Prop where
  waiting : ∀ n, a.session.waitingOn n = waitingOn n a.log
  claims : a.log.countP Event.isClaim + a.claimants.length = calls + released a.log

theorem waitingOn_dismiss (s : Session V) (m n : Nat) :
    (s.dismiss m).waitingOn n = if m = n then [] else s.waitingOn n := by
  unfold Session.waitingOn Session.dismiss
  rw [List.filter_filter]
  split
  · rename_i hmn
    rw [List.filter_eq_nil_iff.mpr (by simp [hmn]), List.map_nil]
  · rename_i hmn
    congr 1
    apply List.filter_congr
    intro w _
    by_cases hw : w.number = n
    · simp [hw, Ne.symm hmn]
    · simp [hw]

/-- Answers move nobody. -/
theorem waitingOn_released_append (told past : List (Event V))
    (h : ∀ ev ∈ told, ∃ c ans, ev = .finished c ans) :
    (∀ n, waitingOn n (told ++ past) = waitingOn n past) ∧ released (told ++ past) = released past ∧
      (told ++ past).countP Event.isClaim = past.countP Event.isClaim := by
  induction told with
  | nil => exact ⟨fun n => rfl, rfl, rfl⟩
  | cons ev told ih =>
    obtain ⟨c, ans, he⟩ := h ev List.mem_cons_self
    obtain ⟨hw, hr, hc⟩ := ih fun ev hev => h ev (List.mem_cons_of_mem _ hev)
    rw [he, List.cons_append]
    refine ⟨hw, hr, ?_⟩
    rw [List.countP_cons_of_neg (by simp [Event.isClaim]), hc]

namespace Queued
variable {calls : Nat}

theorem claim (h : a.Queued calls) {c : Call V} {cs : List (Call V)}
    (hc : a.claimants.Perm (c :: cs)) (es : List (Execution V)) :
    Queued calls ⟨(a.session.claim c).2, es, cs⟩ := by
  obtain ⟨hw, hn⟩ := h
  rw [hc.length_eq, List.length_cons] at hn
  unfold log at hw hn
  rcases hd : a.session.coordinator.memo.lookup a.session.now c.id
    a.session.coordinator.memo.nextGeneration with ⟨answer, m⟩
  cases answer with
  | live o =>
    rw [Session.claim_of_live hd]
    refine ⟨hw, ?_⟩
    simp only [log, released, List.countP_cons, Event.isClaim, if_true, Bool.false_eq_true,
      if_false]
    omega
  | pending n =>
    rw [Session.claim_of_pending hd]
    constructor
    · intro n'
      have hw' := hw n'
      simp only [Session.waitingOn, log, waitingOn, List.filter_append, List.map_append] at hw' ⊢
      rw [hw']
      by_cases hnn : n = n'
      · simp [hnn]
      · simp [hnn]
    · simp only [log, released, List.countP_cons, Event.isClaim, if_true]
      omega
  | claimed n =>
    rw [Session.claim_of_claimed hd]
    refine ⟨hw, ?_⟩
    simp only [log, released, List.countP_cons, Event.isClaim, if_true]
    omega

/-- An execution ends, and `told` is what its callers are told. -/
theorem proceed (h : a.Queued calls) (e : Execution V) (es : List (Execution V)) :
    Queued calls ⟨(a.session.proceed e).2, es, a.claimants ++ (a.session.proceed e).1⟩ := by
  obtain ⟨hw, hn⟩ := h
  unfold log at hw hn
  have ended : ∀ n, (a.session.dismiss e.number).waitingOn n =
      if e.number = n then [] else waitingOn n a.session.events := by
    intro n
    rw [waitingOn_dismiss, hw]
  cases hg : (e.closedGate? a.session.opened).isSome with
  | true =>
    rw [Session.proceed_of_closed hg, List.append_nil]
    exact ⟨hw, hn⟩
  | false =>
    cases hres : e.call.handler.result with
    | ok o =>
      rw [Session.proceed_of_ok hg hres, List.append_nil]
      obtain ⟨tw, tr, tc⟩ := waitingOn_released_append
        (answers (e.caller ++ a.session.waitingOn e.number) o)
        (.committed a.session.now e.call.id e.number o :: a.session.events) (by
          intro ev hev
          obtain ⟨c, -, he⟩ := mem_answers_iff.mp hev
          exact ⟨c, _, he⟩)
      constructor
      · intro n
        exact (ended n).trans (tw n).symm
      · show List.countP _ (_ ++ _) + _ = calls + released (_ ++ _)
        rw [tr, tc, List.countP_cons_of_neg (by simp [Event.isClaim])]
        exact hn
    | error f =>
      rw [Session.proceed_of_error hg hres]
      obtain ⟨tw, tr, tc⟩ := waitingOn_released_append
        (e.caller.map fun c => Event.finished c (.error (.internal f)))
        (.rolledBack a.session.now e.call.id e.number (a.session.waitingOn e.number).length ::
          a.session.events) (by
          intro ev hev
          obtain ⟨c, -, he⟩ := List.mem_map.mp hev
          exact ⟨c, _, he.symm⟩)
      constructor
      · intro n
        exact (ended n).trans (tw n).symm
      · show List.countP _ (_ ++ _) + (a.claimants ++ a.session.waitingOn e.number).length =
          calls + released (_ ++ _)
        rw [tr, tc, List.countP_cons_of_neg (by simp [Event.isClaim]), hw, List.length_append]
        simp only [released]
        omega

theorem work (h : a.Queued calls) (hw : Work a b) : b.Queued calls := by
  cases hw with
  | claim c cs hc => exact h.claim hc _
  | proceed e es hr => exact h.proceed e es

theorem begin {s : Session V} (h : Queued calls { session := s }) (st : Step V) :
    Queued (calls + if st.isCall then 1 else 0) (begin s st) := by
  obtain ⟨hw, hn⟩ := h
  cases st with
  | call c =>
    refine ⟨hw, ?_⟩
    simp only [Activity.begin, log, List.length_nil, List.length_singleton, Step.isCall,
      if_true] at hn ⊢
    omega
  | drop name =>
    refine ⟨?_, hn⟩
    intro n
    show ((s.waiters.filter fun w => w.call.name ≠ name).filter fun w => w.number = n).map
      Waiter.call = (waitingOn n s.events).filter fun c => c.name ≠ name
    have hw' : (s.waiters.filter fun w => w.number = n).map Waiter.call =
        waitingOn n s.events := hw n
    rw [← hw', List.filter_map, List.filter_filter, List.filter_filter]
    simp only [Function.comp_def, Bool.and_comm]
  | _ => exact ⟨hw, hn⟩

end Queued

theorem queued_run (σ : Schedule V) (maxSize ttl : Nat) (steps : List (Step V)) :
    Queued (steps.countP Step.isCall)
      { session := ({ coordinator := .new maxSize ttl } : Session V).run σ steps } := by
  apply run_induction (P := fun steps a => Queued (steps.countP Step.isCall) a)
  · exact ⟨fun n => rfl, rfl⟩
  · intro steps s st h
    rw [List.countP_append, List.countP_singleton]
    exact h.begin st
  · exact fun steps a b hw h => h.work hw
  · exact fun steps s h => ⟨h.waiting, h.claims⟩

theorem Reachable.counted {maxSize ttl : Nat} (h : Reachable maxSize ttl a) : a.Counted := by
  induction h with
  | refl => exact ⟨rfl, rfl, rfl, rfl⟩
  | tail _ hm ih => exact ih.move hm

theorem Reachable.volume {maxSize ttl : Nat} (h : Reachable maxSize ttl a) :
    a.ledger.volume + a.log.countP Event.isRollBack = a.log.countP Event.isStart := by
  have hv := h.invariant (P := fun a => a.ledger.volume + a.milestones.countP Event.isRollBack =
    a.milestones.countP Event.isStart) rfl fun _ _ => volume_effect
  have hback : ∀ ev : Event V, ev.isRollBack = true → ev.isMilestone = true := by
    intro ev
    cases ev <;> simp [Event.isRollBack, Event.isMilestone]
  have hstart : ∀ ev : Event V, ev.isStart = true → ev.isMilestone = true := by
    intro ev hev
    unfold Event.isStart at hev
    split at hev
    · rfl
    · cases hev
  rwa [countP_milestones a hback, countP_milestones a hstart] at hv

end Activity

/-- The figures of a coordinator that has been claimed from so many times. -/
structure Usage.Balanced (u : Usage) (claims : Nat) : Prop where
  /-- Whoever misses executes. -/
  misses : u.misses = u.executions
  /-- An execution was rolled back or is under way, or has left an outcome that is held or was
  dropped in one of two ways. -/
  executions : u.executions =
    u.rollbacks + u.inFlight + u.entries + u.evictions + u.expirations
  claims : u.hits + u.waits + u.misses = claims

/-- However the work goes on, the figures add up to the claims that the log tells of. -/
theorem Activity.Reachable.balanced {maxSize ttl : Nat} {a : Activity V}
    (h : Activity.Reachable maxSize ttl a) :
    a.session.coordinator.usage.Balanced (a.log.countP Event.isClaim) := by
  obtain ⟨claims, misses, executions, rollbacks⟩ := h.counted
  have hv := h.volume
  have hl : a.ledger.written.length = a.memo.size := h.accounted.1.memo.length_written
  have hf := a.memo.inFlight_eq_size
  refine ⟨misses.trans executions.symm, ?_, claims⟩
  simp only [Coordinator.usage]
  rw [executions, rollbacks, ← hv]
  simp only [Activity.ledger, Activity.memo, Ledger.volume, Memo.ledger] at hl hf ⊢
  omega

/-- Callers claim once when they come, and once more whenever the execution that they wait on breaks
down. -/
theorem Session.balanced_run (σ : Schedule V) (maxSize ttl : Nat) (steps : List (Step V)) :
    let s := Session.run σ { coordinator := .new maxSize ttl } steps
    s.coordinator.usage.Balanced (steps.countP Step.isCall + History.released s.events) := by
  intro s
  have claims : s.events.countP Event.isClaim + 0 =
      steps.countP Step.isCall + History.released s.events :=
    (Activity.queued_run σ maxSize ttl steps).claims
  rw [← claims]
  exact (Activity.reachable_run σ maxSize ttl steps).balanced

end AtMostOnce
