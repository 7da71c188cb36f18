import AtMostOnce.Proofs.Session.Reflection
import AtMostOnce.Proofs.Session.Tally

/-! The effort of a session. Work comes to an end in whatever order it is done. A call starts its
handler once at most, and claims once and then once more for each execution that has broken down
while its caller waited on it. -/
namespace AtMostOnce
variable {V : Type}

section
variable (p : Call V → Bool)

/-- A call of the given kind claims. -/
def Event.isClaimOf : Event V → Bool
  | .claimed _ c _ => p c
  | _ => false

/-- The handler of a call of the given kind is started. -/
def Event.isStartOf : Event V → Bool
  | .claimed _ c (.execute _) => p c
  | _ => false

def Step.isCallOf : Step V → Bool
  | .call c => p c
  | _ => false

theorem Event.isStartOf_true : isStartOf (fun _ : Call V => true) = isStart := by
  funext ev
  cases ev with
  | claimed now c d => cases d <;> rfl
  | _ => rfl

theorem Step.isCallOf_true : isCallOf (fun _ : Call V => true) = isCall := by
  funext st
  cases st <;> rfl

namespace History

/-- The callers of the given kind that wait on execution `n` of the id. -/
def waitingOf (id : RequestId) (n : Nat) (past : List (Event V)) : List (Call V) :=
  (waitingOn n past).filter fun c => p c && c.id = id

/-- How many callers of the given kind were waiting on executions of their id when these broke
down. -/
def releasedOf : List (Event V) → Nat
  | [] => 0
  | ev :: past =>
    match ev with
    | .rolledBack _ id n _ => (waitingOf p id n past).length + releasedOf past
    | _ => releasedOf past

/-- How many executions have broken down while a caller of the given kind waited on them under their
id. -/
def breakdownsMet : List (Event V) → Nat
  | [] => 0
  | ev :: past =>
    match ev with
    | .rolledBack _ id n _ => (if waitingOf p id n past = [] then 0 else 1) + breakdownsMet past
    | _ => breakdownsMet past

end History
end

namespace Activity
open History
variable {a b : Activity V}

section work

/-- The executions that can go on, and the callers that wait or are to claim. -/
def pending (a : Activity V) : Nat :=
  a.ready.length + a.claimants.length + a.session.waiters.length

/-- A bound on the work that is left. It falls with every piece of work: an execution that goes on
is done with, and may make all other callers claim; a caller that claims is pending once at most. -/
def effort (a : Activity V) : Nat := a.pending * (a.pending + 1) + a.claimants.length

theorem effort_lt_of_claim (hp : b.pending ≤ a.pending)
    (hc : b.claimants.length < a.claimants.length) : b.effort < a.effort :=
  Nat.add_lt_add_of_le_of_lt (Nat.mul_le_mul hp (Nat.succ_le_succ hp)) hc

theorem effort_lt_of_proceed (hp : b.pending < a.pending)
    (hc : b.claimants.length ≤ b.pending) : b.effort < a.effort := by
  have hsquare := Nat.mul_le_mul hp (Nat.succ_le_succ hp)
  have hgrown : (b.pending + 1) * (b.pending + 2) = b.pending * (b.pending + 1) +
      2 * (b.pending + 1) := by
    rw [Nat.mul_comm (b.pending + 1), ← Nat.add_mul]
  change (b.pending + 1) * (b.pending + 2) ≤ a.pending * (a.pending + 1) at hsquare
  unfold effort
  omega

theorem Work.effort_lt (h : Work a b) : b.effort < a.effort := by
  cases h with
  | claim c cs hc =>
    have hlength := Session.length_claim_le a.session c
    have hclaimants := hc.length_eq
    rw [List.length_cons] at hclaimants
    refine effort_lt_of_claim ?_ (Nat.lt_of_succ_le (Nat.le_of_eq hclaimants.symm))
    unfold pending
    rw [List.length_append]
    dsimp only
    omega
  | proceed e es hr =>
    have hlength := Session.length_proceed_le a.session e
    have hready := hr.length_eq
    rw [List.length_cons] at hready
    refine effort_lt_of_proceed ?_ ?_
    · unfold pending
      rw [List.length_append]
      dsimp only
      omega
    · unfold pending
      dsimp only
      omega

/-- Work cannot be done for longer than the effort that it takes. -/
theorem length_le_effort {as : List (Activity V)} (h : List.IsChain Work (a :: as)) :
    as.length ≤ a.effort := by
  induction as generalizing a with
  | nil => exact Nat.zero_le _
  | cons b bs ih =>
    obtain ⟨hw, hrest⟩ := List.isChain_cons_cons.mp h
    have hb := ih hrest
    have hlt := hw.effort_lt
    rw [List.length_cons]
    omega

/-- Nothing is left to be done when no execution can go on and no caller is to claim. -/
theorem idle_iff : (∀ b, ¬Work a b) ↔ a.ready = [] ∧ a.claimants = [] := by
  constructor
  · intro h
    constructor
    · cases hr : a.ready with
      | nil => rfl
      | cons e es => exact absurd (.proceed a e es (.of_eq hr)) (h _)
    · cases hc : a.claimants with
      | nil => rfl
      | cons c cs => exact absurd (.claim a c cs (.of_eq hc)) (h _)
  · rintro ⟨hr, hc⟩ b hw
    cases hw with
    | claim c cs h =>
      rw [hc] at h
      cases h.symm.eq_nil
    | proceed e es h =>
      rw [hr] at h
      cases h.symm.eq_nil

end work

/-- What has been done by calls of the given kind, and what they have met. -/
structure Bounded (p : Call V → Bool) (steps : List (Step V)) (a : Activity V) : Prop where
  starts : a.log.countP (Event.isStartOf p) + a.claimants.countP p +
    (a.session.waiters.map Waiter.call).countP p ≤ steps.countP (Step.isCallOf p)
  claims : a.log.countP (Event.isClaimOf p) + a.claimants.countP p =
    steps.countP (Step.isCallOf p) + releasedOf p a.log
  met : releasedOf p a.log ≤ steps.countP (Step.isCallOf p) * breakdownsMet p a.log

section
variable {p : Call V → Bool} {steps : List (Step V)}

theorem Uncounted.append {told : List (Event V)} (h : Uncounted told) (past : List (Event V)) :
    (told ++ past).countP (Event.isStartOf p) = past.countP (Event.isStartOf p) ∧
      (told ++ past).countP (Event.isClaimOf p) = past.countP (Event.isClaimOf p) ∧
      releasedOf p (told ++ past) = releasedOf p past ∧
      breakdownsMet p (told ++ past) = breakdownsMet p past := by
  induction told with
  | nil => exact ⟨rfl, rfl, rfl, rfl⟩
  | cons ev told ih =>
    obtain ⟨hstarts, hclaims, hreleased, hmet⟩ :=
      ih fun ev' hev' => h ev' (List.mem_cons_of_mem _ hev')
    obtain ⟨hclaim, -, hroll⟩ := h ev List.mem_cons_self
    cases ev with
    | claimed => cases hclaim
    | rolledBack => cases hroll
    | _ =>
      rw [List.cons_append, List.countP_cons_of_neg Bool.false_ne_true,
        List.countP_cons_of_neg Bool.false_ne_true]
      exact ⟨hstarts, hclaims, hreleased, hmet⟩

theorem countP_claimed (now : Instant) (c : Call V) (d : Decision V) (past : List (Event V)) :
    (Event.claimed now c d :: past).countP (Event.isClaimOf p) =
      [c].countP p + past.countP (Event.isClaimOf p) := by
  show ([_] ++ past).countP _ = _
  rw [List.countP_append]
  rfl

theorem countP_execute (now : Instant) (c : Call V) (n : Nat) (past : List (Event V)) :
    (Event.claimed now c (.execute n) :: past).countP (Event.isStartOf p) =
      [c].countP p + past.countP (Event.isStartOf p) := by
  show ([_] ++ past).countP _ = _
  rw [List.countP_append]
  rfl

/-- Whoever waits does so on the given execution or on another one. -/
theorem countP_waiters (p : Call V → Bool) (s : Session V) (n : Nat) :
    (s.waiters.map Waiter.call).countP p = (s.waitingOn n).countP p +
      ((s.waiters.filter fun w => w.number ≠ n).map Waiter.call).countP p := by
  rw [(waiters_perm s n).countP_eq, List.countP_append]
  rfl

namespace Bounded

theorem claim (h : a.Bounded p steps) {c : Call V} {cs : List (Call V)}
    (hc : a.claimants.Perm (c :: cs)) (es : List (Execution V)) :
    Bounded p steps ⟨(a.session.claim c).2, es, cs⟩ := by
  obtain ⟨starts, claims, met⟩ := h
  have hcount : a.claimants.countP p = [c].countP p + cs.countP p := by
    rw [hc.countP_eq, ← List.countP_append, List.singleton_append]
  unfold log at starts claims met
  rcases hd : a.session.coordinator.memo.lookup a.session.now c.id
    a.session.coordinator.memo.nextGeneration with ⟨answer, m⟩
  cases answer with
  | live o =>
    rw [Session.claim_of_live hd]
    refine ⟨?_, ?_, met⟩
    · show a.session.events.countP _ + cs.countP p + (a.session.waiters.map _).countP p ≤ _
      omega
    · show (Event.claimed _ c _ :: a.session.events).countP _ + cs.countP p =
        _ + releasedOf p a.session.events
      rw [countP_claimed]
      omega
  | pending n =>
    rw [Session.claim_of_pending hd]
    refine ⟨?_, ?_, met⟩
    · show a.session.events.countP _ + cs.countP p +
        ((a.session.waiters ++ [(⟨c, n⟩ : Waiter V)]).map Waiter.call).countP p ≤ _
      rw [List.map_append, List.countP_append, List.map_singleton]
      dsimp only
      omega
    · show (Event.claimed _ c _ :: a.session.events).countP _ + cs.countP p =
        _ + releasedOf p a.session.events
      rw [countP_claimed]
      omega
  | claimed n =>
    rw [Session.claim_of_claimed hd]
    refine ⟨?_, ?_, met⟩
    · show (Event.claimed _ c (.execute n) :: a.session.events).countP _ + cs.countP p +
        (a.session.waiters.map _).countP p ≤ _
      rw [countP_execute]
      omega
    · show (Event.claimed _ c _ :: a.session.events).countP _ + cs.countP p =
        _ + releasedOf p a.session.events
      rw [countP_claimed]
      omega

/-- An outcome answers all who have waited for it. Nobody claims because of it. -/
theorem proceed_ok (h : a.Bounded p steps) (e : Execution V) (es : List (Execution V))
    {o : Outcome V} (hg : (e.closedGate? a.session.opened).isSome = false)
    (result : e.call.handler.result = .ok o) :
    Bounded p steps ⟨(a.session.proceed e).2, es, a.claimants ++ (a.session.proceed e).1⟩ := by
  obtain ⟨starts, claims, met⟩ := h
  have uncounted : Uncounted (answers (e.caller ++ a.session.waitingOn e.number) o ++
      [.committed a.session.now e.call.id e.number o]) :=
    List.forall_mem_append.mpr
      ⟨uncounted_answers _ _, List.forall_mem_singleton.mpr ⟨rfl, rfl, rfl⟩⟩
  obtain ⟨hstarts, hclaims, hreleased, hmet⟩ := uncounted.append (p := p) a.session.events
  rw [List.append_assoc, List.singleton_append] at hstarts hclaims hreleased hmet
  have hwaiters := countP_waiters p a.session e.number
  rw [Session.proceed_of_ok hg result, List.append_nil]
  unfold log at starts claims met
  refine ⟨?_, ?_, ?_⟩
  · simp only [log]
    rw [hstarts]
    omega
  · simp only [log]
    rw [hclaims, hreleased]
    exact claims
  · simp only [log]
    rw [hreleased, hmet]
    exact met

/-- All who wait on an execution that breaks down are released, and have met one more breakdown. -/
theorem proceed_error (h : a.Bounded p steps) (e : Execution V) (es : List (Execution V))
    {f : Breakdown} (hg : (e.closedGate? a.session.opened).isSome = false)
    (result : e.call.handler.result = .error f)
    (queued : a.session.waitingOn e.number = waitingOn e.number a.log)
    (ids : ∀ c ∈ a.session.waitingOn e.number, c.id = e.call.id) :
    Bounded p steps ⟨(a.session.proceed e).2, es, a.claimants ++ (a.session.proceed e).1⟩ := by
  obtain ⟨starts, claims, met⟩ := h
  have uncounted : Uncounted (e.caller.map fun c => Event.finished c (.error (.internal f))) :=
    List.forall_mem_map.mpr fun _ _ => ⟨rfl, rfl, rfl⟩
  let broken := Event.rolledBack (V := V) a.session.now e.call.id e.number
    (a.session.waitingOn e.number).length
  obtain ⟨hstarts, hclaims, hreleased, hmet⟩ :=
    uncounted.append (p := p) (broken :: a.session.events)
  unfold log at starts claims met queued
  have hwaiting : (waitingOf p e.call.id e.number a.session.events).length =
      (a.session.waitingOn e.number).countP p := by
    rw [waitingOf, ← queued, List.countP_eq_length_filter]
    refine congrArg List.length (List.filter_congr fun c hc => ?_)
    rw [ids c hc, decide_eq_true rfl, Bool.and_true]
  have hwaiters := countP_waiters p a.session e.number
  rw [Session.proceed_of_error hg result]
  refine ⟨?_, ?_, ?_⟩
  · show List.countP _ (_ ++ broken :: a.session.events) +
      (a.claimants ++ a.session.waitingOn e.number).countP p + _ ≤ _
    rw [hstarts, List.countP_cons_of_neg Bool.false_ne_true, List.countP_append]
    dsimp only
    omega
  · show List.countP _ (_ ++ broken :: a.session.events) +
      (a.claimants ++ a.session.waitingOn e.number).countP p =
        _ + releasedOf p (_ ++ broken :: a.session.events)
    rw [hclaims, hreleased, List.countP_cons_of_neg Bool.false_ne_true, List.countP_append]
    show _ = _ + ((waitingOf p e.call.id e.number a.session.events).length + _)
    omega
  · show releasedOf p (_ ++ broken :: a.session.events) ≤
      _ * breakdownsMet p (_ ++ broken :: a.session.events)
    rw [hreleased, hmet]
    show (waitingOf p e.call.id e.number a.session.events).length + _ ≤ _ *
      ((if waitingOf p e.call.id e.number a.session.events = [] then 0 else 1) + _)
    split
    · rename_i hnone
      rw [hnone, List.length_nil, Nat.zero_add, Nat.zero_add]
      exact met
    · rw [Nat.mul_add, Nat.mul_one]
      omega

theorem proceed (h : a.Bounded p steps) (e : Execution V) (es : List (Execution V))
    (queued : a.session.waitingOn e.number = waitingOn e.number a.log)
    (ids : ∀ c ∈ a.session.waitingOn e.number, c.id = e.call.id) :
    Bounded p steps ⟨(a.session.proceed e).2, es, a.claimants ++ (a.session.proceed e).1⟩ := by
  cases hg : (e.closedGate? a.session.opened).isSome with
  | true =>
    rw [Session.proceed_of_closed hg, List.append_nil]
    exact ⟨h.starts, h.claims, h.met⟩
  | false =>
    cases result : e.call.handler.result with
    | ok o => exact h.proceed_ok e es hg result
    | error f => exact h.proceed_error e es hg result queued ids

/-- Nobody claims, and no execution breaks down. -/
theorem quiet {steps' : List (Step V)} (h : a.Bounded p steps) (told : List (Event V))
    (uncounted : Uncounted told) (logged : b.log = told ++ a.log)
    (claimants : b.claimants = a.claimants)
    (waiters : b.session.waiters.Sublist a.session.waiters)
    (calls : steps'.countP (Step.isCallOf p) = steps.countP (Step.isCallOf p)) :
    b.Bounded p steps' := by
  obtain ⟨hstarts, hclaims, hreleased, hmet⟩ := uncounted.append (p := p) a.log
  have hwaiters := (waiters.map Waiter.call).countP_le (p := p)
  have starts := h.starts
  refine ⟨?_, ?_, ?_⟩
  · rw [logged, hstarts, claimants, calls]
    omega
  · rw [logged, hclaims, hreleased, claimants, calls]
    exact h.claims
  · rw [logged, hreleased, hmet, calls]
    exact h.met

theorem call {s : Session V} (h : Bounded p steps { session := s }) (c : Call V) :
    Bounded p (steps ++ [.call c]) { session := s, claimants := [c] } := by
  obtain ⟨starts, claims, met⟩ := h
  have hcalls : (steps ++ [Step.call c]).countP (Step.isCallOf p) =
      steps.countP (Step.isCallOf p) + [c].countP p := List.countP_append
  rw [List.countP_nil] at starts claims
  refine ⟨?_, ?_, ?_⟩
  · rw [hcalls]
    dsimp only [log] at starts ⊢
    omega
  · rw [hcalls]
    dsimp only [log] at claims ⊢
    omega
  · rw [hcalls, Nat.add_mul]
    exact Nat.le_trans met (Nat.le_add_right _ _)

theorem begin {s : Session V} (h : Bounded p steps { session := s }) (st : Step V) :
    Bounded p (steps ++ [st]) (begin s st) := by
  have hcalls : (steps ++ [st]).countP (Step.isCallOf p) =
      steps.countP (Step.isCallOf p) + [st].countP (Step.isCallOf p) := List.countP_append
  have nothing : Uncounted ([] : List (Event V)) := List.forall_mem_nil _
  cases st with
  | call c => exact h.call c
  | drop name =>
    have uncounted : Uncounted [Event.dropped (V := V) name (s.isWaiting name)] :=
      List.forall_mem_singleton.mpr ⟨rfl, rfl, rfl⟩
    exact h.quiet _ uncounted rfl rfl List.filter_sublist hcalls
  | purge =>
    have uncounted : Uncounted [Event.purged (V := V) (s.coordinator.purge s.now).1] :=
      List.forall_mem_singleton.mpr ⟨rfl, rfl, rfl⟩
    exact h.quiet _ uncounted rfl rfl (List.Sublist.refl _) hcalls
  | _ => exact h.quiet [] nothing rfl rfl (List.Sublist.refl _) hcalls

theorem work {maxSize ttl calls : Nat} (h : a.Bounded p steps) (reached : Reachable maxSize ttl a)
    (queued : a.Queued calls) (hw : Work a b) : b.Bounded p steps := by
  cases hw with
  | claim c cs hc => exact h.claim hc _
  | proceed e es hr =>
    have he : e ∈ a.unsettled := List.mem_append_right _ (hr.mem_iff.mpr List.mem_cons_self)
    refine h.proceed e es (queued.waiting e.number) fun c hc => ?_
    obtain ⟨w, hw, rfl⟩ := List.mem_map.mp hc
    obtain ⟨hw, hn⟩ := List.mem_filter.mp hw
    exact (reached.number_eq_iff he hw).mp (of_decide_eq_true hn)

end Bounded

theorem bounded_run (p : Call V → Bool) (σ : Schedule V) (maxSize ttl : Nat)
    (steps : List (Step V)) : Bounded p steps
      { session := ({ coordinator := .new maxSize ttl } : Session V).run σ steps } := by
  let P (steps : List (Step V)) (a : Activity V) : Prop :=
    Reachable maxSize ttl a ∧ Queued (steps.countP Step.isCall) a ∧ Bounded p steps a
  have both :
      P steps { session := ({ coordinator := .new maxSize ttl } : Session V).run σ steps } := by
    apply run_induction (P := P)
    · exact ⟨.refl, ⟨fun n => rfl, rfl⟩, ⟨Nat.le_refl 0, rfl, Nat.zero_le _⟩⟩
    · rintro steps s st ⟨reached, queued, bounded⟩
      refine ⟨reached.trans (moves_begin s st), ?_, bounded.begin st⟩
      rw [List.countP_append, List.countP_singleton]
      exact queued.begin st
    · rintro steps a b hw ⟨reached, queued, bounded⟩
      exact ⟨reached.tail hw.move, queued.work hw, bounded.work reached queued hw⟩
    · rintro steps s ⟨reached, queued, bounded⟩
      exact ⟨reached.tail (.sweep _), ⟨queued.waiting, queued.claims⟩, ⟨bounded.starts,
        bounded.claims, bounded.met⟩⟩
  exact both.2.2

end
end Activity

namespace Session
open Activity History

/-- Claiming comes to an end. After a run, whatever the next step is, work can be done for a limited
time only, in whatever order it is done, and the step itself leaves nothing to be done. No more
handlers are started than calls have been made, and by no caller more often than it has called. A
caller claims once for each call, and once more for each execution of its id that has broken down
while it waited on it. -/
theorem claiming_ends (σ : Schedule V) (maxSize ttl : Nat) (steps : List (Step V)) :
    let s := Session.run σ { coordinator := .new maxSize ttl } steps
    (∀ st, Relation.ReflTransGen Work (begin s st) { session := s.act σ st } ∧
      (∀ a, ¬Work { session := s.act σ st } a) ∧
      ∀ as, List.IsChain Work (begin s st :: as) → as.length ≤ (begin s st).effort) ∧
    s.coordinator.executions ≤ steps.countP Step.isCall ∧
    ∀ p : Call V → Bool,
      s.events.countP (Event.isStartOf p) ≤ steps.countP (Step.isCallOf p) ∧
      s.events.countP (Event.isClaimOf p) =
        steps.countP (Step.isCallOf p) + releasedOf p s.events ∧
      releasedOf p s.events ≤ steps.countP (Step.isCallOf p) * breakdownsMet p s.events := by
  intro s
  refine ⟨fun st => ⟨works_act σ s st, idle_iff.mpr ⟨rfl, rfl⟩, fun as => length_le_effort⟩, ?_,
    fun p => ?_⟩
  · have counted : s.coordinator.executions = s.events.countP Event.isStart :=
      (reachable_run σ maxSize ttl steps).counted.executions
    have starts : s.events.countP (Event.isStartOf fun _ => true) + 0 + _ ≤
        steps.countP (Step.isCallOf fun _ => true) :=
      (bounded_run (fun _ => true) σ maxSize ttl steps).starts
    rw [Event.isStartOf_true, Step.isCallOf_true] at starts
    omega
  · obtain ⟨starts, claims, met⟩ := bounded_run p σ maxSize ttl steps
    refine ⟨?_, claims, met⟩
    have hstarts : s.events.countP (Event.isStartOf p) + 0 + _ ≤ _ := starts
    omega

end Session
end AtMostOnce
