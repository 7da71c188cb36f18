import AtMostOnce.Proofs.Session.Aspect
import AtMostOnce.Proofs.Session.Progress

/-! Sessions reflected in their aspects. Whatever a session does under an id, its aspect does as
well. What it does under other ids leaves the aspect as it is, as long as no outcome is evicted. -/
namespace AtMostOnce
variable {V : Type}

namespace Session
open Activity

section
variable {id : RequestId} {s : Session V} {c : Call V}

/-- A claim looks its id up in the memory, and its ledger finds the same. -/
theorem exists_lookup (h : Kept { session := s }) (c : Call V) : ∃ answer m,
    s.coordinator.memo.lookup s.now c.id s.coordinator.memo.nextGeneration = (answer, m) ∧
      s.coordinator.memo.ledger.lookup s.now c.id s.coordinator.memo.nextGeneration =
        (answer, m.ledger) ∧ m.ttl = s.coordinator.memo.ttl := by
  obtain ⟨-, he⟩ := h.memo.lookup h.ledger s.now c.id s.coordinator.memo.nextGeneration
  obtain ⟨-, httl⟩ := Ledger.bounds_lookup s.coordinator.memo.ledger s.now c.id
    s.coordinator.memo.nextGeneration
  refine ⟨_, _, rfl, he, ?_⟩
  change (s.coordinator.memo.ledger.lookup _ _ _) = _ at he
  rw [he] at httl
  exact httl

theorem aspect_claim_self (h : Kept { session := s }) (hid : c.id = id) :
    executionsOf id (s.claim c).1.toList = ((s.aspect id).claim c).1.toList ∧
      (s.claim c).2.aspect id = ((s.aspect id).claim c).2 := by
  subst hid
  obtain ⟨answer, m, hd, he, httl⟩ := exists_lookup h c
  cases answer with
  | live o =>
    obtain ⟨hfree, w, hw, rfl⟩ := Ledger.live?_of_live h.ledger he
    obtain ⟨-, -, hl⟩ := Ledger.lookup_of_live he
    rw [claim_of_live hd, Aspect.claim_of_held hfree hw]
    refine ⟨rfl, Aspect.ext rfl httl rfl ?_ ?_ rfl rfl ?_⟩
    · simp [aspect, hl, Ledger.isClaimed]
    · simp [aspect, hl, Ledger.live?]
    · simp [aspect, Event.about?, Decision.unnumbered]
  | pending n =>
    have hclaimed := Ledger.isClaimed_of_pending he
    obtain ⟨-, hl⟩ := Ledger.lookup_of_pending he
    rw [claim_of_pending hd, Aspect.claim_of_claimed hclaimed]
    refine ⟨rfl, Aspect.ext rfl httl rfl ?_ ?_ rfl ?_ ?_⟩
    · simp [aspect, hl, Ledger.isClaimed]
    · simp [aspect, hl, Ledger.live?]
    · simp [aspect, callsOf]
    · simp [aspect, Event.about?, Decision.unnumbered]
  | claimed n =>
    obtain ⟨hfree, hnone, hclaimed, hnone'⟩ := Ledger.live?_of_claimed h.ledger he
    rw [claim_of_claimed hd, Aspect.claim_of_free hfree hnone]
    refine ⟨?_, Aspect.ext rfl httl rfl hclaimed ?_ rfl rfl ?_⟩
    · simp [executionsOf, Execution.unnumbered]
    · exact hnone'.trans hnone.symm
    · simp [aspect, Event.about?, Decision.unnumbered]

/-- A claim of another id is not seen. -/
theorem aspect_claim_other (h : Kept { session := s }) (hid : c.id ≠ id) :
    executionsOf id (s.claim c).1.toList = [] ∧ (s.claim c).2.aspect id = s.aspect id := by
  obtain ⟨answer, m, hd, he, httl⟩ := exists_lookup h c
  have hclaimed := s.coordinator.memo.ledger.isClaimed_lookup hid s.now
    s.coordinator.memo.nextGeneration
  have hheld := Ledger.live?_lookup h.ledger hid s.now s.coordinator.memo.nextGeneration
  change (s.coordinator.memo.ledger.lookup _ _ _).2.live? _ _ = _ at hheld
  rw [he] at hclaimed hheld
  cases answer with
  | live o =>
    rw [claim_of_live hd]
    refine ⟨rfl, Aspect.ext rfl httl rfl hclaimed hheld rfl rfl ?_⟩
    simp [aspect, Event.about?, hid]
  | pending n =>
    rw [claim_of_pending hd]
    refine ⟨rfl, Aspect.ext rfl httl rfl hclaimed hheld rfl ?_ ?_⟩
    · simp [aspect, callsOf, hid]
    · simp [aspect, Event.about?, hid]
  | claimed n =>
    rw [claim_of_claimed hd]
    refine ⟨?_, Aspect.ext rfl httl rfl hclaimed hheld rfl rfl ?_⟩
    · simp [executionsOf, hid]
    · simp [aspect, Event.about?, hid]

theorem aspect_claimAll (id : RequestId) (h : Kept { session := s }) (cs : List (Call V)) :
    executionsOf id (s.claimAll cs).1 = ((s.aspect id).claimAll (callsOf id cs)).1 ∧
      (s.claimAll cs).2.aspect id = ((s.aspect id).claimAll (callsOf id cs)).2 := by
  induction cs generalizing s with
  | nil => exact ⟨rfl, rfl⟩
  | cons c cs ih =>
    have kept : Kept { session := (s.claim c).2 } :=
      ⟨(h.claim c cs).1.memo, (h.claim c cs).1.ledger⟩
    obtain ⟨hrest, haspect⟩ := ih kept
    simp only [claimAll, executionsOf_append]
    rw [hrest, haspect]
    by_cases hid : c.id = id
    · obtain ⟨hfirst, hnext⟩ := aspect_claim_self h hid
      rw [callsOf_cons_self hid, hfirst, hnext]
      exact ⟨rfl, rfl⟩
    · obtain ⟨hfirst, hnext⟩ := aspect_claim_other h hid
      rw [callsOf_cons_other hid, hfirst, hnext]
      exact ⟨rfl, rfl⟩

end

end Session

namespace Activity
variable {maxSize ttl : Nat} {a b : Activity V} {id : RequestId} {e : Execution V}

/-- Nothing brings back the count of outcomes evicted. -/
theorem Effect.evictions_le (h : Effect a b) : a.ledger.evictions ≤ b.ledger.evictions := by
  have looked : ∀ {now id marker answer}, a.ledger.lookup now id marker = (answer, b.ledger) →
      a.ledger.evictions ≤ b.ledger.evictions := by
    intro now id marker answer h
    have heq := a.ledger.evictions_lookup now id marker
    rw [h] at heq
    exact Nat.le_of_eq heq.symm
  cases h with
  | start c n h => exact looked h
  | wait c n h => exact looked h
  | replay c o h => exact looked h
  | commit e o result unsettled ledger =>
    rw [ledger, Ledger.evictions_commit]
    exact Ledger.evictions_le_makeRoom a.now a.ledger
  | rollBack e f result unsettled ledger =>
    have hrelease : (a.ledger.release e.call.id e.number).evictions = a.ledger.evictions := by
      unfold Ledger.release
      split <;> rfl
    rw [ledger, hrelease]
  | quiet noise silent logged unsettled ledger =>
    rcases ledger with hl | hl
    · rw [hl]
    · rw [hl]
      exact Nat.le_refl _

theorem Kept.evictions_le (h : a.Kept) (hm : Relation.ReflTransGen Move a b) :
    a.memo.evictions ≤ b.memo.evictions := by
  have both : b.Kept ∧ a.memo.evictions ≤ b.memo.evictions := by
    induction hm with
    | refl => exact ⟨h, Nat.le_refl _⟩
    | tail _ hm ih =>
      obtain ⟨kept, effect⟩ := ih.1.move hm
      exact ⟨kept, Nat.le_trans ih.2 effect.evictions_le⟩
  exact both.2

/-- If nothing has been evicted in the end, then nothing had been before. -/
theorem Reachable.room (h : Reachable maxSize ttl a) (hw : Relation.ReflTransGen Work a b)
    (room : b.memo.evictions = 0) : a.memo.evictions = 0 := by
  have moves := Relation.ReflTransGen.mono (fun _ _ => Work.move) _ _ hw
  exact Nat.eq_zero_of_le_zero (room ▸ h.accounted.1.evictions_le moves)

/-- A caller waits on an execution if they have the same id. -/
theorem Reachable.number_eq_iff (h : Reachable maxSize ttl a) (he : e ∈ a.unsettled)
    {w : Waiter V} (hw : w ∈ a.session.waiters) :
    w.number = e.number ↔ w.call.id = e.call.id := by
  obtain ⟨kept, accounted⟩ := h.accounted
  have hrun : e.key ∈ a.running := List.mem_map_of_mem he
  have hclaim : a.ledger.claims.find? e.call.id = some (e.number, e.number) :=
    accounted.find?_claims_of_running hrun
  obtain ⟨-, k, hk, hid, hn⟩ := h.attended.waiting w hw
  have hclaim' := accounted.find?_claims_of_running hk
  rw [hid, hn] at hclaim'
  constructor
  · intro heq
    rw [heq] at hclaim'
    exact kept.ledger.single _ _ _ _ _ hclaim' hclaim
  · intro heq
    rw [heq, hclaim] at hclaim'
    exact (Prod.mk.inj (Option.some.inj hclaim')).1.symm

theorem Reachable.waitingOn_eq (h : Reachable maxSize ttl a) (he : e ∈ a.unsettled) :
    a.session.waitingOn e.number = callsOf e.call.id (a.session.waiters.map Waiter.call) := by
  rw [Session.waitingOn, callsOf, List.filter_map]
  refine congrArg _ (List.filter_congr fun w hw => ?_)
  exact decide_eq_decide.mpr (h.number_eq_iff he hw)

/-- When an execution ends, nobody who waits is left under its id, and nobody else is gone. -/
theorem Reachable.callsOf_dismiss (h : Reachable maxSize ttl a) (he : e ∈ a.unsettled)
    (id : RequestId) :
    callsOf id ((a.session.waiters.filter fun w => w.number ≠ e.number).map Waiter.call) =
      if e.call.id = id then [] else callsOf id (a.session.waiters.map Waiter.call) := by
  split
  · rename_i hid
    refine callsOf_eq_nil fun c hc => ?_
    obtain ⟨w, hw, rfl⟩ := List.mem_map.mp hc
    obtain ⟨hw, hne⟩ := List.mem_filter.mp hw
    rw [← hid]
    exact mt (h.number_eq_iff he hw).mpr (of_decide_eq_true hne)
  · rename_i hid
    rw [callsOf, callsOf, List.filter_map, List.filter_map, List.filter_filter]
    refine congrArg _ (List.filter_congr fun w hw => ?_)
    have hiff := h.number_eq_iff he hw
    by_cases hw : w.call.id = id
    · have hne : w.call.id ≠ e.call.id := hw ▸ Ne.symm hid
      simp [hw, mt hiff.mp hne]
    · simp [hw]

/-- The claim of an execution is held until it ends. -/
theorem Reachable.find?_claims (h : Reachable maxSize ttl a) (he : e ∈ a.unsettled) :
    a.ledger.claims.find? e.call.id = some (e.number, e.number) :=
  h.accounted.2.find?_claims_of_running (List.mem_map_of_mem he)

section ending
variable (h : Reachable maxSize ttl a) (he : e ∈ a.unsettled)
include h he

theorem Reachable.ledger_release : (a.memo.release e.call.id e.number).ledger =
    { a.ledger with claims := a.ledger.claims.erase e.call.id } := by
  obtain ⟨-, hl⟩ := h.accounted.1.memo.release e.call.id e.number
  exact hl.trans (Ledger.release_of_claim (h.find?_claims he))

theorem Reachable.isClaimed_release (id : RequestId) :
    (a.memo.release e.call.id e.number).ledger.isClaimed id =
      if id = e.call.id then false else a.ledger.isClaimed id := by
  rw [h.ledger_release he]
  exact Ledger.isClaimed_erase

theorem Reachable.isClaimed_commit (o : Outcome V) (id : RequestId) :
    (a.memo.commit a.now e.call.id e.number o).ledger.isClaimed id =
      if id = e.call.id then false else a.ledger.isClaimed id := by
  obtain ⟨-, hl⟩ := h.accounted.1.memo.commit a.now e.call.id e.number o
  rw [hl]
  exact Ledger.isClaimed_commit (h.find?_claims he) o

end ending

theorem aspect_proceed_self (h : Reachable maxSize ttl a) (he : e ∈ a.unsettled)
    (hid : e.call.id = id) :
    callsOf id (a.session.proceed e).1 =
        ((a.session.aspect id).proceed e.unnumbered).1 ∧
      (a.session.proceed e).2.aspect id =
        ((a.session.aspect id).proceed e.unnumbered).2 := by
  subst hid
  obtain ⟨kept, -⟩ := h.accounted
  have hclaim := h.find?_claims he
  have hwaiting := h.waitingOn_eq he
  have hdismiss := h.callsOf_dismiss he e.call.id
  rw [if_pos rfl] at hdismiss
  cases hg : (e.closedGate? a.session.opened).isSome with
  | true =>
    have hg' : (e.unnumbered.closedGate? (a.session.aspect e.call.id).opened).isSome = true := hg
    rw [Session.proceed_of_closed hg, Aspect.proceed_of_closed hg']
    refine ⟨rfl, Aspect.ext rfl rfl rfl rfl rfl ?_ rfl rfl⟩
    simp [Session.aspect, executionsOf]
  | false =>
    have hg' : (e.unnumbered.closedGate? (a.session.aspect e.call.id).opened).isSome = false := hg
    cases hres : e.call.handler.result with
    | ok o =>
      obtain ⟨-, hl⟩ := kept.memo.commit a.now e.call.id e.number o
      have httl := (congrArg Ledger.ttl hl).trans (a.ledger.bounds_commit _ _ _ _).2
      have hclaimed := (h.isClaimed_commit he o e.call.id).trans (if_pos rfl)
      have hheld := hl ▸ Ledger.live?_commit_self kept.ledger hclaim a.now o
      rw [Session.proceed_of_ok hg hres, Aspect.proceed_of_ok hg' hres]
      refine ⟨rfl, Aspect.ext rfl httl rfl hclaimed hheld rfl hdismiss ?_⟩
      show List.filterMap _ (answers _ o ++ _ :: a.session.events) = answers _ o ++ _
      rw [List.filterMap_append, filterMap_about?_answers, callsOf_append, callsOf_caller,
        if_pos rfl, hwaiting, callsOf_callsOf, List.filterMap_cons, Event.about?, if_pos rfl]
      rfl
    | error f =>
      have hl := h.ledger_release he
      have hclaimed := (h.isClaimed_release he e.call.id).trans (if_pos rfl)
      rw [Session.proceed_of_error hg hres, Aspect.proceed_of_error hg' hres]
      refine ⟨?_, Aspect.ext rfl ?_ rfl hclaimed ?_ rfl hdismiss ?_⟩
      · rw [hwaiting, callsOf_callsOf]
        rfl
      · exact congrArg Ledger.ttl hl
      · exact congrArg (fun l => l.live? a.now e.call.id) hl
      · show List.filterMap _ (List.map _ e.caller ++ _ :: a.session.events) = _ ++ _
        rw [List.filterMap_append, filterMap_about?_finished, callsOf_caller, if_pos rfl,
          hwaiting, List.filterMap_cons, Event.about?, if_pos rfl]
        rfl

/-- What an execution of another id does is not seen, as long as it evicts nothing. -/
theorem aspect_proceed_other (h : Reachable maxSize ttl a) (he : e ∈ a.unsettled)
    (hid : e.call.id ≠ id)
    (room : (a.session.proceed e).2.coordinator.memo.evictions = a.memo.evictions) :
    callsOf id (a.session.proceed e).1 = [] ∧
      (a.session.proceed e).2.aspect id = a.session.aspect id := by
  obtain ⟨kept, -⟩ := h.accounted
  have hclaim := h.find?_claims he
  have hwaiting := h.waitingOn_eq he
  have hdismiss := h.callsOf_dismiss he id
  rw [if_neg hid] at hdismiss
  have hreleased : callsOf id (a.session.waitingOn e.number) = [] := by
    rw [hwaiting]
    refine callsOf_eq_nil fun c hc => ?_
    rw [of_decide_eq_true (List.mem_filter.mp hc).2]
    exact hid
  cases hg : (e.closedGate? a.session.opened).isSome with
  | true =>
    rw [Session.proceed_of_closed hg]
    refine ⟨rfl, Aspect.ext rfl rfl rfl rfl rfl ?_ rfl rfl⟩
    simp [Session.aspect, executionsOf, hid]
  | false =>
    cases hres : e.call.handler.result with
    | ok o =>
      obtain ⟨-, hl⟩ := kept.memo.commit a.now e.call.id e.number o
      have httl := (congrArg Ledger.ttl hl).trans (a.ledger.bounds_commit _ _ _ _).2
      have hclaimed := (h.isClaimed_commit he o id).trans (if_neg hid.symm)
      rw [Session.proceed_of_ok hg hres] at room ⊢
      have hevictions := (congrArg Ledger.evictions hl).symm.trans room
      have hheld := hl ▸ Ledger.live?_commit kept.ledger hclaim hid o hevictions
      refine ⟨rfl, Aspect.ext rfl httl rfl hclaimed hheld rfl hdismiss ?_⟩
      show List.filterMap _ (answers _ o ++ _ :: a.session.events) = _
      rw [List.filterMap_append, filterMap_about?_answers, callsOf_append, callsOf_caller,
        if_neg hid, hreleased, List.filterMap_cons, Event.about?, if_neg hid]
      rfl
    | error f =>
      have hl := h.ledger_release he
      have hclaimed := (h.isClaimed_release he id).trans (if_neg hid.symm)
      rw [Session.proceed_of_error hg hres]
      refine ⟨hreleased, Aspect.ext rfl ?_ rfl hclaimed ?_ rfl hdismiss ?_⟩
      · exact congrArg Ledger.ttl hl
      · exact congrArg (fun l => l.live? a.now id) hl
      · show List.filterMap _ (List.map _ e.caller ++ _ :: a.session.events) = _
        rw [List.filterMap_append, filterMap_about?_finished, callsOf_caller, if_neg hid,
          List.filterMap_cons, Event.about?, if_neg hid]
        rfl

theorem aspect_proceedAll (id : RequestId) {s : Session V} {es : List (Execution V)}
    {cs : List (Call V)} (h : Reachable maxSize ttl ⟨s, es, cs⟩)
    (room : (s.proceedAll es).2.coordinator.memo.evictions = s.coordinator.memo.evictions) :
    callsOf id (s.proceedAll es).1 = ((s.aspect id).proceedAll (executionsOf id es)).1 ∧
      (s.proceedAll es).2.aspect id =
        ((s.aspect id).proceedAll (executionsOf id es)).2 := by
  induction es generalizing s cs with
  | nil => exact ⟨rfl, rfl⟩
  | cons e es ih =>
    have first : Move ⟨s, e :: es, cs⟩ ⟨(s.proceed e).2, es, cs ++ (s.proceed e).1⟩ :=
      .proceed _ e es (.refl _)
    have works := works_proceedAll (s.proceed e).2 es (cs ++ (s.proceed e).1)
    have onward := Relation.ReflTransGen.mono (fun _ _ => Work.move) _ _ works
    have reached : Reachable maxSize ttl ⟨(s.proceed e).2, es, cs ++ (s.proceed e).1⟩ :=
      h.tail first
    have hfirst := h.accounted.1.evictions_le (.single first)
    have honward := reached.accounted.1.evictions_le onward
    have he : e ∈ unsettled ⟨s, e :: es, cs⟩ := List.mem_append_right _ List.mem_cons_self
    simp only [memo, Session.proceedAll] at hfirst honward room
    obtain ⟨hothers, hlast⟩ := ih reached (by omega)
    simp only [Session.proceedAll, callsOf_append]
    rw [hothers, hlast]
    by_cases hid : e.call.id = id
    · obtain ⟨hreleased, hnext⟩ := aspect_proceed_self h he hid
      rw [executionsOf_cons_self hid, hreleased, hnext]
      exact ⟨rfl, rfl⟩
    · obtain ⟨hreleased, hnext⟩ := aspect_proceed_other h he hid (by simp only [memo]; omega)
      rw [executionsOf_cons_other hid, hreleased, hnext]
      exact ⟨rfl, rfl⟩

theorem aspect_begin (id : RequestId) {s : Session V} (h : Kept { session := s }) (st : Step V) :
    executionsOf id (begin s st).ready = ((s.aspect id).begin st).1 ∧
      (begin s st).session.aspect id = ((s.aspect id).begin st).2 := by
  cases st with
  | call c => exact ⟨rfl, rfl⟩
  | openGate gate =>
    have ready : executionsOf id (begin s (.openGate gate)).ready =
        ((s.aspect id).begin (.openGate gate)).1 := by
      show executionsOf id (s.parked.partition _).1 = (List.partition _ (executionsOf id _)).1
      rw [List.partition_eq_filter_filter, List.partition_eq_filter_filter]
      exact executionsOf_filter _ (fun e => rfl) s.parked
    refine ⟨ready, Aspect.ext rfl rfl rfl rfl rfl ?_ rfl rfl⟩
    show executionsOf id (s.parked.partition _).2 = (List.partition _ (executionsOf id _)).2
    rw [List.partition_eq_filter_filter, List.partition_eq_filter_filter]
    exact executionsOf_filter _ (fun e => rfl) s.parked
  | drop name =>
    refine ⟨rfl, Aspect.ext rfl rfl rfl rfl rfl (executionsOf_leave name s.parked) ?_ rfl⟩
    have hstay : (s.waiters.filter fun w => w.call.name ≠ name).map Waiter.call =
        (s.waiters.map Waiter.call).filter fun c => c.name ≠ name := by
      rw [List.filter_map]
      rfl
    show callsOf id ((s.waiters.filter _).map Waiter.call) = List.filter _ (callsOf id _)
    rw [hstay, callsOf, callsOf, List.filter_comm]
  | advance d =>
    have hlater := Ledger.live?_later h.ledger id (Nat.le_add_right s.now d)
    exact ⟨rfl, Aspect.ext rfl rfl rfl rfl hlater rfl rfl rfl⟩
  | purge =>
    obtain ⟨-, hl⟩ := h.memo.purge s.now
    have hl :
        (s.coordinator.memo.purge s.now).2.ledger = (s.coordinator.memo.ledger.purge s.now).2 :=
      (congrArg Prod.snd hl).symm
    refine ⟨rfl, Aspect.ext rfl (congrArg Ledger.ttl hl) rfl ?_ ?_ rfl rfl rfl⟩
    · exact congrArg (fun l => l.isClaimed id) hl
    · exact (congrArg (fun l => l.live? s.now id) hl).trans (Ledger.live?_purge h.ledger)
  | startSweep timer interval => exact ⟨rfl, rfl⟩
  | stopSweeps => exact ⟨rfl, rfl⟩
  | look => exact ⟨rfl, rfl⟩

theorem aspect_sweep (id : RequestId) {s : Session V} (h : Kept { session := s }) :
    s.sweep.aspect id = s.aspect id := by
  obtain ⟨-, hl⟩ := sound_sweep h.memo
  rcases hl with hl | hl
  · exact Aspect.ext rfl (congrArg Ledger.ttl hl) rfl (congrArg (fun l => l.isClaimed id) hl)
      (congrArg (fun l => l.live? s.now id) hl) rfl rfl rfl
  · exact Aspect.ext rfl (congrArg Ledger.ttl hl) rfl (congrArg (fun l => l.isClaimed id) hl)
      ((congrArg (fun l => l.live? s.now id) hl).trans (Ledger.live?_purge h.ledger)) rfl rfl rfl

end Activity
end AtMostOnce
