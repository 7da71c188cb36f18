import AtMostOnce.Proofs.Http.Order
import AtMostOnce.Proofs.Session.Rounds
import AtMostOnce.Proofs.Session.Tally

/-! Endpoints as sessions. What happens at an endpoint in the course of a conversation is what
happens in a session in which each order is a call and nobody waits. -/
namespace AtMostOnce
variable {V S : Type}

namespace IdleCoordinator
variable {k : IdleCoordinator V} {now : Instant} {id : RequestId} {k' : Coordinator V}

theorem call_of_replay {o : Outcome V} (h : k.toCoordinator.claim now id = (.replay o, k'))
    (run : S → Outcome V × S) (s : S) : (k.call now id run s).1 = o ∧
      (k.call now id run s).2.1.toCoordinator = k' ∧ (k.call now id run s).2.2 = s := by
  unfold call
  split
  · rename_i he
    rw [h] at he
    cases he
    exact ⟨rfl, rfl, rfl⟩
  · rename_i he
    rw [h] at he
    cases he
  · rename_i he
    rw [h] at he
    cases he

theorem call_of_execute {n : Nat} (h : k.toCoordinator.claim now id = (.execute n, k'))
    (run : S → Outcome V × S) (s : S) : (k.call now id run s).1 = (run s).1 ∧
      (k.call now id run s).2.1.toCoordinator = k'.commit now id n (run s).1 ∧
      (k.call now id run s).2.2 = (run s).2 := by
  unfold call
  split
  · rename_i he
    rw [h] at he
    cases he
  · rename_i he
    rw [h] at he
    cases he
  · rename_i he
    rw [h] at he
    cases he
    exact ⟨rfl, rfl, rfl⟩

end IdleCoordinator

namespace Session
variable {s : Session V} {c : Call V} {k : Coordinator V}

theorem startCall_of_replay (σ : Schedule V) {o : Outcome V}
    (h : s.coordinator.claim s.now c.id = (.replay o, k)) :
    s.startCall σ c = { s with
      coordinator := k
      events := .finished c (c.answer o) :: .claimed s.now c (.replay o) :: s.events } := by
  let answered : Session V := { s with
    coordinator := k
    events := .finished c (c.answer o) :: .claimed s.now c (.replay o) :: s.events }
  have hclaim : s.claim c = (none, answered) := by
    simp only [claim, h]
    rfl
  rw [startCall, hclaim]
  exact settle_of_released_nil σ rfl

/-- A handler without a gate ends well, and nobody has waited. -/
theorem startCall_of_execute (σ : Schedule V) {n : Nat} {o : Outcome V}
    (h : s.coordinator.claim s.now c.id = (.execute n, k)) (gate : c.handler.gate? = none)
    (result : c.handler.result = .ok o) (alone : s.waiters = []) :
    s.startCall σ c = { s with
      coordinator := k.commit s.now c.id n o
      events := .finished c (c.answer o) :: .committed s.now c.id n o ::
        .claimed s.now c (.execute n) :: s.events } := by
  let claimed : Session V := { s with
    coordinator := k
    events := .claimed s.now c (.execute n) :: s.events }
  let committed : Session V := { s with
    coordinator := k.commit s.now c.id n o
    events := .finished c (c.answer o) :: .committed s.now c.id n o :: claimed.events }
  have hclaim : s.claim c = (some { call := c, number := n }, claimed) := by
    simp only [claim, h]
    rfl
  have hproceed : claimed.proceed { call := c, number := n } = ([], committed) := by
    simp [proceed, Execution.closedGate?, gate, result, commit, Execution.caller, waitingOn,
      dismiss, note, claimed, committed, alone]
  have hall : claimed.proceedAll [{ call := c, number := n }] = ([], committed) := by
    simp only [proceedAll, hproceed, List.append_nil]
  rw [startCall, hclaim]
  exact (settle_of_released_nil σ (congrArg Prod.fst hall)).trans (congrArg Prod.snd hall)

end Session

namespace Http

/-- The server's endpoint and a session are in the same state, and in the session nobody waits. -/
structure Mirrors (s : Server) (e : Endpoint) (t : Session File) : Prop where
  coordinator : t.coordinator = (s.coordinator e).toCoordinator
  now : t.now = s.clock.now
  sweeps : t.sweeps = s.sweeps
  parked : t.parked = []
  waiters : t.waiters = []

namespace Server

/-- The call by which a session does what an order to the endpoint does. -/
def callOf (s : Server) (e : Endpoint) (o : Order) : Call File where
  name := o.id.text
  id := o.id
  vocabulary := e.vocabulary
  handler := o.handler s.catalog

/-- The order that a step places at the endpoint, if it does. -/
def orderOf? (s : Server) (e : Endpoint) : Step → Option Order
  | .request r => s.order? e r
  | _ => none

/-- The orders that a conversation places at the endpoint. -/
def orders (s : Server) (e : Endpoint) : List Step → List Order
  | [] => []
  | st :: rest => (s.orderOf? e st).toList ++ (s.step st).2.orders e rest

/-- The step by which a session does what a step of the conversation does at the endpoint. -/
def echo (s : Server) (e : Endpoint) : Step → AtMostOnce.Step File
  | .request r =>
    match s.order? e r with
    | some o => .call (s.callOf e o)
    | none => .look
  | .advance d => .advance d
  | .purge => .purge
  | .startSweep timer interval => .startSweep timer interval

def echoes (s : Server) (e : Endpoint) : List Step → List (AtMostOnce.Step File)
  | [] => []
  | st :: rest => s.echo e st :: (s.step st).2.echoes e rest

/-- The session makes one call for each order. -/
theorem countP_isCall_echoes (s : Server) (e : Endpoint) (steps : List Step) :
    (s.echoes e steps).countP AtMostOnce.Step.isCall = (s.orders e steps).length := by
  induction steps generalizing s with
  | nil => rfl
  | cons st rest ih =>
    have one : (if (s.echo e st).isCall = true then 1 else 0) =
        (s.orderOf? e st).toList.length := by
      cases st with
      | request r => cases ho : s.order? e r <;> simp [echo, orderOf?, ho, AtMostOnce.Step.isCall]
      | _ => rfl
    rw [echoes, orders, List.countP_cons, List.length_append, ih, one, Nat.add_comm]

/-- The outcome that a step leaves at the endpoint, if it has a handler executed there. -/
def deed? (s : Server) (e : Endpoint) : Step → Option (Written File)
  | .request r => (s.order? e r).bind fun o =>
    match ((s.coordinator e).toCoordinator.claim s.clock.now o.id).1 with
    | .execute _ => some ⟨o.id, (o.execute s.catalog).1, s.clock.now⟩
    | _ => none
  | _ => none

/-- The outcomes that a conversation leaves at the endpoint, the latest first. -/
def deeds (s : Server) (e : Endpoint) : List Step → List (Written File)
  | [] => []
  | st :: rest => (s.step st).2.deeds e rest ++ (s.deed? e st).toList

end Server

namespace Mirrors
open History
variable {s : Server} {e : Endpoint} {t : Session File}

/-- Sweeps purge both alike. -/
theorem sweepDue (h : Mirrors s e t) :
    t.sweepDue.1 = s.sweepDue.1.map (Prod.map id e.figure) ∧ Mirrors s.sweep e t.sweep := by
  let Alike (s' : Server) (k : Coordinator File) : Prop :=
    k = (s'.coordinator e).toCoordinator ∧ s'.clock.now = t.now
  have purges : ∀ s' k, Alike s' k → (k.purge t.now).1 = e.figure s'.purge.1 ∧
      Alike s'.purge.2 (k.purge t.now).2 := by
    rintro s' k ⟨rfl, hnow⟩
    obtain ⟨hpurge, hclock, -⟩ := s'.coordinator_purge e
    rw [← hnow, hpurge]
    exact ⟨rfl, rfl, (congrArg Clock.now hclock).trans hnow⟩
  obtain ⟨told, hk, hc⟩ :=
    Sweep.purgeDue_simulation t.now 0 t.sweeps purges ⟨h.coordinator, h.now.symm⟩
  let purged := Sweep.purgeDue Server.purge t.now 0 t.sweeps s
  have hs : s.sweepDue = (purged.1, { purged.2 with
      sweeps := t.sweeps.map fun w => w.advance t.now }) := by
    rw [Server.sweepDue, ← h.now, ← h.sweeps]
  refine ⟨?_, ?_, ?_, ?_, h.parked, h.waiters⟩
  · rw [hs]
    exact told
  · refine Eq.trans hk ?_
    rw [Server.sweep, hs]
    cases e <;> rfl
  · rw [Server.sweep, hs]
    exact hc.symm
  · rw [Server.sweep, hs]
    rfl

theorem sweep (h : Mirrors s e t) : Mirrors s.sweep e t.sweep := h.sweepDue.2

/-- After a request only the coordinators have to be compared. -/
theorem handle (h : Mirrors s e t) {r : Request} {t' : Session File}
    (coordinator : t'.coordinator = ((s.handle r).2.coordinator e).toCoordinator)
    (now : t'.now = t.now) (sweeps : t'.sweeps = t.sweeps) (parked : t'.parked = t.parked)
    (waiters : t'.waiters = t.waiters) : Mirrors (s.handle r).2 e t' where
  coordinator := coordinator
  now := by rw [now, h.now, (s.clock_handle r).1]
  sweeps := by rw [sweeps, h.sweeps, (s.clock_handle r).2]
  parked := parked.trans h.parked
  waiters := waiters.trans h.waiters

/-- An order and its call are answered from one outcome. -/
theorem order (h : Mirrors s e t) (σ : Schedule File) {r : Request} {o : Order}
    (ho : s.order? e r = some o) : Mirrors (s.handle r).2 e (t.startCall σ (s.callOf e o)) ∧
      ∃ told, (t.startCall σ (s.callOf e o)).events = told ++ t.events ∧
        (commits told).map Prod.snd = (s.deed? e (.request r)).toList ∧
        ∀ ev ∈ told, ev.isRollBack = false := by
  have hk : (s.handle r).2.coordinator e = (s.call e o).2.1 := by
    rw [Server.coordinator_handle ho, if_pos rfl]
  have hdeed : s.deed? e (.request r) =
      match ((s.coordinator e).toCoordinator.claim s.clock.now o.id).1 with
      | .execute _ => some ⟨o.id, (o.execute s.catalog).1, s.clock.now⟩
      | _ => none := by
    simp only [Server.deed?, ho, Option.bind_some]
  rcases hd : (s.coordinator e).toCoordinator.claim s.clock.now o.id with ⟨decision, k⟩
  have hd' : t.coordinator.claim t.now (s.callOf e o).id = (decision, k) := by
    rw [h.coordinator, h.now]
    exact hd
  rw [hd] at hdeed
  cases decision with
  | replay outcome =>
    obtain ⟨-, hk', -⟩ := IdleCoordinator.call_of_replay hd o.execute s.catalog
    rw [Session.startCall_of_replay σ hd', hdeed]
    refine ⟨h.handle ?_ rfl rfl rfl rfl, [_, _], rfl, rfl, ?_⟩
    · rw [hk]
      exact hk'.symm
    · simp [Event.isRollBack]
  | wait n => exact absurd hd (Coordinator.claim_ne_wait (s.coordinator e).idle)
  | execute n =>
    obtain ⟨-, hk', -⟩ := IdleCoordinator.call_of_execute hd o.execute s.catalog
    rw [Session.startCall_of_execute σ hd' (o.gate?_handler s.catalog)
      (o.result_handler s.catalog) h.waiters, hdeed]
    refine ⟨h.handle ?_ rfl rfl rfl rfl, [_, _, _], rfl, ?_, ?_⟩
    · rw [hk, h.now]
      exact hk'.symm
    · rw [h.now]
      rfl
    · simp [Event.isRollBack]

theorem act (h : Mirrors s e t) (σ : Schedule File) (st : Step) :
    Mirrors (s.act st).2 e (t.act σ (s.echo e st)) ∧
      ∃ told, (t.act σ (s.echo e st)).events = told ++ t.events ∧
        (commits told).map Prod.snd = (s.deed? e st).toList ∧
        ∀ ev ∈ told, ev.isRollBack = false := by
  cases st with
  | request r =>
    cases ho : s.order? e r with
    | some o =>
      have hecho : s.echo e (.request r) = .call (s.callOf e o) := by
        simp only [Server.echo, ho]
      rw [hecho]
      exact h.order σ ho
    | none =>
      have hecho : s.echo e (.request r) = .look := by
        simp only [Server.echo, ho]
      have hdeed : s.deed? e (.request r) = none := by
        simp only [Server.deed?, ho, Option.bind_none]
      rw [hecho, hdeed]
      refine ⟨h.handle ?_ rfl rfl rfl rfl, [], rfl, rfl, by simp⟩
      rw [Server.coordinator_handle_of_none ho]
      exact h.coordinator
  | advance d =>
    refine ⟨⟨?_, ?_, h.sweeps, h.parked, h.waiters⟩, [], rfl, rfl, by simp⟩
    · refine h.coordinator.trans ?_
      cases e <;> rfl
    · exact congrArg (· + d) h.now
  | purge =>
    obtain ⟨hk, hc, hs⟩ := s.coordinator_purge e
    refine ⟨⟨?_, ?_, ?_, h.parked, h.waiters⟩, [_], rfl, rfl, ?_⟩
    · refine Eq.trans ?_ (congrArg Prod.snd hk)
      rw [← h.coordinator, ← h.now]
      rfl
    · exact h.now.trans (congrArg Clock.now hc).symm
    · exact h.sweeps.trans hs.symm
    · simp [Event.isRollBack]
  | startSweep timer interval =>
    refine ⟨⟨?_, h.now, ?_, h.parked, h.waiters⟩, [], rfl, rfl, by simp⟩
    · refine h.coordinator.trans ?_
      cases e <;> rfl
    · show t.sweeps ++ [.start timer interval t.now] =
        s.sweeps ++ [.start timer interval s.clock.now]
      rw [h.sweeps, h.now]

/-- A conversation goes on at the endpoint as the session does. -/
theorem run (h : Mirrors s e t) (σ : Schedule File) (steps : List Step) :
    Mirrors (s.run steps).2 e (t.run σ (s.echoes e steps)) ∧
      ∃ told, (t.run σ (s.echoes e steps)).events = told ++ t.events ∧
        (commits told).map Prod.snd = s.deeds e steps ∧ ∀ ev ∈ told, ev.isRollBack = false := by
  induction steps generalizing s t with
  | nil => exact ⟨h, [], rfl, rfl, by simp⟩
  | cons st rest ih =>
    obtain ⟨hact, told, hlog, hdeed, hback⟩ := h.act σ st
    obtain ⟨hrun, told', hlog', hdeeds, hback'⟩ := ih hact.sweep
    refine ⟨hrun, told' ++ told, ?_, ?_, ?_⟩
    · rw [List.append_assoc, ← hlog]
      exact hlog'
    · rw [commits, List.filterMap_append, List.map_append]
      exact congrArg₂ _ hdeeds hdeed
    · intro ev hev
      exact (List.mem_append.mp hev).elim (hback' ev) (hback ev)

theorem new (bounds : Bounds) (access : Access) (journal : Journal) (origin : Nat)
    (e : Endpoint) : Mirrors (.new bounds access journal origin) e
      { coordinator := .new bounds.maxSize bounds.ttl } where
  coordinator := by cases e <;> rfl
  now := rfl
  sweeps := rfl
  parked := rfl
  waiters := rfl

end Mirrors
end Http
end AtMostOnce
