import AtMostOnce.Proofs.Session.Attendance
import AtMostOnce.Proofs.Session.SingleFlight

/-! Progress. No caller is lost: whoever has not gone away has been answered or waits for a handler
that stands at a closed gate. -/
namespace AtMostOnce
variable {V : Type}

/-- The calls made in the steps, without those whose callers have gone away since. -/
def Step.callers (steps : List (Step V)) : List (Call V) :=
  steps.foldl (fun cs st => match st with
    | .call c => c :: cs
    | .drop name => cs.filter fun c => c.name ≠ name
    | _ => cs) []

/-- The calls that have been answered, without those whose callers have gone away since. -/
def History.answered : List (Event V) → List (Call V)
  | [] => []
  | ev :: past =>
    match ev with
    | .finished c _ => c :: answered past
    | .dropped name _ => (answered past).filter fun c => c.name ≠ name
    | _ => answered past

theorem Handler.gate_of_gate? {h : Handler V} {g : String} (hg : h.gate? = some g) :
    h.gate = some g := by
  unfold gate? at hg
  split at hg
  · cases hg
  · exact hg

theorem Step.callers_append (steps : List (Step V)) (st : Step V) :
    callers (steps ++ [st]) = match st with
      | .call c => c :: callers steps
      | .drop name => (callers steps).filter fun c => c.name ≠ name
      | _ => callers steps := by
  unfold callers
  rw [List.foldl_append]
  rfl

/-- Whoever is among the callers has called. -/
theorem Step.call_mem_of_mem_callers {steps : List (Step V)} {c : Call V}
    (h : c ∈ callers steps) : .call c ∈ steps := by
  induction steps using List.reverseRecOn with
  | nil => cases h
  | append_singleton steps st ih =>
    rw [callers_append] at h
    rw [List.mem_append, List.mem_singleton]
    cases st with
    | call c' =>
      rcases List.mem_cons.mp h with h | h
      · exact .inr (congrArg _ h)
      · exact .inl (ih h)
    | drop name => exact .inl (ih (List.mem_of_mem_filter h))
    | _ => exact .inl (ih h)

namespace Activity
open History
variable {a b : Activity V} {steps : List (Step V)}

/-- Handlers stand at closed gates or go on, and no caller is lost on the way. -/
structure Tended (steps : List (Step V)) (a : Activity V) : Prop where
  blocked : ∀ e ∈ a.session.parked, (e.closedGate? a.session.opened).isSome = true
  opened : ∀ gate, gate ∈ a.session.opened ↔ .openGate gate ∈ steps
  issued : ∀ e ∈ a.unsettled, .call e.call ∈ steps
  complete : (Step.callers steps).Perm (answered a.log ++ a.unfinished)

theorem answered_append (cs : List (Call V)) (answer : Call V → Answer V)
    (past : List (Event V)) :
    answered (cs.map (fun c => .finished c (answer c)) ++ past) = cs ++ answered past := by
  induction cs with
  | nil => rfl
  | cons c cs ih =>
    rw [List.map_cons, List.cons_append, List.cons_append, ← ih]
    rfl

theorem waiters_perm (s : Session V) (n : Nat) :
    (s.waiters.map Waiter.call).Perm (s.waitingOn n ++ (s.dismiss n).waiters.map Waiter.call) := by
  have hp := List.filter_append_perm (fun w : Waiter V => decide (w.number = n)) s.waiters
  unfold Session.waitingOn Session.dismiss
  rw [← List.map_append]
  refine (List.Perm.map _ ?_).symm
  simpa only [ne_eq, decide_not] using hp

/-- A caller that claims is answered or stays unfinished. -/
theorem perm_claim {c : Call V} {cs : List (Call V)} (hc : a.claimants.Perm (c :: cs)) :
    let b : Activity V := ⟨(a.session.claim c).2, a.ready ++ (a.session.claim c).1.toList, cs⟩
    (answered a.log ++ a.unfinished).Perm (answered b.log ++ b.unfinished) := by
  classical
  simp only [List.perm_iff_count, List.count_append, List.count_cons, unfinished,
    Session.unfinished, log] at hc ⊢
  intro x
  have hx := hc x
  rcases hd : a.session.coordinator.memo.lookup a.session.now c.id
    a.session.coordinator.memo.nextGeneration with ⟨answer, m⟩
  cases answer with
  | live o =>
    rw [Session.claim_of_live hd]
    simp only [answered, Option.toList, List.append_nil, List.count_cons]
    omega
  | pending n =>
    rw [Session.claim_of_pending hd]
    simp only [answered, Option.toList, List.append_nil, List.map_append, List.map_cons,
      List.map_nil, List.count_append, List.count_cons, List.count_nil]
    omega
  | claimed n =>
    rw [Session.claim_of_claimed hd]
    simp only [answered, Option.toList, List.flatMap_append, List.flatMap_cons, List.flatMap_nil,
      List.append_nil, Execution.caller, if_true, List.count_append, List.count_cons,
      List.count_nil]
    omega

/-- An execution that ends answers its callers or releases them. -/
theorem perm_proceed {e : Execution V} {es : List (Execution V)} (hr : a.ready.Perm (e :: es)) :
    let b : Activity V :=
      ⟨(a.session.proceed e).2, es, a.claimants ++ (a.session.proceed e).1⟩
    (answered a.log ++ a.unfinished).Perm (answered b.log ++ b.unfinished) := by
  have hready : (a.ready.flatMap Execution.caller).Perm
      (e.caller ++ es.flatMap Execution.caller) := hr.flatMap_right _
  have hwait := waiters_perm a.session e.number
  classical
  simp only [List.perm_iff_count, List.count_append, unfinished, Session.unfinished, log,
    Session.dismiss] at hready hwait ⊢
  intro x
  have hrx := hready x
  have hwx := hwait x
  cases hg : (e.closedGate? a.session.opened).isSome with
  | true =>
    rw [Session.proceed_of_closed hg]
    simp only [List.flatMap_append, List.flatMap_cons, List.flatMap_nil, List.append_nil,
      List.count_append, List.count_nil]
    omega
  | false =>
    cases hres : e.call.handler.result with
    | ok o =>
      have hlog : answered (answers (e.caller ++ a.session.waitingOn e.number) o ++
          .committed a.session.now e.call.id e.number o :: a.session.events) =
          (e.caller ++ a.session.waitingOn e.number).reverse ++ answered a.session.events := by
        rw [answers, ← List.map_reverse, answered_append]
        rfl
      rw [Session.proceed_of_ok hg hres]
      simp only [hlog, List.count_append, List.count_reverse, List.count_nil]
      omega
    | error f =>
      have hlog : answered ((e.caller.map fun c => .finished c (.error (.internal f))) ++
          .rolledBack a.session.now e.call.id e.number (a.session.waitingOn e.number).length ::
            a.session.events) = e.caller ++ answered a.session.events := by
        rw [answered_append]
        rfl
      rw [Session.proceed_of_error hg hres]
      simp only [hlog, List.count_append]
      omega

namespace Tended

theorem claim (h : a.Tended steps) {c : Call V} {cs : List (Call V)}
    (hc : a.claimants.Perm (c :: cs)) :
    Tended steps ⟨(a.session.claim c).2, a.ready ++ (a.session.claim c).1.toList, cs⟩ := by
  have complete := h.complete.trans (perm_claim hc)
  have called : .call c ∈ steps := by
    apply Step.call_mem_of_mem_callers
    rw [h.complete.mem_iff]
    exact List.mem_append_right _ (List.mem_append_right _ (hc.mem_iff.mpr List.mem_cons_self))
  rcases hd : a.session.coordinator.memo.lookup a.session.now c.id
    a.session.coordinator.memo.nextGeneration with ⟨answer, m⟩
  cases answer with
  | live o =>
    rw [Session.claim_of_live hd] at complete ⊢
    refine ⟨h.blocked, h.opened, ?_, complete⟩
    simpa [unsettled] using h.issued
  | pending n =>
    rw [Session.claim_of_pending hd] at complete ⊢
    refine ⟨h.blocked, h.opened, ?_, complete⟩
    simpa [unsettled] using h.issued
  | claimed n =>
    rw [Session.claim_of_claimed hd] at complete ⊢
    refine ⟨h.blocked, h.opened, ?_, complete⟩
    intro e he
    simp only [unsettled, Option.toList, ← List.append_assoc] at he
    rcases List.mem_append.mp he with he | he
    · exact h.issued e he
    · rw [List.mem_singleton.mp he]
      exact called

theorem proceed (h : a.Tended steps) {e : Execution V} {es : List (Execution V)}
    (hr : a.ready.Perm (e :: es)) :
    Tended steps ⟨(a.session.proceed e).2, es, a.claimants ++ (a.session.proceed e).1⟩ := by
  have complete := h.complete.trans (perm_proceed hr)
  have issued : ∀ e' ∈ a.session.parked ++ es, .call e'.call ∈ steps := by
    intro e' he'
    apply h.issued
    rcases List.mem_append.mp he' with he' | he'
    · exact List.mem_append_left _ he'
    · exact List.mem_append_right _ (hr.mem_iff.mpr (List.mem_cons_of_mem _ he'))
  cases hg : (e.closedGate? a.session.opened).isSome with
  | true =>
    rw [Session.proceed_of_closed hg] at complete ⊢
    refine ⟨?_, h.opened, ?_, complete⟩
    · intro e' he'
      rcases List.mem_append.mp he' with he' | he'
      · exact h.blocked e' he'
      · rw [List.mem_singleton.mp he']
        exact hg
    · intro e' he'
      apply h.issued
      simp only [unsettled, List.append_assoc, List.singleton_append] at he' ⊢
      exact (hr.append_left _).mem_iff.mpr he'
  | false =>
    cases hres : e.call.handler.result with
    | ok o =>
      rw [Session.proceed_of_ok hg hres] at complete ⊢
      exact ⟨h.blocked, h.opened, issued, complete⟩
    | error f =>
      rw [Session.proceed_of_error hg hres] at complete ⊢
      exact ⟨h.blocked, h.opened, issued, complete⟩

theorem work (h : a.Tended steps) (hw : Work a b) : b.Tended steps := by
  cases hw with
  | claim c cs hc => exact h.claim hc
  | proceed e es hr => exact h.proceed hr

theorem openGate (h : a.Tended steps) (gate : String) :
    (a.openGate gate).Tended (steps ++ [.openGate gate]) := by
  obtain ⟨hb, ho, hi, hp⟩ := h
  have hparts := List.filter_append_perm
    (fun e : Execution V => decide (e.closedGate? a.session.opened = some gate)) a.session.parked
  have hfm := hparts.flatMap_right Execution.caller
  simp only [Activity.openGate, List.partition_eq_filter_filter]
  constructor
  · -- Another gate keeps them from going on, and that is still closed.
    intro e he
    obtain ⟨he, hne⟩ := List.mem_filter.mp he
    have hclosed := hb e he
    simp only [Function.comp_apply, Bool.not_eq_true', decide_eq_false_iff_not] at hne
    unfold Execution.closedGate? at hclosed hne ⊢
    cases hgate : e.call.handler.gate? with
    | none =>
      rw [hgate] at hclosed
      cases hclosed
    | some g =>
      rw [hgate] at hclosed hne
      have hg : g ∉ a.session.opened := by simpa [Option.filter] using hclosed
      have hgg : g ≠ gate := by simpa [Option.filter, hg] using hne
      simp [Option.filter, hg, hgg]
  · intro g
    rw [List.mem_cons, List.mem_append, List.mem_singleton, Step.openGate.injEq, or_comm]
    exact or_congr_left (ho g)
  · intro e he
    apply List.mem_append_left
    apply hi
    have hmem : e ∈ a.session.parked ↔ _ := hparts.mem_iff.symm
    simp only [unsettled, List.mem_append] at he hmem ⊢
    rw [hmem]
    tauto
  · rw [Step.callers_append]
    classical
    simp only [List.perm_iff_count, List.count_append, unfinished, Session.unfinished,
      List.flatMap_append] at hp hfm ⊢
    intro x
    have hx := hp x
    have hfx := hfm x
    simp only [log, Function.comp_def] at hx hfx ⊢
    omega

/-- Whoever goes away is no longer waited for. -/
theorem drop (h : a.Tended steps) (name : String) :
    (a.drop name).Tended (steps ++ [.drop name]) := by
  obtain ⟨hb, ho, hi, hp⟩ := h
  have hcaller : ∀ e : Execution V,
      (e.leave name).caller = e.caller.filter fun c => c.name ≠ name := by
    intro e
    unfold Execution.leave Execution.caller
    by_cases hn : e.call.name = name
    · by_cases ha : e.attended = true <;> simp [hn, ha]
    · by_cases ha : e.attended = true <;> simp [hn, ha]
  constructor
  · intro e he
    obtain ⟨e', he', heq⟩ := List.mem_map.mp he
    rw [← heq, Execution.closedGate?, Execution.call_leave]
    exact hb e' he'
  · intro g
    rw [List.mem_append, List.mem_singleton]
    exact (ho g).trans ⟨.inl, fun h => h.resolve_right (by simp)⟩
  · intro e he
    change e ∈ a.session.parked.map (Execution.leave name) ++
      a.ready.map (Execution.leave name) at he
    rw [← List.map_append] at he
    obtain ⟨e', he', heq⟩ := List.mem_map.mp he
    rw [← heq, Execution.call_leave]
    exact List.mem_append_left _ (hi e' he')
  · rw [Step.callers_append]
    have hf := hp.filter fun c => c.name ≠ name
    rw [List.filter_append] at hf
    have hexecutions : ∀ es : List (Execution V),
        (es.map (Execution.leave name)).flatMap Execution.caller =
          (es.flatMap Execution.caller).filter fun c => c.name ≠ name := by
      intro es
      rw [List.flatMap_map, List.filter_flatMap]
      exact List.flatMap_congr fun e _ => hcaller e
    have hwaiters : (a.session.waiters.filter fun w => w.call.name ≠ name).map Waiter.call =
        (a.session.waiters.map Waiter.call).filter fun c => c.name ≠ name := by
      rw [List.filter_map]
      rfl
    refine hf.trans (List.Perm.of_eq ?_)
    show _ = (answered a.log).filter _ ++
      ((a.session.parked.map (Execution.leave name)).flatMap Execution.caller ++
        (a.session.waiters.filter fun w => w.call.name ≠ name).map Waiter.call ++
        (a.ready.map (Execution.leave name)).flatMap Execution.caller ++ a.claimants.filter _)
    rw [hexecutions, hexecutions, hwaiters]
    simp only [unfinished, Session.unfinished, List.filter_append]

theorem call (h : a.Tended steps) (c : Call V) :
    Tended (steps ++ [.call c]) { a with claimants := c :: a.claimants } := by
  obtain ⟨hb, ho, hi, hp⟩ := h
  refine ⟨hb, ?_, ?_, ?_⟩
  · intro g
    rw [List.mem_append, List.mem_singleton]
    exact (ho g).trans ⟨.inl, fun h => h.resolve_right (by simp)⟩
  · exact fun e he => List.mem_append_left _ (hi e he)
  · rw [Step.callers_append]
    refine (hp.cons c).trans ?_
    simp only [unfinished, log, ← List.append_assoc]
    exact List.perm_middle.symm

/-- A step that moves no caller and opens no gate. -/
theorem still {s : Session V} (h : a.Tended steps) (st : Step V)
    (hst : Step.callers (steps ++ [st]) = Step.callers steps) (gates : ∀ g, st ≠ .openGate g)
    (hp : s.parked = a.session.parked) (ho : s.opened = a.session.opened)
    (hw : s.waiters = a.session.waiters) (hl : answered s.events = answered a.session.events) :
    Tended (steps ++ [st]) { a with session := s } where
  blocked e he := by
    change e ∈ s.parked at he
    change (e.closedGate? s.opened).isSome = true
    rw [hp] at he
    rw [ho]
    exact h.blocked e he
  opened g := by
    change g ∈ s.opened ↔ _
    rw [ho, List.mem_append, List.mem_singleton]
    exact (h.opened g).trans ⟨.inl, fun h => h.resolve_right (gates g).symm⟩
  issued e he := by
    change e ∈ s.parked ++ a.ready at he
    rw [hp] at he
    exact List.mem_append_left _ (h.issued e he)
  complete := by
    have hc := h.complete
    simp only [unfinished, Session.unfinished, log] at hc ⊢
    rw [hst, hl, hp, hw]
    exact hc

theorem start (h : a.Tended steps) (st : Step V) : (a.start st).Tended (steps ++ [st]) := by
  have callers := Step.callers_append steps st
  cases st with
  | call c => exact h.call c
  | openGate gate => exact h.openGate gate
  | drop name => exact h.drop name
  | purge => exact h.still _ callers (by simp) rfl rfl rfl rfl
  | advance d => exact h.still _ callers (by simp) rfl rfl rfl rfl
  | startSweep timer interval => exact h.still _ callers (by simp) rfl rfl rfl rfl
  | stopSweeps => exact h.still _ callers (by simp) rfl rfl rfl rfl
  | look => exact h.still _ callers (by simp) rfl rfl rfl rfl

end Tended

theorem Reached.tended {maxSize ttl : Nat} (h : Reached maxSize ttl steps a) : a.Tended steps := by
  induction h with
  | new => exact ⟨by simp, by simp, by simp [unsettled], List.Perm.refl []⟩
  | start _ st ih => exact ih.start st
  | work _ hw ih => exact ih.work hw
  | sweep _ ih => exact ⟨ih.blocked, ih.opened, ih.issued, ih.complete⟩

theorem Reachable.attended {maxSize ttl : Nat} (h : Reachable maxSize ttl a) :
    a.Attended ttl := by
  apply h.invariant (P := Attended ttl)
  · exact ⟨fun k hk => (by cases hk), fun w hw => (by cases hw)⟩
  · exact fun a b hk ha he h => h.effect hk ha he

/-- A caller whose id is claimed for a handler under way: their own handler, or one that they have
subscribed to and that has not ended. -/
structure Awaits (a : Activity V) (c : Call V) (e : Execution V) : Prop where
  claimed : a.memo.slots.find? c.id = some (.claimed e.number e.number)
  id_eq : e.call.id = c.id
  subscribed : e.attended = true ∧ e.call = c ∨ ⟨c, e.number⟩ ∈ a.session.waiters
  pending : e.number ∉ ended a.log

/-- Who is unfinished is to claim, has started a handler or waits for one. -/
theorem exists_unsettled_of_unfinished {ttl : Nat} (h : a.Attended ttl) {c : Call V}
    (hc : c ∈ a.unfinished) : c ∈ a.claimants ∨ ∃ e ∈ a.unsettled, e.call.id = c.id ∧
      (e.attended = true ∧ e.call = c ∨ ⟨c, e.number⟩ ∈ a.session.waiters) := by
  have own : ∀ es : List (Execution V), (∀ e ∈ es, e ∈ a.unsettled) →
      c ∈ es.flatMap Execution.caller → ∃ e ∈ a.unsettled, e.call.id = c.id ∧
        (e.attended = true ∧ e.call = c ∨ ⟨c, e.number⟩ ∈ a.session.waiters) := by
    intro es hes hc
    obtain ⟨e, he, hce⟩ := List.mem_flatMap.mp hc
    unfold Execution.caller at hce
    split at hce
    case isTrue ha =>
      rw [List.mem_singleton.mp hce]
      exact ⟨e, hes e he, rfl, .inl ⟨ha, rfl⟩⟩
    case isFalse => cases hce
  rcases List.mem_append.mp hc with hc | hc
  · refine .inr ?_
    rcases List.mem_append.mp hc with hc | hc
    · rcases List.mem_append.mp hc with hc | hc
      · exact own _ (fun e he => List.mem_append_left _ he) hc
      · obtain ⟨w, hw, rfl⟩ := List.mem_map.mp hc
        obtain ⟨-, k, hk, hid, hn⟩ := h.waiting w hw
        obtain ⟨e, he, rfl⟩ := List.mem_map.mp hk
        refine ⟨e, he, hid, .inr ?_⟩
        rw [show e.number = w.number from hn]
        exact hw
    · exact own _ (fun e he => List.mem_append_right _ he) hc
  · exact .inl hc

/-- No caller is lost, however the work goes on. Whoever has not gone away has been answered, is to
claim, or awaits a handler, which can go on or stands at a gate that nobody has opened; and nobody
waits on an execution that has ended. -/
theorem Reached.nobody_lost {maxSize ttl : Nat} (h : Reached maxSize ttl steps a) :
    (Step.callers steps).Perm (answered a.log ++ a.unfinished) ∧
      (∀ c ∈ a.unfinished, c ∈ a.claimants ∨ ∃ e ∈ a.unsettled, a.Awaits c e) ∧
      (∀ w ∈ a.session.waiters, w.number ∉ ended a.log) ∧
      (∀ e ∈ a.session.parked, .call e.call ∈ steps ∧
        ∃ gate, e.call.handler.gate? = some gate ∧ .openGate gate ∉ steps) ∧
      a.memo.inFlight = a.unsettled.length := by
  obtain ⟨-, accounted⟩ := h.reachable.accounted
  have attended := h.reachable.attended
  have tended := h.tended
  have pending : ∀ k ∈ a.running, k.2 ∉ ended a.log := by
    intro k hk
    rw [← ended_filter]
    exact (accounted.begun k hk).2.2
  refine ⟨tended.complete, fun c hc => ?_, fun w hw => ?_, fun e he => ?_,
    inFlight_eq_length accounted⟩
  · refine (exists_unsettled_of_unfinished attended hc).imp_right ?_
    rintro ⟨e, he, hid, subscribed⟩
    refine ⟨e, he, ?_, hid, subscribed, pending e.key (List.mem_map_of_mem he)⟩
    exact (find?_slots_iff accounted _ _ _).mpr ⟨rfl, e, he, hid, rfl⟩
  · obtain ⟨-, k, hk, -, hn⟩ := attended.waiting w hw
    exact hn ▸ pending k hk
  · refine ⟨tended.issued e (List.mem_append_left _ he), ?_⟩
    obtain ⟨gate, hg⟩ := Option.isSome_iff_exists.mp (tended.blocked e he)
    obtain ⟨hgate, hnot⟩ := Option.filter_eq_some_iff.mp hg
    refine ⟨gate, hgate, fun hopen => ?_⟩
    have hmem : gate ∈ a.session.opened := (tended.opened gate).mpr hopen
    simp [hmem] at hnot

end Activity

namespace Session
open History Activity

/-- A caller that waits for a handler at a closed gate: its own handler, or one that it has
subscribed to and that has not ended. -/
structure Stands (steps : List (Step V)) (s : Session V) (c : Call V) (e : Execution V) : Prop where
  claimed : s.coordinator.memo.slots.find? c.id = some (.claimed e.number e.number)
  id_eq : e.call.id = c.id
  subscribed : e.attended = true ∧ e.call = c ∨ ⟨c, e.number⟩ ∈ s.waiters
  pending : e.number ∉ ended s.events
  closed : ∃ gate, e.call.handler.gate? = some gate ∧ .openGate gate ∉ steps

/-- No caller is left behind. Whoever has not gone away has been answered or stands at a closed
gate, and nobody waits on an execution that has ended. Once all gates are open, everybody has been
answered and no handler is under way. -/
theorem nobody_left_behind (σ : Schedule V) (maxSize ttl : Nat) (steps : List (Step V)) :
    let s := Session.run σ { coordinator := .new maxSize ttl } steps
    (Step.callers steps).Perm (answered s.events ++ s.unfinished) ∧
      (∀ c ∈ s.unfinished, ∃ e ∈ s.parked, Stands steps s c e) ∧
      (∀ w ∈ s.waiters, w.number ∉ ended s.events) ∧
      ((∀ c gate, .call c ∈ steps → c.handler.gate = some gate → .openGate gate ∈ steps) →
        s.unfinished = [] ∧ s.coordinator.memo.inFlight = 0) := by
  intro s
  obtain ⟨complete, awaits, waiting, closed, counted⟩ :=
    (reached_run σ maxSize ttl steps).nobody_lost
  -- When all work is done, nobody is to claim and no handler can go on.
  simp only [Activity.unfinished, unsettled, List.flatMap_nil,
    List.append_nil] at complete awaits counted
  have stands : ∀ c ∈ s.unfinished, ∃ e ∈ s.parked, Stands steps s c e := by
    intro c hc
    obtain ⟨e, he, h⟩ := (awaits c hc).resolve_left List.not_mem_nil
    exact ⟨e, he, h.claimed, h.id_eq, h.subscribed, h.pending, (closed e he).2⟩
  refine ⟨complete, stands, waiting, fun gates => ?_⟩
  -- Its gate would have been opened.
  have none : s.parked = [] := by
    refine List.eq_nil_iff_forall_not_mem.mpr fun e he => ?_
    obtain ⟨issued, gate, hg, hnot⟩ := closed e he
    exact hnot (gates e.call gate issued (Handler.gate_of_gate? hg))
  constructor
  · refine List.eq_nil_iff_forall_not_mem.mpr fun c hc => ?_
    obtain ⟨e, he, -⟩ := stands c hc
    rw [none] at he
    cases he
  · exact counted.trans (congrArg List.length none)

/-- A caller waits for a handler at a closed gate. When the gate opens the handler breaks down, and
the caller starts its own. -/
theorem nobody_left_behind_by_breakdown :
    let first : Call Nat :=
      ⟨"first", ⟨"id"⟩, .wide, { gate := some "gate", ending := .breakdown (.undeclared []) }⟩
    let second : Call Nat := ⟨"second", ⟨"id"⟩, .narrow, { ending := .value 8 }⟩
    let run := Session.run .arrival ({ coordinator := .new 1 10 } : Session Nat)
    let calls : List (Step Nat) := [.call first, .call second]
    (∃ e ∈ (run calls).parked, Stands calls (run calls) second e) ∧
      (run (calls ++ [.openGate "gate"])).unfinished = [] ∧
      (run (calls ++ [.openGate "gate"])).coordinator.memo.inFlight = 0 := by
  intro first second run calls
  have waits : second ∈ (run calls).unfinished := by
    rw [show (run calls).unfinished = [first, second] by cbv]
    simp
  obtain ⟨-, stands, -⟩ := nobody_left_behind .arrival 1 10 calls
  obtain ⟨-, -, -, done⟩ := nobody_left_behind .arrival 1 10 (calls ++ [.openGate "gate"])
  refine ⟨stands second waits, done ?_⟩
  intro c gate hc hg
  simp only [calls, List.cons_append, List.nil_append, List.mem_cons, Step.call.injEq,
    reduceCtorEq, List.not_mem_nil, or_false] at hc
  rcases hc with rfl | rfl
  · cases hg
    simp
  · cases hg

end Session
end AtMostOnce
