import AtMostOnce.Proofs.Session.Alone
import AtMostOnce.Proofs.Session.Lockstep

/-! Ids apart. As long as no outcome is evicted, a session shows of each id what it would show if
that id were the only one. -/
namespace AtMostOnce
variable {V : Type}

namespace Schedule

/-- Where the one lets callers claim in the order in which they came, so does the other. -/
def Keeps (σ τ : Schedule V) : Prop := σ = .arrival → τ = .arrival

theorem Keeps.until {σ τ τ' : Schedule V} (h : σ.Keeps τ) (h' : σ.Keeps τ') (bound : Nat) :
    σ.Keeps (τ.until bound τ') := by
  intro hσ
  rw [h hσ, h' hσ]
  simp [Schedule.until, arrival]

/-- Whatever the order of all callers, those of one id can come in that order by themselves. -/
theorem exists_arrange (σ : Schedule V) (n : Nat) (id : RequestId) (cs : List (Call V)) :
    ∃ τ : Schedule V, σ.Keeps τ ∧
      ∀ n', τ.arrange n' (callsOf id cs) = callsOf id (σ.arrange n cs) := by
  by_cases hσ : σ = .arrival
  · refine ⟨.arrival, fun _ => rfl, fun _ => ?_⟩
    rw [hσ]
    rfl
  · have hperm : (callsOf id (σ.arrange n cs)).Perm (callsOf id cs) := (σ.perm n cs).filter _
    exact ⟨arranging _ _ hperm, fun h => absurd h hσ, fun _ => if_pos rfl⟩

end Schedule

/-- What the run of one id alone is made of: the steps but for the calls of other ids, and but for
the departures of callers without one of the given names. -/
def Step.concerns (id : RequestId) (names : List String) : Step V → Bool
  | .call c => c.id = id
  | .drop name => names.contains name
  | _ => true

namespace Activity
variable {maxSize ttl : Nat} {a b : Activity V} {id : RequestId}

/-- Lets callers claim, and then all work go on that can. -/
def finish (σ : Schedule V) (a : Activity V) : Session V :=
  (a.session.claimAll a.claimants).2.settle σ (a.ready ++ (a.session.claimAll a.claimants).1)

theorem finish_begin (σ : Schedule V) (s : Session V) (st : Step V) :
    (begin s st).finish σ = s.act σ st := (Session.act_eq_settle σ s st).symm

/-- The one activity is of an id alone, and shows of it what the other does. -/
structure Follows (maxSize ttl : Nat) (id : RequestId) (a a' : Activity V) : Prop where
  reached : Reachable maxSize ttl a
  reached' : Reachable maxSize ttl a'
  alone : a'.Alone id
  aspect : a'.session.aspect id = a.session.aspect id
  ready : executionsOf id a'.ready = executionsOf id a.ready
  claimants : callsOf id a'.claimants = callsOf id a.claimants

namespace Follows
variable {s s' : Session V} {es es' : List (Execution V)}

theorem claimAll {xs xs' cs cs' : List (Call V)}
    (h : Follows maxSize ttl id ⟨s, es, xs⟩ ⟨s', es', xs'⟩) (hcs : xs.Perm cs)
    (hcs' : xs'.Perm cs') (same : callsOf id cs' = callsOf id cs) :
    Follows maxSize ttl id ⟨(s.claimAll cs).2, es ++ (s.claimAll cs).1, []⟩
      ⟨(s'.claimAll cs').2, es' ++ (s'.claimAll cs').1, []⟩ := by
  have works := works_claimAll s es hcs
  have works' := works_claimAll s' es' hcs'
  have kept := h.reached.accounted.1
  have kept' := h.reached'.accounted.1
  obtain ⟨hstarted, hclaimed⟩ := Session.aspect_claimAll id ⟨kept.memo, kept.ledger⟩ cs
  obtain ⟨hstarted', hclaimed'⟩ := Session.aspect_claimAll id ⟨kept'.memo, kept'.ledger⟩ cs'
  have haspect : s'.aspect id = s.aspect id := h.aspect
  have hready : executionsOf id es' = executionsOf id es := h.ready
  rw [haspect, same] at hstarted' hclaimed'
  refine ⟨h.reached.works works, h.reached'.works works', h.alone.works h.reached' works',
    hclaimed'.trans hclaimed.symm, ?_, rfl⟩
  show executionsOf id (es' ++ _) = executionsOf id (es ++ _)
  rw [executionsOf_append, executionsOf_append, hready, hstarted, hstarted']

theorem proceedAll (h : Follows maxSize ttl id ⟨s, es, []⟩ ⟨s', es', []⟩)
    (room : (s.proceedAll es).2.coordinator.memo.evictions = 0) :
    Follows maxSize ttl id ⟨(s.proceedAll es).2, [], (s.proceedAll es).1⟩
      ⟨(s'.proceedAll es').2, [], (s'.proceedAll es').1⟩ := by
  have works := works_proceedAll s es []
  have works' := works_proceedAll s' es' []
  have alone := h.alone.works h.reached' works'
  obtain ⟨hreleased, hproceeded⟩ := aspect_proceedAll id h.reached
    (room.trans (h.reached.room works room).symm)
  obtain ⟨hreleased', hproceeded'⟩ := aspect_proceedAll id h.reached'
    (alone.evictions.trans h.alone.evictions.symm)
  have haspect : s'.aspect id = s.aspect id := h.aspect
  have hready : executionsOf id es' = executionsOf id es := h.ready
  rw [haspect, hready] at hreleased' hproceeded'
  exact ⟨h.reached.works works, h.reached'.works works', alone, hproceeded'.trans hproceeded.symm,
    rfl,
    hreleased'.trans hreleased.symm⟩

/-- Whatever the schedule of the one session, there is one for the id alone. -/
theorem round (h : Follows maxSize ttl id ⟨s, es, []⟩ ⟨s', es', []⟩) (σ : Schedule V)
    (room : (s.round σ es).2.coordinator.memo.evictions = 0) :
    ∃ τ, σ.Keeps τ ∧ Follows maxSize ttl id ⟨(s.round σ es).2, (s.round σ es).1, []⟩
      ⟨(s'.round τ es').2, (s'.round τ es').1, []⟩ := by
  let n := (s.proceedAll es).2.events.length
  let n' := (s'.proceedAll es').2.events.length
  have hperm := (σ.perm n (s.proceedAll es).1).symm
  have proceeded := h.proceedAll ((h.reached.works (works_proceedAll s es [])).room
    (works_claimAll (s.proceedAll es).2 [] hperm) room)
  have own : callsOf id (s.proceedAll es).1 = (s'.proceedAll es').1 :=
    proceeded.claimants.symm.trans (callsOf_eq_self proceeded.alone.claimants)
  obtain ⟨τ, keeps, harrange⟩ := σ.exists_arrange n id (s.proceedAll es).1
  rw [own] at harrange
  refine ⟨τ, keeps, ?_⟩
  refine proceeded.claimAll hperm (τ.perm n' (s'.proceedAll es').1).symm ?_
  rw [harrange, callsOf_callsOf]

theorem settle (h : Follows maxSize ttl id ⟨s, es, []⟩ ⟨s', es', []⟩) (σ : Schedule V)
    (room : (s.settle σ es).coordinator.memo.evictions = 0) :
    ∃ τ, σ.Keeps τ ∧ Follows maxSize ttl id { session := s.settle σ es }
      { session := s'.settle τ es' } := by
  induction s, es using Session.round_induction σ generalizing s' es' with
  | done s es hdone =>
    rw [Session.settle_eq_round σ, if_pos hdone] at room ⊢
    obtain ⟨τ, keeps, hround⟩ := h.round σ room
    have hready := hround.ready
    rw [hdone] at hready
    have hdone' : (s'.round τ es').1 = [] := hround.alone.ready_eq_nil hready
    rw [hdone, hdone'] at hround
    refine ⟨τ, keeps, ?_⟩
    rw [Session.settle_eq_round τ, if_pos hdone']
    exact hround
  | more s es hmore ih =>
    rw [Session.settle_eq_round σ, if_neg hmore] at room ⊢
    have reached := h.reached.works (works_round σ s es)
    obtain ⟨τ, keeps, hround⟩ := h.round σ (reached.room (works_settle σ _ _) room)
    obtain ⟨τ', keeps', hrest⟩ := ih hround room
    refine ⟨τ.until (s'.round τ es').2.events.length τ', keeps.until keeps' _, ?_⟩
    rw [Session.settle_until]
    exact hrest

/-- A step that concerns the id is taken by both. -/
theorem begin (h : Follows maxSize ttl id { session := s } { session := s' }) {st : Step V}
    (hst : ∀ c, st = .call c → c.id = id) :
    Follows maxSize ttl id (begin s st) (begin s' st) := by
  obtain ⟨hready, haspect⟩ := aspect_begin id h.reached.accounted.1 st
  obtain ⟨hready', haspect'⟩ := aspect_begin id h.reached'.accounted.1 st
  have hsame : s'.aspect id = s.aspect id := h.aspect
  rw [hsame] at hready' haspect'
  exact ⟨h.reached.trans (moves_begin s st), h.reached'.trans (moves_begin s' st),
    h.alone.begin h.reached'.accounted.1 hst, haspect'.trans haspect.symm,
    hready'.trans hready.symm, congrArg _ (Session.claimants_begin s s' st)⟩

/-- Another step is taken by the one session only. -/
theorem skip (h : Follows maxSize ttl id { session := s } { session := s' }) {st : Step V}
    (unseen : (s.aspect id).begin st = ([], s.aspect id))
    (others : callsOf id (Activity.begin s st).claimants = []) :
    Follows maxSize ttl id (Activity.begin s st) { session := s' } := by
  obtain ⟨hready, haspect⟩ := aspect_begin id h.reached.accounted.1 st
  rw [unseen] at hready haspect
  exact ⟨h.reached.trans (moves_begin s st), h.reached', h.alone, h.aspect.trans haspect.symm,
    hready.symm, others.symm⟩

theorem sweep_left (h : Follows maxSize ttl id { session := s } { session := s' }) :
    Follows maxSize ttl id { session := s.sweep } { session := s' } :=
  ⟨h.reached.tail (.sweep _), h.reached', h.alone,
    h.aspect.trans (aspect_sweep id h.reached.accounted.1).symm, rfl, rfl⟩

theorem sweep_right (h : Follows maxSize ttl id { session := s } { session := s' }) :
    Follows maxSize ttl id { session := s } { session := s'.sweep } :=
  ⟨h.reached, h.reached'.tail (.sweep _), h.alone.sweep h.reached'.accounted.1,
    (aspect_sweep id h.reached'.accounted.1).trans h.aspect, rfl, rfl⟩

/-- What has been begun is carried on in both. -/
theorem finish (h : Follows maxSize ttl id a b) (σ : Schedule V)
    (room : (a.finish σ).coordinator.memo.evictions = 0) :
    ∃ τ, σ.Keeps τ ∧
      Follows maxSize ttl id { session := a.finish σ } { session := b.finish τ } := by
  obtain ⟨s, es, cs⟩ := a
  obtain ⟨s', es', cs'⟩ := b
  exact (h.claimAll (.refl _) (.refl _) h.claimants).settle σ room

theorem room_act (h : Follows maxSize ttl id { session := s } { session := s' }) {σ : Schedule V}
    {st : Step V} (room : (s.step σ st).coordinator.memo.evictions = 0) :
    (s.act σ st).coordinator.memo.evictions = 0 := by
  have reached : Reachable maxSize ttl { session := s.act σ st } :=
    h.reached.trans (moves_act σ s st)
  have swept := reached.accounted.1.evictions_le (.single (.sweep _))
  exact Nat.eq_zero_of_le_zero (room ▸ swept)

theorem step (h : Follows maxSize ttl id { session := s } { session := s' }) (σ : Schedule V)
    {st : Step V} (hst : ∀ c, st = .call c → c.id = id)
    (room : (s.step σ st).coordinator.memo.evictions = 0) :
    ∃ τ, σ.Keeps τ ∧
      Follows maxSize ttl id { session := s.step σ st } { session := s'.step τ st } := by
  have room' := h.room_act room
  rw [← finish_begin] at room'
  obtain ⟨τ, keeps, hacted⟩ := (h.begin hst).finish σ room'
  rw [finish_begin, finish_begin] at hacted
  exact ⟨τ, keeps, hacted.sweep_left.sweep_right⟩

theorem step_left (h : Follows maxSize ttl id { session := s } { session := s' }) (σ : Schedule V)
    {st : Step V} (unseen : (s.aspect id).begin st = ([], s.aspect id))
    (others : callsOf id (Activity.begin s st).claimants = [])
    (room : (s.step σ st).coordinator.memo.evictions = 0) :
    Follows maxSize ttl id { session := s.step σ st } { session := s' } := by
  have room' := h.room_act room
  rw [← finish_begin] at room'
  obtain ⟨τ, -, hacted⟩ := (h.skip unseen others).finish σ room'
  rw [finish_begin] at hacted
  change Follows maxSize ttl id _ { session := s'.settle τ [] } at hacted
  rw [Session.settle_nil] at hacted
  exact hacted.sweep_left

end Follows

section
variable {σ : Schedule V} {names : List String} {steps : List (Step V)} {s : Session V}

/-- Calls of other ids, and departures of others than the callers of the id, are not seen. -/
theorem unseen_of_not_concerns (tended : Tended steps { session := s })
    (hnames : ∀ c, .call c ∈ steps → c.id = id → c.name ∈ names) {st : Step V}
    (hst : st.concerns id names = false) :
    (s.aspect id).begin st = ([], s.aspect id) ∧ callsOf id (begin s st).claimants = [] := by
  cases st with
  | call c =>
    have hid : c.id ≠ id := of_decide_eq_false hst
    exact ⟨rfl, callsOf_cons_other hid []⟩
  | drop name =>
    have hname : name ∉ names := by simpa [Step.concerns] using hst
    have parked : (s.aspect id).parked.map (Execution.leave name) = (s.aspect id).parked := by
      refine (List.map_congr_left (g := fun e => e) fun e he => ?_).trans (List.map_id' _)
      obtain ⟨e', he', rfl⟩ := List.mem_map.mp he
      obtain ⟨hmem, hid⟩ := List.mem_filter.mp he'
      have issued := tended.issued e' (List.mem_append_left _ hmem)
      have hne : e'.call.name ≠ name := fun heq =>
        hname (heq ▸ hnames e'.call issued (of_decide_eq_true hid))
      exact if_neg hne
    have waiting : ((s.aspect id).waiting.filter fun c => c.name ≠ name) =
        (s.aspect id).waiting := by
      refine List.filter_eq_self.mpr fun c hc => decide_eq_true fun heq => hname ?_
      obtain ⟨hc, hid⟩ := List.mem_filter.mp hc
      have called : .call c ∈ steps := by
        apply Step.call_mem_of_mem_callers
        rw [tended.complete.mem_iff]
        simp [unfinished, Session.unfinished, hc]
      exact heq ▸ hnames c called (of_decide_eq_true hid)
    refine ⟨?_, rfl⟩
    rw [Aspect.begin, parked, waiting]
  | _ => cases hst

theorem follows_new (maxSize ttl : Nat) (id : RequestId) :
    let s : Session V := { coordinator := .new maxSize ttl }
    Follows maxSize ttl id { session := s } { session := s } := by
  intro s
  have alone : Alone id { session := s.run .arrival [] } := alone_run .arrival maxSize ttl (by simp)
  exact ⟨.refl, .refl, alone, rfl, rfl, rfl⟩

/-- A run that evicts nothing is followed, step by step, by the run of one id alone. -/
theorem exists_follows (hnames : ∀ c, .call c ∈ steps → c.id = id → c.name ∈ names)
    (room :
      (Session.run σ { coordinator := .new maxSize ttl } steps).coordinator.memo.evictions = 0) :
    let s : Session V := { coordinator := .new maxSize ttl }
    ∃ τ, σ.Keeps τ ∧ ∀ before, before <+: steps → Follows maxSize ttl id
      { session := s.run σ before }
      { session := s.run τ (before.filter (Step.concerns id names)) } := by
  intro s
  induction steps using List.reverseRecOn with
  | nil =>
    refine ⟨σ, fun h => h, fun before hbefore => ?_⟩
    rw [List.prefix_nil.mp hbefore]
    exact follows_new maxSize ttl id
  | append_singleton steps st ih =>
    have hnames' : ∀ c, .call c ∈ steps → c.id = id → c.name ∈ names := fun c hc =>
      hnames c (List.mem_append_left _ hc)
    rw [Session.run_concat] at room
    have room' : (s.run σ steps).coordinator.memo.evictions = 0 := by
      have kept := (reachable_run σ maxSize ttl steps).accounted.1
      have grown := kept.evictions_le (moves_run σ (s.run σ steps) [st])
      exact Nat.eq_zero_of_le_zero (room ▸ grown)
    obtain ⟨τ, keeps, hfollows⟩ := ih hnames' room'
    have hlast := hfollows steps (List.prefix_refl steps)
    cases hst : st.concerns id names with
    | false =>
      have tended := (reached_run σ maxSize ttl steps).tended
      obtain ⟨unseen, others⟩ := unseen_of_not_concerns tended hnames' hst
      refine ⟨τ, keeps, fun before hbefore => ?_⟩
      rcases List.prefix_concat_iff.mp hbefore with rfl | hbefore
      · rw [Session.run_concat, List.filter_append, List.filter_cons_of_neg (by simp [hst]),
          List.filter_nil, List.append_nil]
        exact hlast.step_left σ unseen others room
      · exact hfollows before hbefore
    | true =>
      have hid : ∀ c, st = .call c → c.id = id := by
        rintro c rfl
        exact of_decide_eq_true hst
      obtain ⟨τ', keeps', hnext⟩ := hlast.step σ hid room
      -- The steps before go by the one schedule, and the last one by the other.
      let bound := (s.run τ (steps.filter (Step.concerns id names))).events.length
      refine ⟨τ.until bound τ', keeps.until keeps' bound, fun before hbefore => ?_⟩
      rcases List.prefix_concat_iff.mp hbefore with rfl | hbefore
      · rw [Session.run_concat, List.filter_append, List.filter_cons_of_pos hst, List.filter_nil,
          Session.run_concat, Session.run_until τ τ' s (List.prefix_refl _), Session.step_until]
        exact hnext
      · rw [Session.run_until τ τ' s (hbefore.filter _)]
        exact hfollows before hbefore

end
end Activity

namespace Session
open Activity

theorem callsOf_unfinished (id : RequestId) (s : Session V) : callsOf id s.unfinished =
    (s.aspect id).parked.flatMap Execution.caller ++ (s.aspect id).waiting := by
  have hparked : ∀ es : List (Execution V), callsOf id (es.flatMap Execution.caller) =
      (executionsOf id es).flatMap Execution.caller := by
    intro es
    induction es with
    | nil => rfl
    | cons e es ih =>
      rw [List.flatMap_cons, callsOf_append, ih, callsOf_caller]
      by_cases hid : e.call.id = id
      · rw [if_pos hid, executionsOf_cons_self hid]
        rfl
      · rw [if_neg hid, executionsOf_cons_other hid]
        rfl
  rw [unfinished, callsOf_append, hparked]
  rfl

/-- From `t'` to `u'` the same is told of the id as from `t` to `u`, but for the numbers of
executions. Those left unanswered in `u'` are the callers of the id that are in `u`. -/
structure AlikeUnder (id : RequestId) (t u t' u' : Session V) : Prop where
  since : (u'.since t').filterMap (Event.about? id) = (u.since t).filterMap (Event.about? id)
  unfinished : u'.unfinished = u.unfinished.filter fun c => c.id = id

theorem alikeUnder_of_follows {maxSize ttl : Nat} {id : RequestId} {t u t' u' : Session V}
    (h : Follows maxSize ttl id { session := t } { session := t' })
    (h' : Follows maxSize ttl id { session := u } { session := u' })
    (moves : Relation.ReflTransGen Move { session := t } { session := u })
    (moves' : Relation.ReflTransGen Move { session := t' } { session := u' }) :
    AlikeUnder id t u t' u' where
  since := by
    obtain ⟨told, hevents⟩ := h.reached.accounted.1.suffix moves
    obtain ⟨told', hevents'⟩ := h.reached'.accounted.1.suffix moves'
    have hstart : t'.events.filterMap (Event.about? id) = t.events.filterMap (Event.about? id) :=
      congrArg Aspect.told h.aspect
    have hend : u'.events.filterMap (Event.about? id) = u.events.filterMap (Event.about? id) :=
      congrArg Aspect.told h'.aspect
    change told ++ t.events = u.events at hevents
    change told' ++ t'.events = u'.events at hevents'
    rw [← hevents, ← hevents', List.filterMap_append, List.filterMap_append, hstart] at hend
    have htold := List.append_cancel_right hend
    rw [since_of_append hevents'.symm, since_of_append hevents.symm, List.filterMap_reverse,
      List.filterMap_reverse, htold]
  unfinished := by
    have haspect : u'.aspect id = u.aspect id := h'.aspect
    have own : ∀ c ∈ u'.unfinished, c.id = id := by
      intro c hc
      rcases List.mem_append.mp hc with hc | hc
      · obtain ⟨e, he, hce⟩ := List.mem_flatMap.mp hc
        have hcaller := callsOf_caller id e
        rw [if_pos (h'.alone.unsettled e (List.mem_append_left _ he))] at hcaller
        rw [← hcaller] at hce
        exact of_decide_eq_true (List.mem_filter.mp hce).2
      · obtain ⟨w, hw, rfl⟩ := List.mem_map.mp hc
        exact h'.alone.waiters w hw
    have hown := callsOf_eq_self own
    rw [callsOf_unfinished, haspect, ← callsOf_unfinished] at hown
    exact hown.symm

/-- Ids do not affect each other as long as nothing is evicted. Take a run that ends without
evictions, and leave out the calls of all ids but one. Departures are kept of all callers of that
id, and may be left out of others. Then nothing is evicted in what is left, in whatever order
released callers claim. If those of the id claim in the same order as before, every step tells the
same of the id, or nothing if it has been left out, and the same callers of the id are left
unanswered. That order is the order of arrival if the run goes by it. -/
theorem ids_apart (σ : Schedule V) (maxSize ttl : Nat) (steps : List (Step V)) (id : RequestId)
    (names : List String) (hnames : ∀ c, .call c ∈ steps → c.id = id → c.name ∈ names)
    (room :
      (Session.run σ { coordinator := .new maxSize ttl } steps).coordinator.usage.evictions = 0) :
    let s : Session V := { coordinator := .new maxSize ttl }
    let own (steps : List (Step V)) := steps.filter (Step.concerns id names)
    (∀ τ, (s.run τ (own steps)).coordinator.usage.evictions = 0) ∧
      ∃ τ, (σ = .arrival → τ = .arrival) ∧ ∀ before st after, steps = before ++ st :: after →
        AlikeUnder id (s.run σ before) (s.run σ (before ++ [st]))
          (s.run τ (own before)) (s.run τ (own (before ++ [st]))) := by
  intro s own
  constructor
  · intro τ
    have hown : ∀ c, .call c ∈ own steps → c.id = id := fun c hc =>
      of_decide_eq_true (List.mem_filter.mp hc).2
    exact (alone_run τ maxSize ttl hown).evictions
  · obtain ⟨τ, keeps, hfollows⟩ := exists_follows hnames room
    refine ⟨τ, keeps, fun before st after hsplit => ?_⟩
    have hjoined := (List.append_cons before st after).symm.trans hsplit.symm
    have hsteps : before ++ [st] <+: steps := ⟨after, hjoined⟩
    have hbefore := hfollows before ((List.prefix_append before [st]).trans hsteps)
    have hafter := hfollows (before ++ [st]) hsteps
    have moves := moves_run σ (s.run σ before) [st]
    have moves' := moves_run τ (s.run τ (own before)) (own [st])
    have hown : own before ++ own [st] = own (before ++ [st]) := (List.filter_append _ _).symm
    rw [← run_append] at moves moves'
    rw [hown] at moves'
    exact alikeUnder_of_follows hbefore hafter moves moves'

/-- A handler breaks down once its gate is opened, and the caller that has waited for it starts its
own. Meanwhile a stranger has called and gone away. -/
theorem ids_apart_of_stranger :
    let first : Call Nat :=
      ⟨"first", ⟨"id"⟩, .wide, { gate := some "gate", ending := .breakdown (.undeclared []) }⟩
    let second : Call Nat := ⟨"second", ⟨"id"⟩, .narrow, { ending := .value 8 }⟩
    let stranger : Call Nat := ⟨"stranger", ⟨"other"⟩, .narrow, { ending := .value 9 }⟩
    let run := Session.run .arrival ({ coordinator := .new 2 10 } : Session Nat)
    let steps : List (Step Nat) :=
      [.call first, .call stranger, .call second, .drop "stranger"]
    let own : List (Step Nat) := [.call first, .call second]
    let opening : Step Nat := .openGate "gate"
    (run (steps ++ [opening])).coordinator.usage.evictions = 0 ∧
      (run (own ++ [opening])).coordinator.usage.evictions = 0 ∧
      AlikeUnder ⟨"id"⟩ (run steps) (run (steps ++ [opening]))
        (run own) (run (own ++ [opening])) := by
  intro first second stranger run steps own opening
  have room : (run (steps ++ [opening])).coordinator.usage.evictions = 0 := by
    simp only [run, steps, opening, first, second, stranger]
    cbv
  have hnames : ∀ c, .call c ∈ steps ++ [opening] → c.id = ⟨"id"⟩ →
      c.name ∈ ["first", "second"] := by
    simp [steps, opening, first, second, stranger]
  have hown : steps.filter (Step.concerns ⟨"id"⟩ ["first", "second"]) = own := by
    simp [steps, own, first, second, stranger, Step.concerns]
  have hown' : (steps ++ [opening]).filter (Step.concerns ⟨"id"⟩ ["first", "second"]) =
      own ++ [opening] := by
    rw [List.filter_append, hown]
    rfl
  obtain ⟨evictions, τ, arrival, alike⟩ := ids_apart .arrival 2 10 (steps ++ [opening])
    ⟨"id"⟩ ["first", "second"] hnames room
  obtain rfl := arrival rfl
  have evictions := evictions .arrival
  have alike := alike steps opening [] rfl
  dsimp only at evictions alike
  rw [hown'] at evictions alike
  rw [hown] at alike
  exact ⟨room, evictions, alike⟩

end Session
end AtMostOnce
