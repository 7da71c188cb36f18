import AtMostOnce.Proofs.Session.Rounds

/-! Two sessions in lockstep. If each kind of work keeps a relation between them, then so does every
run, once released callers claim in the same order in both. A schedule has to name that order by
other counts in the one than in the other where more has happened in the one. -/
namespace AtMostOnce.Session
open Activity
variable {V : Type}

/-- The relation, between two sessions and the executions that can go on in either, is kept by all
work. The same callers are released in both. -/
structure Lockstep
    (R : Session V → List (Execution V) → Session V → List (Execution V) → Prop) : Prop where
  proceed : ∀ {s es s' es'}, R s es s' es' →
    (s'.proceedAll es').1 = (s.proceedAll es).1 ∧
      R (s.proceedAll es).2 [] (s'.proceedAll es').2 []
  claim : ∀ {s es s' es'} (cs : List (Call V)), R s es s' es' →
    R (s.claimAll cs).2 (es ++ (s.claimAll cs).1) (s'.claimAll cs).2 (es' ++ (s'.claimAll cs).1)
  idle : ∀ {s es s' es'}, R s es s' es' → (es' = [] ↔ es = [])
  begin : ∀ {s s'} (st : Step V), R s [] s' [] →
    R (begin s st).session (begin s st).ready (begin s' st).session (begin s' st).ready
  sweep : ∀ {s s'}, R s [] s' [] → R s.sweep [] s'.sweep []

theorem claimants_begin (s s' : Session V) (st : Step V) :
    (begin s' st).claimants = (begin s st).claimants := by
  cases st <;> rfl

theorem settle_nil (σ : Schedule V) (s : Session V) : s.settle σ [] = s := by
  have hnil : σ.arrange s.events.length [] = [] := (σ.perm _ []).eq_nil
  have hround : s.round σ [] = ([], s) := by
    unfold round proceedAll
    rw [hnil]
    rfl
  rw [settle_eq_round, hround, if_pos rfl]

/-- The first round leaves the rest of the work. -/
theorem settle_round (σ : Schedule V) (s : Session V) (ready : List (Execution V)) :
    (s.round σ ready).2.settle σ (s.round σ ready).1 = s.settle σ ready := by
  rw [settle_eq_round σ s ready]
  split
  · rename_i hdone
    rw [hdone, settle_nil]
  · rfl

/-- The first round goes by the one schedule, and the later ones by the other. -/
theorem settle_until (σ τ : Schedule V) (s : Session V) (ready : List (Execution V)) :
    s.settle (σ.until (s.round σ ready).2.events.length τ) ready =
      (s.round σ ready).2.settle τ (s.round σ ready).1 := by
  let bound := (s.round σ ready).2.events.length
  have joins := σ.joins_until bound τ
  have hfirst : s.round (σ.until bound τ) ready = s.round σ ready :=
    round_congr fun n _ hn => joins.below n hn
  rw [← settle_round, hfirst]
  exact settle_congr fun n hn _ => joins.beyond n hn

/-- Every step begins, lets callers claim, and then lets all work go on that can. -/
theorem act_eq_settle (σ : Schedule V) (s : Session V) (st : Step V) :
    s.act σ st = ((begin s st).session.claimAll (begin s st).claimants).2.settle σ
      ((begin s st).ready ++ ((begin s st).session.claimAll (begin s st).claimants).1) := by
  cases st with
  | call c =>
    show _ = (s.claim c).2.settle σ ([] ++ ((s.claim c).1.toList ++ []))
    rw [List.append_nil, List.nil_append]
    rfl
  | openGate gate =>
    show _ = Session.settle σ _ ([] ++ (s.parked.partition _).1 ++ [])
    rw [List.append_nil, List.nil_append]
    rfl
  | drop name => exact (settle_nil σ (s.drop name)).symm
  | advance d => exact (settle_nil σ { s with now := s.now + d }).symm
  | purge => exact (settle_nil σ s.purge).symm
  | startSweep timer interval =>
    exact (settle_nil σ { s with sweeps := s.sweeps ++ [.start timer interval s.now] }).symm
  | stopSweeps => exact (settle_nil σ { s with sweeps := [] }).symm
  | look => exact (settle_nil σ s).symm

namespace Lockstep
variable {R : Session V → List (Execution V) → Session V → List (Execution V) → Prop}
  {s s' : Session V} {es es' : List (Execution V)}

theorem flip (h : Lockstep R) : Lockstep fun s' es' s es => R s es s' es' where
  proceed hr := ⟨(h.proceed hr).1.symm, (h.proceed hr).2⟩
  claim cs hr := h.claim cs hr
  idle hr := (h.idle hr).symm
  begin st hr := h.begin st hr
  sweep hr := h.sweep hr

theorem round (h : Lockstep R) (hr : R s es s' es') (σ σ' : Schedule V)
    (aligned : σ'.arrange (s'.proceedAll es').2.events.length =
      σ.arrange (s.proceedAll es).2.events.length) :
    R (s.round σ es).2 (s.round σ es).1 (s'.round σ' es').2 (s'.round σ' es').1 := by
  obtain ⟨hreleased, hproceeded⟩ := h.proceed hr
  unfold Session.round
  rw [hreleased, aligned]
  exact h.claim _ hproceeded

/-- Whatever the schedule of the one session, there is one for the other. -/
theorem settle (h : Lockstep R) (hr : R s es s' es') (σ : Schedule V) :
    ∃ f, R (s.settle σ es) [] (s'.settle (σ.relabel f) es') [] := by
  induction s, es using round_induction σ generalizing s' es' with
  | done s es hdone =>
    let count (_ : Nat) : Nat := (s.proceedAll es).2.events.length
    have hround := h.round hr σ (σ.relabel count) rfl
    have hdone' := (h.idle hround).mpr hdone
    rw [hdone, hdone'] at hround
    refine ⟨count, ?_⟩
    rw [settle_eq_round σ s, settle_eq_round _ s', if_pos hdone, if_pos hdone']
    exact hround
  | more s es hmore ih =>
    let count (_ : Nat) : Nat := (s.proceedAll es).2.events.length
    have hround := h.round hr σ (σ.relabel count) rfl
    have hmore' := mt (h.idle hround).mp hmore
    obtain ⟨f, hf⟩ := ih hround
    -- This round goes by the count of the other session, and the later ones as they have to.
    let bound := (s'.round (σ.relabel count) es').2.events.length
    have joins := σ.joins_splice bound count f
    have hfirst : s'.round (σ.relabel (splice bound count f)) es' =
        s'.round (σ.relabel count) es' := round_congr fun n _ hn => joins.below n hn
    refine ⟨splice bound count f, ?_⟩
    rw [settle_eq_round σ s, if_neg hmore, settle_eq_round _ s', hfirst, if_neg hmore',
      settle_congr fun n hn _ => joins.beyond n hn]
    exact hf

theorem step (h : Lockstep R) (hr : R s [] s' []) (σ : Schedule V) (st : Step V) :
    ∃ f, R (s.step σ st) [] (s'.step (σ.relabel f) st) [] := by
  have hclaimed := h.claim (Activity.begin s st).claimants (h.begin st hr)
  obtain ⟨f, hf⟩ := h.settle hclaimed σ
  refine ⟨f, ?_⟩
  have hact := act_eq_settle (σ.relabel f) s' st
  rw [claimants_begin s s'] at hact
  unfold Session.step
  rw [act_eq_settle σ s, hact]
  exact h.sweep hf

theorem run (h : Lockstep R) (hr : R s [] s' []) (σ : Schedule V) (steps : List (Step V)) :
    ∃ f, ∀ before after, steps = before ++ after →
      R (s.run σ before) [] (s'.run (σ.relabel f) before) [] := by
  induction steps generalizing s s' with
  | nil =>
    refine ⟨id, fun before after hsplit => ?_⟩
    obtain ⟨rfl, -⟩ := List.nil_eq_append_iff.mp hsplit
    exact hr
  | cons st steps ih =>
    obtain ⟨f, hstep⟩ := h.step hr σ st
    obtain ⟨g, hrun⟩ := ih hstep
    let bound := (s'.step (σ.relabel f) st).events.length
    have joins := σ.joins_splice bound f g
    have hfirst : s'.step (σ.relabel (splice bound f g)) st = s'.step (σ.relabel f) st :=
      step_congr fun n _ hn => joins.below n hn
    refine ⟨splice bound f g, fun before after hsplit => ?_⟩
    cases before with
    | nil => exact hr
    | cons st' before =>
      obtain ⟨rfl, hrest⟩ := List.cons.inj hsplit
      have hlater : (s'.step (σ.relabel f) st).run (σ.relabel (splice bound f g)) before =
          (s'.step (σ.relabel f) st).run (σ.relabel g) before :=
        run_congr fun n hn => joins.beyond n hn
      have hboth := hrun before after hrest
      rw [← hlater, ← hfirst] at hboth
      exact hboth

end Lockstep
end AtMostOnce.Session
