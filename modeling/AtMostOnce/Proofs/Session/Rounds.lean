import AtMostOnce.Proofs.Session.Effect

/-! Rounds of work, and what they ask of a schedule. A round asks it once, for the count of what has
happened by then. -/
namespace AtMostOnce
variable {V : Type}

/-- The schedule that goes by other counts of what has happened. -/
def Schedule.relabel (σ : Schedule V) (f : Nat → Nat) : Schedule V where
  arrange n := σ.arrange (f n)
  perm n := σ.perm (f n)

/-- One function below a bound and another one from there on. -/
def splice (bound : Nat) (f g : Nat → Nat) (n : Nat) : Nat := if n < bound then f n else g n

/-- The schedule `ρ` goes by `σ` below a bound and by `τ` from there on. -/
structure Schedule.Joins (ρ : Schedule V) (bound : Nat) (σ τ : Schedule V) : Prop where
  below : ∀ n, n < bound → ρ.arrange n = σ.arrange n
  beyond : ∀ n, bound ≤ n → ρ.arrange n = τ.arrange n

theorem Schedule.joins_self (σ : Schedule V) (bound : Nat) : σ.Joins bound σ σ :=
  ⟨fun _ _ => rfl, fun _ _ => rfl⟩

/-- The schedule that goes by `σ` below a bound and by `τ` from there on. -/
def Schedule.until (σ : Schedule V) (bound : Nat) (τ : Schedule V) : Schedule V where
  arrange n := if n < bound then σ.arrange n else τ.arrange n
  perm n calls := by
    split
    · exact σ.perm n calls
    · exact τ.perm n calls

theorem Schedule.joins_until (σ : Schedule V) (bound : Nat) (τ : Schedule V) :
    (σ.until bound τ).Joins bound σ τ where
  below _ h := if_pos h
  beyond _ h := if_neg (Nat.not_lt.mpr h)

theorem Schedule.joins_splice (σ : Schedule V) (bound : Nat) (f g : Nat → Nat) :
    (σ.relabel (splice bound f g)).Joins bound (σ.relabel f) (σ.relabel g) where
  below _ h := congrArg σ.arrange (if_pos h)
  beyond _ h := congrArg σ.arrange (if_neg (Nat.not_lt.mpr h))

open Classical in
/-- The schedule that arranges `cs` as `ds`, and leaves all other callers as they came. -/
noncomputable def Schedule.arranging (cs ds : List (Call V)) (h : ds.Perm cs) : Schedule V where
  arrange _ xs := if xs = cs then ds else xs
  perm _ xs := by
    split
    · rename_i heq
      rw [heq]
      exact h
    · exact .refl _

namespace Session

theorem since_of_append {t u : Session V} {told : List (Event V)}
    (h : u.events = told ++ t.events) : u.since t = told.reverse := by
  rw [since, h, List.length_append, Nat.add_sub_cancel, List.take_left]

/-- One round of work: the ready executions go on, and the callers that they release claim again. -/
def round (σ : Schedule V) (s : Session V) (ready : List (Execution V)) :
    List (Execution V) × Session V :=
  (s.proceedAll ready).2.claimAll
    (σ.arrange (s.proceedAll ready).2.events.length (s.proceedAll ready).1)

theorem settle_eq_round (σ : Schedule V) (s : Session V) (ready : List (Execution V)) :
    s.settle σ ready = if (s.round σ ready).1 = [] then (s.round σ ready).2
      else (s.round σ ready).2.settle σ (s.round σ ready).1 := by
  rw [settle]
  rfl

/-- Work is done when nobody is released. -/
theorem settle_of_released_nil (σ : Schedule V) {s : Session V} {es : List (Execution V)}
    (h : (s.proceedAll es).1 = []) : s.settle σ es = (s.proceedAll es).2 := by
  have hnil : σ.arrange (s.proceedAll es).2.events.length [] = [] := (σ.perm _ []).eq_nil
  rw [settle, h, hnil]
  rfl

theorem proceedAll_singleton (s : Session V) (e : Execution V) :
    s.proceedAll [e] = s.proceed e := by
  show ((s.proceed e).1 ++ [], (s.proceed e).2) = _
  rw [List.append_nil]

/-- Work is done in rounds until one of them starts no handler. -/
theorem round_induction (σ : Schedule V) {P : Session V → List (Execution V) → Prop}
    (done : ∀ s ready, (s.round σ ready).1 = [] → P s ready)
    (more : ∀ s ready, (s.round σ ready).1 ≠ [] →
      P (s.round σ ready).2 (s.round σ ready).1 → P s ready)
    (s : Session V) (ready : List (Execution V)) : P s ready := by
  fun_induction settle σ s ready with
  | case1 s ready round claims h => exact done s ready h
  | case2 s ready round claims h ih => exact more s ready h ih

section
variable (σ : Schedule V) (s : Session V)

theorem length_events_claim (c : Call V) : s.events.length < (s.claim c).2.events.length := by
  rcases hd : s.coordinator.memo.lookup s.now c.id s.coordinator.memo.nextGeneration
    with ⟨answer, m⟩
  cases answer with
  | live o =>
    rw [claim_of_live hd]
    exact Nat.lt_add_of_pos_right (by decide : 0 < 2)
  | pending n =>
    rw [claim_of_pending hd]
    exact Nat.lt_succ_self _
  | claimed n =>
    rw [claim_of_claimed hd]
    exact Nat.lt_succ_self _

theorem length_events_claimAll (cs : List (Call V)) :
    s.events.length + cs.length ≤ (s.claimAll cs).2.events.length := by
  induction cs generalizing s with
  | nil => exact Nat.le_refl _
  | cons c cs ih =>
    have hfirst := length_events_claim s c
    have hrest := ih (s.claim c).2
    rw [claimAll, List.length_cons]
    dsimp only
    omega

theorem length_events_proceed (e : Execution V) :
    s.events.length ≤ (s.proceed e).2.events.length := by
  cases hg : (e.closedGate? s.opened).isSome with
  | true =>
    exact Nat.le_of_eq (by rw [proceed_of_closed hg])
  | false =>
    cases hres : e.call.handler.result with
    | ok o =>
      rw [proceed_of_ok hg hres]
      dsimp only
      rw [List.length_append, List.length_cons]
      omega
    | error f =>
      rw [proceed_of_error hg hres]
      dsimp only
      rw [List.length_append, List.length_cons]
      omega

theorem length_events_proceedAll (es : List (Execution V)) :
    s.events.length ≤ (s.proceedAll es).2.events.length := by
  induction es generalizing s with
  | nil => exact Nat.le_refl _
  | cons e es ih => exact Nat.le_trans (length_events_proceed s e) (ih (s.proceed e).2)

theorem length_events_round (ready : List (Execution V)) :
    (s.proceedAll ready).2.events.length + (s.proceedAll ready).1.length ≤
      (s.round σ ready).2.events.length := by
  have h := length_events_claimAll (s.proceedAll ready).2
    (σ.arrange (s.proceedAll ready).2.events.length (s.proceedAll ready).1)
  rw [(σ.perm _ _).length_eq] at h
  exact h

theorem length_events_round_le (ready : List (Execution V)) :
    (s.round σ ready).2.events.length ≤ (s.settle σ ready).events.length := by
  induction s, ready using round_induction σ with
  | done s ready hdone =>
    exact Nat.le_of_eq (by rw [settle_eq_round, if_pos hdone])
  | more s ready hmore ih =>
    have hproceed := length_events_proceedAll (s.round σ ready).2 (s.round σ ready).1
    have hround := length_events_round σ (s.round σ ready).2 (s.round σ ready).1
    rw [settle_eq_round, if_neg hmore]
    omega

theorem length_events_settle (ready : List (Execution V)) :
    s.events.length ≤ (s.settle σ ready).events.length := by
  have hproceed := length_events_proceedAll s ready
  have hround := length_events_round σ s ready
  have hsettle := length_events_round_le σ s ready
  omega

end

section
variable {σ σ' : Schedule V} {s : Session V} {ready : List (Execution V)}

/-- A schedule is asked only about counts that are reached. -/
theorem round_congr (h : ∀ n, s.events.length ≤ n → n < (s.round σ ready).2.events.length →
    σ'.arrange n = σ.arrange n) : s.round σ' ready = s.round σ ready := by
  have hproceed := length_events_proceedAll s ready
  have hround := length_events_round σ s ready
  unfold round
  cases hr : (s.proceedAll ready).1 with
  | nil => rw [(σ.perm _ []).eq_nil, (σ'.perm _ []).eq_nil]
  | cons c cs =>
    rw [hr, List.length_cons] at hround
    rw [h _ hproceed (by omega)]

theorem settle_congr (h : ∀ n, s.events.length ≤ n → n < (s.settle σ ready).events.length →
    σ'.arrange n = σ.arrange n) : s.settle σ' ready = s.settle σ ready := by
  induction s, ready using round_induction σ with
  | done s ready hdone =>
    have hlength := length_events_round_le σ s ready
    have hround : s.round σ' ready = s.round σ ready :=
      round_congr fun n hn hn' => h n hn (by omega)
    rw [settle_eq_round σ, settle_eq_round σ', hround, if_pos hdone, if_pos hdone]
  | more s ready hmore ih =>
    have hlength := length_events_round_le σ s ready
    have hproceed := length_events_proceedAll s ready
    have hcalls := length_events_round σ s ready
    have hround : s.round σ' ready = s.round σ ready :=
      round_congr fun n hn hn' => h n hn (by omega)
    rw [settle_eq_round σ, if_neg hmore] at h ⊢
    rw [settle_eq_round σ', hround, if_neg hmore]
    exact ih fun n hn hn' => h n (by omega) hn'

theorem startCall_congr {c : Call V}
    (h : ∀ n, s.events.length ≤ n → n < (s.startCall σ c).events.length →
      σ'.arrange n = σ.arrange n) : s.startCall σ' c = s.startCall σ c := by
  have hclaim := length_events_claim s c
  have hsettle : (s.claim c).2.settle σ' (s.claim c).1.toList =
      (s.claim c).2.settle σ (s.claim c).1.toList :=
    settle_congr fun n hn hn' => h n (Nat.le_trans (Nat.le_of_lt hclaim) hn) hn'
  exact hsettle

/-- What a step does depends on the schedule for the counts that the step goes through. -/
theorem step_congr {st : Step V}
    (h : ∀ n, s.events.length ≤ n → n < (s.step σ st).events.length →
      σ'.arrange n = σ.arrange n) : s.step σ' st = s.step σ st := by
  refine congrArg sweep ?_
  cases st with
  | call c => exact startCall_congr h
  | openGate gate => exact settle_congr h
  | _ => rfl

theorem length_events_step (σ : Schedule V) (s : Session V) (st : Step V) :
    s.events.length ≤ (s.step σ st).events.length := by
  show s.events.length ≤ (s.act σ st).events.length
  cases st with
  | call c =>
    exact Nat.le_trans (Nat.le_of_lt (length_events_claim s c)) (length_events_settle σ _ _)
  | openGate gate =>
    let opened : Session V := { s with
      opened := gate :: s.opened
      parked := (s.parked.partition fun e => e.closedGate? s.opened = some gate).2 }
    exact length_events_settle σ opened _
  | drop name => exact Nat.le_succ _
  | purge => exact Nat.le_succ _
  | _ => exact Nat.le_refl _

theorem run_congr {steps : List (Step V)}
    (h : ∀ n, s.events.length ≤ n → σ'.arrange n = σ.arrange n) :
    s.run σ' steps = s.run σ steps := by
  induction steps generalizing s with
  | nil => rw [run, run, List.foldl_nil, List.foldl_nil]
  | cons st steps ih =>
    have hlength := length_events_step σ s st
    have hstep : s.step σ' st = s.step σ st := step_congr fun n hn _ => h n hn
    have hrest : (s.step σ st).run σ' steps = (s.step σ st).run σ steps :=
      ih fun n hn => h n (Nat.le_trans hlength hn)
    rw [run, run, List.foldl_cons, List.foldl_cons, hstep]
    exact hrest

/-- The first step goes by the one schedule, and the later ones by the other. -/
theorem run_cons_until (σ τ : Schedule V) (s : Session V) (st : Step V) (steps : List (Step V)) :
    s.run (σ.until (s.step σ st).events.length τ) (st :: steps) = (s.step σ st).run τ steps := by
  let bound := (s.step σ st).events.length
  have joins := σ.joins_until bound τ
  have hfirst : s.step (σ.until bound τ) st = s.step σ st :=
    step_congr fun n _ hn => joins.below n hn
  rw [run, List.foldl_cons, hfirst]
  exact run_congr fun n hn => joins.beyond n hn

theorem run_append (σ : Schedule V) (s : Session V) (steps more : List (Step V)) :
    s.run σ (steps ++ more) = (s.run σ steps).run σ more := List.foldl_append

theorem run_concat (σ : Schedule V) (s : Session V) (steps : List (Step V)) (st : Step V) :
    s.run σ (steps ++ [st]) = (s.run σ steps).step σ st := s.run_append σ steps [st]

theorem length_events_run (σ : Schedule V) (s : Session V) (steps : List (Step V)) :
    s.events.length ≤ (s.run σ steps).events.length := by
  induction steps using List.reverseRecOn with
  | nil => exact Nat.le_refl _
  | append_singleton steps st ih =>
    have hlength := length_events_step σ (s.run σ steps) st
    rw [run_concat]
    omega

/-- A run depends on the schedule for the counts below its last one. -/
theorem run_congr_below {steps : List (Step V)}
    (h : ∀ n, n < (s.run σ steps).events.length → σ'.arrange n = σ.arrange n) :
    s.run σ' steps = s.run σ steps := by
  induction steps using List.reverseRecOn with
  | nil => rw [run, run, List.foldl_nil, List.foldl_nil]
  | append_singleton steps st ih =>
    have hlength := length_events_step σ (s.run σ steps) st
    rw [run_concat] at h
    rw [run_concat, run_concat, ih fun n hn => h n (by omega)]
    exact step_congr fun n _ hn => h n hn

/-- What comes later in a run may go by another schedule. -/
theorem run_until (σ τ : Schedule V) (s : Session V) {before steps : List (Step V)}
    (h : before <+: steps) :
    s.run (σ.until (s.run σ steps).events.length τ) before = s.run σ before := by
  obtain ⟨after, rfl⟩ := h
  have hlength := length_events_run σ (s.run σ before) after
  rw [← run_append] at hlength
  exact run_congr_below fun n hn => (σ.joins_until _ τ).below n (by omega)

theorem step_until (σ τ : Schedule V) (s : Session V) (st : Step V) :
    s.step (σ.until s.events.length τ) st = s.step τ st :=
  step_congr fun n hn _ => (σ.joins_until _ τ).beyond n hn

end

end Session
end AtMostOnce
