import AtMostOnce.Sweep
import Mathlib.Data.List.Basic

/-! Sweeps that are due. Each of them purges once and tells of it, and is then not due any more. -/
namespace AtMostOnce.Sweep

section
variable {w : Sweep} {timer : Timer} {interval : Nat} {now : Instant}

theorem advance_of_due (h : w.isDue now = true) : w.advance now = start w.timer w.interval now := by
  rw [advance, if_pos h]

theorem advance_start_of_due {armed : Instant}
    (h : (start timer interval armed).isDue now = true) :
    (start timer interval armed).advance now = start timer interval now := advance_of_due h

theorem advance_of_not_due (h : w.isDue now = false) : w.advance now = w := by
  rw [advance, h, if_neg Bool.false_ne_true]

/-- Whatever is due once it has been armed anew was due before. -/
theorem isDue_of_isDue_advance (h : (w.advance now).isDue now = true) : w.isDue now = true := by
  cases hw : w.isDue now with
  | true => rfl
  | false =>
    rw [advance_of_not_due hw, hw] at h
    exact h

theorem advance_advance (w : Sweep) (now : Instant) :
    (w.advance now).advance now = w.advance now := by
  cases hw : w.isDue now with
  | false => rw [advance_of_not_due hw, advance_of_not_due hw]
  | true =>
    rw [advance_of_due hw, advance]
    split <;> rfl

/-- Only a sweep without an interval can be due at the instant at which it is armed. -/
theorem isDue_start_self (timer : Timer) (now : Instant) (positive : 0 < interval) :
    (start timer interval now).isDue now = false :=
  decide_eq_false (Nat.not_le.mpr (timer.lt_wake interval now positive))

/-- On whole milliseconds a sweep is due as soon as its wait is over. -/
theorem isDue_start_of_whole (timer : Timer) {armed : Instant} (hi : millisecond ∣ interval)
    (ha : millisecond ∣ armed) (now : Instant) :
    (start timer interval armed).isDue now = true ↔
      armed + min interval timer.longestWait ≤ now := by
  rw [isDue, decide_eq_true_iff, start, timer.wake_of_whole interval armed hi ha]

end

section
variable {S T C D : Type} {purge : S → C × S} {now : Instant} {n : Nat} {w : Sweep}
  {ws : List Sweep} {s : S}

theorem purgeDue_cons_of_due (h : w.isDue now = true) : purgeDue purge now n (w :: ws) s =
    ((n, (purge s).1) :: (purgeDue purge now (n + 1) ws (purge s).2).1,
      (purgeDue purge now (n + 1) ws (purge s).2).2) := by
  rw [purgeDue, if_pos h]

theorem purgeDue_cons_of_not_due (h : w.isDue now = false) :
    purgeDue purge now n (w :: ws) s = purgeDue purge now (n + 1) ws s := by
  rw [purgeDue, h, if_neg Bool.false_ne_true]

/-- What a purge keeps, all sweeps keep. -/
theorem purgeDue_invariant {P : S → Prop} (keep : ∀ s, P s → P (purge s).2) (h : P s) :
    P (purgeDue purge now n ws s).2 := by
  induction ws generalizing n s with
  | nil => exact h
  | cons w ws ih =>
    cases hw : w.isDue now with
    | false =>
      rw [purgeDue_cons_of_not_due hw]
      exact ih h
    | true =>
      rw [purgeDue_cons_of_due hw]
      exact ih (keep s h)

/-- Where purges correspond, the sweeps do, and tell of the same. -/
theorem purgeDue_simulation (now : Instant) (n : Nat) (ws : List Sweep) {purge' : T → D × T}
    {R : S → T → Prop} {f : C → D} {t : T}
    (purges : ∀ s t, R s t → (purge' t).1 = f (purge s).1 ∧ R (purge s).2 (purge' t).2)
    (h : R s t) :
    (purgeDue purge' now n ws t).1 = (purgeDue purge now n ws s).1.map (Prod.map id f) ∧
      R (purgeDue purge now n ws s).2 (purgeDue purge' now n ws t).2 := by
  induction ws generalizing n s t with
  | nil => exact ⟨rfl, h⟩
  | cons w ws ih =>
    cases hw : w.isDue now with
    | false =>
      rw [purgeDue_cons_of_not_due hw, purgeDue_cons_of_not_due hw]
      exact ih (n + 1) h
    | true =>
      obtain ⟨count, after⟩ := purges s t h
      obtain ⟨told, later⟩ := ih (n + 1) after
      rw [purgeDue_cons_of_due hw, purgeDue_cons_of_due hw]
      exact ⟨by rw [told, count, List.map_cons, Prod.map_apply, id], later⟩

theorem le_of_mem_purgeDue {p : Nat × C} (h : p ∈ (purgeDue purge now n ws s).1) : n ≤ p.1 := by
  induction ws generalizing n s with
  | nil => cases h
  | cons w ws ih =>
    cases hw : w.isDue now with
    | false =>
      rw [purgeDue_cons_of_not_due hw] at h
      exact Nat.le_of_succ_le (ih h)
    | true =>
      rw [purgeDue_cons_of_due hw] at h
      rcases List.mem_cons.mp h with rfl | h
      · exact Nat.le_refl _
      · exact Nat.le_of_succ_le (ih h)

/-- A sweep purges once if it is due, and else not at all. -/
theorem countP_purgeDue (purge : S → C × S) (now : Instant) (n : Nat) (s : S) {i : Nat}
    (h : ws[i]? = some w) :
    (purgeDue purge now n ws s).1.countP (fun p => p.1 = n + i) =
      if w.isDue now then 1 else 0 := by
  induction ws generalizing n i s with
  | nil => cases h
  | cons v ws ih =>
    cases i with
    | zero =>
      obtain rfl : v = w := Option.some.inj h
      have others : ∀ s, (purgeDue purge now (n + 1) ws s).1.countP (fun p => p.1 = n + 0) = 0 := by
        intro s
        refine List.countP_eq_zero.mpr fun p hp heq => ?_
        have hle := le_of_mem_purgeDue hp
        have heq := of_decide_eq_true heq
        omega
      cases hv : v.isDue now with
      | false =>
        rw [purgeDue_cons_of_not_due hv, others]
        rfl
      | true =>
        rw [purgeDue_cons_of_due hv, List.countP_cons, others]
        simp
    | succ i =>
      have hplace : n + (i + 1) = n + 1 + i := by omega
      cases hv : v.isDue now with
      | false =>
        rw [purgeDue_cons_of_not_due hv, hplace]
        exact ih (n + 1) s h
      | true =>
        have hne : n ≠ n + 1 + i := by omega
        rw [purgeDue_cons_of_due hv, hplace, List.countP_cons, ih (n + 1) _ h]
        simp [hne]

end

end AtMostOnce.Sweep
