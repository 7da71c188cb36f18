import AtMostOnce.Proofs.Memo.Expiry
import AtMostOnce.Proofs.Session.Account
import Mathlib.Algebra.GroupWithZero.Nat

/-! Sweeping twice. After every step a session is swept, and a second sweep at the same instant
finds nothing left to do. -/
namespace AtMostOnce
variable {V : Type}

namespace Coordinator
variable {k : Coordinator V} {now : Instant}

theorem purge_purge (h : k.memo.Sound) : ((k.purge now).2.purge now).2 = (k.purge now).2 := by
  show ({ k with memo := ((k.memo.purge now).2.purge now).2 } : Coordinator V) = _
  rw [h.purge_purge now]
  rfl

variable {n : Nat} {ws : List Sweep}

theorem purgeDue_of_still (h : (k.purge now).2 = k) :
    (Sweep.purgeDue (fun k => k.purge now) now n ws k).2 = k := by
  refine Sweep.purgeDue_invariant (P := fun k' => k' = k) ?_ rfl
  rintro k' rfl
  exact h

/-- However many sweeps are due at one instant, the first of them does all the work. -/
theorem purgeDue_eq (h : k.memo.Sound) : (Sweep.purgeDue (fun k => k.purge now) now n ws k).2 =
    if ws.any fun w => w.isDue now then (k.purge now).2 else k := by
  induction ws generalizing n with
  | nil => rfl
  | cons w ws ih =>
    cases hw : w.isDue now with
    | false => rw [Sweep.purgeDue_cons_of_not_due hw, ih, List.any_cons, hw, Bool.false_or]
    | true =>
      rw [Sweep.purgeDue_cons_of_due hw, List.any_cons, hw, Bool.true_or, if_pos rfl]
      exact purgeDue_of_still (purge_purge h)

/-- What the sweeps tell of is what is gone. -/
theorem sum_purgeDue (h : k.memo.Sound) :
    ((Sweep.purgeDue (fun k => k.purge now) now n ws k).1.map Prod.snd).sum +
      (Sweep.purgeDue (fun k => k.purge now) now n ws k).2.memo.size = k.memo.size := by
  induction ws generalizing n k with
  | nil => exact Nat.zero_add _
  | cons w ws ih =>
    cases hw : w.isDue now with
    | false =>
      rw [Sweep.purgeDue_cons_of_not_due hw]
      exact ih h
    | true =>
      have first : (k.purge now).1 + (k.purge now).2.memo.size = k.memo.size := h.size_purge now
      rw [Sweep.purgeDue_cons_of_due hw, List.map_cons, List.sum_cons, Nat.add_assoc,
        ih (h.purge now).1]
      exact first

end Coordinator

namespace Session

/-- All the sweeps that are due purge once among them. -/
theorem coordinator_sweep {s : Session V} (h : s.coordinator.memo.Sound) :
    s.sweep.coordinator = if s.sweeps.any fun w => w.isDue s.now then
      (s.coordinator.purge s.now).2 else s.coordinator :=
  Coordinator.purgeDue_eq h

theorem sweeps_step_advance (σ : Schedule V) (s : Session V) (d : Nat) :
    (s.step σ (.advance d)).sweeps =
      s.sweeps.map fun w => w.advance (s.step σ (.advance d)).now := rfl

theorem getElem?_sweep {s : Session V} {n : Nat} {w : Sweep} (h : s.sweeps[n]? = some w) :
    s.sweep.sweeps[n]? = some (w.advance s.now) := by
  show (s.sweeps.map fun w => w.advance s.now)[n]? = _
  rw [List.getElem?_map, h]
  rfl

theorem sweep_sweep {s : Session V} (h : s.coordinator.memo.Sound) : s.sweep.sweep = s.sweep := by
  have armed : (s.sweeps.map fun w => w.advance s.now).map (fun w => w.advance s.now) =
      s.sweeps.map fun w => w.advance s.now := by
    rw [List.map_map]
    exact List.map_congr_left fun w _ => w.advance_advance s.now
  have purged : s.sweep.sweep.coordinator = s.sweep.coordinator := by
    rw [coordinator_sweep (Activity.sound_sweep h).1]
    split
    · -- Whatever is due now was due before, so that there has been a purge already.
      rename_i hany
      obtain ⟨w', hw', hdue⟩ := List.any_eq_true.mp hany
      obtain ⟨w, hw, rfl⟩ := List.mem_map.mp hw'
      have before : (s.sweeps.any fun w => w.isDue s.now) = true :=
        List.any_eq_true.mpr ⟨w, hw, Sweep.isDue_of_isDue_advance hdue⟩
      rw [coordinator_sweep h, if_pos before]
      exact Coordinator.purge_purge h
    · rfl
  show ({ s.sweep with
    coordinator := s.sweep.sweep.coordinator
    sweeps := (s.sweeps.map fun w => w.advance s.now).map fun w => w.advance s.now } :
      Session V) = s.sweep
  rw [armed, purged]
  rfl

/-- What a run leaves has been swept. -/
theorem sweep_run (σ : Schedule V) (maxSize ttl : Nat) (steps : List (Step V)) :
    let s := Session.run σ { coordinator := .new maxSize ttl } steps
    s.sweep = s := by
  intro s
  induction steps using List.reverseRecOn with
  | nil => rfl
  | append_singleton steps st =>
    let t : Session V := Session.run σ { coordinator := .new maxSize ttl } steps
    have reached : Activity.Reachable maxSize ttl { session := t.act σ st } :=
      (Activity.reachable_run σ maxSize ttl steps).trans (Activity.moves_act σ t st)
    obtain ⟨kept, -⟩ := reached.accounted
    have hs : s = (t.act σ st).sweep := by
      simp only [s, run, List.foldl_append, List.foldl_cons, List.foldl_nil]
      rfl
    rw [hs]
    exact sweep_sweep kept.memo

end Session
end AtMostOnce
