import AtMostOnce.Proofs.Session.Twin
import Mathlib

/-! Purging is not seen. A run in which memories are purged shows what the run without the purges
shows, but for outcomes whose time is over: they may be held no longer and count as expired. -/
namespace AtMostOnce
variable {V : Type}

/-- The figures `u'` are `u`, but for outcomes that have expired earlier. -/
structure Usage.ExpiredEarlier (u u' : Usage) : Prop where
  hits : u'.hits = u.hits
  misses : u'.misses = u.misses
  executions : u'.executions = u.executions
  waits : u'.waits = u.waits
  rollbacks : u'.rollbacks = u.rollbacks
  evictions : u'.evictions = u.evictions
  inFlight : u'.inFlight = u.inFlight
  entries_le : u'.entries ≤ u.entries
  held_or_expired : u'.entries + u'.expirations = u.entries + u.expirations

namespace Session

/-- A step from `t` to `u` and one from `t'` to `u'` show the same, but for outcomes that have
expired earlier in the latter. -/
structure Indistinct (t u t' u' : Session V) : Prop where
  since : u'.since t' = u.since t
  unfinished : u'.unfinished = u.unfinished
  started : u'.started = u.started
  usage : u.coordinator.usage.ExpiredEarlier u'.coordinator.usage

theorem Twins.indistinct {t u t' u' : Session V} (h : Twins t.events t'.events u u') :
    Indistinct t u t' u' := by
  obtain ⟨m, sweeps, told, memo, still, logged, starts⟩ := h
  obtain ⟨gone, swept⟩ := memo.swept
  have hlength := congrArg List.length swept.written
  rw [List.length_append, memo.sound.length_written, memo.sound'.length_written] at hlength
  have hexpired : m.expirations = u.coordinator.memo.expirations + gone.length :=
    swept.expirations
  refine ⟨?_, rfl, ?_, rfl, rfl, rfl, rfl, rfl, swept.evictions_eq, ?_, ?_, ?_⟩
  · rw [since_of_append logged]
    exact since_of_append rfl
  · rw [started_eq_countP, started_eq_countP, logged, twin, List.countP_append, List.countP_append,
      starts]
  · show m.inFlight = u.coordinator.memo.inFlight
    rw [Memo.inFlight_eq_size, Memo.inFlight_eq_size, swept.claims_eq]
  · show m.size ≤ u.coordinator.memo.size
    omega
  · show m.size + m.expirations = u.coordinator.memo.size + u.coordinator.memo.expirations
    omega

/-- A run from `s` without the steps that purge and a run from `s'` with them: whatever other step
is taken shows the same in both. -/
def Unseen (σ σ' : Schedule V) (s s' : Session V) (steps : List (Step V)) : Prop :=
  ∀ before st after, steps = before ++ st :: after → st.isPurging = false →
    let t := s.run σ (before.filter fun st => !st.isPurging)
    let t' := s'.run σ' before
    Indistinct t (t.step σ st) t' (t'.step σ' st)

namespace Unseen
variable {σ σ' τ τ' : Schedule V} {s s' : Session V} {st : Step V} {steps : List (Step V)}

theorem congr (h : Unseen σ σ' s s' steps)
    (hσ : ∀ n, s.events.length ≤ n → τ.arrange n = σ.arrange n)
    (hσ' : ∀ n, s'.events.length ≤ n → τ'.arrange n = σ'.arrange n) :
    Unseen τ τ' s s' steps := by
  have same : ∀ (s : Session V) (σ τ : Schedule V),
      (∀ n, s.events.length ≤ n → τ.arrange n = σ.arrange n) → ∀ (xs : List (Step V)) (st : Step V),
      s.run τ xs = s.run σ xs ∧ (s.run τ xs).step τ st = (s.run σ xs).step σ st := by
    intro s σ τ hτ xs st
    have hrun : s.run τ (xs ++ [st]) = s.run σ (xs ++ [st]) := run_congr hτ
    rw [run, run, List.foldl_append, List.foldl_append] at hrun
    exact ⟨run_congr hτ, hrun⟩
  intro before st after hsplit hst
  obtain ⟨hrun, hstep⟩ := same s σ τ hσ (before.filter fun st => !st.isPurging) st
  obtain ⟨hrun', hstep'⟩ := same s' σ' τ' hσ' before st
  have hshown := h before st after hsplit hst
  dsimp only at hshown ⊢
  rw [hstep, hstep', hrun, hrun']
  exact hshown

theorem nil : Unseen σ σ' s s' [] := by
  intro before st after hsplit
  simp at hsplit

theorem cons_of_purging (h : Unseen σ σ' s (s'.step σ' st) steps) (hst : st.isPurging = true) :
    Unseen σ σ' s s' (st :: steps) := by
  intro before st' after hsplit hst'
  cases before with
  | nil =>
    cases hsplit
    rw [hst] at hst'
    cases hst'
  | cons first before =>
    cases hsplit
    rw [List.filter_cons_of_neg (by simp [hst])]
    exact h before st' after rfl hst'

theorem cons (first : Indistinct s (s.step σ st) s' (s'.step σ' st))
    (h : Unseen σ σ' (s.step σ st) (s'.step σ' st) steps) (hst : st.isPurging = false) :
    Unseen σ σ' s s' (st :: steps) := by
  intro before st' after hsplit hst'
  cases before with
  | nil =>
    cases hsplit
    exact first
  | cons _ before =>
    cases hsplit
    rw [List.filter_cons_of_pos (by simp [hst])]
    exact h before st' after rfl hst'

end Unseen

theorem step_of_purging (σ σ' : Schedule V) (s : Session V) {st : Step V}
    (hst : st.isPurging = true) : s.step σ' st = s.step σ st := by
  cases st <;> first | rfl | cases hst

section
variable {b b' : List (Event V)} {s s' : Session V} {st : Step V} {steps : List (Step V)}

/-- A step that does not purge shows the same if it is aligned, and the steps after it may go by
other schedules. -/
theorem Twins.unseen_cons (h : Twins b b' s s') {σ σ' τ τ' ρ ρ' : Schedule V}
    (aligned : ∀ n, σ'.arrange (s'.events.length + n) = σ.arrange (s.events.length + n))
    (hst : st.isPurging = false) (hρ : ρ.Joins (s.step σ st).events.length σ τ)
    (hρ' : ρ'.Joins (s'.step σ' st).events.length σ' τ')
    (rest : Unseen τ τ' (s.step σ st) (s'.step σ' st) steps) : Unseen ρ ρ' s s' (st :: steps) := by
  have hstep : s.step ρ st = s.step σ st := step_congr fun n _ hn => hρ.below n hn
  have hstep' : s'.step ρ' st = s'.step σ' st := step_congr fun n _ hn => hρ'.below n hn
  refine .cons ?_ ?_ hst
  · rw [hstep, hstep']
    exact (h.restart.step aligned hst).indistinct
  · rw [hstep, hstep']
    exact rest.congr hρ.beyond hρ'.beyond

/-- Whatever the schedule of the run without the purges, there is one for the run with them. -/
theorem Twins.unseen (h : Twins b b' s s') (σ : Schedule V) (steps : List (Step V)) :
    ∃ f, Unseen σ (σ.relabel f) s s' steps := by
  induction steps generalizing b b' s s' with
  | nil => exact ⟨id, .nil⟩
  | cons st steps ih =>
    cases hst : st.isPurging with
    | true =>
      obtain ⟨f, hf⟩ := ih (h.purge σ hst)
      rw [← step_of_purging σ (σ.relabel f) s' hst] at hf
      exact ⟨f, hf.cons_of_purging hst⟩
    | false =>
      -- The counts of this step are shifted, and those of the later ones are as they have to be.
      let shift (n : Nat) : Nat := n - s'.events.length + s.events.length
      have aligned : ∀ n, (σ.relabel shift).arrange (s'.events.length + n) =
          σ.arrange (s.events.length + n) := by
        intro n
        refine congrArg σ.arrange ?_
        dsimp only [shift]
        omega
      obtain ⟨f, hf⟩ := ih (h.restart.step aligned hst)
      exact ⟨_, h.unseen_cons aligned hst (σ.joins_self _) (σ.joins_splice _ shift f) hf⟩

/-- Whatever the schedule of the run with the purges, there is one for the run without them. -/
theorem Twins.unseen_of_purged (h : Twins b b' s s') (σ : Schedule V) (steps : List (Step V)) :
    ∃ f, Unseen (σ.relabel f) σ s s' steps := by
  induction steps generalizing b b' s s' with
  | nil => exact ⟨id, .nil⟩
  | cons st steps ih =>
    cases hst : st.isPurging with
    | true =>
      obtain ⟨f, hf⟩ := ih (h.purge σ hst)
      exact ⟨f, hf.cons_of_purging hst⟩
    | false =>
      let shift (n : Nat) : Nat := n - s.events.length + s'.events.length
      have aligned : ∀ n, σ.arrange (s'.events.length + n) =
          (σ.relabel shift).arrange (s.events.length + n) := by
        intro n
        refine congrArg σ.arrange ?_
        dsimp only [shift]
        omega
      obtain ⟨f, hf⟩ := ih (h.restart.step aligned hst)
      exact ⟨_, h.unseen_cons aligned hst (σ.joins_splice _ shift f) (σ.joins_self _) hf⟩

end

theorem twins_new (maxSize ttl : Nat) :
    Twins [] [] ({ coordinator := .new maxSize ttl } : Session V)
      { coordinator := .new maxSize ttl } :=
  .intro _ [] [] (Memo.swept_refl 0 (Memo.sound_new maxSize ttl) (Ledger.sound_new maxSize ttl))
    rfl rfl rfl

/-- Purging is not seen. Into a run without purges and sweeps, steps that purge or that start or
stop sweeps may be put anywhere. Every other step is told of the same events, the same callers are
left unanswered, the same number of handlers has been started, and the figures are the same, but
that outcomes may have expired earlier. This holds if released callers claim in the order in which
they came, and also if they claim in any order, as long as it is the same in both runs; a schedule
has to name it by other counts in the one than in the other, since purges are counted too. -/
theorem purging_unseen (maxSize ttl : Nat) (steps : List (Step V)) :
    let s : Session V := { coordinator := .new maxSize ttl }
    Unseen .arrival .arrival s s steps ∧ ∀ σ : Schedule V,
      (∃ f, Unseen σ (σ.relabel f) s s steps) ∧ ∃ f, Unseen (σ.relabel f) σ s s steps := by
  intro s
  have twins : Twins [] [] s s := twins_new maxSize ttl
  constructor
  · obtain ⟨f, hf⟩ := twins.unseen .arrival steps
    exact hf
  · exact fun σ => ⟨twins.unseen σ steps, twins.unseen_of_purged σ steps⟩

/-- An outcome whose time is over is purged, and its id is called again. -/
theorem purging_of_expired_unseen :
    let call (name : String) : Call Nat := ⟨name, ⟨"id"⟩, .wide, { ending := .value 8 }⟩
    let s : Session Nat := { coordinator := .new 1 10 }
    let t := s.run .arrival [.call (call "first"), .advance 10]
    let t' := s.run .arrival [.call (call "first"), .advance 10, .purge]
    t.coordinator.usage.entries = 1 ∧ t'.coordinator.usage.entries = 0 ∧
      Indistinct t (t.step .arrival (.call (call "second")))
        t' (t'.step .arrival (.call (call "second"))) := by
  intro call s t t'
  have unseen := (purging_unseen 1 10
    [.call (call "first"), .advance 10, .purge, .call (call "second")]).1
  refine ⟨?_, ?_, ?_⟩
  · simp only [t, s, call]
    cbv
  · simp only [t', s, call]
    cbv
  · exact unseen [.call (call "first"), .advance 10, .purge] (.call (call "second")) [] rfl rfl

end Session
end AtMostOnce
