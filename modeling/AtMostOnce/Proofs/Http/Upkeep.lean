import AtMostOnce.Proofs.Http.Mirror
import AtMostOnce.Proofs.Session.Upkeep

/-! Upkeep behind endpoints. The sweeps of a server look after both of its coordinators, each as
those of a session look after its own. -/
namespace AtMostOnce
namespace Http

/-- The coordinator of an endpoint, and the sweeps that look after it. -/
def Server.scene (s : Server) (e : Endpoint) : Scene File :=
  ⟨s.clock.now, s.sweeps, (s.coordinator e).toCoordinator⟩

theorem Mirrors.scene {s : Server} {e : Endpoint} {t : Session File} (h : Mirrors s e t) :
    t.scene = s.scene e := by
  unfold Session.scene Server.scene
  rw [h.now, h.sweeps, h.coordinator]

namespace Server
variable {s : Server} {e : Endpoint}

theorem echo_eq_advance {st : Step} {d : Nat} (h : s.echo e st = .advance d) : st = .advance d := by
  cases st with
  | request r =>
    cases ho : s.order? e r <;> simp [echo, ho] at h
  | advance d' =>
    cases h
    rfl
  | purge => cases h
  | startSweep timer interval => cases h

theorem advance_of_mem_echoes {steps : List Step} {d : Nat} (h : .advance d ∈ s.echoes e steps) :
    .advance d ∈ steps := by
  induction steps generalizing s with
  | nil => cases h
  | cons st rest ih =>
    rcases List.mem_cons.mp h with h | h
    · rw [echo_eq_advance h.symm]
      exact List.mem_cons_self
    · exact List.mem_cons_of_mem _ (ih h)

/-- Nothing in a conversation stops the sweeps. -/
theorem stopSweeps_not_mem_echoes (s : Server) (e : Endpoint) (steps : List Step) :
    .stopSweeps ∉ s.echoes e steps := by
  induction steps generalizing s with
  | nil => exact List.not_mem_nil
  | cons st rest ih =>
    refine List.not_mem_cons_of_ne_of_not_mem ?_ (ih _)
    cases st with
    | request r => cases ho : s.order? e r <;> simp [echo, ho]
    | _ => simp [echo]

end Server
end Http

/-- A sweep that has been started and not stopped is always waiting. Once it has been there for an
interval, no outcome is held that has been over for an interval; no sweep drops one that is not
over; and however far the clock jumps, the sweep purges once at most, tells of what it has dropped
and then waits anew from the end of the jump on. It looks after the coordinator of a session, or
after both of a server's. -/
theorem outcomes_dropped_in_time (timer : Timer) {interval : Nat} (positive : 0 < interval)
    (whole : millisecond ∣ interval) :
    (∀ (V : Type) (σ : Schedule V) (maxSize ttl : Nat) (before after : List (Step V)),
      (∀ d, .advance d ∈ before ++ after → millisecond ∣ d) → .stopSweeps ∉ after →
      let s := Session.run σ { coordinator := .new maxSize ttl } before
      let t := s.run σ (.startSweep timer interval :: after)
      t.scene.Tended interval s.sweeps.length ttl s.now ∧
        (∀ st, Scene.Spared ttl (t.act σ st).scene (t.step σ st).scene) ∧
        ∀ d, millisecond ∣ d → Scene.Jump timer interval s.sweeps.length d t.scene
          (t.step σ (.advance d)).scene (t.swept σ (.advance d))) ∧
    ∀ (bounds : Bounds) (access : Access) (journal : Journal) (origin : Nat)
      (before after : List Http.Step) (e : Http.Endpoint),
      (∀ d, .advance d ∈ before ++ after → millisecond ∣ d) →
      let s := ((Http.Server.new bounds access journal origin).run before).2
      let t := (s.run (.startSweep timer interval :: after)).2
      (t.scene e).Tended interval s.sweeps.length bounds.ttl s.clock.now ∧
        (∀ st, Scene.Spared bounds.ttl ((t.act st).2.scene e) ((t.step st).2.scene e)) ∧
        ∀ d, millisecond ∣ d → Scene.Jump timer interval s.sweeps.length d (t.scene e)
          ((t.step (.advance d)).2.scene e)
          ((t.swept (.advance d)).map (Prod.map id e.figure)) := by
  constructor
  · intro V σ maxSize ttl before after jumps running
    exact Session.tended_run σ maxSize ttl timer positive whole before after jumps running
  · intro bounds access journal origin before after e jumps s t
    let s₀ := Http.Server.new bounds access journal origin
    obtain ⟨hs, -⟩ := (Http.Mirrors.new bounds access journal origin e).run .arrival before
    obtain ⟨ht, -⟩ := hs.run .arrival (.startSweep timer interval :: after)
    let s₁ := (s.step (.startSweep timer interval)).2
    have jumps' : ∀ d, .advance d ∈ s₀.echoes e before ++ s₁.echoes e after → millisecond ∣ d := by
      intro d hd
      refine jumps d (List.mem_append.mpr ?_)
      exact (List.mem_append.mp hd).imp Http.Server.advance_of_mem_echoes
        Http.Server.advance_of_mem_echoes
    obtain ⟨tended, spared, jump⟩ := Session.tended_run .arrival bounds.maxSize bounds.ttl timer
      positive whole (s₀.echoes e before) (s₁.echoes e after) jumps'
      (Http.Server.stopSweeps_not_mem_echoes s₁ e after)
    refine ⟨?_, fun st => ?_, fun d hd => ?_⟩
    · rw [← ht.scene, ← hs.now, ← hs.sweeps]
      exact tended
    · obtain ⟨hact, -⟩ := ht.act .arrival st
      rw [← hact.scene]
      exact hact.sweep.scene ▸ spared (t.echo e st)
    · obtain ⟨hact, -⟩ := ht.act .arrival (.advance d)
      obtain ⟨told, swept⟩ := hact.sweepDue
      have jumped := jump d hd
      rw [← ht.scene, ← hs.sweeps, Http.Server.swept, ← told]
      exact swept.scene ▸ jumped

/-- An outcome that is over is dropped before the next sweep is due, and one that is not is held. -/
theorem outcomes_dropped_in_time_of_two_calls :
    let timer := Timer.ofLongestWait second (by decide) (by decide)
    let interval := 4 * millisecond
    let ttl := 10 * millisecond
    let call (name : String) : Call Nat := ⟨name, ⟨name⟩, .wide, { ending := .value 8 }⟩
    let after : List (Step Nat) := [.call (call "first"), .advance (7 * millisecond),
      .call (call "second"), .advance (5 * millisecond)]
    let t := Session.run .arrival { coordinator := .new 5 ttl }
      (.startSweep timer interval :: after)
    let bounds : Bounds := ⟨5, 10, by decide, by decide⟩
    let server := Http.Server.new bounds .everyone .absent 0
    let u := (server.run [.startSweep timer interval, .advance (7 * millisecond)]).2
    t.coordinator.usage.expirations = 1 ∧ t.coordinator.usage.entries = 1 ∧
      t.scene.coordinator.Younger t.scene.now (ttl + interval) ∧
      ∀ e, (u.scene e).coordinator.Younger (u.scene e).now (bounds.ttl + interval) := by
  intro timer interval ttl call after t bounds server u
  have positive : 0 < interval := by decide
  have whole : millisecond ∣ interval := by decide
  obtain ⟨sessions, servers⟩ := outcomes_dropped_in_time timer positive whole
  refine ⟨by decide +kernel, by decide +kernel, ?_, fun e => ?_⟩
  · have jumps : ∀ d, Step.advance d ∈ [] ++ after → millisecond ∣ d := by
      intro d hd
      simp [after] at hd
      rcases hd with rfl | rfl <;> decide
    have tended := (sessions Nat .arrival 5 ttl [] after jumps (by simp [after])).1
    exact tended.younger (by decide +kernel)
  · have jumps : ∀ d, Http.Step.advance d ∈ [] ++ [.advance (7 * millisecond)] →
        millisecond ∣ d := by
      intro d hd
      simp at hd
      rw [hd]
      decide
    have tended := (servers bounds .everyone .absent 0 [] [.advance (7 * millisecond)] e jumps).1
    exact tended.younger (by cases e <;> decide +kernel)

/-- A sweep does not wait for all of an interval that is longer than its timer can wait, say longer
than thirty years. It wakes up after a jump of the clock, and again a millisecond before the next
interval is over. -/
theorem woken_within_interval :
    let timer := Timer.ofLongestWait (30 * 365 * 24 * 60 * 60 * second) (by decide) (by decide)
    let interval := timer.longestWait + millisecond
    let call : Call Nat := ⟨"call", ⟨"id"⟩, .wide, { ending := .value 8 }⟩
    let s : Session Nat := Session.run .arrival { coordinator := .new 5 (10 * millisecond) }
      [.startSweep timer interval]
    let t := s.step .arrival (.advance interval)
    let u := t.run .arrival [.call call, .advance (interval - millisecond)]
    s.sweeps = [.start timer interval 0] ∧ (Sweep.start timer interval 0).isDue t.now = true ∧
      t.sweeps = [.start timer interval t.now] ∧
      (¬ ∀ later, (Sweep.start timer interval t.now).isDue later = true ↔
        t.now + interval ≤ later) ∧
      u.now < t.now + interval ∧ u.coordinator.usage.expirations = 1 := by
  intro timer interval call s t u
  have due : (Sweep.start timer interval 0).isDue t.now = true := by decide +kernel
  have armed : s.sweeps = [.start timer interval 0] := congrArg (fun w => [w])
    (Sweep.advance_of_not_due (Sweep.isDue_start_self timer 0 (by decide)))
  have rearmed : t.sweeps = [.start timer interval t.now] := by
    rw [Session.sweeps_step_advance, armed, List.map_singleton, Sweep.advance_start_of_due due]
  refine ⟨armed, due, rearmed, fun full => ?_, by decide +kernel, by decide +kernel⟩
  have woken : (Sweep.start timer interval t.now).isDue u.now = true := by decide +kernel
  have early : ¬ t.now + interval ≤ u.now := by decide +kernel
  exact early ((full u.now).mp woken)

end AtMostOnce
