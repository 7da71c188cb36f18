import AtMostOnce.Proofs.Session.Departure
import AtMostOnce.Proofs.Session.Progress
import AtMostOnce.Proofs.Session.Sweep
import AtMostOnce.Proofs.Session.Tally

/-! Departures are not noticed. After callers have gone away, everything goes on as it would have
gone on with them, but that they are not answered. -/
namespace AtMostOnce
variable {V : Type}

namespace Activity
open History
variable {a b : Activity V}

/-- Executions that somebody waits on and that are committed later are reliable. -/
theorem Reachable.reliable {maxSize ttl : Nat} (h : Reachable maxSize ttl a)
    (hm : Relation.ReflTransGen Move a b) {P : Nat → Prop}
    (waiting : ∀ n, P n → ∃ c, ⟨c, n⟩ ∈ a.session.waiters)
    (committed : ∀ n, P n → ∃ now id o, .committed now id n o ∈ b.log) : a.Reliable P := by
  obtain ⟨kept, accounted⟩ := h.accounted
  obtain ⟨-, later⟩ := Reachable.accounted (h.trans hm)
  refine ⟨kept, fun n hn => ?_, fun k hk hP => ?_⟩
  · obtain ⟨c, hw⟩ := waiting n hn
    obtain ⟨-, k, hk, -, rfl⟩ := h.attended.waiting _ hw
    obtain ⟨-, hs, -⟩ := accounted.begun k hk
    exact accounted.issued _ _ hs
  · obtain ⟨-, hs, -⟩ := accounted.begun k hk
    obtain ⟨now, id, o, hmem⟩ := committed k.2 hP
    obtain ⟨c, hs', -, ho⟩ := later.committed now id k.2 o (List.mem_filter.mpr ⟨hmem, rfl⟩)
    have hs : Started k.1 k.2 b.milestones := (started_filter _ _ _).mpr
      (((started_filter _ _ _).mp hs).mono (kept.suffix hm).subset)
    rw [later.unique _ _ _ hs hs']
    exact ⟨o, ho⟩

end Activity

namespace Session
open Activity

section
variable {name : String} {P : Nat → Prop}

theorem left_leave (name : String) (es : List (Execution V)) :
    Edited (Left name) ((es.flatMap Execution.caller).filter fun c => c.name = name) es
      (es.map (Execution.leave name)) := by
  induction es with
  | nil => exact .nil
  | cons e es ih =>
    obtain ⟨c, n, attended⟩ := e
    by_cases named : c.name = name
    · cases attended with
      | true =>
        have hleft : Left name ⟨c, n, true⟩ {c} (some ⟨c, n, false⟩) := .intro c n named
        have hedited := Edited.edit hleft ih
        simpa [Execution.leave, Execution.caller, named] using hedited
      | false =>
        have hkept := Edited.keep ⟨c, n, false⟩ ih
        simpa [Execution.leave, Execution.caller, named] using hkept
    · have hkept := Edited.keep ⟨c, n, attended⟩ ih
      cases attended <;> simpa [Execution.leave, Execution.caller, named] using hkept

theorem quit_filter {ws : List (Waiter V)} (h : ∀ w ∈ ws, w.call.name = name → P w.number) :
    Edited (Quit name P) ((ws.map Waiter.call).filter fun c => c.name = name) ws
      (ws.filter fun w => w.call.name ≠ name) := by
  induction ws with
  | nil => exact .nil
  | cons w ws ih =>
    obtain ⟨c, n⟩ := w
    have hrest := ih fun w hw => h w (List.mem_cons_of_mem _ hw)
    by_cases named : c.name = name
    · have hquit : Quit name P ⟨c, n⟩ {c} none := .intro c n named (h _ List.mem_cons_self named)
      have hedited := Edited.edit hquit hrest
      simpa [named] using hedited
    · have hkept := Edited.keep ⟨c, n⟩ hrest
      simpa [named] using hkept

end

/-- A session and what it is once all callers of some name have gone away. -/
theorem departed_drop (σ : Schedule V) {s : Session V} {name : String} {P : Nat → Prop}
    (swept : s.sweep = s) (reliable : Reliable P { session := s })
    (waiting : ∀ w ∈ s.waiters, w.call.name = name → P w.number) :
    Departed name P (s.unfinished.filter fun c => c.name = name) s.events
      (s.step σ (.drop name)).events s [] (s.step σ (.drop name)) [] := by
  have hstep : s.step σ (.drop name) = s.drop name := by
    show ({ s.drop name with coordinator := s.sweep.coordinator, sweeps := s.sweep.sweeps } :
      Session V) = s.drop name
    rw [swept]
    rfl
  rw [hstep]
  refine .of_eq reliable ?_ (left_leave name s.parked) .nil (quit_filter waiting)
    (List.nil_append _).symm .nil rfl
  rw [add_zero, add_zero, unfinished, List.filter_append]
  rfl

/-- The same has happened from `s` to `t` as from `s'` to `t'`, and the same callers are left in `t`
and in `t'`, but that those who are `gone` have been told or are left in the former only. -/
structure Missing (name : String) (gone : Multiset (Call V)) (s t s' t' : Session V) : Prop where
  coordinator : t'.coordinator = t.coordinator
  started : t'.started = t.started
  shown : ∃ told left, told + left = gone ∧ Edited (Untold name) told (t.since s) (t'.since s') ∧
    Edited (Gone name) left t.unfinished t'.unfinished

theorem Departed.missing {name : String} {P : Nat → Prop} {gone : Multiset (Call V)}
    {s t s' t' : Session V} (h : Departed name P gone s.events s'.events t [] t' [])
    (starts : s'.started = s.started) : Missing name gone s t s' t' := by
  obtain @⟨parked, _, ws, told, told', i, j, k, l, reliable, whole, parting, leaving, quitting,
    logged, telling⟩ := h
  let t' : Session V := { t with parked := parked, waiters := ws, events := told' ++ s'.events }
  have hunfinished : Edited (Gone name) (i + k) t.unfinished t'.unfinished :=
    (edited_caller parting).append (edited_waiting quitting)
  have hwhole : l + (i + k) = gone := by
    rw [← whole, leaving.eq_zero_of_nil, add_zero]
    exact add_comm l (i + k)
  have htold : Edited (Untold name) l (t.since s) (t'.since s') := by
    have hlogged : t'.events = told' ++ s'.events := rfl
    rw [since_of_append logged, since_of_append hlogged]
    exact telling.reverse
  have hstarted : t'.started = t.started := by
    have hsame : told'.filter Event.isStart = told.filter Event.isStart := by
      refine telling.filter_eq fun ev m o huntold => ?_
      cases huntold with
      | finished c answer named => simp [Event.isStart]
      | dropped cs left waiting => simp [Event.isStart]
    have hcount : told'.countP Event.isStart = told.countP Event.isStart := by
      rw [List.countP_eq_length_filter, hsame, List.countP_eq_length_filter]
    rw [started_eq_countP, started_eq_countP] at starts ⊢
    rw [logged, List.countP_append, List.countP_append, hcount, starts]
  exact ⟨rfl, hstarted, l, i + k, hwhole, htold, hunfinished⟩

/-- A run from `s` and one from `s'`, where callers of some name are gone: after every step, nothing
else is missing in the latter. -/
def Unnoticed (name : String) (gone : Multiset (Call V)) (σ σ' : Schedule V) (s s' : Session V)
    (steps : List (Step V)) : Prop :=
  ∀ before after, steps = before ++ after →
    Missing name gone s (s.run σ before) s' (s'.run σ' before)

/-- Nobody notices that others go away. At any point of a run the callers of some name may do so, if
those of them who wait do so on executions that are committed later; those who have started their
handlers need nothing. Whatever steps follow, the coordinator is then in the same state after each
of them as if nobody had gone away, the same handlers have been started, the same events are told of
in the same order, and the same callers are left unanswered, but that each of those who are gone is
neither answered nor left, nor found to be there when callers of the name go away again. Released
callers claim as in the order in which they came or in any other order, as long as it is the same in
both runs; a schedule has to name it by other counts in the one than in the other. -/
theorem departure_unnoticed (σ τ : Schedule V) (maxSize ttl : Nat) (past steps : List (Step V))
    (name : String) {s : Session V} (hs : s = run σ { coordinator := .new maxSize ttl } past)
    (committed : ∀ w ∈ s.waiters, w.call.name = name →
      ∃ now id o, .committed now id w.number o ∈ (s.run τ steps).events) :
    let s' := s.step σ (.drop name)
    let gone : Multiset (Call V) := s.unfinished.filter fun c => c.name = name
    Unnoticed name gone .arrival .arrival s s' steps ∧ ∀ ρ : Schedule V,
      (∃ f, Unnoticed name gone ρ (ρ.relabel f) s s' steps) ∧
        ∃ f, Unnoticed name gone (ρ.relabel f) ρ s s' steps := by
  intro s' gone
  let P (n : Nat) : Prop := ∃ w ∈ s.waiters, w.call.name = name ∧ w.number = n
  have reached : Reachable maxSize ttl { session := s } := hs ▸ reachable_run σ maxSize ttl past
  have swept : s.sweep = s := hs ▸ sweep_run σ maxSize ttl past
  have reliable : Reliable P { session := s } := by
    refine reached.reliable (moves_run τ s steps) ?_ ?_
    · rintro n ⟨w, hw, -, rfl⟩
      exact ⟨w.call, hw⟩
    · rintro n ⟨w, hw, named, rfl⟩
      exact committed w hw named
  have departed : Departed name P gone s.events s'.events s [] s' [] :=
    departed_drop σ swept reliable fun w hw named => ⟨w, hw, named, rfl⟩
  have starts : s'.started = s.started := by
    rw [started_eq_countP, started_eq_countP]
    rfl
  have lockstep := Departed.lockstep name P gone s.events s'.events
  have onward : ∀ ρ : Schedule V, ∃ f, Unnoticed name gone ρ (ρ.relabel f) s s' steps := by
    intro ρ
    obtain ⟨f, hf⟩ := lockstep.run departed ρ steps
    exact ⟨f, fun before after hsplit => (hf before after hsplit).missing starts⟩
  refine ⟨?_, fun ρ => ⟨onward ρ, ?_⟩⟩
  · obtain ⟨f, hf⟩ := onward .arrival
    exact hf
  · obtain ⟨f, hf⟩ := lockstep.flip.run departed ρ steps
    exact ⟨f, fun before after hsplit => (hf before after hsplit).missing starts⟩

/-- The caller of a handler goes away, or the caller that waits on it. -/
theorem departure_unnoticed_of_executor_and_waiter :
    let call (name : String) : Call Nat :=
      ⟨name, ⟨"id"⟩, .wide, { gate := some "gate", ending := .value 8 }⟩
    let s : Session Nat := run .arrival { coordinator := .new 1 10 }
      [.call (call "first"), .call (call "second")]
    let steps : List (Step Nat) := [.openGate "gate"]
    (∃ n, s.waiters = [⟨call "second", n⟩]) ∧ ∀ name ∈ ["first", "second"],
      Missing name {call name} s (s.run .arrival steps) (s.step .arrival (.drop name))
        ((s.step .arrival (.drop name)).run .arrival steps) := by
  intro call s steps
  have hwaiters : s.waiters = [⟨call "second", 0⟩] := by
    simp only [s, call]
    cbv
  have hunfinished : s.unfinished = [call "first", call "second"] := by
    simp only [s, call]
    cbv
  have hevents : (s.run .arrival steps).events =
      [.finished (call "second") (.ok 8), .finished (call "first") (.ok 8),
        .committed 0 ⟨"id"⟩ 0 (.success 8), .claimed 0 (call "second") (.wait 0),
        .claimed 0 (call "first") (.execute 0)] := by
    simp only [s, steps, call]
    cbv
  have committed : ∀ w ∈ s.waiters, ∃ now id o,
      .committed now id w.number o ∈ (s.run .arrival steps).events := by
    intro w hw
    rw [hwaiters] at hw
    rw [List.mem_singleton.mp hw, hevents]
    exact ⟨0, ⟨"id"⟩, .success 8, by simp⟩
  have gone : ∀ name ∈ ["first", "second"],
      (s.unfinished.filter fun c => c.name = name) = [call name] := by
    rw [hunfinished]
    simp [call]
  refine ⟨⟨0, hwaiters⟩, fun name hname => ?_⟩
  have unnoticed := (departure_unnoticed .arrival .arrival 1 10
    [.call (call "first"), .call (call "second")] steps name (s := s) rfl
    fun w hw _ => committed w hw).1
  rw [gone name hname] at unnoticed
  exact unnoticed steps [] rfl

end Session
end AtMostOnce
