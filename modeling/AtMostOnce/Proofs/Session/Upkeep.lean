import AtMostOnce.Proofs.Memo.Expiry
import AtMostOnce.Proofs.Session.Recall
import AtMostOnce.Proofs.Session.Sweep

/-! Upkeep. A sweep that is not stopped wakes up again and again, and what it finds over it drops.
So outcomes are held for hardly longer than they live, whatever else happens. -/
namespace AtMostOnce
variable {V : Type}

/-- No outcome that is held has reached the given age. -/
def Coordinator.Younger (k : Coordinator V) (now : Instant) (age : Nat) : Prop :=
  ∀ id e, k.memo.slots.find? id = some (.committed e) → now - e.writtenAt < age

/-- A coordinator at an instant, and the sweeps that look after it. -/
structure Scene (V : Type) where
  now : Instant
  sweeps : List Sweep
  coordinator : Coordinator V

namespace Scene

/-- The sweep at place `n` is waiting. Once it has been there for an interval, no outcome is held
that has been over for an interval. -/
structure Tended (interval n ttl : Nat) (started : Instant) (x : Scene V) : Prop where
  waiting : ∃ w, x.sweeps[n]? = some w ∧ w.interval = interval ∧ w.isDue x.now = false
  younger : started + interval ≤ x.now → x.coordinator.Younger x.now (ttl + interval)

/-- What is held and not over is left. -/
def Spared (ttl : Nat) (x y : Scene V) : Prop :=
  ∀ id e, x.coordinator.memo.slots.find? id = some (.committed e) → x.now - e.writtenAt < ttl →
    y.coordinator.memo.slots.find? id = some (.committed e)

/-- The clock jumps, and the sweeps that are due at the end of the jump purge once each, of which
the first does it all: what they tell of is what has gone. If the one at place `n` is due, it waits
from then on for its interval, or as long as its timer can. -/
structure Jump (timer : Timer) (interval n d : Nat) (x y : Scene V) (told : List (Nat × Nat)) :
    Prop where
  now : y.now = x.now + d
  once : ∀ i w, x.sweeps[i]? = some w →
    told.countP (fun p => p.1 = i) = if w.isDue y.now then 1 else 0
  gone : (told.map Prod.snd).sum + y.coordinator.memo.size = x.coordinator.memo.size
  purged : y.coordinator = if x.sweeps.any fun w => w.isDue y.now then
    (x.coordinator.purge y.now).2 else x.coordinator
  rearmed : ∀ w, x.sweeps[n]? = some w → w.isDue y.now = true → ∃ w', y.sweeps[n]? = some w' ∧
    ∀ later, w'.isDue later = true ↔ y.now + min interval timer.longestWait ≤ later
  undisturbed : ∀ w, x.sweeps[n]? = some w → w.isDue y.now = false → y.sweeps[n]? = some w

end Scene

def Session.scene (s : Session V) : Scene V := ⟨s.now, s.sweeps, s.coordinator⟩

namespace Activity
open History
variable {maxSize ttl : Nat} {a b : Activity V}

theorem Recalled.dated (h : a.Recalled maxSize ttl) : a.ledger.Dated a.now where
  ordered := by
    have latest : ((commits a.milestones).map Prod.snd).Pairwise fun w w' =>
        w'.writtenAt ≤ w.writtenAt := List.pairwise_map.mpr h.ordered
    exact List.pairwise_reverse.mp (latest.sublist h.held)
  past := by
    intro w hw
    obtain ⟨c, hc, rfl⟩ := List.mem_map.mp (h.held.subset (List.mem_reverse.mpr hw))
    exact h.past c hc

/-- What is held has been held before, or is written now. -/
theorem Effect.written (he : Effect a b) :
    ∀ w ∈ b.ledger.written, w ∈ a.ledger.written ∨ w.writtenAt = a.now := by
  have looked : ∀ {id : RequestId} {marker : Nat} {answer : Lookup V Nat},
      a.ledger.lookup a.now id marker = (answer, b.ledger) →
        ∀ w ∈ b.ledger.written, w ∈ a.ledger.written ∨ w.writtenAt = a.now := by
    intro id marker answer h w hw
    have hsub := Ledger.written_lookup_sublist a.ledger a.now id marker
    rw [h] at hsub
    exact .inl (hsub.subset hw)
  cases he with
  | start c n h => exact looked h
  | wait c n h => exact looked h
  | replay c o h => exact looked h
  | commit e o result unsettled ledger =>
    intro w hw
    rw [ledger] at hw
    have hroom : ∀ w ∈ (a.ledger.makeRoom a.now).written, w ∈ a.ledger.written := by
      rw [Ledger.written_makeRoom]
      exact fun w hw => List.mem_of_mem_drop hw
    unfold Ledger.commit at hw
    dsimp only at hw
    split at hw
    · rcases List.mem_append.mp hw with hw | hw
      · exact .inl (hroom w hw)
      · obtain rfl := List.mem_singleton.mp hw
        exact .inr rfl
    · exact .inl (hroom w hw)
  | rollBack e f result unsettled ledger =>
    intro w hw
    rw [ledger, Ledger.release_eq] at hw
    exact .inl hw
  | quiet noise silent logged unsettled ledger =>
    intro w hw
    rcases ledger with hl | hl
    · exact .inl (hl ▸ hw)
    · rw [hl] at hw
      exact .inl ((List.dropWhile_sublist _).subset hw)

/-- Work takes no time and leaves the sweeps alone. -/
theorem Work.frame (h : Work a b) : b.session.sweeps = a.session.sweeps ∧ b.now = a.now := by
  cases h with
  | claim c cs hc =>
    rcases hl : a.session.coordinator.memo.lookup a.session.now c.id
      a.session.coordinator.memo.nextGeneration with ⟨answer, m⟩
    cases answer with
    | live o =>
      rw [Session.claim_of_live hl]
      exact ⟨rfl, rfl⟩
    | pending n =>
      rw [Session.claim_of_pending hl]
      exact ⟨rfl, rfl⟩
    | claimed n =>
      rw [Session.claim_of_claimed hl]
      exact ⟨rfl, rfl⟩
  | proceed e es hr =>
    cases hg : (e.closedGate? a.session.opened).isSome with
    | true =>
      rw [Session.proceed_of_closed hg]
      exact ⟨rfl, rfl⟩
    | false =>
      cases hres : e.call.handler.result with
      | ok o =>
        rw [Session.proceed_of_ok hg hres]
        exact ⟨rfl, rfl⟩
      | error f =>
        rw [Session.proceed_of_error hg hres]
        exact ⟨rfl, rfl⟩

/-- The sweep at place `n` has been armed at `armed`. If that was not when it was started, it woke
up then, and what had been written before was dropped if it was over. -/
structure Upkept (timer : Timer) (ttl interval n : Nat) (started armed : Instant)
    (a : Activity V) : Prop where
  listed : a.session.sweeps[n]? = some (.start timer interval armed)
  whole : millisecond ∣ armed
  past : armed ≤ a.now
  cleared : armed = started ∨
    ∀ w ∈ a.ledger.written, w.writtenAt < armed → armed - w.writtenAt < ttl

namespace Upkept
variable {timer : Timer} {interval n : Nat} {started armed : Instant}

/-- What is written from then on does not matter. -/
theorem onward (h : a.Upkept timer ttl interval n started armed)
    (listed : b.session.sweeps[n]? = some (.start timer interval armed)) (clock : a.now ≤ b.now)
    (written : ∀ w ∈ b.ledger.written, w ∈ a.ledger.written ∨ w.writtenAt = a.now) :
    b.Upkept timer ttl interval n started armed where
  listed := listed
  whole := h.whole
  past := Nat.le_trans h.past clock
  cleared := h.cleared.imp_right fun cleared w hw hlt => by
    rcases written w hw with hold | hnow
    · exact cleared w hold hlt
    · rw [hnow] at hlt
      exact absurd h.past (Nat.not_le.mpr hlt)

theorem begin {s : Session V} (h : Upkept timer ttl interval n started armed { session := s })
    (kept : Kept { session := s }) {st : Step V} (running : st ≠ .stopSweeps) :
    (begin s st).Upkept timer ttl interval n started armed := by
  cases st with
  | call c => exact h.onward h.listed (Nat.le_refl _) fun w hw => .inl hw
  | openGate gate => exact h.onward h.listed (Nat.le_refl _) fun w hw => .inl hw
  | drop name => exact h.onward h.listed (Nat.le_refl _) fun w hw => .inl hw
  | advance d => exact h.onward h.listed (Nat.le_add_right _ _) fun w hw => .inl hw
  | purge =>
    obtain ⟨-, effect⟩ := kept.move (.purge _)
    exact h.onward h.listed (Nat.le_refl _) effect.written
  | startSweep timer' interval' =>
    have hn : n < s.sweeps.length := (List.getElem?_eq_some_iff.mp h.listed).1
    refine h.onward ?_ (Nat.le_refl _) fun w hw => .inl hw
    exact (List.getElem?_append_left hn).trans h.listed
  | stopSweeps => exact absurd rfl running
  | look => exact h.onward h.listed (Nat.le_refl _) fun w hw => .inl hw

theorem work (h : a.Upkept timer ttl interval n started armed) (kept : a.Kept) (hw : Work a b) :
    b.Upkept timer ttl interval n started armed := by
  obtain ⟨sweeps, clock⟩ := hw.frame
  obtain ⟨-, effect⟩ := kept.move hw.move
  exact h.onward (sweeps ▸ h.listed) (Nat.le_of_eq clock.symm) effect.written

/-- A sweep that wakes up has been armed just now, and nothing that is over is left. -/
theorem sweep {s : Session V} (h : Upkept timer ttl interval n started armed { session := s })
    (kept : Kept { session := s }) (recalled : Recalled maxSize ttl { session := s })
    (whole : millisecond ∣ s.now) :
    ∃ armed', Upkept timer ttl interval n started armed' { session := s.sweep } := by
  have listed : s.sweep.sweeps[n]? = some ((Sweep.start timer interval armed).advance s.now) :=
    Session.getElem?_sweep h.listed
  cases hdue : (Sweep.start timer interval armed).isDue s.now with
  | false =>
    rw [Sweep.advance_of_not_due hdue] at listed
    obtain ⟨-, effect⟩ := kept.move (.sweep _)
    exact ⟨armed, h.onward listed (Nat.le_refl _) effect.written⟩
  | true =>
    rw [Sweep.advance_of_due hdue] at listed
    refine ⟨s.now, listed, whole, Nat.le_refl _, .inr fun w hw _ => ?_⟩
    have hany : (s.sweeps.any fun w => w.isDue s.now) = true :=
      List.any_eq_true.mpr ⟨_, List.mem_of_getElem? h.listed, hdue⟩
    have purged : s.sweep.coordinator = (s.coordinator.purge s.now).2 := by
      rw [Session.coordinator_sweep kept.memo, if_pos hany]
    obtain ⟨-, hl⟩ := kept.memo.purge s.now
    have ledger : (Activity.ledger { session := s.sweep }).written =
        ((Activity.ledger { session := s }).purge s.now).2.written := by
      show s.sweep.coordinator.memo.ledger.written = _
      rw [purged]
      exact congrArg (fun r => r.2.written) hl.symm
    have hage := ((recalled.dated.mem_written_purge w).mp (ledger ▸ hw)).2
    rw [recalled.ttl_eq] at hage
    exact hage

/-- Whoever has been swept is not due any more. -/
theorem not_due {s : Session V} (h : Upkept timer ttl interval n started armed { session := s })
    (positive : 0 < interval) (swept : s.sweep = s) :
    (Sweep.start timer interval armed).isDue s.now = false := by
  have still : s.sweep.sweeps[n]? = s.sweeps[n]? := by rw [swept]
  rw [Session.getElem?_sweep h.listed, h.listed] at still
  have hadvance : (Sweep.start timer interval armed).advance s.now = .start timer interval armed :=
    Option.some.inj still
  cases hdue : (Sweep.start timer interval armed).isDue s.now with
  | false => rfl
  | true =>
    rw [Sweep.advance_of_due hdue] at hadvance
    have again : (Sweep.start timer interval s.now).isDue s.now = true :=
      (congrArg (Sweep.isDue · s.now) hadvance).trans hdue
    rw [Sweep.isDue_start_self timer s.now positive] at again
    cases again

theorem tended {s : Session V} (h : Upkept timer ttl interval n started armed { session := s })
    (kept : Kept { session := s }) (positive : 0 < interval) (whole : millisecond ∣ interval)
    (swept : s.sweep = s) : s.scene.Tended interval n ttl started where
  waiting := ⟨_, h.listed, rfl, h.not_due positive swept⟩
  younger hstarted id e hf := by
    have hnow : s.now < armed + interval := by
      have hdue := (Sweep.isDue_start_of_whole timer whole h.whole s.now).not.mp
        (Bool.not_eq_true _ ▸ h.not_due positive swept)
      exact Nat.lt_of_lt_of_le (Nat.not_le.mp hdue) (Nat.add_le_add_left (Nat.min_le_left _ _) _)
    rcases h.cleared with rfl | cleared
    · exact absurd hstarted (Nat.not_le.mpr hnow)
    · have hw := (kept.memo.mem_written_iff ⟨id, e.outcome, e.writtenAt⟩).mpr ⟨e.seq, hf⟩
      have hage := cleared _ hw
      dsimp only [Session.scene] at *
      unfold Instant at *
      omega

end Upkept

/-- The clock moves by whole milliseconds if its steps do. -/
theorem whole_begin {s : Session V} (h : millisecond ∣ s.now) {st : Step V}
    (jump : ∀ d, st = .advance d → millisecond ∣ d) : millisecond ∣ (begin s st).now := by
  cases st with
  | advance d => exact Nat.dvd_add h (jump d rfl)
  | _ => exact h

theorem whole_run (σ : Schedule V) {s : Session V} (h : millisecond ∣ s.now) (steps : List (Step V))
    (jumps : ∀ d, .advance d ∈ steps → millisecond ∣ d) : millisecond ∣ (s.run σ steps).now := by
  refine run_induction (P := fun steps a =>
    (∀ d, .advance d ∈ steps → millisecond ∣ d) → millisecond ∣ a.now) ?_ ?_ ?_ ?_ σ steps jumps
  · exact fun _ => h
  · intro steps s st ih jumps
    have before := ih fun d hd => jumps d (List.mem_append_left _ hd)
    exact whole_begin before fun d hd => jumps d (hd ▸ List.mem_append_right _ List.mem_cons_self)
  · intro steps a b hw ih jumps
    rw [hw.frame.2]
    exact ih jumps
  · exact fun steps s ih jumps => ih jumps

/-- A sweep that is not stopped is kept up by whatever happens. -/
theorem upkept_run (σ : Schedule V) {timer : Timer} {interval n : Nat}
    {started armed : Instant} {s : Session V}
    (reached : Reachable maxSize ttl { session := s }) (whole : millisecond ∣ s.now)
    (h : Upkept timer ttl interval n started armed { session := s }) (steps : List (Step V))
    (jumps : ∀ d, .advance d ∈ steps → millisecond ∣ d) (running : .stopSweeps ∉ steps) :
    ∃ armed, Upkept timer ttl interval n started armed { session := s.run σ steps } := by
  refine (run_induction (P := fun steps a => (∀ d, .advance d ∈ steps → millisecond ∣ d) →
    .stopSweeps ∉ steps → Reachable maxSize ttl a ∧ millisecond ∣ a.now ∧
      ∃ armed, a.Upkept timer ttl interval n started armed) ?_ ?_ ?_ ?_ σ steps jumps running).2.2
  · exact fun _ _ => ⟨reached, whole, armed, h⟩
  · intro steps s st ih jumps running
    obtain ⟨reached, whole, armed, h⟩ := ih (fun d hd => jumps d (List.mem_append_left _ hd))
      fun hstop => running (List.mem_append_left _ hstop)
    refine ⟨reached.trans (moves_begin s st), whole_begin whole fun d hd => ?_, armed,
      h.begin reached.accounted.1 fun hstop => ?_⟩
    · exact jumps d (hd ▸ List.mem_append_right _ List.mem_cons_self)
    · exact running (hstop ▸ List.mem_append_right _ List.mem_cons_self)
  · intro steps a b hw ih jumps running
    obtain ⟨reached, whole, armed, h⟩ := ih jumps running
    exact ⟨reached.tail hw.move, hw.frame.2 ▸ whole, armed, h.work reached.accounted.1 hw⟩
  · intro steps s ih jumps running
    obtain ⟨reached, whole, armed, h⟩ := ih jumps running
    exact ⟨reached.tail (.sweep _), whole, h.sweep reached.accounted.1 reached.recalled whole⟩

end Activity

namespace Session
open Activity
variable {maxSize ttl : Nat} {s : Session V}

/-- Sweeps drop nothing that is not over. -/
theorem spared_sweep (reached : Reachable maxSize ttl { session := s }) :
    Scene.Spared ttl s.scene s.sweep.scene := by
  intro id e hf hage
  have sound : s.coordinator.memo.Sound := reached.accounted.1.memo
  have ttl_eq : s.coordinator.memo.ttl = ttl := reached.recalled.ttl_eq
  show s.sweep.coordinator.memo.slots.find? id = _
  rw [coordinator_sweep sound]
  split
  · exact (sound.find?_purge_eq_committed_iff reached.recalled.dated id e).mpr
      ⟨hf, ttl_eq.symm ▸ hage⟩
  · exact hf

theorem jump (σ : Schedule V) {timer : Timer} {interval n d : Nat} {w : Sweep}
    (sound : s.coordinator.memo.Sound) (listed : s.sweeps[n]? = some w) (htimer : w.timer = timer)
    (hinterval : w.interval = interval) (whole : millisecond ∣ interval)
    (stop : millisecond ∣ s.now + d) : Scene.Jump timer interval n d s.scene
      (s.step σ (.advance d)).scene (s.swept σ (.advance d)) := by
  let t : Session V := s.step σ (.advance d)
  have swept : t.scene.sweeps[n]? = some (w.advance t.scene.now) :=
    getElem?_sweep (s := s.act σ (.advance d)) listed
  refine ⟨rfl, fun n' w' hw' => ?_, Coordinator.sum_purgeDue sound,
    coordinator_sweep (s := { s with now := s.now + d }) sound, ?_, ?_⟩
  · have once := Sweep.countP_purgeDue (fun k : Coordinator V => k.purge (s.now + d)) (s.now + d) 0
      s.coordinator hw'
    rw [Nat.zero_add] at once
    exact once
  · intro w' hw' hdue
    obtain rfl : w = w' := Option.some.inj (listed.symm.trans hw')
    rw [Sweep.advance_of_due hdue, hinterval, htimer] at swept
    exact ⟨.start timer interval (s.now + d), swept,
      Sweep.isDue_start_of_whole timer whole stop⟩
  · intro w' hw' hdue
    obtain rfl : w = w' := Option.some.inj (listed.symm.trans hw')
    rw [Sweep.advance_of_not_due hdue] at swept
    exact swept

/-- A sweep over a session, once started and not stopped, is never late, drops nothing that is not
over, and wakes up once at most when the clock jumps. -/
theorem tended_run (σ : Schedule V) (maxSize ttl : Nat) (timer : Timer) {interval : Nat}
    (positive : 0 < interval) (whole : millisecond ∣ interval) (before after : List (Step V))
    (jumps : ∀ d, .advance d ∈ before ++ after → millisecond ∣ d)
    (running : .stopSweeps ∉ after) :
    let s := run σ { coordinator := .new maxSize ttl } before
    let t := s.run σ (.startSweep timer interval :: after)
    t.scene.Tended interval s.sweeps.length ttl s.now ∧
      (∀ st, Scene.Spared ttl (t.act σ st).scene (t.step σ st).scene) ∧
      ∀ d, millisecond ∣ d → Scene.Jump timer interval s.sweeps.length d t.scene
        (t.step σ (.advance d)).scene (t.swept σ (.advance d)) := by
  intro s t
  have hs : Reachable maxSize ttl { session := s } := reachable_run σ maxSize ttl before
  have hbefore : millisecond ∣ s.now :=
    whole_run σ (Nat.dvd_zero _) before fun d hd => jumps d (List.mem_append_left _ hd)
  have hafter : ∀ d, .advance d ∈ after → millisecond ∣ d :=
    fun d hd => jumps d (List.mem_append_right _ hd)
  -- Just started, the sweep has only to be listed.
  have hstart : Reachable maxSize ttl { session := s.act σ (.startSweep timer interval) } :=
    hs.tail (.startSweep _ timer interval)
  have started : Upkept timer ttl interval s.sweeps.length s.now s.now
      { session := s.act σ (.startSweep timer interval) } :=
    ⟨List.getElem?_concat_length .., hbefore, Nat.le_refl _, .inl rfl⟩
  obtain ⟨armed, h⟩ := started.sweep hstart.accounted.1 hstart.recalled hbefore
  obtain ⟨armed', h'⟩ := upkept_run σ (hstart.tail (.sweep _)) hbefore h after hafter running
  have hrun : t = run σ { coordinator := .new maxSize ttl }
      (before ++ .startSweep timer interval :: after) := (List.foldl_append ..).symm
  have ht : Reachable maxSize ttl { session := t } :=
    hs.trans (moves_run σ s (.startSweep timer interval :: after))
  have hnow : millisecond ∣ t.now :=
    whole_run σ (s := s.step σ (.startSweep timer interval)) hbefore after hafter
  have swept : t.sweep = t := by
    rw [hrun]
    exact sweep_run σ maxSize ttl _
  refine ⟨h'.tended ht.accounted.1 positive whole swept, fun st => ?_, fun d hd => ?_⟩
  · exact spared_sweep (ht.trans (moves_act σ t st))
  · exact jump σ ht.accounted.1.memo h'.listed rfl rfl whole (Nat.dvd_add hnow hd)

end Session
end AtMostOnce
