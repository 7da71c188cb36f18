import AtMostOnce.Proofs.Memo.Room
import AtMostOnce.Proofs.Session.Gathered
import AtMostOnce.Proofs.Session.Recall
import Mathlib.Algebra.BigOperators.Intervals

/-! Cascades of breakdowns. Callers of one id wait for the first of them. When its handler breaks
down one of the others starts its own, and so on, until a handler leaves an outcome for all who
still wait or none is left. -/
namespace AtMostOnce.Session
open Activity
variable {V : Type} {s t u v : Session V} {c h : Call V} {n : Nat}

/-- Since `s` the handlers of `broken` have broken down one after another. That of `h` has been
started as execution `n`, and `ws` wait for it. -/
structure Amid (s : Session V) (broken : List (Call V × Breakdown)) (h : Call V) (n : Nat)
    (ws : List (Call V)) (u : Session V) : Prop where
  goes : s.Goes u (broken.map Prod.fst ++ [h])
    (broken.map fun p => (p.1, .error (.internal p.2)))
    (∑ i ∈ Finset.range (broken.length + 1), (broken.length + 1 + ws.length - (i + 1)))
    broken.length
  issued : n < u.coordinator.memo.nextGeneration
  claimed : u.coordinator.memo.slots.find? h.id = some (.claimed n n)
  older : ∀ w ∈ s.waiters, w.number < n
  waiters : u.waiters = s.waiters ++ ws.map fun c => ⟨c, n⟩

namespace Amid
variable {broken : List (Call V × Breakdown)} {ws : List (Call V)} {b : Breakdown} {o : Outcome V}

theorem of_gathered (g : s.Gathered h n ws u)
    (older : ∀ w ∈ s.waiters, w.number < s.coordinator.memo.nextGeneration) :
    s.Amid [] h n ws u where
  goes := by
    rw [List.length_nil, Finset.sum_range_one, Nat.zero_add, Nat.add_sub_cancel_left]
    exact g.goes
  issued := g.issued
  claimed := g.claimed
  older w hw := Nat.lt_of_lt_of_le (older w hw) g.fresh
  waiters := g.waiters

theorem waitingOn (h : s.Amid broken c n ws u) : u.waitingOn n = ws := by
  have hothers : (s.waiters.filter fun w => w.number = n) = [] := by
    rw [List.filter_eq_nil_iff]
    intro w hw hn
    exact Nat.ne_of_lt (h.older w hw) (of_decide_eq_true hn)
  rw [Session.waitingOn, h.waiters, List.filter_append, hothers, List.nil_append]
  simp [List.filter_map, Function.comp_def]

theorem dismissed (h : s.Amid broken c n ws u) :
    (u.waiters.filter fun w => w.number ≠ n) = s.waiters := by
  have hothers : (s.waiters.filter fun w => w.number ≠ n) = s.waiters := by
    rw [List.filter_eq_self]
    intro w hw
    exact decide_eq_true (Nat.ne_of_lt (h.older w hw))
  rw [h.waiters, List.filter_append, hothers]
  simp

theorem isClaimedBy (h : s.Amid broken c n ws u) :
    u.coordinator.memo.isClaimedBy c.id n = true := by
  unfold Memo.isClaimedBy
  rw [h.claimed]
  exact decide_eq_true rfl

/-- The handler breaks down. Its caller is told, and those that wait are released. -/
theorem rollBack (a : s.Amid broken h n ws u)
    (hgate : (Execution.closedGate? { call := h, number := n } u.opened).isSome = false)
    (result : h.handler.result = .error b) :
    let v := (u.proceed { call := h, number := n }).2
    (u.proceed { call := h, number := n }).1 = ws ∧
      u.Goes v [] [(h, .error (.internal b))] 0 1 ∧
      v.coordinator.memo.slots.find? h.id = none ∧
      v.coordinator.memo.nextGeneration = u.coordinator.memo.nextGeneration ∧
      v.waiters = s.waiters ∧ v.parked = u.parked ∧ v.opened = u.opened := by
  intro v
  have hmemo : u.coordinator.memo.release h.id n =
      { u.coordinator.memo with slots := u.coordinator.memo.slots.erase h.id } := by
    rw [Memo.release, if_pos a.isClaimedBy]
  simp only [v]
  rw [proceed_of_error hgate result]
  refine ⟨a.waitingOn, .of_told ⟨rfl, rfl, rfl, rfl, rfl⟩ [_, _] rfl rfl rfl rfl, ?_, ?_,
    a.dismissed, rfl, rfl⟩
  · show (u.coordinator.memo.release h.id n).slots.find? h.id = none
    rw [hmemo, Table.find?_erase, if_pos rfl]
  · show (u.coordinator.memo.release h.id n).nextGeneration = _
    rw [hmemo]

/-- One of those that wait is next. -/
theorem next (a : s.Amid broken h n ws u)
    (hgate : (Execution.closedGate? { call := h, number := n } u.opened).isSome = false)
    (result : h.handler.result = .error b) {h' : Call V} {ws' : List (Call V)}
    (perm : (h' :: ws').Perm ws) (hids : ∀ c ∈ ws, c.id = h.id) :
    let v := (u.proceed { call := h, number := n }).2
    let n' := v.coordinator.memo.nextGeneration
    (v.claimAll (h' :: ws')).1 = [{ call := h', number := n' }] ∧
      s.Amid (broken ++ [(h, b)]) h' n' ws' (v.claimAll (h' :: ws')).2 := by
  intro v n'
  obtain ⟨-, hgoes, hfree, hnext, hwaiters, -⟩ := a.rollBack hgate result
  have hids' : ∀ c ∈ h' :: ws', c.id = h.id := fun c hc => hids c (perm.subset hc)
  have hid : h'.id = h.id := hids' h' List.mem_cons_self
  have vacant : v.coordinator.memo.Vacant v.now h'.id := by
    intro slot hslot
    rw [hid, hfree] at hslot
    cases hslot
  obtain ⟨hstarted, g⟩ := gathered_claimAll vacant
    fun c hc => (hids' c (List.mem_cons_of_mem _ hc)).trans hid.symm
  refine ⟨hstarted, ⟨?_, g.issued, g.claimed, ?_, ?_⟩⟩
  · have hall := (a.goes.trans hgoes).trans g.goes
    have hlength := perm.length_eq
    rw [List.length_cons] at hlength
    have hwaits : ∑ i ∈ Finset.range (broken.length + 1),
          (broken.length + 1 + ws.length - (i + 1)) + 0 + ws'.length =
        ∑ i ∈ Finset.range (broken.length + 1 + 1),
          (broken.length + 1 + 1 + ws'.length - (i + 1)) := by
      rw [Finset.sum_range_succ _ (broken.length + 1), ← hlength]
      have hterm : broken.length + 1 + 1 + ws'.length - (broken.length + 1 + 1) = ws'.length := by
        omega
      have hsame : broken.length + 1 + (ws'.length + 1) = broken.length + 1 + 1 + ws'.length := by
        omega
      rw [hterm, hsame, Nat.add_zero]
    rw [hwaits] at hall
    simp only [List.append_nil] at hall
    rw [List.map_append, List.map_append, List.length_append]
    exact hall
  · intro w hw
    calc
      w.number < n := a.older w hw
      _ < u.coordinator.memo.nextGeneration := a.issued
      _ = n' := hnext.symm
  · exact g.waiters.trans (congrArg (· ++ ws'.map fun c => ⟨c, n'⟩) hwaiters)

/-- The handler leaves an outcome, which answers all that wait. -/
theorem serve (a : s.Amid broken h n ws u) (sound : u.coordinator.memo.Sound)
    (hgate : (Execution.closedGate? { call := h, number := n } u.opened).isSome = false)
    (result : h.handler.result = .ok o) :
    let v := (u.proceed { call := h, number := n }).2
    (u.proceed { call := h, number := n }).1 = [] ∧
      u.Goes v [] ((h :: ws).map fun c => (c, c.answer o)) 0 0 ∧
      (∃ seq, v.coordinator.memo.slots.find? h.id = some (.committed ⟨o, u.now, seq⟩)) ∧
      v.waiters = s.waiters ∧ v.parked = u.parked := by
  intro v
  obtain ⟨-, hslots, -⟩ := sound.commit_of_makeRoom u.now h.id n o
  have hself := hslots h.id
  rw [if_pos ⟨a.isClaimedBy, rfl⟩] at hself
  have hwaiting := a.waitingOn
  simp only [v]
  rw [proceed_of_ok hgate result]
  dsimp only [Execution.caller]
  rw [hwaiting]
  refine ⟨rfl, .of_told ⟨rfl, rfl, rfl, rfl, rfl⟩
    (answers (h :: ws) o ++ [.committed u.now h.id n o]) ?_ ?_ ?_ rfl, ⟨_, hself⟩, a.dismissed, rfl⟩
  · rw [List.append_assoc]
    rfl
  · rw [List.reverse_append, List.filterMap_append, (filterMap_answers (h :: ws) o).1]
    rfl
  · rw [List.reverse_append, List.filterMap_append, (filterMap_answers (h :: ws) o).2]
    rfl

end Amid

/-- What comes of calls of one id between two sessions. They are taken in some order that begins
with the first of them. Their handlers are started in that order, and break down up to the first one
that leaves an outcome. Whoever has broken down is told so, and all others get the outcome. -/
inductive Cascade (s : Session V) (id : RequestId) (cs : List (Call V)) (t : Session V) : Prop where
  | served (broken : List (Call V × Breakdown)) (h : Call V) (others : List (Call V))
    (o : Outcome V) (seq : Nat) (order : (broken.map Prod.fst ++ h :: others).Perm cs)
    (first : (broken.map Prod.fst ++ [h]).head? = cs.head?)
    (brokeDown : ∀ p ∈ broken, p.1.handler.result = .error p.2)
    (result : h.handler.result = .ok o)
    (goes : s.Goes t (broken.map Prod.fst ++ [h])
      (broken.map (fun p => (p.1, .error (.internal p.2))) ++
        (h :: others).map fun c => (c, c.answer o))
      (∑ i ∈ Finset.range (broken.length + 1), (cs.length - (i + 1))) broken.length)
    (held : t.coordinator.memo.slots.find? id = some (.committed ⟨o, s.now, seq⟩))
  | exhausted (broken : List (Call V × Breakdown)) (order : (broken.map Prod.fst).Perm cs)
    (first : (broken.map Prod.fst).head? = cs.head?)
    (brokeDown : ∀ p ∈ broken, p.1.handler.result = .error p.2)
    (goes : s.Goes t (broken.map Prod.fst) (broken.map fun p => (p.1, .error (.internal p.2)))
      (cs.length * (cs.length - 1) / 2) cs.length)
    (free : t.coordinator.memo.slots.find? id = none)

theorem sum_range_pred (n : Nat) :
    ∑ i ∈ Finset.range (n + 1), (n + 1 - (i + 1)) = (n + 1) * (n + 1 - 1) / 2 := by
  rw [← Finset.sum_range_id, ← Finset.sum_range_reflect (fun i => i)]
  exact Finset.sum_congr rfl fun i _ => by omega

namespace Amid
variable {maxSize ttl : Nat} {broken : List (Call V × Breakdown)} {ws cs : List (Call V)}
  {gate : String}

/-- After a breakdown the next of those that wait is at work, in whatever order they claim. -/
theorem round (σ : Schedule V) (a : s.Amid broken h n ws u)
    (hgate : (Execution.closedGate? { call := h, number := n } u.opened).isSome = false)
    {b : Breakdown} (result : h.handler.result = .error b) (waited : ws ≠ [])
    (hids : ∀ c ∈ ws, c.id = h.id) :
    let r := u.round σ [{ call := h, number := n }]
    ∃ h' ws' n', (h' :: ws').Perm ws ∧ r.1 = [{ call := h', number := n' }] ∧
      s.Amid (broken ++ [(h, b)]) h' n' ws' r.2 ∧ r.2.parked = u.parked ∧
      r.2.opened = u.opened := by
  intro r
  obtain ⟨hreleased, -, -, -, -, hparked, hopened⟩ := a.rollBack hgate result
  have hr : r = (u.proceed { call := h, number := n }).2.claimAll
      (σ.arrange (u.proceed { call := h, number := n }).2.events.length ws) := by
    simp only [r]
    unfold Session.round
    rw [proceedAll_singleton, hreleased]
  have perm := σ.perm (u.proceed { call := h, number := n }).2.events.length ws
  rw [hr]
  cases harranged : σ.arrange (u.proceed { call := h, number := n }).2.events.length ws with
  | nil =>
    rw [harranged] at perm
    exact absurd perm.symm.eq_nil waited
  | cons h' ws' =>
    rw [harranged] at perm
    obtain ⟨hstarted, next⟩ := a.next hgate result perm hids
    obtain ⟨hparked', hopened'⟩ :=
      claimAll_frame (u.proceed { call := h, number := n }).2 (h' :: ws')
    exact ⟨h', ws', _, perm, hstarted, next, hparked'.trans hparked, hopened'.trans hopened⟩

theorem closedGate?_of_opened (opened : gate ∈ u.opened) (hgate : h.handler.gate? = some gate) :
    (Execution.closedGate? { call := h, number := n } u.opened).isSome = false := by
  unfold Execution.closedGate?
  dsimp only
  rw [hgate]
  simp [opened]

/-- An outcome ends the cascade. -/
theorem settle_of_ok (σ : Schedule V) (a : s.Amid broken h n ws u)
    (sound : u.coordinator.memo.Sound)
    (hgate : (Execution.closedGate? { call := h, number := n } u.opened).isSome = false)
    {o : Outcome V} (result : h.handler.result = .ok o)
    (order : (broken.map Prod.fst ++ h :: ws).Perm cs)
    (first : (broken.map Prod.fst ++ [h]).head? = cs.head?)
    (brokeDown : ∀ p ∈ broken, p.1.handler.result = .error p.2) :
    let t := u.settle σ [{ call := h, number := n }]
    s.Cascade h.id cs t ∧ t.parked = u.parked ∧ t.waiters = s.waiters := by
  intro t
  have hlength : broken.length + 1 + ws.length = cs.length := by
    rw [← order.length_eq, List.length_append, List.length_map, List.length_cons]
    omega
  obtain ⟨hnobody, hgoes, ⟨seq, held⟩, hwaiters, hparked⟩ := a.serve sound hgate result
  have goes := a.goes.trans hgoes
  rw [List.append_nil, hlength] at goes
  rw [a.goes.now] at held
  simp only [t]
  rw [settle_of_nil hnobody]
  exact ⟨.served broken h ws o seq order first brokeDown result goes held, hparked, hwaiters⟩

/-- The cascade ends when nobody waits any more. -/
theorem settle_of_error (σ : Schedule V) (a : s.Amid broken h n [] u)
    (hgate : (Execution.closedGate? { call := h, number := n } u.opened).isSome = false)
    {b : Breakdown} (result : h.handler.result = .error b)
    (order : (broken.map Prod.fst ++ [h]).Perm cs)
    (first : (broken.map Prod.fst ++ [h]).head? = cs.head?)
    (brokeDown : ∀ p ∈ broken ++ [(h, b)], p.1.handler.result = .error p.2) :
    let t := u.settle σ [{ call := h, number := n }]
    s.Cascade h.id cs t ∧ t.parked = u.parked ∧ t.waiters = s.waiters := by
  intro t
  have hlength : broken.length + 1 = cs.length := by
    rw [← order.length_eq, List.length_append, List.length_map, List.length_singleton]
  obtain ⟨hreleased, hgoes, hfree, -, hwaiters, hparked, -⟩ := a.rollBack hgate result
  have goes := a.goes.trans hgoes
  rw [List.length_nil, Nat.add_zero, sum_range_pred, hlength, List.append_nil] at goes
  have hcallers : (broken ++ [(h, b)]).map Prod.fst = broken.map Prod.fst ++ [h] := List.map_append
  simp only [t]
  rw [settle_of_nil hreleased]
  refine ⟨.exhausted (broken ++ [(h, b)]) ?_ ?_ brokeDown ?_ hfree, hparked, hwaiters⟩
  · rw [hcallers]
    exact order
  · rw [hcallers]
    exact first
  · rw [hcallers, List.map_append]
    exact goes

/-- Work goes on until an outcome has been left or everybody has broken down. -/
theorem settle (σ : Schedule V) (a : s.Amid broken h n ws u)
    (reached : Reachable maxSize ttl ⟨u, [{ call := h, number := n }], []⟩)
    (opened : gate ∈ u.opened)
    (calls : ∀ c ∈ h :: ws, c.id = h.id ∧ c.handler.gate? = some gate)
    (order : (broken.map Prod.fst ++ h :: ws).Perm cs)
    (first : (broken.map Prod.fst ++ [h]).head? = cs.head?)
    (brokeDown : ∀ p ∈ broken, p.1.handler.result = .error p.2) :
    let t := u.settle σ [{ call := h, number := n }]
    s.Cascade h.id cs t ∧ t.parked = u.parked ∧ t.waiters = s.waiters := by
  -- After each round fewer callers wait.
  induction hk : ws.length using Nat.strong_induction_on generalizing broken h n ws u with
  | _ k ih =>
    have hgate : (Execution.closedGate? { call := h, number := n } u.opened).isSome = false :=
      closedGate?_of_opened opened (calls h List.mem_cons_self).2
    cases result : h.handler.result with
    | ok o => exact a.settle_of_ok σ reached.accounted.1.memo hgate result order first brokeDown
    | error b =>
      have brokeDown' : ∀ p ∈ broken ++ [(h, b)], p.1.handler.result = .error p.2 := by
        intro p hp
        rcases List.mem_append.mp hp with hp | hp
        · exact brokeDown p hp
        · rw [List.mem_singleton.mp hp]
          exact result
      by_cases waited : ws = []
      · subst waited
        exact a.settle_of_error σ hgate result order first brokeDown'
      · have hids : ∀ c ∈ ws, c.id = h.id := fun c hc => (calls c (List.mem_cons_of_mem _ hc)).1
        obtain ⟨h', ws', n', perm, hready, next, hparked, hopened⟩ :=
          a.round σ hgate result waited hids
        have hid : h'.id = h.id := hids h' (perm.subset List.mem_cons_self)
        have reached' := reached.works (works_round σ u [{ call := h, number := n }])
        change Reachable maxSize ttl ⟨(u.round σ _).2, (u.round σ _).1, []⟩ at reached'
        rw [hready] at reached'
        have fewer : ws'.length < k := by
          rw [← hk, ← perm.length_eq]
          exact Nat.lt_succ_self _
        have rest := ih ws'.length fewer next reached' (hopened ▸ opened)
          (fun c hc => ?_) ?_ ?_ brokeDown' rfl
        · rw [← settle_round, hready, ← hparked, ← hid]
          exact rest
        · obtain ⟨hcid, hcgate⟩ := calls c (List.mem_cons_of_mem _ (perm.subset hc))
          exact ⟨hcid.trans hid.symm, hcgate⟩
        · rw [List.map_append, List.append_assoc]
          exact ((perm.cons h).append_left _).trans order
        · rw [List.map_append, ← first]
          simp

end Amid

/-- No handler is started but those of the callers. -/
theorem Cascade.mem_of_starter {id : RequestId} {cs : List (Call V)} (h : s.Cascade id cs t)
    (hc : c ∈ (t.since s).filterMap Event.starter?) : c ∈ cs := by
  cases h with
  | served broken h others o seq order first brokeDown result goes held =>
    rw [goes.started] at hc
    refine order.subset ?_
    rw [List.append_cons]
    exact List.mem_append_left _ hc
  | exhausted broken order first brokeDown goes free =>
    rw [goes.started] at hc
    exact order.subset hc

/-- An outcome just left outlives the sweeps, if outcomes are to live at all. -/
theorem Cascade.sweep {id : RequestId} {cs : List (Call V)} (h : s.Cascade id cs u)
    (kept : Kept { session := u }) (live : 0 < u.coordinator.memo.ttl) :
    s.Cascade id cs u.sweep := by
  cases h with
  | served broken h others o seq order first brokeDown result goes held =>
    have swept := goes.trans (goes_sweep u)
    rw [List.append_nil, List.append_nil] at swept
    rw [← goes.now] at held
    obtain ⟨seq', held'⟩ := live_sweep kept held live
    rw [goes.now] at held'
    exact .served broken h others o seq' order first brokeDown result swept held'
  | exhausted broken order first brokeDown goes free =>
    have swept := goes.trans (goes_sweep u)
    rw [List.append_nil, List.append_nil] at swept
    exact .exhausted broken order first brokeDown swept (free_sweep kept free)

/-- Calls of one id are made one after another, all with handlers that come first to one gate, which
is closed and at which nobody else stands. No outcome of the id is live and no handler of it has
been started before. Once the gate is opened, in whatever order released callers claim, their
handlers break down one after another until one of them leaves an outcome, which all who are left
get, or until all of them have broken down. Everybody else is left alone. Sweeps that are due after
that do not change any of this, if outcomes are to live at all. -/
theorem breakdowns_cascade (σ : Schedule V) (maxSize ttl : Nat) (past : List (Step V))
    (hs : s = Session.run σ { coordinator := .new maxSize ttl } past) (id : RequestId)
    (gate : String) (cs : List (Call V)) (called : cs ≠ [])
    (calls : ∀ c ∈ cs, c.id = id ∧ c.handler.gate? = some gate) (closed : gate ∉ s.opened)
    (alone : ∀ e ∈ s.parked, e.call.handler.gate? ≠ some gate)
    (vacant : s.coordinator.memo.Vacant s.now id) :
    let gathered := s.run σ (cs.map Step.call)
    let t := gathered.act σ (.openGate gate)
    let swept := gathered.step σ (.openGate gate)
    s.Cascade id cs t ∧ t.Goes swept [] [] 0 0 ∧ (0 < ttl → s.Cascade id cs swept) ∧
      swept.parked = s.parked ∧ swept.waiters = s.waiters ∧
      swept.coordinator.memo.inFlight = s.coordinator.memo.inFlight := by
  intro gathered t swept
  have reached : Reachable maxSize ttl { session := s } := hs ▸ reachable_run σ maxSize ttl past
  cases cs with
  | nil => exact absurd rfl called
  | cons h ws =>
    obtain ⟨rfl, hgate⟩ := calls h List.mem_cons_self
    have hclosed : ∀ n,
        (Execution.closedGate? { call := h, number := n } s.opened).isSome = true := by
      intro n
      unfold Execution.closedGate?
      dsimp only
      rw [hgate]
      simp [closed]
    obtain ⟨g, hparked, hopened⟩ := gathered_run reached vacant σ hclosed
      fun c hc => (calls c (List.mem_cons_of_mem _ hc)).1
    have hbegin := begin_openGate (hopened ▸ closed) hparked hgate alone
    -- What the opened gate lets through is the one execution that has been started.
    let n := s.coordinator.memo.nextGeneration
    let u : Session V := { gathered with opened := gate :: gathered.opened, parked := s.parked }
    have amid : s.Amid [] h n ws u :=
      have a := Amid.of_gathered g (older_of_reachable reached)
      ⟨⟨a.goes.counts, a.goes.suffix, a.goes.started, a.goes.answered, a.goes.now⟩, a.issued,
        a.claimed, a.older, a.waiters⟩
    have reachedᵤ : Reachable maxSize ttl ⟨u, [{ call := h, number := n }], []⟩ := by
      have moves := moves_begin gathered (.openGate gate)
      rw [hbegin] at moves
      exact (reached.trans (moves_run σ s _)).trans moves
    have calls' : ∀ c ∈ h :: ws, c.id = h.id ∧ c.handler.gate? = some gate := calls
    obtain ⟨cascade, hparkedₜ, hwaiters⟩ := amid.settle σ reachedᵤ List.mem_cons_self calls'
      (List.Perm.refl _) rfl (by simp)
    have ht : t = u.settle σ [{ call := h, number := n }] := by
      simp only [t]
      rw [act_eq_settle, hbegin]
      rfl
    rw [← ht] at cascade hparkedₜ hwaiters
    have reachedₜ : Reachable maxSize ttl { session := t } :=
      (reached.trans (moves_run σ s _)).trans (moves_act σ gathered (.openGate gate))
    have reachedₛ : Reachable maxSize ttl { session := swept } := reachedₜ.tail (.sweep _)
    refine ⟨cascade, goes_sweep t, fun live => ?_, hparkedₜ, hwaiters, ?_⟩
    · have httl : t.coordinator.memo.ttl = ttl := reachedₜ.recalled.ttl_eq
      exact cascade.sweep reachedₜ.accounted.1 (httl.symm ▸ live)
    · rw [inFlight_eq_length reachedₛ, inFlight_eq_length reached]
      exact congrArg List.length hparkedₜ

/-- Two handlers break down, and the third one leaves a value. A call of another id is under way all
the time. -/
theorem breakdowns_cascade_to_value :
    let other : Call Nat :=
      ⟨"other", ⟨"other"⟩, .wide, { gate := some "later", ending := .value 7 }⟩
    let first : Call Nat :=
      ⟨"first", ⟨"id"⟩, .wide, { gate := some "gate", ending := .breakdown (.undeclared ["lost"]) }⟩
    let second : Call Nat :=
      ⟨"second", ⟨"id"⟩, .wide, { gate := some "gate", ending := .breakdown (.thrown .foreign) }⟩
    let third : Call Nat := ⟨"third", ⟨"id"⟩, .narrow, { gate := some "gate", ending := .value 8 }⟩
    let s := Session.run .arrival ({ coordinator := .new 2 10 } : Session Nat) [.call other]
    let t := (s.run .arrival ([first, second, third].map Step.call)).step .arrival
      (.openGate "gate")
    t.coordinator.executions = 4 ∧ t.coordinator.waits = 3 ∧ t.coordinator.rollbacks = 2 ∧
      t.coordinator.memo.inFlight = s.coordinator.memo.inFlight ∧
      s.Cascade ⟨"id"⟩ [first, second, third] t := by
  intro other first second third s t
  have counted : t.coordinator.executions = 4 ∧ t.coordinator.waits = 3 ∧
      t.coordinator.rollbacks = 2 := by
    simp only [t, s, other, first, second, third, List.map_cons, List.map_nil]
    cbv
  have closed : s.opened = [] := by
    simp only [s, other]
    cbv
  have parked : s.parked = [{ call := other, number := 0 }] := by
    simp only [s, other]
    cbv
  have vacant : s.coordinator.memo.slots.find? ⟨"id"⟩ = none := by
    simp only [s, other]
    cbv
  obtain ⟨-, -, cascade, -, -, inFlight⟩ := breakdowns_cascade .arrival 2 10 [.call other]
    (s := s) rfl ⟨"id"⟩ "gate" [first, second, third] (by simp)
    (by simp [first, second, third, Handler.gate?]) (by simp [closed])
    (by simp [parked, other, Handler.gate?])
    (fun slot hslot => absurd (vacant.symm.trans hslot) (Option.some_ne_none slot).symm)
  exact ⟨counted.1, counted.2.1, counted.2.2, inFlight, cascade (by decide)⟩

/-- If a handler of another id stands at the gate, the gate lets it through as well. Here it breaks
down and whoever waits on it starts another one, and both are counted together with the handlers of
the cascade: of these the first one breaks down, and the second one leaves a value. -/
theorem breakdown_counted_beside_cascade :
    let leader : Call Nat := ⟨"leader", ⟨"other"⟩, .wide,
      { gate := some "gate", ending := .breakdown (.undeclared ["lost"]) }⟩
    let follower : Call Nat := ⟨"follower", ⟨"other"⟩, .wide, { ending := .value 7 }⟩
    let first : Call Nat :=
      ⟨"first", ⟨"id"⟩, .wide, { gate := some "gate", ending := .breakdown (.thrown .foreign) }⟩
    let second : Call Nat := ⟨"second", ⟨"id"⟩, .wide, { gate := some "gate", ending := .value 8 }⟩
    let third : Call Nat := ⟨"third", ⟨"id"⟩, .wide, { gate := some "gate", ending := .value 8 }⟩
    let s := Session.run .arrival ({ coordinator := .new 5 10 } : Session Nat)
      [.call leader, .call follower]
    let t := (s.run .arrival ([first, second, third].map Step.call)).step .arrival
      (.openGate "gate")
    ((∀ c ∈ [first, second, third], c.id = ⟨"id"⟩ ∧ c.handler.gate? = some "gate") ∧
      "gate" ∉ s.opened ∧ s.coordinator.memo.Vacant s.now ⟨"id"⟩) ∧
    s.coordinator.Counts t.coordinator 3 3 2 ∧
    (t.since s).filterMap Event.starter? = [first, follower, second] ∧
    (t.since s).filterMap Event.answer? = [(leader, .error (.internal (.undeclared ["lost"]))),
      (first, .error (.internal (.thrown .foreign))), (follower, .ok 7), (second, .ok 8),
      (third, .ok 8)] ∧
    ¬ s.Cascade ⟨"id"⟩ [first, second, third] t := by
  intro leader follower first second third s t
  have closed : s.opened = [] := by
    simp only [s, leader, follower]
    cbv
  have free : s.coordinator.memo.slots.find? ⟨"id"⟩ = none := by
    simp only [s, leader, follower]
    cbv
  -- What the run counts and tells is read off one evaluation of it.
  obtain ⟨started, answered, hits, misses, executions, waits, rollbacks⟩ :
      (t.since s).filterMap Event.starter? = [first, follower, second] ∧
      (t.since s).filterMap Event.answer? =
        [(leader, .error (.internal (.undeclared ["lost"]))),
          (first, .error (.internal (.thrown .foreign))), (follower, .ok 7), (second, .ok 8),
          (third, .ok 8)] ∧
      t.coordinator.hits = s.coordinator.hits ∧
      t.coordinator.misses = s.coordinator.misses + 3 ∧
      t.coordinator.executions = s.coordinator.executions + 3 ∧
      t.coordinator.waits = s.coordinator.waits + 3 ∧
      t.coordinator.rollbacks = s.coordinator.rollbacks + 2 := by
    simp only [t, s, leader, follower, first, second, third, List.map_cons, List.map_nil]
    cbv
  refine ⟨⟨?_, ?_, ?_⟩, ⟨hits, misses, executions, waits, rollbacks⟩, started, answered,
    fun cascade => ?_⟩
  · simp [first, second, third, Handler.gate?]
  · simp [closed]
  · exact fun slot hslot => absurd (free.symm.trans hslot) (Option.some_ne_none slot).symm
  · have hmem : follower ∈ [first, second, third] := by
      refine cascade.mem_of_starter ?_
      rw [started]
      simp
    simp [follower, first, second, third] at hmem

end AtMostOnce.Session
