import AtMostOnce.Proofs.Memo.Live
import AtMostOnce.Proofs.Session.Lockstep
import AtMostOnce.Proofs.Session.Progress
import AtMostOnce.Proofs.Session.Tally

/-! Callers of one id gather. The first of them starts its handler, which comes to a closed gate,
and the others wait. Sweeps pass them by. -/
namespace AtMostOnce
variable {V : Type}

/-- Whose handler the event starts. -/
def Event.starter? : Event V → Option (Call V)
  | .claimed _ c (.execute _) => some c
  | _ => none

/-- Who is answered, and what. -/
def Event.answer? : Event V → Option (Call V × Answer V)
  | .finished c answer => some (c, answer)
  | _ => none

/-- Nobody has claimed the id, and no outcome of it is live. -/
def Memo.Vacant {M : Type} (m : Memo V M) (now : Instant) (id : RequestId) : Prop :=
  ∀ slot, m.slots.find? id = some slot → ∃ e, slot = .committed e ∧ e.isExpired m.ttl now = true

theorem Memo.Vacant.lookup {M : Type} {m : Memo V M} {now : Instant} {id : RequestId}
    (h : m.Vacant now id) (marker : M) :
    ∃ m', m.lookup now id marker = (.claimed m.nextGeneration, m') ∧
      m'.slots.find? id = some (.claimed m.nextGeneration marker) ∧
      m'.nextGeneration = m.nextGeneration + 1 := by
  have inserted : ∀ t : Table RequestId (Slot V M),
      (t.insert id (.claimed m.nextGeneration marker)).find? id =
        some (.claimed m.nextGeneration marker) := by
    intro t
    rw [Table.find?_insert, if_pos rfl]
  unfold Memo.lookup
  cases hf : m.slots.find? id with
  | none => exact ⟨_, rfl, inserted _, rfl⟩
  | some slot =>
    obtain ⟨e, rfl, hx⟩ := h slot hf
    dsimp only
    rw [if_pos hx]
    exact ⟨_, rfl, inserted _, rfl⟩

/-- What has been counted between two states of a coordinator. There have been no hits. -/
structure Coordinator.Counts (k k' : Coordinator V) (starts waits rollbacks : Nat) : Prop where
  hits : k'.hits = k.hits
  misses : k'.misses = k.misses + starts
  executions : k'.executions = k.executions + starts
  waits : k'.waits = k.waits + waits
  rollbacks : k'.rollbacks = k.rollbacks + rollbacks

namespace Session
open Activity
variable {s t u v : Session V} {c h : Call V} {n : Nat}

theorem filterMap_answers (cs : List (Call V)) (o : Outcome V) :
    (answers cs o).reverse.filterMap Event.starter? = [] ∧
      (answers cs o).reverse.filterMap Event.answer? = cs.map fun c => (c, c.answer o) := by
  rw [answers, List.reverse_reverse, List.filterMap_map, List.filterMap_map]
  exact ⟨List.filterMap_eq_nil_iff.mpr fun _ _ => rfl, List.filterMap_eq_map ▸ rfl⟩

/-- What has happened before is not told again. -/
theorem since_append (h : s.events <:+ u.events) (h' : u.events <:+ v.events) :
    v.since s = u.since s ++ v.since u := by
  obtain ⟨told, hu⟩ := h
  obtain ⟨told', hv⟩ := h'
  have hall : v.events = (told' ++ told) ++ s.events := by
    rw [← hv, ← hu, List.append_assoc]
  rw [since_of_append hall, since_of_append hu.symm, since_of_append hv.symm, List.reverse_append]

/-- From `s` to `u` these callers have started their handlers, these answers have been given, and
this has been counted, all at one instant. -/
structure Goes (s u : Session V) (starters : List (Call V)) (answers : List (Call V × Answer V))
    (waits rollbacks : Nat) : Prop where
  counts : s.coordinator.Counts u.coordinator starters.length waits rollbacks
  suffix : s.events <:+ u.events
  started : (u.since s).filterMap Event.starter? = starters
  answered : (u.since s).filterMap Event.answer? = answers
  now : u.now = s.now

namespace Goes
variable {cs cs' : List (Call V)} {as as' : List (Call V × Answer V)} {w w' b b' : Nat}

theorem of_told (counts : s.coordinator.Counts u.coordinator cs.length w b)
    (told : List (Event V)) (logged : u.events = told ++ s.events)
    (started : told.reverse.filterMap Event.starter? = cs)
    (answered : told.reverse.filterMap Event.answer? = as) (now : u.now = s.now) :
    s.Goes u cs as w b where
  counts := counts
  suffix := ⟨told, logged.symm⟩
  started := by rw [since_of_append logged, started]
  answered := by rw [since_of_append logged, answered]
  now := now

theorem trans (h : s.Goes u cs as w b) (h' : u.Goes v cs' as' w' b') :
    s.Goes v (cs ++ cs') (as ++ as') (w + w') (b + b') where
  counts := by
    obtain ⟨hits, misses, executions, waits, rollbacks⟩ := h.counts
    obtain ⟨hits', misses', executions', waits', rollbacks'⟩ := h'.counts
    rw [List.length_append]
    constructor <;> omega
  suffix := h.suffix.trans h'.suffix
  started := by
    rw [since_append h.suffix h'.suffix, List.filterMap_append, h.started, h'.started]
  answered := by
    rw [since_append h.suffix h'.suffix, List.filterMap_append, h.answered, h'.answered]
  now := h'.now.trans h.now

end Goes

/-- The handler of `h` has been started as execution `n`, and `ws` have begun to wait for it. -/
structure Gathered (s : Session V) (h : Call V) (n : Nat) (ws : List (Call V)) (u : Session V) :
    Prop where
  goes : s.Goes u [h] [] ws.length 0
  fresh : s.coordinator.memo.nextGeneration ≤ n
  issued : n < u.coordinator.memo.nextGeneration
  claimed : u.coordinator.memo.slots.find? h.id = some (.claimed n n)
  waiters : u.waiters = s.waiters ++ ws.map fun c => ⟨c, n⟩

theorem claim_frame (s : Session V) (c : Call V) :
    (s.claim c).2.parked = s.parked ∧ (s.claim c).2.opened = s.opened := by
  rcases hl : s.coordinator.memo.lookup s.now c.id s.coordinator.memo.nextGeneration
    with ⟨answer, m⟩
  cases answer with
  | live o =>
    rw [claim_of_live hl]
    exact ⟨rfl, rfl⟩
  | pending n =>
    rw [claim_of_pending hl]
    exact ⟨rfl, rfl⟩
  | claimed n =>
    rw [claim_of_claimed hl]
    exact ⟨rfl, rfl⟩

theorem claimAll_frame (s : Session V) (cs : List (Call V)) :
    (s.claimAll cs).2.parked = s.parked ∧ (s.claimAll cs).2.opened = s.opened := by
  induction cs generalizing s with
  | nil => exact ⟨rfl, rfl⟩
  | cons c cs ih =>
    obtain ⟨hparked, hopened⟩ := claim_frame s c
    obtain ⟨hparked', hopened'⟩ := ih (s.claim c).2
    exact ⟨hparked'.trans hparked, hopened'.trans hopened⟩

/-- The first to claim a vacant id starts its handler. -/
theorem gathered_claim (vacant : s.coordinator.memo.Vacant s.now h.id) :
    let n := s.coordinator.memo.nextGeneration
    (s.claim h).1 = some { call := h, number := n } ∧ s.Gathered h n [] (s.claim h).2 := by
  intro n
  obtain ⟨m, hl, hclaimed, hnext⟩ := vacant.lookup n
  rw [claim_of_claimed hl]
  refine ⟨rfl, ⟨.of_told ⟨rfl, rfl, rfl, rfl, rfl⟩ [_] rfl rfl rfl rfl, Nat.le_refl n, ?_, hclaimed,
    (List.append_nil _).symm⟩⟩
  show n < m.nextGeneration
  omega

namespace Gathered
variable {ws : List (Call V)}

/-- Whoever claims next waits as well. -/
theorem claim (g : s.Gathered h n ws u) (hid : c.id = h.id) :
    (u.claim c).1 = none ∧ s.Gathered h n (ws ++ [c]) (u.claim c).2 := by
  have hl : u.coordinator.memo.lookup u.now c.id u.coordinator.memo.nextGeneration = (.pending n,
      { u.coordinator.memo with nextGeneration := u.coordinator.memo.nextGeneration + 1 }) := by
    unfold Memo.lookup
    rw [hid, g.claimed]
  rw [claim_of_pending hl]
  refine ⟨rfl, ⟨?_, g.fresh, Nat.lt_succ_of_lt g.issued, g.claimed, ?_⟩⟩
  · have one : u.Goes { u with
        coordinator := { u.coordinator with
          memo := { u.coordinator.memo with
            nextGeneration := u.coordinator.memo.nextGeneration + 1 }
          waits := u.coordinator.waits + 1 }
        waiters := u.waiters ++ [⟨c, n⟩]
        events := .claimed u.now c (.wait n) :: u.events } [] [] 1 0 :=
      .of_told ⟨rfl, rfl, rfl, rfl, rfl⟩ [_] rfl rfl rfl rfl
    rw [List.length_append]
    exact g.goes.trans one
  · show u.waiters ++ _ = _
    rw [g.waiters, List.map_append, List.append_assoc]
    rfl

theorem claimAll (g : s.Gathered h n ws u) {cs : List (Call V)} (hids : ∀ c ∈ cs, c.id = h.id) :
    (u.claimAll cs).1 = [] ∧ s.Gathered h n (ws ++ cs) (u.claimAll cs).2 := by
  induction cs generalizing ws u with
  | nil =>
    rw [List.append_nil]
    exact ⟨rfl, g⟩
  | cons c cs ih =>
    obtain ⟨hnone, g⟩ := g.claim (hids c List.mem_cons_self)
    obtain ⟨hnil, g⟩ := ih g fun c' hc' => hids c' (List.mem_cons_of_mem _ hc')
    rw [List.append_assoc] at g
    refine ⟨?_, g⟩
    show (u.claim c).1.toList ++ ((u.claim c).2.claimAll cs).1 = []
    rw [hnone, hnil]
    rfl

end Gathered

/-- The first of several callers starts its handler, and the others wait. -/
theorem gathered_claimAll {ws : List (Call V)} (vacant : s.coordinator.memo.Vacant s.now h.id)
    (hids : ∀ c ∈ ws, c.id = h.id) :
    let n := s.coordinator.memo.nextGeneration
    (s.claimAll (h :: ws)).1 = [{ call := h, number := n }] ∧
      s.Gathered h n ws (s.claimAll (h :: ws)).2 := by
  intro n
  obtain ⟨hsome, hfirst⟩ := gathered_claim vacant
  obtain ⟨hnil, hrest⟩ := hfirst.claimAll hids
  refine ⟨?_, hrest⟩
  show (s.claim h).1.toList ++ ((s.claim h).2.claimAll ws).1 = _
  rw [hsome, hnil]
  rfl

/-- An execution that releases nobody is all that there is to do. -/
theorem settle_of_nil {e : Execution V} (h : (s.proceed e).1 = []) (σ : Schedule V) :
    s.settle σ [e] = (s.proceed e).2 := by
  rw [← proceedAll_singleton] at h ⊢
  exact settle_of_released_nil σ h

/-- Sweeps drop outcomes whose time is over, and do nothing else. -/
theorem goes_sweep (s : Session V) : s.Goes s.sweep [] [] 0 0 := by
  obtain ⟨memo, hk⟩ := Counted.memo_sweep s
  refine .of_told ?_ [] rfl rfl rfl rfl
  rw [hk]
  exact ⟨rfl, rfl, rfl, rfl, rfl⟩

section sweep
variable {maxSize ttl : Nat}

theorem claims_sweep (kept : Kept { session := s }) :
    s.sweep.coordinator.memo.ledger.claims = s.coordinator.memo.ledger.claims ∧
      s.sweep.coordinator.memo.nextGeneration = s.coordinator.memo.nextGeneration := by
  obtain ⟨-, hl | hl⟩ := sound_sweep kept.memo
  · exact ⟨congrArg Ledger.claims hl, congrArg Ledger.nextGeneration hl⟩
  · constructor
    · rw [hl]
      rfl
    · show s.sweep.coordinator.memo.ledger.nextGeneration = _
      rw [hl]
      rfl

theorem claimed_sweep (kept : Kept { session := s }) {id : RequestId} {g marker : Nat} :
    s.sweep.coordinator.memo.slots.find? id = some (.claimed g marker) ↔
      s.coordinator.memo.slots.find? id = some (.claimed g marker) := by
  rw [← Memo.find?_claims_eq_some_iff, ← Memo.find?_claims_eq_some_iff, (claims_sweep kept).1]

theorem free_sweep (kept : Kept { session := s }) {id : RequestId}
    (free : s.coordinator.memo.slots.find? id = none) :
    s.sweep.coordinator.memo.slots.find? id = none := by
  obtain ⟨sound, hl⟩ := sound_sweep kept.memo
  cases hslot : s.sweep.coordinator.memo.slots.find? id with
  | none => rfl
  | some slot =>
    cases slot with
    | claimed g marker =>
      rw [claimed_sweep kept, free] at hslot
      cases hslot
    | committed e =>
      have held : ⟨id, e.outcome, e.writtenAt⟩ ∈ s.sweep.coordinator.memo.ledger.written :=
        (sound.mem_written_iff _).mpr ⟨e.seq, hslot⟩
      have before : ⟨id, e.outcome, e.writtenAt⟩ ∈ s.coordinator.memo.ledger.written := by
        rcases hl with hl | hl
        · exact hl ▸ held
        · rw [hl] at held
          exact (List.dropWhile_sublist _).subset held
      obtain ⟨seq, hseq⟩ := (kept.memo.mem_written_iff _).mp before
      exact absurd (free.symm.trans hseq) (Option.some_ne_none _).symm

theorem live_sweep (kept : Kept { session := s }) {id : RequestId} {o : Outcome V} {seq : Nat}
    (held : s.coordinator.memo.slots.find? id = some (.committed ⟨o, s.now, seq⟩))
    (live : 0 < s.coordinator.memo.ttl) :
    ∃ seq', s.sweep.coordinator.memo.slots.find? id = some (.committed ⟨o, s.now, seq'⟩) := by
  obtain ⟨sound, hl⟩ := sound_sweep kept.memo
  let w : Written V := ⟨id, o, s.now⟩
  have hlive : w.isExpired s.coordinator.memo.ledger.ttl s.now = false := by
    unfold Written.isExpired
    rw [Nat.sub_self]
    exact decide_eq_false (Nat.not_le.mpr live)
  have before : s.coordinator.memo.ledger.live? s.now id = some w :=
    (Ledger.live?_eq_some_iff kept.ledger s.now id w).mpr
      ⟨(kept.memo.mem_written_iff w).mpr ⟨seq, held⟩, rfl, hlive⟩
  have after : w ∈ s.sweep.coordinator.memo.ledger.written := by
    rcases hl with hl | hl
    · rw [hl]
      exact (kept.memo.mem_written_iff w).mpr ⟨seq, held⟩
    · have hpurge : (s.coordinator.memo.ledger.purge s.now).2.live? s.now id = some w :=
        (Ledger.live?_purge kept.ledger).trans before
      rw [hl]
      exact List.mem_of_find?_eq_some hpurge
  exact (sound.mem_written_iff w).mp after

theorem Gathered.sweep {ws : List (Call V)} (g : s.Gathered h n ws u)
    (kept : Kept { session := u }) : s.Gathered h n ws u.sweep where
  goes := g.goes.trans (goes_sweep u)
  fresh := g.fresh
  issued := by
    rw [(claims_sweep kept).2]
    exact g.issued
  claimed := (claimed_sweep kept).mpr g.claimed
  waiters := g.waiters

end sweep

/-- Callers of a vacant id gather: the first one comes to the gate, and the others wait for it. -/
theorem gathered_run {maxSize ttl : Nat} (reached : Reachable maxSize ttl { session := s })
    (vacant : s.coordinator.memo.Vacant s.now h.id) (σ : Schedule V)
    (hclosed : ∀ n, (Execution.closedGate? { call := h, number := n } s.opened).isSome = true)
    {ws : List (Call V)} (hids : ∀ c ∈ ws, c.id = h.id) :
    let n := s.coordinator.memo.nextGeneration
    let u := s.run σ ((h :: ws).map Step.call)
    s.Gathered h n ws u ∧ u.parked = s.parked ++ [{ call := h, number := n }] ∧
      u.opened = s.opened := by
  intro n u
  induction ws using List.reverseRecOn with
  | nil =>
    obtain ⟨hsome, g⟩ := gathered_claim vacant
    obtain ⟨hparked, hopened⟩ := claim_frame s h
    have hproceed := proceed_of_closed (s := (s.claim h).2) (hopened ▸ hclosed n)
    have hact : s.act σ (.call h) = { (s.claim h).2 with
        parked := (s.claim h).2.parked ++ [{ call := h, number := n }] } := by
      show (s.claim h).2.settle σ (s.claim h).1.toList = _
      rw [hsome]
      show (s.claim h).2.settle σ [{ call := h, number := n }] = _
      rw [settle_of_nil (by rw [hproceed]), hproceed]
    have acted : s.Gathered h n [] (s.act σ (.call h)) := by
      rw [hact]
      exact ⟨⟨g.goes.counts, g.goes.suffix, g.goes.started, g.goes.answered, g.goes.now⟩, g.fresh,
        g.issued, g.claimed, g.waiters⟩
    have reachedₐ : Reachable maxSize ttl { session := s.act σ (.call h) } :=
      reached.trans (moves_act σ s (.call h))
    refine ⟨acted.sweep reachedₐ.accounted.1, ?_, ?_⟩
    · show (s.act σ (.call h)).parked = _
      rw [hact, ← hparked]
    · show (s.act σ (.call h)).opened = _
      rw [hact]
      exact hopened
  | append_singleton ws c ih =>
    obtain ⟨g, hparked, hopened⟩ := ih fun c' hc' => hids c' (List.mem_append_left _ hc')
    obtain ⟨hnone, g⟩ := g.claim (hids c (List.mem_append_right _ (List.mem_singleton.mpr rfl)))
    let t := s.run σ ((h :: ws).map Step.call)
    obtain ⟨hparked', hopened'⟩ := claim_frame t c
    have hact : t.act σ (.call c) = (t.claim c).2 := by
      show (t.claim c).2.settle σ (t.claim c).1.toList = _
      rw [hnone]
      exact settle_nil σ _
    have hu : u = (t.act σ (.call c)).sweep := by
      simp only [u]
      rw [← List.cons_append, List.map_append]
      exact run_concat σ s _ _
    have reachedₐ : Reachable maxSize ttl { session := t.act σ (.call c) } :=
      (reached.trans (moves_run σ s _)).trans (moves_act σ t (.call c))
    rw [hact] at hu reachedₐ
    rw [hu]
    exact ⟨g.sweep reachedₐ.accounted.1, hparked'.trans hparked, hopened'.trans hopened⟩

/-- The gate is opened, and the execution that stands there goes on. -/
theorem begin_openGate {e : Execution V} {gate : String} (closed : gate ∉ u.opened)
    (hparked : u.parked = s.parked ++ [e]) (hgate : e.call.handler.gate? = some gate)
    (alone : ∀ e ∈ s.parked, e.call.handler.gate? ≠ some gate) :
    begin u (.openGate gate) =
      ⟨{ u with opened := gate :: u.opened, parked := s.parked }, [e], []⟩ := by
  have stands : e.closedGate? u.opened = some gate := by
    rw [Execution.closedGate?, hgate]
    simp [closed]
  have elsewhere : ∀ e' ∈ s.parked, e'.closedGate? u.opened ≠ some gate := by
    intro e' he' heq
    exact alone e' he' (Option.filter_eq_some_iff.mp heq).1
  have hothers : (s.parked.filter fun e => e.closedGate? u.opened = some gate) = [] := by
    rw [List.filter_eq_nil_iff]
    intro e' he'
    simpa using elsewhere e' he'
  have hstay : (s.parked.filter (not ∘ fun e => decide (e.closedGate? u.opened = some gate))) =
      s.parked := by
    rw [List.filter_eq_self]
    intro e' he'
    simpa using elsewhere e' he'
  show Activity.openGate { session := u } gate = _
  unfold Activity.openGate
  dsimp only
  rw [List.partition_eq_filter_filter, hparked, List.filter_append, List.filter_append, hothers,
    hstay]
  simp [stands]

theorem inFlight_eq_length {maxSize ttl : Nat} (h : Reachable maxSize ttl { session := s }) :
    s.coordinator.memo.inFlight = s.parked.length := by
  have hlength := h.accounted.2.claims.length_eq
  rw [Memo.inFlight_eq_size]
  simp only [running, unsettled, List.append_nil, List.length_map] at hlength
  exact hlength.symm

theorem older_of_reachable {maxSize ttl : Nat} (h : Reachable maxSize ttl { session := s }) :
    ∀ w ∈ s.waiters, w.number < s.coordinator.memo.nextGeneration := by
  intro w hw
  obtain ⟨-, k, hk, -, hn⟩ := h.attended.waiting w hw
  obtain ⟨-, hstarted, -⟩ := h.accounted.2.begun k hk
  rw [← hn]
  exact h.accounted.2.issued k.1 k.2 hstarted

end Session
end AtMostOnce
