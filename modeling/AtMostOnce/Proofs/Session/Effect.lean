import AtMostOnce.Proofs.Memo.Refinement
import AtMostOnce.Proofs.Session.Activity

/-! What a session can do, told by its ledger, its log and the handlers that have not ended. All
invariants of sessions are derived from this account. -/
namespace AtMostOnce

/-- The start or the end of an execution. -/
def Event.isMilestone {V : Type} : Event V → Bool
  | .claimed _ _ (.execute _) => true
  | .committed .. => true
  | .rolledBack .. => true
  | _ => false

/-- Nothing that a caller has done or been told. -/
def Event.isNoise {V : Type} : Event V → Bool
  | .dropped .. => true
  | .purged _ => true
  | _ => false

/-- An execution apart from whether its caller is still there. -/
def Execution.key {V : Type} (e : Execution V) : Call V × Nat := (e.call, e.number)

theorem Execution.key_leave {V : Type} (name : String) (e : Execution V) :
    (e.leave name).key = e.key := by
  unfold Execution.leave
  split <;> rfl

theorem Execution.call_leave {V : Type} (name : String) (e : Execution V) :
    (e.leave name).call = e.call := congrArg Prod.fst (e.key_leave name)

namespace Activity
variable {V : Type}

def memo (a : Activity V) : Memo V Nat := a.session.coordinator.memo

def ledger (a : Activity V) : Ledger V Nat := a.memo.ledger

def now (a : Activity V) : Instant := a.session.now

def log (a : Activity V) : List (Event V) := a.session.events

/-- The starts and ends of executions, the latest first. -/
def milestones (a : Activity V) : List (Event V) := a.log.filter Event.isMilestone

/-- What callers are told when an outcome is remembered, the latest first. -/
def answers (cs : List (Call V)) (o : Outcome V) : List (Event V) :=
  (cs.map fun c => .finished c (c.answer o)).reverse

end Activity

namespace Session
open Activity
variable {V : Type} {s : Session V}

theorem foldl_note (calls : List (Call V)) (event : Call V → Event V) (s : Session V) :
    calls.foldl (fun s c => s.note (event c)) s =
      { s with events := (calls.map event).reverse ++ s.events } := by
  induction calls generalizing s with
  | nil => rfl
  | cons c cs ih =>
    rw [List.foldl_cons, ih, List.map_cons, List.reverse_cons, List.append_assoc]
    rfl

section
variable {c : Call V} {m : Memo V Nat}

theorem claim_of_live {o : Outcome V}
    (h : s.coordinator.memo.lookup s.now c.id s.coordinator.memo.nextGeneration = (.live o, m)) :
    s.claim c = (none, { s with
      coordinator := { s.coordinator with memo := m, hits := s.coordinator.hits + 1 }
      events := .finished c (c.answer o) :: .claimed s.now c (.replay o) :: s.events }) := by
  unfold claim Coordinator.claim
  rw [h]
  rfl

theorem claim_of_pending {n : Nat}
    (h : s.coordinator.memo.lookup s.now c.id s.coordinator.memo.nextGeneration =
      (.pending n, m)) :
    s.claim c = (none, { s with
      coordinator := { s.coordinator with memo := m, waits := s.coordinator.waits + 1 }
      waiters := s.waiters ++ [⟨c, n⟩]
      events := .claimed s.now c (.wait n) :: s.events }) := by
  unfold claim Coordinator.claim
  rw [h]
  rfl

theorem claim_of_claimed {n : Nat}
    (h : s.coordinator.memo.lookup s.now c.id s.coordinator.memo.nextGeneration =
      (.claimed n, m)) :
    s.claim c = (some { call := c, number := n }, { s with
      coordinator := { s.coordinator with
        memo := m
        misses := s.coordinator.misses + 1
        executions := s.coordinator.executions + 1 }
      events := .claimed s.now c (.execute n) :: s.events }) := by
  unfold claim Coordinator.claim
  rw [h]
  rfl

end

section
variable {e : Execution V}

theorem proceed_of_closed (h : (e.closedGate? s.opened).isSome = true) :
    s.proceed e = ([], { s with parked := s.parked ++ [e] }) := by
  unfold proceed
  rw [if_pos h]

theorem proceed_of_ok {o : Outcome V} (h : (e.closedGate? s.opened).isSome = false)
    (result : e.call.handler.result = .ok o) :
    s.proceed e = ([], { s with
      coordinator := s.coordinator.commit s.now e.call.id e.number o
      waiters := s.waiters.filter fun w => w.number ≠ e.number
      events := answers (e.caller ++ s.waitingOn e.number) o ++
        .committed s.now e.call.id e.number o :: s.events }) := by
  unfold proceed
  rw [h, if_neg Bool.false_ne_true, result]
  dsimp only
  unfold commit
  dsimp only
  rw [foldl_note]
  rfl

theorem proceed_of_error {f : Breakdown} (h : (e.closedGate? s.opened).isSome = false)
    (result : e.call.handler.result = .error f) :
    s.proceed e = (s.waitingOn e.number, { s with
      coordinator := s.coordinator.rollBack e.call.id e.number
      waiters := s.waiters.filter fun w => w.number ≠ e.number
      events := (e.caller.map fun c => .finished c (.error (.internal f))) ++
        .rolledBack s.now e.call.id e.number (s.waitingOn e.number).length :: s.events }) := by
  have hrev : (e.caller.map fun c => Event.finished c (.error (.internal f))).reverse =
      e.caller.map fun c => Event.finished (V := V) c (.error (.internal f)) := by
    unfold Execution.caller
    split <;> rfl
  unfold proceed
  rw [h, if_neg Bool.false_ne_true, result]
  dsimp only
  unfold rollBack
  dsimp only
  rw [foldl_note, hrev]
  rfl

end
end Session

namespace Activity
variable {V : Type}

inductive Effect (a b : Activity V) : Prop where
  | start (c : Call V) (n : Nat)
    (looked : a.ledger.lookup a.now c.id n = (.claimed n, b.ledger))
    (logged : b.log = .claimed a.now c (.execute n) :: a.log)
    (unsettled : b.unsettled = a.unsettled ++ [⟨c, n, true⟩])
    (waiters : b.session.waiters = a.session.waiters) (clock : b.now = a.now)
  | wait (c : Call V) (n : Nat)
    (looked : a.ledger.lookup a.now c.id a.ledger.nextGeneration = (.pending n, b.ledger))
    (logged : b.log = .claimed a.now c (.wait n) :: a.log)
    (unsettled : b.unsettled = a.unsettled)
    (waiters : b.session.waiters = a.session.waiters ++ [⟨c, n⟩]) (clock : b.now = a.now)
  | replay (c : Call V) (o : Outcome V)
    (looked : a.ledger.lookup a.now c.id a.ledger.nextGeneration = (.live o, b.ledger))
    (logged : b.log = .finished c (c.answer o) :: .claimed a.now c (.replay o) :: a.log)
    (unsettled : b.unsettled = a.unsettled)
    (waiters : b.session.waiters = a.session.waiters) (clock : b.now = a.now)
  | commit (e : Execution V) (o : Outcome V) (result : e.call.handler.result = .ok o)
    (unsettled : a.unsettled.Perm (e :: b.unsettled))
    (ledger : b.ledger = a.ledger.commit a.now e.call.id e.number o)
    (logged : b.log = answers (e.caller ++ a.session.waitingOn e.number) o ++
      .committed a.now e.call.id e.number o :: a.log)
    (waiters : b.session.waiters = a.session.waiters.filter fun w => w.number ≠ e.number)
    (clock : b.now = a.now)
  | rollBack (e : Execution V) (f : Breakdown) (result : e.call.handler.result = .error f)
    (unsettled : a.unsettled.Perm (e :: b.unsettled))
    (ledger : b.ledger = a.ledger.release e.call.id e.number)
    (logged : b.log = (e.caller.map fun c => .finished c (.error (.internal f))) ++
      .rolledBack a.now e.call.id e.number (a.session.waitingOn e.number).length :: a.log)
    (waiters : b.session.waiters = a.session.waiters.filter fun w => w.number ≠ e.number)
    (clock : b.now = a.now)
  | quiet (noise : List (Event V)) (silent : ∀ ev ∈ noise, ev.isNoise = true)
    (logged : b.log = noise ++ a.log)
    (unsettled : (b.unsettled.map Execution.key).Perm (a.unsettled.map Execution.key))
    (ledger : b.ledger = a.ledger ∨ b.ledger = (a.ledger.purge b.now).2)
    (waiters : b.session.waiters.Sublist a.session.waiters) (clock : a.now ≤ b.now)

/-- A memory whose order of writes is in step, and whose ledger is sound. -/
structure Kept (a : Activity V) : Prop where
  memo : a.memo.Sound
  ledger : a.ledger.Sound

section
variable {a b : Activity V}

theorem Kept.claim (h : a.Kept) (c : Call V) (cs : List (Call V)) :
    Kept ⟨(a.session.claim c).2, a.ready ++ (a.session.claim c).1.toList, cs⟩ ∧
      Effect a ⟨(a.session.claim c).2, a.ready ++ (a.session.claim c).1.toList, cs⟩ := by
  obtain ⟨hs, he⟩ := h.memo.lookup h.ledger a.now c.id a.memo.nextGeneration
  have hl := h.ledger.lookup a.now c.id a.memo.nextGeneration
  change a.ledger.lookup a.now c.id a.memo.nextGeneration = _ at he
  rw [he] at hl
  rcases hd : a.memo.lookup a.now c.id a.memo.nextGeneration with ⟨answer, m⟩
  rw [hd] at hs hl he
  cases answer with
  | live o =>
    rw [Session.claim_of_live hd]
    exact ⟨⟨hs, hl⟩, .replay c o he rfl (by simp [Activity.unsettled]) rfl rfl⟩
  | pending n =>
    rw [Session.claim_of_pending hd]
    exact ⟨⟨hs, hl⟩, .wait c n he rfl (by simp [Activity.unsettled]) rfl rfl⟩
  | claimed n =>
    have hn : a.memo.nextGeneration = n := (Ledger.lookup_of_claimed h.ledger he).1.symm
    rw [Session.claim_of_claimed hd]
    rw [hn] at he
    refine ⟨⟨hs, hl⟩, .start c n he rfl ?_ rfl rfl⟩
    simp [Activity.unsettled]

theorem Kept.proceed (h : a.Kept) (e : Execution V) (es : List (Execution V))
    (hr : a.ready.Perm (e :: es)) :
    Kept ⟨(a.session.proceed e).2, es, a.claimants ++ (a.session.proceed e).1⟩ ∧
      Effect a ⟨(a.session.proceed e).2, es, a.claimants ++ (a.session.proceed e).1⟩ := by
  have hu : a.unsettled.Perm (e :: (a.session.parked ++ es)) :=
    (hr.append_left a.session.parked).trans List.perm_middle
  cases hg : (e.closedGate? a.session.opened).isSome with
  | true =>
    rw [Session.proceed_of_closed hg]
    refine ⟨⟨h.memo, h.ledger⟩, .quiet [] (by simp) rfl ?_ (.inl rfl) (List.Sublist.refl _)
      (Nat.le_refl _)⟩
    apply List.Perm.map
    show (a.session.parked ++ [e] ++ es).Perm a.unsettled
    rw [List.append_assoc]
    exact (hr.append_left a.session.parked).symm
  | false =>
    cases hres : e.call.handler.result with
    | ok o =>
      obtain ⟨hs, he⟩ := h.memo.commit a.now e.call.id e.number o
      have hl := h.ledger.commit a.now e.call.id e.number o
      rw [show a.ledger = a.memo.ledger from rfl, ← he] at hl
      rw [Session.proceed_of_ok hg hres]
      exact ⟨⟨hs, hl⟩, .commit e o hres hu he rfl rfl rfl⟩
    | error f =>
      obtain ⟨hs, he⟩ := h.memo.release e.call.id e.number
      have hl := h.ledger.release e.call.id e.number
      rw [show a.ledger = a.memo.ledger from rfl, ← he] at hl
      rw [Session.proceed_of_error hg hres]
      exact ⟨⟨hs, hl⟩, .rollBack e f hres hu he rfl rfl rfl⟩

/-- Purges at one instant do as much as one of them. -/
theorem sound_sweep {s : Session V} (hs : s.coordinator.memo.Sound) :
    s.sweep.coordinator.memo.Sound ∧
      (s.sweep.coordinator.memo.ledger = s.coordinator.memo.ledger ∨
        s.sweep.coordinator.memo.ledger = (s.coordinator.memo.ledger.purge s.now).2) := by
  refine Sweep.purgeDue_invariant (P := fun k : Coordinator V => k.memo.Sound ∧
    (k.memo.ledger = s.coordinator.memo.ledger ∨
      k.memo.ledger = (s.coordinator.memo.ledger.purge s.now).2)) ?_ ⟨hs, .inl rfl⟩
  intro k ⟨sound, hl⟩
  obtain ⟨sound', he⟩ := sound.purge s.now
  have he' : (k.purge s.now).2.memo.ledger = (k.memo.ledger.purge s.now).2 :=
    (congrArg Prod.snd he).symm
  refine ⟨sound', .inr ?_⟩
  rcases hl with hl | hl
  · rw [he', hl]
  · rw [he', hl, Ledger.purge_purge]

theorem Kept.of_ledger (h : a.Kept) (hs : b.memo.Sound)
    (hl : b.ledger = a.ledger ∨ b.ledger = (a.ledger.purge b.now).2) : b.Kept := by
  refine ⟨hs, ?_⟩
  rcases hl with hl | hl
  · rw [hl]
    exact h.ledger
  · rw [hl]
    exact h.ledger.purge _

theorem Kept.openGate (h : a.Kept) (gate : String) :
    (a.openGate gate).Kept ∧ Effect a (a.openGate gate) := by
  refine ⟨⟨h.memo, h.ledger⟩, .quiet [] (by simp) rfl ?_ (.inl rfl) (List.Sublist.refl _)
    (Nat.le_refl _)⟩
  apply List.Perm.map
  show ((a.session.parked.partition _).2 ++ (a.ready ++ (a.session.parked.partition _).1)).Perm
    (a.session.parked ++ a.ready)
  rw [List.partition_eq_filter_filter]
  have hp := List.filter_append_perm
    (fun e : Execution V => decide (e.closedGate? a.session.opened = some gate)) a.session.parked
  refine (List.perm_append_comm.trans ?_).trans (hp.append_right a.ready)
  rw [List.append_assoc, List.append_assoc]
  exact List.perm_append_comm.trans (List.Perm.of_eq (List.append_assoc _ _ _))

theorem Kept.drop (h : a.Kept) (name : String) : (a.drop name).Kept ∧ Effect a (a.drop name) := by
  refine ⟨⟨h.memo, h.ledger⟩, .quiet [_] ?_ rfl ?_ (.inl rfl) List.filter_sublist (Nat.le_refl _)⟩
  · intro ev hev
    rw [List.mem_singleton.mp hev]
    rfl
  · have hk : ∀ es : List (Execution V),
        (es.map (Execution.leave name)).map Execution.key = es.map Execution.key := by
      intro es
      rw [List.map_map]
      exact List.map_congr_left fun e _ => Execution.key_leave name e
    show ((a.session.parked.map _ ++ a.ready.map _).map Execution.key).Perm
      ((a.session.parked ++ a.ready).map Execution.key)
    rw [List.map_append, hk, hk, ← List.map_append]

theorem Kept.quiet (h : a.Kept) (hs : b.memo.Sound)
    (hl : b.ledger = a.ledger ∨ b.ledger = (a.ledger.purge b.now).2) (noise : List (Event V))
    (silent : ∀ ev ∈ noise, ev.isNoise = true) (logged : b.log = noise ++ a.log)
    (hu : b.unsettled = a.unsettled) (hw : b.session.waiters = a.session.waiters)
    (clock : a.now ≤ b.now) : b.Kept ∧ Effect a b :=
  ⟨h.of_ledger hs hl, .quiet noise silent logged (List.Perm.of_eq (by rw [hu])) hl
    (hw ▸ List.Sublist.refl _) clock⟩

/-- Whatever happens in a session has one of the effects, and leaves its memory sound. -/
theorem Kept.move (h : a.Kept) (hm : Move a b) : b.Kept ∧ Effect a b := by
  cases hm with
  | arrive c => exact h.quiet h.memo (.inl rfl) [] (by simp) rfl rfl rfl (Nat.le_refl _)
  | claim c cs hc => exact h.claim c cs
  | proceed e es hr => exact h.proceed e es hr
  | openGate gate => exact h.openGate gate
  | drop name => exact h.drop name
  | advance d => exact h.quiet h.memo (.inl rfl) [] (by simp) rfl rfl rfl (Nat.le_add_right _ _)
  | purge =>
    obtain ⟨hs, he⟩ := h.memo.purge a.now
    exact h.quiet hs (.inr (congrArg Prod.snd he).symm) [_] (by simp [Event.isNoise]) rfl rfl rfl
      (Nat.le_refl _)
  | sweep =>
    obtain ⟨hs, hl⟩ := sound_sweep h.memo
    exact h.quiet hs hl [] (by simp) rfl rfl rfl (Nat.le_refl _)
  | startSweep timer interval =>
    exact h.quiet h.memo (.inl rfl) [] (by simp) rfl rfl rfl (Nat.le_refl _)
  | stopSweeps => exact h.quiet h.memo (.inl rfl) [] (by simp) rfl rfl rfl (Nat.le_refl _)

theorem kept_new (maxSize ttl : Nat) :
    Kept { session := ({ coordinator := .new maxSize ttl } : Session V) } :=
  ⟨Memo.sound_new maxSize ttl, Ledger.sound_new maxSize ttl⟩

/-- An invariant of sessions: it holds at the start, and every effect keeps it. -/
theorem Reachable.induction {maxSize ttl : Nat} {P : Activity V → Prop}
    (start : P { session := { coordinator := .new maxSize ttl } })
    (step : ∀ a b, a.Kept → Effect a b → P a → P b) (h : Reachable maxSize ttl a) :
    a.Kept ∧ P a := by
  induction h with
  | refl => exact ⟨kept_new maxSize ttl, start⟩
  | tail _ hm ih =>
    obtain ⟨hk, he⟩ := ih.1.move hm
    exact ⟨hk, step _ _ ih.1 he ih.2⟩

theorem Effect.suffix (he : Effect a b) : a.log <:+ b.log := by
  cases he with
  | start c n looked logged => exact logged ▸ List.suffix_cons _ _
  | wait c n looked logged => exact logged ▸ List.suffix_cons _ _
  | replay c o looked logged => exact logged ▸ List.suffix_append [_, _] _
  | commit e o result unsettled ledger logged =>
    exact logged ▸ (List.suffix_cons _ _).trans (List.suffix_append _ _)
  | rollBack e f result unsettled ledger logged =>
    exact logged ▸ (List.suffix_cons _ _).trans (List.suffix_append _ _)
  | quiet noise silent logged => exact logged ▸ List.suffix_append _ _

/-- A log only grows. -/
theorem Kept.suffix (h : a.Kept) (hm : Relation.ReflTransGen Move a b) : a.log <:+ b.log := by
  have both : b.Kept ∧ a.log <:+ b.log := by
    induction hm with
    | refl => exact ⟨h, List.suffix_refl _⟩
    | tail _ hm ih =>
      obtain ⟨kept, effect⟩ := ih.1.move hm
      exact ⟨kept, ih.2.trans effect.suffix⟩
  exact both.2

end
end Activity
end AtMostOnce
