import AtMostOnce.Proofs.Session.Reflection

/-! Sessions of one id. Nothing is ever evicted there, since at most one outcome is held and it does
not have to make room for itself. -/
namespace AtMostOnce.Activity
variable {V : Type} {maxSize ttl : Nat} {a b : Activity V} {id : RequestId}

/-- Nothing in the session is of another id, and nothing has been evicted. -/
structure Alone (id : RequestId) (a : Activity V) : Prop where
  unsettled : ∀ e ∈ a.unsettled, e.call.id = id
  waiters : ∀ w ∈ a.session.waiters, w.call.id = id
  claimants : ∀ c ∈ a.claimants, c.id = id
  written : ∀ w ∈ a.ledger.written, w.id = id
  evictions : a.memo.evictions = 0

namespace Alone

theorem claim (h : a.Alone id) (kept : a.Kept) {c : Call V} {cs : List (Call V)}
    (hc : a.claimants.Perm (c :: cs)) :
    Alone id ⟨(a.session.claim c).2, a.ready ++ (a.session.claim c).1.toList, cs⟩ := by
  have kept' : Kept { session := a.session } := ⟨kept.memo, kept.ledger⟩
  obtain ⟨answer, m, hd, he, -⟩ := Session.exists_lookup kept' c
  have hid : c.id = id := h.claimants c (hc.mem_iff.mpr List.mem_cons_self)
  have claimants : ∀ c' ∈ cs, c'.id = id := fun c' hc' =>
    h.claimants c' (hc.mem_iff.mpr (List.mem_cons_of_mem _ hc'))
  have hsublist := a.ledger.written_lookup_sublist a.now c.id a.memo.nextGeneration
  have hevictions := a.ledger.evictions_lookup a.now c.id a.memo.nextGeneration
  change a.ledger.lookup a.now c.id a.memo.nextGeneration = _ at he
  rw [he] at hsublist hevictions
  have written : ∀ w ∈ m.ledger.written, w.id = id := fun w hw => h.written w (hsublist.subset hw)
  have evictions : m.evictions = 0 := hevictions.trans h.evictions
  cases answer with
  | live o =>
    rw [Session.claim_of_live hd]
    refine ⟨?_, h.waiters, claimants, written, evictions⟩
    simpa [Activity.unsettled] using h.unsettled
  | pending n =>
    rw [Session.claim_of_pending hd]
    refine ⟨?_, ?_, claimants, written, evictions⟩
    · simpa [Activity.unsettled] using h.unsettled
    · rw [List.forall_mem_append]
      exact ⟨h.waiters, by simpa using hid⟩
  | claimed n =>
    rw [Session.claim_of_claimed hd]
    refine ⟨?_, h.waiters, claimants, written, evictions⟩
    intro e he
    simp only [Activity.unsettled, ← List.append_assoc, List.mem_append] at he
    rcases he with he | he
    · exact h.unsettled e (List.mem_append.mpr he)
    · simp only [Option.toList, List.mem_singleton] at he
      rw [he]
      exact hid

/-- The id of an execution is claimed, so that no outcome of it is held. -/
theorem written_eq_nil (h : a.Alone id) (reached : Reachable maxSize ttl a) {e : Execution V}
    (he : e ∈ a.unsettled) : a.ledger.written = [] := by
  refine List.eq_nil_iff_forall_not_mem.mpr fun w hw => ?_
  have hfree := reached.accounted.1.ledger.apart w hw
  rw [h.written w hw, ← h.unsettled e he, reached.find?_claims he] at hfree
  cases hfree

theorem ledger_commit (h : a.Alone id) (reached : Reachable maxSize ttl a) {e : Execution V}
    (he : e ∈ a.unsettled) (o : Outcome V) :
    (a.memo.commit a.now e.call.id e.number o).ledger = { a.ledger with
      written := [⟨e.call.id, o, a.now⟩]
      claims := a.ledger.claims.erase e.call.id } := by
  obtain ⟨-, hl⟩ := reached.accounted.1.memo.commit a.now e.call.id e.number o
  have hcommit := Ledger.commit_of_claim (reached.find?_claims he) a.now o
  have empty := h.written_eq_nil reached he
  rw [Ledger.makeRoom_of_empty empty, empty, List.nil_append] at hcommit
  exact hl.trans hcommit

theorem proceed (h : a.Alone id) (reached : Reachable maxSize ttl a) {e : Execution V}
    {es : List (Execution V)} (hr : a.ready.Perm (e :: es)) :
    Alone id ⟨(a.session.proceed e).2, es, a.claimants ++ (a.session.proceed e).1⟩ := by
  have he : e ∈ a.unsettled := List.mem_append_right _ (hr.mem_iff.mpr List.mem_cons_self)
  have hid : e.call.id = id := h.unsettled e he
  have parked : ∀ e ∈ a.session.parked, e.call.id = id := fun e he =>
    h.unsettled e (List.mem_append_left _ he)
  have others : ∀ e ∈ es, e.call.id = id := fun e he =>
    h.unsettled e (List.mem_append_right _ (hr.mem_iff.mpr (List.mem_cons_of_mem _ he)))
  have unsettled : ∀ e ∈ a.session.parked ++ es, e.call.id = id :=
    List.forall_mem_append.mpr ⟨parked, others⟩
  have waiters : ∀ w ∈ a.session.waiters.filter (fun w => w.number ≠ e.number), w.call.id = id :=
    fun w hw => h.waiters w (List.mem_of_mem_filter hw)
  cases hg : (e.closedGate? a.session.opened).isSome with
  | true =>
    rw [Session.proceed_of_closed hg]
    refine ⟨?_, h.waiters, by simpa using h.claimants, h.written, h.evictions⟩
    simp only [Activity.unsettled, List.forall_mem_append, List.forall_mem_singleton]
    exact ⟨⟨parked, hid⟩, others⟩
  | false =>
    cases hres : e.call.handler.result with
    | ok o =>
      have hl := h.ledger_commit reached he o
      rw [Session.proceed_of_ok hg hres]
      refine ⟨unsettled, waiters, by simpa using h.claimants, ?_, ?_⟩
      · show ∀ w ∈ (a.memo.commit a.now e.call.id e.number o).ledger.written, w.id = id
        rw [hl]
        exact List.forall_mem_singleton.mpr hid
      · exact (congrArg Ledger.evictions hl).trans h.evictions
    | error f =>
      have hl := reached.ledger_release he
      rw [Session.proceed_of_error hg hres]
      refine ⟨unsettled, waiters, ?_, ?_, ?_⟩
      · rw [List.forall_mem_append]
        refine ⟨h.claimants, fun c hc => ?_⟩
        obtain ⟨w, hw, rfl⟩ := List.mem_map.mp hc
        exact h.waiters w (List.mem_of_mem_filter hw)
      · show ∀ w ∈ (a.memo.release e.call.id e.number).ledger.written, w.id = id
        rw [hl]
        exact h.written
      · exact (congrArg Ledger.evictions hl).trans h.evictions

theorem work (h : a.Alone id) (reached : Reachable maxSize ttl a) (hw : Work a b) : b.Alone id := by
  cases hw with
  | claim c cs hc => exact h.claim reached.accounted.1 hc
  | proceed e es hr => exact h.proceed reached hr

theorem works (h : a.Alone id) (reached : Reachable maxSize ttl a)
    (hw : Relation.ReflTransGen Work a b) : b.Alone id := by
  induction hw with
  | refl => exact h
  | tail works hw ih => exact ih.work (reached.works works) hw

theorem ready_eq_nil (h : a.Alone id) (hnone : executionsOf id a.ready = []) : a.ready = [] := by
  refine List.eq_nil_iff_forall_not_mem.mpr fun e he => ?_
  have hid := h.unsettled e (List.mem_append_right _ he)
  have hmem : e.unnumbered ∈ executionsOf id a.ready :=
    List.mem_map_of_mem (List.mem_filter.mpr ⟨he, decide_eq_true hid⟩)
  rw [hnone] at hmem
  cases hmem

/-- What leaves executions and callers as they are, and purges or not. -/
theorem of_purged {s s' : Session V} (h : Alone id { session := s }) (hp : s'.parked = s.parked)
    (hw : s'.waiters = s.waiters) {now : Instant}
    (hl : s'.coordinator.memo.ledger = s.coordinator.memo.ledger ∨
      s'.coordinator.memo.ledger = (s.coordinator.memo.ledger.purge now).2) :
    Alone id { session := s' } := by
  have hwritten : s'.coordinator.memo.ledger.written.Sublist s.coordinator.memo.ledger.written := by
    rcases hl with hl | hl
    · rw [hl]
    · rw [hl]
      exact List.dropWhile_sublist _
  have hevictions : s'.coordinator.memo.ledger.evictions =
      s.coordinator.memo.ledger.evictions := by
    rcases hl with hl | hl
    · rw [hl]
    · rw [hl]
      rfl
  refine ⟨?_, ?_, h.claimants, fun w hm => h.written w (hwritten.subset hm),
    hevictions.trans h.evictions⟩
  · show ∀ e ∈ s'.parked ++ [], _
    rw [hp]
    exact h.unsettled
  · show ∀ w ∈ s'.waiters, _
    rw [hw]
    exact h.waiters

theorem begin {s : Session V} (h : Alone id { session := s }) (kept : Kept { session := s })
    {st : Step V} (hst : ∀ c, st = .call c → c.id = id) : Alone id (begin s st) := by
  have parked : ∀ e ∈ s.parked, e.call.id = id := fun e he =>
    h.unsettled e (List.mem_append_left _ he)
  cases st with
  | call c => exact ⟨h.unsettled, h.waiters, List.forall_mem_singleton.mpr (hst c rfl), h.written,
      h.evictions⟩
  | openGate gate =>
    refine ⟨?_, h.waiters, h.claimants, h.written, h.evictions⟩
    show ∀ e ∈ (s.parked.partition _).2 ++ ([] ++ (s.parked.partition _).1), _
    rw [List.partition_eq_filter_filter, List.nil_append, List.forall_mem_append]
    exact ⟨fun e he => parked e (List.mem_of_mem_filter he),
      fun e he => parked e (List.mem_of_mem_filter he)⟩
  | drop name =>
    refine ⟨?_, fun w hw => h.waiters w (List.mem_of_mem_filter hw), h.claimants, h.written,
      h.evictions⟩
    show ∀ e ∈ s.parked.map (Execution.leave name) ++ [], _
    rw [List.append_nil, List.forall_mem_map]
    intro e he
    rw [Execution.call_leave]
    exact parked e he
  | purge =>
    obtain ⟨-, hl⟩ := kept.memo.purge s.now
    exact h.of_purged rfl rfl (.inr (congrArg Prod.snd hl).symm)
  | advance d => exact ⟨h.unsettled, h.waiters, h.claimants, h.written, h.evictions⟩
  | startSweep timer interval => exact ⟨h.unsettled, h.waiters, h.claimants, h.written, h.evictions⟩
  | stopSweeps => exact ⟨h.unsettled, h.waiters, h.claimants, h.written, h.evictions⟩
  | look => exact h

theorem sweep {s : Session V} (h : Alone id { session := s }) (kept : Kept { session := s }) :
    Alone id { session := s.sweep } := by
  obtain ⟨-, hl⟩ := sound_sweep kept.memo
  exact h.of_purged rfl rfl hl

end Alone

theorem alone_run (σ : Schedule V) (maxSize ttl : Nat) {steps : List (Step V)}
    (h : ∀ c, .call c ∈ steps → c.id = id) :
    Alone id { session := Session.run σ { coordinator := .new maxSize ttl } steps } := by
  have both := run_induction (s := ({ coordinator := .new maxSize ttl } : Session V))
    (P := fun steps a => Reachable maxSize ttl a ∧
      ((∀ c, .call c ∈ steps → c.id = id) → a.Alone id)) ?_ ?_ ?_ ?_ σ steps
  · exact both.2 h
  · exact ⟨.refl, fun _ => ⟨by simp [unsettled], by simp, by simp, (fun w hw => by cases hw), rfl⟩⟩
  · intro steps s st hs
    refine ⟨hs.1.trans (moves_begin s st), fun own => ?_⟩
    have alone := hs.2 fun c hc => own c (List.mem_append_left _ hc)
    refine alone.begin hs.1.accounted.1 fun c hc => own c ?_
    exact List.mem_append_right _ (List.mem_singleton.mpr hc.symm)
  · exact fun steps a b hw ha => ⟨ha.1.tail hw.move, fun own => (ha.2 own).work ha.1 hw⟩
  · exact fun steps s hs => ⟨hs.1.tail (.sweep _), fun own => (hs.2 own).sweep hs.1.accounted.1⟩

end AtMostOnce.Activity
