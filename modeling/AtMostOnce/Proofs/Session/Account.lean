import AtMostOnce.Proofs.Session.History

/-! The account of handlers. Those that have been started and have not ended are those whose claims
are held, and the log tells the same of them. -/
namespace AtMostOnce.Activity
open History
variable {V : Type} {a b : Activity V}

/-- The handlers that have been started and have not ended, each with the number of its claim. -/
def running (a : Activity V) : List (Call V × Nat) := a.unsettled.map Execution.key

/-- Claims, running handlers and the log are in step. -/
structure Accounted (a : Activity V) : Prop where
  claims : (a.running.map fun k => (k.1.id, k.2, k.2)).Perm a.ledger.claims.entries
  issued : ∀ c n, Started c n a.milestones → n < a.ledger.nextGeneration
  unique : ∀ c c' n, Started c n a.milestones → Started c' n a.milestones → c = c'
  begun : ∀ k ∈ a.running, last? k.1.id a.milestones = some k.2 ∧
    Started k.1 k.2 a.milestones ∧ k.2 ∉ ended a.milestones
  settled : ∀ c n, Started c n a.milestones → n ∈ ended a.milestones ∨ (c, n) ∈ a.running
  committed : ∀ now id n o, .committed now id n o ∈ a.milestones →
    ∃ c, Started c n a.milestones ∧ c.id = id ∧ c.handler.result = .ok o
  rolledBack : ∀ now id n k, .rolledBack now id n k ∈ a.milestones →
    ∃ c f, Started c n a.milestones ∧ c.id = id ∧ c.handler.result = .error f

namespace Accounted

/-- Every execution that has ended was started. -/
theorem started_of_ended (h : a.Accounted) {n : Nat} (he : n ∈ ended a.milestones) :
    ∃ c, Started c n a.milestones := by
  obtain ⟨ev, hm, hn⟩ := List.mem_filterMap.mp he
  cases ev with
  | committed now id m o =>
    cases hn
    obtain ⟨c, hc, -, -⟩ := h.committed now id n o hm
    exact ⟨c, hc⟩
  | rolledBack now id m k =>
    cases hn
    obtain ⟨c, f, hc, -, -⟩ := h.rolledBack now id n k hm
    exact ⟨c, hc⟩
  | _ => cases hn

/-- An outcome was left by the execution of its number. -/
theorem committed_of_mem_commits (h : a.Accounted) {n : Nat} {w : Written V}
    (hm : (n, w) ∈ commits a.milestones) :
    ∃ c, Started c n a.milestones ∧ c.id = w.id ∧ c.handler.result = .ok w.outcome :=
  h.committed _ _ _ _ ((mem_commits_iff _ _ _).mp hm)

theorem ids_nodup (h : a.Accounted) : (a.running.map fun k => k.1.id).Nodup := by
  have hp := h.claims.map Prod.fst
  rw [List.map_map] at hp
  exact hp.nodup_iff.mpr a.ledger.claims.distinct

theorem find?_claims_iff (h : a.Accounted) (id : RequestId) (g m : Nat) :
    a.ledger.claims.find? id = some (g, m) ↔ m = g ∧ ∃ c, c.id = id ∧ (c, g) ∈ a.running := by
  rw [Table.find?_eq_some_iff, ← h.claims.mem_iff, List.mem_map]
  constructor
  · intro hk
    obtain ⟨k, hk, he⟩ := hk
    cases he
    exact ⟨rfl, k.1, rfl, hk⟩
  · intro hk
    obtain ⟨hm, c, hc, hk⟩ := hk
    rw [hm, ← hc]
    exact ⟨(c, g), hk, rfl⟩

theorem find?_claims_of_running (h : a.Accounted) {k : Call V × Nat} (hk : k ∈ a.running) :
    a.ledger.claims.find? k.1.id = some (k.2, k.2) :=
  (h.find?_claims_iff _ _ _).mpr ⟨rfl, k.1, rfl, hk⟩

/-- Two running handlers do not share a number. -/
theorem number_ne (h : a.Accounted) {k : Call V × Nat} {ks : List (Call V × Nat)}
    (hr : a.running.Perm (k :: ks)) : ∀ k' ∈ ks, k'.2 ≠ k.2 := by
  intro k' hk' hn
  obtain ⟨-, hs, -⟩ := h.begun k (hr.mem_iff.mpr List.mem_cons_self)
  obtain ⟨-, hs', -⟩ := h.begun k' (hr.mem_iff.mpr (List.mem_cons_of_mem _ hk'))
  rw [hn] at hs'
  have hids := (hr.map fun k => k.1.id).nodup_iff.mp h.ids_nodup
  rw [List.map_cons, List.nodup_cons, ← h.unique _ _ _ hs' hs] at hids
  exact hids.1 (List.mem_map_of_mem hk')

/-- What starts and ends no execution keeps the account. -/
theorem of_same (h : a.Accounted) (hm : b.milestones = a.milestones)
    (hr : b.running.Perm a.running) (hc : b.ledger.claims = a.ledger.claims)
    (hg : a.ledger.nextGeneration ≤ b.ledger.nextGeneration) : b.Accounted where
  claims := by
    rw [hc]
    exact (hr.map _).trans h.claims
  issued c n hs := by
    rw [hm] at hs
    exact Nat.lt_of_lt_of_le (h.issued c n hs) hg
  unique := hm ▸ h.unique
  begun k hk := by
    rw [hm]
    exact h.begun k (hr.mem_iff.mp hk)
  settled c n hs := by
    rw [hm] at hs ⊢
    rw [hr.mem_iff]
    exact h.settled c n hs
  committed := hm ▸ h.committed
  rolledBack := hm ▸ h.rolledBack

/-- A handler is started under a new claim of a free id. -/
theorem start (h : a.Accounted) {c : Call V} {n : Nat} (hn : n = a.ledger.nextGeneration)
    (free : a.ledger.claims.find? c.id = none)
    (hc : b.ledger.claims = a.ledger.claims.insert c.id (n, n))
    (hg : b.ledger.nextGeneration = n + 1)
    (hm : b.milestones = .claimed a.now c (.execute n) :: a.milestones)
    (hr : b.running = a.running ++ [(c, n)]) : b.Accounted := by
  have hst : ∀ c' n', Started c' n' b.milestones ↔
      (c' = c ∧ n' = n) ∨ Started c' n' a.milestones := by
    intro c' n'
    rw [hm]
    exact started_cons_execute_iff _ _ _ _ _ _
  have hen : ended b.milestones = ended a.milestones := by
    rw [hm]
    rfl
  have fresh : ∀ c', ¬ Started c' n a.milestones := by
    intro c' hs
    have := h.issued c' n hs
    omega
  constructor
  · rw [hr, hc, List.map_append]
    have he : (a.ledger.claims.insert c.id (n, n)).entries =
        (c.id, n, n) :: a.ledger.claims.entries := by
      show _ :: (a.ledger.claims.erase c.id).entries = _
      rw [Table.erase_eq_self free]
    rw [he]
    exact (List.perm_append_singleton _ _).trans (h.claims.cons _)
  · intro c' n' hs
    rw [hg]
    rcases (hst c' n').mp hs with ⟨-, hs⟩ | hs
    · omega
    · have := h.issued c' n' hs
      omega
  · intro c₁ c₂ n' h₁ h₂
    rcases (hst c₁ n').mp h₁ with ⟨e₁, e₁'⟩ | h₁ <;> rcases (hst c₂ n').mp h₂ with ⟨e₂, e₂'⟩ | h₂
    · rw [e₁, e₂]
    · exact absurd (e₁' ▸ h₂) (fresh c₂)
    · exact absurd (e₂' ▸ h₁) (fresh c₁)
    · exact h.unique c₁ c₂ n' h₁ h₂
  · intro k hk
    rw [hen, hst]
    rw [hr] at hk
    rcases List.mem_append.mp hk with hk | hk
    · obtain ⟨hl, hs, he⟩ := h.begun k hk
      have hne : c.id ≠ k.1.id := by
        intro hid
        rw [hid, h.find?_claims_of_running hk] at free
        cases free
      refine ⟨?_, .inr hs, he⟩
      rw [hm, last?_cons, Event.startOf?, if_neg hne]
      exact hl
    · rw [List.mem_singleton.mp hk]
      refine ⟨?_, .inl ⟨rfl, rfl⟩, ?_⟩
      · rw [hm, last?_cons, Event.startOf?, if_pos rfl]
        rfl
      · intro he
        obtain ⟨c', hs⟩ := h.started_of_ended he
        exact fresh c' hs
  · intro c' n' hs
    rw [hen, hr, List.mem_append, List.mem_singleton]
    rcases (hst c' n').mp hs with ⟨e, e'⟩ | hs
    · rw [e, e']
      exact .inr (.inr rfl)
    · rcases h.settled c' n' hs with he | he
      · exact .inl he
      · exact .inr (.inl he)
  · intro now id n' o hmem
    rw [hm] at hmem
    rcases List.mem_cons.mp hmem with hmem | hmem
    · cases hmem
    · obtain ⟨c', hs, hc'⟩ := h.committed now id n' o hmem
      exact ⟨c', (hst c' n').mpr (.inr hs), hc'⟩
  · intro now id n' k hmem
    rw [hm] at hmem
    rcases List.mem_cons.mp hmem with hmem | hmem
    · cases hmem
    · obtain ⟨c', f, hs, hc'⟩ := h.rolledBack now id n' k hmem
      exact ⟨c', f, (hst c' n').mpr (.inr hs), hc'⟩

/-- A running handler ends, and its claim is given up. -/
theorem settle (h : a.Accounted) {k : Call V × Nat} {ev : Event V}
    (hr : a.running.Perm (k :: b.running))
    (hc : b.ledger.claims = a.ledger.claims.erase k.1.id)
    (hg : b.ledger.nextGeneration = a.ledger.nextGeneration)
    (hm : b.milestones = ev :: a.milestones) (he : ev.endOf? = some k.2)
    (hco : ∀ now id n o, ev = .committed now id n o →
      k.1.id = id ∧ k.1.handler.result = .ok o)
    (hro : ∀ now id n r, ev = .rolledBack now id n r →
      k.1.id = id ∧ ∃ f, k.1.handler.result = .error f) : b.Accounted := by
  have hk : k ∈ a.running := hr.mem_iff.mpr List.mem_cons_self
  have hst : ∀ c n, Started c n b.milestones ↔ Started c n a.milestones := by
    intro c n
    rw [hm]
    exact started_cons_iff_of_end he c n _
  have hen : ∀ n, n ∈ ended b.milestones ↔ n = k.2 ∨ n ∈ ended a.milestones := by
    intro n
    rw [hm]
    exact mem_ended_cons_of_end he n _
  obtain ⟨-, hks, -⟩ := h.begun k hk
  constructor
  · have hp := (hr.map fun k => (k.1.id, k.2, k.2)).symm.trans h.claims
    have hp' := hp.trans (Table.perm_cons_erase (h.find?_claims_of_running hk))
    rw [hc]
    exact hp'.cons_inv
  · intro c n hs
    rw [hg]
    exact h.issued c n ((hst c n).mp hs)
  · intro c c' n hs hs'
    exact h.unique c c' n ((hst c n).mp hs) ((hst c' n).mp hs')
  · intro k' hk'
    obtain ⟨hl, hs, hne⟩ := h.begun k' (hr.mem_iff.mpr (List.mem_cons_of_mem _ hk'))
    refine ⟨?_, (hst _ _).mpr hs, ?_⟩
    · rw [hm, last?_cons, startOf?_of_end he]
      exact hl
    · intro hmem
      rcases (hen _).mp hmem with hnum | hmem
      · exact h.number_ne hr k' hk' hnum
      · exact hne hmem
  · intro c n hs
    rw [hen]
    rcases h.settled c n ((hst c n).mp hs) with hend | hrun
    · exact .inl (.inr hend)
    · rcases List.mem_cons.mp (hr.mem_iff.mp hrun) with heq | hrun
      · rw [← heq]
        exact .inl (.inl rfl)
      · exact .inr hrun
  · intro now id n o hmem
    rw [hm] at hmem
    rcases List.mem_cons.mp hmem with hmem | hmem
    · have hn : n = k.2 := by
        rw [← hmem] at he
        exact Option.some.inj he
      rw [hn]
      exact ⟨k.1, (hst _ _).mpr hks, hco now id n o hmem.symm⟩
    · obtain ⟨c, hs, hc'⟩ := h.committed now id n o hmem
      exact ⟨c, (hst c n).mpr hs, hc'⟩
  · intro now id n r hmem
    rw [hm] at hmem
    rcases List.mem_cons.mp hmem with hmem | hmem
    · have hn : n = k.2 := by
        rw [← hmem] at he
        exact Option.some.inj he
      obtain ⟨hid, f, hf⟩ := hro now id n r hmem.symm
      rw [hn]
      exact ⟨k.1, f, (hst _ _).mpr hks, hid, hf⟩
    · obtain ⟨c, f, hs, hc'⟩ := h.rolledBack now id n r hmem
      exact ⟨c, f, (hst c n).mpr hs, hc'⟩

/-- A handler that ends well has its outcome written. -/
theorem ledger_of_commit (h : a.Accounted) {e : Execution V} {o : Outcome V}
    (hr : a.running.Perm (e.key :: b.running))
    (hl : b.ledger = a.ledger.commit a.now e.call.id e.number o) :
    b.ledger = { a.ledger.makeRoom a.now with
      written := (a.ledger.makeRoom a.now).written ++ [⟨e.call.id, o, a.now⟩]
      claims := a.ledger.claims.erase e.call.id } := by
  have hf := h.find?_claims_of_running (hr.mem_iff.mpr List.mem_cons_self)
  rw [hl]
  exact Ledger.commit_of_claim hf a.now o

theorem ledger_of_release (h : a.Accounted) {e : Execution V}
    (hr : a.running.Perm (e.key :: b.running))
    (hl : b.ledger = a.ledger.release e.call.id e.number) :
    b.ledger = { a.ledger with claims := a.ledger.claims.erase e.call.id } := by
  have hf := h.find?_claims_of_running (hr.mem_iff.mpr List.mem_cons_self)
  rw [hl]
  exact Ledger.release_of_claim hf

theorem effect (h : a.Accounted) (hk : a.Kept) (he : Effect a b) : b.Accounted := by
  cases he with
  | start c n looked logged unsettled waiters clock =>
    obtain ⟨hn, hf, -, -, -, -, hc, hg⟩ := Ledger.lookup_of_claimed hk.ledger looked
    have hm := milestones_of_milestone [] logged (by simp) rfl
    apply h.start hn hf hc hg hm
    unfold running
    rw [unsettled, List.map_append]
    rfl
  | wait c n looked logged unsettled waiters clock =>
    obtain ⟨-, hl⟩ := Ledger.lookup_of_pending looked
    have hm := milestones_of_silent [_] logged (by simp [Event.isMilestone])
    apply h.of_same hm (List.Perm.of_eq (congrArg (List.map _) unsettled))
    · rw [hl]
    · rw [hl]
      exact Nat.le_succ _
  | replay c o looked logged unsettled waiters clock =>
    obtain ⟨-, -, hl⟩ := Ledger.lookup_of_live looked
    have hm := milestones_of_silent [_, _] logged (by simp [Event.isMilestone])
    apply h.of_same hm (List.Perm.of_eq (congrArg (List.map _) unsettled))
    · rw [hl]
    · rw [hl]
      exact Nat.le_succ _
  | commit e o result unsettled ledger logged waiters clock =>
    have hr : a.running.Perm (e.key :: b.running) := unsettled.map Execution.key
    have hm := milestones_of_milestone _ logged (fun ev => isMilestone_of_mem_answers) rfl
    have hl := h.ledger_of_commit hr ledger
    apply h.settle hr ?_ ?_ hm rfl
    · intro now id n o' hev
      cases hev
      exact ⟨rfl, result⟩
    · intro now id n r hev
      cases hev
    · rw [hl]
      rfl
    · rw [hl]
      exact (Ledger.fixed_makeRoom a.now a.ledger).2.2
  | rollBack e f result unsettled ledger logged waiters clock =>
    have hr : a.running.Perm (e.key :: b.running) := unsettled.map Execution.key
    have hm := milestones_of_milestone _ logged (by simp [Event.isMilestone]) rfl
    have hl := h.ledger_of_release hr ledger
    apply h.settle hr ?_ ?_ hm rfl
    · intro now id n o' hev
      cases hev
    · intro now id n r hev
      cases hev
      exact ⟨rfl, f, result⟩
    · rw [hl]
      rfl
    · rw [hl]
  | quiet noise silent logged unsettled ledger waiters clock =>
    have hm := milestones_of_silent _ logged fun ev hev => isMilestone_of_isNoise (silent ev hev)
    have hl : b.ledger.claims = a.ledger.claims ∧
        b.ledger.nextGeneration = a.ledger.nextGeneration := by
      rcases ledger with hl | hl <;> rw [hl] <;> exact ⟨rfl, rfl⟩
    exact h.of_same hm unsettled hl.1 (Nat.le_of_eq hl.2.symm)

end Accounted

theorem accounted_new (maxSize ttl : Nat) :
    Accounted { session := ({ coordinator := .new maxSize ttl } : Session V) } where
  claims := List.Perm.nil
  issued c n h := by
    obtain ⟨now, hm⟩ := h
    cases hm
  unique c c' n h := by
    obtain ⟨now, hm⟩ := h
    cases hm
  begun k hk := by cases hk
  settled c n h := by
    obtain ⟨now, hm⟩ := h
    cases hm
  committed now id n o hm := by cases hm
  rolledBack now id n k hm := by cases hm

theorem Reachable.accounted {maxSize ttl : Nat} (h : Reachable maxSize ttl a) :
    a.Kept ∧ a.Accounted :=
  h.induction (accounted_new maxSize ttl) fun _ _ hk he h => h.effect hk he

/-- An invariant of sessions whose claims are accounted for. -/
theorem Reachable.invariant {maxSize ttl : Nat} {P : Activity V → Prop}
    (start : P { session := { coordinator := .new maxSize ttl } })
    (step : ∀ a b, a.Kept → a.Accounted → Effect a b → P a → P b) (h : Reachable maxSize ttl a) :
    P a := by
  have both := h.induction (P := fun a => a.Accounted ∧ P a) ⟨accounted_new maxSize ttl, start⟩
    fun a b hk he hp => ⟨hp.1.effect hk he, step a b hk hp.1 he hp.2⟩
  exact both.2.2

end AtMostOnce.Activity
