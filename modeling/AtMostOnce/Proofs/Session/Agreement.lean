import AtMostOnce.Proofs.Session.Attendance
import AtMostOnce.Proofs.Session.Recall

/-! Agreement. Every answer comes from one execution, and all answers from one execution agree. -/
namespace AtMostOnce
variable {V : Type}

theorem Call.answer_ne_internal (c : Call V) (o : Outcome V) (f : Breakdown) :
    c.answer o ≠ .error (.internal f) := by
  unfold Call.answer
  cases o.replay c.vocabulary.fault with
  | ok v => intro h; cases h
  | error e => intro h; cases h

namespace History

/-- The answer of `c` comes from execution `n`, which was that of `d`. Either it has left an outcome
that `c` was told in its own words, or it was that of `c` and has broken down. -/
structure AnsweredFrom (ttl n : Nat) (d c : Call V) (ans : Answer V) (past : List (Event V)) :
    Prop where
  turned : TurnsTo ttl c n past
  started : Started d n past
  id_eq : d.id = c.id
  ended : (∃ now o, .committed now c.id n o ∈ past ∧ d.handler.result = .ok o ∧
      ans = c.answer o) ∨
    (∃ now released f, .rolledBack now c.id n released ∈ past ∧ d = c ∧
      d.handler.result = .error f ∧ ans = .error (.internal f))

end History

namespace Activity
open History
variable {maxSize ttl : Nat} {a b : Activity V}

/-- Whoever was answered had turned to an execution that has ended, and of a breakdown one caller
has been told. -/
structure Answered (ttl : Nat) (a : Activity V) : Prop where
  sourced : ∀ c ans past, .finished c ans :: past <:+ a.log →
    ∃ n d, AnsweredFrom ttl n d c ans past ∧ ∀ k ∈ a.running, k.2 ≠ n
  once : ∀ c f past c' f' past' n, .finished c (.error (.internal f)) :: past <:+ a.log →
    .finished c' (.error (.internal f')) :: past' <:+ a.log → TurnsTo ttl c n past →
    TurnsTo ttl c' n past' → past = past'

namespace Answered

/-- More answers are given, at most one of them telling of a breakdown. -/
theorem tell (h : a.Answered ttl) (latest : List (Event V))
    (hr : ∀ k ∈ b.running, k ∈ a.running ∨ ∀ c, ¬ Started c k.2 a.log)
    (new : ∀ c ans past, .finished c ans :: past <:+ b.log → .finished c ans :: past <:+ a.log ∨
      ∃ n d, AnsweredFrom ttl n d c ans past ∧ (∀ k ∈ b.running, k.2 ≠ n) ∧
        ((∃ o, ans = c.answer o) ∨ past = latest ∧ ∃ k ∈ a.running, k.2 = n)) :
    b.Answered ttl := by
  constructor
  · intro c ans past hs
    rcases new c ans past hs with hs | ⟨n, d, hd, hn, -⟩
    · obtain ⟨n, d, hd, hn⟩ := h.sourced c ans past hs
      refine ⟨n, d, hd, ?_⟩
      intro k hk
      rcases hr k hk with hk | fresh
      · exact hn k hk
      · intro he
        rw [he] at fresh
        exact fresh d (hd.started.mono (List.Subset.trans (List.subset_cons_self _ _) hs.subset))
    · exact ⟨n, d, hd, hn⟩
  · -- An earlier answer comes from no execution that is under way now.
    have apart : ∀ c ans past n, .finished c ans :: past <:+ a.log → TurnsTo ttl c n past →
        ∀ k ∈ a.running, k.2 ≠ n := by
      intro c ans past n hs ht
      obtain ⟨n', d, hd, hn⟩ := h.sourced c ans past hs
      rw [ht.unique hd.turned]
      exact hn
    have told : ∀ c f past n, .finished c (.error (.internal f)) :: past <:+ b.log →
        TurnsTo ttl c n past → .finished c (.error (.internal f)) :: past <:+ a.log ∨
          past = latest ∧ ∃ k ∈ a.running, k.2 = n := by
      intro c f past n hs ht
      rcases new c _ past hs with hs | ⟨n', d, hd, -, ⟨o, ho⟩ | hlast⟩
      · exact .inl hs
      · exact absurd ho.symm (c.answer_ne_internal o f)
      · rw [hd.turned.unique ht] at hlast
        exact .inr hlast
    intro c f past c' f' past' n hs hs' ht ht'
    rcases told c f past n hs ht with hs | ⟨hp, k, hk, hn⟩ <;>
      rcases told c' f' past' n hs' ht' with hs' | ⟨hp', k', hk', hn'⟩
    · exact h.once c f past c' f' past' n hs hs' ht ht'
    · exact absurd hn' (apart c _ past n hs ht k' hk')
    · exact absurd hn (apart c' _ past' n hs' ht' k hk)
    · rw [hp, hp']

/-- Nobody is answered. -/
theorem silent (h : a.Answered ttl) (told : List (Event V)) (logged : b.log = told ++ a.log)
    (silent : ∀ c ans, .finished c ans ∉ told)
    (hr : ∀ k ∈ b.running, k ∈ a.running ∨ ∀ c, ¬ Started c k.2 a.log) : b.Answered ttl := by
  apply h.tell [] hr
  intro c ans past hs
  rw [logged] at hs
  rcases suffix_append_cases hs with ⟨hm, -⟩ | hs
  · exact absurd hm (silent c ans)
  · exact .inl hs

/-- Callers of an execution that has left an outcome are answered with it. -/
theorem commit (h : a.Answered ttl) (hd : a.Attended ttl) (ha : a.Accounted) {e : Execution V}
    {o : Outcome V} (result : e.call.handler.result = .ok o)
    (hr : a.running.Perm (e.key :: b.running))
    (logged : b.log = answers (e.caller ++ a.session.waitingOn e.number) o ++
      .committed a.now e.call.id e.number o :: a.log) : b.Answered ttl := by
  have he : e.key ∈ a.running := hr.mem_iff.mpr List.mem_cons_self
  have hs : Started e.call e.number a.log := (started_filter _ _ _).mp (ha.begun e.key he).2.1
  have turned : ∀ c ∈ e.caller ++ a.session.waitingOn e.number,
      TurnsTo ttl c e.number a.log ∧ e.call.id = c.id := by
    intro c hc
    rcases List.mem_append.mp hc with hc | hc
    · unfold Execution.caller at hc
      split at hc
      · rw [List.mem_singleton.mp hc]
        exact ⟨hd.executing e.key he, rfl⟩
      · cases hc
    · obtain ⟨w, hw, hwc⟩ := List.mem_map.mp hc
      obtain ⟨hw, hn⟩ := List.mem_filter.mp hw
      obtain ⟨ht, k, hk, hid, hkn⟩ := hd.waiting w hw
      have hnum : w.number = e.number := of_decide_eq_true hn
      rw [hnum, hwc] at ht
      rw [hwc] at hid
      refine ⟨ht, ?_⟩
      rcases List.mem_cons.mp (hr.mem_iff.mp hk) with hke | hk
      · rw [hke] at hid
        exact hid
      · exact absurd (hkn.trans hnum) (ha.number_ne hr k hk)
  apply h.tell []
  · intro k hk
    exact .inl (hr.mem_iff.mpr (List.mem_cons_of_mem _ hk))
  · intro c ans past hf
    rw [logged] at hf
    rcases suffix_append_cases hf with ⟨hm, more, hmore, hp⟩ | hf
    · obtain ⟨c', hc', heq⟩ := mem_answers_iff.mp hm
      cases heq
      obtain ⟨ht, hid⟩ := turned c hc'
      refine .inr ⟨e.number, e.call, ⟨?_, ?_, hid, .inl ⟨a.now, o, ?_, result, rfl⟩⟩,
        ha.number_ne hr, .inl ⟨o, rfl⟩⟩
      · rw [hp, List.append_cons]
        apply ht.append
        intro ev hev
        rcases List.mem_append.mp hev with hev | hev
        · exact isClaim_of_mem_answers (hmore hev)
        · rw [List.mem_singleton.mp hev]
          rfl
      · apply hs.mono
        rw [hp, List.append_cons]
        exact List.subset_append_right _ _
      · rw [hp, ← hid]
        exact List.mem_append_right _ List.mem_cons_self
    · rcases List.suffix_cons_iff.mp hf with hf | hf
      · cases hf
      · exact .inl hf

/-- Of a breakdown only the caller is told whose handler it was. -/
theorem rollBack (h : a.Answered ttl) (hd : a.Attended ttl) (ha : a.Accounted)
    {e : Execution V} {f : Breakdown} (result : e.call.handler.result = .error f)
    (hr : a.running.Perm (e.key :: b.running)) {released : Nat}
    (logged : b.log = (e.caller.map fun c => .finished c (.error (.internal f))) ++
      .rolledBack a.now e.call.id e.number released :: a.log) : b.Answered ttl := by
  have he : e.key ∈ a.running := hr.mem_iff.mpr List.mem_cons_self
  have hs : Started e.call e.number a.log := (started_filter _ _ _).mp (ha.begun e.key he).2.1
  have ht : TurnsTo ttl e.call e.number a.log := hd.executing e.key he
  apply h.tell (.rolledBack a.now e.call.id e.number released :: a.log)
  · intro k hk
    exact .inl (hr.mem_iff.mpr (List.mem_cons_of_mem _ hk))
  · intro c ans past hf
    have older : .finished c ans :: past <:+
        .rolledBack a.now e.call.id e.number released :: a.log →
          .finished c ans :: past <:+ a.log := by
      intro hf
      rcases List.suffix_cons_iff.mp hf with hf | hf
      · cases hf
      · exact hf
    rw [logged] at hf
    unfold Execution.caller at hf
    split at hf
    · rcases List.suffix_cons_iff.mp hf with hf | hf
      · cases hf
        refine .inr ⟨e.number, e.call, ⟨ht.append [_] (by simp [Event.isClaim]), ?_, rfl,
          .inr ⟨a.now, released, f, List.mem_cons_self, rfl, result, rfl⟩⟩,
          ha.number_ne hr, .inr ⟨rfl, e.key, he, rfl⟩⟩
        exact hs.mono (List.subset_cons_self _ _)
      · exact .inl (older hf)
    · exact .inl (older hf)

/-- A caller is answered from memory. -/
theorem replay (h : a.Answered ttl) (hm : a.Recalled maxSize ttl) (ha : a.Accounted) {c : Call V}
    {w : Written V} (free : a.ledger.claims.find? c.id = none) (hw : w ∈ a.ledger.written)
    (hid : w.id = c.id) (hl : w.isExpired ttl a.now = false) (hr : b.running = a.running)
    (logged : b.log = .finished c (c.answer w.outcome) ::
      .claimed a.now c (.replay w.outcome) :: a.log) : b.Answered ttl := by
  obtain ⟨n, hlast, hf⟩ := hm.latest w hw
  obtain ⟨d, hs, hdid, hres⟩ := ha.committed_of_mem_commits (List.mem_of_find?_eq_some hf)
  have left := (mem_commits_iff _ _ _).mp (List.mem_of_find?_eq_some hf)
  have hlive : a.now - w.writtenAt < ttl := by simpa [Written.isExpired] using hl
  have hcom : .committed w.writtenAt c.id n w.outcome ∈ a.log := by
    rw [← hid]
    exact List.mem_of_mem_filter left
  rw [hid] at hlast
  apply h.tell []
  · intro k hk
    rw [hr] at hk
    exact .inl hk
  · intro c' ans past hfin
    rw [logged] at hfin
    rcases List.suffix_cons_iff.mp hfin with hfin | hfin
    · cases hfin
      refine .inr ⟨n, d, ⟨?_, ?_, hdid.trans hid,
        .inl ⟨w.writtenAt, w.outcome, List.mem_cons_of_mem _ hcom, hres, rfl⟩⟩, ?_,
        .inl ⟨w.outcome, rfl⟩⟩
      · exact .remembered a.now w.writtenAt w.outcome a.log
          ((last?_filter _ _).symm.trans hlast) hcom
          hlive
      · exact ((started_filter _ _ _).mp hs).mono (List.subset_cons_self _ _)
      · -- The execution has ended, since its id is free.
        intro k hk hn
        rw [hr] at hk
        obtain ⟨-, hks, -⟩ := ha.begun k hk
        rw [hn] at hks
        have hclaim := ha.find?_claims_of_running hk
        rw [ha.unique _ _ _ hks hs, hdid, hid, free] at hclaim
        cases hclaim
    · rcases List.suffix_cons_iff.mp hfin with hfin | hfin
      · cases hfin
      · exact .inl hfin

theorem effect (h : a.Answered ttl) (hd : a.Attended ttl) (hm : a.Recalled maxSize ttl)
    (hk : a.Kept) (ha : a.Accounted) (he : Effect a b) : b.Answered ttl := by
  cases he with
  | start c n looked logged unsettled waiters clock =>
    obtain ⟨hn, -⟩ := Ledger.lookup_of_claimed hk.ledger looked
    refine h.silent [_] logged (by simp) ?_
    intro k hk
    unfold running at hk
    rw [unsettled, List.map_append] at hk
    rcases List.mem_append.mp hk with hk | hk
    · exact .inl hk
    · rw [List.mem_singleton.mp hk]
      refine .inr fun c' hs => ?_
      have hlt := ha.issued c' n ((started_filter _ _ _).mpr hs)
      omega
  | wait c n looked logged unsettled waiters clock =>
    have hr : b.running = a.running := congrArg (List.map Execution.key) unsettled
    exact h.silent [_] logged (by simp) fun k hk => .inl (hr ▸ hk)
  | replay c o looked logged unsettled waiters clock =>
    obtain ⟨free, ⟨w, hw, hl, ho⟩, -⟩ := Ledger.lookup_of_live looked
    rw [hm.ttl_eq] at hl
    rw [← ho] at logged
    have hid : w.id = c.id := by simpa using List.find?_some hw
    have hr : b.running = a.running := congrArg (List.map Execution.key) unsettled
    exact h.replay hm ha free (List.mem_of_find?_eq_some hw) hid hl hr logged
  | commit e o result unsettled ledger logged waiters clock =>
    exact h.commit hd ha result (unsettled.map Execution.key) logged
  | rollBack e f result unsettled ledger logged waiters clock =>
    exact h.rollBack hd ha result (unsettled.map Execution.key) logged
  | quiet noise silent logged unsettled ledger waiters clock =>
    refine h.silent noise logged ?_ fun k hk => .inl (unsettled.subset hk)
    intro c ans hmem
    cases silent _ hmem

end Answered

theorem Reachable.answered (h : Reachable maxSize ttl a) : a.Accounted ∧ a.Answered ttl := by
  refine ⟨h.accounted.2, ?_⟩
  have all := h.invariant
    (P := fun a => a.Recalled maxSize ttl ∧ a.Attended ttl ∧ a.Answered ttl) ?_ ?_
  · exact all.2.2
  · refine ⟨recalled_new maxSize ttl, ⟨?_, ?_⟩, ⟨?_, ?_⟩⟩
    · intro k hk
      cases hk
    · intro w hw
      cases hw
    · intro c ans past hs
      cases List.suffix_nil.mp hs
    · intro c f past c' f' past' n hs
      cases List.suffix_nil.mp hs
  · intro a b hk ha he hp
    obtain ⟨hm, hd, h⟩ := hp
    exact ⟨hm.effect hk ha he, hd.effect hk ha he, h.effect hd hm hk ha he⟩

/-- However the work goes on, whoever is answered is answered from the one execution that they have
turned to, and nobody else is told of its breakdown. Two answers from one execution tell of the same
outcome. -/
theorem Reachable.answered_once (h : Reachable maxSize ttl a) :
    (∀ c ans past, .finished c ans :: past <:+ a.log →
      ∃ n d, AnsweredFrom ttl n d c ans past ∧ (∀ n', TurnsTo ttl c n' past → n' = n) ∧
        ∀ d', Started d' n a.log → d' = d) ∧
    ∀ c ans past c' ans' past' n, .finished c ans :: past <:+ a.log →
      .finished c' ans' :: past' <:+ a.log → TurnsTo ttl c n past → TurnsTo ttl c' n past' →
      past = past' ∨ ∃ o, ans = c.answer o ∧ ans' = c'.answer o := by
  obtain ⟨ha, h⟩ := h.answered
  have one : ∀ d d' n, Started d n a.log → Started d' n a.log → d = d' := fun d d' n hs hs' =>
    ha.unique d d' n ((started_filter _ _ _).mpr hs) ((started_filter _ _ _).mpr hs')
  have source : ∀ c ans past, .finished c ans :: past <:+ a.log →
      ∃ n d, AnsweredFrom ttl n d c ans past ∧ Started d n a.log := by
    intro c ans past hs
    obtain ⟨n, d, hd, -⟩ := h.sourced c ans past hs
    exact ⟨n, d, hd, hd.started.mono (List.Subset.trans (List.subset_cons_self _ _) hs.subset)⟩
  constructor
  · intro c ans past hs
    obtain ⟨n, d, hd, hst⟩ := source c ans past hs
    exact ⟨n, d, hd, fun n' ht => ht.unique hd.turned, fun d' hst' => one d' d n hst' hst⟩
  · intro c ans past c' ans' past' n hs hs' ht ht'
    obtain ⟨m, d, hd, hst⟩ := source c ans past hs
    obtain ⟨m', d', hd', hst'⟩ := source c' ans' past' hs'
    rw [← ht.unique hd.turned] at hst
    rw [← ht'.unique hd'.turned] at hst'
    have hdd := one d d' n hst hst'
    rcases hd.ended with ⟨-, o, -, hres, hans⟩ | ⟨-, -, f, -, -, hres, hans⟩ <;>
      rcases hd'.ended with ⟨-, o', -, hres', hans'⟩ | ⟨-, -, f', -, -, hres', hans'⟩
    · rw [hdd, hres'] at hres
      cases hres
      exact .inr ⟨o, hans, hans'⟩
    · rw [hdd, hres'] at hres
      cases hres
    · rw [hdd, hres'] at hres
      cases hres
    · rw [hans] at hs
      rw [hans'] at hs'
      exact .inl (h.once c f past c' f' past' n hs hs' ht ht')

end Activity

namespace Session
open History

/-- Whoever is answered is answered from the one execution that they have turned to, and nobody else
is told of its breakdown. Two answers from one execution tell of the same outcome. -/
theorem answered_from_one_execution (σ : Schedule V) (maxSize ttl : Nat) (steps : List (Step V)) :
    let log := (Session.run σ { coordinator := .new maxSize ttl } steps).events
    (∀ c ans past, .finished c ans :: past <:+ log →
      ∃ n d, AnsweredFrom ttl n d c ans past ∧ (∀ n', TurnsTo ttl c n' past → n' = n) ∧
        ∀ d', Started d' n log → d' = d) ∧
    ∀ c ans past c' ans' past' n, .finished c ans :: past <:+ log →
      .finished c' ans' :: past' <:+ log → TurnsTo ttl c n past → TurnsTo ttl c' n past' →
      past = past' ∨ ∃ o, ans = c.answer o ∧ ans' = c'.answer o :=
  (Activity.reachable_run σ maxSize ttl steps).answered_once

/-- A caller that waits is answered by the handler that it has waited on. -/
theorem waiter_answered_from_execution :
    let c : Call Nat := ⟨"first", ⟨"id"⟩, .wide, { gate := some "gate", ending := .value 7 }⟩
    let c' : Call Nat := ⟨"second", ⟨"id"⟩, .narrow, { ending := .value 8 }⟩
    let past : List (Event Nat) := [.finished c (.ok 7), .committed 20 ⟨"id"⟩ 0 (.success 7),
      .claimed 0 c' (.wait 0), .claimed 0 c (.execute 0)]
    .finished c' (.ok 7) :: past <:+ (Session.run .arrival { coordinator := .new 0 10 }
      [.call c, .call c', .advance 20, .openGate "gate"]).events ∧
    ∃ n d, AnsweredFrom 10 n d c' (.ok 7) past := by
  intro c c' past
  have h : .finished c' (.ok 7) :: past <:+ (Session.run .arrival { coordinator := .new 0 10 }
      [.call c, .call c', .advance 20, .openGate "gate"]).events := ⟨[], by cbv⟩
  obtain ⟨n, d, hd, -⟩ := (answered_from_one_execution .arrival 0 10 _).1 _ _ _ h
  exact ⟨h, n, d, hd⟩

end Session
end AtMostOnce
