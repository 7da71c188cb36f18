import AtMostOnce.Proofs.Session.Recall

/-! Verdicts. What becomes of a claim is decided by the starts and the ends of executions before it,
and by nothing else. -/
namespace AtMostOnce
variable {V : Type}

inductive Verdict (V : Type) where
  | wait (number : Nat)
  | replay (outcome : Outcome V)
  | start

def Decision.verdict : Decision V → Verdict V
  | .wait n => .wait n
  | .replay o => .replay o
  | .execute _ => .start

namespace History

/-- The number of executions that have left an outcome since execution `n` did. -/
def commitsSince (n : Nat) (past : List (Event V)) : Nat :=
  ((commits past).takeWhile fun c => c.1 ≠ n).length

/-- What a claim of `id` comes to, as far as the past can tell. -/
def verdict (maxSize ttl : Nat) (now : Instant) (id : RequestId) (past : List (Event V)) :
    Verdict V :=
  match last? id past with
  | none => .start
  | some n =>
    match (commits past).find? fun c => c.1 = n with
    | some (_, w) =>
      if now - w.writtenAt < ttl ∧ commitsSince n past < max 1 maxSize then .replay w.outcome
      else .start
    | none => if n ∈ ended past then .start else .wait n

theorem commitsSince_lt_iff {n : Nat} {past : List (Event V)}
    (hn : ∃ w, (n, w) ∈ commits past) (k : Nat) :
    commitsSince n past < k ↔ ∃ w, (n, w) ∈ (commits past).take k := by
  unfold commitsSince
  generalize commits past = cs at hn ⊢
  induction cs generalizing k with
  | nil =>
    obtain ⟨w, hw⟩ := hn
    cases hw
  | cons c cs ih =>
    cases k with
    | zero => simp
    | succ k =>
      rw [List.take_succ_cons, List.takeWhile_cons]
      by_cases hc : c.1 = n
      · rw [if_neg (by simp [hc])]
        constructor
        · intro _
          exact ⟨c.2, hc ▸ List.mem_cons_self⟩
        · intro _
          exact Nat.succ_pos k
      · have hne : ∀ w, (n, w) ≠ c := fun w he => hc (he ▸ rfl)
        rw [if_pos (by simp [hc]), List.length_cons, Nat.succ_lt_succ_iff, ih]
        · simp [hne]
        · obtain ⟨w, hw⟩ := hn
          exact ⟨w, (List.mem_cons.mp hw).resolve_left (hne w)⟩

/-- The first that fits is no further down than any other that fits. -/
theorem mem_take_of_find? {α : Type} {p : α → Bool} {l : List α} {x y : α} {k : Nat}
    (hx : l.find? p = some x) (hy : y ∈ l.take k) (hp : p y = true) : x ∈ l.take k := by
  obtain ⟨z, hz⟩ := Option.isSome_iff_exists.mp (List.find?_isSome.mpr ⟨y, hy, hp⟩)
  rw [← List.take_append_drop k l, List.find?_append, hz] at hx
  cases hx
  exact List.mem_of_find?_eq_some hz

end History

namespace Activity
open History
variable {maxSize ttl : Nat} {a b : Activity V}

namespace Recalled

/-- An id under which a live outcome is held is answered with it. -/
theorem verdict_of_held (h : a.Recalled maxSize ttl) {w : Written V}
    (hw : w ∈ a.ledger.written) (hl : w.isExpired ttl a.now = false) :
    verdict maxSize ttl a.now w.id a.milestones = .replay w.outcome := by
  obtain ⟨n, hlast, hid⟩ := h.latest w hw
  have hlive : a.now - w.writtenAt < ttl := by simpa [Written.isExpired] using hl
  have hmem : w ∈ ((commits a.milestones).take (max 1 maxSize)).map Prod.snd := by
    have hm := (Written.mem_live_iff ttl a.now a.ledger.written.reverse w).mpr
      ⟨List.mem_reverse.mpr hw, hlive⟩
    rw [h.recent] at hm
    exact ((Written.mem_live_iff _ _ _ _).mp hm).1
  obtain ⟨c, hc, hcw⟩ := List.mem_map.mp hmem
  have htake : (n, w) ∈ (commits a.milestones).take (max 1 maxSize) :=
    mem_take_of_find? hid hc (decide_eq_true (congrArg Written.id hcw))
  have hin : (n, w) ∈ commits a.milestones := List.mem_of_mem_take htake
  have hsince : commitsSince n a.milestones < max 1 maxSize :=
    (commitsSince_lt_iff ⟨w, hin⟩ _).mpr ⟨w, htake⟩
  rw [verdict, hlast]
  dsimp only
  rw [h.find?_commits hin]
  exact if_pos ⟨hlive, hsince⟩

/-- An id that is free, and under which nothing live is held, is executed. -/
theorem verdict_of_free (h : a.Recalled maxSize ttl) (ha : a.Accounted) {id : RequestId}
    (free : a.ledger.claims.find? id = none)
    (stale : ∀ w ∈ a.ledger.written, w.id = id → w.isExpired ttl a.now = true) :
    verdict maxSize ttl a.now id a.milestones = .start := by
  cases hlast : last? id a.milestones with
  | none => rw [verdict, hlast]
  | some n =>
    obtain ⟨c, hc, hs⟩ := started_of_last? hlast
    rw [verdict, hlast]
    dsimp only
    cases hf : (commits a.milestones).find? fun c => c.1 = n with
    | none =>
      apply if_pos
      rcases ha.settled c n hs with he | hr
      · exact he
      · have hclaim := ha.find?_claims_of_running hr
        rw [hc, free] at hclaim
        cases hclaim
    | some x =>
      obtain ⟨m, w⟩ := x
      have hin : (m, w) ∈ commits a.milestones := List.mem_of_find?_eq_some hf
      have hm : m = n := by simpa using List.find?_some hf
      rw [hm] at hin
      apply if_neg
      intro hlive
      obtain ⟨hage, hsince⟩ := hlive
      obtain ⟨w', htake⟩ := (commitsSince_lt_iff ⟨w, hin⟩ _).mp hsince
      rw [h.outcome_unique (List.mem_of_mem_take htake) hin] at htake
      have hheld : w ∈ Written.live ttl a.now a.ledger.written.reverse := by
        rw [h.recent]
        exact (Written.mem_live_iff _ _ _ _).mpr ⟨List.mem_map_of_mem htake, hage⟩
      have hw := List.mem_reverse.mp ((Written.mem_live_iff _ _ _ _).mp hheld).1
      obtain ⟨c', hs', hid, -⟩ := ha.committed_of_mem_commits hin
      have hstale :=
        stale w hw (hid.symm.trans ((congrArg Call.id (ha.unique _ _ _ hs' hs)).trans hc))
      exact absurd hage (Nat.not_lt.mpr (of_decide_eq_true hstale))

end Recalled

/-- An id with a handler under way is waited on. -/
theorem verdict_of_running (ha : a.Accounted) (maxSize ttl : Nat) {k : Call V × Nat}
    (hk : k ∈ a.running) : verdict maxSize ttl a.now k.1.id a.milestones = .wait k.2 := by
  obtain ⟨hlast, -, hend⟩ := ha.begun k hk
  have hf : (commits a.milestones).find? (fun c => c.1 = k.2) = none := by
    apply List.find?_eq_none.mpr
    intro c hc hn
    have he : c.1 ∈ ended a.milestones := mem_ended_of_mem_commits hc
    rw [of_decide_eq_true hn] at he
    exact hend he
  rw [verdict, hlast]
  dsimp only
  rw [hf]
  exact if_neg hend

/-- Every claim in the log was decided as its past has it. Who is answered from memory is answered
at once, and who starts a handler starts one of their own. -/
structure Judged (maxSize ttl : Nat) (log : List (Event V)) : Prop where
  decided : ∀ now c d past, .claimed now c d :: past <:+ log →
    d.verdict = verdict maxSize ttl now c.id (past.filter Event.isMilestone)
  answered : ∀ now c o past, .claimed now c (.replay o) :: past <:+ log →
    .finished c (c.answer o) :: .claimed now c (.replay o) :: past <:+ log
  fresh : ∀ now c n past, .claimed now c (.execute n) :: past <:+ log → ∀ c', ¬ Started c' n past

namespace Judged

/-- A claim in the log comes before whatever is no claim. -/
theorem suffix_of_append {told log past : List (Event V)} {now : Instant} {c : Call V}
    {d : Decision V} (silent : ∀ ev ∈ told, ev.isClaim = false)
    (h : .claimed now c d :: past <:+ told ++ log) : .claimed now c d :: past <:+ log := by
  rcases suffix_append_cases h with ⟨hm, -⟩ | h
  · cases silent _ hm
  · exact h

/-- What is no claim changes nothing. -/
theorem append {log : List (Event V)} (h : Judged maxSize ttl log) (told : List (Event V))
    (silent : ∀ ev ∈ told, ev.isClaim = false) : Judged maxSize ttl (told ++ log) where
  decided now c d past hs := h.decided now c d past (suffix_of_append silent hs)
  answered now c o past hs :=
    (h.answered now c o past (suffix_of_append silent hs)).trans (List.suffix_append _ _)
  fresh now c n past hs := h.fresh now c n past (suffix_of_append silent hs)

theorem claim {log : List (Event V)} {now : Instant} {c : Call V} {d : Decision V}
    (h : Judged maxSize ttl log) (told : List (Event V))
    (hd : d.verdict = verdict maxSize ttl now c.id (log.filter Event.isMilestone))
    (silent : ∀ ev ∈ told, ev.isClaim = false)
    (hr : ∀ o, d = .replay o → told = [.finished c (c.answer o)])
    (hn : ∀ n, d = .execute n → ∀ c', ¬ Started c' n log) :
    Judged maxSize ttl (told ++ .claimed now c d :: log) := by
  have inv : ∀ {now' c' d' past}, .claimed now' c' d' :: past <:+ told ++ .claimed now c d :: log →
      (now' = now ∧ c' = c ∧ d' = d ∧ past = log) ∨ .claimed now' c' d' :: past <:+ log := by
    intro now' c' d' past hs
    rcases List.suffix_cons_iff.mp (suffix_of_append silent hs) with hs | hs
    · cases hs
      exact .inl ⟨rfl, rfl, rfl, rfl⟩
    · exact .inr hs
  constructor
  · intro now' c' d' past hs
    rcases inv hs with ⟨hnow, hc, hd', hp⟩ | hs
    · rw [hnow, hc, hd', hp]
      exact hd
    · exact h.decided now' c' d' past hs
  · intro now' c' o past hs
    rcases inv hs with ⟨hnow, hc, hd', hp⟩ | hs
    · rw [hr o hd'.symm, hnow, hc, hd', hp]
      exact List.suffix_refl _
    · exact ((h.answered now' c' o past hs).trans (List.suffix_cons _ _)).trans
        (List.suffix_append _ _)
  · intro now' c' n past hs
    rcases inv hs with ⟨hnow, hc, hd', hp⟩ | hs
    · rw [hp]
      exact hn n hd'.symm
    · exact h.fresh now' c' n past hs

theorem effect (h : Judged maxSize ttl a.log) (hk : a.Kept) (ha : a.Accounted)
    (hr : a.Recalled maxSize ttl) (he : Effect a b) : Judged maxSize ttl b.log := by
  cases he with
  | start c n looked logged unsettled waiters clock =>
    obtain ⟨hn, hf, hx, -⟩ := Ledger.lookup_of_claimed hk.ledger looked
    rw [hr.ttl_eq] at hx
    rw [logged]
    refine h.claim [] (hr.verdict_of_free ha hf hx).symm (by simp) (by simp) ?_
    intro n' hn' c' hs
    cases hn'
    have hlt := ha.issued c' n ((started_filter c' n a.log).mpr hs)
    omega
  | wait c n looked logged unsettled waiters clock =>
    obtain ⟨⟨g, hg⟩, -⟩ := Ledger.lookup_of_pending looked
    obtain ⟨hn, c', hid, hk⟩ := (ha.find?_claims_iff _ _ _).mp hg
    rw [← hn] at hk
    have hv := verdict_of_running ha maxSize ttl hk
    rw [hid] at hv
    rw [logged]
    exact h.claim [] hv.symm (by simp) (by simp) (by simp)
  | replay c o looked logged unsettled waiters clock =>
    obtain ⟨-, ⟨w, hw, hl, ho⟩, -⟩ := Ledger.lookup_of_live looked
    rw [hr.ttl_eq] at hl
    have hid : w.id = c.id := by simpa using List.find?_some hw
    have hv := hr.verdict_of_held (List.mem_of_find?_eq_some hw) hl
    rw [hid, ho] at hv
    rw [logged]
    refine h.claim [_] hv.symm (by simp [Event.isClaim]) ?_ (by simp)
    intro o' ho'
    cases ho'
    rfl
  | commit e o result unsettled ledger logged waiters clock =>
    rw [logged]
    have hc := h.append [.committed a.now e.call.id e.number o] (by simp [Event.isClaim])
    exact hc.append _ fun ev hev => isClaim_of_mem_answers hev
  | rollBack e f result unsettled ledger logged waiters clock =>
    rw [logged]
    have hc := h.append [.rolledBack a.now e.call.id e.number
      (a.session.waitingOn e.number).length] (by simp [Event.isClaim])
    exact hc.append _ (by simp [Event.isClaim])
  | quiet noise silent logged unsettled ledger waiters clock =>
    rw [logged]
    exact h.append _ fun ev hev => isClaim_of_isNoise (silent ev hev)

end Judged

theorem judged_nil (maxSize ttl : Nat) : Judged maxSize ttl ([] : List (Event V)) where
  decided now c d past hs := by simp at hs
  answered now c o past hs := by simp at hs
  fresh now c n past hs := by simp at hs

theorem Reachable.judged (h : Reachable maxSize ttl a) :
    a.Recalled maxSize ttl ∧ Judged maxSize ttl a.log :=
  h.invariant (P := fun a => a.Recalled maxSize ttl ∧ Judged maxSize ttl a.log)
    ⟨recalled_new maxSize ttl, judged_nil maxSize ttl⟩
    fun _ _ hk ha he h => ⟨h.1.effect hk ha he, h.2.effect hk ha h.1 he⟩

/-- However the work goes on, the starts and the ends of executions before a claim decide what it
comes to. Who is answered from memory is answered at once, and a handler is started under a new
number. -/
theorem Reachable.claim_decided (h : Reachable maxSize ttl a) {now : Instant} {c : Call V}
    {d : Decision V} {past : List (Event V)} (hs : .claimed now c d :: past <:+ a.log) :
    d.verdict = verdict maxSize ttl now c.id (past.filter Event.isMilestone) ∧
      (∀ o, d = .replay o → .finished c (c.answer o) :: .claimed now c d :: past <:+ a.log) ∧
      (∀ n, d = .execute n → ∀ c', ¬ Started c' n past) := by
  obtain ⟨-, judged⟩ := h.judged
  refine ⟨judged.decided now c d past hs, ?_, ?_⟩
  · rintro o rfl
    exact judged.answered now c o past hs
  · rintro n rfl
    exact judged.fresh now c n past hs

end Activity

namespace Session
open History

/-- The starts and the ends of executions before a claim decide what it comes to: a caller waits on
the last execution of the id if it is under way, is answered at once if that has left an outcome
that is neither too old nor followed by too many others, and starts a handler otherwise. -/
theorem claim_decided_by_history (σ : Schedule V) (maxSize ttl : Nat) (steps : List (Step V))
    {now : Instant} {c : Call V} {d : Decision V} {past : List (Event V)}
    (h : .claimed now c d :: past <:+
      (Session.run σ { coordinator := .new maxSize ttl } steps).events) :
    d.verdict = verdict maxSize ttl now c.id (past.filter Event.isMilestone) ∧
      (∀ o, d = .replay o → .finished c (c.answer o) :: .claimed now c d :: past <:+
        (Session.run σ { coordinator := .new maxSize ttl } steps).events) ∧
      (∀ n, d = .execute n → ∀ c', ¬ Started c' n past) :=
  (Activity.reachable_run σ maxSize ttl steps).claim_decided h

/-- A second call is answered from memory as long as the outcome of the first is not too old. -/
theorem second_call_decided_by_first :
    let c : Call Nat := ⟨"caller", ⟨"id"⟩, .wide, { ending := .value 7 }⟩
    let past : List (Event Nat) := [.finished c (.ok 7), .committed 0 ⟨"id"⟩ 0 (.success 7),
      .claimed 0 c (.execute 0)]
    .claimed 9 c (.replay (.success 7)) :: past <:+
      (Session.run .arrival { coordinator := .new 1 10 } [.call c, .advance 9, .call c]).events ∧
    verdict 1 10 9 c.id (past.filter Event.isMilestone) = .replay (.success 7) := by
  intro c past
  have h : .claimed 9 c (.replay (.success 7)) :: past <:+
      (Session.run .arrival { coordinator := .new 1 10 } [.call c, .advance 9, .call c]).events :=
    ⟨[.finished c (.ok 7)], by cbv⟩
  exact ⟨h, (claim_decided_by_history .arrival 1 10 _ h).1.symm⟩

end Session
end AtMostOnce
