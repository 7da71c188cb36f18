import AtMostOnce.Proofs.Session.Account

/-! Callers that are still to be answered, and the executions that they have turned to. -/
namespace AtMostOnce
variable {V : Type}

namespace History

/-- With its last claim the caller has turned to execution `n`: its own, one that it waits on, or
one whose outcome was live. -/
inductive TurnsTo (ttl : Nat) (c : Call V) (n : Nat) : List (Event V) → Prop where
  | own (now : Instant) (past : List (Event V)) :
    TurnsTo ttl c n (.claimed now c (.execute n) :: past)
  | wait (now : Instant) (past : List (Event V)) :
    TurnsTo ttl c n (.claimed now c (.wait n) :: past)
  | remembered (now written : Instant) (o : Outcome V) (past : List (Event V))
    (last : last? c.id past = some n) (left : .committed written c.id n o ∈ past)
    (live : now - written < ttl) : TurnsTo ttl c n (.claimed now c (.replay o) :: past)
  | later (ev : Event V) (past : List (Event V)) (turned : TurnsTo ttl c n past)
    (other : ∀ now d, ev ≠ .claimed now c d) : TurnsTo ttl c n (ev :: past)

variable {ttl n n' : Nat} {c : Call V} {past told : List (Event V)}

theorem TurnsTo.unique (h : TurnsTo ttl c n past) (h' : TurnsTo ttl c n' past) : n = n' := by
  induction h with
  | own now past =>
    cases h' with
    | own => rfl
    | later _ _ _ other => exact absurd rfl (other now _)
  | wait now past =>
    cases h' with
    | wait => rfl
    | later _ _ _ other => exact absurd rfl (other now _)
  | remembered now written o past last left live =>
    cases h' with
    | remembered _ _ _ _ last' _ _ => exact Option.some.inj (last.symm.trans last')
    | later _ _ _ other => exact absurd rfl (other now _)
  | later ev past turned other ih =>
    cases h' with
    | own now => exact absurd rfl (other now _)
    | wait now => exact absurd rfl (other now _)
    | remembered now => exact absurd rfl (other now _)
    | later _ _ turned' _ => exact ih turned'

theorem TurnsTo.append (h : TurnsTo ttl c n past) (told : List (Event V))
    (silent : ∀ ev ∈ told, ev.isClaim = false) : TurnsTo ttl c n (told ++ past) := by
  induction told with
  | nil => exact h
  | cons ev told ih =>
    have rest := ih fun ev hev => silent ev (List.mem_cons_of_mem _ hev)
    refine .later ev _ rest ?_
    intro now d hev
    have hs := silent ev List.mem_cons_self
    rw [hev] at hs
    cases hs

/-- A claim of another call changes nothing. -/
theorem TurnsTo.claimed (h : TurnsTo ttl c n past) (now : Instant) {c' : Call V} (d : Decision V)
    (hc : c ≠ c') : TurnsTo ttl c n (.claimed now c' d :: past) := by
  refine .later _ _ h ?_
  intro now' d' he
  cases he
  exact hc rfl

end History

namespace Activity
open History
variable {ttl : Nat} {a b : Activity V}

/-- Callers that are to be answered have turned to an execution under way. -/
structure Attended (ttl : Nat) (a : Activity V) : Prop where
  executing : ∀ k ∈ a.running, TurnsTo ttl k.1 k.2 a.log
  waiting : ∀ w ∈ a.session.waiters, TurnsTo ttl w.call w.number a.log ∧
    ∃ k ∈ a.running, k.1.id = w.call.id ∧ k.2 = w.number

namespace Attended

/-- A claim turns nobody away, even if it is made by an equal call. -/
theorem claimed (h : a.Attended ttl) {c : Call V} {d : Decision V}
    (hd : ∀ k ∈ a.running, k.1.id = c.id → d = .wait k.2) :
    (∀ k ∈ a.running, TurnsTo ttl k.1 k.2 (.claimed a.now c d :: a.log)) ∧
      ∀ w ∈ a.session.waiters, TurnsTo ttl w.call w.number (.claimed a.now c d :: a.log) := by
  constructor
  · intro k hk
    by_cases hc : k.1 = c
    · rw [hd k hk (congrArg Call.id hc), hc]
      exact .wait _ _
    · exact (h.executing k hk).claimed _ _ hc
  · intro w hw
    obtain ⟨ht, k, hk, hid, hn⟩ := h.waiting w hw
    by_cases hc : w.call = c
    · rw [hd k hk (hid.trans (congrArg Call.id hc)), hc, hn]
      exact .wait _ _
    · exact ht.claimed _ _ hc

/-- What is no claim, and ends no execution that somebody waits on, turns nobody away. -/
theorem append (h : a.Attended ttl) (told : List (Event V)) (logged : b.log = told ++ a.log)
    (silent : ∀ ev ∈ told, ev.isClaim = false) (hr : b.running ⊆ a.running)
    (hw : ∀ w ∈ b.session.waiters, w ∈ a.session.waiters ∧
      ∀ k ∈ a.running, k.2 = w.number → k ∈ b.running) : b.Attended ttl where
  executing k hk := by
    rw [logged]
    exact (h.executing k (hr hk)).append told silent
  waiting w hmem := by
    obtain ⟨hwa, hkeep⟩ := hw w hmem
    obtain ⟨ht, k, hk, hid, hn⟩ := h.waiting w hwa
    rw [logged]
    exact ⟨ht.append told silent, k, hkeep k hk hn, hid, hn⟩

/-- An execution ends, and nobody waits on it any more. -/
theorem settle (h : a.Attended ttl) {k : Call V × Nat} (told : List (Event V))
    (logged : b.log = told ++ a.log) (silent : ∀ ev ∈ told, ev.isClaim = false)
    (hr : a.running.Perm (k :: b.running))
    (hw : b.session.waiters = a.session.waiters.filter fun w => w.number ≠ k.2) :
    b.Attended ttl := by
  apply h.append told logged silent
  · intro k' hk'
    exact hr.mem_iff.mpr (List.mem_cons_of_mem _ hk')
  · intro w hmem
    rw [hw, List.mem_filter] at hmem
    refine ⟨hmem.1, ?_⟩
    intro k' hk' hn
    rcases List.mem_cons.mp (hr.mem_iff.mp hk') with he | hk'
    · rw [he] at hn
      exact absurd hn.symm (of_decide_eq_true hmem.2)
    · exact hk'

theorem effect (h : a.Attended ttl) (hk : a.Kept) (ha : a.Accounted) (he : Effect a b) :
    b.Attended ttl := by
  cases he with
  | start c n looked logged unsettled waiters clock =>
    obtain ⟨-, free, -⟩ := Ledger.lookup_of_claimed hk.ledger looked
    have hr : b.running = a.running ++ [(c, n)] := by
      unfold running
      rw [unsettled, List.map_append]
      rfl
    obtain ⟨hex, hwait⟩ := h.claimed (c := c) (d := .execute n) fun k hk hid => by
      have hf := ha.find?_claims_of_running hk
      rw [hid, free] at hf
      cases hf
    constructor
    · intro k hk
      rw [logged]
      rw [hr] at hk
      rcases List.mem_append.mp hk with hk | hk
      · exact hex k hk
      · rw [List.mem_singleton.mp hk]
        exact .own _ _
    · intro w hw
      rw [waiters] at hw
      obtain ⟨-, k, hk, hkw⟩ := h.waiting w hw
      rw [logged, hr]
      exact ⟨hwait w hw, k, List.mem_append_left _ hk, hkw⟩
  | wait c n looked logged unsettled waiters clock =>
    obtain ⟨⟨g, hg⟩, -⟩ := Ledger.lookup_of_pending looked
    obtain ⟨hn, c', hid, hk'⟩ := (ha.find?_claims_iff _ _ _).mp hg
    rw [← hn] at hg hk'
    have hr : b.running = a.running := congrArg (List.map Execution.key) unsettled
    obtain ⟨hex, hwait⟩ := h.claimed (c := c) (d := .wait n) fun k hk hid => by
      have hf := ha.find?_claims_of_running hk
      rw [hid, hg] at hf
      cases hf
      rfl
    constructor
    · intro k hk
      rw [logged]
      rw [hr] at hk
      exact hex k hk
    · intro w hw
      rw [waiters] at hw
      rw [logged, hr]
      rcases List.mem_append.mp hw with hw | hw
      · obtain ⟨-, hkw⟩ := h.waiting w hw
        exact ⟨hwait w hw, hkw⟩
      · rw [List.mem_singleton.mp hw]
        exact ⟨.wait _ _, (c', n), hk', hid, rfl⟩
  | replay c o looked logged unsettled waiters clock =>
    obtain ⟨free, -, -⟩ := Ledger.lookup_of_live looked
    have hr : b.running = a.running := congrArg (List.map Execution.key) unsettled
    obtain ⟨hex, hwait⟩ := h.claimed (c := c) (d := .replay o) fun k hk hid => by
      have hf := ha.find?_claims_of_running hk
      rw [hid, free] at hf
      cases hf
    constructor
    · intro k hk
      rw [logged]
      rw [hr] at hk
      exact (hex k hk).append [_] (by simp [Event.isClaim])
    · intro w hw
      rw [waiters] at hw
      obtain ⟨-, hkw⟩ := h.waiting w hw
      rw [logged, hr]
      exact ⟨(hwait w hw).append [_] (by simp [Event.isClaim]), hkw⟩
  | commit e o result unsettled ledger logged waiters clock =>
    have hr : a.running.Perm (e.key :: b.running) := unsettled.map Execution.key
    rw [List.append_cons] at logged
    refine h.settle _ logged ?_ hr waiters
    intro ev hev
    rcases List.mem_append.mp hev with hev | hev
    · exact isClaim_of_mem_answers hev
    · rw [List.mem_singleton.mp hev]
      rfl
  | rollBack e f result unsettled ledger logged waiters clock =>
    have hr : a.running.Perm (e.key :: b.running) := unsettled.map Execution.key
    rw [List.append_cons] at logged
    refine h.settle _ logged ?_ hr waiters
    intro ev hev
    rcases List.mem_append.mp hev with hev | hev
    · obtain ⟨c, -, hc⟩ := List.mem_map.mp hev
      rw [← hc]
      rfl
    · rw [List.mem_singleton.mp hev]
      rfl
  | quiet noise silent logged unsettled ledger waiters clock =>
    apply h.append noise logged fun ev hev => isClaim_of_isNoise (silent ev hev)
    · exact unsettled.subset
    · intro w hw
      exact ⟨waiters.subset hw, fun k hk _ => unsettled.symm.subset hk⟩

end Attended

end Activity
end AtMostOnce
