import AtMostOnce.Proofs.Session.Effect

/-! What a log says of executions. Logs are read with the latest event first. -/
namespace AtMostOnce
variable {V : Type}

/-- The number under which the event starts an execution of `id`. -/
def Event.startOf? (id : RequestId) : Event V → Option Nat
  | .claimed _ c (.execute n) => if c.id = id then some n else none
  | _ => none

/-- The number of the execution that the event ends. -/
def Event.endOf? : Event V → Option Nat
  | .committed _ _ n _ => some n
  | .rolledBack _ _ n _ => some n
  | _ => none

/-- The outcome that the event leaves, with the number of its execution. -/
def Event.commit? : Event V → Option (Nat × Written V)
  | .committed now id n o => some (n, ⟨id, o, now⟩)
  | _ => none

def Event.isClaim : Event V → Bool
  | .claimed .. => true
  | _ => false

namespace History

/-- The execution of `id` that was started last. -/
def last? (id : RequestId) (past : List (Event V)) : Option Nat :=
  past.findSome? (Event.startOf? id)

/-- The handler of `c` was started as execution `n`. -/
def Started (c : Call V) (n : Nat) (past : List (Event V)) : Prop :=
  ∃ now, Event.claimed now c (.execute n) ∈ past

/-- The numbers of the executions that have ended. -/
def ended (past : List (Event V)) : List Nat := past.filterMap Event.endOf?

/-- The outcomes left by executions, the latest first. -/
def commits (past : List (Event V)) : List (Nat × Written V) := past.filterMap Event.commit?

theorem last?_cons (id : RequestId) (ev : Event V) (past : List (Event V)) :
    last? id (ev :: past) = (ev.startOf? id).or (last? id past) := by
  rw [last?, List.findSome?_cons]
  cases ev.startOf? id <;> rfl

theorem started_of_last? {id : RequestId} {n : Nat} {past : List (Event V)}
    (h : last? id past = some n) : ∃ c, c.id = id ∧ Started c n past := by
  obtain ⟨ev, hm, hs⟩ := List.exists_of_findSome?_eq_some h
  unfold Event.startOf? at hs
  split at hs
  · rename_i now c m
    split at hs
    · rename_i hid
      cases hs
      exact ⟨c, hid, now, hm⟩
    · cases hs
  · cases hs

theorem Started.mono {c : Call V} {n : Nat} {past past' : List (Event V)} (h : Started c n past)
    (hp : past ⊆ past') : Started c n past' := by
  obtain ⟨now, hm⟩ := h
  exact ⟨now, hp hm⟩

theorem started_cons_execute_iff (now : Instant) (c : Call V) (n : Nat) (c' : Call V) (n' : Nat)
    (past : List (Event V)) : Started c' n' (.claimed now c (.execute n) :: past) ↔
      (c' = c ∧ n' = n) ∨ Started c' n' past := by
  constructor
  · intro h
    obtain ⟨now', hm⟩ := h
    rcases List.mem_cons.mp hm with hm | hm
    · cases hm
      exact .inl ⟨rfl, rfl⟩
    · exact .inr ⟨now', hm⟩
  · intro h
    rcases h with ⟨hc, hn⟩ | h
    · rw [hc, hn]
      exact ⟨now, List.mem_cons_self⟩
    · exact h.mono (List.subset_cons_self _ _)

theorem started_cons_iff_of_end {ev : Event V} {m : Nat} (he : ev.endOf? = some m) (c : Call V)
    (n : Nat) (past : List (Event V)) : Started c n (ev :: past) ↔ Started c n past := by
  constructor
  · intro h
    obtain ⟨now, hm⟩ := h
    rcases List.mem_cons.mp hm with hm | hm
    · rw [← hm] at he
      cases he
    · exact ⟨now, hm⟩
  · exact fun h => h.mono (List.subset_cons_self _ _)

theorem startOf?_of_end {ev : Event V} {m : Nat} (he : ev.endOf? = some m) (id : RequestId) :
    ev.startOf? id = none := by
  cases ev <;> first | rfl | cases he

theorem mem_ended_cons_of_end {ev : Event V} {m : Nat} (he : ev.endOf? = some m) (n : Nat)
    (past : List (Event V)) : n ∈ ended (ev :: past) ↔ n = m ∨ n ∈ ended past := by
  rw [ended, List.filterMap_cons, he, List.mem_cons]
  rfl

theorem started_filter (c : Call V) (n : Nat) (past : List (Event V)) :
    Started c n (past.filter Event.isMilestone) ↔ Started c n past := by
  constructor
  · intro h
    obtain ⟨now, hm⟩ := h
    exact ⟨now, List.mem_of_mem_filter hm⟩
  · intro h
    obtain ⟨now, hm⟩ := h
    exact ⟨now, List.mem_filter.mpr ⟨hm, rfl⟩⟩

theorem ended_filter (past : List (Event V)) :
    ended (past.filter Event.isMilestone) = ended past := by
  rw [ended, List.filterMap_filter]
  apply List.filterMap_congr
  intro ev _
  cases ev with
  | claimed now c d => cases d <;> rfl
  | _ => rfl

theorem commits_filter (past : List (Event V)) :
    commits (past.filter Event.isMilestone) = commits past := by
  rw [commits, List.filterMap_filter]
  apply List.filterMap_congr
  intro ev _
  cases ev with
  | claimed now c d => cases d <;> rfl
  | _ => rfl

theorem last?_filter (id : RequestId) (past : List (Event V)) :
    last? id (past.filter Event.isMilestone) = last? id past := by
  induction past with
  | nil => rfl
  | cons ev past ih =>
    rw [last?_cons, ← ih]
    by_cases hm : ev.isMilestone = true
    · rw [List.filter_cons_of_pos hm, last?_cons]
    · have hs : ev.startOf? id = none := by
        unfold Event.startOf?
        split
        · exact absurd rfl hm
        · rfl
      rw [List.filter_cons_of_neg hm, hs]
      rfl

theorem mem_commits_iff (past : List (Event V)) (n : Nat) (w : Written V) :
    (n, w) ∈ commits past ↔ .committed w.writtenAt w.id n w.outcome ∈ past := by
  rw [commits, List.mem_filterMap]
  constructor
  · intro h
    obtain ⟨ev, hm, hc⟩ := h
    cases ev with
    | committed now id m o =>
      cases hc
      exact hm
    | _ => cases hc
  · intro h
    exact ⟨_, h, rfl⟩

theorem mem_ended_of_mem_commits {past : List (Event V)} {c : Nat × Written V}
    (h : c ∈ commits past) : c.1 ∈ ended past :=
  List.mem_filterMap.mpr ⟨_, (mem_commits_iff past c.1 c.2).mp h, rfl⟩

/-- What comes late in a log is among what was added, or was there before. -/
theorem suffix_append_cases {α : Type} {told rest past : List α} {x : α}
    (h : x :: past <:+ told ++ rest) :
    (x ∈ told ∧ ∃ more, more ⊆ told ∧ past = more ++ rest) ∨ x :: past <:+ rest := by
  induction told with
  | nil => exact .inr h
  | cons y told ih =>
    rw [List.cons_append, List.suffix_cons_iff] at h
    rcases h with h | h
    · obtain ⟨hx, hp⟩ := List.cons.inj h
      rw [hx]
      exact .inl ⟨List.mem_cons_self, told, List.subset_cons_self _ _, hp⟩
    · rcases ih h with ⟨hx, more, hsub, hp⟩ | h
      · exact .inl ⟨List.mem_cons_of_mem _ hx, more, List.subset_cons_of_subset _ hsub, hp⟩
      · exact .inr h

end History

namespace Activity
variable {a b : Activity V}

theorem milestones_of_silent (noise : List (Event V)) (h : b.log = noise ++ a.log)
    (hn : ∀ ev ∈ noise, ev.isMilestone = false) : b.milestones = a.milestones := by
  unfold milestones
  rw [h, List.filter_append, List.filter_eq_nil_iff.mpr, List.nil_append]
  intro ev hev hm
  rw [hn ev hev] at hm
  cases hm

theorem milestones_of_milestone (told : List (Event V)) {ev : Event V}
    (h : b.log = told ++ ev :: a.log) (ht : ∀ ev ∈ told, ev.isMilestone = false)
    (hm : ev.isMilestone = true) : b.milestones = ev :: a.milestones := by
  unfold milestones
  rw [h, List.filter_append, List.filter_eq_nil_iff.mpr, List.nil_append,
    List.filter_cons_of_pos hm]
  intro ev' hev hm'
  rw [ht ev' hev] at hm'
  cases hm'

theorem mem_answers_iff {cs : List (Call V)} {o : Outcome V} {ev : Event V} :
    ev ∈ answers cs o ↔ ∃ c ∈ cs, ev = .finished c (c.answer o) := by
  rw [answers, List.mem_reverse, List.mem_map]
  constructor
  · intro h
    obtain ⟨c, hc, he⟩ := h
    exact ⟨c, hc, he.symm⟩
  · intro h
    obtain ⟨c, hc, he⟩ := h
    exact ⟨c, hc, he.symm⟩

theorem isMilestone_of_mem_answers {cs : List (Call V)} {o : Outcome V} {ev : Event V}
    (h : ev ∈ answers cs o) : ev.isMilestone = false := by
  obtain ⟨c, -, he⟩ := mem_answers_iff.mp h
  rw [he]
  rfl

theorem isClaim_of_mem_answers {cs : List (Call V)} {o : Outcome V} {ev : Event V}
    (h : ev ∈ answers cs o) : ev.isClaim = false := by
  obtain ⟨c, -, he⟩ := mem_answers_iff.mp h
  rw [he]
  rfl

theorem isMilestone_of_isNoise {ev : Event V} (h : ev.isNoise = true) :
    ev.isMilestone = false := by
  cases ev <;> first | rfl | cases h

theorem isClaim_of_isNoise {ev : Event V} (h : ev.isNoise = true) : ev.isClaim = false := by
  cases ev <;> first | rfl | cases h

end Activity
end AtMostOnce
