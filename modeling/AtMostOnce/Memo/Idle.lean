import AtMostOnce.Memo

/-! Memories without claims. When calls are made one at a time, every claim is settled before the
next look-up, and none is ever found pending. -/
namespace AtMostOnce.Memo
variable {V M : Type}

/-- No id is claimed. -/
def Idle (m : Memo V M) : Prop := ∀ id g marker, m.slots.find? id ≠ some (.claimed g marker)

/-- No claim is held but that of look-up `g` on `id`. -/
def OnlyClaim (m : Memo V M) (id : RequestId) (g : Nat) : Prop :=
  ∀ id' g' marker, m.slots.find? id' = some (.claimed g' marker) → id' = id ∧ g' = g

theorem idle_of_subset {m m' : Memo V M} (h : m.Idle)
    (hs : ∀ id s, m'.slots.find? id = some s → m.slots.find? id = some s) : m'.Idle :=
  fun id g marker hc => h id g marker (hs id _ hc)

theorem dropOldest_find? (now : Instant) (m : Memo V M) (id : RequestId) (s : Slot V M)
    (h : (m.dropOldest now).slots.find? id = some s) : m.slots.find? id = some s := by
  unfold dropOldest at h
  split at h
  · exact h
  split at h
  · exact h
  split at h
  all_goals
    dsimp only at h
    rw [Table.find?_erase] at h
    split at h
    · cases h
    · exact h

theorem makeRoom_find? (now : Instant) (m : Memo V M) (id : RequestId) (s : Slot V M)
    (h : (m.makeRoom now).slots.find? id = some s) : m.slots.find? id = some s := by
  unfold makeRoom at h
  generalize m.order.size + 1 - max 1 m.maxSize = n at h
  induction n with
  | zero => exact h
  | succ n ih => exact ih (dropOldest_find? now _ id s h)

theorem purgeAll_find? (now : Instant) (writes : List (Nat × RequestId)) (m : Memo V M)
    (id : RequestId) (s : Slot V M) (h : (purgeAll now writes m).2.slots.find? id = some s) :
    m.slots.find? id = some s := by
  induction writes generalizing m with
  | nil => exact h
  | cons w writes ih =>
    unfold purgeAll at h
    split at h
    · exact dropOldest_find? now m id s (ih _ h)
    split at h
    · exact dropOldest_find? now m id s (ih _ h)
    · exact h

theorem idle_purge {m : Memo V M} (h : m.Idle) (now : Instant) : (m.purge now).2.Idle :=
  idle_of_subset h (purgeAll_find? now _ m)

/-- The number of a claim that is held. -/
theorem isClaimedBy_eq_true_iff (m : Memo V M) (id : RequestId) (g : Nat) :
    m.isClaimedBy id g = true ↔ ∃ marker, m.slots.find? id = some (.claimed g marker) := by
  unfold isClaimedBy
  split
  · rename_i g' marker h
    rw [h]
    simp only [decide_eq_true_eq, Option.some.injEq, Slot.claimed.injEq]
    exact ⟨fun e => ⟨marker, e, rfl⟩, fun ⟨_, e, _⟩ => e⟩
  · rename_i h
    simp only [Bool.false_eq_true, false_iff, not_exists]
    exact fun marker hm => h _ _ hm

/-- Once its only claim is committed, a memory is idle. -/
theorem OnlyClaim.idle_commit {m : Memo V M} {id : RequestId} {g : Nat} (h : m.OnlyClaim id g)
    (now : Instant) (o : Outcome V) : (m.commit now id g o).Idle := by
  have room : (m.makeRoom now).OnlyClaim id g := fun id' g' marker hc =>
    h id' g' marker (makeRoom_find? now m id' _ hc)
  unfold commit
  generalize m.makeRoom now = m at room
  dsimp only
  split
  · intro id' g' marker hc
    dsimp only at hc
    rw [Table.find?_insert] at hc
    split at hc
    · cases hc
    · rename_i hne
      exact hne (room id' g' marker hc).1
  · rename_i hno
    intro id' g' marker hc
    obtain ⟨rfl, rfl⟩ := room id' g' marker hc
    exact hno ((isClaimedBy_eq_true_iff m _ _).2 ⟨marker, hc⟩)

theorem Idle.onlyClaim_claim {m : Memo V M} (h : m.Idle) (id : RequestId) (marker : M) :
    (m.claim id marker).2.OnlyClaim id m.nextGeneration := by
  intro id' g' marker' hc
  simp only [claim, Table.find?_insert] at hc
  split at hc
  · cases hc
    exact ⟨‹_›, rfl⟩
  · exact absurd hc (h _ _ _)

/-- What a look-up in an idle memory leaves. -/
theorem Idle.lookup_live_or_claimed {m : Memo V M} (h : m.Idle) (now : Instant)
    (id : RequestId) (marker : M) :
    (∃ o, (m.lookup now id marker).1 = .live o ∧ (m.lookup now id marker).2.Idle) ∨
      ∃ g, (m.lookup now id marker).1 = .claimed g ∧
        (m.lookup now id marker).2.OnlyClaim id g := by
  unfold Memo.lookup
  split
  · rename_i hc
    exact absurd hc (h _ _ _)
  · split
    · exact .inr ⟨_, rfl, Idle.onlyClaim_claim (idle_of_subset h fun _ _ hs => hs) id marker⟩
    · exact .inl ⟨_, rfl, idle_of_subset h fun _ _ hs => hs⟩
  · exact .inr ⟨_, rfl, h.onlyClaim_claim id marker⟩

end AtMostOnce.Memo
