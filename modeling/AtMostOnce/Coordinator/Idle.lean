import AtMostOnce.Coordinator
import AtMostOnce.Memo.Idle

/-! Calls made one at a time. Each of them is answered before the next one begins, so that none ever
has to wait. Calls that overlap, and callers that go away, are left to sessions. -/
namespace AtMostOnce

namespace Coordinator
variable {V : Type} {k k' : Coordinator V} {now : Instant} {id : RequestId}

theorem idle_of_replay {o : Outcome V} (idle : k.memo.Idle)
    (h : k.claim now id = (.replay o, k')) : k'.memo.Idle := by
  have hk := idle.lookup_live_or_claimed now id k.memo.nextGeneration
  unfold claim at h
  split at h
  · rename_i hl
    cases h
    rw [hl] at hk
    rcases hk with ⟨_, _, hi⟩ | ⟨_, hc, _⟩
    · exact hi
    · cases hc
  all_goals cases h

theorem claim_ne_wait {n : Nat} (idle : k.memo.Idle) : k.claim now id ≠ (.wait n, k') := by
  intro h
  have hk := idle.lookup_live_or_claimed now id k.memo.nextGeneration
  unfold claim at h
  split at h
  · cases h
  · rename_i hl
    rw [hl] at hk
    rcases hk with ⟨_, hc, _⟩ | ⟨_, hc, _⟩ <;> cases hc
  · cases h

theorem idle_commit {n : Nat} (idle : k.memo.Idle) (h : k.claim now id = (.execute n, k'))
    (later : Instant) (o : Outcome V) : (k'.commit later id n o).memo.Idle := by
  have hk := idle.lookup_live_or_claimed now id k.memo.nextGeneration
  unfold claim at h
  split at h
  · cases h
  · cases h
  · rename_i hl
    cases h
    rw [hl] at hk
    rcases hk with ⟨_, hc, _⟩ | ⟨_, hc, only⟩
    · cases hc
    · cases hc
      exact only.idle_commit later o

end Coordinator

/-- A coordinator with no execution under way. -/
structure IdleCoordinator (V : Type) where
  toCoordinator : Coordinator V
  idle : toCoordinator.memo.Idle

namespace IdleCoordinator
variable {V S : Type}

/-- A coordinator that remembers up to `maxSize` outcomes for `ttl` nanoseconds each. -/
def new (maxSize ttl : Nat) : IdleCoordinator V := ⟨.new maxSize ttl, fun _ _ _ h => nomatch h⟩

/-- Calls `run` on a state, unless an outcome is remembered under `id`. -/
def call (k : IdleCoordinator V) (now : Instant) (id : RequestId) (run : S → Outcome V × S)
    (s : S) : Outcome V × IdleCoordinator V × S :=
  match h : k.toCoordinator.claim now id with
  | (.replay outcome, k') => (outcome, ⟨k', Coordinator.idle_of_replay k.idle h⟩, s)
  | (.wait _, _) => absurd h (Coordinator.claim_ne_wait k.idle)
  | (.execute number, k') =>
    let (outcome, s) := run s
    (outcome, ⟨k'.commit now id number outcome, Coordinator.idle_commit k.idle h now outcome⟩, s)

/-- Drops expired outcomes and counts them. -/
def purge (k : IdleCoordinator V) (now : Instant) : Nat × IdleCoordinator V :=
  ((k.toCoordinator.purge now).1,
    ⟨(k.toCoordinator.purge now).2, Memo.idle_purge k.idle now⟩)

end IdleCoordinator
end AtMostOnce
