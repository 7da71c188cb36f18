import AtMostOnce.Clock
import AtMostOnce.Outcome
import AtMostOnce.Table
import AtMostOnce.WriteOrder

/-! A bounded memory of outcomes that expire. Each request id has at most one slot, which holds the
claim of an execution that has not ended or the outcome of one that has. -/
namespace AtMostOnce

/-- A remembered outcome. -/
structure Entry (V : Type) where
  outcome : Outcome V
  writtenAt : Instant
  /-- The number of its write. -/
  seq : Nat

/-- An outcome is over as soon as its time to live has passed. -/
def Entry.isExpired {V : Type} (e : Entry V) (ttl : Nat) (now : Instant) : Bool :=
  ttl ≤ now - e.writtenAt

inductive Slot (V M : Type) where
  /-- Claimed by the look-up with the given number, which left a marker for later ones. -/
  | claimed (generation : Nat) (marker : M)
  | committed (entry : Entry V)

/-- What a look-up finds. -/
inductive Lookup (V M : Type) where
  | live (outcome : Outcome V)
  | pending (marker : M)
  | claimed (generation : Nat)

structure Memo (V M : Type) where
  maxSize : Nat
  /-- Nanoseconds from the write of an outcome to its end. -/
  ttl : Nat
  slots : Table RequestId (Slot V M) := .empty
  order : WriteOrder := {}
  /-- The number of the next look-up. -/
  nextGeneration : Nat := 0
  evictions : Nat := 0
  expirations : Nat := 0

namespace Memo
variable {V M : Type}

/-- The outcome that write `seq` has left under `id`. -/
def entryOf? (m : Memo V M) (id : RequestId) (seq : Nat) : Option (Entry V) :=
  match m.slots.find? id with
  | some (.committed e) => if e.seq = seq then some e else none
  | _ => none

/-- Whether `id` is claimed by the look-up with the given number. -/
def isClaimedBy (m : Memo V M) (id : RequestId) (generation : Nat) : Bool :=
  match m.slots.find? id with
  | some (.claimed g _) => g = generation
  | _ => false

/-- Claims a free id. -/
def claim (m : Memo V M) (id : RequestId) (marker : M) : Lookup V M × Memo V M :=
  (.claimed m.nextGeneration,
    { m with
      slots := m.slots.insert id (.claimed m.nextGeneration marker)
      nextGeneration := m.nextGeneration + 1 })

/-- Looks `id` up and claims it if it has neither a live outcome nor a claim. Every look-up uses up
a number, whatever it finds. -/
def lookup (m : Memo V M) (now : Instant) (id : RequestId) (marker : M) :
    Lookup V M × Memo V M :=
  match m.slots.find? id with
  | some (.claimed _ other) =>
    (.pending other, { m with nextGeneration := m.nextGeneration + 1 })
  | some (.committed e) =>
    if e.isExpired m.ttl now then
      { m with order := (m.order.remove e.seq).2, expirations := m.expirations + 1 }.claim id marker
    else (.live e.outcome, { m with nextGeneration := m.nextGeneration + 1 })
  | none => m.claim id marker

/-- Drops the oldest write, and counts its outcome as expired or else as evicted. -/
def dropOldest (now : Instant) (m : Memo V M) : Memo V M :=
  match m.order.removeOldest with
  | (none, _) => m
  | (some (seq, id), order) =>
    match m.entryOf? id seq with
    | none => { m with order := order }
    | some e =>
      if e.isExpired m.ttl now then
        { m with
          order := order, slots := m.slots.erase id, expirations := m.expirations + 1 }
      else
        { m with
          order := order, slots := m.slots.erase id, evictions := m.evictions + 1 }

/-- Drops as many of the oldest writes as it takes to have room for one more. There is always room
for one. -/
def makeRoom (now : Instant) (m : Memo V M) : Memo V M :=
  Nat.repeat (dropOldest now) (m.order.size + 1 - max 1 m.maxSize) m

/-- Puts an outcome in the place of the claim with the given number. Room is made first, and also if
the claim is no longer held and the outcome is refused. -/
def commit (m : Memo V M) (now : Instant) (id : RequestId) (generation : Nat)
    (outcome : Outcome V) : Memo V M :=
  let m := m.makeRoom now
  let (seq, order) := m.order.touch id
  if m.isClaimedBy id generation then
    { m with order := order, slots := m.slots.insert id (.committed ⟨outcome, now, seq⟩) }
  else { m with order := (order.remove seq).2 }

/-- Gives up the claim with the given number, if it is still held. -/
def release (m : Memo V M) (id : RequestId) (generation : Nat) : Memo V M :=
  if m.isClaimedBy id generation then { m with slots := m.slots.erase id } else m

/-- Drops the expired outcomes at the head of the given writes and counts them. -/
def purgeAll (now : Instant) : List (Nat × RequestId) → Memo V M → Nat × Memo V M
  | [], m => (0, m)
  | (seq, id) :: writes, m =>
    match m.entryOf? id seq with
    | none => purgeAll now writes (m.dropOldest now)
    | some e =>
      if e.isExpired m.ttl now then
        let (n, m) := purgeAll now writes (m.dropOldest now)
        (n + 1, m)
      else (0, m)

/-- Drops expired outcomes, from the oldest write up to the first live one, and counts them. -/
def purge (m : Memo V M) (now : Instant) : Nat × Memo V M := purgeAll now m.order.records m

/-- The number of writes held. -/
def size (m : Memo V M) : Nat := m.order.size

/-- The number of ids claimed. -/
def inFlight (m : Memo V M) : Nat :=
  m.slots.count fun
    | .claimed .. => true
    | .committed _ => false

end Memo
end AtMostOnce
